import MetricWiring.Proofs.Attribute.ArgumentGrammar
import MetricWiring.Proofs.Code.TypeReader

/-!
# The grammar of type arguments

Where an argument ends can depend on what stands behind it: a keyword takes the parentheses that
follow, and a type goes on as far as it can. So an argument is written with a view to the trees
behind it (`TypeArgument.SpellsBefore`), and the reader takes exactly such an argument from the
front (`read_eq_ok_iff`). Where types stop at commas, every argument does, as at the end of the
list, so that arguments with commas between them can be written without regard to each other
(`SpellsBefore.before_stop`).

The arguments that are accepted are those of this form in which no kind is repeated; what they come
to is what the reader has gathered when it arrives at the end (`accepts_exactly_consistent`).
-/
namespace MetricWiring

open Code (Ident TokenTree TypeReader TypeSyntax)

namespace TypeArgument

/-- How an argument is written if the trees in `after` stand behind it. -/
inductive SpellsBefore (types : TypeReader) (after : List TokenTree) :
    List TokenTree → TypeArgument → Prop
  | space {joint : Bool} {value written : String} :
      SpellsBefore types after
        [.ident ⟨"namespace", false⟩, .punct '=' joint, .literal (.string value written)]
        (.space value)
  | parent {joint : Bool} {type : List TokenTree} {t : TypeSyntax}
      (htype : types.read (type ++ after) = some (t, after)) :
      SpellsBefore types after (.ident ⟨"parent", false⟩ :: .punct '=' joint :: type) (.parent t)
  | bare {k : Kind} (hafter : Code.atGroup .parenthesis after = false) :
      SpellsBefore types after [.ident ⟨k.keyword, false⟩] (.declaration k {})
  | list {k : Kind} {content : List TokenTree} {given : List DeclarationArgument}
      (hcontent : DeclarationArgument.Listed content given) :
      SpellsBefore types after [.ident ⟨k.keyword, false⟩, .group .parenthesis content]
        (.declaration k (.ofList given))

/-- The arguments are written one after the other, each with a comma behind it or none. -/
inductive Listed (types : TypeReader) : List TokenTree → List TypeArgument → Prop
  | nil : Listed types [] []
  | cons {item separator rest : List TokenTree} {a : TypeArgument} {given : List TypeArgument}
      (hitem : SpellsBefore types (separator ++ rest) item a)
      (hseparator : DeclarationArgument.Separates separator) (hrest : Listed types rest given) :
      Listed types (item ++ (separator ++ rest)) (a :: given)

/-- The arguments are written on their own, with one comma between each and the next, and perhaps
one behind the last. -/
inductive CommaListed (types : TypeReader) : List TokenTree → List TypeArgument → Prop
  | nil : CommaListed types [] []
  | last {item : List TokenTree} {a : TypeArgument} (hitem : SpellsBefore types [] item a) :
      CommaListed types item [a]
  | cons {item rest : List TokenTree} {a : TypeArgument} {given : List TypeArgument} {joint : Bool}
      (hitem : SpellsBefore types [] item a) (hrest : CommaListed types rest given) :
      CommaListed types (item ++ .punct ',' joint :: rest) (a :: given)

/-- What is asked of an argument by itself: a namespace has a text, and only a counter is
monotonic. -/
def Valid : TypeArgument → Prop
  | space s => s ≠ ""
  | parent _ => True
  | declaration k args => args.monotonic = true → k = .counted

end TypeArgument

namespace TypeArguments

/-- What a list of arguments comes to: the last namespace, the last parent and all declarations. -/
def ofList (given : List TypeArgument) : TypeArguments where
  space := (given.filterMap TypeArgument.space?).getLast?
  parent := (given.filterMap TypeArgument.parent?).getLast?
  declarations := given.filterMap TypeArgument.declaration?

/-- Each argument is in order, and no kind is declared twice. -/
structure Consistent (given : List TypeArgument) : Prop where
  valid : ∀ a ∈ given, a.Valid
  nodup : (ofList given).kinds.Nodup

end TypeArguments

/-! ## One argument -/

variable {types : TypeReader}

namespace TypeArgument

theorem spaceValue_eq_ok_iff {ts rest : List TokenTree} {a : TypeArgument} :
    spaceValue ts = .ok (a, rest) ↔
      ∃ joint value written, ts = .punct '=' joint :: .literal (.string value written) :: rest ∧
        a = .space value ∧ value ≠ "" := by
  constructor
  · intro h
    unfold spaceValue at h
    split at h
    · rename_i value after hvalue
      obtain ⟨joint, written, rfl⟩ := DeclarationArgument.exists_nameValue hvalue
      split at h
      · cases h
      · rename_i hne
        cases h
        exact ⟨joint, value, written, rfl, rfl, hne⟩
    · cases h
  · rintro ⟨joint, value, written, rfl, rfl, hne⟩
    have hvalue : DeclarationArgument.nameValue
        (.punct '=' joint :: .literal (.string value written) :: rest) = some (value, rest) := rfl
    unfold spaceValue
    simp only [hvalue, if_neg hne]

theorem parentValue_eq_ok_iff {ts rest : List TokenTree} {a : TypeArgument} :
    parentValue types ts = .ok (a, rest) ↔
      ∃ joint type t, ts = .punct '=' joint :: (type ++ rest) ∧ a = .parent t ∧
        types.read (type ++ rest) = some (t, rest) := by
  constructor
  · intro h
    unfold parentValue at h
    split at h
    · rename_i joint tail
      split at h
      · rename_i t after htype
        cases h
        have hsplit := types.tokens htype
        rw [hsplit] at htype
        exact ⟨joint, t.tokens, t, by rw [hsplit], rfl, htype⟩
      · cases h
    · cases h
  · rintro ⟨joint, type, t, rfl, rfl, htype⟩
    unfold parentValue
    simp only [htype]

theorem optionalArguments_of_bare {ts : List TokenTree}
    (h : Code.atGroup .parenthesis ts = false) : optionalArguments ts = .ok ({}, ts) := by
  match ts with
  | .group .parenthesis _ :: _ => cases h
  | [] | .ident _ :: _ | .punct _ _ :: _ | .literal _ :: _ | .group .bracket _ :: _
  | .group .brace _ :: _ => rfl

theorem optionalArguments_of_listed {content rest : List TokenTree}
    {given : List DeclarationArgument} (hcontent : DeclarationArgument.Listed content given) :
    optionalArguments (.group .parenthesis content :: rest) = .ok (.ofList given, rest) := by
  rw [optionalArguments, DeclarationArguments.ofTrees_of_listed hcontent]
  rfl

/-- Arguments are only taken in parentheses. -/
theorem of_optionalArguments {ts rest : List TokenTree} {args : DeclarationArguments}
    (h : optionalArguments ts = .ok (args, rest)) :
    (Code.atGroup .parenthesis ts = false ∧ args = {} ∧ ts = rest) ∨
      ∃ content given, DeclarationArgument.Listed content given ∧ args = .ofList given ∧
        ts = .group .parenthesis content :: rest := by
  cases hgroup : Code.atGroup .parenthesis ts with
  | false =>
    rw [optionalArguments_of_bare hgroup] at h
    cases h
    exact .inl ⟨rfl, rfl, rfl⟩
  | true =>
    match ts with
    | .group .parenthesis content :: tail =>
      rw [optionalArguments] at h
      cases hargs : DeclarationArguments.ofTrees content with
      | error e =>
        rw [hargs] at h
        cases h
      | ok found =>
        rw [hargs] at h
        cases h
        obtain ⟨given, hread, rfl⟩ := DeclarationArguments.ofTrees_eq_ok_iff.1 hargs
        exact .inr ⟨content, given, DeclarationArgument.readAll_eq_ok_iff.1 hread, rfl, rfl⟩

theorem declarationValue_eq_ok_iff {k : Kind} {ts rest : List TokenTree} {a : TypeArgument} :
    declarationValue k ts = .ok (a, rest) ↔
      ∃ args, optionalArguments ts = .ok (args, rest) ∧ a = .declaration k args ∧ a.Valid := by
  unfold declarationValue
  constructor
  · intro h
    split at h
    · cases h
    · rename_i args left hargs
      split at h
      · cases h
      · rename_i hcheck
        have hvalid : (declaration k args).Valid := by
          intro hon
          by_contra hk
          rw [DeclarationArguments.check_of_ne hon hk] at hcheck
          cases hcheck
        rw [DeclarationArguments.check_of_imp hvalid] at hcheck
        cases hcheck
        cases h
        exact ⟨args, hargs, rfl, hvalid⟩
  · rintro ⟨args, hargs, rfl, hvalid⟩
    simp only [hargs, DeclarationArguments.check_of_imp hvalid]

/-- What is taken behind the keyword of a kind. -/
theorem of_declarationValue {k : Kind} {ts rest : List TokenTree} {a : TypeArgument}
    (h : declarationValue k ts = .ok (a, rest)) :
    ∃ value, SpellsBefore types rest (.ident ⟨k.keyword, false⟩ :: value) a ∧ a.Valid ∧
      ts = value ++ rest := by
  obtain ⟨args, hargs, rfl, hvalid⟩ := declarationValue_eq_ok_iff.1 h
  rcases of_optionalArguments hargs with ⟨hafter, rfl, rfl⟩ | ⟨content, given, hcontent, rfl, rfl⟩
  · exact ⟨[], .bare hafter, hvalid, rfl⟩
  · exact ⟨_, .list hcontent, hvalid, rfl⟩

theorem read_keyword (k : Kind) (ts : List TokenTree) :
    read types (.ident ⟨k.keyword, false⟩ :: ts) = declarationValue k ts := by
  cases k <;> rfl

theorem read_of_spellsBefore {item after : List TokenTree} {a : TypeArgument}
    (h : SpellsBefore types after item a) (hvalid : a.Valid) :
    read types (item ++ after) = .ok (a, after) := by
  cases h with
  | @space joint value written =>
    show spaceValue (.punct '=' joint :: .literal (.string value written) :: after) = _
    exact spaceValue_eq_ok_iff.2 ⟨joint, value, written, rfl, rfl, hvalid⟩
  | @parent joint type t htype =>
    show parentValue types (.punct '=' joint :: (type ++ after)) = _
    exact parentValue_eq_ok_iff.2 ⟨joint, type, t, rfl, rfl, htype⟩
  | bare hafter =>
    rw [List.singleton_append, read_keyword]
    exact declarationValue_eq_ok_iff.2 ⟨_, optionalArguments_of_bare hafter, rfl, hvalid⟩
  | list hcontent =>
    rw [List.cons_append, List.singleton_append, read_keyword]
    exact declarationValue_eq_ok_iff.2 ⟨_, optionalArguments_of_listed hcontent, rfl, hvalid⟩

theorem of_read {ts rest : List TokenTree} {a : TypeArgument}
    (h : read types ts = .ok (a, rest)) :
    ∃ item, SpellsBefore types rest item a ∧ a.Valid ∧ ts = item ++ rest := by
  unfold read at h
  split at h
  · rename_i i tail
    by_cases hspace : i.isWord "namespace" = true
    · rw [if_pos hspace] at h
      obtain rfl := Ident.isWord_iff.1 hspace
      obtain ⟨joint, value, written, rfl, rfl, hne⟩ := spaceValue_eq_ok_iff.1 h
      exact ⟨_, .space, hne, rfl⟩
    rw [if_neg hspace] at h
    by_cases hparent : i.isWord "parent" = true
    · rw [if_pos hparent] at h
      obtain rfl := Ident.isWord_iff.1 hparent
      obtain ⟨joint, type, t, rfl, rfl, htype⟩ := parentValue_eq_ok_iff.1 h
      exact ⟨_, .parent htype, trivial, rfl⟩
    rw [if_neg hparent] at h
    split at h
    · rename_i k hkind
      obtain ⟨name, raw⟩ := i
      cases raw with
      | true => cases hkind
      | false =>
        obtain rfl := Kind.ofKeyword?_eq_some_iff.1 hkind
        obtain ⟨value, hspells, hvalid, rfl⟩ := of_declarationValue h
        exact ⟨_, hspells, hvalid, rfl⟩
    · cases h
  · cases h

theorem read_eq_ok_iff {ts rest : List TokenTree} {a : TypeArgument} :
    read types ts = .ok (a, rest) ↔
      ∃ item, SpellsBefore types rest item a ∧ a.Valid ∧ ts = item ++ rest := by
  constructor
  · exact of_read
  · rintro ⟨item, hitem, hvalid, rfl⟩
    exact read_of_spellsBefore hitem hvalid

theorem SpellsBefore.exists_ident {item after : List TokenTree} {a : TypeArgument}
    (h : SpellsBefore types after item a) : ∃ i value, item = .ident i :: value := by
  cases h <;> exact ⟨_, _, rfl⟩

/-- What is an argument before one stop is one before any other. -/
theorem SpellsBefore.before_stop (hcommas : types.StopsAtCommas) {after item : List TokenTree}
    {a : TypeArgument} {stop : Code.Stop} (h : SpellsBefore types (after ++ stop.trees) item a)
    (stop' : Code.Stop) : SpellsBefore types (after ++ stop'.trees) item a := by
  cases h with
  | space => exact .space
  | parent htype => exact .parent (hcommas _ after _ stop stop' htype)
  | bare hafter =>
    rw [Code.atGroup_stop] at hafter
    exact .bare (by rwa [Code.atGroup_stop])
  | list hcontent => exact .list hcontent

/-! ## Lists of arguments -/

theorem Listed.fresh {ts : List TokenTree} {given : List TypeArgument}
    (h : Listed types ts given) : DeclarationArgument.Fresh ts := by
  cases h with
  | nil => exact DeclarationArgument.fresh_nil
  | cons hitem =>
    obtain ⟨i, value, rfl⟩ := hitem.exists_ident
    exact DeclarationArgument.fresh_ident i _

theorem CommaListed.listed (hcommas : types.StopsAtCommas) {ts : List TokenTree}
    {given : List TypeArgument} (h : CommaListed types ts given) : Listed types ts given := by
  induction h with
  | nil => exact .nil
  | @last item a hitem =>
    have hlisted : Listed types (item ++ ([] ++ [])) [a] := .cons hitem .nothing .nil
    rwa [List.append_nil, List.append_nil] at hlisted
  | @cons item rest a given joint hitem _ ih =>
    have hnothing : SpellsBefore types ([] ++ Code.Stop.nothing.trees) item a := hitem
    have hbefore : SpellsBefore types ([.punct ',' joint] ++ rest) item a :=
      hnothing.before_stop hcommas (.comma joint rest)
    exact .cons hbefore .comma ih

theorem Written.listed {ts : List TokenTree} {given : List TypeArgument}
    (h : Written types ts given) : Listed types ts given ∧ ∀ a ∈ given, a.Valid := by
  induction h with
  | nil => exact ⟨.nil, by simp⟩
  | @cons ts rest a given hread _ ih =>
    obtain ⟨hlisted, hgiven⟩ := ih
    obtain ⟨item, hitem, hvalid, rfl⟩ := read_eq_ok_iff.1 hread
    obtain ⟨separator, hseparator, hrest⟩ := DeclarationArgument.exists_separates rest
    rw [hrest] at hitem ⊢
    exact ⟨.cons hitem hseparator hlisted, List.forall_mem_cons.2 ⟨hvalid, hgiven⟩⟩

end TypeArgument

namespace TypeArguments

open TypeArgument

theorem SumsUp.eq_ofList {given : List TypeArgument} {args : TypeArguments}
    (h : SumsUp {} given args) : args = ofList given := by
  obtain ⟨space, parent, declarations⟩ := args
  obtain ⟨hspace, hparent, hdeclarations, _⟩ := h
  simp only [Option.or_none] at hspace hparent
  rw [List.nil_append] at hdeclarations
  rw [ofList, ← hspace, ← hparent, ← hdeclarations]

theorem kinds_ofList_append (done given : List TypeArgument) :
    (ofList (done ++ given)).kinds = (ofList done).kinds ++ (ofList given).kinds := by
  simp [ofList, kinds]

/-- One more argument, of a kind that has not been declared. -/
theorem add_ofList {done : List TypeArgument} {a : TypeArgument}
    (h : (ofList (done ++ [a])).kinds.Nodup) :
    (ofList done).add a = .ok (ofList (done ++ [a])) := by
  cases a with
  | space s => simp [add, ofList, space?, parent?, declaration?]
  | parent t => simp [add, ofList, space?, parent?, declaration?]
  | declaration k args =>
    have hnew : ¬ (ofList done).kinds.contains k = true := by
      have hkind : (ofList [.declaration k args]).kinds = [k] := rfl
      rw [kinds_ofList_append, hkind] at h
      rw [List.contains_iff_mem]
      intro hk
      exact List.disjoint_of_nodup_append h hk (List.mem_singleton_self k)
    rw [add, if_neg hnew]
    simp [ofList, space?, parent?, declaration?]

/-- Having gathered the arguments in `done`, the reader goes on to the end. -/
theorem readFrom_of_listed {done given : List TypeArgument} {ts : List TokenTree}
    (h : Listed types ts given) (hvalid : ∀ a ∈ given, a.Valid)
    (hnodup : (ofList (done ++ given)).kinds.Nodup) :
    readFrom types (ofList done) ts = .ok (ofList (done ++ given)) := by
  induction h generalizing done with
  | nil => rw [List.append_nil, readFrom_nil]
  | @cons item separator rest a given hitem hseparator hrest ih =>
    obtain ⟨ha, hgiven⟩ := List.forall_mem_cons.1 hvalid
    rw [List.append_cons] at hnodup ⊢
    have hread : read types (item ++ (separator ++ rest)) = .ok (a, separator ++ rest) :=
      read_of_spellsBefore hitem ha
    have hadd : (ofList done).add a = .ok (ofList (done ++ [a])) := by
      rw [kinds_ofList_append] at hnodup
      exact add_ofList hnodup.of_append_left
    rw [readFrom_of_read hread hadd, hseparator.skipSign_append hrest.fresh]
    exact ih hgiven hnodup

theorem ofTrees_of_listed {ts : List TokenTree} {given : List TypeArgument}
    (h : Listed types ts given) (hgiven : Consistent given) :
    ofTrees types ts = .ok (ofList given) := by
  have hnodup : (ofList ([] ++ given)).kinds.Nodup := hgiven.nodup
  exact readFrom_of_listed h hgiven.valid hnodup

theorem of_ofTrees_eq_ok {ts : List TokenTree} {args : TypeArguments}
    (h : ofTrees types ts = .ok args) :
    ∃ given, Listed types ts given ∧ Consistent given ∧ args = ofList given := by
  obtain ⟨given, hwritten, hsum⟩ := sumsUp_of_readFrom h
  obtain ⟨hlisted, hvalid⟩ := hwritten.listed
  obtain rfl := hsum.eq_ofList
  exact ⟨given, hlisted, ⟨hvalid, hsum.nodup List.nodup_nil⟩, rfl⟩

/-- The arguments that are accepted are consistent lists of items, of which every one counts: an
empty namespace is refused also if another one follows it. They come to the last namespace, the last
parent and the declarations in order. Consistent arguments with commas between them are always
accepted, whatever their order. -/
theorem accepts_exactly_consistent (hcommas : types.StopsAtCommas) (ts : List TokenTree) :
    (∀ args, ofTrees types ts = .ok args ↔
      ∃ given, Listed types ts given ∧ Consistent given ∧ args = ofList given) ∧
    ∀ given, CommaListed types ts given → Consistent given →
      ofTrees types ts = .ok (ofList given) := by
  refine ⟨fun args => ⟨of_ofTrees_eq_ok, ?_⟩, ?_⟩
  · rintro ⟨given, hlisted, hgiven, rfl⟩
    exact ofTrees_of_listed hlisted hgiven
  · intro given hlisted hgiven
    exact ofTrees_of_listed (hlisted.listed hcommas) hgiven

/-- The type `Base`. -/
def baseType : TypeSyntax :=
  ⟨[.ident ⟨"Base", false⟩], .path { segments := 1, last := ⟨"Base", false⟩ }⟩

/-- Of `parent = Base, timed, counted(monotonic),` the type and both declarations are taken. -/
theorem accepts_exactly_consistent_of_base :
    let ts := [.ident ⟨"parent", false⟩, .punct '=' false, .ident ⟨"Base", false⟩,
      .punct ',' false, .ident ⟨"timed", false⟩, .punct ',' false, .ident ⟨"counted", false⟩,
      .group .parenthesis [.ident ⟨"monotonic", false⟩], .punct ',' false]
    let given := [.parent baseType, .declaration .timed {},
      .declaration .counted (.ofList [.monotonic true])]
    TypeReader.standard.StopsAtCommas ∧ CommaListed .standard ts given ∧ Consistent given ∧
      ofTrees .standard ts = .ok {
        parent := some baseType
        declarations := [(.timed, {}), (.counted, { monotonic := true })] } := by
  intro ts given
  have htype : TypeReader.standard.read ([.ident ⟨"Base", false⟩] ++ []) = some (baseType, []) :=
    rfl
  have hmonotonic : DeclarationArgument.Listed [.ident ⟨"monotonic", false⟩] [.monotonic true] :=
    .cons (.monotonic .bare) .nothing .nil
  have hlisted : CommaListed .standard ts given :=
    .cons (.parent htype) (.cons (.bare (k := .timed) rfl)
      (.cons (.list (k := .counted) hmonotonic) .nil))
  have hconsistent : Consistent given :=
    ⟨by simp [given, Valid, DeclarationArguments.ofList], by decide⟩
  have hcommas := TypeReader.standard_stopsAtCommas
  have htaken := (accepts_exactly_consistent hcommas ts).2 given hlisted hconsistent
  exact ⟨hcommas, hlisted, hconsistent, htaken⟩

end TypeArguments

end MetricWiring
