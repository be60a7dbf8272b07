import MetricWiring.Proofs.Attribute.Arguments

/-!
# The grammar of declaration arguments

The arguments of a declaration are a list of items with optional commas behind them
(`DeclarationArgument.Listed`). Each item begins with its word, and no item begins with an equals
sign or a comma. So what a flag takes is decided by the next sign alone, and reading is the same
whether the list ends behind an item or goes on (`readAll_append`). The reader accepts exactly such
lists (`readAll_eq_ok_iff`), and it complains of an unknown argument exactly where another name
stands in the place of an item (`readAll_eq_unknown_iff`). Of a word that is repeated the last value
holds, but `monotonic` stays on (`last_value_holds`).
-/
namespace MetricWiring

open Code (Ident TokenTree)

namespace DeclarationArgument

/-- What is written behind the word of a flag. -/
inductive SpellsFlag : List TokenTree → Bool → Prop
  | bare : SpellsFlag [] true
  | on {joint : Bool} : SpellsFlag [.punct '=' joint, .ident ⟨"true", false⟩] true
  | off {joint : Bool} : SpellsFlag [.punct '=' joint, .ident ⟨"false", false⟩] false

/-- How an argument is written. -/
inductive Spells : List TokenTree → DeclarationArgument → Prop
  | name {joint : Bool} {value written : String} :
      Spells [.ident ⟨"name", false⟩, .punct '=' joint, .literal (.string value written)]
        (.name value)
  | absolute {value : List TokenTree} {on : Bool} (h : SpellsFlag value on) :
      Spells (.ident ⟨"absolute", false⟩ :: value) (.absolute on)
  | monotonic {value : List TokenTree} {on : Bool} (h : SpellsFlag value on) :
      Spells (.ident ⟨"monotonic", false⟩ :: value) (.monotonic on)

/-- What may stand behind an argument before the next one. -/
inductive Separates : List TokenTree → Prop
  | nothing : Separates []
  | comma {joint : Bool} : Separates [.punct ',' joint]

/-- The arguments are written one after the other, each with a comma behind it or none. -/
inductive Listed : List TokenTree → List DeclarationArgument → Prop
  | nil : Listed [] []
  | cons {item separator rest : List TokenTree} {a : DeclarationArgument}
      {given : List DeclarationArgument} (hitem : Spells item a)
      (hseparator : Separates separator) (hrest : Listed rest given) :
      Listed (item ++ separator ++ rest) (a :: given)

/-- The words that arguments begin with. -/
def words : List Ident := [⟨"name", false⟩, ⟨"absolute", false⟩, ⟨"monotonic", false⟩]

/-- A name that is none of these words. -/
def Unknown (i : Ident) : Prop := i.isName = true ∧ i ∉ words

/-- Behind a list of arguments, such a name stands in the place of a further one. -/
def StopsAtUnknown (ts : List TokenTree) : Prop :=
  ∃ before given i after, ts = before ++ .ident i :: after ∧ Listed before given ∧ Unknown i

/-! ## One argument -/

theorem flag_append {value tail : List TokenTree} {on : Bool} (h : SpellsFlag value on)
    (htail : Code.atSign '=' tail = false) : flag (value ++ tail) = some (on, tail) := by
  cases h with
  | bare =>
    rw [List.nil_append]
    unfold flag
    split
    · cases htail
    · cases htail
    · rfl
  | on => rfl
  | off => rfl

theorem exists_spellsFlag {ts rest : List TokenTree} {on : Bool} (h : flag ts = some (on, rest)) :
    ∃ value, SpellsFlag value on ∧ ts = value ++ rest := by
  unfold flag at h
  split at h
  · rename_i joint i tail
    by_cases htrue : i.isWord "true" = true
    · rw [if_pos htrue] at h
      cases h
      rw [Ident.isWord_iff] at htrue
      exact ⟨[.punct '=' joint, .ident ⟨"true", false⟩], .on, by rw [htrue]; rfl⟩
    · rw [if_neg htrue] at h
      split at h
      · rename_i hfalse
        cases h
        rw [Ident.isWord_iff] at hfalse
        exact ⟨[.punct '=' joint, .ident ⟨"false", false⟩], .off, by rw [hfalse]; rfl⟩
      · cases h
  · cases h
  · cases h
    exact ⟨[], .bare, rfl⟩

theorem exists_nameValue {ts rest : List TokenTree} {s : String}
    (h : nameValue ts = some (s, rest)) :
    ∃ joint written, ts = .punct '=' joint :: .literal (.string s written) :: rest := by
  unfold nameValue at h
  split at h
  · cases h
    exact ⟨_, _, rfl⟩
  · cases h

theorem read_absolute {tail rest : List TokenTree} {on : Bool} (h : flag tail = some (on, rest)) :
    read (.ident ⟨"absolute", false⟩ :: tail) = .ok (.absolute on, rest) := by
  simp [read, h]

theorem read_monotonic {tail rest : List TokenTree} {on : Bool} (h : flag tail = some (on, rest)) :
    read (.ident ⟨"monotonic", false⟩ :: tail) = .ok (.monotonic on, rest) := by
  simp [read, h]

theorem read_append {item tail : List TokenTree} {a : DeclarationArgument} (h : Spells item a)
    (htail : Code.atSign '=' tail = false) : read (item ++ tail) = .ok (a, tail) := by
  cases h with
  | name => rfl
  | absolute h =>
    rw [List.cons_append]
    exact read_absolute (flag_append h htail)
  | monotonic h =>
    rw [List.cons_append]
    exact read_monotonic (flag_append h htail)

/-- What the reader of one argument answers. -/
inductive Answered (ts : List TokenTree) :
    Except AttributeError (DeclarationArgument × List TokenTree) → Prop
  | ok {item rest : List TokenTree} {a : DeclarationArgument} (hitem : Spells item a)
      (hts : ts = item ++ rest) : Answered ts (.ok (a, rest))
  | unknown {i : Ident} {after : List TokenTree} (hts : ts = .ident i :: after)
      (hi : Unknown i) : Answered ts (.error .unknownArgument)
  | malformed (h : ∀ i after, ts = .ident i :: after → ¬ Unknown i) :
      Answered ts (.error .malformed)

theorem not_unknown_of_mem {i : Ident} {tail : List TokenTree} (hi : i ∈ words) :
    ∀ j after, TokenTree.ident i :: tail = .ident j :: after → ¬ Unknown j := by
  rintro j after hts ⟨_, hj⟩
  cases hts
  exact hj hi

/-- Behind one of the words, the answer depends on the value that is read. -/
theorem answered_value {i : Ident} {tail : List TokenTree} {α : Type}
    {value : Option (α × List TokenTree)} {make : α → DeclarationArgument} (hi : i ∈ words)
    (hvalue : ∀ v rest, value = some (v, rest) →
      ∃ spelled, Spells (.ident i :: spelled) (make v) ∧ tail = spelled ++ rest) :
    Answered (.ident i :: tail)
      (match value.map fun v => (make v.1, v.2) with
        | some v => .ok v
        | none => .error .malformed) := by
  cases value with
  | none => exact .malformed (not_unknown_of_mem hi)
  | some v =>
    obtain ⟨spelled, hspells, rfl⟩ := hvalue v.1 v.2 rfl
    exact .ok hspells rfl

theorem answered_read (ts : List TokenTree) : Answered ts (read ts) := by
  unfold read
  split
  · rename_i i tail
    by_cases hname : i.isWord "name" = true
    · rw [if_pos hname]
      obtain rfl := Ident.isWord_iff.1 hname
      refine answered_value (by simp [words]) ?_
      intro v rest hv
      obtain ⟨joint, written, rfl⟩ := exists_nameValue hv
      exact ⟨_, .name, rfl⟩
    rw [if_neg hname]
    by_cases habsolute : i.isWord "absolute" = true
    · rw [if_pos habsolute]
      obtain rfl := Ident.isWord_iff.1 habsolute
      refine answered_value (by simp [words]) ?_
      intro v rest hv
      obtain ⟨value, hspells, rfl⟩ := exists_spellsFlag hv
      exact ⟨value, .absolute hspells, rfl⟩
    rw [if_neg habsolute]
    by_cases hmonotonic : i.isWord "monotonic" = true
    · rw [if_pos hmonotonic]
      obtain rfl := Ident.isWord_iff.1 hmonotonic
      refine answered_value (by simp [words]) ?_
      intro v rest hv
      obtain ⟨value, hspells, rfl⟩ := exists_spellsFlag hv
      exact ⟨value, .monotonic hspells, rfl⟩
    rw [if_neg hmonotonic]
    by_cases hisName : i.isName = true
    · rw [if_pos hisName]
      rw [Ident.isWord_iff] at hname habsolute hmonotonic
      exact .unknown rfl ⟨hisName, by simp [words, hname, habsolute, hmonotonic]⟩
    · rw [if_neg hisName]
      refine .malformed ?_
      rintro j after hts ⟨hj, _⟩
      cases hts
      exact hisName hj
  · rename_i hnone
    exact .malformed fun i after hts => absurd hts (hnone i after)

theorem Spells.word_mem {item : List TokenTree} {a : DeclarationArgument} (h : Spells item a) :
    ∃ i ∈ words, ∃ value, item = .ident i :: value := by
  cases h with
  | name => exact ⟨_, by simp [words], _, rfl⟩
  | absolute => exact ⟨_, by simp [words], _, rfl⟩
  | monotonic => exact ⟨_, by simp [words], _, rfl⟩

theorem read_of_unknown {i : Ident} (h : Unknown i) (after : List TokenTree) :
    read (.ident i :: after) = .error .unknownArgument := by
  have hanswered := answered_read (.ident i :: after)
  generalize read (.ident i :: after) = answer at hanswered
  cases hanswered with
  | ok hitem hts =>
    obtain ⟨j, hj, value, rfl⟩ := hitem.word_mem
    cases hts
    exact absurd hj h.2
  | unknown => rfl
  | malformed hnot => exact absurd h (hnot i after rfl)

/-! ## Lists of arguments -/

/-- Neither an equals sign nor a comma, so that nothing before it goes on with it. -/
structure Fresh (ts : List TokenTree) : Prop where
  equals : Code.atSign '=' ts = false
  comma : Code.atSign ',' ts = false

theorem fresh_nil : Fresh [] := ⟨rfl, rfl⟩

theorem fresh_ident (i : Ident) (ts : List TokenTree) : Fresh (.ident i :: ts) := ⟨rfl, rfl⟩

theorem Spells.fresh {item : List TokenTree} {a : DeclarationArgument} (h : Spells item a)
    (tail : List TokenTree) : Fresh (item ++ tail) := by
  obtain ⟨i, _, value, rfl⟩ := h.word_mem
  exact fresh_ident i (value ++ tail)

theorem Listed.fresh {ts tail : List TokenTree} {given : List DeclarationArgument}
    (h : Listed ts given) (htail : Fresh tail) : Fresh (ts ++ tail) := by
  cases h with
  | nil => exact htail
  | cons hitem =>
    rw [List.append_assoc, List.append_assoc]
    exact hitem.fresh _

theorem Separates.skipSign_append {separator tail : List TokenTree} (h : Separates separator)
    (htail : Fresh tail) : Code.skipSign ',' (separator ++ tail) = tail := by
  cases h with
  | nothing =>
    rw [List.nil_append, Code.skipSign, htail.comma]
    rfl
  | comma => rfl

theorem Separates.atSign_append {separator tail : List TokenTree} (h : Separates separator)
    (htail : Fresh tail) : Code.atSign '=' (separator ++ tail) = false := by
  cases h with
  | nothing => exact htail.equals
  | comma => rfl

theorem exists_separates (ts : List TokenTree) :
    ∃ separator, Separates separator ∧ ts = separator ++ Code.skipSign ',' ts := by
  unfold Code.skipSign
  by_cases h : Code.atSign ',' ts = true
  · rw [if_pos h]
    unfold Code.atSign at h
    split at h
    · rw [beq_iff_eq] at h
      subst h
      exact ⟨_, .comma, rfl⟩
    · cases h
  · rw [if_neg h]
    exact ⟨[], .nothing, rfl⟩

/-- A list of arguments is read in the same way whatever follows it. -/
theorem readAll_append {before tail : List TokenTree} {given : List DeclarationArgument}
    (h : Listed before given) (htail : Fresh tail) :
    readAll (before ++ tail) = (readAll tail).map (given ++ ·) := by
  induction h with
  | nil => cases h : readAll tail <;> simp [h, Except.map]
  | @cons item separator rest a given hitem hseparator hrest ih =>
    have hfresh := hrest.fresh htail
    have hread : read (item ++ (separator ++ (rest ++ tail))) =
        .ok (a, separator ++ (rest ++ tail)) :=
      read_append hitem (hseparator.atSign_append hfresh)
    calc
      readAll (item ++ separator ++ rest ++ tail) =
          readAll (item ++ (separator ++ (rest ++ tail))) := by simp only [List.append_assoc]
      _ = (readAll (rest ++ tail)).map (a :: ·) := by
          rw [readAll_of_read_eq_ok hread, hseparator.skipSign_append hfresh]
      _ = (readAll tail).map (a :: given ++ ·) := by
          rw [ih]
          cases readAll tail <;> rfl

/-- What the reader answers to a list of trees. -/
inductive AnsweredAll (ts : List TokenTree) :
    Except AttributeError (List DeclarationArgument) → Prop
  | ok {given : List DeclarationArgument} (h : Listed ts given) : AnsweredAll ts (.ok given)
  | unknown (h : StopsAtUnknown ts) : AnsweredAll ts (.error .unknownArgument)
  | malformed : AnsweredAll ts (.error .malformed)

theorem StopsAtUnknown.after {item separator ts : List TokenTree} {a : DeclarationArgument}
    (h : StopsAtUnknown ts) (hitem : Spells item a) (hseparator : Separates separator) :
    StopsAtUnknown (item ++ separator ++ ts) := by
  obtain ⟨before, given, i, after, rfl, hlisted, hi⟩ := h
  exact ⟨item ++ separator ++ before, a :: given, i, after, by simp only [List.append_assoc],
    .cons hitem hseparator hlisted, hi⟩

theorem answeredAll_readAll (ts : List TokenTree) : AnsweredAll ts (readAll ts) := by
  induction ts using readAll.induct with
  | case1 ts hempty =>
    rw [List.isEmpty_iff] at hempty
    subst hempty
    rw [readAll_nil]
    exact .ok .nil
  | case2 ts hne a rest hread ih =>
    rw [readAll_of_read_eq_ok hread]
    have hanswered := answered_read ts
    rw [hread] at hanswered
    cases hanswered with
    | ok hitem hts =>
      obtain ⟨separator, hseparator, hrest⟩ := exists_separates rest
      rw [hrest, ← List.append_assoc] at hts
      generalize readAll (Code.skipSign ',' rest) = answer at ih
      subst hts
      cases ih with
      | ok hlisted => exact .ok (.cons hitem hseparator hlisted)
      | unknown hstops => exact .unknown (hstops.after hitem hseparator)
      | malformed => exact .malformed
  | case3 ts hne e hread =>
    rw [List.isEmpty_iff] at hne
    rw [readAll_of_read_eq_error hne hread]
    have hanswered := answered_read ts
    rw [hread] at hanswered
    cases hanswered with
    | unknown hts hi => exact .unknown ⟨[], [], _, _, hts, .nil, hi⟩
    | malformed => exact .malformed

theorem readAll_eq_ok_iff {ts : List TokenTree} {given : List DeclarationArgument} :
    readAll ts = .ok given ↔ Listed ts given := by
  constructor
  · intro h
    have hanswered := answeredAll_readAll ts
    rw [h] at hanswered
    cases hanswered with
    | ok hlisted => exact hlisted
  · intro h
    have hread := readAll_append h fresh_nil
    rw [List.append_nil, readAll_nil] at hread
    simpa [Except.map] using hread

theorem readAll_eq_unknown_iff {ts : List TokenTree} :
    readAll ts = .error .unknownArgument ↔ StopsAtUnknown ts := by
  constructor
  · intro h
    have hanswered := answeredAll_readAll ts
    rw [h] at hanswered
    cases hanswered with
    | unknown hstops => exact hstops
  · rintro ⟨before, given, i, after, rfl, hlisted, hi⟩
    have hstop := readAll_of_read_eq_error (by simp) (read_of_unknown hi after)
    rw [readAll_append hlisted (fresh_ident i after), hstop]
    rfl

theorem eq_malformed_of_readAll {ts : List TokenTree} {e : AttributeError}
    (h : readAll ts = .error e) (hnot : ¬ StopsAtUnknown ts) : e = .malformed := by
  have hanswered := answeredAll_readAll ts
  rw [h] at hanswered
  cases hanswered with
  | unknown hstops => exact absurd hstops hnot
  | malformed => rfl

/-! ## Commas -/

/-- Every comma stands behind something, and before anything but another comma. -/
def CommasApart (ts : List TokenTree) : Prop :=
  ∀ before joint after, ts = before ++ .punct ',' joint :: after →
    before ≠ [] ∧ Code.atSign ',' after = false

theorem Spells.comma_not_mem {item : List TokenTree} {a : DeclarationArgument} (h : Spells item a)
    (joint : Bool) : .punct ',' joint ∉ item := by
  cases h with
  | name => simp
  | absolute h => cases h <;> simp
  | monotonic h => cases h <;> simp

theorem Spells.ne_nil {item : List TokenTree} {a : DeclarationArgument} (h : Spells item a) :
    item ≠ [] := by
  obtain ⟨i, _, value, rfl⟩ := h.word_mem
  exact List.cons_ne_nil _ _

/-- Behind an argument, a comma can only be the one that separates it from the next. -/
theorem Spells.eq_of_comma {item separator before l : List TokenTree} {a : DeclarationArgument}
    {joint : Bool} (h : Spells item a) (hseparator : Separates separator)
    (hl : item ++ separator = before ++ .punct ',' joint :: l) : before = item ∧ l = [] := by
  have hcomma := h.comma_not_mem joint
  cases hseparator with
  | nothing =>
    rw [List.append_nil] at hl
    rw [hl] at hcomma
    simp at hcomma
  | @comma joint' =>
    rcases List.eq_nil_or_concat l with rfl | ⟨l', t, rfl⟩
    · exact ⟨(List.append_inj' hl rfl).1.symm, rfl⟩
    · rw [List.concat_eq_append, ← List.cons_append, ← List.append_assoc] at hl
      rw [(List.append_inj' hl rfl).1] at hcomma
      simp at hcomma

theorem Listed.commasApart {ts : List TokenTree} {given : List DeclarationArgument}
    (h : Listed ts given) : CommasApart ts := by
  induction h with
  | nil =>
    intro before joint after hts
    simp at hts
  | @cons item separator rest a given hitem hseparator hrest ih =>
    intro before joint after hts
    have hfresh : Fresh rest := by simpa using hrest.fresh fresh_nil
    rcases List.append_eq_append_iff.1 hts with ⟨l, rfl, hl⟩ | ⟨l, hl, hafter⟩
    · exact ⟨by simp [hitem.ne_nil], (ih l joint after hl).2⟩
    · cases l with
      | nil =>
        have hcomma := hfresh.comma
        rw [List.nil_append] at hafter
        rw [← hafter] at hcomma
        cases hcomma
      | cons t l =>
        rw [List.cons_append, List.cons.injEq] at hafter
        obtain ⟨rfl, rfl⟩ := hafter
        obtain ⟨rfl, rfl⟩ := hitem.eq_of_comma hseparator hl
        exact ⟨hitem.ne_nil, hfresh.comma⟩

end DeclarationArgument

/-! ## What the arguments amount to -/

namespace DeclarationArgument

/-- The word that an argument begins with. -/
def word : DeclarationArgument → String
  | name _ => "name"
  | absolute _ => "absolute"
  | monotonic _ => "monotonic"

def name? : DeclarationArgument → Option String
  | name s => some s
  | _ => none

def absolute? : DeclarationArgument → Option Bool
  | absolute on => some on
  | _ => none

def monotonic? : DeclarationArgument → Option Bool
  | monotonic on => some on
  | _ => none

theorem name?_eq_some_iff {a : DeclarationArgument} {s : String} :
    a.name? = some s ↔ a = .name s := by
  cases a <;> simp [name?]

theorem absolute?_eq_some_iff {a : DeclarationArgument} {on : Bool} :
    a.absolute? = some on ↔ a = .absolute on := by
  cases a <;> simp [absolute?]

theorem monotonic?_eq_some_iff {a : DeclarationArgument} {on : Bool} :
    a.monotonic? = some on ↔ a = .monotonic on := by
  cases a <;> simp [monotonic?]

/-- The last value of `monotonic` is off, but an earlier one is on. -/
def Sticks (given : List DeclarationArgument) : Prop :=
  .monotonic true ∈ given ∧ (given.filterMap monotonic?).getLast? = some false

end DeclarationArgument

namespace DeclarationArguments

open DeclarationArgument

/-- The arguments hold what is given, and nothing else. -/
structure HoldsExactly (args : DeclarationArguments) (given : List DeclarationArgument) : Prop where
  name : ∀ s, args.name = some s ↔ .name s ∈ given
  absolute : args.absolute = true ↔ .absolute true ∈ given
  monotonic : args.monotonic = true ↔ .monotonic true ∈ given

theorem name_foldl_add (args : DeclarationArguments) (given : List DeclarationArgument) :
    (given.foldl add args).name = (given.filterMap name?).getLast?.or args.name := by
  induction given generalizing args with
  | nil => rfl
  | cons a given ih =>
    rw [List.foldl_cons, ih]
    cases a <;> simp [add, name?, List.getLast?_cons, Option.or_some]

theorem absolute_foldl_add (args : DeclarationArguments) (given : List DeclarationArgument) :
    (given.foldl add args).absolute = (given.filterMap absolute?).getLast?.getD args.absolute := by
  induction given generalizing args with
  | nil => rfl
  | cons a given ih =>
    rw [List.foldl_cons, ih]
    cases a <;> simp [add, absolute?, List.getLast?_cons]

theorem holdsExactly_of_nodup {given : List DeclarationArgument}
    (h : (given.map word).Nodup) : HoldsExactly (ofList given) given := by
  constructor
  · intro s
    rw [ofList, name_foldl_add, Option.or_none]
    exact getLast?_filterMap_eq_some_iff (fun _ _ => name?_eq_some_iff) (fun _ _ => rfl) h
  · have hlast : (given.filterMap absolute?).getLast? = some true ↔ .absolute true ∈ given :=
      getLast?_filterMap_eq_some_iff (fun _ _ => absolute?_eq_some_iff) (fun _ _ => rfl) h
    rw [ofList, absolute_foldl_add, ← hlast]
    cases (given.filterMap absolute?).getLast? <;> simp
  · exact monotonic_ofList_iff

theorem ofTrees_of_listed {ts : List TokenTree} {given : List DeclarationArgument}
    (h : Listed ts given) : ofTrees ts = .ok (ofList given) :=
  ofTrees_eq_ok_iff.2 ⟨given, readAll_eq_ok_iff.2 h, rfl⟩

theorem exists_ofTrees_eq_ok_iff {ts : List TokenTree} :
    (∃ args, ofTrees ts = .ok args) ↔ ∃ given, Listed ts given := by
  constructor
  · rintro ⟨args, hargs⟩
    obtain ⟨given, hread, _⟩ := ofTrees_eq_ok_iff.1 hargs
    exact ⟨given, readAll_eq_ok_iff.1 hread⟩
  · rintro ⟨given, hlisted⟩
    exact ⟨_, ofTrees_of_listed hlisted⟩

theorem message?_eq_unknown_iff {e : AttributeError} :
    e.message? = some "unknown attribute" ↔ e = .unknownArgument := by
  constructor
  · intro h
    cases e with
    | unknownArgument => rfl
    | valuedMarker k => cases k <;> simp [AttributeError.message?, Kind.keyword] at h
    | receiverRequired k => cases k <;> simp [AttributeError.message?, Kind.keyword] at h
    | _ => simp [AttributeError.message?] at h
  · rintro rfl
    rfl

/-- The arguments that are accepted are the lists of items with optional commas, so that no comma
stands first or behind another one. What they come to does not depend on the commas, and if no word
is repeated it is exactly what is given. Everything else is refused: with a complaint of its own if
a name that is no word of an argument stands in the place of an item, and otherwise as a breach of
the grammar. -/
theorem grammar_exact (ts : List TokenTree) :
    ((∃ args, ofTrees ts = .ok args) ↔ ∃ given, Listed ts given) ∧
      ((∃ args, ofTrees ts = .ok args) → CommasApart ts) ∧
      (∀ given, Listed ts given → (given.map word).Nodup →
        ∃ args, ofTrees ts = .ok args ∧ HoldsExactly args given) ∧
      (∀ given ts', Listed ts given → Listed ts' given → ofTrees ts' = ofTrees ts) ∧
      (StopsAtUnknown ts → ∃ e, ofTrees ts = .error e) ∧
      ∀ e, ofTrees ts = .error e →
        (e.message? = some "unknown attribute" ↔ StopsAtUnknown ts) ∧
          (e.message? ≠ some "unknown attribute" → e = .malformed) := by
  refine ⟨exists_ofTrees_eq_ok_iff, ?_, ?_, ?_, ?_, ?_⟩
  · intro h
    obtain ⟨given, hlisted⟩ := exists_ofTrees_eq_ok_iff.1 h
    exact hlisted.commasApart
  · intro given hlisted hnodup
    exact ⟨_, ofTrees_of_listed hlisted, holdsExactly_of_nodup hnodup⟩
  · intro given ts' hlisted hlisted'
    rw [ofTrees_of_listed hlisted, ofTrees_of_listed hlisted']
  · intro hstops
    exact ⟨_, ofTrees_eq_error_iff.2 (readAll_eq_unknown_iff.2 hstops)⟩
  · intro e he
    rw [ofTrees_eq_error_iff] at he
    rw [Ne, message?_eq_unknown_iff]
    have hunknown : e = .unknownArgument ↔ StopsAtUnknown ts := by
      rw [← readAll_eq_unknown_iff, he, Except.error.injEq]
    refine ⟨hunknown, ?_⟩
    intro hne
    exact eq_malformed_of_readAll he (fun hstops => hne (hunknown.2 hstops))

/-- The arguments hold the last name and the last value of `absolute`, and are monotonic if any of
the values of `monotonic` is on. -/
structure HoldsLast (args : DeclarationArguments) (given : List DeclarationArgument) : Prop where
  name : args.name = (given.filterMap name?).getLast?
  absolute : args.absolute = (given.filterMap absolute?).getLast?.getD false
  monotonic : args.monotonic = true ↔ .monotonic true ∈ given

theorem holdsLast_ofList (given : List DeclarationArgument) : HoldsLast (ofList given) given where
  name := by rw [ofList, name_foldl_add, Option.or_none]
  absolute := absolute_foldl_add {} given
  monotonic := monotonic_ofList_iff

theorem HoldsLast.eq_ofList {args : DeclarationArguments} {given : List DeclarationArgument}
    (h : HoldsLast args given) : args = ofList given := by
  have hlist := holdsLast_ofList given
  have hname : args.name = (ofList given).name := h.name.trans hlist.name.symm
  have habsolute : args.absolute = (ofList given).absolute := h.absolute.trans hlist.absolute.symm
  have hmonotonic : args.monotonic = (ofList given).monotonic :=
    Bool.eq_iff_iff.2 (h.monotonic.trans hlist.monotonic.symm)
  exact DeclarationArguments.ext hname habsolute hmonotonic

/-- The last value of `monotonic` holds too, unless it comes too late to switch it off. -/
theorem HoldsLast.monotonic_eq_last_iff {args : DeclarationArguments}
    {given : List DeclarationArgument} (h : HoldsLast args given) :
    args.monotonic = (given.filterMap monotonic?).getLast?.getD false ↔ ¬ Sticks given := by
  have hmem : ∀ on, on ∈ given.filterMap monotonic? ↔ .monotonic on ∈ given := by
    simp [monotonic?_eq_some_iff]
  have hon : args.monotonic = true ↔ true ∈ given.filterMap monotonic? :=
    h.monotonic.trans (hmem true).symm
  rw [Sticks, ← hmem]
  cases hlast : (given.filterMap monotonic?).getLast? with
  | none =>
    rw [List.getLast?_eq_none_iff] at hlast
    simpa [hlast] using hon
  | some last =>
    cases last with
    | true => simpa using hon.2 (List.mem_of_getLast? hlast)
    | false =>
      rw [← hon]
      simp

/-- The arguments that are accepted are the lists of items, and the last value of each word holds,
with one exception: once `monotonic` has been on, a later value does not switch it off. -/
theorem last_value_holds (ts : List TokenTree) :
    (∀ args, ofTrees ts = .ok args ↔ ∃ given, Listed ts given ∧ HoldsLast args given) ∧
      ∀ args given, Listed ts given → ofTrees ts = .ok args →
        (args.monotonic = (given.filterMap monotonic?).getLast?.getD false ↔ ¬ Sticks given) := by
  constructor
  · intro args
    constructor
    · intro h
      obtain ⟨given, hread, rfl⟩ := ofTrees_eq_ok_iff.1 h
      exact ⟨given, readAll_eq_ok_iff.1 hread, holdsLast_ofList given⟩
    · rintro ⟨given, hlisted, hlast⟩
      rw [hlast.eq_ofList]
      exact ofTrees_of_listed hlisted
  · intro args given hlisted hargs
    rw [ofTrees_of_listed hlisted] at hargs
    cases hargs
    exact (holdsLast_ofList given).monotonic_eq_last_iff

/-- The arguments `monotonic, monotonic = false` are monotonic, although `absolute = false` undoes
`absolute` in the same place. -/
theorem monotonic_stays_on :
    let twice := fun word : String =>
      [TokenTree.ident ⟨word, false⟩, .punct ',' false, .ident ⟨word, false⟩, .punct '=' false,
        .ident ⟨"false", false⟩]
    let given := [DeclarationArgument.monotonic true, .monotonic false]
    Listed (twice "monotonic") given ∧ (given.filterMap monotonic?).getLast? = some false ∧
      ofTrees (twice "monotonic") = .ok { monotonic := true } ∧
      ofTrees (twice "absolute") = .ok { absolute := false } := by
  intro twice given
  have hmonotonic : Listed (twice "monotonic") given :=
    .cons (.monotonic .bare) .comma (.cons (.monotonic .off) .nothing .nil)
  have habsolute : Listed (twice "absolute") [.absolute true, .absolute false] :=
    .cons (.absolute .bare) .comma (.cons (.absolute .off) .nothing .nil)
  exact ⟨hmonotonic, rfl, ofTrees_of_listed hmonotonic, ofTrees_of_listed habsolute⟩

end DeclarationArguments

end MetricWiring
