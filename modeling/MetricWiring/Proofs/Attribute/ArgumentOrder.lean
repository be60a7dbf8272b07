import Mathlib.Data.List.Perm.Basic
import MetricWiring.Proofs.Attribute.TypeGrammar

/-!
# The order of arguments

Where no word is repeated, what arguments come to does not depend on their order. The arguments of a
declaration can change places as they stand (`DeclarationArgument.Permuted`). Those of a type can
where commas divide them: a list of them is made of runs without commas (`TypeArgument.Run`), any
accepted list divides into such runs (`Listed.exists_joined`), and the runs can change places
(`TypeArgument.Rearranged`), while the declarations in them have their own arguments permuted.
-/
namespace MetricWiring

open Code (TokenTree TypeReader)

/-- The lists are the same up to their order and the relation. -/
def Reordered {α : Type} (R : α → α → Prop) (xs ys : List α) : Prop :=
  ∃ moved, xs.Perm moved ∧ List.Forall₂ R moved ys

namespace DeclarationArgument

/-- The items stand one after the other, each with a comma behind it or none. -/
inductive Separated : List (List TokenTree) → List TokenTree → Prop
  | nil : Separated [] []
  | cons {item separator rest : List TokenTree} {items : List (List TokenTree)}
      (hseparator : Separates separator) (hrest : Separated items rest) :
      Separated (item :: items) (item ++ separator ++ rest)

/-- The arguments of the first list, none of which is repeated, make up the second one too, in
whatever order and with whatever commas. -/
def Permuted (content content' : List TokenTree) : Prop :=
  ∃ items items' given, Separated items content ∧ items.Perm items' ∧ Separated items' content' ∧
    List.Forall₂ Spells items given ∧ (given.map word).Nodup

theorem Separated.listed {items : List (List TokenTree)} {ts : List TokenTree}
    {given : List DeclarationArgument} (h : Separated items ts)
    (hitems : List.Forall₂ Spells items given) : Listed ts given := by
  induction hitems generalizing ts with
  | nil =>
    cases h
    exact .nil
  | cons hitem _ ih =>
    cases h with
    | cons hseparator hrest => exact .cons hitem hseparator (ih hrest)

theorem Listed.unique {ts : List TokenTree} {given given' : List DeclarationArgument}
    (h : Listed ts given) (h' : Listed ts given') : given = given' := by
  rw [← readAll_eq_ok_iff] at h h'
  rw [h] at h'
  exact Except.ok.inj h'

theorem Permuted.exists_listed {content content' : List TokenTree} (h : Permuted content content') :
    ∃ given given', Listed content given ∧ Listed content' given' ∧ given.Perm given' ∧
      (given.map word).Nodup := by
  obtain ⟨items, items', given, hitems, hperm, hitems', hspells, hnodup⟩ := h
  obtain ⟨given', hspells', hgiven⟩ := List.perm_comp_forall₂ hperm.symm hspells
  exact ⟨given, given', hitems.listed hspells, hitems'.listed hspells', hgiven.symm, hnodup⟩

end DeclarationArgument

namespace DeclarationArguments

open DeclarationArgument

theorem HoldsExactly.perm {args : DeclarationArguments} {given given' : List DeclarationArgument}
    (h : HoldsExactly args given) (hperm : given.Perm given') : HoldsExactly args given' where
  name s := (h.name s).trans hperm.mem_iff
  absolute := h.absolute.trans hperm.mem_iff
  monotonic := h.monotonic.trans hperm.mem_iff

theorem HoldsExactly.unique {args args' : DeclarationArguments} {given : List DeclarationArgument}
    (h : HoldsExactly args given) (h' : HoldsExactly args' given) : args = args' := by
  have hname : args.name = args'.name := Option.ext fun s => (h.name s).trans (h'.name s).symm
  have habsolute : args.absolute = args'.absolute :=
    Bool.eq_iff_iff.2 (h.absolute.trans h'.absolute.symm)
  have hmonotonic : args.monotonic = args'.monotonic :=
    Bool.eq_iff_iff.2 (h.monotonic.trans h'.monotonic.symm)
  exact DeclarationArguments.ext hname habsolute hmonotonic

theorem ofList_perm {given given' : List DeclarationArgument} (hperm : given.Perm given')
    (hnodup : (given.map word).Nodup) : ofList given = ofList given' := by
  have hnodup' : (given'.map word).Nodup := (hperm.map word).nodup_iff.1 hnodup
  exact ((holdsExactly_of_nodup hnodup).perm hperm).unique (holdsExactly_of_nodup hnodup')

theorem ofTrees_permuted {content content' : List TokenTree} (h : Permuted content content') :
    ofTrees content = ofTrees content' := by
  obtain ⟨given, given', hlisted, hlisted', hperm, hnodup⟩ := h.exists_listed
  rw [ofTrees_of_listed hlisted, ofTrees_of_listed hlisted', ofList_perm hperm hnodup]

end DeclarationArguments

variable {types : TypeReader}

namespace TypeArgument

/-- The word that an argument begins with. -/
def word : TypeArgument → String
  | space _ => "namespace"
  | parent _ => "parent"
  | declaration k _ => k.keyword

/-- An argument as it stands, or a declaration with its own arguments permuted. -/
inductive Varied : List TokenTree → List TokenTree → Prop
  | same (item : List TokenTree) : Varied item item
  | list {k : Kind} {content content' : List TokenTree}
      (h : DeclarationArgument.Permuted content content') :
      Varied [.ident ⟨k.keyword, false⟩, .group .parenthesis content]
        [.ident ⟨k.keyword, false⟩, .group .parenthesis content']

/-- Arguments that follow each other without commas. -/
inductive Run (types : TypeReader) : List TokenTree → List TypeArgument → Prop
  | last {item : List TokenTree} {a : TypeArgument} (hitem : SpellsBefore types [] item a) :
      Run types item [a]
  | cons {item rest : List TokenTree} {a : TypeArgument} {given : List TypeArgument}
      (hitem : SpellsBefore types rest item a) (hrest : Run types rest given) :
      Run types (item ++ rest) (a :: given)

/-- The same run of arguments, some of them varied. -/
inductive VariedRun (types : TypeReader) : List TokenTree → List TokenTree → Prop
  | last {item item' : List TokenTree} {a : TypeArgument} (hitem : SpellsBefore types [] item a)
      (hvaried : Varied item item') : VariedRun types item item'
  | cons {item item' rest rest' : List TokenTree} {a : TypeArgument}
      (hitem : SpellsBefore types rest item a) (hvaried : Varied item item')
      (hrest : VariedRun types rest rest') : VariedRun types (item ++ rest) (item' ++ rest')

/-- The runs stand one after the other with a comma between each and the next, and perhaps one
behind the last. -/
inductive Joined : List (List TokenTree) → List TokenTree → Prop
  | nil : Joined [] []
  | last {run : List TokenTree} : Joined [run] run
  | cons {run rest : List TokenTree} {runs : List (List TokenTree)} {joint : Bool}
      (hrest : Joined runs rest) : Joined (run :: runs) (run ++ .punct ',' joint :: rest)

/-- What stands between the commas has changed places, and the declarations in it may have their
arguments permuted. -/
def Rearranged (types : TypeReader) (ts ts' : List TokenTree) : Prop :=
  ∃ runs runs', Joined runs ts ∧ Reordered (VariedRun types) runs runs' ∧ Joined runs' ts'

/-! ## One argument -/

theorem keyword_ne (k : Kind) : k.keyword ≠ "namespace" ∧ k.keyword ≠ "parent" := by
  cases k <;> decide

theorem SpellsBefore.exists_word {item after : List TokenTree} {a : TypeArgument}
    (h : SpellsBefore types after item a) : ∃ value, item = .ident ⟨a.word, false⟩ :: value := by
  cases h <;> exact ⟨_, rfl⟩

/-- Where an argument stands, no other one does. -/
theorem SpellsBefore.unique {item item' after after' : List TokenTree} {a a' : TypeArgument}
    (h : SpellsBefore types after item a) (h' : SpellsBefore types after' item' a')
    (hts : item ++ after = item' ++ after') : a = a' ∧ after = after' := by
  have hword : a.word = a'.word := by
    obtain ⟨value, rfl⟩ := h.exists_word
    obtain ⟨value', rfl⟩ := h'.exists_word
    simpa using (List.cons.inj hts).1
  have hne : "namespace" ≠ "parent" := by decide
  cases h with
  | space =>
    cases h' with
    | space =>
      cases hts
      exact ⟨rfl, rfl⟩
    | parent => exact absurd hword hne
    | bare | list => exact absurd hword.symm (keyword_ne _).1
  | @parent _ type t htype =>
    cases h' with
    | space => exact absurd hword hne.symm
    | @parent _ type' t' htype' =>
      have htail : type ++ after = type' ++ after' := (List.cons.inj (List.cons.inj hts).2).2
      rw [htail, htype'] at htype
      cases htype
      exact ⟨rfl, rfl⟩
    | bare | list => exact absurd hword.symm (keyword_ne _).2
  | bare hafter =>
    cases h' with
    | space => exact absurd hword (keyword_ne _).1
    | parent => exact absurd hword (keyword_ne _).2
    | bare =>
      obtain rfl := Kind.keyword_injective hword
      exact ⟨rfl, (List.cons.inj hts).2⟩
    | @list _ content =>
      have htail : after = .group .parenthesis content :: after' := (List.cons.inj hts).2
      rw [htail] at hafter
      cases hafter
  | @list _ content _ hcontent =>
    cases h' with
    | space => exact absurd hword (keyword_ne _).1
    | parent => exact absurd hword (keyword_ne _).2
    | bare hafter' =>
      have htail : .group .parenthesis content :: after = after' := (List.cons.inj hts).2
      rw [← htail] at hafter'
      cases hafter'
    | list hcontent' =>
      obtain rfl := Kind.keyword_injective hword
      obtain ⟨hgroup, hafter⟩ := List.cons.inj (List.cons.inj hts).2
      cases hgroup
      rw [hcontent.unique hcontent']
      exact ⟨rfl, hafter⟩

/-- Varying an argument does not change what it says. -/
theorem SpellsBefore.varied {item item' after : List TokenTree} {a : TypeArgument}
    (h : SpellsBefore types after item a) (hvaried : Varied item item') :
    SpellsBefore types after item' a := by
  cases hvaried with
  | same => exact h
  | @list k content content' hpermuted =>
    obtain ⟨given, given', hlisted, hlisted', hperm, hnodup⟩ := hpermuted.exists_listed
    have hsame := DeclarationArguments.ofList_perm hperm hnodup
    obtain ⟨rfl, _⟩ := h.unique (.list hlisted) rfl
    rw [hsame]
    exact .list hlisted'

/-- What is written inside the groups behind an argument makes no difference to it. -/
theorem SpellsBefore.of_alike (hbrackets : types.SeesBrackets) {item after after' : List TokenTree}
    {a : TypeArgument} (h : SpellsBefore types after item a)
    (halike : Code.Alike after.length after after') : SpellsBefore types after' item a := by
  cases h with
  | space => exact .space
  | parent htype => exact .parent (hbrackets _ _ _ _ halike htype)
  | bare hafter =>
    have hgroup : Code.atGroup .parenthesis after = Code.atGroup .parenthesis after' :=
      halike.look (by simp)
    exact .bare (hgroup ▸ hafter)
  | list hcontent => exact .list hcontent

/-! ## Runs of arguments -/

theorem Varied.alike {item item' rest rest' : List TokenTree} {k : Nat} (h : Varied item item')
    (hk : (item ++ rest).length ≤ k) (hrest : Code.Alike k rest rest') :
    Code.Alike k (item ++ rest) (item' ++ rest') := by
  cases h with
  | same => exact hrest.append_left item
  | list =>
    have hlast : rest.length < k := by
      simp only [List.length_append, List.length_cons] at hk
      omega
    exact .same (.group hlast hrest)

theorem VariedRun.alike {run run' : List TokenTree} {k : Nat} (h : VariedRun types run run')
    (hk : run.length ≤ k) : Code.Alike k run run' := by
  induction h with
  | @last item item' a _ hvaried =>
    have hwhole : Code.Alike k (item ++ []) (item' ++ []) := hvaried.alike (by simpa using hk) .nil
    simpa using hwhole
  | @cons item item' rest rest' a _ hvaried _ ih =>
    refine hvaried.alike hk (ih ?_)
    rw [List.length_append] at hk
    omega

/-- A varied run says the same as before. -/
theorem VariedRun.exists_run (hbrackets : types.SeesBrackets) {run run' : List TokenTree}
    (h : VariedRun types run run') : ∃ given, Run types run given ∧ Run types run' given := by
  induction h with
  | last hitem hvaried => exact ⟨_, .last hitem, .last (hitem.varied hvaried)⟩
  | cons hitem hvaried hrest ih =>
    obtain ⟨given, hrun, hrun'⟩ := ih
    have hbefore := hitem.of_alike hbrackets (hrest.alike (Nat.le_refl _))
    exact ⟨_ :: given, .cons hitem hrun, .cons (hbefore.varied hvaried) hrun'⟩

theorem Run.varied_self {run : List TokenTree} {given : List TypeArgument}
    (h : Run types run given) : VariedRun types run run := by
  induction h with
  | last hitem => exact .last hitem (.same _)
  | cons hitem _ ih => exact .cons hitem (.same _) ih

/-- A run can be followed by a comma with further arguments, or by nothing. -/
theorem Run.listed (hcommas : types.StopsAtCommas) {run : List TokenTree}
    {given more : List TypeArgument} (h : Run types run given) (stop : Code.Stop)
    (hmore : Listed types (Code.skipSign ',' stop.trees) more) :
    Listed types (run ++ stop.trees) (given ++ more) := by
  induction h with
  | @last item a hitem =>
    obtain ⟨separator, hseparator, hstop⟩ := DeclarationArgument.exists_separates stop.trees
    have hnothing : SpellsBefore types ([] ++ Code.Stop.nothing.trees) item a := hitem
    have hbefore : SpellsBefore types stop.trees item a := hnothing.before_stop hcommas stop
    rw [hstop] at hbefore ⊢
    exact .cons hbefore hseparator hmore
  | @cons item rest a given hitem _ ih =>
    have hnothing : SpellsBefore types (rest ++ Code.Stop.nothing.trees) item a := by
      rwa [Code.Stop.trees, List.append_nil]
    have hbefore : SpellsBefore types ([] ++ (rest ++ stop.trees)) item a :=
      hnothing.before_stop hcommas stop
    have hlisted : Listed types (item ++ ([] ++ (rest ++ stop.trees))) (a :: (given ++ more)) :=
      .cons hbefore .nothing ih
    rwa [List.append_assoc]

/-- Runs with commas between them make up a list of their arguments. -/
theorem Joined.listed (hcommas : types.StopsAtCommas) {runs : List (List TokenTree)}
    {ts : List TokenTree} {givens : List (List TypeArgument)} (h : Joined runs ts)
    (hruns : List.Forall₂ (Run types) runs givens) : Listed types ts givens.flatten := by
  induction h generalizing givens with
  | nil =>
    cases hruns
    exact .nil
  | @last run =>
    cases hruns with
    | cons hrun hnone =>
      cases hnone
      have hlisted := hrun.listed hcommas .nothing .nil
      rwa [Code.Stop.trees, List.append_nil] at hlisted
  | @cons run rest runs joint hrest ih =>
    cases hruns with
    | cons hrun hruns => exact hrun.listed hcommas (.comma joint rest) (ih hruns)

theorem Listed.unique {ts : List TokenTree} {given given' : List TypeArgument}
    (h : Listed types ts given) (h' : Listed types ts given') : given = given' := by
  induction h generalizing given' with
  | nil =>
    generalize hts : ([] : List TokenTree) = ts at h'
    cases h' with
    | nil => rfl
    | cons hitem =>
      obtain ⟨i, value, rfl⟩ := hitem.exists_ident
      cases hts
  | @cons item separator rest a given hitem hseparator hrest ih =>
    generalize hts : item ++ (separator ++ rest) = ts at h'
    cases h' with
    | nil =>
      obtain ⟨i, value, rfl⟩ := hitem.exists_ident
      cases hts
    | @cons item' separator' rest' a' given' hitem' hseparator' hrest' =>
      obtain ⟨rfl, hafter⟩ := hitem.unique hitem' hts
      have hsame := congrArg (Code.skipSign ',') hafter
      rw [hseparator.skipSign_append hrest.fresh, hseparator'.skipSign_append hrest'.fresh] at hsame
      subst hsame
      rw [ih hrest']

/-- Any list of arguments divides at its commas into runs. -/
theorem Listed.exists_runs (hcommas : types.StopsAtCommas) {ts : List TokenTree}
    {given : List TypeArgument} (h : Listed types ts given) :
    ∃ runs, Joined runs ts ∧ ∀ run ∈ runs, ∃ given, Run types run given := by
  induction h with
  | nil => exact ⟨[], .nil, by simp⟩
  | @cons item separator rest a given hitem hseparator _ ih =>
    obtain ⟨runs, hjoined, hruns⟩ := ih
    cases hseparator with
    | @comma joint =>
      have hcomma : SpellsBefore types ([] ++ (Code.Stop.comma joint rest).trees) item a := hitem
      have halone : SpellsBefore types [] item a := hcomma.before_stop hcommas .nothing
      exact ⟨item :: runs, .cons hjoined, List.forall_mem_cons.2 ⟨⟨[a], .last halone⟩, hruns⟩⟩
    | nothing =>
      -- Without a comma, the argument belongs to the first of the runs behind it.
      cases hjoined with
      | nil => exact ⟨[item], by simpa using Joined.last, by simpa using ⟨[a], .last hitem⟩⟩
      | last =>
        obtain ⟨more, hrun⟩ := hruns _ List.mem_cons_self
        exact ⟨[item ++ rest], .last, by simpa using ⟨a :: more, .cons hitem hrun⟩⟩
      | @cons run rest runs joint hjoined =>
        obtain ⟨⟨more, hrun⟩, hruns⟩ := List.forall_mem_cons.1 hruns
        have hcomma : SpellsBefore types (run ++ (Code.Stop.comma joint rest).trees) item a := hitem
        have halone : SpellsBefore types (run ++ []) item a :=
          hcomma.before_stop hcommas .nothing
        rw [List.append_nil] at halone
        have hjoined' :
            Joined ((item ++ run) :: runs) ((item ++ run) ++ .punct ',' joint :: rest) :=
          .cons hjoined
        refine ⟨(item ++ run) :: runs, by simpa using hjoined', ?_⟩
        exact List.forall_mem_cons.2 ⟨⟨a :: more, .cons halone hrun⟩, hruns⟩

/-- Any order of these runs, with commas between them, is a rearrangement. -/
theorem Listed.exists_joined (hcommas : types.StopsAtCommas) {ts : List TokenTree}
    {given : List TypeArgument} (h : Listed types ts given) : ∃ runs, Joined runs ts ∧
      ∀ runs' ts', runs.Perm runs' → Joined runs' ts' → Rearranged types ts ts' := by
  obtain ⟨runs, hjoined, hruns⟩ := h.exists_runs hcommas
  refine ⟨runs, hjoined, fun runs' ts' hperm hjoined' => ?_⟩
  have hsame : List.Forall₂ (VariedRun types) runs' runs' := by
    refine List.forall₂_same.2 fun run hrun => ?_
    obtain ⟨given, hgiven⟩ := hruns run (hperm.mem_iff.2 hrun)
    exact hgiven.varied_self
  exact ⟨runs, runs', hjoined, ⟨runs', hperm, hsame⟩, hjoined'⟩

/-- What is rearranged says the same things in another order. -/
theorem Rearranged.exists_listed (hcommas : types.StopsAtCommas) (hbrackets : types.SeesBrackets)
    {ts ts' : List TokenTree} (h : Rearranged types ts ts') :
    ∃ given given', Listed types ts given ∧ Listed types ts' given' ∧ given.Perm given' := by
  obtain ⟨runs, runs', hjoined, ⟨moved, hperm, hvaried⟩, hjoined'⟩ := h
  have hboth : ∃ givens,
      List.Forall₂ (Run types) moved givens ∧ List.Forall₂ (Run types) runs' givens := by
    clear hperm hjoined hjoined'
    induction hvaried with
    | nil => exact ⟨[], .nil, .nil⟩
    | cons hrun _ ih =>
      obtain ⟨given, hgiven, hgiven'⟩ := hrun.exists_run hbrackets
      obtain ⟨givens, hgivens, hgivens'⟩ := ih
      exact ⟨given :: givens, .cons hgiven hgivens, .cons hgiven' hgivens'⟩
  obtain ⟨givens, hmoved, hruns'⟩ := hboth
  obtain ⟨givens₀, hruns, hgivens⟩ := List.perm_comp_forall₂ hperm hmoved
  exact ⟨_, _, hjoined.listed hcommas hruns, hjoined'.listed hcommas hruns', hgivens.flatten⟩

/-! ## What a list of arguments comes to -/

theorem space?_eq_some_iff {a : TypeArgument} {s : String} : a.space? = some s ↔ a = .space s := by
  cases a <;> simp [space?]

theorem parent?_eq_some_iff {a : TypeArgument} {t : Code.TypeSyntax} :
    a.parent? = some t ↔ a = .parent t := by
  cases a <;> simp [parent?]

end TypeArgument

namespace TypeArguments

open TypeArgument

/-- Up to the order of the declarations, the order of arguments does not matter. -/
structure SameUpToOrder (args args' : TypeArguments) : Prop where
  space : args.space = args'.space
  parent : args.parent = args'.parent
  declarations : args.declarations.Perm args'.declarations

/-- If no word is repeated, the last value of a word is the same in any order. -/
theorem getLast?_filterMap_perm {β : Type} {value? : TypeArgument → Option β}
    {make : β → TypeArgument} {given given' : List TypeArgument}
    (hvalue : ∀ a b, value? a = some b ↔ a = make b)
    (hword : ∀ b b', (make b).word = (make b').word) (hperm : given.Perm given')
    (hnodup : (given.map word).Nodup) :
    (given.filterMap value?).getLast? = (given'.filterMap value?).getLast? := by
  have hnodup' : (given'.map word).Nodup := (hperm.map word).nodup_iff.1 hnodup
  refine Option.ext fun b => ?_
  rw [getLast?_filterMap_eq_some_iff hvalue hword hnodup,
    getLast?_filterMap_eq_some_iff hvalue hword hnodup', hperm.mem_iff]

theorem ofList_perm {given given' : List TypeArgument} (hperm : given.Perm given')
    (hnodup : (given.map word).Nodup) : SameUpToOrder (ofList given) (ofList given') where
  space :=
    getLast?_filterMap_perm (fun _ _ => space?_eq_some_iff) (fun _ _ => rfl) hperm hnodup
  parent :=
    getLast?_filterMap_perm (fun _ _ => parent?_eq_some_iff) (fun _ _ => rfl) hperm hnodup
  declarations := hperm.filterMap _

theorem Consistent.perm {given given' : List TypeArgument} (h : Consistent given)
    (hperm : given.Perm given') : Consistent given' where
  valid a ha := h.valid a (hperm.mem_iff.2 ha)
  nodup := ((hperm.filterMap _).map _).nodup_iff.1 h.nodup

/-- What is accepted is accepted in any other order, if no word is repeated. -/
theorem ofTrees_of_rearranged (hcommas : types.StopsAtCommas) (hbrackets : types.SeesBrackets)
    {ts ts' : List TokenTree} {args : TypeArguments} (h : ofTrees types ts = .ok args)
    (hts : Rearranged types ts ts')
    (hnodup : ∀ given, Listed types ts given → (given.map word).Nodup) :
    ∃ args', ofTrees types ts' = .ok args' ∧ SameUpToOrder args args' := by
  obtain ⟨given, hlisted, hgiven, rfl⟩ := of_ofTrees_eq_ok h
  obtain ⟨given₀, given', hlisted₀, hlisted', hperm⟩ := hts.exists_listed hcommas hbrackets
  obtain rfl := hlisted₀.unique hlisted
  exact ⟨_, ofTrees_of_listed hlisted' (hgiven.perm hperm), ofList_perm hperm (hnodup _ hlisted)⟩

theorem nodup_kinds_of_ofTrees {ts : List TokenTree} {args : TypeArguments}
    (h : ofTrees types ts = .ok args) : args.kinds.Nodup := by
  obtain ⟨given, _, hgiven, rfl⟩ := of_ofTrees_eq_ok h
  exact hgiven.nodup

end TypeArguments

end MetricWiring
