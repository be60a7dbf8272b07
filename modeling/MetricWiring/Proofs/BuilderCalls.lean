import MetricWiring.BuilderCall
import MetricWiring.Proofs.DeclarationOrder

/-!
# The order in which a type is built

A type is built by calls that give it a parent, declarations for all its methods, and methods with
declarations of their own. Each call concerns one slot: the parent, a kind, or the name of a method.
Whatever the order of the calls, the last one for a slot decides what it holds (`BuiltBy`), and
calls for different slots can change places, but for the order in which the names of methods first
come up (`last_call_decides`).
-/
namespace MetricWiring

open DeclarationTable (latest)

namespace MethodTable

theorem filterMap_find?_names (t : MethodTable) : t.names.filterMap t.find? = t.entries := by
  rw [names, List.filterMap_map]
  have hfound : ∀ m ∈ t.entries, (t.find? ∘ Method.name) m = some m := fun m hm =>
    find?_eq_some_iff.2 ⟨hm, rfl⟩
  rw [List.filterMap_congr hfound, List.filterMap_some]

theorem perm_of_find? {t u : MethodTable} (h : ∀ n, t.find? n = u.find? n) :
    t.entries.Perm u.entries := by
  refine (List.perm_ext_iff_of_nodup (.of_map _ t.nodup) (.of_map _ u.nodup)).2 fun m => ?_
  have hm : m ∈ t.entries ∧ m.name = m.name ↔ m ∈ u.entries ∧ m.name = m.name := by
    rw [← find?_eq_some_iff, h, find?_eq_some_iff]
  simpa only [and_true] using hm

theorem ext_find? {t u : MethodTable} (hnames : t.names = u.names)
    (h : ∀ n, t.find? n = u.find? n) : t = u := by
  have hentries : t.entries = u.entries := by
    rw [← filterMap_find?_names t, ← filterMap_find?_names u, hnames, funext h]
  cases t
  cases u
  congr

end MethodTable

namespace BuilderCall

def parent? : BuilderCall → Option TypeInfo
  | parent p => some p
  | declare .. | method .. | withMethod .. => none

def declaration? : BuilderCall → Option (Kind × Declaration)
  | declare k d => some (k, d)
  | parent _ | method .. | withMethod .. => none

/-- The name of the method that is put in, with its declarations. -/
def method? : BuilderCall → Option (String × List (Kind × Declaration))
  | method name declared => some (name, declared)
  | withMethod name declared => some (name, declared)
  | parent _ | declare .. => none

/-- The names of the methods put in, as often as they come up. -/
def names (calls : List BuilderCall) : List String := (calls.filterMap method?).map Prod.fst

/-- What a call concerns. -/
inductive Slot where
  | parent
  | kind (k : Kind)
  | method (name : String)
  deriving DecidableEq

def slot : BuilderCall → Slot
  | parent _ => .parent
  | declare k _ => .kind k
  | method name _ => .method name
  | withMethod name _ => .method name

/-! ## What the calls amount to -/

/-- The type holds what the last call for each slot gave, and its methods stand in the order in
which their names first came up. -/
structure BuiltBy (t : TypeInfo) (fullName : String) (calls : List BuilderCall) : Prop where
  fullName : t.fullName = fullName
  parent : t.parent? = (calls.filterMap parent?).getLast?
  declarations : ∀ k, t.declarations.get k = latest (calls.filterMap declaration?) k
  nodup : (t.methods.map Method.name).Nodup
  names : t.methods.map Method.name = (names calls).eraseDups
  methods : ∀ m ∈ t.methods, ∃ declared,
    ((calls.filterMap method?).filter fun c => c.1 = m.name).getLast? = some (m.name, declared) ∧
      ∀ k, m.declarations.get k = latest declared k

theorem built_concat (fullName : String) (calls : List BuilderCall) (c : BuilderCall) :
    built fullName (calls ++ [c]) = run (built fullName calls) c := by
  rw [built, List.foldl_append]
  rfl

theorem built_eq (fullName : String) (calls : List BuilderCall) :
    built fullName calls =
      { own :=
          { fullName
            declarations := .ofList (calls.filterMap declaration?)
            methods := .ofList ((calls.filterMap method?).map fun c => .ofPairs c.1 c.2) }
        ancestors :=
          ((calls.filterMap parent?).getLast?.map fun p => p.own :: p.ancestors).getD [] } := by
  induction calls using List.reverseRecOn with
  | nil => rfl
  | append_singleton calls c ih =>
    rw [built_concat, ih]
    simp only [List.filterMap_append, List.filterMap_cons, List.filterMap_nil, List.map_append]
    cases c with
    | parent p => simp [run, TypeInfo.withParent, parent?, declaration?, method?]
    | declare k d =>
      simp [run, TypeInfo.declare, parent?, declaration?, method?, DeclarationTable.ofList,
        DeclarationTable.insertAll]
    | method name declared =>
      simp [run, TypeInfo.method, TypeInfo.withMethod, parent?, declaration?, method?,
        MethodTable.ofList_concat, Method.declareAll_new]
    | withMethod name declared =>
      simp [run, TypeInfo.withMethod, parent?, declaration?, method?, MethodTable.ofList_concat,
        Method.declareAll_new]

theorem names_built (fullName : String) (calls : List BuilderCall) :
    (built fullName calls).own.methods.names = (names calls).eraseDups := by
  rw [built_eq, MethodTable.names_ofList, List.map_map]
  rfl

theorem find?_built (fullName : String) (calls : List BuilderCall) (n : String) :
    (built fullName calls).own.methods.find? n =
      ((calls.filterMap method?).filter fun c => c.1 = n).getLast?.map fun c =>
        .ofPairs c.1 c.2 := by
  rw [built_eq, MethodTable.find?_ofList, List.filter_map, List.getLast?_map]
  rfl

theorem builtBy_built (fullName : String) (calls : List BuilderCall) :
    BuiltBy (built fullName calls) fullName calls where
  fullName := by
    rw [built_eq]
    rfl
  parent := by
    rw [built_eq]
    cases (calls.filterMap parent?).getLast? <;> rfl
  declarations k := by
    rw [built_eq]
    exact DeclarationTable.get_ofList _ k
  nodup := (built fullName calls).own.methods.nodup
  names := names_built fullName calls
  methods m hm := by
    have hfound := MethodTable.find?_eq_some_iff.2 ⟨hm, rfl⟩
    rw [find?_built, Option.map_eq_some_iff] at hfound
    obtain ⟨⟨n, declared⟩, hlast, rfl⟩ := hfound
    exact ⟨declared, hlast, DeclarationTable.get_ofList declared⟩

/-! ## Calls in another order -/

/-- Each slot is given the same calls in the same order. -/
def SameOnSlots (calls others : List BuilderCall) : Prop :=
  ∀ s, (calls.filter fun c => c.slot = s) = others.filter fun c => c.slot = s

/-- The types differ at most in the order of their methods. -/
structure SameButForOrder (t u : TypeInfo) : Prop where
  fullName : t.fullName = u.fullName
  parent : t.parent? = u.parent?
  declarations : t.declarations = u.declarations
  methods : t.methods.Perm u.methods

theorem SameButForOrder.eq {t u : TypeInfo} (h : SameButForOrder t u)
    (hmethods : t.own.methods = u.own.methods) : t = u := by
  obtain ⟨⟨fullName, declarations, methods⟩, ancestors⟩ := t
  obtain ⟨⟨fullName', declarations', methods'⟩, ancestors'⟩ := u
  have hfullName : fullName = fullName' := h.fullName
  have hdeclarations : declarations = declarations' := h.declarations
  have hancestors : ancestors = ancestors' := by
    have hparent := h.parent
    cases ancestors <;> cases ancestors' <;> simp_all [TypeInfo.parent?]
  subst hfullName hdeclarations hmethods hancestors
  rfl

namespace SameOnSlots

variable {calls others : List BuilderCall} (h : SameOnSlots calls others)

include h

/-- What only the calls for one slot have is the same. -/
theorem filterMap_eq {β : Type} {f : BuilderCall → Option β} (s : Slot)
    (hf : ∀ c, c.slot ≠ s → f c = none) : calls.filterMap f = others.filterMap f := by
  have honly (cs : List BuilderCall) :
      (cs.filter fun c => c.slot = s).filterMap f = cs.filterMap f :=
    filterMap_filter_of_none (fun c hc => hf c (by simpa using hc)) cs
  rw [← honly calls, h s, honly]

theorem parents_eq : calls.filterMap parent? = others.filterMap parent? := by
  refine h.filterMap_eq .parent fun c hc => ?_
  cases c with
  | parent p => exact absurd rfl hc
  | declare | method | withMethod => rfl

theorem declarations_eq (k : Kind) :
    ((calls.filterMap declaration?).filter fun p => p.1 = k) =
      (others.filterMap declaration?).filter fun p => p.1 = k := by
  rw [List.filter_filterMap, List.filter_filterMap]
  refine h.filterMap_eq (.kind k) fun c hc => ?_
  cases c with
  | declare l d =>
    have hl : ¬ l = k := fun hl => hc (congrArg Slot.kind hl)
    simp [declaration?, hl]
  | parent | method | withMethod => rfl

theorem methods_eq (n : String) :
    ((calls.filterMap method?).filter fun c => c.1 = n) =
      (others.filterMap method?).filter fun c => c.1 = n := by
  rw [List.filter_filterMap, List.filter_filterMap]
  refine h.filterMap_eq (.method n) fun c hc => ?_
  cases c with
  | method m declared | withMethod m declared =>
    have hm : ¬ m = n := fun hm => hc (congrArg Slot.method hm)
    simp [method?, hm]
  | parent | declare => rfl

theorem find?_eq (fullName n : String) : (built fullName calls).own.methods.find? n =
    (built fullName others).own.methods.find? n := by
  rw [find?_built, find?_built, h.methods_eq]

theorem sameButForOrder (fullName : String) :
    SameButForOrder (built fullName calls) (built fullName others) where
  fullName := by
    rw [(builtBy_built fullName calls).fullName, (builtBy_built fullName others).fullName]
  parent := by
    rw [(builtBy_built fullName calls).parent, h.parents_eq, (builtBy_built fullName others).parent]
  declarations := by
    refine DeclarationTable.ext_get fun k => ?_
    rw [(builtBy_built fullName calls).declarations, latest, h.declarations_eq,
      (builtBy_built fullName others).declarations, latest]
  methods := MethodTable.perm_of_find? (h.find?_eq fullName)

/-- Types that differ at most in the order of their methods are equal if the names of these first
came up in the same order. -/
theorem built_eq_built (fullName : String)
    (hnames : (names calls).eraseDups = (names others).eraseDups) :
    built fullName calls = built fullName others := by
  have hmethods : (built fullName calls).own.methods = (built fullName others).own.methods :=
    MethodTable.ext_find? (by rw [names_built, names_built, hnames]) (h.find?_eq fullName)
  exact (h.sameButForOrder fullName).eq hmethods

end SameOnSlots

theorem sameOnSlots_swap {a b : BuilderCall} (hab : a.slot ≠ b.slot)
    (before after : List BuilderCall) :
    SameOnSlots (before ++ a :: b :: after) (before ++ b :: a :: after) := by
  intro s
  rw [List.filter_append, List.filter_append]
  congr 1
  by_cases ha : a.slot = s
  · have hb : ¬ b.slot = s := fun hb => hab (ha.trans hb.symm)
    simp [ha, hb]
  · by_cases hb : b.slot = s <;> simp [ha, hb]

theorem names_swap {a b : BuilderCall} (hab : a.method? = none ∨ b.method? = none)
    (before after : List BuilderCall) :
    names (before ++ a :: b :: after) = names (before ++ b :: a :: after) := by
  rcases hab with hnone | hnone <;>
    simp [names, List.filterMap_cons, hnone]

/-- Calls build a type in steps. In the type the last call for each slot decides, and the methods
stand in the order in which their names first came up. Calls for different slots can change places,
all of them at once or two neighbours, with nothing changed but this order; if that stays the same
too, so does the type. -/
theorem last_call_decides (fullName : String) (calls : List BuilderCall) :
    built fullName calls = .build fullName (calls.map step) ∧
      BuiltBy (built fullName calls) fullName calls ∧
      (∀ others, SameOnSlots calls others →
        SameButForOrder (built fullName calls) (built fullName others) ∧
          ((names calls).eraseDups = (names others).eraseDups →
            built fullName calls = built fullName others)) ∧
      ∀ before a b after, calls = before ++ a :: b :: after → a.slot ≠ b.slot →
        SameButForOrder (built fullName calls) (built fullName (before ++ b :: a :: after)) ∧
          (a.method? = none ∨ b.method? = none →
            built fullName calls = built fullName (before ++ b :: a :: after)) := by
  refine ⟨built_eq_build fullName calls, builtBy_built fullName calls,
    fun others h => ⟨h.sameButForOrder fullName, h.built_eq_built fullName⟩, ?_⟩
  rintro before a b after rfl hab
  have hswap := sameOnSlots_swap hab before after
  refine ⟨hswap.sameButForOrder fullName, fun hnone => hswap.built_eq_built fullName ?_⟩
  rw [names_swap hnone]

/-- A method, a declaration for the type, another method, and the first method once more. -/
theorem last_call_decides_of_four :
    let first := method "m" [(.timed, .unnamed)]
    let gauge := declare .gauge .unnamed
    let other := method "n" []
    let again := withMethod "m" [(.metered, .unnamed), (.metered, .named "reads")]
    let calls := [first, gauge, other, again]
    let moved := [first, other, gauge, again]
    (gauge.slot ≠ other.slot ∧ SameOnSlots calls moved ∧
        (names calls).eraseDups = (names moved).eraseDups) ∧
      built "pkg.T" calls = built "pkg.T" moved ∧
      (built "pkg.T" calls).methods.map Method.name = ["m", "n"] := by
  intro first gauge other again calls moved
  have hslots : gauge.slot ≠ other.slot := by decide
  have hsame : SameOnSlots calls moved := sameOnSlots_swap hslots [first] [again]
  have hnames : (names calls).eraseDups = (names moved).eraseDups := rfl
  obtain ⟨_, hbuilt, horder, _⟩ := last_call_decides "pkg.T" calls
  exact ⟨⟨hslots, hsame, hnames⟩, (horder moved hsame).2 hnames, hbuilt.names⟩

end BuilderCall

end MetricWiring
