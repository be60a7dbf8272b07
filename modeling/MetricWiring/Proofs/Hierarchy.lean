import Mathlib.Data.List.Induction
import Mathlib.Data.List.Nodup
import MetricWiring.Callable
import MetricWiring.Proofs.Occurrences

/-!
# The flattened view of a type

The view is built by walking up the ancestry and entering every method met on the way, which also
lengthens the override chains of callables entered earlier. What comes out is the type's own methods
followed by what its parent's view holds under other names (`hierarchy_of_parent?_eq_some`), and
everything said about the view is an induction along the ancestry with this equation.
-/
namespace MetricWiring

namespace MethodTable

theorem declares_iff {t : MethodTable} {name : String} :
    t.declares name = true ↔ name ∈ t.names := by
  simp [declares, find?, names]

theorem find?_eq_some_iff {t : MethodTable} {name : String} {m : Method} :
    t.find? name = some m ↔ m ∈ t.entries ∧ m.name = name :=
  find?_key_eq_some_iff t.nodup

end MethodTable

namespace Callable

/-- The callable after further types were met on the way up: those that declare its name are
overridden. -/
def extended (c : Callable) (further : List TypeInfo) : Callable :=
  { c with overrides := c.overrides ++ further.filter fun a => a.own.methods.declares c.name }

@[simp] theorem extended_nil (c : Callable) : c.extended [] = c := by simp [extended]

theorem extended_append (c : Callable) (ts us : List TypeInfo) :
    c.extended (ts ++ us) = (c.extended ts).extended us := by
  simp only [extended, List.filter_append, List.append_assoc]
  rfl

theorem enter_of_mem {owner : TypeInfo} {m : Method} {view : List Callable}
    (hv : (view.map name).Nodup) (hm : m.name ∈ view.map name) :
    enter owner m view = view.map fun c => if c.name = m.name then c.overriding owner else c := by
  induction view with
  | nil => simp at hm
  | cons c view ih =>
    rw [List.map_cons, List.nodup_cons] at hv
    by_cases h : c.name = m.name
    · have hrest :
          view.map (fun c => if c.name = m.name then c.overriding owner else c) = view := by
        rw [List.map_congr_left (g := id), List.map_id]
        intro d hd
        have hne : d.name ≠ m.name := by
          intro hdm
          exact hv.1 (List.mem_map.2 ⟨d, hd, hdm.trans h.symm⟩)
        simp [hne]
      simp only [enter, if_pos h, List.map_cons, hrest]
    · have hrest : m.name ∈ view.map name := by
        rcases List.mem_cons.1 hm with hc | hrest
        · exact absurd hc.symm h
        · exact hrest
      simp only [enter, if_neg h, List.map_cons, ih hv.2 hrest]

theorem enter_of_not_mem {owner : TypeInfo} {m : Method} {view : List Callable}
    (hm : m.name ∉ view.map name) : enter owner m view = view ++ [⟨owner, m, []⟩] := by
  induction view with
  | nil => rfl
  | cons c view ih =>
    rw [List.map_cons, List.mem_cons, not_or] at hm
    have hc : ¬ c.name = m.name := fun h => hm.1 h.symm
    simp only [enter, if_neg hc, ih hm.2, List.cons_append]

/-- The methods of one type against a view: callables whose names come up are extended, and the
methods with new names follow in their order. -/
theorem foldl_enter (owner : TypeInfo) {ms : List Method} (hms : (ms.map Method.name).Nodup)
    {view : List Callable} (hv : (view.map name).Nodup) :
    ms.foldl (fun acc m => enter owner m acc) view =
      view.map (fun c => if c.name ∈ ms.map Method.name then c.overriding owner else c) ++
        (ms.filter fun m => m.name ∉ view.map name).map fun m => ⟨owner, m, []⟩ := by
  induction ms generalizing view with
  | nil => simp
  | cons m ms ih =>
    rw [List.map_cons, List.nodup_cons] at hms
    rw [List.foldl_cons, ih hms.2 (nodup_enter owner m hv), map_name_enter]
    -- A name in view extends one callable; a new name is the first of those that follow the view.
    by_cases h : m.name ∈ view.map name
    · rw [if_pos h, enter_of_mem hv h, List.map_map, List.filter_cons_of_neg (by simpa using h)]
      congr 1
      apply List.map_congr_left
      intro c _
      by_cases hc : c.name = m.name
      · simp only [Function.comp_apply, name_overriding, hc, if_true, if_neg hms.1, List.map_cons,
          List.mem_cons, true_or]
      · simp [hc]
    · rw [if_neg h, enter_of_not_mem h, List.map_append, List.append_assoc,
        List.filter_cons_of_pos (by simpa using h), List.map_cons]
      have hview :
          view.map (fun c => if c.name ∈ ms.map Method.name then c.overriding owner else c) =
          view.map fun c =>
            if c.name ∈ (m :: ms).map Method.name then c.overriding owner else c := by
        apply List.map_congr_left
        intro c hc
        have hne : c.name ≠ m.name := fun hcm => h (List.mem_map.2 ⟨c, hc, hcm⟩)
        simp [hne]
      have hnew : (ms.filter fun a => a.name ∉ view.map name ++ [m.name]) =
          ms.filter fun a => a.name ∉ view.map name := by
        apply List.filter_congr
        intro a ha
        have hne : a.name ≠ m.name := fun ham => hms.1 (List.mem_map.2 ⟨a, ha, ham⟩)
        simp [hne]
      have hlast : name ⟨owner, m, []⟩ ∉ ms.map Method.name := hms.1
      rw [hview, hnew]
      simp only [List.map_cons, List.map_nil, if_neg hlast, List.cons_append, List.nil_append]

theorem enterType_eq {view : List Callable} (hv : (view.map name).Nodup) (owner : TypeInfo) :
    enterType view owner =
      view.map (fun c => c.extended [owner]) ++
        (owner.methods.filter fun m => m.name ∉ view.map name).map fun m => ⟨owner, m, []⟩ := by
  have hms : (owner.methods.map Method.name).Nodup := owner.own.methods.nodup
  rw [enterType, foldl_enter owner hms hv]
  congr 1
  apply List.map_congr_left
  intro c _
  by_cases h : owner.own.methods.declares c.name = true
  · have hmem : c.name ∈ owner.methods.map Method.name := MethodTable.declares_iff.1 h
    simp [extended, overriding, h, hmem]
  · have hmem : c.name ∉ owner.methods.map Method.name :=
      fun hc => h (MethodTable.declares_iff.2 hc)
    simp [extended, h, hmem]

theorem map_name_enterType {view : List Callable} (hv : (view.map name).Nodup) (owner : TypeInfo) :
    (enterType view owner).map name =
      view.map name ++ owner.own.methods.names.filter fun n => n ∉ view.map name := by
  rw [enterType_eq hv, List.map_append, List.map_map, List.map_map]
  congr 1
  rw [MethodTable.names, List.filter_map]
  rfl

theorem nodup_enterType {view : List Callable} (hv : (view.map name).Nodup) (owner : TypeInfo) :
    ((enterType view owner).map name).Nodup := by
  rw [map_name_enterType hv, List.nodup_append]
  refine ⟨hv, owner.own.methods.nodup.filter _, ?_⟩
  intro a ha b hb hab
  subst hab
  simpa [ha] using (List.mem_filter.1 hb).2

theorem nodup_foldl_enterType {view : List Callable} (hv : (view.map name).Nodup)
    (ts : List TypeInfo) : ((ts.foldl enterType view).map name).Nodup := by
  induction ts generalizing view with
  | nil => exact hv
  | cons a ts ih => exact ih (nodup_enterType hv a)

/-- Types entered into a view against the same types entered into the empty view: the view is
extended, and behind it stands what the types have under other names. -/
theorem foldl_enterType {view : List Callable} (hv : (view.map name).Nodup) (ts : List TypeInfo) :
    ts.foldl enterType view =
      view.map (·.extended ts) ++
        (ts.foldl enterType []).filter fun c => c.name ∉ view.map name := by
  -- From the end: the type met last is entered into what all the others have left.
  induction ts using List.reverseRecOn with
  | nil => simp
  | append_singleton ts a ih =>
    have hall : ((ts.foldl enterType view).map name).Nodup := nodup_foldl_enterType hv ts
    have hflat : ((ts.foldl enterType []).map name).Nodup := nodup_foldl_enterType (by simp) ts
    have hseen (n : String) : n ∈ (ts.foldl enterType view).map name ↔
        n ∈ view.map name ∨ n ∈ (ts.foldl enterType []).map name := by
      have hnames : (ts.foldl enterType view).map name =
          view.map name ++
            ((ts.foldl enterType []).map name).filter fun n => n ∉ view.map name := by
        rw [ih, List.map_append, List.map_map, List.filter_map]
        rfl
      rw [hnames, List.mem_append, List.mem_filter]
      by_cases hn : n ∈ view.map name
      · simp only [hn, true_or]
      · simp only [hn, false_or, not_false_eq_true, decide_true, and_true]
    have hold : (view.map (·.extended ts)).map (·.extended [a]) =
        view.map (·.extended (ts ++ [a])) := by
      rw [List.map_map]
      apply List.map_congr_left
      intro c _
      exact (extended_append c ts [a]).symm
    have hnew : (a.methods.filter fun m => m.name ∉ (ts.foldl enterType view).map name) =
        (a.methods.filter fun m => m.name ∉ (ts.foldl enterType []).map name).filter
          fun m => m.name ∉ view.map name := by
      rw [List.filter_filter]
      apply List.filter_congr
      intro m _
      simp only [hseen, not_or, Bool.decide_and]
    simp only [List.foldl_append, List.foldl_cons, List.foldl_nil]
    rw [enterType_eq hall, enterType_eq hflat, List.filter_append, hnew, ih, List.map_append, hold,
      List.append_assoc, List.filter_map, List.filter_map]
    rfl

/-- The methods of the type come first, with the ancestors that declare them too as overridden. -/
theorem hierarchy_eq (t : TypeInfo) :
    hierarchy t = declaredOn t ++
      ((TypeInfo.chain t.ancestors).foldl enterType []).filter
        fun c => c.name ∉ t.own.methods.names := by
  have hnil : (([] : List Callable).map name).Nodup := by simp
  have hfirst : enterType [] t = t.methods.map fun m => ⟨t, m, []⟩ := by
    simp [enterType_eq hnil]
  have hnames : (enterType [] t).map name = t.own.methods.names := by
    simp [map_name_enterType hnil]
  have hown : (enterType [] t).map (·.extended (TypeInfo.chain t.ancestors)) = declaredOn t := by
    rw [hfirst, List.map_map]
    rfl
  rw [hierarchy, TypeInfo.lineage, List.foldl_cons, foldl_enterType (nodup_enterType hnil t), hown,
    hnames]

theorem hierarchy_of_parent?_eq_none {t : TypeInfo} (h : t.parent? = none) :
    hierarchy t = declaredOn t := by
  rcases t with ⟨own, _ | ⟨d, above⟩⟩
  · simp [hierarchy_eq, TypeInfo.chain]
  · cases h

theorem hierarchy_of_parent?_eq_some {t p : TypeInfo} (h : t.parent? = some p) :
    hierarchy t =
      declaredOn t ++ (hierarchy p).filter fun c => c.name ∉ t.own.methods.names := by
  rcases t with ⟨own, _ | ⟨d, above⟩⟩
  · cases h
  · cases h
    rw [hierarchy_eq]
    rfl

end Callable

namespace TypeInfo

/-- Induction from a type without a parent down to its descendants. -/
@[elab_as_elim]
theorem ancestry_induction {P : TypeInfo → Prop} (root : ∀ t, t.parent? = none → P t)
    (child : ∀ t p, t.parent? = some p → P p → P t) (t : TypeInfo) : P t := by
  rcases t with ⟨own, ancestors⟩
  induction ancestors generalizing own with
  | nil => exact root _ rfl
  | cons d above ih => exact child _ ⟨d, above⟩ rfl (ih d)

/-- The nearest type of an ancestry that declares a method of the given name. -/
def nearest? (t : TypeInfo) (name : String) : Option TypeInfo :=
  t.lineage.find? fun a => a.own.methods.declares name

theorem mem_lineage_of_nearest? {t a : TypeInfo} {n : String} (h : t.nearest? n = some a) :
    a ∈ t.lineage ∧ n ∈ a.own.methods.names :=
  ⟨List.mem_of_find?_eq_some h, MethodTable.declares_iff.1 (by simpa using List.find?_some h)⟩

theorem depth_parent?_lt {t p : TypeInfo} (h : t.parent? = some p) :
    p.ancestors.length < t.ancestors.length := by
  rcases t with ⟨own, _ | ⟨d, above⟩⟩
  · cases h
  · cases h
    simp

theorem depth_le_of_mem_lineage {t a : TypeInfo} (h : a ∈ t.lineage) :
    a.ancestors.length ≤ t.ancestors.length := by
  induction t using ancestry_induction with
  | root t ht =>
    rw [lineage_of_parent?_eq_none ht, List.mem_singleton] at h
    exact h ▸ Nat.le_refl _
  | child t p ht ih =>
    rw [lineage_of_parent?_eq_some ht] at h
    rcases List.mem_cons.1 h with rfl | h
    · exact Nat.le_refl _
    · exact Nat.le_of_lt (Nat.lt_of_le_of_lt (ih h) (depth_parent?_lt ht))

/-- Each type of an ancestry has more ancestors than the next, so none comes twice. -/
theorem nodup_lineage (t : TypeInfo) : t.lineage.Nodup := by
  induction t using ancestry_induction with
  | root t ht => simp [lineage_of_parent?_eq_none ht]
  | child t p ht ih =>
    rw [lineage_of_parent?_eq_some ht, List.nodup_cons]
    refine ⟨fun h => ?_, ih⟩
    have hle := depth_le_of_mem_lineage h
    have hlt := depth_parent?_lt ht
    omega

end TypeInfo

namespace Callable

/-- The types of an ancestry that declare a name, seen from a type that does. -/
theorem filter_declares_lineage {t : TypeInfo} {n : String} (h : n ∈ t.own.methods.names) :
    (t.lineage.filter fun a => a.own.methods.declares n) = t :: overridden t n := by
  simp only [TypeInfo.lineage, List.filter_cons, MethodTable.declares_iff.2 h, if_true]
  rfl

theorem map_name_declaredOn (t : TypeInfo) : (declaredOn t).map name = t.own.methods.names := by
  rw [declaredOn, List.map_map]
  rfl

theorem find?_eq_some_iff {t : TypeInfo} {n : String} {c : Callable} :
    find? t n = some c ↔ c ∈ declaredOn t ∧ c.name = n := by
  simp only [declaredOn, find?, List.mem_map, Option.map_eq_some_iff, MethodTable.find?_eq_some_iff]
  constructor
  · intro h
    obtain ⟨m, ⟨hm, rfl⟩, rfl⟩ := h
    exact ⟨⟨m, hm, rfl⟩, rfl⟩
  · intro h
    obtain ⟨⟨m, hm, rfl⟩, rfl⟩ := h
    exact ⟨m, ⟨hm, rfl⟩, rfl⟩

theorem of_mem_declaredOn {t : TypeInfo} {c : Callable} (h : c ∈ declaredOn t) :
    c.owner = t ∧ c.method ∈ t.methods ∧ c.overrides = overridden t c.name := by
  obtain ⟨m, hm, rfl⟩ := List.mem_map.1 h
  exact ⟨rfl, hm, rfl⟩

theorem mem_names_hierarchy_iff {t : TypeInfo} {n : String} :
    n ∈ (hierarchy t).map name ↔ ∃ a ∈ t.lineage, n ∈ a.own.methods.names := by
  induction t using TypeInfo.ancestry_induction with
  | root t ht =>
    rw [hierarchy_of_parent?_eq_none ht, map_name_declaredOn,
      TypeInfo.lineage_of_parent?_eq_none ht]
    simp
  | child t p ht ih =>
    rw [hierarchy_of_parent?_eq_some ht, TypeInfo.lineage_of_parent?_eq_some ht, List.map_append,
      map_name_declaredOn, List.mem_append, List.exists_mem_cons_iff, ← ih]
    by_cases hn : n ∈ t.own.methods.names
    · simp only [hn, true_or]
    · simp only [hn, false_or, List.mem_map, List.mem_filter, decide_eq_true_eq]
      constructor
      · intro h
        obtain ⟨c, ⟨hc, _⟩, rfl⟩ := h
        exact ⟨c, hc, rfl⟩
      · intro h
        obtain ⟨c, hc, rfl⟩ := h
        exact ⟨c, ⟨hc, hn⟩, rfl⟩

theorem nodup_names_hierarchy (t : TypeInfo) : ((hierarchy t).map name).Nodup :=
  nodup_foldl_enterType (by simp) t.lineage

/-- Induction along the ancestry for a callable in view: the type declares it, or has it from its
parent under a name that it does not declare. -/
@[elab_as_elim]
theorem hierarchy_induction {c : Callable} {P : TypeInfo → Prop}
    (declared : ∀ t, c ∈ declaredOn t → P t)
    (inherited : ∀ t p, t.parent? = some p → c.name ∉ t.own.methods.names → P p → P t)
    {t : TypeInfo} (h : c ∈ hierarchy t) : P t := by
  induction t using TypeInfo.ancestry_induction with
  | root t ht =>
    rw [hierarchy_of_parent?_eq_none ht] at h
    exact declared t h
  | child t p ht ih =>
    rw [hierarchy_of_parent?_eq_some ht, List.mem_append] at h
    rcases h with h | h
    · exact declared t h
    · obtain ⟨hp, hn⟩ := List.mem_filter.1 h
      exact inherited t p ht (by simpa using hn) (ih hp)

/-- A callable in view is the one that its owner itself has under that name. -/
theorem find?_of_mem_hierarchy {t : TypeInfo} {c : Callable} (h : c ∈ hierarchy t) :
    find? c.owner c.name = some c := by
  refine hierarchy_induction ?_ ?_ h
  · intro t hc
    rw [(of_mem_declaredOn hc).1]
    exact find?_eq_some_iff.2 ⟨hc, rfl⟩
  · intro t p _ _ ih
    exact ih

/-- Of the ancestry, the owner of a callable in view and the types it overrides are all that declare
its name, nearest first. -/
theorem filter_lineage_of_mem_hierarchy {t : TypeInfo} {c : Callable} (h : c ∈ hierarchy t) :
    (t.lineage.filter fun a => a.own.methods.declares c.name) = c.owner :: c.overrides := by
  refine hierarchy_induction ?_ ?_ h
  · intro t hc
    obtain ⟨howner, hm, hover⟩ := of_mem_declaredOn hc
    have hname : c.name ∈ t.own.methods.names := List.mem_map_of_mem hm
    rw [filter_declares_lineage hname, howner, hover]
  · intro t p ht hn ih
    have hself : ¬ t.own.methods.declares c.name = true := by
      rw [MethodTable.declares_iff]
      exact hn
    rw [TypeInfo.lineage_of_parent?_eq_some ht, List.filter_cons, if_neg hself]
    exact ih

theorem owner_mem_lineage {t : TypeInfo} {c : Callable} (h : c ∈ hierarchy t) :
    c.owner ∈ t.lineage := by
  have hmem : c.owner ∈ t.lineage.filter fun a => a.own.methods.declares c.name := by
    rw [filter_lineage_of_mem_hierarchy h]
    exact List.mem_cons_self
  exact (List.mem_filter.1 hmem).1

/-- A method in view is one of its owner's own. -/
theorem method_mem_of_mem_hierarchy {t : TypeInfo} {c : Callable} (h : c ∈ hierarchy t) :
    c.method ∈ c.owner.methods := by
  have hown := (find?_eq_some_iff.1 (find?_of_mem_hierarchy h)).1
  exact (of_mem_declaredOn hown).2.1

theorem nearest?_of_mem_hierarchy {t : TypeInfo} {c : Callable} (h : c ∈ hierarchy t) :
    t.nearest? c.name = some c.owner := by
  rw [TypeInfo.nearest?, ← List.head?_filter, filter_lineage_of_mem_hierarchy h, List.head?_cons]

/-- The view holds, under each name, what the nearest type that declares the name has under it. -/
theorem mem_hierarchy_iff {t : TypeInfo} {c : Callable} :
    c ∈ hierarchy t ↔ t.nearest? c.name = some c.owner ∧ find? c.owner c.name = some c := by
  refine ⟨fun h => ⟨nearest?_of_mem_hierarchy h, find?_of_mem_hierarchy h⟩, ?_⟩
  intro h
  obtain ⟨hnearest, hfind⟩ := h
  have hname : c.name ∈ (hierarchy t).map name :=
    mem_names_hierarchy_iff.2 ⟨c.owner, TypeInfo.mem_lineage_of_nearest? hnearest⟩
  obtain ⟨d, hd, hdn⟩ := List.mem_map.1 hname
  have hsame := nearest?_of_mem_hierarchy hd
  rw [hdn, hnearest] at hsame
  have howner : d.owner = c.owner := (Option.some.inj hsame).symm
  have hfound := find?_of_mem_hierarchy hd
  rw [howner, hdn, hfind] at hfound
  exact Option.some.inj hfound ▸ hd

/-! ## The order of the view -/

/-- A callable stands before another in the view of a type: its owner is nearer to the type, or is
the same and declares it first. -/
def Precedes (t : TypeInfo) (c d : Callable) : Prop :=
  t.lineage.idxOf c.owner < t.lineage.idxOf d.owner ∨
    c.owner = d.owner ∧
      c.owner.own.methods.names.idxOf c.name < d.owner.own.methods.names.idxOf d.name

theorem pairwise_idxOf_lt {α : Type} [BEq α] [LawfulBEq α] {l : List α} (h : l.Nodup) :
    l.Pairwise fun a b => l.idxOf a < l.idxOf b := by
  rw [List.pairwise_iff_getElem]
  intro i j hi hj hij
  rw [h.idxOf_getElem, h.idxOf_getElem]
  exact hij

theorem pairwise_precedes_declaredOn (t u : TypeInfo) : (declaredOn u).Pairwise (Precedes t) := by
  have hnames : ((declaredOn u).map name).Pairwise fun a b =>
      u.own.methods.names.idxOf a < u.own.methods.names.idxOf b := by
    rw [map_name_declaredOn]
    exact pairwise_idxOf_lt u.own.methods.nodup
  refine (List.pairwise_map.1 hnames).imp_of_mem ?_
  intro c d hc hd hlt
  have hcu := (of_mem_declaredOn hc).1
  have hdu := (of_mem_declaredOn hd).1
  exact .inr ⟨hcu.trans hdu.symm, by rwa [hcu, hdu]⟩

theorem pairwise_precedes_hierarchy (t : TypeInfo) : (hierarchy t).Pairwise (Precedes t) := by
  induction t using TypeInfo.ancestry_induction with
  | root t ht =>
    rw [hierarchy_of_parent?_eq_none ht]
    exact pairwise_precedes_declaredOn t t
  | child t p ht ih =>
    have hself : t ∉ p.lineage := by
      have hnodup := t.nodup_lineage
      rw [TypeInfo.lineage_of_parent?_eq_some ht] at hnodup
      exact (List.nodup_cons.1 hnodup).1
    have hidx (a : TypeInfo) (ha : a ∈ p.lineage) : t.lineage.idxOf a = p.lineage.idxOf a + 1 := by
      have hne : t ≠ a := fun hta => hself (hta ▸ ha)
      rw [TypeInfo.lineage_of_parent?_eq_some ht, List.idxOf_cons_ne _ hne]
    rw [hierarchy_of_parent?_eq_some ht, List.pairwise_append]
    refine ⟨pairwise_precedes_declaredOn t t, ?_, ?_⟩
    · refine (ih.filter _).imp_of_mem ?_
      intro c d hc hd hcd
      have hcp := owner_mem_lineage (List.mem_filter.1 hc).1
      have hdp := owner_mem_lineage (List.mem_filter.1 hd).1
      rcases hcd with hlt | hsame
      · exact .inl (by rw [hidx _ hcp, hidx _ hdp]; omega)
      · exact .inr hsame
    · intro c hc d hd
      have hdp := owner_mem_lineage (List.mem_filter.1 hd).1
      left
      rw [(of_mem_declaredOn hc).1, hidx _ hdp, TypeInfo.lineage, List.idxOf_cons_self]
      omega

/-- The view is flat and exact: one callable for each name that the ancestry declares, taken from
the nearest type that declares it, with all further ones as overridden, in the order of the
ancestry and then of each type's own table. -/
theorem hierarchy_exact (t : TypeInfo) :
    ((hierarchy t).map name).Nodup ∧
      (∀ n, n ∈ (hierarchy t).map name ↔ ∃ a ∈ t.lineage, n ∈ a.own.methods.names) ∧
      (∀ c ∈ hierarchy t,
        t.nearest? c.name = some c.owner ∧
          c.owner.own.methods.find? c.name = some c.method ∧
          (t.lineage.filter fun a => a.own.methods.declares c.name) = c.owner :: c.overrides ∧
          (c.owner :: c.overrides).Nodup) ∧
      (hierarchy t).Pairwise (Precedes t) := by
  refine ⟨nodup_names_hierarchy t, fun n => mem_names_hierarchy_iff, ?_,
    pairwise_precedes_hierarchy t⟩
  intro c hc
  have hall := filter_lineage_of_mem_hierarchy hc
  refine ⟨nearest?_of_mem_hierarchy hc, ?_, hall, hall ▸ t.nodup_lineage.filter _⟩
  obtain ⟨m, hm, hmc⟩ := Option.map_eq_some_iff.1 (find?_of_mem_hierarchy hc)
  rw [hm, ← hmc]

end Callable

end MetricWiring
