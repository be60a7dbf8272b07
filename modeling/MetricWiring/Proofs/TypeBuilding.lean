import Mathlib.Data.List.Nodup
import MetricWiring.Proofs.Hierarchy
import MetricWiring.Proofs.Occurrences

/-!
# What a type is built from

A table into which entries are put one after the other keeps the last entry under each key; methods
stand in the order in which their names came up first. A type that is given a parent, declarations
and methods has just these (`build_eq`).
-/
namespace MetricWiring

namespace DeclarationTable

/-- The last declaration given for a kind. -/
def latest (ps : List (Kind × Declaration)) (k : Kind) : Option Declaration :=
  (ps.filter fun p => p.1 = k).getLast?.map Prod.snd

theorem latest_cons (p : Kind × Declaration) (ps : List (Kind × Declaration)) (k : Kind) :
    latest (p :: ps) k = if p.1 = k then (latest ps k).or (some p.2) else latest ps k := by
  by_cases hp : p.1 = k
  · rw [if_pos hp, latest, List.filter_cons_of_pos (by simpa using hp), List.getLast?_cons, latest]
    cases (ps.filter fun p => p.1 = k).getLast? <;> rfl
  · rw [if_neg hp, latest, List.filter_cons_of_neg (by simpa using hp), latest]

/-- The last of the pairs with a kind fills its slot. -/
theorem get_insertAll (t : DeclarationTable) (ps : List (Kind × Declaration)) (k : Kind) :
    (t.insertAll ps).get k = (latest ps k).or (t.get k) := by
  induction ps generalizing t with
  | nil => rfl
  | cons p ps ih =>
    rw [insertAll_cons, ih, get_insert, latest_cons]
    by_cases hp : p.1 = k
    · rw [if_pos hp, if_pos hp.symm]
      cases latest ps k <;> rfl
    · rw [if_neg hp, if_neg fun h => hp h.symm]

theorem get_ofList (ps : List (Kind × Declaration)) (k : Kind) :
    (ofList ps).get k = latest ps k := by
  rw [ofList, get_insertAll, get_empty, Option.or_none]

theorem mem_of_get_ofList {ps : List (Kind × Declaration)} {k : Kind} {d : Declaration}
    (h : (ofList ps).get k = some d) : (k, d) ∈ ps := by
  rw [get_ofList, latest, Option.map_eq_some_iff] at h
  obtain ⟨⟨l, e⟩, hlast, rfl⟩ := h
  obtain ⟨hmem, hl⟩ := List.mem_filter.1 (List.mem_of_getLast? hlast)
  have hlk : l = k := by simpa using hl
  exact hlk ▸ hmem

theorem get_ofList_eq_some_iff {ps : List (Kind × Declaration)} (h : (ps.map Prod.fst).Nodup)
    {k : Kind} {d : Declaration} : (ofList ps).get k = some d ↔ (k, d) ∈ ps := by
  refine ⟨mem_of_get_ofList, ?_⟩
  intro hmem
  have hin : (k, d) ∈ ps.filter fun p => p.1 = k := by simpa using hmem
  obtain ⟨q, hq⟩ : ∃ q, (ps.filter fun p => p.1 = k).getLast? = some q :=
    ⟨_, List.getLast?_eq_some_getLast (List.ne_nil_of_mem hin)⟩
  obtain ⟨hqmem, hqk⟩ := List.mem_filter.1 (List.mem_of_getLast? hq)
  have hsame : q = (k, d) := List.inj_on_of_nodup_map h hqmem hmem (by simpa using hqk)
  rw [get_ofList, latest, hq, hsame]
  rfl

theorem nodup_toList (t : DeclarationTable) : t.toList.Nodup := by
  apply Kind.nodup_all.filterMap
  intro k l p hk hl
  rw [Option.mem_def, Option.map_eq_some_iff] at hk hl
  obtain ⟨_, _, rfl⟩ := hk
  obtain ⟨_, _, hp⟩ := hl
  exact (congrArg Prod.fst hp).symm

theorem toList_ofList_perm {ps : List (Kind × Declaration)} (h : (ps.map Prod.fst).Nodup) :
    (ofList ps).toList.Perm ps := by
  refine (List.perm_ext_iff_of_nodup (nodup_toList _) (List.Nodup.of_map _ h)).2 ?_
  rintro ⟨k, d⟩
  rw [mem_toList, get_ofList_eq_some_iff h]

end DeclarationTable

namespace MethodTable

theorem find?_place (m : Method) (es : List Method) (n : String) :
    (place m es).find? (fun e => e.name == n) =
      if m.name = n then some m else es.find? fun e => e.name == n := by
  induction es with
  | nil => by_cases h : m.name = n <;> simp [place, h]
  | cons e es ih =>
    by_cases he : e.name = m.name
    · by_cases h : m.name = n <;> simp [place, he, h]
    · rw [place, if_neg he, List.find?_cons, List.find?_cons, ih]
      cases hen : e.name == n with
      | true =>
        have hm : ¬ m.name = n := fun hm => he ((eq_of_beq hen).trans hm.symm)
        simp only [if_neg hm]
      | false => rfl

theorem find?_put (t : MethodTable) (m : Method) (n : String) :
    (t.put m).find? n = if m.name = n then some m else t.find? n :=
  find?_place m t.entries n

/-- The table into which methods are put one after the other. -/
def ofList (ms : List Method) : MethodTable := ms.foldl put empty

theorem ofList_concat (ms : List Method) (m : Method) : ofList (ms ++ [m]) = (ofList ms).put m := by
  simp [ofList]

theorem names_ofList (ms : List Method) : (ofList ms).names = (ms.map Method.name).eraseDups := by
  induction ms using List.reverseRecOn with
  | nil => rfl
  | append_singleton ms m ih =>
    rw [ofList_concat, names_put, ih, List.map_append, List.map_singleton, eraseDups_concat]
    simp only [List.mem_eraseDups]

theorem find?_ofList (ms : List Method) (n : String) :
    (ofList ms).find? n = (ms.filter fun m => m.name == n).getLast? := by
  induction ms using List.reverseRecOn with
  | nil => rfl
  | append_singleton ms m ih =>
    rw [ofList_concat, find?_put, ih, List.filter_append]
    by_cases h : m.name = n <;> simp [h]

end MethodTable

namespace TypeInfo

theorem foldl_apply_declare (t : TypeInfo) (ds : List (Kind × Declaration)) :
    (ds.map fun d => BuildStep.declare d.1 d.2).foldl apply t =
      { t with own := { t.own with declarations := t.own.declarations.insertAll ds } } := by
  induction ds generalizing t with
  | nil => rfl
  | cons d ds ih => exact ih (t.declare d.1 d.2)

theorem foldl_apply_method (t : TypeInfo) (ms : List Method) :
    (ms.map BuildStep.method).foldl apply t =
      { t with own := { t.own with methods := ms.foldl .put t.own.methods } } := by
  induction ms generalizing t with
  | nil => rfl
  | cons m ms ih => exact ih (t.withMethod m)

theorem build_eq (fullName : String) (parent : Option TypeInfo) (ds : List (Kind × Declaration))
    (ms : List Method) :
    build fullName (parent.toList.map .parent ++ (ds.map fun d => .declare d.1 d.2) ++
        ms.map .method) =
      { own := { fullName, declarations := .ofList ds, methods := .ofList ms }
        ancestors := (parent.map fun p => p.own :: p.ancestors).getD [] } := by
  rw [build, List.foldl_append, List.foldl_append, foldl_apply_declare, foldl_apply_method]
  cases parent <;> rfl

end TypeInfo

end MetricWiring
