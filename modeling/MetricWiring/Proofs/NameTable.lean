import Mathlib.Data.List.Dedup
import Mathlib.Data.List.Nodup
import MetricWiring.NameTable

/-!
# Sizes, names and merging of tables

A table lists each of its names once and in order. A new name adds one to its size, and a merged
table looks up in the second table first, in whatever order its entries are put in.
-/
namespace MetricWiring.NameTable

variable {α : Type}

theorem lookup_eq_none_iff {name : String} {es : List (String × α)} :
    lookup name es = none ↔ name ∉ es.map Prod.fst := by
  induction es with
  | nil => simp [lookup]
  | cons e es ih =>
    by_cases h : e.1 = name
    · simp [lookup, h]
    · have h' : ¬ name = e.1 := fun hn => h hn.symm
      simp only [lookup, if_neg h, ih, List.map_cons, List.mem_cons, h', false_or]

theorem mem_names {t : NameTable α} {name : String} :
    name ∈ t.names ↔ ∃ value, t.get? name = some value := by
  have h : t.get? name = none ↔ name ∉ t.names := lookup_eq_none_iff
  rw [← Option.isSome_iff_exists, Option.isSome_iff_ne_none, ne_eq, h, Decidable.not_not]

theorem names_increasing (t : NameTable α) : t.names.Pairwise (· < ·) :=
  List.pairwise_map.2 t.increasing

theorem nodup_names (t : NameTable α) : t.names.Nodup := by
  refine t.names_increasing.imp ?_
  intro a b hab heq
  rw [heq] at hab
  exact String.lt_irrefl b hab

@[simp] theorem length_names (t : NameTable α) : t.names.length = t.size := by
  simp [names, size]

/-- A table whose names are those of a list has one for each different entry. -/
theorem size_eq_length_dedup {t : NameTable α} {l : List String}
    (h : ∀ name, name ∈ t.names ↔ name ∈ l) : t.size = l.dedup.length := by
  have hperm : t.names.Perm l.dedup := by
    rw [List.perm_ext_iff_of_nodup t.nodup_names (List.nodup_dedup l)]
    intro name
    rw [h, List.mem_dedup]
  rw [← hperm.length_eq, length_names]

@[simp] theorem size_empty : (empty : NameTable α).size = 0 := rfl

theorem length_place {name : String} (value : α) {es : List (String × α)}
    (h : lookup name es = none) : (place name value es).length = es.length + 1 := by
  induction es with
  | nil => rfl
  | cons e es ih =>
    have hne : e.1 ≠ name := by
      intro heq
      simp [lookup, heq] at h
    have htail : lookup name es = none := by simpa [lookup, hne] using h
    unfold place
    split
    · rfl
    · simp [ih htail]

theorem size_insert {t : NameTable α} {name : String} (value : α) (h : t.get? name = none) :
    (t.insert name value).size = t.size + 1 :=
  length_place value h

/-- Entries put in one after the other: with no name twice among them, each keeps its value. -/
theorem get?_foldl_insert {es : List (String × α)} (h : es.Pairwise fun a b => a.1 < b.1)
    (t : NameTable α) (name : String) :
    (es.foldl (fun acc e => acc.insert e.1 e.2) t).get? name =
      (lookup name es).or (t.get? name) := by
  induction es generalizing t with
  | nil => simp [lookup]
  | cons e es ih =>
    rw [List.pairwise_cons] at h
    rw [List.foldl_cons, ih h.2, get?_insert]
    by_cases heq : e.1 = name
    · have hlater : lookup name es = none := by
        rw [lookup_eq_none_iff, List.mem_map]
        intro hmem
        obtain ⟨f, hf, hfn⟩ := hmem
        have hlt := h.1 f hf
        rw [heq, hfn] at hlt
        exact String.lt_irrefl name hlt
      simp [lookup, heq, hlater]
    · have hne : ¬ name = e.1 := fun hn => heq hn.symm
      simp [lookup, heq, hne]

theorem get?_merge (t u : NameTable α) (name : String) :
    (t.merge u).get? name = (u.get? name).or (t.get? name) :=
  get?_foldl_insert u.increasing t name

@[simp] theorem merge_empty (t : NameTable α) : t.merge empty = t := rfl

theorem merge_insert (t u : NameTable α) (name : String) (value : α) :
    t.merge (u.insert name value) = (t.merge u).insert name value := by
  apply ext_get?
  intro other
  by_cases h : other = name
  · simp [get?_merge, h]
  · simp [get?_merge, get?_insert, h]

theorem insert_comm (t : NameTable α) {m n : String} (h : m ≠ n) (x y : α) :
    (t.insert m x).insert n y = (t.insert n y).insert m x := by
  apply ext_get?
  intro name
  simp only [get?_insert]
  by_cases hn : name = n
  · simp [hn, h.symm]
  · simp [hn]

/-- Entries with different names may be put in in any order. -/
theorem foldl_insert_perm {es fs : List (String × α)} (h : es.Perm fs)
    (hn : (fs.map Prod.fst).Nodup) (t : NameTable α) :
    es.foldl (fun acc e => acc.insert e.1 e.2) t =
      fs.foldl (fun acc e => acc.insert e.1 e.2) t := by
  symm
  apply h.symm.foldl_eq'
  intro e he f hf u
  by_cases hef : e.1 = f.1
  · rw [List.inj_on_of_nodup_map hn he hf hef]
  · exact u.insert_comm hef e.2 f.2

end MetricWiring.NameTable
