import Mathlib.Data.List.Induction
import Mathlib.Data.List.Nodup

/-!
# First occurrences in a list

Where the first of several entries decides, later repeats of an entry change nothing, and what is
left without them is determined by the decisions (`eq_of_findSome?_eq`). Where keys are not
repeated, an entry is told by its key (`find?_key_eq_some_iff`).
-/
namespace MetricWiring

/-- If no key is repeated, the first entry with a key is the only one. -/
theorem find?_key_eq_some_iff {α κ : Type} [DecidableEq κ] {key : α → κ} {l : List α}
    (hl : (l.map key).Nodup) {k : κ} {a : α} :
    l.find? (fun x => key x == k) = some a ↔ a ∈ l ∧ key a = k := by
  constructor
  · intro h
    exact ⟨List.mem_of_find?_eq_some h, by simpa using List.find?_some h⟩
  · intro h
    obtain ⟨ha, rfl⟩ := h
    cases hfirst : l.find? fun x => key x == key a with
    | none =>
      have hnone := List.find?_eq_none.1 hfirst a ha
      simp at hnone
    | some b =>
      have hb := List.mem_of_find?_eq_some hfirst
      have hkey : key b = key a := by simpa using List.find?_some hfirst
      rw [List.inj_on_of_nodup_map hl hb ha hkey]

/-- What only entries of a class have is found among these. -/
theorem filterMap_filter_of_none {α β : Type} {inClass : α → Bool} {f : α → Option β}
    (hf : ∀ a, inClass a = false → f a = none) (l : List α) :
    (l.filter inClass).filterMap f = l.filterMap f := by
  rw [List.filterMap_filter]
  refine List.filterMap_congr fun a _ => ?_
  cases ha : inClass a with
  | false => simp [hf a ha]
  | true => simp

variable {α β : Type} [DecidableEq α]

theorem eraseDups_concat (l : List α) (a : α) :
    (l ++ [a]).eraseDups = if a ∈ l then l.eraseDups else l.eraseDups ++ [a] := by
  rw [List.eraseDups_append, List.removeAll]
  by_cases h : a ∈ l <;> simp [h, List.eraseDups_cons]

theorem nodup_eraseDups (l : List α) : l.eraseDups.Nodup := by
  induction l using List.reverseRecOn with
  | nil => simp
  | append_singleton l a ih =>
    rw [eraseDups_concat]
    by_cases h : a ∈ l
    · rwa [if_pos h]
    · rw [if_neg h]
      rw [← List.concat_eq_append]
      exact ih.concat fun ha => h (List.mem_eraseDups.1 ha)

theorem findSome?_eraseDups (l : List α) (f : α → Option β) :
    l.eraseDups.findSome? f = l.findSome? f := by
  induction l using List.reverseRecOn with
  | nil => simp
  | append_singleton l a ih =>
    rw [eraseDups_concat, List.findSome?_append]
    by_cases h : a ∈ l
    · rw [if_pos h, ih]
      cases hl : l.findSome? f with
      | some b => rfl
      | none => simp [List.findSome?_eq_none_iff.1 hl a h]
    · rw [if_neg h, List.findSome?_append, ih]

theorem findSome?_update_none {l : List α} {a : α} (h : a ∉ l) (f : α → Option β) :
    l.findSome? (fun x => if x = a then none else f x) = l.findSome? f := by
  induction l with
  | nil => rfl
  | cons b l ih =>
    rw [List.mem_cons, not_or] at h
    have hb : ¬ b = a := fun hba => h.1 hba.symm
    rw [List.findSome?_cons, List.findSome?_cons, if_neg hb, ih h.2]

/-- Lists without repeats that always decide alike are equal, if an entry can be told from its
decision. -/
theorem eq_of_findSome?_eq {e : α → β} (he : ∀ a b, e a = e b → a = b) {l l' : List α}
    (hl : l.Nodup) (hl' : l'.Nodup)
    (h : ∀ f : α → Option β, l.findSome? f = l'.findSome? f) : l = l' := by
  induction l generalizing l' with
  | nil =>
    cases l' with
    | nil => rfl
    | cons b l' => simpa using h fun a => some (e a)
  | cons a l ih =>
    cases l' with
    | nil => simpa using h fun a => some (e a)
    | cons b l' =>
      have hhead : a = b := he a b (by simpa using h fun a => some (e a))
      subst hhead
      rw [List.nodup_cons] at hl hl'
      have htail : l = l' := by
        apply ih hl.2 hl'.2
        intro f
        -- Where the common head decides nothing, the tails do.
        have hskip := h fun x => if x = a then none else f x
        simp only [List.findSome?_cons, if_true] at hskip
        rwa [findSome?_update_none hl.1, findSome?_update_none hl'.1] at hskip
      rw [htail]

end MetricWiring
