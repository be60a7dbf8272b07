import Mathlib.Data.List.Basic

/-!
# Checks that stop at the first error

A check of a list in turn accepts it exactly if all entries are accepted, and otherwise gives the
error of the first one that is not (`all_or_first`, `mapM_eq_error`). To know such a check it is
enough to know when it accepts, what it answers to each defect, and that nothing else can happen
(`Decides.of_total`).
-/
namespace MetricWiring

variable {α β ε : Type}

/-- An answer is a success exactly under the given condition, and otherwise reports the defect. -/
structure Decides (r : Except ε α) (sound : Prop) (defect : ε → Prop) : Prop where
  ok_iff : (∃ a, r = .ok a) ↔ sound
  error_iff : ∀ e, r = .error e ↔ defect e

theorem Decides.of_total {r : Except ε α} {sound : Prop} {defect : ε → Prop}
    (accepts : sound → ∃ a, r = .ok a) (reports : ∀ e, defect e → r = .error e)
    (total : sound ∨ ∃ e, defect e) : Decides r sound defect where
  ok_iff := by
    refine ⟨?_, accepts⟩
    rintro ⟨a, ha⟩
    rcases total with hsound | ⟨e, he⟩
    · exact hsound
    · have herror := reports e he
      rw [ha] at herror
      cases herror
  error_iff := by
    intro e
    refine ⟨?_, reports e⟩
    intro herror
    rcases total with hsound | ⟨e', he'⟩
    · obtain ⟨a, ha⟩ := accepts hsound
      rw [herror] at ha
      cases ha
    · have hsame := reports e' he'
      rw [herror] at hsame
      cases hsame
      exact he'

/-- The first entry of a list that is not in order has the given defect. -/
def First (sound : α → Prop) (defect : α → ε → Prop) (l : List α) (e : ε) : Prop :=
  ∃ before a after, l = before ++ a :: after ∧ (∀ b ∈ before, sound b) ∧ defect a e

theorem all_or_first {sound : α → Prop} {defect : α → ε → Prop}
    (total : ∀ a, sound a ∨ ∃ e, defect a e) (l : List α) :
    (∀ a ∈ l, sound a) ∨ ∃ e, First sound defect l e := by
  induction l with
  | nil => simp
  | cons a l ih =>
    rcases total a with ha | ⟨e, he⟩
    · rcases ih with hl | ⟨e, before, b, after, rfl, hbefore, hb⟩
      · exact .inl (List.forall_mem_cons.2 ⟨ha, hl⟩)
      · exact .inr ⟨e, a :: before, b, after, rfl, List.forall_mem_cons.2 ⟨ha, hbefore⟩, hb⟩
    · exact .inr ⟨e, [], a, l, rfl, by simp, he⟩

theorem mapM_eq_ok {f : α → Except ε β} {g : α → β} {l : List α}
    (h : ∀ a ∈ l, f a = .ok (g a)) : l.mapM f = .ok (l.map g) := by
  induction l with
  | nil => rfl
  | cons a l ih =>
    rw [List.forall_mem_cons] at h
    rw [List.mapM_cons, h.1, ih h.2]
    rfl

theorem mapM_eq_error {f : α → Except ε β} {g : α → β} {before after : List α} {a : α} {e : ε}
    (hbefore : ∀ b ∈ before, f b = .ok (g b)) (ha : f a = .error e) :
    (before ++ a :: after).mapM f = .error e := by
  rw [List.mapM_append, mapM_eq_ok hbefore, List.mapM_cons, ha]
  rfl

end MetricWiring
