/-!
# Readings that make progress

A reading takes elements from the front of a list, and gives what it has found together with those
that are left. How many are left is bounded piece by piece (`Leaves`), along the way the reading is
put together. One that takes something whenever it finds something can be repeated until the list
is empty (`readToEnd`).
-/
namespace MetricWiring.Code

variable {τ α β : Type}

/-- Less than `n` elements are left, if the reading finds anything. -/
def Leaves (n : Nat) (x : Option (α × List τ)) : Prop :=
  ∀ v rest, x = some (v, rest) → rest.length < n

/-- The same of readings without a value. -/
def LeavesBare (n : Nat) (x : Option (List τ)) : Prop :=
  ∀ rest, x = some rest → rest.length < n

namespace Leaves

variable {m n : Nat}

theorem failed : Leaves n (none : Option (α × List τ)) := by
  intro v rest h
  cases h

theorem done (v : α) {ts : List τ} (h : ts.length < n) : Leaves n (some (v, ts)) := by
  intro w rest hw
  cases hw
  exact h

theorem dropped (v : α) (k : Nat) (ts : List τ) : Leaves (ts.length + 1) (some (v, ts.drop k)) :=
  done v (Nat.lt_succ_of_le (List.drop_suffix k ts).length_le)

theorem mono {x : Option (α × List τ)} (h : Leaves m x) (hmn : m ≤ n) : Leaves n x :=
  fun v rest hv => Nat.lt_of_lt_of_le (h v rest hv) hmn

theorem within {x : Option (α × List τ)} {ts ts' : List τ} (h : Leaves (ts'.length + n) x)
    (hts : ts' <:+ ts) : Leaves (ts.length + n) x :=
  h.mono (Nat.add_le_add_right hts.length_le n)

theorem ite {x y : Option (α × List τ)} {b : Bool} (hthen : b = true → Leaves n x)
    (helse : b = false → Leaves n y) : Leaves n (if b then x else y) := by
  cases b with
  | true => exact hthen rfl
  | false => exact helse rfl

theorem bind {x : Option (β × List τ)} {f : β × List τ → Option (α × List τ)} (hx : Leaves m x)
    (hf : ∀ v rest, rest.length < m → Leaves n (f (v, rest))) : Leaves n (x >>= f) := by
  intro w rest hw
  obtain ⟨⟨v, middle⟩, hv, hw⟩ := Option.bind_eq_some_iff.1 hw
  exact hf v middle (hx v middle hv) w rest hw

/-- Something else is found first, without anything being taken. -/
theorem bindInside {x : Option β} {f : β → Option (α × List τ)} (hf : ∀ v, Leaves n (f v)) :
    Leaves n (x >>= f) := by
  cases x with
  | none => exact failed
  | some v => exact hf v

theorem bindBare {x : Option (List τ)} {f : List τ → Option (α × List τ)} (hx : LeavesBare m x)
    (hf : ∀ rest, rest.length < m → Leaves n (f rest)) : Leaves n (x >>= f) := by
  intro w rest hw
  obtain ⟨middle, hmiddle, hw⟩ := Option.bind_eq_some_iff.1 hw
  exact hf middle (hx middle hmiddle) w rest hw

/-- An optional reading without a value, and what is read behind it in either case. -/
theorem optional {x : Option (List τ)} {ts : List τ} {f : List τ → Option (α × List τ)} {b : Bool}
    (hx : b = true → LeavesBare m x) (hts : ts.length < m)
    (hf : ∀ rest, rest.length < m → Leaves n (f rest)) :
    Leaves n (if b then x >>= f else some ts >>= f) :=
  .ite (fun h => .bindBare (hx h) hf) fun _ => hf ts hts

theorem map {x : Option (β × List τ)} (hx : Leaves n x) (f : β → α) :
    Leaves n (x.map fun v => (f v.1, v.2)) := by
  intro w rest hw
  obtain ⟨⟨v, left⟩, hv, hw⟩ := Option.map_eq_some_iff.1 hw
  cases hw
  exact hx v left hv

theorem bare {x : Option (α × List τ)} (hx : Leaves n x) : LeavesBare n (x.map Prod.snd) := by
  intro rest hrest
  obtain ⟨⟨v, left⟩, hv, hleft⟩ := Option.map_eq_some_iff.1 hrest
  cases hleft
  exact hx v left hv

end Leaves

/-- Something is taken whenever something is found. -/
def Progresses (read : List τ → Option (α × List τ)) : Prop := ∀ ts, Leaves ts.length (read ts)

/-- What is read one after the other until nothing is left. -/
def readToEnd (read : List τ → Option (α × List τ)) (hread : Progresses read) (ts : List τ) :
    Option (List α) :=
  if ts.isEmpty then some []
  else
    match _h : read ts with
    | some (a, rest) => (readToEnd read hread rest).map (a :: ·)
    | none => none
termination_by ts.length
decreasing_by exact hread ts a rest _h

end MetricWiring.Code
