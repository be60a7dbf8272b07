import MetricWiring.Namer

/-!
# When a metric has no name

A derived suffix is never empty and a path only grows, so the one source of an empty metric name is
a declaration that is taken as it stands and says nothing (`compose_eq_empty_iff`). Every namer
composes its names under one namespace or another, so this holds of all of them
(`Namer.nameFor_eq_empty_iff`).
-/
namespace MetricWiring

theorem Kind.suffix_ne_empty (k : Kind) (monotonic : Bool) : k.suffix monotonic ≠ "" := by
  cases k <;> cases monotonic <;> decide

namespace MetricName

theorem extend_eq_empty_iff {path segment : String} :
    extend path segment = "" ↔ path = "" ∧ segment = "" := by
  by_cases hs : segment = ""
  · simp [hs]
  · by_cases hp : path = ""
    · simp [hp]
    · simp [extend, hs, hp, String.append_eq_empty_iff]

theorem compose_eq_empty_iff {space method : String} {k : Kind} {d : Declaration} :
    compose space method k d = "" ↔ d.absolute = true ∧ d.name = "" := by
  by_cases ha : d.absolute = true
  · simp [compose, ha]
  · by_cases hn : d.name = ""
    · have hsuffix : d.suffix k ≠ "" := k.suffix_ne_empty d.monotonic
      simp [compose, ha, hn, hsuffix, extend_eq_empty_iff]
    · simp [compose, ha, hn, extend_eq_empty_iff]

end MetricName

namespace Namer

/-- The namespace under which a namer puts a metric. -/
def space (n : Namer) (k : Kind) (inst : TypeInfo) (c : Callable) : String :=
  match n with
  | .declaringType => c.owner.fullName
  | .instanceType => if k = .gauge then inst.fullName else c.owner.fullName
  | .wrapped n => n.space k inst c

theorem nameFor_eq_compose (n : Namer) (k : Kind) (inst : TypeInfo) (c : Callable)
    (d : Declaration) :
    n.nameFor k inst c d = MetricName.compose (n.space k inst c) c.name k d := by
  induction n with
  | declaringType =>
    by_cases h : k = .gauge <;> simp [nameFor, dispatch, nameForGauge, space, h]
  | instanceType =>
    by_cases h : k = .gauge <;> simp [nameFor, dispatch, nameForGauge, space, h]
  | wrapped n ih => simpa [nameFor, space] using ih

theorem nameFor_eq_empty_iff {n : Namer} {k : Kind} {inst : TypeInfo} {c : Callable}
    {d : Declaration} :
    n.nameFor k inst c d = "" ↔ d.absolute = true ∧ d.name = "" := by
  rw [nameFor_eq_compose, MetricName.compose_eq_empty_iff]

end Namer

end MetricWiring
