import MetricWiring.Proofs.Policies

/-!
# The gauge rule of a wrapped namer

A namer names a metric as the policy inside all its wrappers does, gauges included
(`nameFor_policy`). Asked for its gauge rule alone, a wrapper answers by itself: it puts the gauge
under the declaring type, whatever it wraps. So the two ways to name a gauge differ exactly where a
wrapper hides the instance's policy and the two policies differ (`gauge_hook_agrees_iff`).
-/
namespace MetricWiring.Namer

/-- The policy inside all wrappers. -/
def policy : Namer → Namer
  | .declaringType => .declaringType
  | .instanceType => .instanceType
  | .wrapped n => n.policy

theorem policy_eq (n : Namer) : n.policy = .declaringType ∨ n.policy = .instanceType := by
  induction n with
  | declaringType => exact .inl rfl
  | instanceType => exact .inr rfl
  | wrapped n ih => exact ih

theorem policy_ne_wrapped (n m : Namer) : n.policy ≠ .wrapped m := by
  intro h
  rcases n.policy_eq with hp | hp <;> rw [hp] at h <;> cases h

theorem nameFor_policy (n : Namer) (k : Kind) (inst : TypeInfo) (c : Callable) (d : Declaration) :
    n.policy.nameFor k inst c d = n.nameFor k inst c d := by
  induction n with
  | declaringType => rfl
  | instanceType => rfl
  | wrapped n ih => exact ih

/-- A policy that is not wrapped names gauges by its gauge rule. -/
theorem nameForGauge_policy (n : Namer) (inst : TypeInfo) (c : Callable) (d : Declaration) :
    n.policy.nameForGauge inst c d = n.policy.nameFor .gauge inst c d := by
  rcases n.policy_eq with hp | hp
  · rw [hp, nameFor, dispatch_gauge]
  · rw [hp, nameFor, dispatch_gauge]

theorem nameForGauge_wrapped (n : Namer) (inst : TypeInfo) (c : Callable) (d : Declaration) :
    (wrapped n).nameForGauge inst c d = declaringType.nameFor .gauge inst c d := by
  rw [nameFor, dispatch_gauge]
  rfl

theorem nameForGauge_wrapped_eq_iff {n : Namer} {inst : TypeInfo} {c : Callable}
    {d : Declaration} :
    (wrapped n).nameForGauge inst c d = (wrapped n).nameFor .gauge inst c d ↔
      n.policy = .declaringType ∨ d.absolute = true ∨ c.owner.fullName = inst.fullName := by
  have hname : (wrapped n).nameFor .gauge inst c d = n.policy.nameFor .gauge inst c d :=
    (nameFor_policy (wrapped n) .gauge inst c d).symm
  rw [nameForGauge_wrapped, hname]
  rcases n.policy_eq with hp | hp
  · simp [hp]
  · have hdiffer := @nameFor_ne_iff .gauge inst c d
    rw [hp, ← not_iff_not, ← ne_eq, hdiffer]
    simp

/-- Any number of wrappers leaves the names of metrics as the policy inside gives them, and that
policy names gauges by its gauge rule. The gauge rule of the namer itself gives another name exactly
if the namer is wrapped, the policy inside is the instance's, the declaration is not absolute and
the method is inherited from a type of another name. -/
theorem gauge_hook_agrees_iff (n : Namer) (inst : TypeInfo) (c : Callable) (d : Declaration) :
    (∀ k, n.nameFor k inst c d = n.policy.nameFor k inst c d) ∧
      n.policy.nameForGauge inst c d = n.nameFor .gauge inst c d ∧
      (n.nameForGauge inst c d = n.nameFor .gauge inst c d ↔
        n.policy = n ∨ n.policy = .declaringType ∨ d.absolute = true ∨
          c.owner.fullName = inst.fullName) := by
  have hnames (k : Kind) := (nameFor_policy n k inst c d).symm
  refine ⟨hnames, (nameForGauge_policy n inst c d).trans (nameFor_policy n .gauge inst c d), ?_⟩
  cases n with
  | declaringType => simpa [policy] using nameForGauge_policy .declaringType inst c d
  | instanceType => simpa [policy] using nameForGauge_policy .instanceType inst c d
  | wrapped n =>
    have hwrapped : (wrapped n).policy ≠ wrapped n := policy_ne_wrapped _ n
    rw [nameForGauge_wrapped_eq_iff]
    simp only [hwrapped, false_or]
    rfl

/-- A gauge inherited from `pkg.P` by `pkg.B1`: in a wrapper, the policy that names it after the
instance does so when it is asked for the metric, but not when it is asked for the gauge rule. -/
theorem wrapped_gauge_hook_ne :
    let base := TypeInfo.build "pkg.P" [.method (.ofPairs "g" [(.gauge, .unnamed)])]
    let heir := TypeInfo.build "pkg.B1" [.parent base]
    ∃ c ∈ Callable.hierarchy heir,
      (wrapped .instanceType).nameForGauge heir c .unnamed = "pkg.P.g.gauge" ∧
        (wrapped .instanceType).nameFor .gauge heir c .unnamed = "pkg.B1.g.gauge" ∧
        instanceType.nameForGauge heir c .unnamed = "pkg.B1.g.gauge" := by decide

end MetricWiring.Namer
