import Mathlib.Data.List.Forall2
import MetricWiring.Proofs.MetricName
import MetricWiring.Proofs.NameDecoding
import MetricWiring.Proofs.Plan

/-!
# One type under both naming policies

A namer takes no part in the search for declarations, so instrumentations with one resolver have the
same findings for a type, and their plans hold the same bindings up to names. The names differ where
the two policies choose different namespaces and the declaration puts its name under a namespace at
all: for gauges that are inherited and not absolute (`policies_differ_on_inherited_gauges`).
-/
namespace MetricWiring

namespace Namer

theorem nameFor_ne_iff {k : Kind} {inst : TypeInfo} {c : Callable} {d : Declaration} :
    declaringType.nameFor k inst c d ≠ instanceType.nameFor k inst c d ↔
      k = .gauge ∧ d.absolute = false ∧ c.owner.fullName ≠ inst.fullName := by
  rw [nameFor_eq_compose, nameFor_eq_compose]
  have hdeclaring : declaringType.space k inst c = c.owner.fullName := rfl
  by_cases hk : k = .gauge
  · have hinst : instanceType.space k inst c = inst.fullName := by simp [space, hk]
    rw [hdeclaring, hinst]
    cases hd : d.absolute with
    | true =>
      rw [MetricName.compose_of_absolute hd, MetricName.compose_of_absolute hd]
      simp
    | false =>
      rw [ne_eq, MetricName.compose_left_inj hd]
      simp [hk]
  · have hinst : instanceType.space k inst c = c.owner.fullName := by simp [space, hk]
    rw [hdeclaring, hinst]
    simp [hk]

end Namer

namespace Instrumentation

theorem of_mem_findings {w : Instrumentation} {t : TypeInfo} {f : Finding} (h : f ∈ w.findings t) :
    f.callable ∈ callables t f.kind ∧
      w.resolver.find? f.kind f.callable = some f.resolution.declaration := by
  obtain ⟨hc, hresolve⟩ := mem_findings_iff.1 h
  have hfind : w.resolver.find? f.kind f.callable = some f.resolution.declaration := by
    rw [Resolver.find?, hresolve, Option.map_some]
  exact ⟨hc, hfind⟩

/-- A binding `a` under the declaring type's policy and a binding `b` under the instance's, for
instances of `t`. Both are for one kind and one method of one owner, and they differ in the name
exactly if the kind is gauge, the declaration found for that method is not absolute and the owner
has another name than the type. -/
structure Counterparts (r : Resolver) (t : TypeInfo) (a b : Binding) : Prop where
  kind : a.kind = b.kind
  method : a.method = b.method
  owner : a.owner = b.owner
  name : ∃ c ∈ callables t a.kind, c.name = a.method ∧ c.owner.fullName = a.owner ∧
    ∃ d, r.find? a.kind c = some d ∧
      (a.name ≠ b.name ↔ a.kind = .gauge ∧ d.absolute = false ∧ c.owner.fullName ≠ t.fullName)

theorem counterparts_of_mem_findings {r : Resolver} {n : Namer} {t : TypeInfo} {f : Finding}
    (h : f ∈ findings ⟨r, n⟩ t) :
    Counterparts r t (binding ⟨r, .declaringType⟩ t f) (binding ⟨r, .instanceType⟩ t f) := by
  obtain ⟨hc, hd⟩ := of_mem_findings h
  refine ⟨rfl, rfl, rfl, f.callable, hc, rfl, rfl, f.resolution.declaration, hd, ?_⟩
  exact Namer.nameFor_ne_iff

/-- The plans of a type under the two policies have the same length and, position by position, the
same kind, method and owner. Only relative gauges of an owner with another name than the type are
named differently, and all of them are. -/
theorem policies_differ_on_inherited_gauges (r : Resolver) (t : TypeInfo) :
    List.Forall₂ (Counterparts r t) (plan ⟨r, .declaringType⟩ t) (plan ⟨r, .instanceType⟩ t) := by
  have hfindings : findings ⟨r, .declaringType⟩ t = findings ⟨r, .instanceType⟩ t := rfl
  rw [plan, plan, hfindings, List.forall₂_map_left_iff, List.forall₂_map_right_iff,
    List.forall₂_same]
  intro f hf
  exact counterparts_of_mem_findings hf

/-- Of a timer, an inherited gauge and an inherited absolute gauge, one has two names. -/
example :
    let base := TypeInfo.build "pkg.P"
      [.method (.ofPairs "g" [(.gauge, .unnamed)]),
        .method (.ofPairs "h" [(.gauge, .verbatim "h")])]
    let heir := TypeInfo.build "pkg.T" [.parent base, .method (.ofPairs "run" [(.timed, .unnamed)])]
    (plan ⟨.standard, .declaringType⟩ heir).map Binding.name =
        ["pkg.T.run.timer", "pkg.P.g.gauge", "h"] ∧
      (plan ⟨.standard, .instanceType⟩ heir).map Binding.name =
        ["pkg.T.run.timer", "pkg.T.g.gauge", "h"] := by decide

end Instrumentation

end MetricWiring
