import MetricWiring.Callable
import MetricWiring.MetricName

/-!
# Naming policies

A policy chooses the type under whose name a metric stands. Every metric but a gauge stands under
the type that declares the method. A gauge can be inherited, and the policies differ in whether it
stands under the declaring type or under the type of the instance at hand.
-/
namespace MetricWiring

inductive Namer where
  /-- Gauges stand under the declaring type. -/
  | declaringType
  /-- Gauges stand under the type of the instance. -/
  | instanceType
  /-- Names metrics as the namer inside does, but has a gauge rule of its own. -/
  | wrapped (n : Namer)
  deriving DecidableEq, Repr

namespace Namer

/-- The gauge rule of a namer taken by itself. A wrapper does not pass the question on: it puts
gauges under the declaring type, whatever it wraps. -/
def nameForGauge (n : Namer) (inst : TypeInfo) (c : Callable) (d : Declaration) : String :=
  match n with
  | .declaringType => MetricName.compose c.owner.fullName c.name .gauge d
  | .instanceType => MetricName.compose inst.fullName c.name .gauge d
  | .wrapped _ => MetricName.compose c.owner.fullName c.name .gauge d

/-- Leaves gauges to the gauge rule and puts all other metrics under the declaring type. -/
def dispatch (n : Namer) (k : Kind) (inst : TypeInfo) (c : Callable) (d : Declaration) : String :=
  if k = .gauge then n.nameForGauge inst c d
  else MetricName.compose c.owner.fullName c.name k d

/-- The name of the metric that a declaration of a kind asks for on a callable, for an instance of
the given type. -/
def nameFor (n : Namer) (k : Kind) (inst : TypeInfo) (c : Callable) (d : Declaration) : String :=
  match n with
  | .declaringType => dispatch .declaringType k inst c d
  | .instanceType => dispatch .instanceType k inst c d
  | .wrapped n => n.nameFor k inst c d

@[simp] theorem dispatch_gauge (n : Namer) (inst : TypeInfo) (c : Callable) (d : Declaration) :
    n.dispatch .gauge inst c d = n.nameForGauge inst c d := by
  simp [dispatch]

end Namer

end MetricWiring
