import MetricWiring.Kind

/-!
# What can be wrong with an attribute
-/
namespace MetricWiring

inductive AttributeError where
  /-- The text does not follow the grammar. -/
  | malformed
  | unknownArgument
  | emptyNamespace
  | misplacedMonotonic
  | duplicateKind
  /-- A marker is given a value. -/
  | valuedMarker (k : Kind)
  | traitBlock
  | genericBlock
  | namespaceRequired
  /-- A marker stands on a function that takes no instance. -/
  | receiverRequired (k : Kind)
  | gaugeParameters
  deriving DecidableEq, Repr

namespace AttributeError

/-- The text of an error. A breach of the grammar has none of its own. -/
def message? : AttributeError → Option String
  | malformed => none
  | unknownArgument => some "unknown attribute"
  | emptyNamespace => some "namespace must not be empty"
  | misplacedMonotonic => some "monotonic only applies to counted"
  | duplicateKind => some "duplicate declaration kind"
  | valuedMarker k => some ("expected #[" ++ k.keyword ++ "] or #[" ++ k.keyword ++ "(...)]")
  | traitBlock => some "#[instrumented] must be placed on an inherent impl block"
  | genericBlock => some "#[instrumented] does not support generic impl blocks"
  | namespaceRequired => some "namespace = \"...\" is required for this type"
  | receiverRequired k => some ("#[" ++ k.keyword ++ "] requires a method taking self")
  | gaugeParameters => some "gauge methods must take no arguments besides self"

end AttributeError

end MetricWiring
