import MetricWiring.Registry

/-!
# Events

What the library reports while it works, as values. An event has a level, a message and named
fields; the fields of an event are text, apart from positions.
-/
namespace MetricWiring

inductive Level where
  | trace
  | debug
  | warn
  deriving DecidableEq, Repr

namespace Level

def label : Level → String
  | trace => "TRACE"
  | debug => "DEBUG"
  | warn => "WARN"

end Level

/-- The value of a field of an event. -/
inductive FieldValue where
  | text (s : String)
  | count (n : Nat)
  deriving DecidableEq, Repr

inductive Event where
  /-- A resolver of a list found the declaration of a kind, at the given position. -/
  | resolved (kind : Kind) (method owner : String) (position : Nat)
  /-- A metric was named for a method of a type. -/
  | bound (kind : Kind) (metric method instanceType : String)
  /-- A declaration that is to be taken as it stands has no name. -/
  | unnamed (kind : Kind) (method instanceType : String)
  /-- The registry did not take the names of a type. -/
  | rejected (instanceType : String) (cause : RegistryError)
  /-- The catalog already holds a type of this name. -/
  | alreadyCatalogued (fullName : String)
  deriving DecidableEq, Repr

namespace Event

def level : Event → Level
  | resolved .. => .trace
  | bound .. => .debug
  | unnamed .. => .warn
  | rejected .. => .warn
  | alreadyCatalogued .. => .warn

def message : Event → String
  | resolved .. => "Declaration resolved"
  | bound .. => "Metric bound"
  | unnamed .. => "Absolute declaration without a name"
  | rejected .. => "Metric registration rejected"
  | alreadyCatalogued .. => "Type already catalogued, ignoring duplicate"

def fields : Event → List (String × FieldValue)
  | resolved kind method owner position =>
    [("kind", .text kind.keyword), ("method", .text method), ("declaring_type", .text owner),
      ("position", .count position)]
  | bound kind metric method instanceType =>
    [("kind", .text kind.keyword), ("metric", .text metric), ("method", .text method),
      ("instance_type", .text instanceType)]
  | unnamed kind method instanceType =>
    [("kind", .text kind.keyword), ("method", .text method),
      ("instance_type", .text instanceType)]
  | rejected instanceType cause =>
    [("instance_type", .text instanceType), ("error", .text cause.message)]
  | alreadyCatalogued fullName => [("namespace", .text fullName)]

end Event

end MetricWiring
