import MetricWiring.Kind
import MetricWiring.NameTable

/-!
# The registry of metric names

The registry says which kind each metric name belongs to. A name of a kind other than gauge may be
asked for again by the same kind; a gauge name is given out once. A batch of bindings is checked as
a whole, against the registry and against itself, before any of it is entered.
-/
namespace MetricWiring

/-- A method of a type bound to the metric it feeds. -/
structure Binding where
  kind : Kind
  /-- The metric name. -/
  name : String
  method : String
  /-- The name of the type that declares the method. -/
  owner : String
  deriving DecidableEq, Repr

inductive RegistryError where
  /-- The name is held by another kind, or is a gauge asked for again. -/
  | duplicateName (name : String) (existing requested : Kind)
  /-- The declaration gives no name at all. -/
  | emptyName (kind : Kind) (method : String)
  deriving DecidableEq, Repr

namespace RegistryError

def message : RegistryError → String
  | duplicateName name existing requested =>
    "A metric named " ++ name ++ " already exists (" ++ existing.keyword ++ ", requested " ++
      requested.keyword ++ ")"
  | emptyName kind method =>
    "Empty metric name for " ++ kind.keyword ++ " declaration on " ++ method

end RegistryError

/-- The kind of each registered name. -/
abbrev Registry := NameTable Kind

namespace Registry

/-- What becomes of a request for a name by a kind, given the kind that holds the name. -/
inductive Verdict where
  /-- Nobody holds the name. -/
  | fresh
  /-- The same kind holds it and shares it. -/
  | shared
  | refused (existing : Kind)
  deriving DecidableEq, Repr

def judge (held : Option Kind) (requested : Kind) : Verdict :=
  match held with
  | none => .fresh
  | some existing =>
    if existing = requested ∧ requested ≠ .gauge then .shared else .refused existing

/-- A computation on a registry. When it fails, what it has done to the registry stays. -/
abbrev OnRegistry (α : Type) : Type := EStateM RegistryError Registry α

/-- Asks for one name. The answer says whether the name is new. -/
def register (name : String) (kind : Kind) : OnRegistry Bool := do
  match judge ((← get).get? name) kind with
  | .fresh =>
    modify fun r => r.insert name kind
    return true
  | .shared => return false
  | .refused existing => throw (.duplicateName name existing kind)

/-- Checks one more binding, and collects its name if it is new. A name is first looked up in the
registry, then among the names collected so far. -/
def stageNext (collected : Registry) (b : Binding) : OnRegistry Registry := do
  match judge (((← get).get? b.name).or (collected.get? b.name)) b.kind with
  | .fresh => return collected.insert b.name b.kind
  | .shared => return collected
  | .refused existing => throw (.duplicateName b.name existing b.kind)

/-- Checks bindings one after the other and collects the names that are new. -/
def stage (bindings : List Binding) : OnRegistry Registry := bindings.foldlM stageNext .empty

/-- Asks for the names of all bindings, or for none of them. The answer counts the new names. -/
def registerAll (bindings : List Binding) : OnRegistry Nat := do
  let collected ← stage bindings
  modify fun r => r.merge collected
  return collected.size

end Registry

end MetricWiring
