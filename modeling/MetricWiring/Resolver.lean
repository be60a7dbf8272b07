import MetricWiring.Callable

/-!
# Finding the declaration that applies to a method

A declaration of a kind is looked for at a source: on the method itself, or on the type that
declares it. Sources are put in order by lists, and lists may stand in lists; the first declaration
found is the one that applies. A resolution also says by which positions it was reached, so that the
winning source can be located afterwards.
-/
namespace MetricWiring

/-- A place where declarations are attached. -/
inductive Source where
  /-- The method itself. -/
  | method
  /-- The declaring type, whose declarations hold for all its methods. -/
  | type
  deriving DecidableEq, Repr

/-- The declaration of a kind that a source holds for a callable. -/
def Source.find? (s : Source) (k : Kind) (c : Callable) : Option Declaration :=
  match s with
  | method => c.declarations.get k
  | type => c.owner.declarations.get k

inductive Resolver where
  | source (s : Source)
  /-- The first of these that finds something. -/
  | firstOf (rs : List Resolver)
  /-- Asks the resolver inside. -/
  | wrapped (r : Resolver)
  deriving Repr

/-- The declaration found, with the position of the successful resolver in each list on the way to
it, innermost list first. -/
structure Resolution where
  declaration : Declaration
  positions : List Nat
  deriving DecidableEq, Repr

namespace Resolver

/-- The method's own declaration, or else the one of its declaring type. -/
def standard : Resolver := .firstOf [.source .method, .source .type]

/-- Asks the sources in the given order. -/
def ofSources (order : List Source) : Resolver := .firstOf (order.map .source)

mutual

def resolve (k : Kind) (c : Callable) : Resolver → Option Resolution
  | .source s => (s.find? k c).map fun d => ⟨d, []⟩
  | .firstOf rs => resolveFirst k c 0 rs
  | .wrapped r => resolve k c r

/-- Asks the resolvers of a list one after the other, from the given position on. -/
def resolveFirst (k : Kind) (c : Callable) (position : Nat) : List Resolver → Option Resolution
  | [] => none
  | r :: rs =>
    match resolve k c r with
    | some found => some { found with positions := found.positions ++ [position] }
    | none => resolveFirst k c (position + 1) rs

end

/-- The declaration of a kind that applies to a callable. -/
def find? (r : Resolver) (k : Kind) (c : Callable) : Option Declaration :=
  (resolve k c r).map Resolution.declaration

mutual

/-- The sources of a resolver in the order in which they are asked. -/
def sources : Resolver → List Source
  | .source s => [s]
  | .firstOf rs => sourcesOfList rs
  | .wrapped r => sources r

def sourcesOfList : List Resolver → List Source
  | [] => []
  | r :: rs => sources r ++ sourcesOfList rs

end

@[simp] theorem sourcesOfList_eq_flatMap (rs : List Resolver) :
    sourcesOfList rs = rs.flatMap sources := by
  induction rs with
  | nil => simp [sourcesOfList]
  | cons r rs ih => simp [sourcesOfList, ih]

end Resolver

end MetricWiring
