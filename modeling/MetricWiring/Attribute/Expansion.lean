import MetricWiring.Attribute.Emission
import MetricWiring.Attribute.Marker
import MetricWiring.Attribute.TypeArguments

/-!
# Instrumented types

An implementation block with the arguments of its attribute describes a type: what its metrics are
named under, its parent, the declarations for all its methods, and the methods that take an
instance, with the declarations of their markers. The block is written back without its markers, and
with it the calls that make the type; running these calls gives the type (`Expansion.typeInfo`).
-/
namespace MetricWiring

open Code (Attribute BlockItem ImplBlock MethodItem TokenTree TypeSyntax)

/-- Where the namespace of an instrumented type comes from. -/
inductive Namespace where
  | given (s : String)
  /-- The module at hand, followed by the name of the type. -/
  | ofType (name : String)
  deriving DecidableEq, Repr

namespace Namespace

/-- Module paths are written with double colons, namespaces with dots. -/
def dotted : List Char → List Char
  | ':' :: ':' :: r => '.' :: dotted r
  | c :: r => c :: dotted r
  | [] => []

/-- The namespace as seen from a module. -/
def within (module : String) : Namespace → String
  | given s => s
  | ofType name => .ofList (dotted module.toList) ++ "." ++ name

end Namespace

/-- What is left of a function after its markers have been taken off. -/
structure KeptFunction where
  name : String
  attributes : List Attribute
  deriving Repr

/-- An item of the block: what is left of it, and the code for the method it contributes. -/
structure ExpandedItem where
  kept : BlockItem
  method : Option MethodTerm
  deriving Repr

/-- What is written for an instrumented block: the block itself, and the parts of the chain of calls
that makes the type. -/
structure Expansion where
  /-- The block without the markers of its functions. -/
  block : ImplBlock
  space : Namespace
  parent : Option TypeSyntax
  declares : List DeclareTerm
  methods : List MethodTerm
  deriving Repr

namespace Expansion

def selfType (x : Expansion) : TypeSyntax := x.block.selfType

/-- The functions of the block as they are written back. -/
def kept (x : Expansion) : List KeptFunction :=
  x.block.methods.map fun m => ⟨m.name.written, m.attributes⟩

/-- Takes the markers off a function. They need a receiver, and a gauge takes nothing besides it,
be it declared on the function or, with `gaugeType`, on the type. -/
def ofMethod (gaugeType : Bool) (m : MethodItem) : Except AttributeError ExpandedItem :=
  match Marker.take m.attributes with
  | .error e => .error e
  | .ok (declared, left) =>
    let kept := BlockItem.function { m with attributes := left }
    if m.parameters.hasReceiver then
      let isGauge := gaugeType || (declared.map Prod.fst).contains .gauge
      if isGauge && 1 < m.parameters.count then .error .gaugeParameters
      else .ok ⟨kept, some (.emit m.name.name declared)⟩
    else
      match declared with
      | [] => .ok ⟨kept, none⟩
      | (k, _) :: _ => .error (.receiverRequired k)

/-- Only functions contribute methods; all other items stay as they are. -/
def ofItem (gaugeType : Bool) : BlockItem → Except AttributeError ExpandedItem
  | .function m => ofMethod gaugeType m
  | .other written => .ok ⟨.other written, none⟩

/-- The namespace of a type that is given none is derived from its name. -/
def namespaceOf (args : TypeArguments) (selfType : TypeSyntax) : Option Namespace :=
  match args.space with
  | some s => some (.given s)
  | none => selfType.lastSegment.map fun i => .ofType i.name

/-- The type that a block describes. The items are taken in turn, up to the first error. -/
def ofBlock (args : TypeArguments) (block : ImplBlock) : Except AttributeError Expansion :=
  if block.ofTrait then .error .traitBlock
  else if block.genericCount ≠ 0 then .error .genericBlock
  else
    match namespaceOf args block.selfType with
    | none => .error .namespaceRequired
    | some space =>
      match block.items.mapM (ofItem (args.kinds.contains .gauge)) with
      | .error e => .error e
      | .ok expanded =>
        .ok {
          block := { block with items := expanded.map ExpandedItem.kept }
          space
          parent := args.parent
          declares := args.declarations.map .emit
          methods := expanded.filterMap ExpandedItem.method }

/-- Reads the arguments and the block from their texts. -/
def parse (given item : String) : Except AttributeError Expansion :=
  match TypeArguments.parse given with
  | .error e => .error e
  | .ok args =>
    match (TokenTree.read? item).bind ImplBlock.ofTrees? with
    | some block => ofBlock args block
    | none => .error .malformed

/-- The calls as they are made, with the type that the parent comes to, if a parent is written. -/
def calls (x : Expansion) (parent : Option TypeInfo) : List BuilderCall :=
  parent.toList.map .parent ++ x.declares.map DeclareTerm.call ++ x.methods.map MethodTerm.call

/-- The type that the calls make in a module. -/
def typeInfo (x : Expansion) (module : String) (parent : Option TypeInfo) : TypeInfo :=
  BuilderCall.built (x.space.within module) (x.calls parent)

end Expansion

end MetricWiring
