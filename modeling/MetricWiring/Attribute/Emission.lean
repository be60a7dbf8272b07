import MetricWiring.Attribute.DeclarationArguments
import MetricWiring.BuilderCall

/-!
# What an attribute writes

Beside the block itself an attribute writes the code that makes the type: a chain of calls whose
arguments are written out. The pieces of this chain are terms here. They are written from what was
read (`DeclareTerm.emit`, `MethodTerm.emit`), and the type is had by running them.
-/
namespace MetricWiring

/-- The code that makes a declaration. -/
inductive DeclarationTerm where
  | named (name : String)
  | withAbsolute (d : DeclarationTerm) (on : Bool)
  | withMonotonic (d : DeclarationTerm) (on : Bool)
  deriving DecidableEq, Repr

namespace DeclarationTerm

/-- An absent name is written as an empty one. -/
def emit (args : DeclarationArguments) : DeclarationTerm :=
  .withMonotonic (.withAbsolute (.named (args.name.getD "")) args.absolute) args.monotonic

def eval : DeclarationTerm → Declaration
  | named name => .named name
  | withAbsolute d on => d.eval.withAbsolute on
  | withMonotonic d on => d.eval.withMonotonic on

@[simp] theorem eval_emit (args : DeclarationArguments) :
    (emit args).eval = ⟨args.name.getD "", args.absolute, args.monotonic⟩ := rfl

end DeclarationTerm

/-- The constant that is written for the keyword of a kind. Any other word is taken for that of the
last kind. -/
def Kind.constant : String → Kind
  | "timed" => .timed
  | "metered" => .metered
  | "counted" => .counted
  | "gauge" => .gauge
  | _ => .exceptionMetered

@[simp] theorem Kind.constant_keyword (k : Kind) : constant k.keyword = k := by
  cases k <;> rfl

/-- The code of a call that attaches a declaration. -/
structure DeclareTerm where
  kind : Kind
  declaration : DeclarationTerm
  deriving DecidableEq, Repr

namespace DeclareTerm

def emit (d : Kind × DeclarationArguments) : DeclareTerm :=
  ⟨.constant d.1.keyword, .emit d.2⟩

def eval (c : DeclareTerm) : Kind × Declaration := (c.kind, c.declaration.eval)

def call (c : DeclareTerm) : BuilderCall := .declare c.kind c.declaration.eval

@[simp] theorem eval_emit (d : Kind × DeclarationArguments) :
    (emit d).eval = (d.1, ⟨d.2.name.getD "", d.2.absolute, d.2.monotonic⟩) := by
  simp [emit, eval]

end DeclareTerm

/-- The code of a call that puts in a method, with the calls on the method. -/
structure MethodTerm where
  name : String
  declares : List DeclareTerm
  deriving DecidableEq, Repr

namespace MethodTerm

def emit (name : String) (declared : List (Kind × DeclarationArguments)) : MethodTerm :=
  ⟨name, declared.map .emit⟩

def call (m : MethodTerm) : BuilderCall := .method m.name (m.declares.map DeclareTerm.eval)

end MethodTerm

end MetricWiring
