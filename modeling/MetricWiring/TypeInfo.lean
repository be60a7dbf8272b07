import MetricWiring.MethodTable

/-!
# Types and their ancestry

A type is its own definition under the definitions of its ancestors, nearest first. The ancestors
are kept as a list, so that an ancestry of any depth is walked by recursion on it.
-/
namespace MetricWiring

/-- What a type says of itself: its qualified name, which is the namespace of its metrics, the
declarations that hold for all its methods, and the methods. -/
structure TypeDef where
  fullName : String
  declarations : DeclarationTable := .empty
  methods : MethodTable := .empty
  deriving DecidableEq, Repr, Inhabited

/-- A type with its ancestors, nearest first. -/
structure TypeInfo where
  own : TypeDef
  ancestors : List TypeDef := []
  deriving DecidableEq, Repr, Inhabited

namespace TypeInfo

def fullName (t : TypeInfo) : String := t.own.fullName

/-- The declarations that hold for every method the type declares. -/
def declarations (t : TypeInfo) : DeclarationTable := t.own.declarations

/-- The methods that the type itself declares. -/
def methods (t : TypeInfo) : List Method := t.own.methods.entries

def parent? (t : TypeInfo) : Option TypeInfo :=
  match t.ancestors with
  | [] => none
  | p :: above => some ⟨p, above⟩

/-- The types of a chain of definitions, each under the ones that follow it. -/
def chain : List TypeDef → List TypeInfo
  | [] => []
  | d :: above => ⟨d, above⟩ :: chain above

/-- The type itself and then its ancestors, nearest first. -/
def lineage (t : TypeInfo) : List TypeInfo := t :: chain t.ancestors

theorem lineage_of_parent?_eq_none {t : TypeInfo} (h : t.parent? = none) : t.lineage = [t] := by
  rcases t with ⟨own, _ | _⟩ <;> simp_all [parent?, lineage, chain]

theorem lineage_of_parent?_eq_some {t p : TypeInfo} (h : t.parent? = some p) :
    t.lineage = t :: p.lineage := by
  rcases t with ⟨own, _ | ⟨d, above⟩⟩ <;> simp_all [parent?, lineage, chain]
  rw [← h]

/-- One step in the making of a type. -/
inductive BuildStep where
  | parent (p : TypeInfo)
  | declare (k : Kind) (d : Declaration)
  | method (m : Method)

/-- A type of the given name that says nothing more. -/
def start (fullName : String) : TypeInfo := { own := { fullName } }

def withParent (t p : TypeInfo) : TypeInfo := { t with ancestors := p.own :: p.ancestors }

def declare (t : TypeInfo) (k : Kind) (d : Declaration) : TypeInfo :=
  { t with own := { t.own with declarations := t.own.declarations.insert k d } }

def withMethod (t : TypeInfo) (m : Method) : TypeInfo :=
  { t with own := { t.own with methods := t.own.methods.put m } }

/-- Puts in a method of the given name once it is configured. -/
def method (t : TypeInfo) (name : String) (configure : Method → Method) : TypeInfo :=
  t.withMethod (configure { name })

def apply (t : TypeInfo) : BuildStep → TypeInfo
  | .parent p => t.withParent p
  | .declare k d => t.declare k d
  | .method m => t.withMethod m

/-- The type that a sequence of steps makes. -/
def build (fullName : String) (steps : List BuildStep) : TypeInfo :=
  steps.foldl apply (start fullName)

@[simp] theorem parent?_withParent (t p : TypeInfo) : (t.withParent p).parent? = some p := rfl

@[simp] theorem parent?_declare (t : TypeInfo) (k : Kind) (d : Declaration) :
    (t.declare k d).parent? = t.parent? := rfl

@[simp] theorem parent?_withMethod (t : TypeInfo) (m : Method) :
    (t.withMethod m).parent? = t.parent? := rfl

end TypeInfo

end MetricWiring
