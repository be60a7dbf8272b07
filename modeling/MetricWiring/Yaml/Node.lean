/-!
# Nodes of a YAML document

A document is a tree of scalars, sequences and mappings, each of which may carry a tag. Aliases are
replaced by what they stand for, so that a tree has none.
-/
namespace MetricWiring.Yaml

inductive Node where
  /-- `plain` scalars are written without quotes. -/
  | scalar (tag : Option String) (plain : Bool) (text : String)
  | sequence (tag : Option String) (items : List Node)
  | mapping (tag : Option String) (entries : List (Node × Node))
  deriving Repr, Inhabited

namespace Node

/-- What stands where nothing was written. -/
def empty : Node := scalar none true ""

def withTag (tag : Option String) : Node → Node
  | scalar _ plain text => scalar tag plain text
  | sequence _ items => sequence tag items
  | mapping _ entries => mapping tag entries

/-- The text of a scalar. -/
def text? : Node → Option String
  | scalar _ _ text => some text
  | _ => none

end Node

end MetricWiring.Yaml
