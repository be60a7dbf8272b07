import MetricWiring.Yaml.Node
import MetricWiring.Yaml.Cursor

/-!
# Reading with a position

A reader of nodes keeps its position and the nodes that have been given a name. It gives no answer
for a text with a defect.
-/
namespace MetricWiring.Yaml

/-- What stays the same while a document is read. -/
structure Context where
  dialect : Dialect
  /-- The prefixes of tags, under their handles. -/
  handles : List (String × String)

structure State where
  cursor : Cursor
  /-- The nodes that have an anchor, the last one first. -/
  anchors : List (String × Node) := []

abbrev Read := ReaderT Context (StateT State Option)

namespace Read

def refuse {α : Type} : Read α := failure

def guarded (condition : Bool) : Read Unit := if condition then pure () else refuse

def cursor : Read Cursor := return (← get).cursor

def moveTo (c : Cursor) : Read Unit := modify fun s => { s with cursor := c }

def dialect : Read Dialect := return (← read).dialect

/-- Skips the given number of characters. -/
def skip (n : Nat) : Read Unit := do moveTo ((← cursor).advance n)

def skipBlanks : Read Unit := do moveTo (← cursor).skipBlanks

/-- Goes to the next token outside brackets. -/
def gap (keys : Bool) : Read Unit := do
  match (← cursor).gap? (← dialect) false keys with
  | some c => moveTo c
  | none => refuse

/-- Goes to the next token inside brackets. No document may end or begin before it. -/
def flowGap (bound : Nat) : Read Unit := do
  match (← cursor).gap? (← dialect) true false with
  | some c =>
    guarded (!c.atMarker && !((← dialect).indentedBrackets && decide (c.column + 1 < bound)))
    moveTo c
  | none => refuse

/-- Runs a reader of characters. -/
def characters {α : Type} (read : List Char → Option (α × List Char)) : Read α := do
  let c ← cursor
  match read c.rest with
  | some (a, rest) =>
    moveTo (c.reach rest)
    return a
  | none => refuse

end Read

end MetricWiring.Yaml
