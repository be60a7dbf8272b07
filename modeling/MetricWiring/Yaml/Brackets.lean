import MetricWiring.Yaml.Properties
import MetricWiring.Yaml.Scalar

/-!
# Nodes that need no indentation

Scalars, aliases, and collections in brackets. Brackets nest, so the readers carry a bound on the
depth of the nesting as their first argument. `bound` is the least column for what is inside the
block around.
-/
namespace MetricWiring.Yaml.Read

/-! ## Scalars and aliases -/

def quoted : Read Node := do
  if (← cursor).sees '"' then
    skip 1
    return .scalar none false (.ofList (← characters (doubleQuoted .none)))
  else
    skip 1
    return .scalar none false (.ofList (← characters (singleQuoted .none)))

def plain (flow : Bool) (bound : Nat) : Read Node := do
  let c ← cursor
  let d ← dialect
  return .scalar none true (.ofList (← characters fun _ => plain? d flow bound c))

def blockText (bound : Nat) : Read Node := do
  return .scalar none false (.ofList (← characters (blockText? (← dialect) bound)))

/-- The node that an alias stands for. -/
def aliased : Read Node := do
  skip 1
  let name ← characters (anchorName (← dialect))
  match (← get).anchors.lookup name with
  | some n => return n
  | none => refuse

/-! ## Brackets -/

/-- Whether a colon stands here that ends the key before it, which ends at `keyEnd`. -/
def atFlowColon (keyEnd : Cursor) : Read Bool := do
  let c ← cursor
  let rest := c.rest.drop 1
  let d ← dialect
  return c.sees ':' && (!d.bareEntries || endsWord rest || startsFlowSign rest ||
    (keyEnd.line == c.line && keyEnd.column == c.column))

/-- Whether an entry in brackets ends here. -/
def atEntryEnd : Read Bool := do
  let c ← cursor
  return c.sees ',' || c.sees ']' || c.sees '\x7d'

mutual

/-- A node inside brackets. -/
def flowNode : Nat → Nat → Read Node
  | 0, _ => refuse
  | n + 1, bound => do
    flowGap bound
    let p ← properties true
    flowGap bound
    if !p.isEmpty && ((← atEntryEnd) || (← cursor).sees ':') then dress p .empty
    else
      let isAlias := (← cursor).sees '*'
      dressUnlessAlias p (← flowContent n bound) isAlias

/-- A node without its properties that may stand inside brackets or outside. -/
def flowContent : Nat → Nat → Read Node
  | 0, _ => refuse
  | n + 1, bound => do
    let c ← cursor
    if c.sees '*' then aliased
    else if c.sees '"' || c.sees '\'' then quoted
    else if c.sees '[' then
      skip 1
      return .sequence none (← flowItems n bound [])
    else if c.sees '\x7b' then
      skip 1
      return .mapping none (← flowEntries n bound [])
    else plain true bound

/-- The items of a sequence up to its closing bracket. `done` has those before, the last first. -/
def flowItems : Nat → Nat → List Node → Read (List Node)
  | 0, _, _ => refuse
  | n + 1, bound, done => do
    flowGap bound
    if (← cursor).sees ']' then
      skip 1
      return done.reverse
    else
      let item ← flowItem n bound
      flowGap bound
      if (← cursor).sees ',' then
        skip 1
        flowItems n bound (item :: done)
      else
        guarded ((← cursor).sees ']')
        skip 1
        return (item :: done).reverse

/-- An item of a sequence: a node, or an entry that makes a mapping of its own. -/
def flowItem : Nat → Nat → Read Node
  | 0, _ => refuse
  | n + 1, bound => do
    let start ← cursor
    if start.seesSign '?' || start.sees ':' then
      let (key, value) ← flowEntry n bound
      return .mapping none [(key, value)]
    else
      let node ← flowNode n bound
      let keyEnd ← cursor
      flowGap bound
      if (← cursor).line == start.line && (← atFlowColon keyEnd) then
        skip 1
        return .mapping none [(node, ← flowValue n bound)]
      else return node

/-- The entries of a mapping up to its closing bracket. `done` has those before, the last first. -/
def flowEntries : Nat → Nat → List (Node × Node) → Read (List (Node × Node))
  | 0, _, _ => refuse
  | n + 1, bound, done => do
    flowGap bound
    if (← cursor).sees '\x7d' then
      skip 1
      return done.reverse
    else
      let entry ← flowEntry n bound
      flowGap bound
      if (← cursor).sees ',' then
        skip 1
        flowEntries n bound (entry :: done)
      else
        guarded ((← cursor).sees '\x7d')
        skip 1
        return (entry :: done).reverse

/-- An entry inside brackets. The value may be missing, and so may the key after a question mark. -/
def flowEntry : Nat → Nat → Read (Node × Node)
  | 0, _ => refuse
  | n + 1, bound => do
    let start ← cursor
    if start.seesSign '?' then
      skip 1
      flowGap bound
      let key ← if (← atEntryEnd) || (← cursor).sees ':' then pure .empty else flowNode n bound
      let keyEnd ← cursor
      flowGap bound
      if ← atFlowColon keyEnd then
        skip 1
        return (key, ← flowValue n bound)
      else return (key, .empty)
    else if start.sees ':' && (endsWord (start.rest.drop 1) || startsFlowSign (start.rest.drop 1))
    then
      guarded (← dialect).bareEntries
      skip 1
      return (.empty, ← flowValue n bound)
    else
      let key ← flowNode n bound
      let keyEnd ← cursor
      flowGap bound
      if (← cursor).line == start.line && (← atFlowColon keyEnd) then
        skip 1
        return (key, ← flowValue n bound)
      else return (key, .empty)

/-- The value behind the colon of an entry inside brackets. -/
def flowValue : Nat → Nat → Read Node
  | 0, _ => refuse
  | n + 1, bound => do
    flowGap bound
    if ← atEntryEnd then return .empty else flowNode n bound

end

end MetricWiring.Yaml.Read
