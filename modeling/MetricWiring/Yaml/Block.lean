import MetricWiring.Yaml.Brackets

/-!
# Blocks

A block belongs to the column in which its first key or dash stands; `bound` is the least column for
what is inside the block around, so it is one more than the column of that block, and zero outside
all blocks. A key is a node on a single line with a colon behind it.

Every node but an empty one takes a character, so the depth of the descent is bounded by the length
of the text. The readers carry such a bound as their first argument, and `Node.read?` gives one that
is large enough.
-/
namespace MetricWiring.Yaml

namespace Read

/-- Whether the node from `start` to here is a key: it lies on one line, is no longer than a key may
be, and a colon follows on the line. -/
def atKeyEnd (start : Cursor) : Read Bool := do
  let c ← cursor
  return c.line == start.line && decide (start.rest.length - c.rest.length ≤ 1024) &&
    c.skipBlanks.seesSign ':'

/-- Whether nothing but a comment follows on the line. -/
def atLineEnd : Read Bool := do
  let c := (← cursor).skipBlanks
  return c.atEnd || c.sees '\n' || c.sees '#'

/-- Skips the colon behind a key. -/
def colon : Read Unit := do
  skipBlanks
  skip 1
  let blanks := (← cursor).rest.takeWhile isBlank
  let next := (← cursor).skipBlanks.rest.head?
  guarded (!((← dialect).spacedValues && !blanks.isEmpty && blanks.head? == some '\t' &&
    !blanks.contains ' ' && next.any isNameSign))

/-- Whether the entries of a block in this column end here. Content further to the right would
belong to no block. -/
def blockEnds (column : Nat) : Read Bool := do
  gap false
  let c ← cursor
  if c.atEnd || c.atMarker || decide (c.column < column) then return true
  else
    guarded (c.column == column)
    return false

mutual

/-- A node outside brackets, with the properties `before` on lines before it. With `keys` a block
can begin on the line of the position; on a later line it always can. A sequence whose dashes stand
in the column `dashes` may be less indented than `bound`. -/
def blockNode : Nat → Nat → Bool → Option Nat → Properties → Read Node
  | 0, _, _, _, _ => refuse
  | n + 1, bound, keys, dashes, before => do
    let start ← cursor
    gap keys
    let here ← cursor
    let keys := keys || here.line != start.line
    if keys && dashes == some here.column && here.seesSign '-' then
      dress before (.sequence none (← blockItems n here.column true []))
    else if here.atEnd || here.atMarker || decide (here.column < bound) then dress before .empty
    else blockContent n bound keys dashes before

/-- What stands at the position outside brackets, which is the beginning of a node. -/
def blockContent : Nat → Nat → Bool → Option Nat → Properties → Read Node
  | 0, _, _, _, _ => refuse
  | n + 1, bound, keys, dashes, before => do
    let here ← cursor
    if here.seesSign '-' then
      guarded keys
      dress before (.sequence none (← blockItems n here.column false []))
    else if here.seesSign '?' || here.seesSign ':' then
      guarded keys
      dress before (.mapping none (← blockEntries n here.column []))
    else
      let own ← properties false
      if !own.isEmpty && (← atLineEnd) then
        match before.and? own with
        | some both => blockNode n bound false dashes both
        | none => refuse
      else
        let c ← cursor
        if c.sees '|' || c.sees '>' then
          match before.and? own with
          | some both => dress both (← blockText bound)
          | none => refuse
        else
          let node ← lineNode n bound own
          if keys && (← atKeyEnd here) then
            let key ← dressUnlessAlias own node (c.sees '*')
            colon
            let value ← blockNode n (here.column + 1) false (some here.column) {}
            dress before (.mapping none (← moreEntries n here.column [(key, value)]))
          else
            match before.and? own with
            | some both => dressUnlessAlias both node (c.sees '*')
            | none => refuse

/-- A node that can be a key, without its own properties. It can be empty if it has properties. -/
def lineNode : Nat → Nat → Properties → Read Node
  | 0, _, _ => refuse
  | n + 1, bound, own => do
    let c ← cursor
    if !own.isEmpty && c.seesSign ':' then return .empty
    else if "*\"'[\x7b".toList.any c.sees then flowContent n bound
    else plain false bound

/-- The items of a sequence whose dashes stand in the given column, from the next one on. With
`bare` the sequence stands in the column of the mapping around it. -/
def blockItems : Nat → Nat → Bool → List Node → Read (List Node)
  | 0, _, _, _ => refuse
  | n + 1, column, bare, done => do
    skip 1
    let item ← blockNode n (column + 1) true none {}
    let done := item :: done
    if ← blockEnds column then return done.reverse
    else if (← cursor).seesSign '-' then blockItems n column bare done
    else
      guarded bare
      return done.reverse

/-- The further entries of a mapping whose keys stand in the given column. -/
def moreEntries : Nat → Nat → List (Node × Node) → Read (List (Node × Node))
  | 0, _, _ => refuse
  | n + 1, column, done => do
    if ← blockEnds column then return done.reverse else blockEntries n column done

/-- The entries of a mapping whose keys stand in the given column, from the next one on. -/
def blockEntries : Nat → Nat → List (Node × Node) → Read (List (Node × Node))
  | 0, _, _ => refuse
  | n + 1, column, done => do
    let here ← cursor
    guarded (!here.seesSign '-')
    if here.seesSign '?' then
      skip 1
      let key ← blockNode n (column + 1) true (some column) {}
      if ← blockEnds column then return ((key, .empty) :: done).reverse
      else if (← cursor).seesSign ':' then
        skip 1
        let value ← blockNode n (column + 1) true (some column) {}
        moreEntries n column ((key, value) :: done)
      else blockEntries n column ((key, .empty) :: done)
    else if here.seesSign ':' then
      skip 1
      let value ← blockNode n (column + 1) true (some column) {}
      moreEntries n column ((.empty, value) :: done)
    else
      let own ← properties false
      let isAlias := (← cursor).sees '*'
      let node ← lineNode n (column + 1) own
      guarded (← atKeyEnd here)
      let key ← dressUnlessAlias own node isAlias
      colon
      let value ← blockNode n (column + 1) false (some column) {}
      moreEntries n column ((key, value) :: done)

end

end Read

/-- The node at the beginning of a document, and the position behind it. With `keys` a block can
begin at once. -/
def Node.read? (context : Context) (keys : Bool) (c : Cursor) : Option (Node × Cursor) :=
  ((Read.blockNode (8 * c.rest.length + 8) 0 keys none {}).run context ⟨c, []⟩).map fun v =>
    (v.1, v.2.cursor)

end MetricWiring.Yaml
