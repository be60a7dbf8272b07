import MetricWiring.Code.StringLiteral
import MetricWiring.Yaml.Read

/-!
# Anchors and tags

What can stand before a node: a name by which aliases refer to it, and a tag for its kind. A tag is
written with a handle, which stands for the beginning of its full name.
-/
namespace MetricWiring.Yaml

/-- The anchor and the tag before a node. -/
structure Properties where
  anchor : Option String := none
  tag : Option String := none
  deriving DecidableEq, Repr

namespace Properties

def isEmpty (p : Properties) : Bool := p.anchor.isNone && p.tag.isNone

/-- The properties of both, unless both have an anchor or both have a tag. -/
def and? (p q : Properties) : Option Properties :=
  if (p.anchor.isSome && q.anchor.isSome) || (p.tag.isSome && q.tag.isSome) then none
  else some ⟨p.anchor.orElse fun _ => q.anchor, p.tag.orElse fun _ => q.tag⟩

@[simp] theorem and?_empty (p : Properties) : p.and? {} = some p := by
  cases p with
  | mk anchor tag => cases anchor <;> cases tag <;> simp [and?]

end Properties

namespace Read

def isNameSign (c : Char) : Bool := c.isAlphanum || c == '_' || c == '-'

/-- The name of an anchor or alias, behind its sign. -/
def anchorName (d : Dialect) (cs : List Char) : Option (String × List Char) :=
  let isNamed (c : Char) : Bool :=
    if d.freeAnchors then !(isBlank c || c == '\n' || isFlowSign c) else isNameSign c
  let name := cs.takeWhile isNamed
  let rest := cs.dropWhile isNamed
  let ends := endsWord rest || rest.head?.any fun c => "?:,]\x7d%@`".toList.contains c
  if !name.isEmpty && (d.freeAnchors || ends) then some (.ofList name, rest) else none

/-- The characters of a tag, with escapes by two hexadecimal digits replaced. -/
def tagText (admits : Char → Bool) : List Char → Option (List Char × List Char)
  | [] => some ([], [])
  | '%' :: a :: b :: r =>
    match Code.hexDigit? a, Code.hexDigit? b with
    | some a, some b =>
      (tagText admits r).map fun v => (Char.ofNat (a * 16 + b) :: v.1, v.2)
    | _, _ => none
  | c :: r =>
    if admits c then (tagText admits r).map fun v => (c :: v.1, v.2) else some ([], c :: r)

def isTagSign (c : Char) : Bool := isNameSign c || ";/?:@&=+$.!~*'()".toList.contains c

/-- The full name behind a handle and a suffix. -/
def expandTag (handles : List (String × String)) (handle suffix : String) : Option String :=
  (handles.lookup handle).map (· ++ suffix)

/-- A tag, from its sign on. -/
def tagFrom (handles : List (String × String)) (cs : List Char) :
    Option (String × List Char) :=
  match cs with
  | '!' :: '<' :: r => do
    let (text, rest) ← tagText (fun c => isTagSign c || c == ',' || c == '[' || c == ']') r
    match rest with
    | '>' :: rest => if text.isEmpty then none else some (.ofList text, rest)
    | _ => none
  | '!' :: r => do
    let name := r.takeWhile isNameSign
    match r.dropWhile isNameSign with
    | '!' :: r => do
      let (text, rest) ← tagText isTagSign r
      if text.isEmpty then none
      else return (← expandTag handles (.ofList ('!' :: name ++ ['!'])) (.ofList text), rest)
    | _ => do
      let (text, rest) ← tagText isTagSign r
      if text.isEmpty then some ("!", rest)
      else return (← expandTag handles "!" (.ofList text), rest)
  | _ => none

/-- The anchor or tag that stands here, if there is one. -/
def property (flow : Bool) : Read Properties := do
  let c ← cursor
  if c.sees '&' then
    skip 1
    return { anchor := some (← characters (anchorName (← dialect))) }
  else if c.sees '!' then
    let tag ← characters (tagFrom (← read).handles)
    let rest := (← cursor).rest
    guarded (endsWord rest || (flow && startsFlowSign rest))
    return { tag := some tag }
  else return {}

/-- The anchor and the tag that stand here on one line. -/
def properties (flow : Bool) : Read Properties := do
  let p ← property flow
  if p.isEmpty then return p
  skipBlanks
  let q ← property flow
  skipBlanks
  match p.and? q with
  | some r => return r
  | none => refuse

/-- Gives a node its properties. -/
def dress (p : Properties) (n : Node) : Read Node := do
  let n := if p.tag.isSome then n.withTag p.tag else n
  if let some name := p.anchor then
    modify fun s => { s with anchors := (name, n) :: s.anchors }
  return n

/-- Gives a node its properties, of which an alias can have none. -/
def dressUnlessAlias (p : Properties) (n : Node) (isAlias : Bool) : Read Node :=
  if isAlias && !p.isEmpty then refuse else dress p n

end Read

end MetricWiring.Yaml
