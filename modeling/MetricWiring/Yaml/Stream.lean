import MetricWiring.Yaml.Block

/-!
# Documents in a text

A text holds documents, each with directives before it and signs that end or begin it. Here a text
may hold one document at most.
-/
namespace MetricWiring.Yaml

/-- The text with every line end written as a line feed. -/
def unifyLineEnds : List Char → List Char
  | [] => []
  | '\r' :: '\n' :: r => '\n' :: unifyLineEnds r
  | '\r' :: r => '\n' :: unifyLineEnds r
  | c :: r => c :: unifyLineEnds r

/-- Whether a character may stand in a text of printable characters. -/
def isPrintable (c : Char) : Bool :=
  c == '\t' || c == '\n' || c == '\r' || c == '\u0085' ||
    (decide (0x20 ≤ c.toNat) && decide (c.toNat ≤ 0x7E)) ||
    (decide (0xA0 ≤ c.toNat) && c.toNat != 0xFEFF && c.toNat != 0xFFFE && c.toNat != 0xFFFF)

/-- The text without a byte order mark at its beginning. -/
def dropByteOrderMark : List Char → List Char
  | [] => []
  | c :: r => if c = '\ufeff' then r else c :: r

/-! ## Directives -/

/-- What the directives before a document say. -/
structure Directives where
  present : Bool := false
  versioned : Bool := false
  handles : List (String × String) := []
  deriving Repr

namespace Directives

/-- The handles of tags, with those that need no directive. -/
def allHandles (s : Directives) : List (String × String) :=
  s.handles ++ [("!", "!"), ("!!", "tag:yaml.org,2002:")]

/-- Whether a word is a version of the language: two numbers with a dot between. -/
def isVersion (word : List Char) : Bool :=
  let major := word.takeWhile Char.isDigit
  match word.dropWhile Char.isDigit with
  | '.' :: minor => !major.isEmpty && !minor.isEmpty && minor.all Char.isDigit
  | _ => false

/-- Whether a word can be the handle of a tag. -/
def isHandle (word : List Char) : Bool :=
  match word with
  | ['!'] => true
  | '!' :: r => r.getLast? == some '!' && r.dropLast.all Read.isNameSign
  | _ => false

/-- The words of a line up to a comment. -/
def lineWords (line : List Char) : List (List Char) :=
  let words := (line.splitBy fun a b => isBlank a == isBlank b).filter fun word =>
    !word.all isBlank
  words.takeWhile fun word => word.head? != some '#'

/-- Takes in a line that begins with a percent sign. -/
def add? (d : Dialect) (s : Directives) (line : List Char) : Option Directives :=
  match lineWords (line.drop 1) with
  | name :: arguments =>
    if name = "YAML".toList then
      match arguments with
      | [version] =>
        if isVersion version && !s.versioned && (d.freeDirectives ||
            version = ['1', '.', '1'] || version = ['1', '.', '2']) then
          some { s with present := true, versioned := true }
        else none
      | _ => none
    else if name = "TAG".toList then
      match arguments with
      | [handle, replacement] =>
        if isHandle handle && (s.handles.lookup (.ofList handle)).isNone then
          some { s with
            present := true
            handles := (.ofList handle, .ofList replacement) :: s.handles }
        else none
      | _ => none
    else if d.freeDirectives then some { s with present := true }
    else none
  | [] => none

end Directives

/-- The directives from a position on, and the position of the first token behind them. -/
def readDirectives (d : Dialect) : Nat → Directives → Cursor → Option (Directives × Cursor)
  | 0, s, c => some (s, c)
  | n + 1, s, c =>
    if c.sees '%' && c.column == 0 then do
      let s ← s.add? d (c.rest.takeWhile (· != '\n'))
      readDirectives d n s (← (c.reach (c.rest.dropWhile (· != '\n'))).gap? d false true)
    else some (s, c)

/-! ## The document -/

/-- The position of the first token behind the signs that end a document. -/
def skipEnds (d : Dialect) : Nat → Cursor → Option Cursor
  | 0, c => some c
  | n + 1, c => do
    let c ← c.gap? d false false
    if c.atMarker && c.sees '.' then skipEnds d n (c.advance 3) else some c

/-- The document of a text, if it holds one. No answer is given for a text with a defect or with
more than one document. -/
def soleDocument? (d : Dialect) (text : String) : Option (Option Node) := do
  let cs := dropByteOrderMark text.toList
  if d.printableOnly && !cs.all isPrintable then none
  let start : Cursor := ⟨unifyLineEnds cs, 0, 0⟩
  let first ← start.gap? d false true
  let first ← if d.idleEnds then skipEnds d cs.length first else some first
  let (directives, first) ← readDirectives d cs.length {} first
  if first.atEnd then
    if directives.present then none else some none
  else
    let explicit := first.atMarker && first.sees '-'
    if !explicit && (first.atMarker || directives.present) then none
    let (root, last) ← Node.read? ⟨d, directives.allHandles⟩ (!explicit)
      (if explicit then first.advance 3 else first)
    let last ← skipEnds d cs.length last
    if last.atEnd then some (some root) else none

end MetricWiring.Yaml
