import MetricWiring.Yaml.Dialect

/-!
# Positions in a text

Indentation carries meaning in YAML, so a position knows its line and column. Line ends are line
feeds here; other forms of them are replaced before reading begins.
-/
namespace MetricWiring.Yaml

def isBlank (c : Char) : Bool := c == ' ' || c == '\t'

/-- The characters that have a meaning of their own inside brackets. -/
def isFlowSign (c : Char) : Bool :=
  c == ',' || c == '[' || c == ']' || c == '\x7b' || c == '\x7d'

/-- Whether a word that is read up to here ends. -/
def endsWord : List Char → Bool
  | [] => true
  | c :: _ => isBlank c || c == '\n'

def startsFlowSign : List Char → Bool
  | [] => false
  | c :: _ => isFlowSign c

/-- Whether a line begins with the sign that ends a document or begins one. -/
def startsMarker : List Char → Bool
  | '-' :: '-' :: '-' :: r => endsWord r
  | '.' :: '.' :: '.' :: r => endsWord r
  | _ => false

/-- Whether the rest of the line holds more than blanks. -/
def lineHasMore : List Char → Bool
  | [] => false
  | c :: r => c != '\n' && (!isBlank c || lineHasMore r)

structure Cursor where
  rest : List Char
  column : Nat := 0
  line : Nat := 0
  deriving Repr, Inhabited

namespace Cursor

def atEnd (c : Cursor) : Bool := c.rest.isEmpty

/-- Whether the next character is the given one. -/
def sees (c : Cursor) (sign : Char) : Bool := c.rest.head? == some sign

/-- Whether the given sign stands here as a word of its own. -/
def seesSign (c : Cursor) (sign : Char) : Bool := c.sees sign && endsWord (c.rest.drop 1)

/-- Whether a document ends or begins here. -/
def atMarker (c : Cursor) : Bool := c.column == 0 && startsMarker c.rest

/-- The position behind the next characters. -/
def advance : Nat → Cursor → Cursor
  | 0, c => c
  | n + 1, c =>
    match c.rest with
    | [] => c
    | '\n' :: r => advance n ⟨r, 0, c.line + 1⟩
    | _ :: r => advance n ⟨r, c.column + 1, c.line⟩

/-- The position at which the given part of the text is left. -/
def reach (c : Cursor) (rest : List Char) : Cursor := c.advance (c.rest.length - rest.length)

/-- The position behind the blanks that stand here. -/
def skipBlanks (c : Cursor) : Cursor := c.reach (c.rest.dropWhile isBlank)

/-- The position of the next token: blanks, line ends and comments are skipped. `tabs` says whether
tabs are blanks on this line, and `lead` whether they are on later ones. -/
def nextToken (lead tabs comment : Bool) (column line : Nat) : List Char → Cursor
  | [] => ⟨[], column, line⟩
  | c :: r =>
    if c = '\n' then nextToken lead lead false 0 (line + 1) r
    else if comment || c == '#' then nextToken lead tabs true (column + 1) line r
    else if c == ' ' || (tabs && c == '\t') then nextToken lead tabs false (column + 1) line r
    else ⟨c :: r, column, line⟩

/-- The position of the next token, unless a comment stands too close. Tabs are blanks inside
brackets (`flow`) and where no key can begin. -/
def gap? (d : Dialect) (flow keys : Bool) (c : Cursor) : Option Cursor :=
  if !d.gluedComments && c.sees '#' && c.column != 0 then none
  else
    let lead := flow || d.leadingTabs
    some (nextToken lead (lead || (!keys && c.column != 0)) false c.column c.line c.rest)

end Cursor

end MetricWiring.Yaml
