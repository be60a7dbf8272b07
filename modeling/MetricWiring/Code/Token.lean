/-!
# Tokens and token trees

Source text is read as a list of tokens, and then as trees in which every bracket has its partner.
Of a string literal the value is kept; the other literals are only told apart from it.
-/
namespace MetricWiring.Code

inductive Delimiter where
  | parenthesis
  | bracket
  | brace
  deriving DecidableEq, Repr

namespace Delimiter

def opening : Delimiter → Char
  | parenthesis => '('
  | bracket => '['
  | brace => '\x7b'

def closing : Delimiter → Char
  | parenthesis => ')'
  | bracket => ']'
  | brace => '\x7d'

def all : List Delimiter := [parenthesis, bracket, brace]

end Delimiter

/-- An identifier. A raw one is written behind `r#` and is never a keyword. -/
structure Ident where
  name : String
  raw : Bool := false
  deriving DecidableEq, Repr

/-- The words that are no names unless they are written raw. -/
def reservedWords : List String :=
  ["_", "abstract", "as", "async", "await", "become", "box", "break", "const", "continue",
    "crate", "do", "dyn", "else", "enum", "extern", "false", "final", "fn", "for", "if", "impl",
    "in", "let", "loop", "macro", "match", "mod", "move", "mut", "override", "priv", "pub", "ref",
    "return", "Self", "self", "static", "struct", "super", "trait", "true", "try", "type",
    "typeof", "unsafe", "unsized", "use", "virtual", "where", "while", "yield"]

namespace Ident

def written (i : Ident) : String := if i.raw then "r#" ++ i.name else i.name

/-- Whether this is the given word, not raw. -/
def isWord (i : Ident) (word : String) : Bool := !i.raw && i.name == word

/-- Whether the identifier can be a name. -/
def isName (i : Ident) : Bool := i.raw || !reservedWords.contains i.name

@[simp] theorem isWord_iff {i : Ident} {word : String} :
    i.isWord word = true ↔ i = ⟨word, false⟩ := by
  rcases i with ⟨name, raw⟩
  cases raw <;> simp [isWord]

end Ident

inductive Literal where
  | string (value written : String)
  | other (written : String)
  deriving DecidableEq, Repr

def Literal.written : Literal → String
  | string _ written => written
  | other written => written

inductive Token where
  | ident (i : Ident)
  /-- A sign; it is joint if another sign follows at once. -/
  | punct (c : Char) (joint : Bool)
  | literal (l : Literal)
  | opening (d : Delimiter)
  | closing (d : Delimiter)
  deriving DecidableEq, Repr

inductive TokenTree where
  | ident (i : Ident)
  | punct (c : Char) (joint : Bool)
  | literal (l : Literal)
  | group (d : Delimiter) (content : List TokenTree)
  deriving Repr

namespace TokenTree

/-- Puts the tokens of `ts` behind the trees `done`, which stand in reverse order inside the open
groups `outer`. Each open group keeps the trees before it, in reverse order too. -/
def assemble (outer : List (Delimiter × List TokenTree)) (done : List TokenTree) :
    List Token → Option (List TokenTree)
  | [] => if outer.isEmpty then some done.reverse else none
  | .ident i :: ts => assemble outer (.ident i :: done) ts
  | .punct c joint :: ts => assemble outer (.punct c joint :: done) ts
  | .literal l :: ts => assemble outer (.literal l :: done) ts
  | .opening d :: ts => assemble ((d, done) :: outer) [] ts
  | .closing d :: ts =>
    match outer with
    | [] => none
    | (e, before) :: outer =>
      if d = e then assemble outer (.group d done.reverse :: before) ts else none

/-- The trees that tokens form, if all brackets match. -/
def ofTokens? (ts : List Token) : Option (List TokenTree) := assemble [] [] ts

mutual

def tokens : TokenTree → List Token
  | .ident i => [.ident i]
  | .punct c joint => [.punct c joint]
  | .literal l => [.literal l]
  | .group d content => .opening d :: (tokensOfList content ++ [.closing d])

/-- The tokens of trees that follow each other. -/
def tokensOfList : List TokenTree → List Token
  | [] => []
  | t :: ts => tokens t ++ tokensOfList ts

end

end TokenTree

namespace Token

def written : Token → String
  | .ident i => i.written
  | .punct c _ => c.toString
  | .literal l => l.written
  | .opening d => d.opening.toString
  | .closing d => d.closing.toString

end Token

/-- The text of token trees, without any spaces. -/
def compactText (ts : List TokenTree) : String :=
  let written := (TokenTree.tokensOfList ts).map Token.written
  .ofList ((String.join written).toList.filter (· != ' '))

end MetricWiring.Code
