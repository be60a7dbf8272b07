import MetricWiring.Code.StringLiteral
import MetricWiring.Yaml.Cursor

/-!
# Scalars

Words over several lines are joined: one line end reads as a blank, and of several the first is
dropped. Each reader gives the text of a scalar and what is left behind it.
-/
namespace MetricWiring.Yaml

/-- White space that was met and whose meaning depends on what follows. -/
inductive Pause where
  | none
  /-- Blanks, the last one first. -/
  | blanks (reversed : List Char)
  /-- Line ends, one more than the number. -/
  | lines (further : Nat)
  /-- A line end that was escaped, and further ones. -/
  | escaped (further : Nat)
  deriving DecidableEq, Repr

namespace Pause

def blank (c : Char) : Pause → Pause
  | none => blanks [c]
  | blanks cs => blanks (c :: cs)
  | p => p

def lineEnd : Pause → Pause
  | lines n => lines (n + 1)
  | escaped n => escaped (n + 1)
  | _ => lines 0

/-- Whether a line has ended. -/
def hasLineEnd : Pause → Bool
  | lines _ => true
  | escaped _ => true
  | _ => false

/-- What the pause stands for between two words. -/
def text : Pause → List Char
  | none => []
  | blanks cs => cs.reverse
  | lines 0 => [' ']
  | lines (n + 1) => List.replicate (n + 1) '\n'
  | escaped n => List.replicate n '\n'

end Pause

/-! ## Plain scalars -/

/-- Whether a plain scalar can begin here. -/
def startsPlain (flow : Bool) : List Char → Bool
  | [] => false
  | c :: r =>
    if c == '-' then !(r.head?.any isBlank)
    else if c == '?' || c == ':' then !flow && !endsWord r
    else !(isBlank c || c == '\n' || isFlowSign c || "#&*!|>'\"%@`".toList.contains c)

/-- Whether a plain scalar ends before the character `c`, which `r` follows. -/
def stopsPlain (d : Dialect) (flow : Bool) (bound : Nat) (pause : Pause) (column : Nat)
    (c : Char) (r : List Char) : Bool :=
  (pause != .none && c == '#') ||
  (pause.hasLineEnd && ((!flow && decide (column < bound)) ||
    (column == 0 && startsMarker (c :: r)))) ||
  (c == ':' && (endsWord r || (flow && d.bareEntries && startsFlowSign r))) ||
  (flow && isFlowSign c)

/-- The rest of a plain scalar after a pause. `behind` is what follows the words read so far. -/
def plainFrom (d : Dialect) (flow : Bool) (bound : Nat) (pause : Pause) (column : Nat)
    (behind : List Char) : List Char → Option (List Char × List Char)
  | [] => some ([], behind)
  | c :: r =>
    if c = '\n' then plainFrom d flow bound pause.lineEnd 0 behind r
    else if isBlank c then
      if c == '\t' && pause.hasLineEnd && decide (column < bound) &&
          (!d.leadingTabs || lineHasMore r) then none
      else plainFrom d flow bound (pause.blank c) (column + 1) behind r
    else if stopsPlain d flow bound pause column c r then some ([], behind)
    else if flow && c == ':' && startsFlowSign r then none
    else (plainFrom d flow bound .none (column + 1) r r).map fun v => (pause.text ++ c :: v.1, v.2)

/-- A plain scalar. Outside brackets its further lines are indented by at least `bound`. -/
def plain? (d : Dialect) (flow : Bool) (bound : Nat) (c : Cursor) :
    Option (List Char × List Char) :=
  if startsPlain flow c.rest &&
      !(flow && d.indentedBrackets && decide (c.column < bound)) then
    plainFrom d flow bound .none c.column c.rest c.rest
  else none

/-! ## Scalars in quotes -/

/-- A number of the given count of hexadecimal digits. -/
def hexNumber (value : Nat) : Nat → List Char → Option (Nat × List Char)
  | 0, r => some (value, r)
  | n + 1, c :: r =>
    match Code.hexDigit? c with
    | some d => hexNumber (value * 16 + d) n r
    | none => none
  | _ + 1, [] => none

theorem hexNumber_leaves (value n : Nat) (cs : List Char) :
    Code.Leaves (cs.length + 1) (hexNumber value n cs) := by
  fun_induction hexNumber value n cs with
  | case1 => exact .done _ (Nat.lt_succ_self _)
  | case2 value n c r d _ ih => exact ih.mono (Nat.le_succ _)
  | case3 | case4 => exact .failed

/-- The character that a single letter or sign stands for behind a backslash. -/
def escaped? : Char → Option Char
  | '0' => some '\x00'
  | 'a' => some '\x07'
  | 'b' => some '\x08'
  | 't' => some '\t'
  | '\t' => some '\t'
  | 'n' => some '\n'
  | 'v' => some '\x0b'
  | 'f' => some '\x0c'
  | 'r' => some '\r'
  | 'e' => some '\x1b'
  | ' ' => some ' '
  | '"' => some '"'
  | '/' => some '/'
  | '\\' => some '\\'
  | 'N' => some '\u0085'
  | '_' => some '\u00a0'
  | 'L' => some '\u2028'
  | 'P' => some '\u2029'
  | _ => none

/-- The number of hexadecimal digits that belong to a letter behind a backslash. -/
def digitCount? : Char → Option Nat
  | 'x' => some 2
  | 'u' => some 4
  | 'U' => some 8
  | _ => none

/-- The character that an escape stands for, given what follows the backslash. -/
def escape? : List Char → Option (Char × List Char)
  | [] => none
  | c :: r =>
    match escaped? c with
    | some c => some (c, r)
    | none => do
      let digits ← digitCount? c
      let (value, rest) ← hexNumber 0 digits r
      if value.isValidChar then return (Char.ofNat value, rest) else none

theorem escape?_leaves (cs : List Char) : Code.Leaves cs.length (escape? cs) := by
  unfold escape?
  split
  · exact .failed
  · rename_i r
    split
    · exact .done _ (Nat.lt_succ_self _)
    · refine .bindInside fun digits =>
        .bind (hexNumber_leaves 0 digits r) fun value rest hrest => ?_
      dsimp only
      split
      · exact .done _ hrest
      · exact .failed

/-- The text up to the closing double quote, after a pause. -/
def doubleQuoted (pause : Pause) : List Char → Option (List Char × List Char)
  | [] => none
  | '"' :: r => some (pause.text, r)
  | '\n' :: r => if startsMarker r then none else doubleQuoted pause.lineEnd r
  | '\\' :: '\n' :: r =>
    if startsMarker r then none
    else (doubleQuoted (.escaped 0) r).map fun v => (pause.text ++ v.1, v.2)
  | '\\' :: r =>
    match _h : escape? r with
    | some (c, rest) => (doubleQuoted .none rest).map fun v => (pause.text ++ c :: v.1, v.2)
    | none => none
  | c :: r =>
    if isBlank c then doubleQuoted (pause.blank c) r
    else (doubleQuoted .none r).map fun v => (pause.text ++ c :: v.1, v.2)
termination_by cs => cs.length
decreasing_by
  all_goals simp only [List.length_cons]
  · omega
  · omega
  · exact Nat.lt_succ_of_lt (escape?_leaves r c rest _h)
  · omega
  · omega

/-- The text up to the closing single quote, after a pause. A quote inside is written twice. -/
def singleQuoted (pause : Pause) : List Char → Option (List Char × List Char)
  | [] => none
  | '\'' :: '\'' :: r => (singleQuoted .none r).map fun v => (pause.text ++ '\'' :: v.1, v.2)
  | '\'' :: r => some (pause.text, r)
  | '\n' :: r => if startsMarker r then none else singleQuoted pause.lineEnd r
  | c :: r =>
    if isBlank c then singleQuoted (pause.blank c) r
    else (singleQuoted .none r).map fun v => (pause.text ++ c :: v.1, v.2)

/-! ## Blocks of text -/

/-- What becomes of the line ends at the end of a block. -/
inductive Chomping where
  | strip
  | clip
  | keep
  deriving DecidableEq, Repr

/-- How a block of text is to be read. -/
structure BlockHeader where
  /-- Line ends are kept and not folded. -/
  literal : Bool
  chomping : Chomping := .clip
  /-- The indentation relative to the block around, if it is given. -/
  indentation : Option Nat := none
  deriving DecidableEq, Repr

/-- The lines of a text, each with whether a line end follows it. -/
def splitLines : List Char → List (List Char × Bool)
  | [] => []
  | '\n' :: r => ([], true) :: splitLines r
  | c :: r =>
    match splitLines r with
    | (line, ended) :: more => (c :: line, ended) :: more
    | [] => [([c], false)]

/-- The indicators behind the sign of a block. -/
def BlockHeader.indicators (h : BlockHeader) : List Char → Option (BlockHeader × List Char)
  | [] => some (h, [])
  | c :: r =>
    if c == '+' || c == '-' then
      if h.chomping = .clip then
        indicators { h with chomping := if c == '+' then .keep else .strip } r
      else none
    else if c.isDigit then
      if h.indentation.isNone && c != '0' then
        indicators { h with indentation := some (c.toNat - '0'.toNat) } r
      else none
    else some (h, c :: r)

/-- What follows the line of the header, on which only a comment may stand. -/
def BlockHeader.body? (d : Dialect) (cs : List Char) : Option (List Char) :=
  let trimmed := cs.dropWhile isBlank
  let rest :=
    if trimmed.head? = some '#' && (d.gluedComments || trimmed.length < cs.length) then
      trimmed.dropWhile (· != '\n')
    else trimmed
  match rest with
  | [] => some []
  | '\n' :: r => some r
  | _ => none

/-- The indentation of the first line with text, or of a longer blank line before it. -/
def firstIndentation : List (List Char × Bool) → Option Nat
  | [] => some 0
  | (line, _) :: more =>
    let spaces := (line.takeWhile (· == ' ')).length
    match line.drop spaces with
    | [] => (firstIndentation more).map (max spaces)
    | '\t' :: _ => none
    | _ => some spaces

/-- The lines of a block without their indentation, and whether the last one ends. Blank lines are
empty. -/
def blockLines (indentation : Nat) : List (List Char × Bool) → Option (List (List Char × Bool))
  | [] => some []
  | (line, ended) :: more =>
    let spaces := min indentation (line.takeWhile (· == ' ')).length
    match line.drop spaces with
    | [] => (blockLines indentation more).map (([], ended) :: ·)
    | c :: r =>
      if spaces = indentation then (blockLines indentation more).map ((c :: r, ended) :: ·)
      else if c = '\t' then none
      else some []

/-- Whether a line begins with a blank, so that it is not folded. -/
def startsBlank : List Char → Bool
  | [] => false
  | c :: _ => isBlank c

/-- The text of the lines of a block after the line `before`, with `blanks` blank lines between;
and the number of blank lines at its end. -/
def joinLines (literal : Bool) (before : Option (List Char)) (blanks : Nat) :
    List (List Char) → List Char × Nat
  | [] => ([], blanks)
  | [] :: more => joinLines literal before (blanks + 1) more
  | line :: more =>
    let separator :=
      match before with
      | none => List.replicate blanks '\n'
      | some previous =>
        if literal || startsBlank previous || startsBlank line then
          List.replicate (blanks + 1) '\n'
        else if blanks = 0 then [' ']
        else List.replicate blanks '\n'
    let (text, last) := joinLines literal (some line) 0 more
    (separator ++ line ++ text, last)

/-- Whether the last line with text ends. -/
def lastEnds (lines : List (List Char × Bool)) : Bool :=
  ((lines.filter fun line => !line.1.isEmpty).getLast?.map Prod.snd).getD false

/-- How many characters the lines take up in the text, their ends included. -/
def linesLength (lines : List (List Char × Bool)) : Nat :=
  lines.foldr (fun line n => line.1.length + line.2.toNat + n) 0

/-- A block of text, from its sign on, inside a block whose content is indented by `bound`. -/
def blockText? (d : Dialect) (bound : Nat) (cs : List Char) : Option (List Char × List Char) := do
  let (header, rest) ← BlockHeader.indicators { literal := cs.head? == some '|' } (cs.drop 1)
  let body ← BlockHeader.body? d rest
  let lines := splitLines body
  let indentation ←
    match header.indentation with
    | some n => some (bound - 1 + n)
    | none => (firstIndentation lines).map fun n => max n (max bound 1)
  let own ← blockLines indentation lines
  let (text, blanks) := joinLines header.literal none 0
    ((own.filter fun line => line.2 || !line.1.isEmpty).map Prod.fst)
  let closing :=
    if text.isEmpty || header.chomping = .strip then []
    else if lastEnds own || d.closedBlocks then ['\n']
    else []
  let trailing := if header.chomping = .keep then List.replicate blanks '\n' else []
  return (text ++ closing ++ trailing,
    body.drop (body.length - linesLength (lines.drop own.length)))

end MetricWiring.Yaml
