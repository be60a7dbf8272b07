import MetricWiring.Code.Reader

/-!
# Attributes

An attribute has a path of plain segments and a form: nothing more, a list in brackets, or a value.
Those before an item stand in a row, and so do those at the beginning of a block.
-/
namespace MetricWiring.Code

/-- A path of plain segments. -/
structure PlainPath where
  /-- The path begins with a double colon. -/
  rooted : Bool
  segments : List Ident
  deriving DecidableEq, Repr

namespace PlainPath

def text (p : PlainPath) : String :=
  (if p.rooted then "::" else "") ++ "::".intercalate (p.segments.map Ident.written)

end PlainPath

/-- What stands in an attribute behind its path. -/
inductive AttributeForm where
  | bare
  | list (d : Delimiter) (content : List TokenTree)
  /-- An equals sign with what follows it. -/
  | value (written : List TokenTree)
  deriving Repr

structure Attribute where
  path : PlainPath
  form : AttributeForm
  /-- The attribute stands inside the braces of what it concerns. -/
  inner : Bool := false
  deriving Repr

/-- Segments joined by double colons, at least one. -/
def plainSegments : Reader (List Ident)
  | .ident i :: .punct ':' true :: .punct ':' _ :: rest =>
    if canBeSegment i then (plainSegments rest).map fun v => (i :: v.1, v.2) else none
  | .ident i :: rest => if canBeSegment i then some ([i], rest) else none
  | _ => none
where
  canBeSegment (i : Ident) : Bool :=
    i.isName || i.isWord "super" || i.isWord "self" || i.isWord "Self" || i.isWord "crate"

theorem plainSegments_progresses : Progresses plainSegments := by
  intro ts
  fun_induction plainSegments ts with
  | case1 i joint rest hi ih => exact (ih.map _).mono (Nat.le_add_right _ 3)
  | case3 i rest => exact .done _ (Nat.lt_succ_self _)
  | case2 | case4 | case5 => exact .failed

def plainPath : Reader PlainPath := fun ts =>
  (plainSegments (skipSigns ':' ':' ts)).map fun v => (⟨atSigns ':' ':' ts, v.1⟩, v.2)

theorem plainPath_progresses : Progresses plainPath := by
  intro ts
  have hskip := (skipSigns_suffix ':' ':' ts).length_le
  exact ((plainSegments_progresses _).map _).mono hskip

/-- The path of an attribute, which may be the word `unsafe`. -/
def attributePath : Reader PlainPath
  | .ident ⟨"unsafe", false⟩ :: rest => some (⟨false, [⟨"unsafe", false⟩]⟩, rest)
  | ts => plainPath ts

/-- An attribute, given what stands in its brackets. -/
def Attribute.ofContent? (ts : List TokenTree) : Option Attribute := do
  let (path, rest) ← attributePath ts
  match rest with
  | [] => return { path, form := .bare }
  | [.group d content] => return { path, form := .list d content }
  | .punct '=' joint :: value =>
    if value.isEmpty || (joint && (atSign '=' value || atSign '>' value)) ||
        (atSign '#' value && atGroup .bracket (value.drop 1)) then none
    else return { path, form := .value value }
  | _ => none

/-- The attributes before an item. -/
def outerAttributes : Reader (List Attribute)
  | .punct '#' _ :: .group .bracket content :: rest => do
    let a ← Attribute.ofContent? content
    let (as, rest) ← outerAttributes rest
    return (a :: as, rest)
  | .punct '#' _ :: _ => none
  | ts => some ([], ts)

theorem outerAttributes_leaves (ts : List TokenTree) :
    Leaves (ts.length + 1) (outerAttributes ts) := by
  fun_induction outerAttributes ts with
  | case1 joint content rest ih =>
    refine .bindInside fun a => .bind ih fun as left hleft => .done _ ?_
    simp only [List.length_cons]
    omega
  | case2 => exact .failed
  | case3 => exact .done _ (Nat.lt_succ_self _)

/-- The attributes at the beginning of a block, which concern the item around it. -/
def innerAttributes : Reader (List Attribute)
  | .punct '#' _ :: .punct '!' _ :: .group .bracket content :: rest => do
    let a ← Attribute.ofContent? content
    let (as, rest) ← innerAttributes rest
    return ({ a with inner := true } :: as, rest)
  | .punct '#' _ :: .punct '!' _ :: _ => none
  | ts => some ([], ts)

end MetricWiring.Code
