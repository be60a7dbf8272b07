import MetricWiring.Code.Reader

/-!
# Types in source text

The grammar of types, as far as it decides where a type ends and whether it is a path. Types nest
without brackets around them, so the readers carry a bound on the depth of the nesting; no type is
nested deeper than its tokens allow, and `typeSyntax` starts with that bound.
-/
namespace MetricWiring.Code

/-- What the readers of types remember of a path. -/
structure PathShape where
  /-- The path begins with a type in angle brackets. -/
  qualified : Bool := false
  /-- The path begins with a double colon. -/
  rooted : Bool := false
  segments : Nat := 0
  /-- The last segment, without its arguments. -/
  last : Ident
  /-- Some segment has arguments. -/
  hasArguments : Bool := false
  /-- The last segment has arguments. -/
  lastHasArguments : Bool := false
  /-- The last segment has arguments in parentheses. -/
  lastIsCall : Bool := false
  deriving Repr

inductive TypeShape where
  | path (p : PathShape)
  | other
  deriving Repr

/-- Passes over an optional ABI. -/
def skipAbi (ts : List TokenTree) : List TokenTree :=
  if atWord "extern" ts then
    match ts.drop 1 with
    | .literal (.string ..) :: rest => rest
    | rest => rest
  else ts

/-- What stands behind the name of an argument of a function type, if it has one. -/
def dropArgumentName (ts : List TokenTree) : List TokenTree :=
  match ts with
  | .ident i :: .punct ':' joint :: rest =>
    if (i.isName || i.isWord "_" || i.isWord "self") && !(joint && atSign ':' rest) then rest
    else ts
  | ts => ts

mutual

/-- A type. With `plus`, bounds joined by plus signs belong to it. -/
def readType : Nat → Bool → Reader TypeShape
  | 0, _, _ => none
  | n + 1, plus, ts =>
    if atWord "for" ts then do
      let (_, ts) ← boundLifetimes n ts
      if atWord "fn" ts || atWord "unsafe" ts || atWord "extern" ts then functionType n ts
      else if atName ts || atWord "super" ts || atWord "self" ts || atWord "Self" ts ||
          atWord "crate" ts then do
        let (p, ts) ← typePath n ts
        pathType n plus true p ts
      else none
    else if atGroup .parenthesis ts then parenthesized n plus ts
    else if atWord "fn" ts || atWord "unsafe" ts || atWord "extern" ts then functionType n ts
    else if atName ts || atWord "super" ts || atWord "self" ts || atWord "Self" ts ||
        atWord "crate" ts || atSigns ':' ':' ts || atSign '<' ts then do
      let (p, ts) ← typePath n ts
      pathType n plus false p ts
    else if atWord "dyn" ts then do
      let (_, ts) ← word "dyn" ts
      let (_, ts) ← bounds n plus (skipSign '*' ts)
      return (.other, ts)
    else if atGroup .bracket ts then do
      let (content, ts) ← group .bracket ts
      let (_, rest) ← readType n true content
      match rest with
      | [] => return (.other, ts)
      | .punct ';' _ :: _ :: _ => return (.other, ts)
      | _ => none
    else if atSign '*' ts then do
      let (_, ts) ← sign '*' ts
      if atWord "const" ts || atWord "mut" ts then
        let (_, ts) ← readType n false (ts.drop 1)
        return (.other, ts)
      else none
    else if atSign '&' ts then do
      let (_, ts) ← sign '&' ts
      let ts := if atLifetime ts then ts.drop 2 else ts
      let (_, ts) ← readType n false (skipWord "mut" ts)
      return (.other, ts)
    else if atSign '!' ts && !atSigns '!' '=' ts then return (.other, ts.drop 1)
    else if atWord "impl" ts then do
      let (_, ts) ← word "impl" ts
      let (_, ts) ← bounds n plus ts
      return (.other, ts)
    else if atWord "_" ts then return (.other, ts.drop 1)
    else if atLifetime ts then do
      let (_, ts) ← bounds n plus ts
      return (.other, ts)
    else none

/-- What may follow a path that is read as a type: the arguments of a macro, or further bounds. -/
def pathType : Nat → Bool → Bool → PathShape → Reader TypeShape
  | 0, _, _, _, _ => none
  | n + 1, plus, quantified, p, ts =>
    if p.qualified then some (.path p, ts)
    else if atSign '!' ts && !atSigns '!' '=' ts && !p.hasArguments then
      match ts with
      | _ :: .group _ _ :: rest => some (.other, rest)
      | _ => none
    else if plus && atSign '+' ts then do
      let (_, ts) ← furtherBounds n ts
      return (.other, ts)
    else if quantified then some (.other, ts)
    else some (.path p, ts)

/-- A type in parentheses, or a tuple. -/
def parenthesized : Nat → Bool → Reader TypeShape
  | 0, _, _ => none
  | n + 1, plus, ts => do
    let (content, ts) ← group .parenthesis ts
    if content.isEmpty then return (.other, ts)
    else if atLifetime content then
      let (_, rest) ← bounds n true content
      if rest.isEmpty then return (.other, ts) else none
    else if atSign '?' content then
      let (_, rest) ← bound n content
      if rest.isEmpty then
        let (_, ts) ← furtherBounds n ts
        return (.other, ts)
      else none
    else
      let (first, rest) ← readType n true content
      if atSign ',' rest then
        let _ ← whole (typeList n) (rest.drop 1)
        return (.other, ts)
      else if rest.isEmpty then
        match first with
        | .path p =>
          if plus && !p.qualified && atSign '+' ts then
            let (_, ts) ← furtherBounds n ts
            return (.other, ts)
          else return (.other, ts)
        | .other => return (.other, ts)
      else none

/-- Types separated by commas, to the end of the list. -/
def typeList : Nat → Reader Unit
  | 0, _ => none
  | n + 1, ts =>
    if ts.isEmpty then some ((), []) else do
      let (_, rest) ← readType n true ts
      if rest.isEmpty then return ((), [])
      else
        let (_, rest) ← sign ',' rest
        typeList n rest

/-- A function type, from its qualifiers on. -/
def functionType : Nat → Reader TypeShape
  | 0, _ => none
  | n + 1, ts => do
    let (_, ts) ← word "fn" (skipAbi (skipWord "unsafe" ts))
    let (content, ts) ← group .parenthesis ts
    let _ ← whole (functionArguments n) content
    let (_, ts) ← output n false ts
    return (.other, ts)

/-- The arguments of a function type, each of which may have a name. -/
def functionArguments : Nat → Reader Unit
  | 0, _ => none
  | n + 1, ts =>
    if ts.isEmpty then some ((), [])
    else if atDots (dropArgumentName ts) then
      if (skipSign ',' ((dropArgumentName ts).drop 3)).isEmpty then some ((), []) else none
    else do
      let (_, rest) ← readType n true (dropArgumentName ts)
      if rest.isEmpty then return ((), [])
      else
        let (_, rest) ← sign ',' rest
        functionArguments n rest

/-- An optional result type behind an arrow: whether there is one in parentheses or none. -/
def output : Nat → Bool → Reader Bool
  | 0, _, _ => none
  | n + 1, plus, ts =>
    if atSigns '-' '>' ts then do
      let inParentheses := atGroup .parenthesis (ts.drop 2)
      let (_, ts) ← readType n plus (ts.drop 2)
      return (inParentheses, ts)
    else some (true, ts)

/-- A path as it stands in a type, with arguments in angle brackets or parentheses. -/
def typePath : Nat → Reader PathShape
  | 0, _ => none
  | n + 1, ts =>
    if atSign '<' ts then do
      let (_, ts) ← sign '<' ts
      let (_, ts) ← readType n true ts
      let ts ← if atWord "as" ts then (path n (ts.drop 1)).map Prod.snd else some ts
      let (_, ts) ← sign '>' ts
      let (_, ts) ← signs ':' ':' ts
      let (p, ts) ← segment n { last := ⟨"", false⟩, qualified := true } ts
      let (p, ts) ← furtherSegments n p ts
      calls n p ts
    else do
      let (p, ts) ← path n ts
      calls n p ts

/-- Arguments in parentheses, as in the type of a function trait. -/
def calls : Nat → PathShape → Reader PathShape
  | 0, _, _ => none
  | n + 1, p, ts =>
    if p.lastHasArguments then some (p, ts)
    else
      let inner := skipSigns ':' ':' ts
      match inner with
      | .group .parenthesis content :: rest => do
        let _ ← whole (typeList n) content
        let (continues, rest) ← output n false rest
        let p := { p with hasArguments := true, lastHasArguments := true, lastIsCall := true }
        if continues then
          let (p, rest) ← furtherSegments n p rest
          calls n p rest
        else return (p, rest)
      | _ => some (p, ts)

/-- A path whose arguments stand in angle brackets. -/
def path : Nat → Reader PathShape
  | 0, _ => none
  | n + 1, ts => do
    let start : PathShape := { last := ⟨"", false⟩, rooted := atSigns ':' ':' ts }
    let (p, ts) ← segment n start (skipSigns ':' ':' ts)
    furtherSegments n p ts

/-- The segments behind double colons. -/
def furtherSegments : Nat → PathShape → Reader PathShape
  | 0, _, _ => none
  | n + 1, p, ts =>
    if atSigns ':' ':' ts && !atGroup .parenthesis (ts.drop 2) then do
      let (p, ts) ← segment n p (ts.drop 2)
      furtherSegments n p ts
    else some (p, ts)

def segment : Nat → PathShape → Reader PathShape
  | 0, _, _ => none
  | n + 1, p, ts => do
    let (i, ts) ← ident ts
    let p := { p with
      segments := p.segments + 1, last := i, lastHasArguments := false, lastIsCall := false }
    if i.isWord "super" || i.isWord "self" || i.isWord "crate" || i.isWord "try" then
      return (p, ts)
    else if i.isWord "Self" || i.isName then
      let direct := atSign '<' ts && !atSigns '<' '=' ts
      if direct || (atSigns ':' ':' ts && atSign '<' (ts.drop 2)) then
        let ts := if direct then ts else ts.drop 2
        let (_, ts) ← genericArguments n (ts.drop 1)
        return ({ p with hasArguments := true, lastHasArguments := true }, ts)
      else return (p, ts)
    else none

/-- Arguments up to the closing angle bracket. -/
def genericArguments : Nat → Reader Unit
  | 0, _ => none
  | n + 1, ts =>
    if atSign '>' ts then some ((), ts.drop 1) else do
      let (_, ts) ← genericArgument n ts
      if atSign '>' ts then return ((), ts.drop 1)
      else
        let (_, ts) ← sign ',' ts
        genericArguments n ts

def genericArgument : Nat → Reader Unit
  | 0, _ => none
  | n + 1, ts =>
    if atLifetime ts && !atSign '+' (ts.drop 2) then some ((), ts.drop 2)
    else if atLiteral ts then literal ts
    else if atGroup .brace ts then some ((), ts.drop 1)
    else do
      let (shape, rest) ← readType n true ts
      match shape with
      | .path p =>
        if p.qualified || p.rooted || p.segments != 1 || p.lastIsCall then return ((), rest)
        else if atSign '=' rest then
          let rest := rest.drop 1
          if atLiteral rest then literal rest
          else if atGroup .brace rest then return ((), rest.drop 1)
          else
            let (_, rest) ← readType n true rest
            return ((), rest)
        else if atSign ':' rest then boundList n [',', '>'] (rest.drop 1)
        else return ((), rest)
      | .other => return ((), rest)

/-- At least one bound. With `plus`, further ones follow behind plus signs. -/
def bounds : Nat → Bool → Reader Unit
  | 0, _, _ => none
  | n + 1, plus, ts => do
    let (_, ts) ← bound n ts
    if plus && atSign '+' ts then furtherBounds n ts else return ((), ts)

/-- Bounds, each behind a plus sign. The last plus sign may stand alone. -/
def furtherBounds : Nat → Reader Unit
  | 0, _ => none
  | n + 1, ts =>
    if atSign '+' ts then
      let rest := ts.drop 1
      if atIdent rest || atSigns ':' ':' rest || atSign '?' rest || atLifetime rest ||
          atGroup .parenthesis rest || atSign '~' rest then do
        let (_, rest) ← bound n rest
        furtherBounds n rest
      else some ((), rest)
    else some ((), ts)

def bound : Nat → Reader Unit
  | 0, _ => none
  | n + 1, ts =>
    if atLifetime ts then lifetime ts
    else if atGroup .parenthesis ts then do
      let (content, ts) ← group .parenthesis ts
      let _ ← whole (traitBound n) content
      return ((), ts)
    else traitBound n ts

/-- A trait with its modifiers and its arguments. -/
def traitBound : Nat → Reader Unit
  | 0, _ => none
  | n + 1, ts => do
    let ts := if atSign '~' ts && atWord "const" (ts.drop 1) then ts.drop 2 else skipSign '?' ts
    let ts ← if atWord "for" ts then (boundLifetimes n ts).map Prod.snd else some ts
    let (p, ts) ← path n ts
    let (_, ts) ← calls n p ts
    return ((), ts)

/-- Bounds joined by plus signs, up to one of the given signs or the end. -/
def boundList : Nat → List Char → Reader Unit
  | 0, _, _ => none
  | n + 1, stops, ts =>
    if ts.isEmpty || stops.any (fun c => atSign c ts) || atGroup .brace ts then some ((), ts)
    else do
      let (_, ts) ← bound n ts
      if atSign '+' ts then boundList n stops (ts.drop 1) else return ((), ts)

/-- The lifetimes that a type is quantified over. -/
def boundLifetimes : Nat → Reader Unit
  | 0, _ => none
  | n + 1, ts => do
    let (_, ts) ← word "for" ts
    let (_, ts) ← sign '<' ts
    lifetimeList n ts

/-- Lifetimes with their bounds, up to the closing angle bracket. -/
def lifetimeList : Nat → Reader Unit
  | 0, _ => none
  | n + 1, ts =>
    if atSign '>' ts then some ((), ts.drop 1) else do
      let (_, ts) ← lifetime ts
      let ts ← if atSign ':' ts then (boundList n [',', '>'] (ts.drop 1)).map Prod.snd else some ts
      if atSign '>' ts then return ((), ts.drop 1)
      else
        let (_, ts) ← sign ',' ts
        lifetimeList n ts

end

mutual

/-- The number of trees, those inside groups included. -/
def treeCount : TokenTree → Nat
  | .group _ content => treeCountOfList content + 1
  | _ => 1

def treeCountOfList : List TokenTree → Nat
  | [] => 0
  | t :: ts => treeCount t + treeCountOfList ts

end

/-- A bound on how deep readers can call each other on the given trees. -/
def nesting (ts : List TokenTree) : Nat := 12 * treeCountOfList ts + 12

/-- A type as written. -/
structure TypeSyntax where
  tokens : List TokenTree
  shape : TypeShape
  deriving Repr

namespace TypeSyntax

/-- The last segment of the path, if the type is one. -/
def lastSegment (t : TypeSyntax) : Option Ident :=
  match t.shape with
  | .path p => some p.last
  | .other => none

/-- Whether the type is a path that does not begin with a type in angle brackets. -/
def isPlainPath (t : TypeSyntax) : Bool :=
  match t.shape with
  | .path p => !p.qualified
  | .other => false

/-- The text of a type without spaces. -/
def text (t : TypeSyntax) : String := compactText t.tokens

end TypeSyntax

/-- Takes a type. -/
def typeSyntax : Reader TypeSyntax := fun ts =>
  (readType (nesting ts) true ts).map fun v => (⟨taken ts v.2, v.1⟩, v.2)

end MetricWiring.Code
