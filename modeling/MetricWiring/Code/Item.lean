import MetricWiring.Code.Generics

/-!
# Methods and implementation blocks

The grammar of what attributes are put on. Of a method the attributes, the name and the number of
its parameters are known; the rest of it is kept as written, and so are the header of a block and
all its items that are no functions. Bodies and initial values are only looked at as far as their
brackets.
-/
namespace MetricWiring.Code

/-- The trees behind an optional sign of reference with its lifetime. -/
def skipReference (ts : List TokenTree) : List TokenTree :=
  if atSign '&' ts then if atLifetime (ts.drop 1) then ts.drop 3 else ts.drop 1 else ts

theorem skipReference_suffix (ts : List TokenTree) : skipReference ts <:+ ts :=
  suffix_ite (suffix_ite (List.drop_suffix 3 ts) (List.drop_suffix 1 ts)) List.suffix_rfl

/-- A parameter that stands for the instance: `self`, maybe by reference, or with a type. -/
def receiver? : Reader Unit := fun ts => do
  let byReference := atSign '&' ts
  let (_, ts) ← word "self" (skipWord "mut" (skipReference ts))
  if !byReference && atSign ':' ts then
    let (_, ts) ← typeSyntax (ts.drop 1)
    return ((), ts)
  else return ((), ts)

theorem receiver?_leaves (ts : List TokenTree) : Leaves (ts.length + 1) (receiver? ts) := by
  have hstart := ((skipWord_suffix "mut" _).trans (skipReference_suffix ts)).length_le
  refine .bind ((word_takesFront "self").progresses _) fun _ rest hrest => ?_
  refine .ite (fun _ => ?_) fun _ => .done _ (by omega)
  have htype := (typeSyntax_lasts.leaves _).within (List.drop_suffix 1 rest)
  exact .bind htype fun _ left hleft => .done _ (by omega)

/-- A pattern: what stands before the colon of a parameter. -/
def dropPattern : List TokenTree → Option (List TokenTree)
  | .punct ':' true :: .punct ':' _ :: rest => dropPattern rest
  | .punct ':' _ :: rest => some rest
  | .punct ',' _ :: _ => none
  | _ :: rest => dropPattern rest
  | [] => none

theorem dropPattern_suffix {ts rest : List TokenTree} (h : dropPattern ts = some rest) :
    rest <:+ ts := by
  fun_induction dropPattern ts with
  | case1 _ tail ih => exact (ih h).trans (List.suffix_append [_, _] tail)
  | case2 _ tail =>
    cases h
    exact List.suffix_cons _ _
  | case3 | case5 => cases h
  | case4 _ tail _ _ _ ih => exact (ih h).trans (List.suffix_cons _ _)

/-- One parameter other than the receiver. None is given for the dots of a variadic function. -/
def parameter : Reader (Option Unit) := fun ts =>
  if atName ts && atSign '<' (ts.drop 1) then
    (typeSyntax ts).map fun v => (some (), v.2)
  else if atSign ':' ts && !atSigns ':' ':' ts then none
  else do
    let ts ← dropPattern ts
    if atDots ts then return (none, ts.drop 3)
    else
      let (_, ts) ← typeSyntax ts
      return (some (), ts)

theorem parameter_leaves (ts : List TokenTree) : Leaves (ts.length + 1) (parameter ts) := by
  refine .ite (fun _ => (typeSyntax_lasts.leaves ts).map fun _ => some ()) fun _ => ?_
  refine .ite (fun _ => .failed) fun _ => ?_
  refine .bindBare (m := ts.length + 1) (fun rest h => ?_) fun rest hrest => ?_
  · exact Nat.lt_succ_of_le (dropPattern_suffix h).length_le
  refine .ite (fun _ => (Leaves.dropped _ 3 rest).mono hrest) fun _ => ?_
  exact .bind (typeSyntax_lasts.leaves rest) fun _ left hleft => .done _ (by omega)

/-- The parameters of a method: whether there is a receiver, which then is the first of them, and
how many others there are. The dots of a variadic function are none. -/
structure Parameters where
  hasReceiver : Bool
  others : Nat
  deriving DecidableEq, Repr

/-- The number of all parameters. -/
def Parameters.count (p : Parameters) : Nat := p.hasReceiver.toNat + p.others

/-- One more parameter behind those in `before`, and whether further ones can follow. None can
follow the dots of a variadic function, which may have a name. -/
def nextParameter (before : Parameters) : Reader (Parameters × Bool) := fun ts => do
  let (_, ts) ← outerAttributes ts
  if atDots ts then return ((before, false), ts.drop 3)
  else
    match receiver? ts with
    | some (_, rest) => if before.count = 0 then return ((⟨true, 0⟩, true), rest) else none
    | none =>
      match ← parameter ts with
      | (some (), rest) => return (({ before with others := before.others + 1 }, true), rest)
      | (none, rest) => return ((before, false), rest)

theorem nextParameter_leaves (before : Parameters) (ts : List TokenTree) :
    Leaves (ts.length + 1) (nextParameter before ts) := by
  refine .bind (outerAttributes_leaves ts) fun _ start hstart => ?_
  refine .ite (fun _ => (Leaves.dropped _ 3 start).mono hstart) fun _ => ?_
  split
  · rename_i rest hreceiver
    have hrest := receiver?_leaves start _ rest hreceiver
    split
    · exact .done _ (by omega)
    · exact .failed
  · refine .bind (parameter_leaves start) fun kind rest hrest => ?_
    cases kind <;> exact .done _ (by omega)

/-- The parameters from a list, behind those in `before`. -/
def parameters (before : Parameters) (ts : List TokenTree) : Option Parameters :=
  if ts.isEmpty then some before
  else
    match _h : nextParameter before ts with
    | none => none
    | some ((found, false), rest) => if (skipSign ',' rest).isEmpty then some found else none
    | some ((found, true), rest) =>
      if rest.isEmpty then some found
      else
        match _hcomma : sign ',' rest with
        | none => none
        | some (_, rest) => parameters found rest
termination_by ts.length
decreasing_by
  have := nextParameter_leaves before ts _ _ _h
  have := (sign_takesFront ',').progresses _ _ _ _hcomma
  omega

/-- A function of an implementation block that has a body. -/
structure MethodItem where
  /-- The attributes before the function, and those at the beginning of its body. -/
  attributes : List Attribute
  /-- What stands between the attributes and the body. -/
  header : List TokenTree
  name : Ident
  parameters : Parameters
  /-- What stands in the body behind the attributes. -/
  body : List TokenTree
  deriving Repr

/-- A function behind its attributes. None is given for a function without a body. -/
def methodAfter (attributes : List Attribute) : Reader (Option MethodItem) := fun start => do
  let (_, ts) ← skipVisibility start
  let ts := skipQualifiers (skipWord "default" ts)
  let (_, ts) ← word "fn" ts
  let (i, ts) ← name ts
  let (_, ts) ← generics ts
  let (content, ts) ← group .parenthesis ts
  let read ← parameters ⟨false, 0⟩ content
  let (_, ts) ← output (nesting ts) true ts
  let (_, ts) ← whereClause ts
  if atSign ';' ts then return (none, ts.drop 1)
  else
    let header := taken start ts
    let (content, ts) ← group .brace ts
    let (inner, body) ← innerAttributes content
    return (some ⟨attributes ++ inner, header, i, read, body⟩, ts)

theorem methodAfter_progresses (attributes : List Attribute) :
    Progresses (methodAfter attributes) := by
  intro start
  refine .bind (skipVisibility_leaves start) fun _ ts hvisible => ?_
  have hqualified := ((skipQualifiers_suffix _).trans (skipWord_suffix "default" ts)).length_le
  refine .bind ((word_takesFront "fn").progresses _) fun _ ts' hfn => ?_
  refine .bind (name_takesFront.progresses ts') fun _ afterName hname => ?_
  refine .bind (generics_leaves afterName) fun _ afterGenerics hgenerics => ?_
  refine .bind ((group_takesFront _).progresses afterGenerics) fun _ afterGroup hgroup => ?_
  refine .bindInside fun _ => ?_
  refine .bind ((Lasting.all _).output true |>.leaves afterGroup) fun _ afterOutput houtput => ?_
  refine .bind (whereClause_leaves afterOutput) fun _ afterWhere hwhere => ?_
  refine .ite (fun _ => (Leaves.dropped _ 1 afterWhere).mono (by omega)) fun _ => ?_
  refine .bind ((group_takesFront _).progresses afterWhere) fun _ rest hrest => ?_
  exact .bindInside fun _ => .done _ (by omega)

/-- The trees behind the next semicolon, if anything stands before it. -/
def dropValue : List TokenTree → Option (List TokenTree)
  | _ :: .punct ';' _ :: rest => some rest
  | t :: rest => if atSign ';' [t] then none else dropValue rest
  | [] => none

theorem dropValue_suffix {ts rest : List TokenTree} (h : dropValue ts = some rest) :
    rest <:+ ts := by
  fun_induction dropValue ts with
  | case1 =>
    cases h
    exact List.suffix_append [_, _] _
  | case2 | case4 => cases h
  | case3 _ tail _ _ ih => exact (ih h).trans (List.suffix_cons _ tail)

def constantAfter : Reader Unit := fun ts => do
  let (i, ts) ← ident ts
  if i.isName || i.isWord "_" then
    let (_, ts) ← generics ts
    let (_, ts) ← sign ':' ts
    let (_, ts) ← typeSyntax ts
    if atSign '=' ts then
      let ts ← dropValue (ts.drop 1)
      return ((), ts)
    else
      let (_, ts) ← whereClause ts
      sign ';' ts
  else none

theorem constantAfter_progresses : Progresses constantAfter := by
  intro ts
  refine .bind (ident_takesFront.progresses ts) fun i afterName hname => ?_
  refine .ite (fun _ => ?_) fun _ => .failed
  refine .bind (generics_leaves afterName) fun _ afterGenerics hgenerics => ?_
  refine .bind ((sign_takesFront ':').progresses _) fun _ afterColon hcolon => ?_
  refine .bind (typeSyntax_lasts.leaves afterColon) fun _ afterType htype => ?_
  refine .ite (fun _ => ?_) fun _ => ?_
  · refine .bindBare (m := afterType.length + 1) (fun rest h => ?_) fun rest hrest =>
      .done _ (by omega)
    exact Nat.lt_succ_of_le ((dropValue_suffix h).trans (List.drop_suffix 1 _)).length_le
  · refine .bind (whereClause_leaves afterType) fun _ afterWhere hwhere => ?_
    exact ((sign_takesFront ';').progresses afterWhere).mono (by omega)

def typeAliasAfter : Reader Unit := fun ts => do
  let (_, ts) ← name ts
  let (_, ts) ← generics ts
  let ts ← if atSign ':' ts then
      (boundList (nesting ts) ['=', ';', ','] (ts.drop 1)).map Prod.snd
    else some ts
  let (_, ts) ← whereClause ts
  let ts ← if atSign '=' ts then (typeSyntax (ts.drop 1)).map Prod.snd else some ts
  let (_, ts) ← whereClause ts
  sign ';' ts

theorem typeAliasAfter_progresses : Progresses typeAliasAfter := by
  intro ts
  refine .bind (name_takesFront.progresses ts) fun _ afterName hname => ?_
  refine .bind (generics_leaves afterName) fun _ afterGenerics hgenerics => ?_
  refine .optional (fun _ => ?_) (Nat.lt_succ_self _) fun afterBounds hbounds => ?_
  · have hbounds := (Lasting.all (nesting afterGenerics)).boundList ['=', ';', ','] (by simp)
    exact ((hbounds.leaves _).within (List.drop_suffix 1 _)).bare
  refine .bind (whereClause_leaves afterBounds) fun _ afterWhere hwhere => ?_
  refine .optional (fun _ => ?_) (Nat.lt_succ_self _) fun afterType htype => ?_
  · exact ((typeSyntax_lasts.leaves _).within (List.drop_suffix 1 afterWhere)).bare
  refine .bind (whereClause_leaves afterType) fun _ rest hrest => ?_
  exact ((sign_takesFront ';').progresses rest).mono (by omega)

def invocationAfter : Reader Unit := fun ts => do
  let (_, ts) ← plainPath ts
  let (_, ts) ← sign '!' ts
  match ts with
  | .group .brace _ :: rest => return ((), rest)
  | .group _ _ :: rest => sign ';' rest
  | _ => none

theorem invocationAfter_progresses : Progresses invocationAfter := by
  intro ts
  refine .bind (plainPath_progresses ts) fun _ afterPath hpath => ?_
  refine .bind ((sign_takesFront '!').progresses afterPath) fun _ rest hrest => ?_
  dsimp only
  split
  · rw [List.length_cons] at hrest
    exact .done _ (by omega)
  · rename_i tail _
    rw [List.length_cons] at hrest
    exact ((sign_takesFront ';').progresses tail).mono (by omega)
  · exact .failed

/-- An item of an implementation block. -/
inductive BlockItem where
  /-- A function that has a body. -/
  | function (f : MethodItem)
  /-- Any other item, with its attributes. -/
  | other (written : List TokenTree)
  deriving Repr

namespace BlockItem

def function? : BlockItem → Option MethodItem
  | function f => some f
  | other _ => none

end BlockItem

/-- The function at the beginning of an item, or nothing where the item is not one with a body. -/
def functionOfItem : Reader (Option MethodItem) := fun ts => do
  let (attributes, afterAttributes) ← outerAttributes ts
  let (isPublic, ahead) ← skipVisibility afterAttributes
  let isDefault := atWord "default" ahead && !atSign '!' (ahead.drop 1)
  let ahead := if isDefault then ahead.drop 1 else ahead
  if atWord "fn" (skipQualifiers ahead) then methodAfter attributes afterAttributes
  else if atWord "const" ahead then
    let (_, ts) ← constantAfter (ahead.drop 1)
    return (none, ts)
  else if atWord "type" ahead then
    let (_, ts) ← typeAliasAfter (ahead.drop 1)
    return (none, ts)
  else if !isPublic && !isDefault then
    let (_, ts) ← invocationAfter ahead
    return (none, ts)
  else none

theorem functionOfItem_progresses : Progresses functionOfItem := by
  intro ts
  refine .bind (outerAttributes_leaves ts) fun _ afterAttributes hattributes => ?_
  refine .bind (skipVisibility_leaves afterAttributes) fun isPublic visible hvisible => ?_
  dsimp only
  have hahead : (if atWord "default" visible && !atSign '!' (visible.drop 1) then visible.drop 1
      else visible) <:+ visible :=
    suffix_ite (List.drop_suffix 1 visible) List.suffix_rfl
  generalize (if atWord "default" visible && !atSign '!' (visible.drop 1) then visible.drop 1
    else visible) = ahead at hahead
  have hahead := hahead.length_le
  have hdrop := (List.drop_suffix 1 ahead).length_le
  refine .ite (fun _ => ?_) fun _ => .ite (fun _ => ?_) fun _ => .ite (fun _ => ?_) fun _ =>
    .ite (fun _ => ?_) fun _ => .failed
  · exact (methodAfter_progresses _ afterAttributes).mono (by omega)
  · refine .bind (constantAfter_progresses _) fun _ rest hrest => .done _ ?_
    exact Nat.lt_of_lt_of_le hrest (by omega)
  · refine .bind (typeAliasAfter_progresses _) fun _ rest hrest => .done _ ?_
    exact Nat.lt_of_lt_of_le hrest (by omega)
  · refine .bind (invocationAfter_progresses ahead) fun _ rest hrest => .done _ ?_
    exact Nat.lt_of_lt_of_le hrest (by omega)

def blockItem : Reader BlockItem := fun ts =>
  (functionOfItem ts).map fun
    | (some f, rest) => (.function f, rest)
    | (none, rest) => (.other (taken ts rest), rest)

theorem blockItem_progresses : Progresses blockItem := by
  intro ts item rest h
  obtain ⟨⟨f, left⟩, hread, heq⟩ := Option.map_eq_some_iff.1 h
  have hleft := functionOfItem_progresses ts f left hread
  cases f <;> cases heq <;> exact hleft

/-- The items of a block. -/
def blockItems (ts : List TokenTree) : Option (List BlockItem) :=
  readToEnd blockItem blockItem_progresses ts

/-- An implementation block. -/
structure ImplBlock where
  /-- The attributes before the block, and those at its beginning. -/
  attributes : List Attribute
  /-- What stands between the attributes and the braces. -/
  header : List TokenTree
  /-- The block implements a trait. -/
  ofTrait : Bool
  /-- The number of parameters of its generics. -/
  genericCount : Nat
  selfType : TypeSyntax
  items : List BlockItem
  deriving Repr

namespace ImplBlock

/-- The functions of the block that have a body. -/
def methods (b : ImplBlock) : List MethodItem := b.items.filterMap BlockItem.function?

/-- Reads an implementation block that takes all of the trees. -/
def ofTrees? (ts : List TokenTree) : Option ImplBlock := do
  let (attributes, start) ← outerAttributes ts
  let ts := skipWord "unsafe" (skipWord "default" start)
  let (_, ts) ← word "impl" ts
  let (genericCount, ts) ← if startsGenerics ts then generics ts else some (0, ts)
  let negative := atSign '!' ts && !atGroup .brace (ts.drop 1)
  let (first, afterFirst) ← typeSyntax (if negative then ts.drop 1 else ts)
  let ofTrait := atWord "for" afterFirst
  let (selfType, rest) ←
    if ofTrait then
      if first.isPlainPath then typeSyntax (afterFirst.drop 1) else none
    else if negative then some (⟨taken ts afterFirst, .other⟩, afterFirst)
    else some (first, afterFirst)
  let (_, rest) ← whereClause rest
  let header := taken start rest
  let (content, rest) ← group .brace rest
  let (inner, content) ← innerAttributes content
  let items ← blockItems content
  if rest.isEmpty then
    return { attributes := attributes ++ inner, header, ofTrait, genericCount, selfType, items }
  else none

end ImplBlock

/-- Reads a method with its attributes from all of the trees. -/
def MethodItem.ofTrees? (ts : List TokenTree) : Option MethodItem := do
  let (attributes, ts) ← outerAttributes ts
  match ← methodAfter attributes ts with
  | (some m, []) => return m
  | _ => none

end MetricWiring.Code
