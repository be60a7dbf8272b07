import MetricWiring.Code.Attribute
import MetricWiring.Code.TypeExtent

/-!
# Generics

What can stand around the name of an item: a visibility and qualifiers before it, and generics and
conditions behind it. All this is passed over; of generics the number is known.
-/
namespace MetricWiring.Code

/-- Passes over an optional visibility. -/
def skipVisibility (ts : List TokenTree) : Option (Bool × List TokenTree) :=
  if atWord "pub" ts then
    match ts.drop 1 with
    | .group .parenthesis [.ident i] :: rest =>
      if i.isWord "crate" || i.isWord "self" || i.isWord "super" then some (true, rest)
      else some (true, ts.drop 1)
    | .group .parenthesis (.ident ⟨"in", false⟩ :: content) :: rest => do
      let _ ← whole plainPath content
      return (true, rest)
    | rest => some (true, rest)
  else some (false, ts)

theorem skipVisibility_leaves (ts : List TokenTree) :
    Leaves (ts.length + 1) (skipVisibility ts) := by
  have hdrop := (List.drop_suffix 1 ts).length_le
  unfold skipVisibility
  refine .ite (fun _ => ?_) fun _ => .done _ (Nat.lt_succ_self _)
  split
  · rename_i hsplit
    rw [hsplit, List.length_cons] at hdrop
    refine .ite (fun _ => .done _ (by omega)) fun _ => .done _ ?_
    rw [hsplit, List.length_cons]
    omega
  · rename_i hsplit
    rw [hsplit, List.length_cons] at hdrop
    exact .bindInside fun _ => .done _ (by omega)
  · exact .done _ (Nat.lt_succ_of_le hdrop)

/-- The trees behind the qualifiers that can stand before the word `fn`. -/
def skipQualifiers (ts : List TokenTree) : List TokenTree :=
  skipAbi (skipWord "unsafe" (skipWord "async" (skipWord "const" ts)))

theorem skipQualifiers_suffix (ts : List TokenTree) : skipQualifiers ts <:+ ts :=
  (skipAbi_suffix _).trans ((skipWord_suffix _ _).trans
    ((skipWord_suffix _ _).trans (skipWord_suffix _ _)))

/-- One parameter of generics, behind its attributes. -/
def genericParameter : Reader Unit := fun ts =>
  let n := nesting ts
  if atLifetime ts then
    if atSign ':' (ts.drop 2) then boundList n [',', '>'] (ts.drop 3) else some ((), ts.drop 2)
  else if atWord "const" ts then do
    let (_, ts) ← name (ts.drop 1)
    let (_, ts) ← sign ':' ts
    let (_, ts) ← typeSyntax ts
    if atSign '=' ts then
      let ts := ts.drop 1
      if atLiteral ts then literal ts
      else if atName ts || atGroup .brace ts then return ((), ts.drop 1)
      else none
    else return ((), ts)
  else if atName ts || atWord "_" ts then do
    let ts := ts.drop 1
    let ts ← if atSign ':' ts then
        (boundList n [',', '>', '='] (ts.drop 1)).map Prod.snd
      else some ts
    if atSign '=' ts then
      let (_, ts) ← typeSyntax (ts.drop 1)
      return ((), ts)
    else return ((), ts)
  else none

theorem genericParameter_leaves (ts : List TokenTree) :
    Leaves (ts.length + 1) (genericParameter ts) := by
  have hone := List.drop_suffix 1 ts
  refine .ite (fun _ => ?_) fun _ => .ite (fun _ => ?_) fun _ => .ite (fun _ => ?_) fun _ => .failed
  · refine .ite (fun _ => ?_) fun _ => .dropped _ 2 ts
    exact (((Lasting.all _).boundList _ (by simp)).leaves _).within (List.drop_suffix 3 ts)
  · refine .within ?_ hone
    refine .bind (name_takesFront.progresses _) fun _ afterName hname => ?_
    refine .bind ((sign_takesFront ':').progresses _) fun _ afterColon hcolon => ?_
    refine .bind (typeSyntax_lasts.leaves _) fun _ afterType htype => ?_
    have hdrop := (List.drop_suffix 1 afterType).length_le
    refine .ite (fun _ => ?_) fun _ => .done _ (by omega)
    refine .ite (fun _ => (literal_takesFront.progresses _).mono (by omega)) fun _ => ?_
    exact .ite (fun _ => (Leaves.dropped _ 1 _).mono (by omega)) fun _ => .failed
  · refine .within ?_ hone
    refine .optional (fun _ => ?_) (Nat.lt_succ_self _) fun afterBounds hbounds => ?_
    · have hbounds := ((Lasting.all (nesting ts)).boundList [',', '>', '='] (by simp)).leaves
      exact ((hbounds _).within (List.drop_suffix 1 _)).bare
    · refine .ite (fun _ => ?_) fun _ => .done _ hbounds
      have htype := (typeSyntax_lasts.leaves _).within (List.drop_suffix 1 afterBounds)
      exact .bind htype fun _ afterType hafter => .done _ (by omega)

/-- A parameter of generics with its attributes. -/
def attributedParameter : Reader Unit := fun ts => do
  let (_, ts) ← outerAttributes ts
  genericParameter ts

theorem attributedParameter_leaves (ts : List TokenTree) :
    Leaves (ts.length + 1) (attributedParameter ts) :=
  .bind (outerAttributes_leaves ts) fun _ rest hrest => (genericParameter_leaves rest).mono hrest

/-- Parameters of generics up to the closing angle bracket, with their number. -/
def genericParameters (ts : List TokenTree) : Option (Nat × List TokenTree) :=
  if atSign '>' ts then some (0, ts.drop 1)
  else
    match _h : attributedParameter ts with
    | none => none
    | some (_, rest) =>
      if atSign '>' rest then some (1, rest.drop 1)
      else
        match _hcomma : sign ',' rest with
        | none => none
        | some (_, rest) => (genericParameters rest).map fun v => (v.1 + 1, v.2)
termination_by ts.length
decreasing_by
  have := attributedParameter_leaves ts _ _ _h
  have := (sign_takesFront ',').progresses _ _ _ _hcomma
  omega

theorem genericParameters_leaves (ts : List TokenTree) :
    Leaves (ts.length + 1) (genericParameters ts) := by
  fun_induction genericParameters ts with
  | case1 ts => exact .dropped _ 1 ts
  | case2 | case4 => exact .failed
  | case3 ts _ _ rest hparameter _ =>
    have hrest := attributedParameter_leaves ts _ _ hparameter
    exact (Leaves.dropped _ 1 rest).mono hrest
  | case5 ts _ _ rest hparameter _ _ left hcomma ih =>
    have hrest := attributedParameter_leaves ts _ _ hparameter
    have hleft := (sign_takesFront ',').progresses rest _ _ hcomma
    exact (ih.map _).mono (by omega)

/-- Optional generics, with the number of their parameters. -/
def generics : Reader Nat := fun ts =>
  if atSign '<' ts then genericParameters (ts.drop 1) else some (0, ts)

theorem generics_leaves (ts : List TokenTree) : Leaves (ts.length + 1) (generics ts) := by
  refine .ite (fun _ => ?_) fun _ => .done _ (Nat.lt_succ_self _)
  exact (genericParameters_leaves _).within (List.drop_suffix 1 ts)

/-- Whether an angle bracket behind `impl` begins generics, and not a qualified path. -/
def startsGenerics (ts : List TokenTree) : Bool :=
  let closes (rest : List TokenTree) : Bool :=
    atSign '>' rest || atSign ',' rest || (atSign ':' rest && !atSigns ':' ':' rest) ||
      atSign '=' rest
  let inner := ts.drop 1
  atSign '<' ts && (atSign '>' inner || atSign '#' inner ||
    (atLifetime inner && closes (inner.drop 2)) || (atName inner && closes (inner.drop 1)) ||
    atWord "const" inner)

/-- The signs at which a list of conditions ends. -/
def endsConditions (ts : List TokenTree) : Bool :=
  ts.isEmpty || atGroup .brace ts || atSign ',' ts || atSign ';' ts ||
    (atSign ':' ts && !atSigns ':' ':' ts) || atSign '=' ts

/-- What a condition is about: a lifetime, or a type that may be quantified over lifetimes. -/
def conditionSubject : Reader Unit := fun ts =>
  if atLifetime ts then lifetime ts
  else do
    let ts ← if atWord "for" ts then (boundLifetimes (nesting ts) ts).map Prod.snd else some ts
    let (_, ts) ← typeSyntax ts
    return ((), ts)

theorem conditionSubject_leaves (ts : List TokenTree) :
    Leaves (ts.length + 1) (conditionSubject ts) := by
  refine .ite (fun _ => ?_) fun _ => ?_
  · exact (lifetime_takesFront.progresses ts).mono (Nat.le_succ _)
  · refine .optional (fun _ => ((Lasting.all _).boundLifetimes.leaves ts).bare) (Nat.lt_succ_self _)
      fun rest hrest => ?_
    exact .bind (typeSyntax_lasts.leaves rest) fun _ left hleft => .done _ (by omega)

/-- A condition of a `where` clause. -/
def condition : Reader Unit := fun ts => do
  let (_, ts) ← conditionSubject ts
  let (_, ts) ← sign ':' ts
  boundList (nesting ts) [',', ';', ':', '='] ts

theorem condition_progresses : Progresses condition := by
  intro ts
  refine .bind (conditionSubject_leaves ts) fun _ rest hrest => ?_
  refine .bind ((sign_takesFront ':').progresses rest) fun _ rest' hrest' => ?_
  exact (((Lasting.all _).boundList _ (by simp)).leaves rest').mono (by omega)

/-- Conditions of a `where` clause. -/
def conditions (ts : List TokenTree) : Option (Unit × List TokenTree) :=
  if endsConditions ts then some ((), ts)
  else
    match _h : condition ts with
    | none => none
    | some (_, rest) => if atSign ',' rest then conditions (rest.drop 1) else some ((), rest)
termination_by ts.length
decreasing_by
  have := condition_progresses ts _ _ _h
  have := (List.drop_suffix 1 rest).length_le
  omega

theorem conditions_leaves (ts : List TokenTree) : Leaves (ts.length + 1) (conditions ts) := by
  fun_induction conditions ts with
  | case1 => exact .done _ (Nat.lt_succ_self _)
  | case2 => exact .failed
  | case3 ts _ _ rest hcondition _ ih =>
    have hrest := condition_progresses ts _ _ hcondition
    exact (ih.within (List.drop_suffix 1 rest)).mono (by omega)
  | case4 ts _ _ rest hcondition =>
    have hrest := condition_progresses ts _ _ hcondition
    exact .done _ (Nat.lt_succ_of_lt hrest)

/-- An optional `where` clause. -/
def whereClause : Reader Unit := fun ts =>
  if atWord "where" ts then conditions (ts.drop 1) else some ((), ts)

theorem whereClause_leaves (ts : List TokenTree) : Leaves (ts.length + 1) (whereClause ts) := by
  refine .ite (fun _ => ?_) fun _ => .done _ (Nat.lt_succ_self _)
  exact (conditions_leaves _).within (List.drop_suffix 1 ts)

end MetricWiring.Code
