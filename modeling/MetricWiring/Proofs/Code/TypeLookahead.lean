import MetricWiring.Code.TypeExtent

/-!
# What the readers of types see behind a type

The readers look a few trees ahead, but never into a group that they do not take. So lists that
differ only inside groups near their ends (`Alike`) are read in the same way, as long as those
groups are left (`Agree`, `AgreeFor`). As with the extent of types this is shown for all readers at
once, by induction on the bound on their depth (`Agreeing`). A type thus remains one whatever is
written inside the groups behind it (`typeSyntax_of_alike`).
-/
namespace MetricWiring.Code

/-- A tree as it looks to those who do not enter groups. -/
def TokenTree.face : TokenTree → TokenTree
  | .group d _ => .group d []
  | t => t

def faces (ts : List TokenTree) : List TokenTree := ts.map TokenTree.face

section Faces

variable (ts : List TokenTree)

@[simp] theorem drop_faces (n : Nat) : (faces ts).drop n = faces (ts.drop n) :=
  List.map_drop.symm

@[simp] theorem tail_faces : (faces ts).tail = faces ts.tail :=
  List.map_tail.symm

@[simp] theorem isEmpty_faces : (faces ts).isEmpty = ts.isEmpty := by
  cases ts <;> rfl

@[simp] theorem atSign_faces (c : Char) : atSign c (faces ts) = atSign c ts := by
  rcases ts with _ | ⟨_ | _ | _ | _, _⟩ <;> rfl

@[simp] theorem atSigns_faces (c d : Char) : atSigns c d (faces ts) = atSigns c d ts := by
  rcases ts with _ | ⟨_ | ⟨_, _ | _⟩ | _ | _, _ | ⟨_ | _ | _ | _, _⟩⟩ <;> rfl

@[simp] theorem atWord_faces (word : String) : atWord word (faces ts) = atWord word ts := by
  rcases ts with _ | ⟨_ | _ | _ | _, _⟩ <;> rfl

@[simp] theorem atName_faces : atName (faces ts) = atName ts := by
  rcases ts with _ | ⟨_ | _ | _ | _, _⟩ <;> rfl

@[simp] theorem atIdent_faces : atIdent (faces ts) = atIdent ts := by
  rcases ts with _ | ⟨_ | _ | _ | _, _⟩ <;> rfl

@[simp] theorem atGroup_faces (d : Delimiter) : atGroup d (faces ts) = atGroup d ts := by
  rcases ts with _ | ⟨_ | _ | _ | _, _⟩ <;> rfl

@[simp] theorem atLifetime_faces : atLifetime (faces ts) = atLifetime ts := by
  rcases ts with _ | ⟨_ | ⟨c, _⟩ | _ | _, _ | ⟨_ | _ | _ | _, _⟩⟩ <;>
    first | rfl | by_cases hc : c = '\'' <;> simp [faces, TokenTree.face, atLifetime, hc]

@[simp] theorem atLiteral_faces : atLiteral (faces ts) = atLiteral ts := by
  rcases ts with _ | ⟨_ | ⟨c, _⟩ | _ | _, _ | ⟨_ | _ | ⟨_ | _⟩ | _, _⟩⟩ <;>
    first | rfl | by_cases hc : c = '-' <;> simp [faces, TokenTree.face, atLiteral, hc]

end Faces

/-- What is read of a path behind its arguments in parentheses. -/
def callsBehind (n : Nat) (p : PathShape) (content : List TokenTree) : Reader PathShape :=
  fun ts => do
    let _ ← whole (typeList n) content
    let (continues, ts) ← output n false ts
    let p := { p with hasArguments := true, lastHasArguments := true, lastIsCall := true }
    if continues then
      let (p, ts) ← furtherSegments n p ts
      calls n p ts
    else return (p, ts)

theorem calls_eq (n : Nat) (p : PathShape) (ts : List TokenTree) :
    calls (n + 1) p ts =
      if p.lastHasArguments then some (p, ts)
      else
        match skipSigns ':' ':' ts with
        | .group .parenthesis content :: rest => callsBehind n p content rest
        | _ => some (p, ts) := by
  rw [calls]
  rfl

theorem length_drop_le (n : Nat) (ts : List TokenTree) : (ts.drop n).length ≤ ts.length :=
  (List.drop_suffix n ts).length_le

/-- The lists are the same but for what stands inside groups among their last `k` trees. -/
inductive Alike (k : Nat) : List TokenTree → List TokenTree → Prop
  | nil : Alike k [] []
  | same {t : TokenTree} {ts ts' : List TokenTree} (h : Alike k ts ts') :
      Alike k (t :: ts) (t :: ts')
  | group {d : Delimiter} {content content' ts ts' : List TokenTree} (hlast : ts.length < k)
      (h : Alike k ts ts') : Alike k (.group d content :: ts) (.group d content' :: ts')

namespace Alike

variable {k : Nat} {ts ts' : List TokenTree}

theorem refl (k : Nat) : ∀ ts, Alike k ts ts
  | [] => .nil
  | _ :: ts => .same (refl k ts)

theorem length_eq (h : Alike k ts ts') : ts.length = ts'.length := by
  induction h with
  | nil => rfl
  | same _ ih | group _ _ ih => rw [List.length_cons, List.length_cons, ih]

theorem append_left (front : List TokenTree) (h : Alike k ts ts') :
    Alike k (front ++ ts) (front ++ ts') := by
  induction front with
  | nil => exact h
  | cons t front ih => exact .same ih

theorem drop (h : Alike k ts ts') (n : Nat) : Alike k (ts.drop n) (ts'.drop n) := by
  induction h generalizing n with
  | nil =>
    rw [List.drop_nil]
    exact .nil
  | same h ih =>
    cases n with
    | zero => exact .same h
    | succ n => exact ih n
  | group hlast h ih =>
    cases n with
    | zero => exact .group hlast h
    | succ n => exact ih n

theorem faces_eq (h : Alike k ts ts') : faces ts = faces ts' := by
  induction h with
  | nil => rfl
  | same _ ih => exact congrArg (_ :: ·) ih
  | group _ _ ih => exact congrArg (_ :: ·) ih

/-- What is seen of a list is seen of one that is like it. -/
theorem look {α : Type} {see : List TokenTree → α} (h : Alike k ts ts')
    (hsee : ∀ ts, see (faces ts) = see ts) : see ts = see ts' := by
  rw [← hsee ts, h.faces_eq, hsee ts']

theorem skipSign (h : Alike k ts ts') (c : Char) :
    Alike k (Code.skipSign c ts) (Code.skipSign c ts') := by
  have hsign : atSign c ts = atSign c ts' := h.look (by simp)
  rw [Code.skipSign, Code.skipSign, hsign]
  split
  · exact h.drop 1
  · exact h

theorem skipSigns (h : Alike k ts ts') (c d : Char) :
    Alike k (Code.skipSigns c d ts) (Code.skipSigns c d ts') := by
  have hsigns : atSigns c d ts = atSigns c d ts' := h.look (by simp)
  rw [Code.skipSigns, Code.skipSigns, hsigns]
  split
  · exact h.drop 2
  · exact h

theorem skipWord (h : Alike k ts ts') (word : String) :
    Alike k (Code.skipWord word ts) (Code.skipWord word ts') := by
  have hword : atWord word ts = atWord word ts' := h.look (by simp)
  rw [Code.skipWord, Code.skipWord, hword]
  split
  · exact h.drop 1
  · exact h

theorem skipAbi (h : Alike k ts ts') : Alike k (Code.skipAbi ts) (Code.skipAbi ts') := by
  have hword : atWord "extern" ts = atWord "extern" ts' := h.look (by simp)
  unfold Code.skipAbi
  rw [hword]
  split
  · have hdrop := h.drop 1
    generalize ts.drop 1 = rest at hdrop
    generalize ts'.drop 1 = rest' at hdrop
    cases hdrop with
    | nil => exact .nil
    | group hlast h => exact .group hlast h
    | @same t rest rest' h =>
      rcases t with _ | _ | ⟨_ | _⟩ | _
      case literal.string => exact h
      all_goals exact .same h
  · exact h

/-- Behind an optional lifetime. -/
theorem afterLifetime (h : Alike k ts ts') :
    Alike k (if atLifetime ts then ts.drop 2 else ts)
      (if atLifetime ts' then ts'.drop 2 else ts') := by
  have hlifetime : atLifetime ts = atLifetime ts' := h.look (by simp)
  rw [hlifetime]
  split
  · exact h.drop 2
  · exact h

/-- Behind the modifiers of a trait bound. -/
theorem afterModifiers (h : Alike k ts ts') :
    Alike k
      (if atSign '~' ts && atWord "const" (ts.drop 1) then ts.drop 2 else Code.skipSign '?' ts)
      (if atSign '~' ts' && atWord "const" (ts'.drop 1) then ts'.drop 2
        else Code.skipSign '?' ts') := by
  have hconst : (atSign '~' ts && atWord "const" (ts.drop 1)) =
      (atSign '~' ts' && atWord "const" (ts'.drop 1)) := by
    apply h.look
    simp
  rw [hconst]
  split
  · exact h.drop 2
  · exact h.skipSign '?'

end Alike

/-! ## Readings that agree -/

/-- Two readings, the first of which leaves `m` trees at most. If it leaves the last `k` trees, the
second one gives the same and leaves trees that are like them. -/
def Agree {α : Type} (k m : Nat) (x y : Option (α × List TokenTree)) : Prop :=
  ∀ v rest, x = some (v, rest) → rest.length ≤ m ∧
    (k ≤ rest.length → ∃ rest', Alike k rest rest' ∧ y = some (v, rest'))

/-- The same of readings without a value. -/
def AgreeBare (k m : Nat) (x y : Option (List TokenTree)) : Prop :=
  ∀ rest, x = some rest → rest.length ≤ m ∧
    (k ≤ rest.length → ∃ rest', Alike k rest rest' ∧ y = some rest')

namespace Agree

variable {α β : Type} {k m : Nat} {ts ts' : List TokenTree}

theorem failed (y : Option (α × List TokenTree)) : Agree k m none y := by
  intro v rest h
  cases h

theorem done (v : α) (h : Alike k ts ts') (hm : ts.length ≤ m) :
    Agree k m (some (v, ts)) (some (v, ts')) := by
  intro w rest hw
  cases hw
  exact ⟨hm, fun _ => ⟨ts', h, rfl⟩⟩

theorem mono {m' : Nat} {x y : Option (α × List TokenTree)} (h : Agree k m x y) (hm : m ≤ m') :
    Agree k m' x y :=
  fun v rest hx => ⟨Nat.le_trans (h v rest hx).1 hm, (h v rest hx).2⟩

/-- A reading that leaves less than the last `k` trees agrees with any other. -/
theorem short {x z : Option (α × List TokenTree)} (y : Option (α × List TokenTree))
    (h : Agree 0 m x z) (hm : m < k) : Agree k m x y := by
  intro v rest hx
  have hrest := (h v rest hx).1
  exact ⟨hrest, fun hk => absurd (Nat.le_trans hk hrest) (Nat.not_le_of_lt hm)⟩

theorem ite {x y x' y' : Option (α × List TokenTree)} {b b' : Bool} (hb : b = b')
    (hthen : b = true → Agree k m x y) (helse : b = false → Agree k m x' y') :
    Agree k m (if b then x else x') (if b' then y else y') := by
  subst hb
  cases b with
  | true => exact hthen rfl
  | false => exact helse rfl

theorem bind {x y : Option (β × List TokenTree)}
    {f g : β × List TokenTree → Option (α × List TokenTree)} (hxy : Agree k m x y)
    (hfg : ∀ v k ts ts', Alike k ts ts' → Agree k ts.length (f (v, ts)) (g (v, ts'))) :
    Agree k m (x >>= f) (y >>= g) := by
  intro w rest hw
  obtain ⟨⟨v, middle⟩, hx, hf⟩ := Option.bind_eq_some_iff.1 hw
  obtain ⟨hmiddle, hback⟩ := hxy v middle hx
  have hrest := (hfg v 0 middle middle (.refl 0 middle) w rest hf).1
  refine ⟨Nat.le_trans hrest hmiddle, fun hk => ?_⟩
  obtain ⟨middle', halike, hy⟩ := hback (Nat.le_trans hk hrest)
  obtain ⟨rest', hlike, hg⟩ := (hfg v k middle middle' halike w rest hf).2 hk
  exact ⟨rest', hlike, Option.bind_eq_some_iff.2 ⟨_, hy, hg⟩⟩

theorem bindSame {x : Option β} {f g : β → Option (α × List TokenTree)}
    (hfg : ∀ v, Agree k m (f v) (g v)) : Agree k m (x >>= f) (x >>= g) := by
  cases x with
  | none => exact .failed _
  | some v => exact hfg v

/-- Of a group that is taken, the content is the same, unless it is among the last trees. -/
theorem bindGroup {d : Delimiter}
    {f g : List TokenTree × List TokenTree → Option (α × List TokenTree)} (h : Alike k ts ts')
    (hfg : ∀ content k ts ts', Alike k ts ts' →
      Agree k ts.length (f (content, ts)) (g (content, ts'))) :
    Agree k ts.length (Code.group d ts >>= f) (Code.group d ts' >>= g) := by
  cases h with
  | nil => exact .failed _
  | @same t ts ts' h =>
    cases t with
    | group e content =>
      by_cases hd : e = d
      · simp only [Code.group, if_pos hd]
        exact (hfg content k ts ts' h).mono (Nat.le_succ _)
      · simp only [Code.group, if_neg hd]
        exact .failed _
    | _ => exact .failed _
  | @group e content content' ts ts' hlast h =>
    by_cases hd : e = d
    · simp only [Code.group, if_pos hd]
      exact (Agree.short _ (hfg content 0 ts ts (.refl 0 ts)) hlast).mono (Nat.le_succ _)
    · simp only [Code.group, if_neg hd]
      exact .failed _

theorem bindBare {x y : Option (List TokenTree)}
    {f g : List TokenTree → Option (α × List TokenTree)} (hxy : AgreeBare k m x y)
    (hfg : ∀ k ts ts', Alike k ts ts' → Agree k ts.length (f ts) (g ts')) :
    Agree k m (x >>= f) (y >>= g) := by
  have hunit : Agree k m (x.map (Prod.mk ())) (y.map (Prod.mk ())) := by
    intro v rest hv
    obtain ⟨middle, hx, hrest⟩ := Option.map_eq_some_iff.1 hv
    cases hrest
    obtain ⟨hm, hback⟩ := hxy rest hx
    refine ⟨hm, fun hk => ?_⟩
    obtain ⟨rest', halike, hy⟩ := hback hk
    exact ⟨rest', halike, by rw [hy]; rfl⟩
  have hbind := hunit.bind (f := fun v => f v.2) (g := fun v => g v.2) fun _ => hfg
  cases x <;> cases y <;> exact hbind

/-- An optional reading without a value, and what is read behind it in either case. -/
theorem optional {x y : Option (List TokenTree)}
    {f g : List TokenTree → Option (α × List TokenTree)} {b b' : Bool} (hb : b = b')
    (h : Alike k ts ts') (hxy : AgreeBare k ts.length x y)
    (hfg : ∀ k ts ts', Alike k ts ts' → Agree k ts.length (f ts) (g ts')) :
    Agree k ts.length (if b then x >>= f else some ts >>= f)
      (if b' then y >>= g else some ts' >>= g) :=
  .ite hb (fun _ => .bindBare hxy hfg) fun _ => hfg k ts ts' h

theorem bare {x y : Option (α × List TokenTree)} (h : Agree k m x y) :
    AgreeBare k m (x.map Prod.snd) (y.map Prod.snd) := by
  intro rest hrest
  obtain ⟨⟨v, _⟩, hx, rfl⟩ := Option.map_eq_some_iff.1 hrest
  obtain ⟨hm, hback⟩ := h v _ hx
  refine ⟨hm, fun hk => ?_⟩
  obtain ⟨rest', halike, hy⟩ := hback hk
  exact ⟨rest', halike, by rw [hy]; rfl⟩

end Agree

/-- The reader gives the same for lists that are alike, as long as it leaves what is not the same.
-/
def AgreeFor {α : Type} (read : Reader α) : Prop :=
  ∀ k ts ts', Alike k ts ts' → Agree k ts.length (read ts) (read ts')

theorem agreeFor_of_none {α : Type} {read : Reader α} (h : ∀ ts, read ts = none) :
    AgreeFor read := by
  intro k ts ts' _
  rw [h]
  exact .failed _

theorem sign_agree (c : Char) : AgreeFor (sign c) := by
  intro k ts ts' h
  cases h with
  | nil | group => exact .failed _
  | @same t ts ts' h =>
    cases t with
    | punct d joint =>
      by_cases hd : d = c
      · simp only [sign, if_pos hd]
        exact .done _ h (Nat.le_succ _)
      · simp only [sign, if_neg hd]
        exact .failed _
    | _ => exact .failed _

theorem signs_agree (c d : Char) : AgreeFor (signs c d) := by
  intro k ts ts' h
  have hsigns : atSigns c d ts = atSigns c d ts' := h.look (by simp)
  exact .ite hsigns (fun _ => .done _ (h.drop 2) (by simp)) fun _ => .failed _

theorem word_agree (w : String) : AgreeFor (word w) := by
  intro k ts ts' h
  cases h with
  | nil | group => exact .failed _
  | @same t ts ts' h =>
    cases t with
    | ident i => exact .ite rfl (fun _ => .done _ h (Nat.le_succ _)) fun _ => .failed _
    | _ => exact .failed _

theorem ident_agree : AgreeFor ident := by
  intro k ts ts' h
  cases h with
  | nil | group => exact .failed _
  | @same t ts ts' h =>
    cases t with
    | ident i => exact .done _ h (Nat.le_succ _)
    | _ => exact .failed _

theorem lifetime_agree : AgreeFor lifetime := by
  intro k ts ts' h v rest hv
  unfold lifetime at hv
  split at hv
  · rename_i joint i tail
    cases hv
    refine ⟨by simp only [List.length_cons]; omega, fun _ => ?_⟩
    cases h with
    | same h =>
      cases h with
      | same h => exact ⟨_, h, rfl⟩
  · cases hv

theorem literal_agree : AgreeFor literal := by
  intro k ts ts' h v rest hv
  unfold literal at hv
  split at hv
  · cases hv
    cases h with
    | same h => exact ⟨Nat.le_succ _, fun _ => ⟨_, h, rfl⟩⟩
  · cases hv
    refine ⟨by simp only [List.length_cons]; omega, fun _ => ?_⟩
    cases h with
    | same h =>
      cases h with
      | same h => exact ⟨_, h, rfl⟩
  · rename_i i tail
    cases h with
    | same h =>
      split at hv
      · rename_i hi
        cases hv
        exact ⟨Nat.le_succ _, fun _ => ⟨_, h, by rw [literal, if_pos hi]⟩⟩
      · cases hv
  · cases hv

/-! ## The readers of types -/

/-- All readers with the bound `n` agree on lists that are alike. -/
structure Agreeing (n : Nat) : Prop where
  readType : ∀ plus, AgreeFor (Code.readType n plus)
  pathType : ∀ plus quantified p, AgreeFor (Code.pathType n plus quantified p)
  parenthesized : ∀ plus, AgreeFor (Code.parenthesized n plus)
  functionType : AgreeFor (Code.functionType n)
  output : ∀ plus, AgreeFor (Code.output n plus)
  typePath : AgreeFor (Code.typePath n)
  calls : ∀ p, AgreeFor (Code.calls n p)
  path : AgreeFor (Code.path n)
  furtherSegments : ∀ p, AgreeFor (Code.furtherSegments n p)
  segment : ∀ p, AgreeFor (Code.segment n p)
  genericArguments : AgreeFor (Code.genericArguments n)
  genericArgument : AgreeFor (Code.genericArgument n)
  bounds : ∀ plus, AgreeFor (Code.bounds n plus)
  furtherBounds : AgreeFor (Code.furtherBounds n)
  bound : AgreeFor (Code.bound n)
  traitBound : AgreeFor (Code.traitBound n)
  boundList : ∀ stops, AgreeFor (Code.boundList n stops)
  boundLifetimes : AgreeFor (Code.boundLifetimes n)
  lifetimeList : AgreeFor (Code.lifetimeList n)

namespace Agreeing

variable {n : Nat} (ih : Agreeing n)

include ih

theorem bounds_succ (plus : Bool) : AgreeFor (Code.bounds (n + 1) plus) := by
  intro k ts ts' h
  rw [Code.bounds, Code.bounds]
  refine .bind (ih.bound k ts ts' h) fun _ k ts ts' h => ?_
  refine .ite (by apply h.look; simp) (fun _ => ih.furtherBounds k ts ts' h) fun _ => ?_
  exact .done _ h (Nat.le_refl _)

theorem furtherBounds_succ : AgreeFor (Code.furtherBounds (n + 1)) := by
  intro k ts ts' h
  rw [Code.furtherBounds, Code.furtherBounds]
  refine .ite (by apply h.look; simp) (fun _ => ?_) fun _ => .done _ h (Nat.le_refl _)
  refine .mono ?_ (length_drop_le 1 ts)
  refine .ite (by apply h.look; simp) (fun _ => ?_) fun _ => .done _ (h.drop 1) (Nat.le_refl _)
  exact .bind (ih.bound k _ _ (h.drop 1)) fun _ k ts ts' h => ih.furtherBounds k ts ts' h

theorem bound_succ : AgreeFor (Code.bound (n + 1)) := by
  intro k ts ts' h
  rw [Code.bound, Code.bound]
  refine .ite (by apply h.look; simp) (fun _ => lifetime_agree k ts ts' h) fun _ => ?_
  refine .ite (by apply h.look; simp) (fun _ => ?_) fun _ => ih.traitBound k ts ts' h
  refine .bindGroup h fun content k ts ts' h => ?_
  exact .bindSame fun _ => .done _ h (Nat.le_refl _)

theorem traitBound_succ : AgreeFor (Code.traitBound (n + 1)) := by
  intro k ts ts' h
  rw [Code.traitBound, Code.traitBound]
  have hstart := h.afterModifiers
  refine .mono (.optional (by apply hstart.look; simp) hstart (ih.boundLifetimes k _ _ hstart).bare
    fun k ts ts' h => ?_) ?_
  · refine .bind (ih.path k ts ts' h) fun p k ts ts' h => ?_
    refine .bind (ih.calls p k ts ts' h) fun _ k ts ts' h => ?_
    exact .done _ h (Nat.le_refl _)
  · split
    · exact length_drop_le 2 ts
    · exact (skipSign_suffix '?' ts).length_le

theorem output_succ (plus : Bool) : AgreeFor (Code.output (n + 1) plus) := by
  intro k ts ts' h
  rw [Code.output, Code.output]
  refine .ite (by apply h.look; simp) (fun _ => ?_) fun _ => .done _ h (Nat.le_refl _)
  have hgroup : atGroup .parenthesis (ts.drop 2) = atGroup .parenthesis (ts'.drop 2) :=
    (h.drop 2).look (by simp)
  rw [hgroup]
  refine .mono ?_ (length_drop_le 2 ts)
  exact .bind (ih.readType plus k _ _ (h.drop 2)) fun _ k ts ts' h => .done _ h (Nat.le_refl _)

theorem functionType_succ : AgreeFor (Code.functionType (n + 1)) := by
  intro k ts ts' h
  rw [Code.functionType, Code.functionType]
  refine .mono ?_ ((skipAbi_suffix _).trans (skipWord_suffix "unsafe" ts)).length_le
  refine .bind (word_agree _ k _ _ (h.skipWord "unsafe").skipAbi) fun _ k ts ts' h => ?_
  refine .bindGroup h fun content k ts ts' h => ?_
  refine .bindSame fun _ => ?_
  exact .bind (ih.output false k ts ts' h) fun _ k ts ts' h => .done _ h (Nat.le_refl _)

theorem callsBehind_agree (p : PathShape) (content : List TokenTree) :
    AgreeFor (callsBehind n p content) := by
  intro k ts ts' h
  refine .bindSame fun _ => ?_
  refine .bind (ih.output false k ts ts' h) fun continues k ts ts' h => ?_
  refine .ite rfl (fun _ => ?_) fun _ => .done _ h (Nat.le_refl _)
  refine .bind (ih.furtherSegments _ k ts ts' h) fun p k ts ts' h => ?_
  exact ih.calls p k ts ts' h

theorem calls_succ (p : PathShape) : AgreeFor (Code.calls (n + 1) p) := by
  intro k ts ts' h
  rw [calls_eq, calls_eq]
  refine .ite rfl (fun _ => .done _ h (Nat.le_refl _)) fun _ => ?_
  have hm := (skipSigns_suffix ':' ':' ts).length_le
  have hinner := h.skipSigns ':' ':'
  generalize skipSigns ':' ':' ts = inner at hinner hm ⊢
  generalize skipSigns ':' ':' ts' = inner' at hinner ⊢
  cases hinner with
  | nil => exact .done _ h (Nat.le_refl _)
  | @same t rest rest' hrest =>
    match t with
    | .ident _ | .punct _ _ | .literal _ | .group .bracket _ | .group .brace _ =>
      exact .done _ h (Nat.le_refl _)
    | .group .parenthesis content =>
      have hbehind := ih.callsBehind_agree p content k rest rest' hrest
      exact hbehind.mono (Nat.le_trans (Nat.le_succ _) hm)
  | @group d content content' rest rest' hlast hrest =>
    match d with
    | .bracket | .brace => exact .done _ h (Nat.le_refl _)
    | .parenthesis =>
      have hbehind := ih.callsBehind_agree p content 0 rest rest (.refl 0 rest)
      exact (hbehind.short _ hlast).mono (Nat.le_trans (Nat.le_succ _) hm)

theorem boundList_succ (stops : List Char) : AgreeFor (Code.boundList (n + 1) stops) := by
  intro k ts ts' h
  rw [Code.boundList, Code.boundList]
  refine .ite (by apply h.look; simp) (fun _ => .done _ h (Nat.le_refl _)) fun _ => ?_
  refine .bind (ih.bound k ts ts' h) fun _ k ts ts' h => ?_
  refine .ite (by apply h.look; simp) (fun _ => ?_) fun _ => .done _ h (Nat.le_refl _)
  exact (ih.boundList stops k _ _ (h.drop 1)).mono (length_drop_le 1 ts)

theorem boundLifetimes_succ : AgreeFor (Code.boundLifetimes (n + 1)) := by
  intro k ts ts' h
  rw [Code.boundLifetimes, Code.boundLifetimes]
  refine .bind (word_agree _ k ts ts' h) fun _ k ts ts' h => ?_
  exact .bind (sign_agree _ k ts ts' h) fun _ k ts ts' h => ih.lifetimeList k ts ts' h

theorem lifetimeList_succ : AgreeFor (Code.lifetimeList (n + 1)) := by
  intro k ts ts' h
  rw [Code.lifetimeList, Code.lifetimeList]
  refine .ite (by apply h.look; simp) (fun _ => .done _ (h.drop 1) (length_drop_le 1 ts))
    fun _ => ?_
  refine .bind (lifetime_agree k ts ts' h) fun _ k ts ts' h => ?_
  refine .optional (by apply h.look; simp) h ?_ fun k ts ts' h => ?_
  · exact ((ih.boundList _ k _ _ (h.drop 1)).mono (length_drop_le 1 ts)).bare
  refine .ite (by apply h.look; simp) (fun _ => .done _ (h.drop 1) (length_drop_le 1 ts))
    fun _ => ?_
  exact .bind (sign_agree _ k ts ts' h) fun _ k ts ts' h => ih.lifetimeList k ts ts' h

theorem genericArguments_succ : AgreeFor (Code.genericArguments (n + 1)) := by
  intro k ts ts' h
  rw [Code.genericArguments, Code.genericArguments]
  refine .ite (by apply h.look; simp) (fun _ => .done _ (h.drop 1) (length_drop_le 1 ts))
    fun _ => ?_
  refine .bind (ih.genericArgument k ts ts' h) fun _ k ts ts' h => ?_
  refine .ite (by apply h.look; simp) (fun _ => .done _ (h.drop 1) (length_drop_le 1 ts))
    fun _ => ?_
  exact .bind (sign_agree _ k ts ts' h) fun _ k ts ts' h => ih.genericArguments k ts ts' h

theorem path_succ : AgreeFor (Code.path (n + 1)) := by
  intro k ts ts' h
  rw [Code.path, Code.path]
  have hrooted : atSigns ':' ':' ts = atSigns ':' ':' ts' := h.look (by simp)
  dsimp only
  rw [hrooted]
  refine .mono ?_ (skipSigns_suffix ':' ':' ts).length_le
  refine .bind (ih.segment _ k _ _ (h.skipSigns ':' ':')) fun p k ts ts' h => ?_
  exact ih.furtherSegments p k ts ts' h

theorem furtherSegments_succ (p : PathShape) : AgreeFor (Code.furtherSegments (n + 1) p) := by
  intro k ts ts' h
  rw [Code.furtherSegments, Code.furtherSegments]
  refine .ite (by apply h.look; simp) (fun _ => ?_) fun _ => .done _ h (Nat.le_refl _)
  refine .mono ?_ (length_drop_le 2 ts)
  refine .bind (ih.segment p k _ _ (h.drop 2)) fun p k ts ts' h => ?_
  exact ih.furtherSegments p k ts ts' h

theorem segment_succ (p : PathShape) : AgreeFor (Code.segment (n + 1) p) := by
  intro k ts ts' h
  rw [Code.segment, Code.segment]
  refine .bind (ident_agree k ts ts' h) fun i k ts ts' h => ?_
  refine .ite rfl (fun _ => .done _ h (Nat.le_refl _)) fun _ => ?_
  refine .ite rfl (fun _ => ?_) fun _ => .failed _
  have hdirect : (atSign '<' ts && !atSigns '<' '=' ts) =
      (atSign '<' ts' && !atSigns '<' '=' ts') := by
    apply h.look
    simp
  have hbehind : (atSigns ':' ':' ts && atSign '<' (ts.drop 2)) =
      (atSigns ':' ':' ts' && atSign '<' (ts'.drop 2)) := by
    apply h.look
    simp
  dsimp only
  rw [hdirect, hbehind]
  refine .ite rfl (fun _ => ?_) fun _ => .done _ h (Nat.le_refl _)
  cases atSign '<' ts' && !atSigns '<' '=' ts' with
  | true =>
    refine .mono ?_ (length_drop_le 1 ts)
    exact .bind (ih.genericArguments k _ _ (h.drop 1)) fun _ _ _ _ h => .done _ h (Nat.le_refl _)
  | false =>
    refine .mono ?_ (Nat.le_trans (length_drop_le 1 _) (length_drop_le 2 ts))
    exact .bind (ih.genericArguments k _ _ ((h.drop 2).drop 1)) fun _ _ _ _ h =>
      .done _ h (Nat.le_refl _)

theorem genericArgument_succ : AgreeFor (Code.genericArgument (n + 1)) := by
  intro k ts ts' h
  rw [Code.genericArgument, Code.genericArgument]
  refine .ite (by apply h.look; simp) (fun _ => .done _ (h.drop 2) (length_drop_le 2 ts))
    fun _ => ?_
  refine .ite (by apply h.look; simp) (fun _ => literal_agree k ts ts' h) fun _ => ?_
  refine .ite (by apply h.look; simp) (fun _ => .done _ (h.drop 1) (length_drop_le 1 ts))
    fun _ => ?_
  refine .bind (ih.readType true k ts ts' h) fun shape k ts ts' h => ?_
  cases shape with
  | other => exact .done _ h (Nat.le_refl _)
  | path p =>
    refine .ite rfl (fun _ => .done _ h (Nat.le_refl _)) fun _ => ?_
    refine .ite (by apply h.look; simp) (fun _ => ?_) fun _ => ?_
    · refine .mono ?_ (length_drop_le 1 ts)
      refine .ite (by apply h.look; simp) (fun _ => literal_agree k _ _ (h.drop 1)) fun _ => ?_
      refine .ite (by apply h.look; simp) (fun _ => ?_) fun _ => ?_
      · exact .done _ ((h.drop 1).drop 1) (length_drop_le 1 _)
      · exact .bind (ih.readType true k _ _ (h.drop 1)) fun _ _ _ _ h => .done _ h (Nat.le_refl _)
    refine .ite (by apply h.look; simp) (fun _ => ?_) fun _ => .done _ h (Nat.le_refl _)
    exact (ih.boundList _ k _ _ (h.drop 1)).mono (length_drop_le 1 ts)

theorem typePath_succ : AgreeFor (Code.typePath (n + 1)) := by
  intro k ts ts' h
  rw [Code.typePath, Code.typePath]
  refine .ite (by apply h.look; simp) (fun _ => ?_) fun _ => ?_
  · refine .bind (sign_agree _ k ts ts' h) fun _ k ts ts' h => ?_
    refine .bind (ih.readType true k ts ts' h) fun _ k ts ts' h => ?_
    refine .optional (by apply h.look; simp) h ?_ fun k ts ts' h => ?_
    · exact ((ih.path k _ _ (h.drop 1)).mono (length_drop_le 1 ts)).bare
    refine .bind (sign_agree _ k ts ts' h) fun _ k ts ts' h => ?_
    refine .bind (signs_agree _ _ k ts ts' h) fun _ k ts ts' h => ?_
    refine .bind (ih.segment _ k ts ts' h) fun p k ts ts' h => ?_
    refine .bind (ih.furtherSegments p k ts ts' h) fun p k ts ts' h => ?_
    exact ih.calls p k ts ts' h
  · exact .bind (ih.path k ts ts' h) fun p k ts ts' h => ih.calls p k ts ts' h

theorem pathType_succ (plus quantified : Bool) (p : PathShape) :
    AgreeFor (Code.pathType (n + 1) plus quantified p) := by
  intro k ts ts' h
  rw [Code.pathType.eq_def, Code.pathType.eq_def]
  dsimp only
  refine .ite rfl (fun _ => .done _ h (Nat.le_refl _)) fun _ => ?_
  refine .ite (by apply h.look; simp) (fun _ => ?_) fun _ => ?_
  · cases h with
    | nil => exact .failed _
    | same h | group _ h =>
      cases h with
      | nil => exact .failed _
      | group _ h => exact .done _ h (by simp only [List.length_cons]; omega)
      | @same t _ _ h =>
        cases t with
        | group => exact .done _ h (by simp only [List.length_cons]; omega)
        | _ => exact .failed _
  refine .ite (by apply h.look; simp) (fun _ => ?_) fun _ => ?_
  · exact .bind (ih.furtherBounds k ts ts' h) fun _ _ _ _ h => .done _ h (Nat.le_refl _)
  exact .ite rfl (fun _ => .done _ h (Nat.le_refl _)) fun _ => .done _ h (Nat.le_refl _)

theorem parenthesized_succ (plus : Bool) : AgreeFor (Code.parenthesized (n + 1) plus) := by
  intro k ts ts' h
  rw [Code.parenthesized, Code.parenthesized]
  refine .bindGroup h fun content k ts ts' h => ?_
  refine .ite rfl (fun _ => .done _ h (Nat.le_refl _)) fun _ => ?_
  refine .ite rfl (fun _ => ?_) fun _ => ?_
  · refine .bindSame fun v => ?_
    exact .ite rfl (fun _ => .done _ h (Nat.le_refl _)) fun _ => .failed _
  refine .ite rfl (fun _ => ?_) fun _ => ?_
  · refine .bindSame fun v => ?_
    refine .ite rfl (fun _ => ?_) fun _ => .failed _
    exact .bind (ih.furtherBounds k ts ts' h) fun _ _ _ _ h => .done _ h (Nat.le_refl _)
  refine .bindSame fun v => ?_
  refine .ite rfl (fun _ => ?_) fun _ => ?_
  · exact .bindSame fun _ => .done _ h (Nat.le_refl _)
  refine .ite rfl (fun _ => ?_) fun _ => .failed _
  obtain ⟨shape, rest⟩ := v
  cases shape with
  | other => exact .done _ h (Nat.le_refl _)
  | path p =>
    refine .ite (by apply h.look; simp) (fun _ => ?_) fun _ => .done _ h (Nat.le_refl _)
    exact .bind (ih.furtherBounds k ts ts' h) fun _ _ _ _ h => .done _ h (Nat.le_refl _)

theorem readType_succ (plus : Bool) : AgreeFor (Code.readType (n + 1) plus) := by
  intro k ts ts' h
  rw [Code.readType, Code.readType]
  refine .ite (by apply h.look; simp) (fun _ => ?_) fun _ => ?_
  · refine .bind (ih.boundLifetimes k ts ts' h) fun _ k ts ts' h => ?_
    refine .ite (by apply h.look; simp) (fun _ => ih.functionType k ts ts' h) fun _ => ?_
    refine .ite (by apply h.look; simp) (fun _ => ?_) fun _ => .failed _
    refine .bind (ih.typePath k ts ts' h) fun p k ts ts' h => ?_
    exact ih.pathType plus true p k ts ts' h
  refine .ite (by apply h.look; simp) (fun _ => ih.parenthesized plus k ts ts' h) fun _ => ?_
  refine .ite (by apply h.look; simp) (fun _ => ih.functionType k ts ts' h) fun _ => ?_
  refine .ite (by apply h.look; simp) (fun _ => ?_) fun _ => ?_
  · refine .bind (ih.typePath k ts ts' h) fun p k ts ts' h => ?_
    exact ih.pathType plus false p k ts ts' h
  refine .ite (by apply h.look; simp) (fun _ => ?_) fun _ => ?_
  · refine .bind (word_agree _ k ts ts' h) fun _ k ts ts' h => ?_
    refine .mono ?_ (skipSign_suffix '*' ts).length_le
    exact .bind (ih.bounds plus k _ _ (h.skipSign '*')) fun _ _ _ _ h => .done _ h (Nat.le_refl _)
  refine .ite (by apply h.look; simp) (fun _ => ?_) fun _ => ?_
  · refine .bindGroup h fun content k ts ts' h => ?_
    refine .bindSame fun v => ?_
    obtain ⟨_, rest⟩ := v
    dsimp only
    split
    · exact .done _ h (Nat.le_refl _)
    · exact .done _ h (Nat.le_refl _)
    · exact .failed _
  refine .ite (by apply h.look; simp) (fun _ => ?_) fun _ => ?_
  · refine .bind (sign_agree _ k ts ts' h) fun _ k ts ts' h => ?_
    refine .ite (by apply h.look; simp) (fun _ => ?_) fun _ => .failed _
    refine .mono ?_ (length_drop_le 1 ts)
    exact .bind (ih.readType false k _ _ (h.drop 1)) fun _ _ _ _ h => .done _ h (Nat.le_refl _)
  refine .ite (by apply h.look; simp) (fun _ => ?_) fun _ => ?_
  · refine .bind (sign_agree _ k ts ts' h) fun _ k ts ts' h => ?_
    have hstart := h.afterLifetime.skipWord "mut"
    refine .mono (.bind (ih.readType false k _ _ hstart) fun _ _ _ _ h => ?_) ?_
    · exact .done _ h (Nat.le_refl _)
    refine Nat.le_trans (skipWord_suffix "mut" _).length_le ?_
    split
    · exact length_drop_le 2 ts
    · exact Nat.le_refl _
  refine .ite (by apply h.look; simp) (fun _ => .done _ (h.drop 1) (length_drop_le 1 ts))
    fun _ => ?_
  refine .ite (by apply h.look; simp) (fun _ => ?_) fun _ => ?_
  · refine .bind (word_agree _ k ts ts' h) fun _ k ts ts' h => ?_
    exact .bind (ih.bounds plus k ts ts' h) fun _ _ _ _ h => .done _ h (Nat.le_refl _)
  refine .ite (by apply h.look; simp) (fun _ => .done _ (h.drop 1) (length_drop_le 1 ts))
    fun _ => ?_
  refine .ite (by apply h.look; simp) (fun _ => ?_) fun _ => .failed _
  exact .bind (ih.bounds plus k ts ts' h) fun _ _ _ _ h => .done _ h (Nat.le_refl _)

theorem succ : Agreeing (n + 1) where
  readType := ih.readType_succ
  pathType := ih.pathType_succ
  parenthesized := ih.parenthesized_succ
  functionType := ih.functionType_succ
  output := ih.output_succ
  typePath := ih.typePath_succ
  calls := ih.calls_succ
  path := ih.path_succ
  furtherSegments := ih.furtherSegments_succ
  segment := ih.segment_succ
  genericArguments := ih.genericArguments_succ
  genericArgument := ih.genericArgument_succ
  bounds := ih.bounds_succ
  furtherBounds := ih.furtherBounds_succ
  bound := ih.bound_succ
  traitBound := ih.traitBound_succ
  boundList := ih.boundList_succ
  boundLifetimes := ih.boundLifetimes_succ
  lifetimeList := ih.lifetimeList_succ

omit ih

/-- The readers take nothing if the bound is zero. -/
theorem zero : Agreeing 0 where
  readType := fun _ => agreeFor_of_none fun _ => rfl
  pathType := fun _ _ _ => agreeFor_of_none fun _ => rfl
  parenthesized := fun _ => agreeFor_of_none fun _ => rfl
  functionType := agreeFor_of_none fun _ => rfl
  output := fun _ => agreeFor_of_none fun _ => rfl
  typePath := agreeFor_of_none fun _ => rfl
  calls := fun _ => agreeFor_of_none fun _ => rfl
  path := agreeFor_of_none fun _ => rfl
  furtherSegments := fun _ => agreeFor_of_none fun _ => rfl
  segment := fun _ => agreeFor_of_none fun _ => rfl
  genericArguments := agreeFor_of_none fun _ => rfl
  genericArgument := agreeFor_of_none fun _ => rfl
  bounds := fun _ => agreeFor_of_none fun _ => rfl
  furtherBounds := agreeFor_of_none fun _ => rfl
  bound := agreeFor_of_none fun _ => rfl
  traitBound := agreeFor_of_none fun _ => rfl
  boundList := fun _ => agreeFor_of_none fun _ => rfl
  boundLifetimes := agreeFor_of_none fun _ => rfl
  lifetimeList := agreeFor_of_none fun _ => rfl

theorem all (n : Nat) : Agreeing n := by
  induction n with
  | zero => exact zero
  | succ n ih => exact ih.succ

end Agreeing

/-- A type is one whatever is written inside the groups behind it. -/
theorem typeSyntax_of_alike {type after after' : List TokenTree} {t : TypeSyntax}
    (h : Alike after.length after after') (ht : typeSyntax (type ++ after) = some (t, after)) :
    typeSyntax (type ++ after') = some (t, after') := by
  obtain ⟨hread, htokens⟩ := typeSyntax_eq_some_iff.1 ht
  rw [taken_append] at htokens
  have hagree := (Agreeing.all _).readType true _ _ _ (h.append_left type) t.shape after hread
  obtain ⟨rest, halike, hread'⟩ := hagree.2 (Nat.le_refl _)
  have hnesting := readType_nesting hread'
  have htype : typeSyntax (type ++ after') = some (⟨taken (type ++ after') rest, t.shape⟩, rest) :=
    typeSyntax_eq_some_iff.2 ⟨hnesting, rfl⟩
  have hsplit := tokens_of_typeSyntax htype
  have hlength : rest.length = after'.length := halike.length_eq.symm.trans h.length_eq
  obtain ⟨_, rfl⟩ := List.append_inj' hsplit hlength.symm
  exact typeSyntax_eq_some_iff.2 ⟨hnesting, by rw [htokens, taken_append]⟩

end MetricWiring.Code
