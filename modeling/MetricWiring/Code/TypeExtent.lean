import MetricWiring.Code.TypeDepth

/-!
# How far a type extends

The readers of types look ahead to see whether a type goes on. None of the signs they look for is a
comma, unless they are inside angle brackets, where an end has to follow. So a reader that stops at
a comma, or at the end, takes the same trees if another comma with anything else behind it, or the
end, comes there instead (`Lasts`, `LastsFor`). The readers call each other under a bound on their
depth; that they last is shown for all of them at once by induction on the bound (`Lasting`). Of
types it follows that what is one before a comma is one before any other comma and at the end
(`typeSyntax_lasts`), and that a type is read back as the trees it was made of
(`tokens_of_typeSyntax`).
-/
namespace MetricWiring.Code

/-- What may stand behind a type without being part of it: nothing, or a comma and more. -/
inductive Stop where
  | nothing
  | comma (joint : Bool) (more : List TokenTree)

def Stop.trees : Stop → List TokenTree
  | nothing => []
  | comma joint more => .punct ',' joint :: more

section Lookahead

variable (ts : List TokenTree) (stop : Stop)

@[simp] theorem atSign_stop {c : Char} (hc : c ≠ ',') :
    atSign c (ts ++ stop.trees) = atSign c ts := by
  cases ts with
  | cons t ts => cases t <;> rfl
  | nil => cases stop <;> simp [Stop.trees, atSign, hc.symm]

@[simp] theorem atSigns_stop {c d : Char} (hc : c ≠ ',') (hd : d ≠ ',') :
    atSigns c d (ts ++ stop.trees) = atSigns c d ts := by
  match ts with
  | [] => rcases stop with _ | ⟨_ | _, _ | ⟨_ | _, _⟩⟩ <;> simp [Stop.trees, atSigns, hc.symm]
  | [t] => rcases t with _ | ⟨_, _ | _⟩ <;> cases stop <;> simp [Stop.trees, atSigns, hd.symm]
  | t :: u :: ts => rcases t with _ | ⟨_, _ | _⟩ <;> cases u <;> rfl

@[simp] theorem atWord_stop (word : String) :
    atWord word (ts ++ stop.trees) = atWord word ts := by
  cases ts with
  | cons t ts => cases t <;> rfl
  | nil => cases stop <;> rfl

@[simp] theorem atName_stop : atName (ts ++ stop.trees) = atName ts := by
  cases ts with
  | cons t ts => cases t <;> rfl
  | nil => cases stop <;> rfl

@[simp] theorem atIdent_stop : atIdent (ts ++ stop.trees) = atIdent ts := by
  cases ts with
  | cons t ts => cases t <;> rfl
  | nil => cases stop <;> rfl

@[simp] theorem atGroup_stop (d : Delimiter) :
    atGroup d (ts ++ stop.trees) = atGroup d ts := by
  cases ts with
  | cons t ts => cases t <;> rfl
  | nil => cases stop <;> rfl

@[simp] theorem atLifetime_stop : atLifetime (ts ++ stop.trees) = atLifetime ts := by
  match ts with
  | [] => cases stop <;> rfl
  | [t] => cases t <;> cases stop <;> simp [Stop.trees, atLifetime]
  | t :: u :: ts =>
    cases t with
    | punct c joint =>
      by_cases hc : c = '\''
      · subst hc
        cases u <;> rfl
      · simp [atLifetime, hc]
    | _ => rfl

@[simp] theorem atLiteral_stop : atLiteral (ts ++ stop.trees) = atLiteral ts := by
  match ts with
  | [] => cases stop <;> rfl
  | [t] => cases t <;> cases stop <;> simp [Stop.trees, atLiteral]
  | t :: u :: ts =>
    cases t with
    | punct c joint =>
      by_cases hc : c = '-'
      · subst hc
        rcases u with _ | _ | ⟨_ | _⟩ | _ <;> rfl
      · simp [atLiteral, hc]
    | _ => rfl

theorem drop_stop {k : Nat} (h : k ≤ ts.length) :
    (ts ++ stop.trees).drop k = ts.drop k ++ stop.trees :=
  List.drop_append_of_le_length h

end Lookahead

section Length

variable {ts : List TokenTree}

theorem one_le_of_atSign {c : Char} (h : atSign c ts = true) : 1 ≤ ts.length := by
  cases ts with
  | nil => cases h
  | cons t ts => simp

theorem one_le_of_atWord {word : String} (h : atWord word ts = true) : 1 ≤ ts.length := by
  cases ts with
  | nil => cases h
  | cons t ts => simp

theorem one_le_of_atGroup {d : Delimiter} (h : atGroup d ts = true) : 1 ≤ ts.length := by
  cases ts with
  | nil => cases h
  | cons t ts => simp

theorem two_le_of_atSigns {c d : Char} (h : atSigns c d ts = true) : 2 ≤ ts.length := by
  match ts with
  | [] => cases h
  | [.ident _] | [.punct _ true] | [.punct _ false] | [.literal _] | [.group _ _] => cases h
  | _ :: _ :: _ => simp

theorem two_le_of_atLifetime (h : atLifetime ts = true) : 2 ≤ ts.length := by
  match ts with
  | [] => cases h
  | [.ident _] | [.punct _ _] | [.literal _] | [.group _ _] => simp [atLifetime] at h
  | _ :: _ :: _ => simp

end Length

@[simp] theorem skipSign_stop (ts : List TokenTree) (stop : Stop) {c : Char} (hc : c ≠ ',') :
    skipSign c (ts ++ stop.trees) = skipSign c ts ++ stop.trees := by
  rw [skipSign, skipSign, atSign_stop ts stop hc]
  split
  · rename_i h
    exact drop_stop ts stop (one_le_of_atSign h)
  · rfl

@[simp] theorem skipSigns_stop (ts : List TokenTree) (stop : Stop) {c d : Char} (hc : c ≠ ',')
    (hd : d ≠ ',') : skipSigns c d (ts ++ stop.trees) = skipSigns c d ts ++ stop.trees := by
  rw [skipSigns, skipSigns, atSigns_stop ts stop hc hd]
  split
  · rename_i h
    exact drop_stop ts stop (two_le_of_atSigns h)
  · rfl

@[simp] theorem skipWord_stop (ts : List TokenTree) (stop : Stop) (word : String) :
    skipWord word (ts ++ stop.trees) = skipWord word ts ++ stop.trees := by
  rw [skipWord, skipWord, atWord_stop]
  split
  · rename_i h
    exact drop_stop ts stop (one_le_of_atWord h)
  · rfl

/-! ## Readings that last -/

/-- Two readings take trees from the front of `ts`, behind which the first one finds one stop and
the second one another. If the first one does not run into its stop, both take the same trees and
leave their stops. -/
def Lasts {α : Type} (stop stop' : Stop) (ts : List TokenTree)
    (x y : Option (α × List TokenTree)) : Prop :=
  ∀ v rest, x = some (v, rest) → rest.length < stop.trees.length ∨
    ∃ left, left <:+ ts ∧ rest = left ++ stop.trees ∧ y = some (v, left ++ stop'.trees)

/-- The same of readings without a value. -/
def LastsBare (stop stop' : Stop) (ts : List TokenTree) (x y : Option (List TokenTree)) : Prop :=
  ∀ rest, x = some rest → rest.length < stop.trees.length ∨
    ∃ left, left <:+ ts ∧ rest = left ++ stop.trees ∧ y = some (left ++ stop'.trees)

namespace Lasts

variable {α β : Type} {stop stop' : Stop} {ts ts' : List TokenTree}

theorem failed (y : Option (α × List TokenTree)) : Lasts stop stop' ts none y := by
  intro v rest h
  cases h

theorem done (v : α) (h : ts' <:+ ts) :
    Lasts stop stop' ts (some (v, ts' ++ stop.trees)) (some (v, ts' ++ stop'.trees)) := by
  intro w rest hw
  cases hw
  exact .inr ⟨ts', h, rfl, rfl⟩

/-- Trees that are passed over. -/
theorem dropped {k : Nat} (v : α) (hk : k ≤ ts.length) :
    Lasts stop stop' ts (some (v, (ts ++ stop.trees).drop k))
      (some (v, (ts ++ stop'.trees).drop k)) := by
  rw [drop_stop ts stop hk, drop_stop ts stop' hk]
  exact .done v (List.drop_suffix k ts)

theorem within {x y : Option (α × List TokenTree)} (hxy : Lasts stop stop' ts' x y)
    (h : ts' <:+ ts) : Lasts stop stop' ts x y := by
  intro v rest hv
  rcases hxy v rest hv with hrest | ⟨left, hleft, hrest, hy⟩
  · exact .inl hrest
  · exact .inr ⟨left, hleft.trans h, hrest, hy⟩

theorem ite {x y x' y' : Option (α × List TokenTree)} {b b' : Bool} (hb : b = b')
    (hthen : b = true → Lasts stop stop' ts x y) (helse : b = false → Lasts stop stop' ts x' y') :
    Lasts stop stop' ts (if b then x else x') (if b' then y else y') := by
  subst hb
  cases b with
  | true => exact hthen rfl
  | false => exact helse rfl

/-- What runs into the stop leaves less than the stop, and so does all that is read behind it. -/
theorem bind {x y : Option (β × List TokenTree)}
    {f g : β × List TokenTree → Option (α × List TokenTree)} (hxy : Lasts stop stop' ts x y)
    (hfg : ∀ v stop stop' rest,
      Lasts stop stop' rest (f (v, rest ++ stop.trees)) (g (v, rest ++ stop'.trees))) :
    Lasts stop stop' ts (x >>= f) (y >>= g) := by
  intro w rest hw
  obtain ⟨⟨v, middle⟩, hx, hf⟩ := Option.bind_eq_some_iff.1 hw
  rcases hxy v middle hx with hless | ⟨left, hleft, rfl, hy⟩
  · left
    have hmiddle := hfg v .nothing .nothing middle w rest (by rwa [Stop.trees, List.append_nil])
    rcases hmiddle with hnone | ⟨left, hleft, rfl, _⟩
    · cases hnone
    · rw [Stop.trees, List.append_nil]
      exact Nat.lt_of_le_of_lt hleft.length_le hless
  · rcases hfg v stop stop' left w rest hf with hrest | ⟨left', hleft', hrest, hg⟩
    · exact .inl hrest
    · exact .inr ⟨left', hleft'.trans hleft, hrest, Option.bind_eq_some_iff.2 ⟨_, hy, hg⟩⟩

theorem bindBare {x y : Option (List TokenTree)}
    {f g : List TokenTree → Option (α × List TokenTree)} (hxy : LastsBare stop stop' ts x y)
    (hfg : ∀ stop stop' rest,
      Lasts stop stop' rest (f (rest ++ stop.trees)) (g (rest ++ stop'.trees))) :
    Lasts stop stop' ts (x >>= f) (y >>= g) := by
  have hunit : Lasts stop stop' ts (x.map (Prod.mk ())) (y.map (Prod.mk ())) := by
    intro v rest hv
    obtain ⟨_, hx, hrest⟩ := Option.map_eq_some_iff.1 hv
    cases hrest
    rcases hxy rest hx with hless | ⟨left, hleft, hrest, hy⟩
    · exact .inl hless
    · exact .inr ⟨left, hleft, hrest, by rw [hy]; rfl⟩
  have hbind := hunit.bind (f := fun v => f v.2) (g := fun v => g v.2) fun _ => hfg
  cases x <;> cases y <;> exact hbind

/-- What is found in a group does not depend on what stands behind it. -/
theorem bindInside {x : Option β} {f g : β → Option (α × List TokenTree)}
    (hfg : ∀ v, Lasts stop stop' ts (f v) (g v)) : Lasts stop stop' ts (x >>= f) (x >>= g) := by
  cases x with
  | none => exact .failed _
  | some v => exact hfg v

/-- An optional reading without a value, and what is read behind it in either case. -/
theorem optional {x y : Option (List TokenTree)}
    {f g : List TokenTree → Option (α × List TokenTree)} {b b' : Bool} (hb : b = b')
    (hxy : b = true → LastsBare stop stop' ts x y)
    (hfg : ∀ stop stop' rest,
      Lasts stop stop' rest (f (rest ++ stop.trees)) (g (rest ++ stop'.trees))) :
    Lasts stop stop' ts (if b then x >>= f else some (ts ++ stop.trees) >>= f)
      (if b' then y >>= g else some (ts ++ stop'.trees) >>= g) :=
  .ite hb (fun h => .bindBare (hxy h) hfg) fun _ => hfg stop stop' ts

theorem bare {x y : Option (α × List TokenTree)} (h : Lasts stop stop' ts x y) :
    LastsBare stop stop' ts (x.map Prod.snd) (y.map Prod.snd) := by
  intro rest hrest
  obtain ⟨⟨v, _⟩, hx, rfl⟩ := Option.map_eq_some_iff.1 hrest
  rcases h v _ hx with hless | ⟨left, hleft, hrest, hy⟩
  · exact .inl hless
  · exact .inr ⟨left, hleft, hrest, by rw [hy]; rfl⟩

end Lasts

namespace LastsBare

variable {stop stop' : Stop} {ts ts' : List TokenTree}

theorem within {x y : Option (List TokenTree)} (hxy : LastsBare stop stop' ts' x y)
    (h : ts' <:+ ts) : LastsBare stop stop' ts x y := by
  intro rest hrest
  rcases hxy rest hrest with hless | ⟨left, hleft, hrest, hy⟩
  · exact .inl hless
  · exact .inr ⟨left, hleft.trans h, hrest, hy⟩

end LastsBare

/-- What the reader takes from the front of a list, it takes too with another stop in the place of
the one behind the list. -/
def LastsFor {α : Type} (read : Reader α) : Prop :=
  ∀ stop stop' ts, Lasts stop stop' ts (read (ts ++ stop.trees)) (read (ts ++ stop'.trees))

/-- What is left is the end of what there was. -/
theorem LastsFor.suffix {α : Type} {read : Reader α} (h : LastsFor read) {ts rest : List TokenTree}
    {v : α} (hread : read ts = some (v, rest)) : rest <:+ ts := by
  have hnothing : read (ts ++ Stop.nothing.trees) = some (v, rest) := by
    rwa [Stop.trees, List.append_nil]
  rcases h .nothing .nothing ts v rest hnothing with hless | ⟨left, hleft, rfl, _⟩
  · cases hless
  · rwa [Stop.trees, List.append_nil]

theorem LastsFor.leaves {α : Type} {read : Reader α} (h : LastsFor read) (ts : List TokenTree) :
    Leaves (ts.length + 1) (read ts) :=
  fun _ _ hread => Nat.lt_succ_of_le (h.suffix hread).length_le

theorem lastsFor_of_none {α : Type} {read : Reader α} (h : ∀ ts, read ts = none) :
    LastsFor read := by
  intro stop stop' ts
  rw [h]
  exact .failed _

theorem TakesFront.lasts {α : Type} {read : Reader α} (h : TakesFront read) : LastsFor read := by
  intro stop stop' ts v rest hv
  obtain ⟨front, _, hts, hmore⟩ := h _ v rest hv
  rcases List.append_eq_append_iff.1 hts with ⟨beyond, rfl, hstop⟩ | ⟨left, rfl, hrest⟩
  · cases beyond with
    | nil =>
      rw [List.append_nil] at hmore
      exact .inr ⟨[], List.nil_suffix, hstop.symm, hmore _⟩
    | cons t beyond =>
      left
      rw [hstop]
      simp only [List.length_append, List.length_cons]
      omega
  · exact .inr ⟨left, List.suffix_append _ _, hrest, by rw [List.append_assoc, hmore]⟩

/-! ## Steps of the readers of types -/

theorem and_drop_stop {b : Bool} {k : Nat} {ts : List TokenTree} {stop : Stop}
    {f : List TokenTree → Bool} (hk : b = true → k ≤ ts.length)
    (hf : ∀ ts, f (ts ++ stop.trees) = f ts) :
    (b && f ((ts ++ stop.trees).drop k)) = (b && f (ts.drop k)) := by
  cases b with
  | false => rfl
  | true => rw [drop_stop ts stop (hk rfl), hf]

/-- The modifiers before a trait bound are passed over whatever stop there is. -/
theorem exists_modified (ts : List TokenTree) :
    ∃ rest, rest <:+ ts ∧ ∀ stop : Stop,
      (if atSign '~' (ts ++ stop.trees) && atWord "const" ((ts ++ stop.trees).drop 1) then
        (ts ++ stop.trees).drop 2 else skipSign '?' (ts ++ stop.trees)) = rest ++ stop.trees := by
  refine ⟨if atSign '~' ts && atWord "const" (ts.drop 1) then ts.drop 2 else skipSign '?' ts,
    ?_, fun stop => ?_⟩
  · exact suffix_ite (List.drop_suffix 2 ts) (skipSign_suffix '?' ts)
  · rw [atSign_stop ts stop (by decide),
      and_drop_stop (f := atWord "const") one_le_of_atSign (fun ts => atWord_stop ts stop _)]
    split
    · rename_i h
      rw [Bool.and_eq_true] at h
      have hone := one_le_of_atWord h.2
      rw [List.length_drop] at hone
      exact drop_stop ts stop (by omega)
    · exact skipSign_stop ts stop (by decide)

/-- An optional lifetime is passed over whatever stop there is. -/
theorem exists_afterLifetime (ts : List TokenTree) :
    ∃ rest, rest <:+ ts ∧ ∀ stop : Stop,
      (if atLifetime (ts ++ stop.trees) then (ts ++ stop.trees).drop 2 else ts ++ stop.trees) =
        rest ++ stop.trees := by
  simp only [atLifetime_stop]
  cases h : atLifetime ts with
  | true =>
    exact ⟨_, List.drop_suffix 2 ts, fun stop => drop_stop ts stop (two_le_of_atLifetime h)⟩
  | false => exact ⟨_, List.suffix_rfl, fun stop => rfl⟩

theorem skipAbi_stop (ts : List TokenTree) (stop : Stop) :
    skipAbi (ts ++ stop.trees) = skipAbi ts ++ stop.trees := by
  unfold skipAbi
  rw [atWord_stop]
  split
  · rename_i h
    rw [drop_stop ts stop (one_le_of_atWord h)]
    match ts.drop 1 with
    | [] => cases stop <;> rfl
    | .literal (.string ..) :: rest => rfl
    | .literal (.other _) :: _ | .ident _ :: _ | .punct _ _ :: _ | .group _ _ :: _ => rfl
  · rfl

theorem pathContinues_stop (ts : List TokenTree) (stop : Stop) :
    (atSigns ':' ':' (ts ++ stop.trees) &&
        !atGroup .parenthesis ((ts ++ stop.trees).drop 2)) =
      (atSigns ':' ':' ts && !atGroup .parenthesis (ts.drop 2)) := by
  rw [atSigns_stop ts stop (by decide) (by decide)]
  exact and_drop_stop (f := fun ts => !atGroup .parenthesis ts) two_le_of_atSigns (by simp)

theorem lifetimeAlone_stop (ts : List TokenTree) (stop : Stop) :
    (atLifetime (ts ++ stop.trees) && !atSign '+' ((ts ++ stop.trees).drop 2)) =
      (atLifetime ts && !atSign '+' (ts.drop 2)) := by
  rw [atLifetime_stop]
  exact and_drop_stop (f := fun ts => !atSign '+' ts) two_le_of_atLifetime (by simp)

theorem atBoundEnd_stop (ts : List TokenTree) (stop : Stop) {stops : List Char}
    (h : ',' ∈ stops) :
    ((ts ++ stop.trees).isEmpty || stops.any (fun c => atSign c (ts ++ stop.trees)) ||
        atGroup .brace (ts ++ stop.trees)) =
      (ts.isEmpty || stops.any (fun c => atSign c ts) || atGroup .brace ts) := by
  cases ts with
  | cons t ts =>
    have hsign (c : Char) : atSign c (t :: ts ++ stop.trees) = atSign c (t :: ts) := by
      cases t <;> rfl
    simp only [hsign, atGroup_stop]
    rfl
  | nil =>
    cases stop with
    | nothing => rfl
    | comma joint more =>
      have hany : stops.any (fun c => atSign c (Stop.comma joint more).trees) = true :=
        List.any_eq_true.2 ⟨',', h, rfl⟩
      simp [hany]

/-! ## The readers of types -/

/-- All readers with the bound `n` last. -/
structure Lasting (n : Nat) : Prop where
  readType : ∀ plus, LastsFor (Code.readType n plus)
  pathType : ∀ plus quantified p, LastsFor (Code.pathType n plus quantified p)
  parenthesized : ∀ plus, LastsFor (Code.parenthesized n plus)
  functionType : LastsFor (Code.functionType n)
  output : ∀ plus, LastsFor (Code.output n plus)
  typePath : LastsFor (Code.typePath n)
  calls : ∀ p, LastsFor (Code.calls n p)
  path : LastsFor (Code.path n)
  furtherSegments : ∀ p, LastsFor (Code.furtherSegments n p)
  segment : ∀ p, LastsFor (Code.segment n p)
  genericArguments : LastsFor (Code.genericArguments n)
  genericArgument : LastsFor (Code.genericArgument n)
  bounds : ∀ plus, LastsFor (Code.bounds n plus)
  furtherBounds : LastsFor (Code.furtherBounds n)
  bound : LastsFor (Code.bound n)
  traitBound : LastsFor (Code.traitBound n)
  boundList : ∀ stops, ',' ∈ stops → LastsFor (Code.boundList n stops)
  boundLifetimes : LastsFor (Code.boundLifetimes n)
  lifetimeList : LastsFor (Code.lifetimeList n)

namespace Lasting

variable {n : Nat} (ih : Lasting n)

include ih

theorem bounds_succ (plus : Bool) :
    LastsFor (Code.bounds (n + 1) plus) := by
  intro stop stop' ts
  rw [Code.bounds, Code.bounds]
  refine .bind (ih.bound stop stop' ts) fun _ stop stop' rest => ?_
  refine .ite (by simp) (fun _ => ih.furtherBounds stop stop' rest) fun _ => ?_
  exact .done _ List.suffix_rfl

theorem furtherBounds_succ :
    LastsFor (Code.furtherBounds (n + 1)) := by
  intro stop stop' ts
  rw [Code.furtherBounds, Code.furtherBounds]
  refine .ite (by simp) (fun h => ?_) fun _ => .done _ List.suffix_rfl
  have hone : 1 ≤ ts.length := one_le_of_atSign (by simpa using h)
  rw [drop_stop ts stop hone, drop_stop ts stop' hone]
  refine .within ?_ (List.drop_suffix 1 ts)
  refine .ite (by simp) (fun _ => ?_) fun _ => .done _ List.suffix_rfl
  exact .bind (ih.bound stop stop' _) fun _ stop stop' rest => ih.furtherBounds stop stop' rest

theorem bound_succ : LastsFor (Code.bound (n + 1)) := by
  intro stop stop' ts
  rw [Code.bound, Code.bound]
  refine .ite (by simp) (fun _ => lifetime_takesFront.lasts stop stop' ts) fun _ => ?_
  refine .ite (by simp) (fun _ => ?_) fun _ => ih.traitBound stop stop' ts
  refine .bind ((group_takesFront _).lasts stop stop' ts) fun content stop stop' rest => ?_
  refine .bindInside fun _ => ?_
  exact .done _ List.suffix_rfl

theorem traitBound_succ : LastsFor (Code.traitBound (n + 1)) := by
  intro stop stop' ts
  rw [Code.traitBound, Code.traitBound]
  obtain ⟨start, hstart, hts⟩ := exists_modified ts
  simp only [hts]
  refine .within ?_ hstart
  refine .optional (by simp) (fun _ => (ih.boundLifetimes stop stop' start).bare)
    fun stop stop' ts => ?_
  refine .bind (ih.path stop stop' ts) fun p stop stop' ts => ?_
  refine .bind (ih.calls p stop stop' ts) fun _ stop stop' ts => ?_
  exact .done _ List.suffix_rfl

theorem output_succ (plus : Bool) :
    LastsFor (Code.output (n + 1) plus) := by
  intro stop stop' ts
  rw [Code.output, Code.output]
  refine .ite (by simp) (fun h => ?_) fun _ => .done _ List.suffix_rfl
  have htwo : 2 ≤ ts.length := two_le_of_atSigns (by simpa using h)
  rw [drop_stop ts stop htwo, drop_stop ts stop' htwo, atGroup_stop, atGroup_stop]
  refine .within ?_ (List.drop_suffix 2 ts)
  exact .bind (ih.readType plus stop stop' _) fun _ _ _ rest => .done _ List.suffix_rfl

theorem functionType_succ :
    LastsFor (Code.functionType (n + 1)) := by
  intro stop stop' ts
  rw [Code.functionType, Code.functionType, skipWord_stop, skipAbi_stop, skipWord_stop,
    skipAbi_stop]
  refine .within (.bind ((word_takesFront _).lasts stop stop' _) fun _ stop stop' ts => ?_)
    ((skipAbi_suffix _).trans (skipWord_suffix "unsafe" ts))
  refine .bind ((group_takesFront _).lasts stop stop' ts) fun content stop stop' ts => ?_
  refine .bindInside fun _ => ?_
  exact .bind (ih.output false stop stop' ts) fun _ _ _ ts => .done _ List.suffix_rfl

theorem calls_succ (p : PathShape) :
    LastsFor (Code.calls (n + 1) p) := by
  intro stop stop' ts
  rw [Code.calls, Code.calls]
  refine .ite rfl (fun _ => .done _ List.suffix_rfl) fun _ => ?_
  have hinner := skipSigns_suffix ':' ':' ts
  have hstop := skipSigns_stop ts stop (c := ':') (d := ':') (by decide) (by decide)
  have hstop' := skipSigns_stop ts stop' (c := ':') (d := ':') (by decide) (by decide)
  simp only [hstop, hstop']
  generalize skipSigns ':' ':' ts = inner at hinner
  rcases inner with _ | ⟨_ | _ | _ | ⟨_ | _ | _, content⟩, rest⟩
  case nil => cases stop <;> cases stop' <;> exact .done _ List.suffix_rfl
  case cons.group.parenthesis =>
    have hrest : rest <:+ ts := (List.suffix_cons _ _).trans hinner
    refine .within (.bindInside fun _ => ?_) hrest
    refine .bind (ih.output false stop stop' rest) fun continues stop stop' rest => ?_
    refine .ite rfl (fun _ => ?_) fun _ => .done _ List.suffix_rfl
    refine .bind (ih.furtherSegments _ stop stop' rest) fun p stop stop' rest => ?_
    exact ih.calls p stop stop' rest
  all_goals exact .done _ List.suffix_rfl

theorem boundList_succ {stops : List Char} (hstops : ',' ∈ stops) :
    LastsFor (Code.boundList (n + 1) stops) := by
  intro stop stop' ts
  rw [Code.boundList, Code.boundList]
  have hend := (atBoundEnd_stop ts stop hstops).trans (atBoundEnd_stop ts stop' hstops).symm
  refine .ite hend (fun _ => .done _ List.suffix_rfl) fun _ => ?_
  refine .bind (ih.bound stop stop' ts) fun _ stop stop' ts => ?_
  refine .ite (by simp) (fun h => ?_) fun _ => .done _ List.suffix_rfl
  have hone : 1 ≤ ts.length := one_le_of_atSign (by simpa using h)
  rw [drop_stop ts stop hone, drop_stop ts stop' hone]
  exact .within (ih.boundList stops hstops stop stop' _) (List.drop_suffix 1 ts)

theorem boundLifetimes_succ :
    LastsFor (Code.boundLifetimes (n + 1)) := by
  intro stop stop' ts
  rw [Code.boundLifetimes, Code.boundLifetimes]
  refine .bind ((word_takesFront _).lasts stop stop' ts) fun _ stop stop' ts => ?_
  refine .bind ((sign_takesFront _).lasts stop stop' ts) fun _ stop stop' ts => ?_
  exact ih.lifetimeList stop stop' ts

theorem lifetimeList_succ :
    LastsFor (Code.lifetimeList (n + 1)) := by
  intro stop stop' ts
  rw [Code.lifetimeList, Code.lifetimeList]
  refine .ite (by simp) (fun h => .dropped _ (one_le_of_atSign (by simpa using h))) fun _ => ?_
  refine .bind (lifetime_takesFront.lasts stop stop' ts) fun _ stop stop' ts => ?_
  refine .optional (by simp) (fun h => ?_) fun stop stop' ts => ?_
  · have hone : 1 ≤ ts.length := one_le_of_atSign (by simpa using h)
    rw [drop_stop ts stop hone, drop_stop ts stop' hone]
    exact .within (ih.boundList _ (by simp) stop stop' _).bare (List.drop_suffix 1 ts)
  refine .ite (by simp) (fun h => .dropped _ (one_le_of_atSign (by simpa using h))) fun _ => ?_
  refine .bind ((sign_takesFront _).lasts stop stop' ts) fun _ stop stop' ts => ?_
  exact ih.lifetimeList stop stop' ts

theorem genericArguments_succ :
    LastsFor (Code.genericArguments (n + 1)) := by
  intro stop stop' ts
  rw [Code.genericArguments, Code.genericArguments]
  refine .ite (by simp) (fun h => .dropped _ (one_le_of_atSign (by simpa using h))) fun _ => ?_
  refine .bind (ih.genericArgument stop stop' ts) fun _ stop stop' ts => ?_
  refine .ite (by simp) (fun h => .dropped _ (one_le_of_atSign (by simpa using h))) fun _ => ?_
  refine .bind ((sign_takesFront _).lasts stop stop' ts) fun _ stop stop' ts => ?_
  exact ih.genericArguments stop stop' ts

theorem path_succ : LastsFor (Code.path (n + 1)) := by
  intro stop stop' ts
  rw [Code.path, Code.path]
  dsimp only
  rw [skipSigns_stop ts stop (by decide) (by decide), atSigns_stop ts stop (by decide) (by decide),
    skipSigns_stop ts stop' (by decide) (by decide), atSigns_stop ts stop' (by decide) (by decide)]
  refine .within ?_ (skipSigns_suffix ':' ':' ts)
  refine .bind (ih.segment _ stop stop' _) fun p stop stop' ts => ?_
  exact ih.furtherSegments p stop stop' ts

theorem furtherSegments_succ (p : PathShape) :
    LastsFor (Code.furtherSegments (n + 1) p) := by
  intro stop stop' ts
  rw [Code.furtherSegments, Code.furtherSegments, pathContinues_stop, pathContinues_stop]
  refine .ite rfl (fun h => ?_) fun _ => .done _ List.suffix_rfl
  rw [Bool.and_eq_true] at h
  have htwo := two_le_of_atSigns h.1
  rw [drop_stop ts stop htwo, drop_stop ts stop' htwo]
  refine .within ?_ (List.drop_suffix 2 ts)
  refine .bind (ih.segment p stop stop' _) fun p stop stop' ts => ?_
  exact ih.furtherSegments p stop stop' ts

theorem segment_succ (p : PathShape) :
    LastsFor (Code.segment (n + 1) p) := by
  intro stop stop' ts
  rw [Code.segment, Code.segment]
  refine .bind (ident_takesFront.lasts stop stop' ts) fun i stop stop' ts => ?_
  refine .ite rfl (fun _ => .done _ List.suffix_rfl) fun _ => ?_
  refine .ite rfl (fun _ => ?_) fun _ => .failed _
  have hdirect (stop : Stop) :
      (atSign '<' (ts ++ stop.trees) && !atSigns '<' '=' (ts ++ stop.trees)) =
        (atSign '<' ts && !atSigns '<' '=' ts) := by simp
  have hbehind (stop : Stop) :
      (atSigns ':' ':' (ts ++ stop.trees) && atSign '<' ((ts ++ stop.trees).drop 2)) =
        (atSigns ':' ':' ts && atSign '<' (ts.drop 2)) := by
    rw [atSigns_stop ts stop (by decide) (by decide)]
    exact and_drop_stop (f := atSign '<') two_le_of_atSigns (by simp)
  dsimp only
  rw [hdirect, hdirect, hbehind, hbehind]
  refine .ite rfl (fun h => ?_) fun _ => .done _ List.suffix_rfl
  cases hopens : atSign '<' ts && !atSigns '<' '=' ts with
  | true =>
    rw [Bool.and_eq_true] at hopens
    have hone := one_le_of_atSign hopens.1
    simp only [if_true]
    rw [drop_stop ts stop hone, drop_stop ts stop' hone]
    refine .within ?_ (List.drop_suffix 1 ts)
    exact .bind (ih.genericArguments stop stop' _) fun _ _ _ ts => .done _ List.suffix_rfl
  | false =>
    rw [hopens, Bool.false_or, Bool.and_eq_true] at h
    have htwo := two_le_of_atSigns h.1
    have hone := one_le_of_atSign h.2
    simp only [Bool.false_eq_true, if_false]
    rw [drop_stop ts stop htwo, drop_stop ts stop' htwo, drop_stop _ stop hone,
      drop_stop _ stop' hone]
    refine .within ?_ ((List.drop_suffix 1 _).trans (List.drop_suffix 2 ts))
    exact .bind (ih.genericArguments stop stop' _) fun _ _ _ ts => .done _ List.suffix_rfl

theorem genericArgument_succ :
    LastsFor (Code.genericArgument (n + 1)) := by
  intro stop stop' ts
  rw [Code.genericArgument, Code.genericArgument, lifetimeAlone_stop, lifetimeAlone_stop]
  refine .ite rfl (fun h => ?_) fun _ => ?_
  · rw [Bool.and_eq_true] at h
    exact .dropped _ (two_le_of_atLifetime h.1)
  refine .ite (by simp) (fun _ => literal_takesFront.lasts stop stop' ts) fun _ => ?_
  refine .ite (by simp) (fun h => .dropped _ (one_le_of_atGroup (by simpa using h))) fun _ => ?_
  refine .bind (ih.readType true stop stop' ts) fun shape stop stop' rest => ?_
  cases shape with
  | other => exact .done _ List.suffix_rfl
  | path p =>
    refine .ite rfl (fun _ => .done _ List.suffix_rfl) fun _ => ?_
    refine .ite (by simp) (fun h => ?_) fun _ => ?_
    · have hone : 1 ≤ rest.length := one_le_of_atSign (by simpa using h)
      rw [drop_stop rest stop hone, drop_stop rest stop' hone]
      refine .within ?_ (List.drop_suffix 1 rest)
      generalize rest.drop 1 = rest
      refine .ite (by simp) (fun _ => literal_takesFront.lasts stop stop' rest) fun _ => ?_
      refine .ite (by simp) (fun h => .dropped _ (one_le_of_atGroup (by simpa using h))) fun _ => ?_
      exact .bind (ih.readType true stop stop' rest) fun _ _ _ rest => .done _ List.suffix_rfl
    refine .ite (by simp) (fun h => ?_) fun _ => .done _ List.suffix_rfl
    have hone : 1 ≤ rest.length := one_le_of_atSign (by simpa using h)
    rw [drop_stop rest stop hone, drop_stop rest stop' hone]
    exact .within (ih.boundList _ (by simp) stop stop' _) (List.drop_suffix 1 rest)

theorem typePath_succ : LastsFor (Code.typePath (n + 1)) := by
  intro stop stop' ts
  rw [Code.typePath, Code.typePath]
  refine .ite (by simp) (fun _ => ?_) fun _ => ?_
  · refine .bind ((sign_takesFront _).lasts stop stop' ts) fun _ stop stop' ts => ?_
    refine .bind (ih.readType true stop stop' ts) fun _ stop stop' ts => ?_
    refine .optional (by simp) (fun h => ?_) fun stop stop' ts => ?_
    · have hone : 1 ≤ ts.length := one_le_of_atWord (by simpa using h)
      rw [drop_stop ts stop hone, drop_stop ts stop' hone]
      exact .within (ih.path stop stop' _).bare (List.drop_suffix 1 ts)
    refine .bind ((sign_takesFront _).lasts stop stop' ts) fun _ stop stop' ts => ?_
    refine .bind ((signs_takesFront _ _).lasts stop stop' ts) fun _ stop stop' ts => ?_
    refine .bind (ih.segment _ stop stop' ts) fun p stop stop' ts => ?_
    refine .bind (ih.furtherSegments p stop stop' ts) fun p stop stop' ts => ?_
    exact ih.calls p stop stop' ts
  · exact .bind (ih.path stop stop' ts) fun p stop stop' ts => ih.calls p stop stop' ts

theorem pathType_succ (plus quantified : Bool) (p : PathShape) :
    LastsFor (Code.pathType (n + 1) plus quantified p) := by
  intro stop stop' ts
  rw [Code.pathType.eq_def, Code.pathType.eq_def]
  dsimp only
  refine .ite rfl (fun _ => .done _ List.suffix_rfl) fun _ => ?_
  refine .ite (by simp) (fun h => ?_) fun _ => ?_
  · rcases ts with _ | ⟨t, _ | ⟨_ | _ | _ | _, rest⟩⟩
    case nil => cases stop <;> simp [Stop.trees, atSign] at h
    case cons.nil => cases stop <;> exact .failed _
    case cons.cons.group => exact .done _ (List.suffix_append [t, _] rest)
    all_goals exact .failed _
  refine .ite (by simp) (fun _ => ?_) fun _ => ?_
  · exact .bind (ih.furtherBounds stop stop' ts) fun _ _ _ ts => .done _ List.suffix_rfl
  exact .ite rfl (fun _ => .done _ List.suffix_rfl) fun _ => .done _ List.suffix_rfl

theorem parenthesized_succ (plus : Bool) :
    LastsFor (Code.parenthesized (n + 1) plus) := by
  intro stop stop' ts
  rw [Code.parenthesized, Code.parenthesized]
  refine .bind ((group_takesFront _).lasts stop stop' ts) fun content stop stop' ts => ?_
  refine .ite rfl (fun _ => .done _ List.suffix_rfl) fun _ => ?_
  refine .ite rfl (fun _ => ?_) fun _ => ?_
  · refine .bindInside fun v => ?_
    exact .ite rfl (fun _ => .done _ List.suffix_rfl) fun _ => .failed _
  refine .ite rfl (fun _ => ?_) fun _ => ?_
  · refine .bindInside fun v => ?_
    refine .ite rfl (fun _ => ?_) fun _ => .failed _
    exact .bind (ih.furtherBounds stop stop' ts) fun _ _ _ ts => .done _ List.suffix_rfl
  refine .bindInside fun v => ?_
  refine .ite rfl (fun _ => ?_) fun _ => ?_
  · exact .bindInside fun _ => .done _ List.suffix_rfl
  refine .ite rfl (fun _ => ?_) fun _ => .failed _
  obtain ⟨shape, rest⟩ := v
  cases shape with
  | other => exact .done _ List.suffix_rfl
  | path p =>
    refine .ite (by simp) (fun _ => ?_) fun _ => .done _ List.suffix_rfl
    exact .bind (ih.furtherBounds stop stop' ts) fun _ _ _ ts => .done _ List.suffix_rfl

theorem readType_succ (plus : Bool) :
    LastsFor (Code.readType (n + 1) plus) := by
  intro stop stop' ts
  rw [Code.readType, Code.readType]
  refine .ite (by simp) (fun _ => ?_) fun _ => ?_
  · refine .bind (ih.boundLifetimes stop stop' ts) fun _ stop stop' ts => ?_
    refine .ite (by simp) (fun _ => ih.functionType stop stop' ts) fun _ => ?_
    refine .ite (by simp) (fun _ => ?_) fun _ => .failed _
    refine .bind (ih.typePath stop stop' ts) fun p stop stop' ts => ?_
    exact ih.pathType plus true p stop stop' ts
  refine .ite (by simp) (fun _ => ih.parenthesized plus stop stop' ts) fun _ => ?_
  refine .ite (by simp) (fun _ => ih.functionType stop stop' ts) fun _ => ?_
  refine .ite (by simp) (fun _ => ?_) fun _ => ?_
  · refine .bind (ih.typePath stop stop' ts) fun p stop stop' ts => ?_
    exact ih.pathType plus false p stop stop' ts
  refine .ite (by simp) (fun _ => ?_) fun _ => ?_
  · refine .bind ((word_takesFront _).lasts stop stop' ts) fun _ stop stop' ts => ?_
    dsimp only
    rw [skipSign_stop ts stop (by decide), skipSign_stop ts stop' (by decide)]
    refine .within ?_ (skipSign_suffix '*' ts)
    exact .bind (ih.bounds plus stop stop' _) fun _ _ _ ts => .done _ List.suffix_rfl
  refine .ite (by simp) (fun _ => ?_) fun _ => ?_
  · refine .bind ((group_takesFront _).lasts stop stop' ts) fun content stop stop' ts => ?_
    refine .bindInside fun v => ?_
    obtain ⟨_, rest⟩ := v
    dsimp only
    split
    · exact .done _ List.suffix_rfl
    · exact .done _ List.suffix_rfl
    · exact .failed _
  refine .ite (by simp) (fun _ => ?_) fun _ => ?_
  · refine .bind ((sign_takesFront _).lasts stop stop' ts) fun _ stop stop' ts => ?_
    refine .ite (by simp) (fun h => ?_) fun _ => .failed _
    have hone : 1 ≤ ts.length := by
      rw [atWord_stop, atWord_stop, Bool.or_eq_true] at h
      exact h.elim one_le_of_atWord one_le_of_atWord
    rw [drop_stop ts stop hone, drop_stop ts stop' hone]
    refine .within ?_ (List.drop_suffix 1 ts)
    exact .bind (ih.readType false stop stop' _) fun _ _ _ ts => .done _ List.suffix_rfl
  refine .ite (by simp) (fun _ => ?_) fun _ => ?_
  · refine .bind ((sign_takesFront _).lasts stop stop' ts) fun _ stop stop' ts => ?_
    obtain ⟨start, hstart, hts⟩ := exists_afterLifetime ts
    dsimp only
    rw [hts, hts, skipWord_stop, skipWord_stop]
    refine .within ?_ ((skipWord_suffix "mut" start).trans hstart)
    exact .bind (ih.readType false stop stop' _) fun _ _ _ ts => .done _ List.suffix_rfl
  refine .ite (by simp) (fun h => ?_) fun _ => ?_
  · rw [Bool.and_eq_true] at h
    exact .dropped _ (one_le_of_atSign (by simpa using h.1))
  refine .ite (by simp) (fun _ => ?_) fun _ => ?_
  · refine .bind ((word_takesFront _).lasts stop stop' ts) fun _ stop stop' ts => ?_
    exact .bind (ih.bounds plus stop stop' ts) fun _ _ _ ts => .done _ List.suffix_rfl
  refine .ite (by simp) (fun h => .dropped _ (one_le_of_atWord (by simpa using h))) fun _ => ?_
  refine .ite (by simp) (fun _ => ?_) fun _ => .failed _
  exact .bind (ih.bounds plus stop stop' ts) fun _ _ _ ts => .done _ List.suffix_rfl

theorem succ : Lasting (n + 1) where
  readType := ih.readType_succ
  pathType := ih.pathType_succ
  parenthesized := ih.parenthesized_succ
  functionType := ih.functionType_succ
  output := ih.output_succ
  typePath := ih.typePath_succ
  calls := ih.calls_succ
  path := ih.path_succ
  furtherSegments := ih.furtherSegments_succ
  segment := ih.segment_succ
  genericArguments := ih.genericArguments_succ
  genericArgument := ih.genericArgument_succ
  bounds := ih.bounds_succ
  furtherBounds := ih.furtherBounds_succ
  bound := ih.bound_succ
  traitBound := ih.traitBound_succ
  boundList := fun _ hstops => ih.boundList_succ hstops
  boundLifetimes := ih.boundLifetimes_succ
  lifetimeList := ih.lifetimeList_succ

omit ih

/-- The readers take nothing if the bound is zero. -/
theorem zero : Lasting 0 where
  readType := fun _ => lastsFor_of_none fun _ => rfl
  pathType := fun _ _ _ => lastsFor_of_none fun _ => rfl
  parenthesized := fun _ => lastsFor_of_none fun _ => rfl
  functionType := lastsFor_of_none fun _ => rfl
  output := fun _ => lastsFor_of_none fun _ => rfl
  typePath := lastsFor_of_none fun _ => rfl
  calls := fun _ => lastsFor_of_none fun _ => rfl
  path := lastsFor_of_none fun _ => rfl
  furtherSegments := fun _ => lastsFor_of_none fun _ => rfl
  segment := fun _ => lastsFor_of_none fun _ => rfl
  genericArguments := lastsFor_of_none fun _ => rfl
  genericArgument := lastsFor_of_none fun _ => rfl
  bounds := fun _ => lastsFor_of_none fun _ => rfl
  furtherBounds := lastsFor_of_none fun _ => rfl
  bound := lastsFor_of_none fun _ => rfl
  traitBound := lastsFor_of_none fun _ => rfl
  boundList := fun _ _ => lastsFor_of_none fun _ => rfl
  boundLifetimes := lastsFor_of_none fun _ => rfl
  lifetimeList := lastsFor_of_none fun _ => rfl

theorem all (n : Nat) : Lasting n := by
  induction n with
  | zero => exact zero
  | succ n ih => exact ih.succ

end Lasting

/-! ## Types as they are written -/

@[simp] theorem taken_append (used rest : List TokenTree) : taken (used ++ rest) rest = used := by
  simp [taken]

theorem typeSyntax_eq_some_iff {ts rest : List TokenTree} {t : TypeSyntax} :
    typeSyntax ts = some (t, rest) ↔
      readType (nesting ts) true ts = some (t.shape, rest) ∧ t.tokens = taken ts rest := by
  obtain ⟨tokens, shape⟩ := t
  rw [typeSyntax, Option.map_eq_some_iff]
  constructor
  · rintro ⟨⟨_, _⟩, hread, heq⟩
    cases heq
    exact ⟨hread, rfl⟩
  · rintro ⟨hread, rfl⟩
    exact ⟨_, hread, rfl⟩

theorem typeSyntax_lasts : LastsFor typeSyntax := by
  intro stop stop' ts t rest h
  obtain ⟨hread, htokens⟩ := typeSyntax_eq_some_iff.1 h
  rcases (Lasting.all _).readType true stop stop' ts _ rest hread with
    hless | ⟨left, hleft, rfl, hstop⟩
  · exact .inl hless
  · refine .inr ⟨left, hleft, rfl, typeSyntax_eq_some_iff.2 ⟨readType_nesting hstop, ?_⟩⟩
    obtain ⟨used, rfl⟩ := hleft
    rw [htokens]
    simp only [List.append_assoc, taken_append]

/-- A type takes its own trees from the front of a list. -/
theorem tokens_of_typeSyntax {ts rest : List TokenTree} {t : TypeSyntax}
    (h : typeSyntax ts = some (t, rest)) : ts = t.tokens ++ rest := by
  have htokens := (typeSyntax_eq_some_iff.1 h).2
  obtain ⟨used, rfl⟩ := typeSyntax_lasts.suffix h
  rw [htokens, taken_append]

end MetricWiring.Code
