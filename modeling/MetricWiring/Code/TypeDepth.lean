import MetricWiring.Code.TypeSyntax

/-!
# How deep types nest

The readers of types call each other under a bound on their depth. Between two calls on lists of the
same size there are only a few others, and every other call is on a smaller list. So twelve calls
for each tree are more than enough: what a reader takes under any bound, it takes under that one
(`Enough.all`, `readType_nesting`), and the bound never decides what a type is.

The readers are compared with themselves under another bound (`Within`). A number is given to each
of them, such that a reader calls those with larger numbers on smaller lists only.
-/
namespace MetricWiring.Code

/-! ## What is passed over -/

theorem skipAbi_suffix (ts : List TokenTree) : skipAbi ts <:+ ts := by
  unfold skipAbi
  split
  · have hdrop := List.drop_suffix 1 ts
    split
    · rename_i hrest
      rw [hrest] at hdrop
      exact (List.suffix_cons _ _).trans hdrop
    · exact hdrop
  · exact List.suffix_rfl

theorem dropArgumentName_suffix (ts : List TokenTree) : dropArgumentName ts <:+ ts := by
  unfold dropArgumentName
  split
  · split
    · exact List.suffix_append [_, _] _
    · exact List.suffix_rfl
  · exact List.suffix_rfl

/-! ## The number of trees -/

section Count

variable {ts rest : List TokenTree}

theorem treeCountOfList_append (ts us : List TokenTree) :
    treeCountOfList (ts ++ us) = treeCountOfList ts + treeCountOfList us := by
  induction ts with
  | nil => simp [treeCountOfList]
  | cons t ts ih => rw [List.cons_append, treeCountOfList, treeCountOfList, ih, Nat.add_assoc]

theorem one_le_treeCount (t : TokenTree) : 1 ≤ treeCount t := by
  cases t <;> simp [treeCount]

theorem treeCountOfList_cons (t : TokenTree) (ts : List TokenTree) :
    treeCountOfList ts < treeCountOfList (t :: ts) := by
  have := one_le_treeCount t
  rw [treeCountOfList]
  omega

theorem treeCountOfList_le (h : rest <:+ ts) : treeCountOfList rest ≤ treeCountOfList ts := by
  obtain ⟨used, rfl⟩ := h
  rw [treeCountOfList_append]
  omega

/-- Whoever is at some tree makes the list smaller by passing over it. -/
theorem treeCountOfList_drop_lt (h : ts ≠ []) {k : Nat} (hk : 0 < k) :
    treeCountOfList (ts.drop k) < treeCountOfList ts := by
  match ts, k with
  | [], _ => exact absurd rfl h
  | _, 0 => exact absurd hk (Nat.lt_irrefl 0)
  | t :: ts, k + 1 =>
    have hdrop := treeCountOfList_le (List.drop_suffix k ts)
    have hcons := treeCountOfList_cons t ts
    rw [List.drop_succ_cons]
    omega

theorem ne_nil_of_atSign {c : Char} (h : atSign c ts = true) : ts ≠ [] := by
  rintro rfl
  cases h

theorem ne_nil_of_atSigns {c d : Char} (h : atSigns c d ts = true) : ts ≠ [] := by
  rintro rfl
  cases h

theorem TakesFront.treeCount_lt {α : Type} {read : Reader α} {v : α} (h : TakesFront read)
    (hread : read ts = some (v, rest)) : treeCountOfList rest < treeCountOfList ts := by
  obtain ⟨front, hne, rfl, _⟩ := h ts v rest hread
  obtain ⟨t, more, rfl⟩ := List.exists_cons_of_ne_nil hne
  have hcons := treeCountOfList_cons t (more ++ rest)
  have hmore := treeCountOfList_le (List.suffix_append more rest)
  rw [List.cons_append]
  omega

theorem lt_of_group {d : Delimiter} {content : List TokenTree}
    (h : group d ts = some (content, rest)) :
    treeCountOfList content + treeCountOfList rest < treeCountOfList ts := by
  unfold group at h
  split at h
  · split at h
    · cases h
      simp only [treeCountOfList, treeCount]
      omega
    · cases h
  · cases h

end Count

/-! ## Readings under two bounds -/

/-- What is found by the first reading is found by the second one. -/
def Stays {α : Type} (x y : Option α) : Prop := ∀ v, x = some v → y = some v

theorem whole_stays {α : Type} {read read' : Reader α} {ts : List TokenTree}
    (h : Stays (read ts) (read' ts)) : Stays (whole read ts) (whole read' ts) := by
  intro v hv
  unfold whole at hv ⊢
  split at hv
  · rename_i hread
    cases hv
    rw [h _ hread]
  · cases hv

/-- The second reading comes out as the first one does, and less than `k` trees are left. -/
def Within {α : Type} (k : Nat) (x y : Option (α × List TokenTree)) : Prop :=
  ∀ v rest, x = some (v, rest) → treeCountOfList rest < k ∧ y = some (v, rest)

/-- The same of readings without a value. -/
def WithinBare (k : Nat) (x y : Option (List TokenTree)) : Prop :=
  ∀ rest, x = some rest → treeCountOfList rest < k ∧ y = some rest

namespace Within

variable {α β : Type} {k l : Nat}

theorem failed (y : Option (α × List TokenTree)) : Within k none y := by
  intro v rest h
  cases h

theorem done {v : α} (rest : List TokenTree) (h : treeCountOfList rest < k) :
    Within k (some (v, rest)) (some (v, rest)) := by
  intro w left hw
  cases hw
  exact ⟨h, rfl⟩

theorem mono {x y : Option (α × List TokenTree)} (h : Within k x y) (hkl : k ≤ l) :
    Within l x y := by
  intro v rest hv
  obtain ⟨hrest, hy⟩ := h v rest hv
  exact ⟨Nat.lt_of_lt_of_le hrest hkl, hy⟩

theorem ite {x y x' y' : Option (α × List TokenTree)} {b : Bool} (hthen : b = true → Within k x y)
    (helse : b = false → Within k x' y') :
    Within k (if b then x else x') (if b then y else y') := by
  cases b with
  | true => exact hthen rfl
  | false => exact helse rfl

theorem bind {x y : Option (β × List TokenTree)}
    {f g : β × List TokenTree → Option (α × List TokenTree)} (hxy : Within l x y)
    (hfg : ∀ v rest, treeCountOfList rest < l → Within k (f (v, rest)) (g (v, rest))) :
    Within k (x >>= f) (y >>= g) := by
  intro w rest hw
  obtain ⟨⟨v, middle⟩, hx, hf⟩ := Option.bind_eq_some_iff.1 hw
  obtain ⟨hmiddle, hy⟩ := hxy v middle hx
  obtain ⟨hrest, hg⟩ := hfg v middle hmiddle w rest hf
  exact ⟨hrest, Option.bind_eq_some_iff.2 ⟨_, hy, hg⟩⟩

/-- A reading without a bound comes first. -/
theorem bindSame {x : Option (β × List TokenTree)}
    {f g : β × List TokenTree → Option (α × List TokenTree)}
    (hfg : ∀ v rest, x = some (v, rest) → Within k (f (v, rest)) (g (v, rest))) :
    Within k (x >>= f) (x >>= g) := by
  intro w rest hw
  obtain ⟨⟨v, middle⟩, hx, hf⟩ := Option.bind_eq_some_iff.1 hw
  obtain ⟨hrest, hg⟩ := hfg v middle hx w rest hf
  exact ⟨hrest, Option.bind_eq_some_iff.2 ⟨_, hx, hg⟩⟩

theorem bindStays {x y : Option β} {f g : β → Option (α × List TokenTree)} (hxy : Stays x y)
    (hfg : ∀ v, Within k (f v) (g v)) : Within k (x >>= f) (y >>= g) := by
  intro w rest hw
  obtain ⟨v, hx, hf⟩ := Option.bind_eq_some_iff.1 hw
  obtain ⟨hrest, hg⟩ := hfg v w rest hf
  exact ⟨hrest, Option.bind_eq_some_iff.2 ⟨v, hxy v hx, hg⟩⟩

/-- An optional reading without a value, and what is read behind it in either case. -/
theorem optional {ts : List TokenTree} {x y : Option (List TokenTree)}
    {f g : List TokenTree → Option (α × List TokenTree)} {b : Bool}
    (hxy : b = true → WithinBare (treeCountOfList ts + 1) x y)
    (hfg : ∀ rest, treeCountOfList rest ≤ treeCountOfList ts → Within k (f rest) (g rest)) :
    Within k (if b then x >>= f else some ts >>= f) (if b then y >>= g else some ts >>= g) := by
  cases b with
  | false => exact hfg ts (Nat.le_refl _)
  | true =>
    intro w rest hw
    obtain ⟨middle, hx, hf⟩ := Option.bind_eq_some_iff.1 hw
    obtain ⟨hmiddle, hy⟩ := hxy rfl middle hx
    obtain ⟨hrest, hg⟩ := hfg middle (by omega) w rest hf
    exact ⟨hrest, Option.bind_eq_some_iff.2 ⟨_, hy, hg⟩⟩

theorem bare {x y : Option (α × List TokenTree)} (h : Within k x y) :
    WithinBare k (x.map Prod.snd) (y.map Prod.snd) := by
  intro rest hrest
  obtain ⟨⟨v, _⟩, hx, rfl⟩ := Option.map_eq_some_iff.1 hrest
  obtain ⟨hless, hy⟩ := h v _ hx
  exact ⟨hless, by rw [hy]; rfl⟩

theorem stays {x y : Option (α × List TokenTree)} (h : Within k x y) : Stays x y :=
  fun v hv => (h v.1 v.2 hv).2

end Within

/-- Under the bound `n`, the reader takes nothing that it would not take under a bound of `rank`
more than twelve calls for each tree. -/
def EnoughFor {α : Type} (rank : Nat) (read : Nat → Reader α) (n : Nat) : Prop :=
  ∀ m ts, 12 * treeCountOfList ts + rank ≤ m →
    Within (treeCountOfList ts + 1) (read n ts) (read m ts)

theorem enoughFor_zero {α : Type} {rank : Nat} {read : Nat → Reader α}
    (h : ∀ ts, read 0 ts = none) : EnoughFor rank read 0 := by
  intro m ts _
  rw [h]
  exact .failed _

theorem enoughFor_succ {α : Type} {rank : Nat} {read : Nat → Reader α} {n : Nat}
    (h : ∀ m ts, 12 * treeCountOfList ts + rank ≤ m →
      Within (treeCountOfList ts + 1) (read (n + 1) ts) (read (m + 1) ts)) :
    EnoughFor (rank + 1) read (n + 1) := by
  intro m ts hm
  cases m with
  | zero => omega
  | succ m => exact h m ts (by omega)

/-! ## The readers of types -/

/-- What any reader takes under the bound `n`, it takes under the bound that is made for it. -/
structure Enough (n : Nat) : Prop where
  readType : ∀ plus, EnoughFor 6 (fun n => Code.readType n plus) n
  pathType : ∀ plus quantified p, EnoughFor 2 (fun n => Code.pathType n plus quantified p) n
  parenthesized : ∀ plus, EnoughFor 1 (fun n => Code.parenthesized n plus) n
  typeList : EnoughFor 7 Code.typeList n
  functionType : EnoughFor 1 Code.functionType n
  functionArguments : EnoughFor 7 Code.functionArguments n
  output : ∀ plus, EnoughFor 1 (fun n => Code.output n plus) n
  typePath : EnoughFor 3 Code.typePath n
  calls : ∀ p, EnoughFor 1 (fun n => Code.calls n p) n
  path : EnoughFor 2 Code.path n
  furtherSegments : ∀ p, EnoughFor 1 (fun n => Code.furtherSegments n p) n
  segment : ∀ p, EnoughFor 1 (fun n => Code.segment n p) n
  genericArguments : EnoughFor 8 Code.genericArguments n
  genericArgument : EnoughFor 7 Code.genericArgument n
  bounds : ∀ plus, EnoughFor 5 (fun n => Code.bounds n plus) n
  furtherBounds : EnoughFor 1 Code.furtherBounds n
  bound : EnoughFor 4 Code.bound n
  traitBound : EnoughFor 3 Code.traitBound n
  boundList : ∀ stops, EnoughFor 5 (fun n => Code.boundList n stops) n
  boundLifetimes : EnoughFor 1 Code.boundLifetimes n
  lifetimeList : EnoughFor 1 Code.lifetimeList n

namespace Enough

variable {n : Nat} (ih : Enough n)

include ih

theorem bounds_succ (plus : Bool) : EnoughFor 5 (fun n => Code.bounds n plus) (n + 1) := by
  refine enoughFor_succ fun m ts hm => ?_
  rw [Code.bounds, Code.bounds]
  refine .bind (ih.bound m ts (by omega)) fun _ rest hrest => ?_
  refine .ite (fun _ => ?_) fun _ => .done rest hrest
  exact (ih.furtherBounds m rest (by omega)).mono hrest

theorem furtherBounds_succ : EnoughFor 1 Code.furtherBounds (n + 1) := by
  refine enoughFor_succ fun m ts hm => ?_
  rw [Code.furtherBounds, Code.furtherBounds]
  refine .ite (fun h => ?_) fun _ => .done ts (by omega)
  have hdrop := treeCountOfList_drop_lt (k := 1) (ne_nil_of_atSign h) (by decide)
  refine .ite (fun _ => ?_) fun _ => .done (ts.drop 1) (by omega)
  refine .bind (ih.bound m _ (by omega)) fun _ rest hrest => ?_
  exact (ih.furtherBounds m rest (by omega)).mono (by omega)

theorem bound_succ : EnoughFor 4 Code.bound (n + 1) := by
  refine enoughFor_succ fun m ts hm => ?_
  rw [Code.bound, Code.bound]
  refine .ite (fun _ => ?_) fun _ => ?_
  · intro v rest h
    exact ⟨Nat.lt_succ_of_lt (lifetime_takesFront.treeCount_lt h), h⟩
  refine .ite (fun _ => ?_) fun _ => ih.traitBound m ts (by omega)
  refine .bindSame fun content rest h => ?_
  have hgroup := lt_of_group h
  have hcontent := (ih.traitBound m content (by omega)).stays
  exact .bindStays (whole_stays hcontent) fun _ => .done rest (by omega)

theorem traitBound_succ : EnoughFor 3 Code.traitBound (n + 1) := by
  refine enoughFor_succ fun m ts hm => ?_
  rw [Code.traitBound, Code.traitBound]
  have hstart : treeCountOfList
      (if (atSign '~' ts && atWord "const" (ts.drop 1)) = true then ts.drop 2
        else skipSign '?' ts) ≤ treeCountOfList ts :=
    treeCountOfList_le (suffix_ite (List.drop_suffix 2 ts) (skipSign_suffix '?' ts))
  generalize (if (atSign '~' ts && atWord "const" (ts.drop 1)) = true then ts.drop 2
    else skipSign '?' ts) = start at hstart
  refine .optional (fun _ => (ih.boundLifetimes m start (by omega)).bare) fun ts hts => ?_
  refine .bind (ih.path m ts (by omega)) fun p rest hrest => ?_
  refine .bind (ih.calls p m rest (by omega)) fun _ left hleft => ?_
  exact .done left (by omega)

theorem output_succ (plus : Bool) : EnoughFor 1 (fun n => Code.output n plus) (n + 1) := by
  refine enoughFor_succ fun m ts hm => ?_
  rw [Code.output, Code.output]
  refine .ite (fun h => ?_) fun _ => .done ts (by omega)
  have hdrop := treeCountOfList_drop_lt (k := 2) (ne_nil_of_atSigns h) (by decide)
  refine .bind (ih.readType plus m _ (by omega)) fun _ rest hrest => ?_
  exact .done rest (by omega)

theorem functionType_succ : EnoughFor 1 Code.functionType (n + 1) := by
  refine enoughFor_succ fun m ts hm => ?_
  rw [Code.functionType, Code.functionType]
  have hstart := treeCountOfList_le ((skipAbi_suffix _).trans (skipWord_suffix "unsafe" ts))
  refine .bindSame fun _ rest h => ?_
  have hrest := (word_takesFront _).treeCount_lt h
  refine .bindSame fun content rest' h => ?_
  have hgroup := lt_of_group h
  have hcontent := (ih.functionArguments m content (by omega)).stays
  refine .bindStays (whole_stays hcontent) fun _ => ?_
  refine .bind (ih.output false m rest' (by omega)) fun _ left hleft => ?_
  exact .done left (by omega)

theorem calls_succ (p : PathShape) : EnoughFor 1 (fun n => Code.calls n p) (n + 1) := by
  refine enoughFor_succ fun m ts hm => ?_
  rw [Code.calls, Code.calls]
  refine .ite (fun _ => .done ts (by omega)) fun _ => ?_
  have hinner := treeCountOfList_le (skipSigns_suffix ':' ':' ts)
  generalize skipSigns ':' ':' ts = inner at hinner
  match inner with
  | [] | .ident _ :: _ | .punct _ _ :: _ | .literal _ :: _ | .group .bracket _ :: _
  | .group .brace _ :: _ => exact .done ts (by omega)
  | .group .parenthesis content :: rest =>
    have hgroup : treeCountOfList content + treeCountOfList rest <
        treeCountOfList (.group .parenthesis content :: rest) :=
      lt_of_group (d := .parenthesis) rfl
    have hcontent := (ih.typeList m content (by omega)).stays
    refine .bindStays (whole_stays hcontent) fun _ => ?_
    refine .bind (ih.output false m rest (by omega)) fun continues rest' hrest' => ?_
    refine .ite (fun _ => ?_) fun _ => .done rest' (by omega)
    refine .bind (ih.furtherSegments _ m rest' (by omega)) fun p left hleft => ?_
    exact (ih.calls p m left (by omega)).mono (by omega)

theorem boundList_succ (stops : List Char) :
    EnoughFor 5 (fun n => Code.boundList n stops) (n + 1) := by
  refine enoughFor_succ fun m ts hm => ?_
  rw [Code.boundList, Code.boundList]
  refine .ite (fun _ => .done ts (by omega)) fun _ => ?_
  refine .bind (ih.bound m ts (by omega)) fun _ rest hrest => ?_
  refine .ite (fun h => ?_) fun _ => .done rest hrest
  have hdrop := treeCountOfList_drop_lt (k := 1) (ne_nil_of_atSign h) (by decide)
  exact (ih.boundList stops m _ (by omega)).mono (by omega)

theorem boundLifetimes_succ : EnoughFor 1 Code.boundLifetimes (n + 1) := by
  refine enoughFor_succ fun m ts hm => ?_
  rw [Code.boundLifetimes, Code.boundLifetimes]
  refine .bindSame fun _ rest hword => ?_
  refine .bindSame fun _ left hsign => ?_
  have hrest := (word_takesFront _).treeCount_lt hword
  have hleft := (sign_takesFront _).treeCount_lt hsign
  exact (ih.lifetimeList m left (by omega)).mono (by omega)

theorem lifetimeList_succ : EnoughFor 1 Code.lifetimeList (n + 1) := by
  refine enoughFor_succ fun m ts hm => ?_
  rw [Code.lifetimeList, Code.lifetimeList]
  have hdrop := treeCountOfList_le (List.drop_suffix 1 ts)
  refine .ite (fun _ => .done (ts.drop 1) (by omega)) fun _ => ?_
  refine .bindSame fun _ rest h => ?_
  have hrest := lifetime_takesFront.treeCount_lt h
  have hless := treeCountOfList_le (List.drop_suffix 1 rest)
  refine .optional (fun _ => ?_) fun left hleft => ?_
  · exact ((ih.boundList _ m _ (by omega)).mono (by omega)).bare
  have hlast := treeCountOfList_le (List.drop_suffix 1 left)
  refine .ite (fun _ => .done (left.drop 1) (by omega)) fun _ => ?_
  refine .bindSame fun _ tail h => ?_
  have htail := (sign_takesFront _).treeCount_lt h
  exact (ih.lifetimeList m tail (by omega)).mono (by omega)

theorem genericArguments_succ : EnoughFor 8 Code.genericArguments (n + 1) := by
  refine enoughFor_succ fun m ts hm => ?_
  rw [Code.genericArguments, Code.genericArguments]
  have hdrop := treeCountOfList_le (List.drop_suffix 1 ts)
  refine .ite (fun _ => .done (ts.drop 1) (by omega)) fun _ => ?_
  refine .bind (ih.genericArgument m ts (by omega)) fun _ rest hrest => ?_
  have hless := treeCountOfList_le (List.drop_suffix 1 rest)
  refine .ite (fun _ => .done (rest.drop 1) (by omega)) fun _ => ?_
  refine .bindSame fun _ left h => ?_
  have hleft := (sign_takesFront _).treeCount_lt h
  exact (ih.genericArguments m left (by omega)).mono (by omega)

theorem path_succ : EnoughFor 2 Code.path (n + 1) := by
  refine enoughFor_succ fun m ts hm => ?_
  rw [Code.path, Code.path]
  have hstart := treeCountOfList_le (skipSigns_suffix ':' ':' ts)
  refine .bind (ih.segment _ m _ (by omega)) fun p rest hrest => ?_
  exact (ih.furtherSegments p m rest (by omega)).mono (by omega)

theorem furtherSegments_succ (p : PathShape) :
    EnoughFor 1 (fun n => Code.furtherSegments n p) (n + 1) := by
  refine enoughFor_succ fun m ts hm => ?_
  rw [Code.furtherSegments, Code.furtherSegments]
  refine .ite (fun h => ?_) fun _ => .done ts (by omega)
  rw [Bool.and_eq_true] at h
  have hdrop := treeCountOfList_drop_lt (k := 2) (ne_nil_of_atSigns h.1) (by decide)
  refine .bind (ih.segment p m _ (by omega)) fun p rest hrest => ?_
  exact (ih.furtherSegments p m rest (by omega)).mono (by omega)

theorem segment_succ (p : PathShape) : EnoughFor 1 (fun n => Code.segment n p) (n + 1) := by
  refine enoughFor_succ fun m ts hm => ?_
  rw [Code.segment, Code.segment]
  refine .bindSame fun i rest h => ?_
  have hrest := ident_takesFront.treeCount_lt h
  refine .ite (fun _ => .done rest (by omega)) fun _ => ?_
  refine .ite (fun _ => ?_) fun _ => .failed _
  refine .ite (fun _ => ?_) fun _ => .done rest (by omega)
  have hstart : treeCountOfList
      ((if (atSign '<' rest && !atSigns '<' '=' rest) = true then rest else rest.drop 2).drop 1) ≤
        treeCountOfList rest :=
    treeCountOfList_le ((List.drop_suffix 1 _).trans
      (suffix_ite List.suffix_rfl (List.drop_suffix 2 rest)))
  refine .bind (ih.genericArguments m _ (by omega)) fun _ left hleft => ?_
  exact .done left (by omega)

theorem genericArgument_succ : EnoughFor 7 Code.genericArgument (n + 1) := by
  refine enoughFor_succ fun m ts hm => ?_
  rw [Code.genericArgument, Code.genericArgument]
  have hone := treeCountOfList_le (List.drop_suffix 1 ts)
  have htwo := treeCountOfList_le (List.drop_suffix 2 ts)
  refine .ite (fun _ => .done (ts.drop 2) (by omega)) fun _ => ?_
  refine .ite (fun _ => ?_) fun _ => ?_
  · intro v rest h
    exact ⟨Nat.lt_succ_of_lt (literal_takesFront.treeCount_lt h), h⟩
  refine .ite (fun _ => .done (ts.drop 1) (by omega)) fun _ => ?_
  refine .bind (ih.readType true m ts (by omega)) fun shape rest hrest => ?_
  cases shape with
  | other => exact .done rest hrest
  | path p =>
    refine .ite (fun _ => .done rest hrest) fun _ => ?_
    refine .ite (fun h => ?_) fun _ => ?_
    · have hdrop := treeCountOfList_drop_lt (k := 1) (ne_nil_of_atSign h) (by decide)
      generalize rest.drop 1 = rest at hdrop
      refine .ite (fun _ => ?_) fun _ => ?_
      · intro v left h
        exact ⟨Nat.lt_of_lt_of_le (literal_takesFront.treeCount_lt h) (by omega), h⟩
      have hless := treeCountOfList_le (List.drop_suffix 1 rest)
      refine .ite (fun _ => .done (rest.drop 1) (by omega)) fun _ => ?_
      refine .bind (ih.readType true m rest (by omega)) fun _ left hleft => ?_
      exact .done left (by omega)
    refine .ite (fun h => ?_) fun _ => .done rest hrest
    have hdrop := treeCountOfList_drop_lt (k := 1) (ne_nil_of_atSign h) (by decide)
    exact (ih.boundList _ m _ (by omega)).mono (by omega)

theorem typePath_succ : EnoughFor 3 Code.typePath (n + 1) := by
  refine enoughFor_succ fun m ts hm => ?_
  rw [Code.typePath, Code.typePath]
  refine .ite (fun _ => ?_) fun _ => ?_
  · refine .bindSame fun _ ts' h => ?_
    have hts' := (sign_takesFront _).treeCount_lt h
    refine .bind (ih.readType true m ts' (by omega)) fun _ rest hrest => ?_
    have hdrop := treeCountOfList_le (List.drop_suffix 1 rest)
    refine .optional (fun _ => ((ih.path m _ (by omega)).mono (by omega)).bare)
      fun rest' hrest' => ?_
    refine .bindSame fun _ tail h => ?_
    have htail := (sign_takesFront _).treeCount_lt h
    refine .bindSame fun _ tail' h => ?_
    have htail' := (signs_takesFront _ _).treeCount_lt h
    refine .bind (ih.segment _ m tail' (by omega)) fun p left hleft => ?_
    refine .bind (ih.furtherSegments p m left (by omega)) fun p left' hleft' => ?_
    exact (ih.calls p m left' (by omega)).mono (by omega)
  · refine .bind (ih.path m ts (by omega)) fun p rest hrest => ?_
    exact (ih.calls p m rest (by omega)).mono (by omega)

theorem typeList_succ : EnoughFor 7 Code.typeList (n + 1) := by
  refine enoughFor_succ fun m ts hm => ?_
  rw [Code.typeList, Code.typeList]
  refine .ite (fun _ => .done [] (by simp [treeCountOfList])) fun _ => ?_
  refine .bind (ih.readType true m ts (by omega)) fun _ rest hrest => ?_
  refine .ite (fun _ => .done [] (by simp [treeCountOfList])) fun _ => ?_
  refine .bindSame fun _ left h => ?_
  have hleft := (sign_takesFront _).treeCount_lt h
  exact (ih.typeList m left (by omega)).mono (by omega)

theorem functionArguments_succ : EnoughFor 7 Code.functionArguments (n + 1) := by
  refine enoughFor_succ fun m ts hm => ?_
  rw [Code.functionArguments, Code.functionArguments]
  have hstart := treeCountOfList_le (dropArgumentName_suffix ts)
  refine .ite (fun _ => .done [] (by simp [treeCountOfList])) fun _ => ?_
  refine .ite (fun _ => ?_) fun _ => ?_
  · exact .ite (fun _ => .done [] (by simp [treeCountOfList])) fun _ => .failed _
  refine .bind (ih.readType true m _ (by omega)) fun _ rest hrest => ?_
  refine .ite (fun _ => .done [] (by simp [treeCountOfList])) fun _ => ?_
  refine .bindSame fun _ left h => ?_
  have hleft := (sign_takesFront _).treeCount_lt h
  exact (ih.functionArguments m left (by omega)).mono (by omega)

theorem pathType_succ (plus quantified : Bool) (p : PathShape) :
    EnoughFor 2 (fun n => Code.pathType n plus quantified p) (n + 1) := by
  refine enoughFor_succ fun m ts hm => ?_
  rw [Code.pathType.eq_def, Code.pathType.eq_def]
  dsimp only
  refine .ite (fun _ => .done ts (by omega)) fun _ => ?_
  refine .ite (fun _ => ?_) fun _ => ?_
  · match ts with
    | t :: .group d content :: rest =>
      have hrest := treeCountOfList_cons (.group d content) rest
      have hcons := treeCountOfList_cons t (.group d content :: rest)
      exact .done rest (by omega)
    | [] | [_] | _ :: .ident _ :: _ | _ :: .punct _ _ :: _ | _ :: .literal _ :: _ =>
      exact .failed _
  refine .ite (fun _ => ?_) fun _ => ?_
  · refine .bind (ih.furtherBounds m ts (by omega)) fun _ rest hrest => ?_
    exact .done rest hrest
  exact .ite (fun _ => .done ts (by omega)) fun _ => .done ts (by omega)

theorem parenthesized_succ (plus : Bool) :
    EnoughFor 1 (fun n => Code.parenthesized n plus) (n + 1) := by
  refine enoughFor_succ fun m ts hm => ?_
  rw [Code.parenthesized, Code.parenthesized]
  refine .bindSame fun content ts' h => ?_
  have hgroup := lt_of_group h
  have hfurther := ih.furtherBounds m ts' (by omega)
  refine .ite (fun _ => .done ts' (by omega)) fun _ => ?_
  refine .ite (fun _ => ?_) fun _ => ?_
  · refine .bind (ih.bounds true m content (by omega)) fun _ rest hrest => ?_
    exact .ite (fun _ => .done ts' (by omega)) fun _ => .failed _
  refine .ite (fun _ => ?_) fun _ => ?_
  · refine .bind (ih.bound m content (by omega)) fun _ rest hrest => ?_
    refine .ite (fun _ => ?_) fun _ => .failed _
    exact .bind hfurther fun _ left hleft => .done left (by omega)
  refine .bind (ih.readType true m content (by omega)) fun shape rest hrest => ?_
  refine .ite (fun _ => ?_) fun _ => ?_
  · have hdrop := treeCountOfList_le (List.drop_suffix 1 rest)
    have hlist := (ih.typeList m (rest.drop 1) (by omega)).stays
    exact .bindStays (whole_stays hlist) fun _ => .done ts' (by omega)
  refine .ite (fun _ => ?_) fun _ => .failed _
  cases shape with
  | other => exact .done ts' (by omega)
  | path p =>
    refine .ite (fun _ => ?_) fun _ => .done ts' (by omega)
    exact .bind hfurther fun _ left hleft => .done left (by omega)

theorem readType_succ (plus : Bool) : EnoughFor 6 (fun n => Code.readType n plus) (n + 1) := by
  refine enoughFor_succ fun m ts hm => ?_
  rw [Code.readType, Code.readType]
  have hone := treeCountOfList_le (List.drop_suffix 1 ts)
  refine .ite (fun _ => ?_) fun _ => ?_
  · refine .bind (ih.boundLifetimes m ts (by omega)) fun _ rest hrest => ?_
    refine .ite (fun _ => ?_) fun _ => ?_
    · exact (ih.functionType m rest (by omega)).mono hrest
    refine .ite (fun _ => ?_) fun _ => .failed _
    refine .bind (ih.typePath m rest (by omega)) fun p left hleft => ?_
    exact (ih.pathType plus true p m left (by omega)).mono (by omega)
  refine .ite (fun _ => ih.parenthesized plus m ts (by omega)) fun _ => ?_
  refine .ite (fun _ => ih.functionType m ts (by omega)) fun _ => ?_
  refine .ite (fun _ => ?_) fun _ => ?_
  · refine .bind (ih.typePath m ts (by omega)) fun p left hleft => ?_
    exact (ih.pathType plus false p m left (by omega)).mono (by omega)
  refine .ite (fun _ => ?_) fun _ => ?_
  · refine .bindSame fun _ rest h => ?_
    have hrest := (word_takesFront _).treeCount_lt h
    have hskip := treeCountOfList_le (skipSign_suffix '*' rest)
    refine .bind (ih.bounds plus m _ (by omega)) fun _ left hleft => ?_
    exact .done left (by omega)
  refine .ite (fun _ => ?_) fun _ => ?_
  · refine .bindSame fun content rest h => ?_
    have hgroup := lt_of_group h
    refine .bind (ih.readType true m content (by omega)) fun _ inside _ => ?_
    dsimp only
    split
    · exact .done rest (by omega)
    · exact .done rest (by omega)
    · exact .failed _
  refine .ite (fun _ => ?_) fun _ => ?_
  · refine .bindSame fun _ rest h => ?_
    have hrest := (sign_takesFront _).treeCount_lt h
    have hdrop := treeCountOfList_le (List.drop_suffix 1 rest)
    refine .ite (fun _ => ?_) fun _ => .failed _
    refine .bind (ih.readType false m _ (by omega)) fun _ left hleft => ?_
    exact .done left (by omega)
  refine .ite (fun _ => ?_) fun _ => ?_
  · refine .bindSame fun _ rest h => ?_
    have hrest := (sign_takesFront _).treeCount_lt h
    have hstart : treeCountOfList (if atLifetime rest = true then rest.drop 2 else rest) ≤
        treeCountOfList rest :=
      treeCountOfList_le (suffix_ite (List.drop_suffix 2 rest) List.suffix_rfl)
    dsimp only
    generalize (if atLifetime rest = true then rest.drop 2 else rest) = start at hstart
    have hskip := treeCountOfList_le (skipWord_suffix "mut" start)
    refine .bind (ih.readType false m _ (by omega)) fun _ left hleft => ?_
    exact .done left (by omega)
  refine .ite (fun _ => .done (ts.drop 1) (by omega)) fun _ => ?_
  refine .ite (fun _ => ?_) fun _ => ?_
  · refine .bindSame fun _ rest h => ?_
    have hrest := (word_takesFront _).treeCount_lt h
    refine .bind (ih.bounds plus m rest (by omega)) fun _ left hleft => ?_
    exact .done left (by omega)
  refine .ite (fun _ => .done (ts.drop 1) (by omega)) fun _ => ?_
  refine .ite (fun _ => ?_) fun _ => .failed _
  refine .bind (ih.bounds plus m ts (by omega)) fun _ left hleft => ?_
  exact .done left hleft

theorem succ : Enough (n + 1) where
  readType := ih.readType_succ
  pathType := ih.pathType_succ
  parenthesized := ih.parenthesized_succ
  typeList := ih.typeList_succ
  functionType := ih.functionType_succ
  functionArguments := ih.functionArguments_succ
  output := ih.output_succ
  typePath := ih.typePath_succ
  calls := ih.calls_succ
  path := ih.path_succ
  furtherSegments := ih.furtherSegments_succ
  segment := ih.segment_succ
  genericArguments := ih.genericArguments_succ
  genericArgument := ih.genericArgument_succ
  bounds := ih.bounds_succ
  furtherBounds := ih.furtherBounds_succ
  bound := ih.bound_succ
  traitBound := ih.traitBound_succ
  boundList := ih.boundList_succ
  boundLifetimes := ih.boundLifetimes_succ
  lifetimeList := ih.lifetimeList_succ

omit ih

theorem zero : Enough 0 where
  readType := fun _ => enoughFor_zero fun _ => rfl
  pathType := fun _ _ _ => enoughFor_zero fun _ => rfl
  parenthesized := fun _ => enoughFor_zero fun _ => rfl
  typeList := enoughFor_zero fun _ => rfl
  functionType := enoughFor_zero fun _ => rfl
  functionArguments := enoughFor_zero fun _ => rfl
  output := fun _ => enoughFor_zero fun _ => rfl
  typePath := enoughFor_zero fun _ => rfl
  calls := fun _ => enoughFor_zero fun _ => rfl
  path := enoughFor_zero fun _ => rfl
  furtherSegments := fun _ => enoughFor_zero fun _ => rfl
  segment := fun _ => enoughFor_zero fun _ => rfl
  genericArguments := enoughFor_zero fun _ => rfl
  genericArgument := enoughFor_zero fun _ => rfl
  bounds := fun _ => enoughFor_zero fun _ => rfl
  furtherBounds := enoughFor_zero fun _ => rfl
  bound := enoughFor_zero fun _ => rfl
  traitBound := enoughFor_zero fun _ => rfl
  boundList := fun _ => enoughFor_zero fun _ => rfl
  boundLifetimes := enoughFor_zero fun _ => rfl
  lifetimeList := enoughFor_zero fun _ => rfl

theorem all (n : Nat) : Enough n := by
  induction n with
  | zero => exact zero
  | succ n ih => exact ih.succ

end Enough

/-- The bound that is made for a list of trees is enough for the type at its front. -/
theorem readType_nesting {n : Nat} {plus : Bool} {ts rest : List TokenTree} {shape : TypeShape}
    (h : readType n plus ts = some (shape, rest)) :
    readType (nesting ts) plus ts = some (shape, rest) := by
  have hbound : 12 * treeCountOfList ts + 6 ≤ nesting ts := by
    rw [nesting]
    omega
  exact ((Enough.all n).readType plus (nesting ts) ts hbound shape rest h).2

end MetricWiring.Code
