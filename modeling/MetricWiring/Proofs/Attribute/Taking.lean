import MetricWiring.Proofs.Attribute.Markers

/-!
# Taking the markers off in place

Taking the markers off the attributes of a method goes through the list twice. The first time only
reads: it collects the declarations and may stop at an error. The second time drops the markers from
the list. Run on a list that it changes in place (`takeInPlace`), it therefore either splits the
list into declarations and other attributes or leaves it as it was (`take_splits`), and it answers
what `take` does (`run_takeInPlace`).
-/
namespace MetricWiring.Marker

open Code (Attribute)

/-- A computation on the attributes of a method, which keeps what it has done when it fails. -/
abbrev OnAttributes (α : Type) : Type := EStateM AttributeError (List Attribute) α

/-- Adds the declaration of one attribute to those found before it. -/
def collectNext (found : List (Kind × DeclarationArguments)) (a : Attribute) :
    OnAttributes (List (Kind × DeclarationArguments)) :=
  match kind? a with
  | none => return found
  | some k => do
    let args ← MonadExcept.ofExcept (arguments k a)
    if (found.map Prod.fst).contains k then throw .duplicateKind
    else return found ++ [(k, args)]

/-- Collects the declarations of the markers, and drops these when all of them have been read. -/
def takeInPlace : OnAttributes (List (Kind × DeclarationArguments)) := do
  let declared ← (← get).foldlM collectNext []
  modify fun as => as.filter fun a => (kind? a).isNone
  return declared

/-- What a computation that only reads leaves behind, by its answer. -/
def reading {α : Type} (as : List Attribute) :
    Except AttributeError α → EStateM.Result AttributeError (List Attribute) α
  | .ok v => .ok v as
  | .error e => .error e as

/-- The first passage answers what `collect` does, and leaves the list as it is. -/
theorem run_foldlM_collectNext (found : List (Kind × DeclarationArguments))
    (as held : List Attribute) :
    (as.foldlM collectNext found).run held = reading held (collect found as) := by
  induction as generalizing found with
  | nil => rfl
  | cons a as ih =>
    rw [List.foldlM_cons, EStateM.run_bind, collectNext, collect]
    cases kind? a with
    | none => exact ih found
    | some k =>
      cases hargs : arguments k a with
      | error e =>
        simp only [hargs]
        rfl
      | ok args =>
        by_cases hmem : (found.map Prod.fst).contains k = true
        · simp only [hargs, if_pos hmem]
          rfl
        · simp only [hargs, if_neg hmem]
          exact ih (found ++ [(k, args)])

theorem run_takeInPlace (as : List Attribute) :
    takeInPlace.run as =
      match take as with
      | .ok (declared, left) => .ok declared left
      | .error e => .error e as := by
  have hfirst := run_foldlM_collectNext [] as as
  rw [takeInPlace, take]
  simp only [EStateM.run_bind, EStateM.run_get, hfirst]
  cases collect [] as with
  | ok declared => rfl
  | error e => rfl

/-! ## The split -/

/-- The last segment of the path is the keyword of the kind, not raw. -/
def Names (k : Kind) (a : Attribute) : Prop :=
  ∃ leading, a.path.segments = leading ++ [⟨k.keyword, false⟩]

/-- An attribute declares a kind with the arguments that are written in it. -/
def Carries (a : Attribute) (d : Kind × DeclarationArguments) : Prop :=
  Names d.1 a ∧ ∃ given, Given a given ∧ d.2 = .ofList given

/-- The attributes `as` are split into declarations and other attributes. -/
structure Splits (as : List Attribute) (declared : List (Kind × DeclarationArguments))
    (left : List Attribute) : Prop where
  carries : List.Forall₂ Carries (as.filter fun a => (kind? a).isSome) declared
  nodup : (declared.map Prod.fst).Nodup
  left_eq : left = as.filter fun a => (kind? a).isNone
  length_eq : declared.length + left.length = as.length
  again : takeInPlace.run left = .ok [] left

theorem kind?_eq_some_iff {a : Attribute} {k : Kind} : kind? a = some k ↔ Names k a := by
  rw [kind?, Names]
  cases hlast : a.path.segments.getLast? with
  | none =>
    rw [List.getLast?_eq_none_iff] at hlast
    simp [hlast]
  | some i =>
    obtain ⟨leading, hsegments⟩ := List.getLast?_eq_some_iff.1 hlast
    obtain ⟨name, raw⟩ := i
    rw [hsegments]
    cases raw with
    | true => simp
    | false =>
      simp only [Bool.false_eq_true, if_false, Kind.ofKeyword?_eq_some_iff]
      constructor
      · rintro rfl
        exact ⟨leading, rfl⟩
      · rintro ⟨leading', hsame⟩
        have hi := (List.append_inj' hsame rfl).2
        simpa using hi

theorem forall₂_carries {as : List Attribute} (h : WellFormed as) :
    List.Forall₂ Carries (as.filter fun a => (kind? a).isSome) (declarations as) := by
  apply forall₂_of_declaration?
  intro a ha k hk
  obtain ⟨given, hgiven, hcounted⟩ := h.fits a ha k hk
  have hargs := arguments_of_given hgiven hcounted
  refine ⟨.ofList given, ?_, kind?_eq_some_iff.1 hk, given, hgiven, rfl⟩
  rw [declaration?, hk, Option.bind_some, hargs]
  rfl

/-- Where no marker stands, there is nothing to take off. -/
theorem take_of_no_marker {as : List Attribute} (h : ∀ a ∈ as, kind? a = none) :
    take as = .ok ([], as) := by
  have hkinds : kinds as = [] := List.filterMap_eq_nil_iff.2 h
  have hwell : WellFormed as := by
    constructor
    · intro a ha k hk
      rw [h a ha] at hk
      cases hk
    · rw [hkinds]
      exact List.nodup_nil
  have hdeclared : declarations as = [] := by
    rw [← List.map_eq_nil_iff, map_fst_declarations hwell.fits, hkinds]
  have hleft : remaining as = as :=
    List.filter_eq_self.2 fun a ha => by simp [h a ha]
  rw [take_of_wellFormed hwell, hdeclared, hleft]

theorem splits_of_wellFormed {as : List Attribute} (h : WellFormed as) :
    Splits as (declarations as) (remaining as) := by
  have hcarries := forall₂_carries h
  constructor
  case carries => exact hcarries
  case nodup =>
    rw [map_fst_declarations h.fits]
    exact h.nodup
  case left_eq => rfl
  case length_eq =>
    have hpartition := List.length_eq_length_filter_add (l := as) fun a => (kind? a).isSome
    rw [← hcarries.length_eq, remaining, hpartition]
    simp only [Option.not_isSome]
  case again =>
    have hnone : ∀ a ∈ remaining as, kind? a = none := by
      intro a ha
      simpa using (List.mem_filter.1 ha).2
    rw [run_takeInPlace, take_of_no_marker hnone]

theorem run_takeInPlace_eq_ok_iff {as left : List Attribute}
    {declared : List (Kind × DeclarationArguments)} :
    takeInPlace.run as = .ok declared left ↔
      WellFormed as ∧ declared = declarations as ∧ left = remaining as := by
  rw [run_takeInPlace]
  constructor
  · intro h
    rcases wellFormed_or_firstDefect as with hwell | ⟨e, hdefect⟩
    · rw [take_of_wellFormed hwell] at h
      cases h
      exact ⟨hwell, rfl, rfl⟩
    · rw [take_of_firstDefect hdefect] at h
      cases h
  · rintro ⟨hwell, rfl, rfl⟩
    rw [take_of_wellFormed hwell]

theorem run_takeInPlace_eq_error_iff {as left : List Attribute} {e : AttributeError} :
    takeInPlace.run as = .error e left ↔ FirstDefect as e ∧ left = as := by
  rw [run_takeInPlace]
  constructor
  · intro h
    rcases wellFormed_or_firstDefect as with hwell | ⟨e', hdefect⟩
    · rw [take_of_wellFormed hwell] at h
      cases h
    · rw [take_of_firstDefect hdefect] at h
      cases h
      exact ⟨hdefect, rfl⟩
  · rintro ⟨hdefect, rfl⟩
    rw [take_of_firstDefect hdefect]

/-- Markers are the attributes whose path ends in a keyword. Taking them off succeeds exactly if
they are in order. The list is then split into one declaration for each marker and all the other
attributes, both in their order, and no marker is left to be taken off. Otherwise the first marker
that is not in order is reported, and the list stays as it was. The answers are those of `take`. -/
theorem take_splits (as : List Attribute) :
    (∀ a k, kind? a = some k ↔ Names k a) ∧
      ((∃ declared left, takeInPlace.run as = .ok declared left) ↔ WellFormed as) ∧
      (∀ declared left, takeInPlace.run as = .ok declared left → Splits as declared left) ∧
      (∀ e left, takeInPlace.run as = .error e left ↔ FirstDefect as e ∧ left = as) ∧
      takeInPlace.run as =
        match take as with
        | .ok (declared, left) => .ok declared left
        | .error e => .error e as := by
  refine ⟨fun _ _ => kind?_eq_some_iff, ⟨?_, ?_⟩, ?_, fun _ _ => run_takeInPlace_eq_error_iff,
    run_takeInPlace as⟩
  · rintro ⟨declared, left, h⟩
    exact (run_takeInPlace_eq_ok_iff.1 h).1
  · intro hwell
    exact ⟨_, _, run_takeInPlace_eq_ok_iff.2 ⟨hwell, rfl, rfl⟩⟩
  · intro declared left h
    obtain ⟨hwell, rfl, rfl⟩ := run_takeInPlace_eq_ok_iff.1 h
    exact splits_of_wellFormed hwell

end MetricWiring.Marker
