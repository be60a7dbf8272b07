import Mathlib.Data.List.Forall2
import Mathlib.Data.List.Induction
import Mathlib.Data.List.Nodup
import MetricWiring.Attribute.Marker
import MetricWiring.Proofs.Attribute.Arguments
import MetricWiring.Proofs.FirstError

/-!
# When the markers of a method are in order

Markers are in order if each of them is written without a value and with arguments that can be read
and fit its kind, and no kind comes twice. They are then taken off with the declarations they are
written with, one for each (`forall₂_declarations`). Otherwise the first one that is not in order is
reported, and of several things wrong with it the form comes first, then `monotonic`, then the
repeated kind (`wellFormed_or_firstDefect`, `take_of_firstDefect`).
-/
namespace MetricWiring.Marker

open Code (Attribute)

/-- The arguments that a marker is written with. -/
inductive Given (a : Attribute) : List DeclarationArgument → Prop
  | bare (hform : a.form = .bare) : Given a []
  | list {d : Code.Delimiter} {content : List Code.TokenTree} {given : List DeclarationArgument}
      (hform : a.form = .list d content) (hread : DeclarationArgument.readAll content = .ok given) :
      Given a given

/-- A marker of the given kind is written with arguments that fit the kind. -/
def Fits (k : Kind) (a : Attribute) : Prop :=
  ∃ given, Given a given ∧ (.monotonic true ∈ given → k = .counted)

/-- The kinds of the markers in a list. -/
def kinds (as : List Attribute) : List Kind := as.filterMap kind?

structure WellFormed (as : List Attribute) : Prop where
  fits : ∀ a ∈ as, ∀ k, kind? a = some k → Fits k a
  nodup : (kinds as).Nodup

/-- What is wrong with a marker that stands behind markers of the kinds `earlier`. -/
inductive Defect (earlier : List Kind) (k : Kind) (a : Attribute) : AttributeError → Prop
  | valued {written : List Code.TokenTree} (hform : a.form = .value written) :
      Defect earlier k a (.valuedMarker k)
  | arguments {d : Code.Delimiter} {content : List Code.TokenTree} {e : AttributeError}
      (hform : a.form = .list d content) (hread : DeclarationArgument.readAll content = .error e) :
      Defect earlier k a e
  | monotonic {given : List DeclarationArgument} (hgiven : Given a given)
      (hon : .monotonic true ∈ given) (hk : k ≠ .counted) :
      Defect earlier k a .misplacedMonotonic
  | repeated (hfits : Fits k a) (hk : k ∈ earlier) : Defect earlier k a .duplicateKind

/-- The first marker of a list that is not in order has the given defect. -/
def FirstDefect (as : List Attribute) (e : AttributeError) : Prop :=
  ∃ before a after k, as = before ++ a :: after ∧ WellFormed before ∧ kind? a = some k ∧
    Defect (kinds before) k a e

/-- The declaration of an attribute that is a marker in order. -/
def declaration? (a : Attribute) : Option (Kind × DeclarationArguments) :=
  (kind? a).bind fun k => (arguments k a).toOption.map (k, ·)

def declarations (as : List Attribute) : List (Kind × DeclarationArguments) :=
  as.filterMap declaration?

/-! ## One marker -/

theorem written_of_given {k : Kind} {a : Attribute} {given : List DeclarationArgument}
    (h : Given a given) : written k a = .ok (.ofList given) := by
  rw [written]
  cases h with
  | bare hform => simp [hform, DeclarationArguments.ofList]
  | list hform hread =>
    simp only [hform]
    exact DeclarationArguments.ofTrees_eq_ok_iff.2 ⟨given, hread, rfl⟩

theorem arguments_of_given {k : Kind} {a : Attribute} {given : List DeclarationArgument}
    (h : Given a given) (hk : .monotonic true ∈ given → k = .counted) :
    arguments k a = .ok (.ofList given) := by
  rw [arguments, written_of_given h]
  exact DeclarationArguments.check_of_imp fun hon =>
    hk (DeclarationArguments.monotonic_ofList_iff.1 hon)

theorem exists_declaration?_of_fits {k : Kind} {a : Attribute} (hk : kind? a = some k)
    (h : Fits k a) :
    ∃ args, written k a = .ok args ∧ arguments k a = .ok args ∧
      declaration? a = some (k, args) := by
  obtain ⟨given, hgiven, hcounted⟩ := h
  have hargs := arguments_of_given hgiven hcounted
  exact ⟨_, written_of_given hgiven, hargs, by simp [declaration?, hk, hargs, Except.toOption]⟩

theorem exists_defect_of_not_fits {k : Kind} {a : Attribute} (h : ¬ Fits k a)
    (earlier : List Kind) : ∃ e, Defect earlier k a e := by
  have hgiven (given : List DeclarationArgument) (hg : Given a given) :
      ∃ e, Defect earlier k a e := by
    by_cases hon : .monotonic true ∈ given
    · refine ⟨_, .monotonic hg hon ?_⟩
      intro hk
      exact h ⟨given, hg, fun _ => hk⟩
    · exact absurd ⟨given, hg, fun hin => absurd hin hon⟩ h
  cases hform : a.form with
  | bare => exact hgiven [] (.bare hform)
  | list d content =>
    cases hread : DeclarationArgument.readAll content with
    | ok given => exact hgiven given (.list hform hread)
    | error e => exact ⟨e, .arguments hform hread⟩
  | value written => exact ⟨_, .valued hform⟩

/-! ## Lists of attributes -/

theorem wellFormed_nil : WellFormed [] where
  fits := by simp
  nodup := by simp [kinds]

theorem wellFormed_concat_iff {as : List Attribute} {a : Attribute} :
    WellFormed (as ++ [a]) ↔
      WellFormed as ∧ ∀ k, kind? a = some k → Fits k a ∧ k ∉ kinds as := by
  constructor
  · intro h
    have hnodup := h.nodup
    rw [kinds, List.filterMap_append, List.nodup_append] at hnodup
    refine ⟨⟨fun b hb => h.fits b (List.mem_append_left _ hb), hnodup.1⟩, ?_⟩
    intro k hk
    refine ⟨h.fits a (by simp) k hk, ?_⟩
    intro hmem
    exact hnodup.2.2 k hmem k (by simp [hk]) rfl
  · rintro ⟨h, ha⟩
    constructor
    · intro b hb k hk
      rcases List.mem_append.1 hb with hb | hb
      · exact h.fits b hb k hk
      · rw [List.mem_singleton] at hb
        subst hb
        exact (ha k hk).1
    · rw [kinds, List.filterMap_append]
      cases hk : kind? a with
      | none => simpa [hk, kinds] using h.nodup
      | some k =>
        rw [List.filterMap_cons_some hk, List.filterMap_nil, ← List.concat_eq_append]
        exact List.Nodup.concat (ha k hk).2 h.nodup

theorem map_fst_declarations {as : List Attribute}
    (h : ∀ a ∈ as, ∀ k, kind? a = some k → Fits k a) :
    (declarations as).map Prod.fst = kinds as := by
  rw [declarations, List.map_filterMap, kinds]
  apply List.filterMap_congr
  intro a ha
  cases hk : kind? a with
  | none => simp [declaration?, hk]
  | some k =>
    obtain ⟨args, _, _, hdeclaration⟩ := exists_declaration?_of_fits hk (h a ha k hk)
    simp [hdeclaration]

/-- A declaration is the one that an attribute is written with. -/
def Declares (a : Attribute) (d : Kind × Declaration) : Prop :=
  kind? a = some d.1 ∧ ∃ args, written d.1 a = .ok args ∧
    d.2 = ⟨args.name.getD "", args.absolute, args.monotonic⟩

/-- The markers of a list and their declarations go together one by one. -/
theorem forall₂_of_declaration? {P : Attribute → Kind × DeclarationArguments → Prop}
    {as : List Attribute}
    (h : ∀ a ∈ as, ∀ k, kind? a = some k →
      ∃ args, declaration? a = some (k, args) ∧ P a (k, args)) :
    List.Forall₂ P (as.filter fun a => (kind? a).isSome) (declarations as) := by
  induction as with
  | nil => exact .nil
  | cons a as ih =>
    rw [List.forall_mem_cons] at h
    cases hk : kind? a with
    | none => simpa [declarations, declaration?, hk] using ih h.2
    | some k =>
      obtain ⟨args, hdeclaration, ha⟩ := h.1 k hk
      rw [declarations, List.filterMap_cons_some hdeclaration,
        List.filter_cons_of_pos (by simp [hk])]
      exact .cons ha (ih h.2)

/-- Markers in order declare one thing each. -/
theorem forall₂_declarations {as : List Attribute} (h : WellFormed as) :
    List.Forall₂ Declares (as.filter fun a => (kind? a).isSome)
      ((declarations as).map fun d =>
        (d.1, ⟨d.2.name.getD "", d.2.absolute, d.2.monotonic⟩)) := by
  rw [List.forall₂_map_right_iff]
  apply forall₂_of_declaration?
  intro a ha k hk
  obtain ⟨args, hwritten, _, hdeclaration⟩ := exists_declaration?_of_fits hk (h.fits a ha k hk)
  exact ⟨args, hdeclaration, hk, args, hwritten, rfl⟩

/-! ## Taking the markers off -/

theorem collect_append {found res : List (Kind × DeclarationArguments)} {as : List Attribute}
    (h : collect found as = .ok res) (bs : List Attribute) :
    collect found (as ++ bs) = collect res bs := by
  induction as generalizing found with
  | nil =>
    cases h
    rfl
  | cons a as ih =>
    rw [collect] at h
    rw [List.cons_append, collect]
    cases hk : kind? a with
    | none =>
      rw [hk] at h
      exact ih h
    | some k =>
      simp only [hk] at h ⊢
      cases hargs : arguments k a with
      | error e => simp [hargs] at h
      | ok args =>
        simp only [hargs] at h ⊢
        split at h
        · cases h
        · rename_i hnew
          rw [if_neg hnew]
          exact ih h

theorem collect_of_wellFormed {as : List Attribute} (h : WellFormed as) :
    collect [] as = .ok (declarations as) := by
  induction as using List.reverseRecOn with
  | nil => rfl
  | append_singleton as a ih =>
    obtain ⟨has, ha⟩ := wellFormed_concat_iff.1 h
    rw [collect_append (ih has), collect]
    cases hk : kind? a with
    | none => simp [collect, declarations, declaration?, hk]
    | some k =>
      obtain ⟨hfits, hnew⟩ := ha k hk
      obtain ⟨args, _, hargs, hdeclaration⟩ := exists_declaration?_of_fits hk hfits
      have hfree : ¬ ((declarations as).map Prod.fst).contains k = true := by
        rw [map_fst_declarations has.fits, List.contains_iff_mem]
        exact hnew
      simp only [hargs, if_neg hfree]
      simp [collect, declarations, hdeclaration]

theorem collect_of_defect {earlier : List (Kind × DeclarationArguments)} {k : Kind} {a : Attribute}
    {e : AttributeError} (hk : kind? a = some k) (h : Defect (earlier.map Prod.fst) k a e)
    (after : List Attribute) : collect earlier (a :: after) = .error e := by
  rw [collect]
  simp only [hk]
  cases h with
  | valued hform => simp [arguments, written, hform]
  | arguments hform hread =>
    have hargs := DeclarationArguments.ofTrees_eq_error_iff.2 hread
    simp [arguments, written, hform, hargs]
  | monotonic hgiven hon hne =>
    have hcheck := DeclarationArguments.check_of_ne
      (DeclarationArguments.monotonic_ofList_iff.2 hon) hne
    simp [arguments, written_of_given hgiven, hcheck]
  | repeated hfits hmem =>
    obtain ⟨args, _, hargs, _⟩ := exists_declaration?_of_fits hk hfits
    simp only [hargs]
    rw [if_pos (List.contains_iff_mem.2 hmem)]

theorem collect_of_firstDefect {as : List Attribute} {e : AttributeError}
    (h : FirstDefect as e) : collect [] as = .error e := by
  obtain ⟨before, a, after, k, rfl, hbefore, hk, hdefect⟩ := h
  rw [collect_append (collect_of_wellFormed hbefore)]
  apply collect_of_defect hk
  rwa [map_fst_declarations hbefore.fits]

theorem wellFormed_or_firstDefect (as : List Attribute) :
    WellFormed as ∨ ∃ e, FirstDefect as e := by
  induction as using List.reverseRecOn with
  | nil => exact .inl wellFormed_nil
  | append_singleton as a ih =>
    rcases ih with has | ⟨e, before, b, after, k, rfl, hbefore, hk, hdefect⟩
    · rw [wellFormed_concat_iff]
      cases hk : kind? a with
      | none => exact .inl ⟨has, by simp⟩
      | some k =>
        by_cases hfits : Fits k a
        · by_cases hmem : k ∈ kinds as
          · exact .inr ⟨_, as, a, [], k, rfl, has, hk, .repeated hfits hmem⟩
          · refine .inl ⟨has, fun l hl => ?_⟩
            cases hl
            exact ⟨hfits, hmem⟩
        · obtain ⟨e, he⟩ := exists_defect_of_not_fits hfits (kinds as)
          exact .inr ⟨e, as, a, [], k, rfl, has, hk, he⟩
    · exact .inr ⟨e, before, b, after ++ [a], k, by simp, hbefore, hk, hdefect⟩

theorem take_of_wellFormed {as : List Attribute} (h : WellFormed as) :
    take as = .ok (declarations as, remaining as) := by
  rw [take, collect_of_wellFormed h]

theorem take_of_firstDefect {as : List Attribute} {e : AttributeError} (h : FirstDefect as e) :
    take as = .error e := by
  rw [take, collect_of_firstDefect h]

end MetricWiring.Marker
