import Mathlib.Data.List.Forall2
import MetricWiring.Proofs.Resolver
import MetricWiring.Proofs.SearchLog

/-!
# Locating the winning source

The positions that a search reports are directions. Read from the last report to the first, each of
them picks a resolver in a list, the first one in the outermost list, and together they lead to one
source of the tree (`Leads.unique`). That source is the winning one: it holds the declaration that
was found, and the sources on its left hold none (`exists_leads_of_resolve`). A search without a
result reports nothing at all (`reports_locate_source`).
-/
namespace MetricWiring.Resolver

/-- From the root of a tree of resolvers the positions lead to a source, with one position for each
list on the way, that of the outermost list first. The sources `left` stand on its left. -/
inductive Leads : Resolver → List Nat → List Source → Source → Prop
  | source (s : Source) : Leads (.source s) [] [] s
  | wrapped {r : Resolver} {positions : List Nat} {left : List Source} {s : Source} :
      Leads r positions left s → Leads (.wrapped r) positions left s
  | child {rs : List Resolver} {r : Resolver} {position : Nat} {positions : List Nat}
      {left : List Source} {s : Source} (hr : rs[position]? = some r) :
      Leads r positions left s →
        Leads (.firstOf rs) (position :: positions) ((rs.take position).flatMap sources ++ left) s

namespace Leads

variable {r : Resolver} {positions : List Nat} {left left' : List Source} {s s' : Source}

theorem unique (h : Leads r positions left s) (h' : Leads r positions left' s') :
    left' = left ∧ s' = s := by
  induction h generalizing left' with
  | source s =>
    cases h'
    exact ⟨rfl, rfl⟩
  | wrapped _ ih =>
    cases h' with
    | wrapped h' => exact ih h'
  | child hr _ ih =>
    cases h' with
    | child hr' h' =>
      have hsame := hr.symm.trans hr'
      cases hsame
      obtain ⟨hleft, hs⟩ := ih h'
      exact ⟨by rw [hleft], hs⟩

/-- The sources on the left come before the source in the order in which all are asked. -/
theorem exists_sources_eq (h : Leads r positions left s) :
    ∃ right, r.sources = left ++ s :: right := by
  induction h with
  | source s => exact ⟨[], rfl⟩
  | wrapped _ ih => exact ih
  | @child rs r position positions left s hr _ ih =>
    obtain ⟨right, hright⟩ := ih
    have hsplit : rs = rs.take position ++ r :: rs.drop (position + 1) := by
      obtain ⟨hlt, rfl⟩ := List.getElem?_eq_some_iff.1 hr
      rw [List.getElem_cons_drop, List.take_append_drop]
    have hsources : rs.flatMap sources =
        (rs.take position).flatMap sources ++
          (r.sources ++ (rs.drop (position + 1)).flatMap sources) := by
      conv_lhs => rw [hsplit]
      rw [List.flatMap_append, List.flatMap_cons]
    refine ⟨right ++ (rs.drop (position + 1)).flatMap sources, ?_⟩
    rw [sources, sourcesOfList_eq_flatMap, hsources, hright]
    simp only [List.append_assoc, List.cons_append]

end Leads

theorem find?_eq_none_of_resolve {k : Kind} {c : Callable} {r : Resolver}
    (h : resolve k c r = none) : ∀ s ∈ r.sources, s.find? k c = none := by
  have hfirst := declaration_resolve k c r
  rw [h, Option.map_none] at hfirst
  exact List.findSome?_eq_none_iff.1 hfirst.symm

/-- A list finds what one of its resolvers finds, adds the position of that one, and has asked those
before it in vain. -/
theorem exists_child_of_resolveFirst {k : Kind} {c : Callable} {rs : List Resolver} {start : Nat}
    {found : Resolution} (h : resolveFirst k c start rs = some found) :
    ∃ i r inner, rs[i]? = some r ∧ resolve k c r = some inner ∧
      found = ⟨inner.declaration, inner.positions ++ [start + i]⟩ ∧
        ∀ s ∈ (rs.take i).flatMap sources, s.find? k c = none := by
  induction rs generalizing start with
  | nil => cases h
  | cons r rs ih =>
    rw [resolveFirst] at h
    cases hr : resolve k c r with
    | some inner =>
      simp only [hr, Option.some.injEq] at h
      exact ⟨0, r, inner, rfl, hr, h.symm, by simp⟩
    | none =>
      simp only [hr] at h
      obtain ⟨i, r', inner, hr', hinner, hfound, hvain⟩ := ih h
      refine ⟨i + 1, r', inner, hr', hinner, ?_, ?_⟩
      · rw [hfound, Nat.add_right_comm, Nat.add_assoc]
      · intro s hs
        rw [List.take_succ_cons, List.flatMap_cons, List.mem_append] at hs
        rcases hs with hs | hs
        · exact find?_eq_none_of_resolve hr s hs
        · exact hvain s hs

theorem exists_leads_of_resolve {k : Kind} {c : Callable} {r : Resolver} {found : Resolution}
    (h : resolve k c r = some found) :
    ∃ left s, Leads r found.positions.reverse left s ∧ s.find? k c = some found.declaration ∧
      ∀ s' ∈ left, s'.find? k c = none := by
  match r with
  | .source s =>
    rw [resolve, Option.map_eq_some_iff] at h
    obtain ⟨d, hd, rfl⟩ := h
    exact ⟨[], s, .source s, hd, by simp⟩
  | .wrapped r =>
    rw [resolve] at h
    obtain ⟨left, s, hleads, hs, hleft⟩ := exists_leads_of_resolve h
    exact ⟨left, s, .wrapped hleads, hs, hleft⟩
  | .firstOf rs =>
    rw [resolve] at h
    obtain ⟨i, r, inner, hr, hinner, rfl, hvain⟩ := exists_child_of_resolveFirst h
    have hmem : r ∈ rs := List.mem_of_getElem? hr
    obtain ⟨left, s, hleads, hs, hleft⟩ := exists_leads_of_resolve hinner
    refine ⟨(rs.take i).flatMap sources ++ left, s, ?_, hs, ?_⟩
    · -- The position in the outer list is the last one reported and the first one to follow.
      have hreverse : (inner.positions ++ [0 + i]).reverse = i :: inner.positions.reverse := by
        rw [List.reverse_append, Nat.zero_add]
        rfl
      rw [hreverse]
      exact .child hr hleads
    · intro s' hs'
      rcases List.mem_append.1 hs' with hs' | hs'
      · exact hvain s' hs'
      · exact hleft s' hs'
termination_by sizeOf r
decreasing_by
  · simp
  · have := List.sizeOf_lt_of_mem hmem
    simp only [firstOf.sizeOf_spec]
    omega

/-- What a list reports when it finds a declaration of the given kind for a method: the kind, the
method, its declaring type, and the position of the resolver that has found it. -/
def Reports (k : Kind) (c : Callable) (position : Nat) (e : Event) : Prop :=
  e.level = .trace ∧ e.message = "Declaration resolved" ∧
    e.fields = [("kind", .text k.keyword), ("method", .text c.name),
      ("declaring_type", .text c.owner.fullName), ("position", .count position)]

/-- A search that finds nothing reports nothing. Otherwise there is a path of positions from the
root to one source of the tree, which holds the declaration that was found, and no source on its
left holds any. The reports are those of the positions on this path, one for each list on the way,
from the innermost list to the outermost. -/
theorem reports_locate_source (r : Resolver) (k : Kind) (c : Callable) :
    (r.find? k c = none → r.search k c = ⟨[], none⟩) ∧
      ∀ d, r.find? k c = some d →
        ∃ path left s right events, Leads r path left s ∧
          (∀ left' s', Leads r path left' s' → left' = left ∧ s' = s) ∧
          r.sources = left ++ s :: right ∧
          s.find? k c = some d ∧ (∀ s' ∈ left, s'.find? k c = none) ∧
          r.resolve k c = some ⟨d, path.reverse⟩ ∧ r.search k c = ⟨events, some d⟩ ∧
          List.Forall₂ (Reports k c) path.reverse events := by
  refine ⟨search_of_find?_eq_none, ?_⟩
  intro d hd
  rw [find?, Option.map_eq_some_iff] at hd
  obtain ⟨found, hfound, rfl⟩ := hd
  obtain ⟨left, s, hleads, hs, hleft⟩ := exists_leads_of_resolve hfound
  obtain ⟨right, hsources⟩ := hleads.exists_sources_eq
  have hsearch : r.search k c = ⟨(Finding.mk k c found).events, some found.declaration⟩ := by
    rw [search_eq, hfound]
    rfl
  have hreports : List.Forall₂ (Reports k c) found.positions (Finding.mk k c found).events := by
    rw [Finding.events, List.forall₂_map_right_iff, List.forall₂_same]
    intro position _
    exact ⟨rfl, rfl, rfl⟩
  refine ⟨found.positions.reverse, left, s, right, _, hleads, fun _ _ h' => hleads.unique h',
    hsources, hs, hleft, ?_, hsearch, ?_⟩
  · rw [hfound, List.reverse_reverse]
  · rwa [List.reverse_reverse]

end MetricWiring.Resolver
