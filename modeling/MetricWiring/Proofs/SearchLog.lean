import MetricWiring.Instrumentation

/-!
# What a search reports while it runs

A list of resolvers asks them in turn and reports a success on the way out, after all that the
successful resolver has reported itself. A search run in this way (`search`) finds what the resolver
finds. It reports nothing if that is nothing, however many lists were asked in vain, and otherwise
the positions of the resolution, innermost list first (`search_eq`).
-/
namespace MetricWiring

/-- A value, and what was reported while it was computed. -/
structure Reported (α : Type) where
  events : List Event
  value : α

/-- What is to be reported of a search, and what it found. -/
def Reported.ofResolution (k : Kind) (c : Callable) :
    Option Resolution → Reported (Option Declaration)
  | none => ⟨[], none⟩
  | some found => ⟨(Finding.mk k c found).events, some found.declaration⟩

namespace Resolver

mutual

/-- A search as it runs. -/
def search (k : Kind) (c : Callable) : Resolver → Reported (Option Declaration)
  | .source s => ⟨[], s.find? k c⟩
  | .firstOf rs => searchFirst k c 0 rs
  | .wrapped r => search k c r

/-- Asks the resolvers of a list one after the other, from the given position on. What those report
that find nothing is kept. -/
def searchFirst (k : Kind) (c : Callable) (position : Nat) :
    List Resolver → Reported (Option Declaration)
  | [] => ⟨[], none⟩
  | r :: rs =>
    let asked := search k c r
    match asked.value with
    | some d => ⟨asked.events ++ [.resolved k c.name c.owner.fullName position], some d⟩
    | none =>
      let later := searchFirst k c (position + 1) rs
      ⟨asked.events ++ later.events, later.value⟩

end

mutual

theorem search_eq (k : Kind) (c : Callable) (r : Resolver) :
    search k c r = .ofResolution k c (resolve k c r) := by
  match r with
  | .source s =>
    rw [search, resolve]
    cases s.find? k c <;> rfl
  | .firstOf rs =>
    rw [search, resolve]
    exact searchFirst_eq k c 0 rs
  | .wrapped r =>
    rw [search, resolve]
    exact search_eq k c r

theorem searchFirst_eq (k : Kind) (c : Callable) (position : Nat) (rs : List Resolver) :
    searchFirst k c position rs = .ofResolution k c (resolveFirst k c position rs) := by
  match rs with
  | [] => rfl
  | r :: rs =>
    rw [searchFirst, resolveFirst, search_eq k c r, searchFirst_eq k c (position + 1) rs]
    cases resolve k c r with
    | none => rfl
    | some found =>
      -- The outer position comes last in the resolution, as its report does.
      simp only [Reported.ofResolution, Finding.events, List.map_append, List.map_cons,
        List.map_nil]

end

theorem value_search (k : Kind) (c : Callable) (r : Resolver) :
    (search k c r).value = r.find? k c := by
  rw [search_eq, find?]
  cases resolve k c r <;> rfl

theorem search_of_find?_eq_none {k : Kind} {c : Callable} {r : Resolver}
    (h : r.find? k c = none) : search k c r = ⟨[], none⟩ := by
  rw [find?, Option.map_eq_none_iff] at h
  rw [search_eq, h]
  rfl

theorem level_of_mem_search {k : Kind} {c : Callable} {r : Resolver} {e : Event}
    (h : e ∈ (search k c r).events) : e.level = .trace := by
  rw [search_eq] at h
  cases hfound : resolve k c r with
  | none =>
    rw [hfound] at h
    cases h
  | some found =>
    rw [hfound] at h
    obtain ⟨position, _, rfl⟩ := List.mem_map.1 h
    rfl

end Resolver

end MetricWiring
