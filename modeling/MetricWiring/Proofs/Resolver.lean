import MetricWiring.Resolver

/-!
# Resolvers as lists of sources

However its lists are nested and wrapped, a resolver finds what the first of its sources finds that
finds anything (`find?_eq_findSome?`). So a declaration found for a method is always one of that
method or of the type that declares it.
-/
namespace MetricWiring.Resolver

mutual

theorem declaration_resolve (k : Kind) (c : Callable) (r : Resolver) :
    (resolve k c r).map Resolution.declaration = r.sources.findSome? (·.find? k c) := by
  match r with
  | .source s => cases h : s.find? k c <;> simp [resolve, sources, h]
  | .firstOf rs =>
    rw [resolve, sources]
    exact declaration_resolveFirst k c 0 rs
  | .wrapped r =>
    rw [resolve, sources]
    exact declaration_resolve k c r

theorem declaration_resolveFirst (k : Kind) (c : Callable) (position : Nat) (rs : List Resolver) :
    (resolveFirst k c position rs).map Resolution.declaration =
      (sourcesOfList rs).findSome? (·.find? k c) := by
  match rs with
  | [] => rfl
  | r :: rs =>
    have hfirst := declaration_resolve k c r
    rw [resolveFirst, sourcesOfList, List.findSome?_append, ← hfirst,
      ← declaration_resolveFirst k c (position + 1) rs]
    cases resolve k c r <;> rfl

end

theorem find?_eq_findSome? (r : Resolver) (k : Kind) (c : Callable) :
    r.find? k c = r.sources.findSome? (·.find? k c) :=
  declaration_resolve k c r

theorem mem_of_find?_eq_some {r : Resolver} {k : Kind} {c : Callable} {d : Declaration}
    (h : r.find? k c = some d) :
    c.declarations.get k = some d ∨ c.owner.declarations.get k = some d := by
  rw [find?_eq_findSome?] at h
  obtain ⟨s, _, hs⟩ := List.exists_of_findSome?_eq_some h
  cases s with
  | method => exact .inl hs
  | type => exact .inr hs

end MetricWiring.Resolver
