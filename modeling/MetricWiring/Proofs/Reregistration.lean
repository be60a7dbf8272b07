import MetricWiring.Proofs.History

/-!
# Registering a type again

Once a type is entered, the registry holds the name of each of its bindings under the binding's own
kind, and it still does after any further requests. In that case all bindings but gauges share the
names that are there, so the type is entered again without a trace if it has no gauge, and refused
for its first gauge if it has one (`register_again`).
-/
namespace MetricWiring

namespace Registry

/-- Every name that the bindings ask for is held already, by the kind that asks. -/
def Covers (r : Registry) (bs : List Binding) : Prop := ∀ b ∈ bs, r.get? b.name = some b.kind

theorem Covers.of_subset {r : Registry} {bs cs : List Binding} (h : Covers r bs) (hcs : cs ⊆ bs) :
    Covers r cs := by
  intro b hb
  exact h b (hcs hb)

theorem Covers.holds_iff {r : Registry} {bs : List Binding} (h : Covers r bs) {name : String}
    {k : Kind} : Holds r bs name k ↔ r.get? name = some k := by
  constructor
  · intro hheld
    rcases hheld with hget | ⟨b, hb, rfl, rfl⟩
    · exact hget
    · exact h b hb
  · exact .inl

/-- Bindings whose names are held by their own kinds clash only if they are gauges. -/
theorem Covers.agrees {r : Registry} {bs : List Binding} (h : Covers r bs)
    (hshared : ∀ b ∈ bs, b.kind ≠ .gauge) : Agrees r bs := by
  intro earlier b hsplit k hclash
  obtain ⟨hheld, hn⟩ := hclash
  have hearlier : Covers r earlier := h.of_subset fun a ha => hsplit.subset (by simp [ha])
  have hb : b ∈ bs := hsplit.subset (by simp)
  have hget : r.get? b.name = some k := hearlier.holds_iff.1 hheld
  rw [h b hb] at hget
  have hkind : k = b.kind := (Option.some.inj hget).symm
  exact hn ⟨hkind, hshared b hb⟩

theorem Covers.entered {r : Registry} {bs : List Binding} (h : Covers r bs)
    (hshared : ∀ b ∈ bs, b.kind ≠ .gauge) : Entered r bs 0 r where
  agrees := h.agrees hshared
  held _ _ := h.holds_iff.symm
  size := rfl

/-- The first gauge among the bindings is the first that clashes: it holds its name itself. -/
theorem Covers.refused {r : Registry} {bs earlier later : List Binding} {b : Binding}
    (h : Covers r bs) (hsplit : bs = earlier ++ b :: later) (hgauge : b.kind = .gauge)
    (hshared : ∀ a ∈ earlier, a.kind ≠ .gauge) : Refused r bs earlier b .gauge := by
  have hearlier : earlier ⊆ bs := by
    rw [hsplit]
    exact List.subset_append_left _ _
  have hb : r.get? b.name = some .gauge := by
    rw [← hgauge]
    exact h b (by simp [hsplit])
  refine ⟨⟨later, by simp [hsplit]⟩, (h.of_subset hearlier).agrees hshared, .inl hb, ?_⟩
  intro hn
  exact hn.2 hgauge

end Registry

theorem History.covers_run {h : History} {bs : List Binding} (hc : h.registry.Covers bs)
    (qs : List Request) : (h.run qs).registry.Covers bs := by
  intro b hb
  exact get?_run (hc b hb) qs

namespace Instrumentation

/-- Bindings whose names are all held by their own kinds are entered without a trace, or refused
for the first gauge. -/
theorem settles_of_covers {r : Registry} {bs : List Binding} (h : r.Covers bs)
    (named : ∀ b ∈ bs, b.name ≠ "") :
    Settles r bs
      (match bs.find? fun b => b.kind = .gauge with
        | none => .ok bs
        | some g => .error (.duplicateName g.name .gauge .gauge)) r := by
  cases hfind : bs.find? fun b => b.kind = .gauge with
  | none =>
    have hshared : ∀ b ∈ bs, b.kind ≠ .gauge := by simpa using hfind
    exact .entered named (h.entered hshared)
  | some g =>
    obtain ⟨hgauge, earlier, later, hsplit, hbefore⟩ := List.find?_eq_some_iff_append.1 hfind
    have hkind : g.kind = .gauge := of_decide_eq_true hgauge
    have hshared : ∀ a ∈ earlier, a.kind ≠ .gauge := by simpa using hbefore
    have hsettles := Settles.refused named (h.refused hsplit hkind hshared)
    rw [hkind] at hsettles
    exact hsettles

/-- A type that was entered is registered again after any further requests. Without gauges it is
entered again, with the same bindings; else it is refused for the first gauge of its plan, which
holds its name already. The registry is left as it was. -/
theorem register_again {w : Instrumentation} {h : History} {t : TypeInfo} {bs : List Binding}
    (hok : (w.register h.registry t).answer = .ok bs) (later : List Request) :
    let r := ((h.step (.type w t)).run later).registry
    (w.register r t).answer =
        (match (w.plan t).find? fun b => b.kind = .gauge with
          | none => .ok bs
          | some g => .error (.duplicateName g.name .gauge .gauge)) ∧
      (w.register r t).registry = r := by
  intro r
  obtain ⟨hplan, named, -⟩ := register_eq_ok_iff.1 ⟨hok, rfl⟩
  have hcovers : r.Covers (w.plan t) := by
    apply History.covers_run
    intro b hb
    rw [History.registry_step_type]
    exact get?_of_register_eq_ok hok hb
  rw [← settles_iff, hplan]
  exact settles_of_covers hcovers named

/-- A store with two timers of one name, and a cache with a timer and a gauge. Each is registered
again after a name was granted, the cache entered or refused, and a batch refused. -/
theorem register_again_of_two :
    let store := TypeInfo.build "pkg.Store"
      [.method (.ofPairs "read" [(.timed, .verbatim "io")]),
        .method (.ofPairs "write" [(.timed, .verbatim "io")])]
    let cache := TypeInfo.build "pkg.Cache"
      [.method (.ofPairs "get" [(.timed, .unnamed)]),
        .method (.ofPairs "size" [(.gauge, .unnamed)])]
    let later : List Request := [.name "x" .gauge, .type standard cache,
      .batch [⟨.timed, "y", "y", "pkg.T"⟩, ⟨.counted, "x", "z", "pkg.T"⟩]]
    let after (t : TypeInfo) := ((History.step {} (.type standard t)).run later).registry
    (standard.register .empty store).answer = .ok (standard.plan store) ∧
      (standard.register .empty cache).answer = .ok (standard.plan cache) ∧
      (standard.register (after store) store).answer = .ok (standard.plan store) ∧
      (standard.register (after cache) cache).answer =
        .error (.duplicateName "pkg.Cache.size.gauge" .gauge .gauge) ∧
      (standard.register (after store) store).registry = after store ∧
      (standard.register (after cache) cache).registry = after cache := by
  intro store cache later after
  have hstore : (standard.register .empty store).answer = .ok (standard.plan store) := by rfl
  have hcache : (standard.register .empty cache).answer = .ok (standard.plan cache) := by rfl
  have hnone : ((standard.plan store).find? fun b => b.kind = .gauge) = none := by decide
  have hsize : ((standard.plan cache).find? fun b => b.kind = .gauge) =
      some ⟨.gauge, "pkg.Cache.size.gauge", "size", "pkg.Cache"⟩ := by decide
  obtain ⟨hshared, hsame⟩ := register_again (h := {}) hstore later
  obtain ⟨hrefused, hsame'⟩ := register_again (h := {}) hcache later
  rw [hnone] at hshared
  rw [hsize] at hrefused
  exact ⟨hstore, hcache, hshared, hrefused, hsame, hsame'⟩

end Instrumentation

end MetricWiring
