import MetricWiring.Instrumentation
import MetricWiring.Proofs.Hierarchy
import MetricWiring.Proofs.Resolver

/-!
# What a plan holds

Kind by kind, a plan asks the resolver about each method in question and binds what it finds. For a
gauge these are the methods of the flattened view, each as its nearest type declares it; for any
other kind they are the type's own methods. The methods in question stand in the order of the
flattened view, so no kind binds a method twice.
-/
namespace MetricWiring.Instrumentation

/-- The binding of one method for one kind, if a declaration is found. -/
def bindingFor (w : Instrumentation) (t : TypeInfo) (k : Kind) (c : Callable) : Option Binding :=
  (w.resolver.find? k c).map fun d => ⟨k, w.namer.nameFor k t c d, c.name, c.owner.fullName⟩

theorem plan_eq (w : Instrumentation) (t : TypeInfo) :
    w.plan t = Kind.all.flatMap fun k => (callables t k).filterMap (w.bindingFor t k) := by
  rw [plan, findings, List.map_flatMap]
  congr 1
  funext k
  rw [findingsOf, List.map_filterMap]
  congr 1
  funext c
  rw [bindingFor, Resolver.find?, Option.map_map, Option.map_map]
  rfl

theorem bindingFor_eq_some_iff {w : Instrumentation} {t : TypeInfo} {k : Kind} {c : Callable}
    {b : Binding} :
    w.bindingFor t k c = some b ↔
      ∃ d, w.resolver.find? k c = some d ∧
        b.kind = k ∧ b.name = w.namer.nameFor k t c d ∧ b.method = c.name ∧
          b.owner = c.owner.fullName := by
  rw [bindingFor, Option.map_eq_some_iff]
  constructor
  · intro h
    obtain ⟨d, hd, rfl⟩ := h
    exact ⟨d, hd, rfl, rfl, rfl, rfl⟩
  · intro h
    obtain ⟨d, hd, hk, hn, hm, ho⟩ := h
    refine ⟨d, hd, ?_⟩
    rcases b with ⟨kind, name, method, owner⟩
    simp only at hk hn hm ho
    rw [hk, hn, hm, ho]

theorem mem_plan_iff {w : Instrumentation} {t : TypeInfo} {b : Binding} :
    b ∈ w.plan t ↔
      ∃ c ∈ callables t b.kind, ∃ d, w.resolver.find? b.kind c = some d ∧
        b.name = w.namer.nameFor b.kind t c d ∧ b.method = c.name ∧
          b.owner = c.owner.fullName := by
  simp only [plan_eq, List.mem_flatMap, List.mem_filterMap, bindingFor_eq_some_iff]
  constructor
  · intro h
    obtain ⟨k, _, c, hc, d, hd, rfl, hrest⟩ := h
    exact ⟨c, hc, d, hd, hrest⟩
  · intro h
    obtain ⟨c, hc, d, hd, hrest⟩ := h
    exact ⟨b.kind, Kind.mem_all b.kind, c, hc, d, hd, rfl, hrest⟩

theorem mem_findings_iff {w : Instrumentation} {t : TypeInfo} {f : Finding} :
    f ∈ w.findings t ↔
      f.callable ∈ callables t f.kind ∧
        w.resolver.resolve f.kind f.callable = some f.resolution := by
  simp only [findings, findingsOf, List.mem_flatMap, List.mem_filterMap, Option.map_eq_some_iff]
  constructor
  · intro h
    obtain ⟨k, _, c, hc, found, hfound, rfl⟩ := h
    exact ⟨hc, hfound⟩
  · intro h
    exact ⟨f.kind, Kind.mem_all f.kind, f.callable, h.1, f.resolution, h.2, rfl⟩

/-! ## The methods in question -/

theorem callables_gauge (t : TypeInfo) : callables t .gauge = Callable.hierarchy t := rfl

theorem callables_of_ne_gauge (t : TypeInfo) {k : Kind} (h : k ≠ .gauge) :
    callables t k = Callable.declaredOn t := by
  simp [callables, h]

theorem sublist_callables (t : TypeInfo) (k : Kind) :
    (callables t k).Sublist (Callable.hierarchy t) := by
  by_cases hk : k = .gauge
  · rw [hk, callables_gauge]
  · rw [callables_of_ne_gauge t hk, Callable.hierarchy_eq]
    exact List.sublist_append_left _ _

theorem mem_hierarchy_of_mem_callables {t : TypeInfo} {k : Kind} {c : Callable}
    (h : c ∈ callables t k) : c ∈ Callable.hierarchy t :=
  (sublist_callables t k).subset h

/-- The place of a method name in the flattened view of a type. -/
def position (t : TypeInfo) (name : String) : Nat :=
  ((Callable.hierarchy t).map Callable.name).idxOf name

theorem pairwise_position_callables (t : TypeInfo) (k : Kind) :
    (callables t k).Pairwise fun c d => position t c.name < position t d.name := by
  have hview := Callable.pairwise_idxOf_lt (Callable.nodup_names_hierarchy t)
  have hnames : ((callables t k).map Callable.name).Pairwise fun a b =>
      position t a < position t b :=
    hview.sublist ((sublist_callables t k).map Callable.name)
  rw [List.pairwise_map] at hnames
  exact hnames

/-- One binding stands before another in the plan of a type: its kind comes first, or the kinds are
the same and its method stands first in the flattened view. -/
def Precedes (t : TypeInfo) (a b : Binding) : Prop :=
  a.kind < b.kind ∨ a.kind = b.kind ∧ position t a.method < position t b.method

theorem pairwise_precedes_plan (w : Instrumentation) (t : TypeInfo) :
    (w.plan t).Pairwise (Precedes t) := by
  rw [plan_eq, List.pairwise_flatMap]
  constructor
  · intro k _
    refine (pairwise_position_callables t k).filterMap _ ?_
    intro c d hcd a ha b hb
    obtain ⟨_, _, hka, _, hma, _⟩ := bindingFor_eq_some_iff.1 ha
    obtain ⟨_, _, hkb, _, hmb, _⟩ := bindingFor_eq_some_iff.1 hb
    right
    rw [hka, hkb, hma, hmb]
    exact ⟨rfl, hcd⟩
  · refine Kind.all_increasing.imp ?_
    intro k l hkl a ha b hb
    obtain ⟨c, _, hc⟩ := List.mem_filterMap.1 ha
    obtain ⟨d, _, hd⟩ := List.mem_filterMap.1 hb
    obtain ⟨_, _, hka, _⟩ := bindingFor_eq_some_iff.1 hc
    obtain ⟨_, _, hkb, _⟩ := bindingFor_eq_some_iff.1 hd
    left
    rw [hka, hkb]
    exact hkl

theorem nodup_keys_plan (w : Instrumentation) (t : TypeInfo) :
    ((w.plan t).map fun b => (b.kind, b.method)).Nodup := by
  rw [List.Nodup, List.pairwise_map]
  refine (pairwise_precedes_plan w t).imp ?_
  intro a b hab heq
  rw [Prod.mk.injEq] at heq
  rcases hab with hlt | ⟨_, hlt⟩
  · rw [heq.1, Kind.lt_iff_rank] at hlt
    omega
  · rw [heq.2] at hlt
    omega

/-- Every kind but gauge: the type's own method of that name, if a declaration is found for it. -/
theorem mem_plan_iff_of_ne_gauge {w : Instrumentation} {t : TypeInfo} {b : Binding}
    (h : b.kind ≠ .gauge) :
    b ∈ w.plan t ↔
      ∃ c d, Callable.find? t b.method = some c ∧ w.resolver.find? b.kind c = some d ∧
        b.name = w.namer.nameFor b.kind t c d ∧ b.owner = t.fullName := by
  rw [mem_plan_iff, callables_of_ne_gauge t h]
  simp only [Callable.find?_eq_some_iff]
  constructor
  · intro hb
    obtain ⟨c, hc, d, hd, hn, hm, ho⟩ := hb
    rw [(Callable.of_mem_declaredOn hc).1] at ho
    exact ⟨c, d, ⟨hc, hm.symm⟩, hd, hn, ho⟩
  · intro hb
    obtain ⟨c, d, ⟨hc, hm⟩, hd, hn, ho⟩ := hb
    rw [← (Callable.of_mem_declaredOn hc).1] at ho
    exact ⟨c, hc, d, hd, hn, hm.symm, ho⟩

/-- Gauges: the method of that name as the nearest type declares it, if a declaration is found for
it there. -/
theorem mem_plan_iff_of_gauge {w : Instrumentation} {t : TypeInfo} {b : Binding}
    (h : b.kind = .gauge) :
    b ∈ w.plan t ↔
      ∃ a c d, t.nearest? b.method = some a ∧ Callable.find? a b.method = some c ∧
        w.resolver.find? .gauge c = some d ∧
          b.name = w.namer.nameFor .gauge t c d ∧ b.owner = a.fullName := by
  rw [mem_plan_iff, h, callables_gauge]
  simp only [Callable.mem_hierarchy_iff, Callable.find?_eq_some_iff, and_true]
  constructor
  · intro hb
    obtain ⟨c, ⟨hnearest, hc⟩, d, hd, hn, hm, ho⟩ := hb
    exact ⟨c.owner, c, d, hm ▸ hnearest, ⟨hc, hm.symm⟩, hd, hn, ho⟩
  · intro hb
    obtain ⟨a, c, d, hnearest, ⟨hc, hm⟩, hd, hn, ho⟩ := hb
    have howner := (Callable.of_mem_declaredOn hc).1
    rw [← hm, ← howner] at hnearest
    rw [← howner] at hc ho
    exact ⟨c, ⟨hnearest, hc⟩, d, hd, hn, hm.symm, ho⟩

/-- Each kind binds a method once at most. A kind other than gauge binds exactly those of the type's
own methods for which a declaration is found. A gauge is bound exactly if a declaration is found for
the method as the nearest type declares it, and that declaration stands on this very method or on
this very type, never on one that it shadows. -/
theorem plan_exact (w : Instrumentation) (t : TypeInfo) :
    ((w.plan t).map fun b => (b.kind, b.method)).Nodup ∧
      (∀ b : Binding, b.kind ≠ .gauge →
        (b ∈ w.plan t ↔
          ∃ c d, Callable.find? t b.method = some c ∧ w.resolver.find? b.kind c = some d ∧
            b.name = w.namer.nameFor b.kind t c d ∧ b.owner = t.fullName)) ∧
      (∀ b : Binding, b.kind = .gauge →
        (b ∈ w.plan t ↔
          ∃ a c d, t.nearest? b.method = some a ∧ Callable.find? a b.method = some c ∧
            w.resolver.find? .gauge c = some d ∧
            (c.declarations.get .gauge = some d ∨ a.declarations.get .gauge = some d) ∧
              b.name = w.namer.nameFor .gauge t c d ∧ b.owner = a.fullName)) ∧
      (w.plan t).Pairwise (Precedes t) := by
  refine ⟨nodup_keys_plan w t, fun b hb => mem_plan_iff_of_ne_gauge hb, ?_,
    pairwise_precedes_plan w t⟩
  intro b hb
  rw [mem_plan_iff_of_gauge hb]
  constructor
  · intro h
    obtain ⟨a, c, d, hnearest, hc, hd, hn, ho⟩ := h
    have howner := (Callable.of_mem_declaredOn (Callable.find?_eq_some_iff.1 hc).1).1
    have hplace := Resolver.mem_of_find?_eq_some hd
    rw [howner] at hplace
    exact ⟨a, c, d, hnearest, hc, hd, hplace, hn, ho⟩
  · intro h
    obtain ⟨a, c, d, hnearest, hc, hd, _, hn, ho⟩ := h
    exact ⟨a, c, d, hnearest, hc, hd, hn, ho⟩

end MetricWiring.Instrumentation
