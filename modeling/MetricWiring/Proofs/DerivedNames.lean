import MetricWiring.Proofs.NameDecoding
import MetricWiring.Proofs.Order

/-!
# Types with derived names

When gauges stand under the type of the instance, every metric in the plan of a type stands under
the name of that type. If all names are derived from methods without dots, a metric name then tells
the type, the kind and the method (`compose_inj`), and each of these has one binding at most. So
types of different names can all be registered, in any order, and none of their metrics share a
name (`derived_names_apart`).
-/
namespace MetricWiring

/-- The metrics of a type are all named after methods, and the names of its methods are segments. -/
structure TypeDef.NamesDerived (a : TypeDef) : Prop where
  segments : ∀ m ∈ a.methods.entries, IsSegment m.name
  onMethods : ∀ m ∈ a.methods.entries, ∀ p ∈ m.declarations.toList, p.2.Derives
  onType : ∀ p ∈ a.declarations.toList, p.2.Derives

instance (a : TypeDef) : Decidable a.NamesDerived :=
  decidable_of_iff
    ((∀ m ∈ a.methods.entries, IsSegment m.name) ∧
      (∀ m ∈ a.methods.entries, ∀ p ∈ m.declarations.toList, p.2.Derives) ∧
        ∀ p ∈ a.declarations.toList, p.2.Derives)
    ⟨fun h => ⟨h.1, h.2.1, h.2.2⟩, fun h => ⟨h.segments, h.onMethods, h.onType⟩⟩

namespace Registry

/-- Without a name used twice, every binding of a batch adds one to an empty registry. -/
theorem Entered.size_of_nodup {s : Registry} {bs : List Binding} {added : Nat}
    (h : Entered .empty bs added s) (hn : (bs.map Binding.name).Nodup) : s.size = bs.length := by
  have hnames : s.names.Perm (bs.map Binding.name) := by
    rw [List.perm_ext_iff_of_nodup s.nodup_names hn]
    intro name
    rw [NameTable.mem_names]
    simp [h.held, Holds]
  rw [← NameTable.length_names, hnames.length_eq, List.length_map]

/-- Bindings with different names can be entered into an empty registry. -/
theorem exists_entered_of_nodup {bs : List Binding} (hn : (bs.map Binding.name).Nodup) :
    ∃ added s, (registerAll bs).run .empty = .ok added s ∧ s.size = bs.length := by
  have hagrees : Agrees .empty bs := by
    refine agrees_iff.2 ⟨fun b _ k hk => ?_, ?_⟩
    · simp at hk
    · refine (List.pairwise_map.1 hn).imp ?_
      intro b c hne hname
      exact absurd hname hne
  obtain ⟨added, s, hok⟩ := registerEach_of_agrees hagrees
  rw [← registerAll_eq_ok_iff_registerEach] at hok
  exact ⟨added, s, hok, (registerAll_eq_ok_iff.1 hok).size_of_nodup hn⟩

end Registry

namespace Instrumentation

/-! ## The plan under the name of the type -/

theorem space_instanceType {t : TypeInfo} {k : Kind} {c : Callable} (h : c ∈ callables t k) :
    Namer.instanceType.space k t c = t.fullName := by
  by_cases hk : k = .gauge
  · simp [Namer.space, hk]
  · rw [callables_of_ne_gauge t hk] at h
    simp [Namer.space, hk, (Callable.of_mem_declaredOn h).1]

/-- Where all names are derived, so is the name of every binding, under the type's own name. -/
theorem name_of_mem_plan {R : Resolver} {t : TypeInfo}
    (hderived : ∀ a ∈ t.lineage, a.own.NamesDerived) {b : Binding}
    (hb : b ∈ plan ⟨R, .instanceType⟩ t) :
    IsSegment b.method ∧ ∃ d : Declaration, d.Derives ∧
      b.name = MetricName.compose t.fullName b.method b.kind d := by
  obtain ⟨c, hc, d, hd, hname, hmethod, -⟩ := mem_plan_iff.1 hb
  have hview := mem_hierarchy_of_mem_callables hc
  have hplain := hderived c.owner (Callable.owner_mem_lineage hview)
  have hown := Callable.method_mem_of_mem_hierarchy hview
  have hderives : d.Derives := by
    rcases Resolver.mem_of_find?_eq_some hd with hget | hget
    · exact hplain.onMethods c.method hown (b.kind, d) (DeclarationTable.mem_toList.2 hget)
    · exact hplain.onType (b.kind, d) (DeclarationTable.mem_toList.2 hget)
  rw [Namer.nameFor_eq_compose, space_instanceType hc, ← hmethod] at hname
  exact ⟨hmethod ▸ hplain.segments c.method hown, d, hderives, hname⟩

/-- A metric name that two plans have in common comes from types of one name, and from one kind and
one method. -/
theorem key_of_name_eq {R : Resolver} {t u : TypeInfo}
    (ht : ∀ a ∈ t.lineage, a.own.NamesDerived) (hu : ∀ a ∈ u.lineage, a.own.NamesDerived)
    {b c : Binding} (hb : b ∈ plan ⟨R, .instanceType⟩ t) (hc : c ∈ plan ⟨R, .instanceType⟩ u)
    (hname : b.name = c.name) :
    t.fullName = u.fullName ∧ (b.kind, b.method) = (c.kind, c.method) := by
  obtain ⟨hmb, d, hd, hbn⟩ := name_of_mem_plan ht hb
  obtain ⟨hmc, e, he, hcn⟩ := name_of_mem_plan hu hc
  rw [hbn, hcn] at hname
  obtain ⟨hspace, hmethod, hkind, -⟩ := MetricName.compose_inj hmb hmc hd he hname
  exact ⟨hspace, by rw [hkind, hmethod]⟩

/-- The metric names in the plans of types of different names are all different. -/
theorem nodup_names_plans (R : Resolver) {ts : List TypeInfo}
    (hdistinct : (ts.map TypeInfo.fullName).Nodup)
    (hderived : ∀ t ∈ ts, ∀ a ∈ t.lineage, a.own.NamesDerived) :
    ((ts.flatMap (plan ⟨R, .instanceType⟩)).map Binding.name).Nodup := by
  rw [List.Nodup, List.pairwise_map, List.pairwise_flatMap]
  constructor
  · intro t ht
    refine (List.pairwise_map.1 (nodup_keys_plan ⟨R, .instanceType⟩ t)).imp_of_mem ?_
    intro b c hb hc hkeys hname
    exact hkeys (key_of_name_eq (hderived t ht) (hderived t ht) hb hc hname).2
  · refine (List.pairwise_map.1 hdistinct).imp_of_mem ?_
    intro t u ht hu hne b hb c hc hname
    exact hne (key_of_name_eq (hderived t ht) (hderived u hu) hb hc hname).1

/-- Types of different names, whose metrics are all named after methods without dots: no two of
their bindings share a metric name, and in whichever order the types are registered, all are
entered and leave a registry with one name for each binding. -/
theorem derived_names_apart (R : Resolver) {ts : List TypeInfo}
    (hdistinct : (ts.map TypeInfo.fullName).Nodup)
    (hderived : ∀ t ∈ ts, ∀ a ∈ t.lineage, a.own.NamesDerived) :
    let w : Instrumentation := ⟨R, .instanceType⟩
    ((ts.flatMap w.plan).map Binding.name).Nodup ∧
      ∃ s : Registry, s.size = (ts.flatMap w.plan).length ∧
        ∀ order, order.Perm ts → w.registerTypes .empty order = .ok s := by
  intro w
  have hnames := nodup_names_plans R hdistinct hderived
  obtain ⟨added, s, hok, hsize⟩ := Registry.exists_entered_of_nodup hnames
  refine ⟨hnames, s, hsize, ?_⟩
  intro order horder
  rw [registerTypes_eq_ok_iff]
  refine ⟨?_, added, (Registry.registerAll_perm (horder.flatMap_right w.plan)).2 hok⟩
  intro t ht b hb hempty
  -- A derived name is never empty: only one taken as it stands can be.
  obtain ⟨-, d, hd, hname⟩ := name_of_mem_plan (hderived t (horder.mem_iff.1 ht)) hb
  rw [hempty] at hname
  have habsolute := (MetricName.compose_eq_empty_iff.1 hname.symm).1
  rw [hd.relative] at habsolute
  cases habsolute

/-- A type, an heir of it whose name begins with the other's, and a type with the empty name. The
gauge counts twice, once under each type that has it. -/
theorem derived_names_apart_of_three :
    let base := TypeInfo.build "pkg" [.method (.ofPairs "g" [(.gauge, .unnamed)])]
    let heir := TypeInfo.build "pkg.heir"
      [.parent base, .declare .timed .unnamed, .method (.ofPairs "run" [(.counted, .unnamed)])]
    let nameless := TypeInfo.build "" [.method (.ofPairs "run" [(.counted, .unnamed)])]
    let w : Instrumentation := ⟨.standard, .instanceType⟩
    let ts := [base, heir, nameless]
    (ts.map TypeInfo.fullName).Nodup ∧ (∀ t ∈ ts, ∀ a ∈ t.lineage, a.own.NamesDerived) ∧
      ((ts.flatMap w.plan).map Binding.name).Nodup ∧
        ∃ s : Registry, s.size = 5 ∧
          ∀ order, order.Perm ts → w.registerTypes .empty order = .ok s := by
  intro base heir nameless w ts
  have hdistinct : (ts.map TypeInfo.fullName).Nodup := by decide
  have hderived : ∀ t ∈ ts, ∀ a ∈ t.lineage, a.own.NamesDerived := by decide
  have hcount : (ts.flatMap w.plan).length = 5 := by decide
  obtain ⟨hnames, s, hsize, hall⟩ := derived_names_apart .standard hdistinct hderived
  exact ⟨hdistinct, hderived, hnames, s, hsize.trans hcount, hall⟩

end Instrumentation

end MetricWiring
