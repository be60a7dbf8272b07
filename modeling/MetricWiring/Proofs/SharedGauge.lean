import MetricWiring.Proofs.History
import MetricWiring.Proofs.NameDecoding
import MetricWiring.Proofs.Order

/-!
# Gauges that types share

A gauge that one type declares can be in view of many. Under the type of the instance it has
another name in each of them. Under its declaring type, or if its name is taken as it stands, it has
one name in all of them, and a registry takes one of the types at most, now or later
(`gauge_sharing`).
-/
namespace MetricWiring.Instrumentation

/-- The metric names to which the plan of a type binds a method as a gauge. -/
def gaugeNames (w : Instrumentation) (t : TypeInfo) (method : String) : List String :=
  ((w.plan t).filter fun b => b.kind = .gauge ∧ b.method = method).map Binding.name

/-- A method in view for which a gauge is found is bound to one name. -/
theorem gaugeNames_of_mem_hierarchy {w : Instrumentation} {t : TypeInfo} {c : Callable}
    {d : Declaration} (hc : c ∈ Callable.hierarchy t) (hd : w.resolver.find? .gauge c = some d) :
    gaugeNames w t c.name = [w.namer.nameFor .gauge t c d] := by
  let b : Binding := ⟨.gauge, w.namer.nameFor .gauge t c d, c.name, c.owner.fullName⟩
  have hb : b ∈ w.plan t := mem_plan_iff.2 ⟨c, hc, d, hd, rfl, rfl, rfl⟩
  have hkeys := nodup_keys_plan w t
  have honly : ((w.plan t).filter fun a => a.kind = .gauge ∧ a.method = c.name) = [b] := by
    rw [← List.perm_singleton,
      List.perm_ext_iff_of_nodup (hkeys.of_map.filter _) (List.nodup_singleton b)]
    intro a
    simp only [List.mem_filter, decide_eq_true_eq, List.mem_singleton]
    constructor
    · rintro ⟨ha, hkind, hmethod⟩
      exact List.inj_on_of_nodup_map hkeys ha hb (by rw [hkind, hmethod])
    · rintro rfl
      exact ⟨hb, rfl, rfl⟩
  rw [gaugeNames, honly]
  rfl

/-! ## A name that is held stays held -/

/-- A type is refused if the name of one of its gauges is held, by whichever kind. -/
theorem register_ne_ok_of_held {w : Instrumentation} {r : Registry} {t : TypeInfo} {b : Binding}
    (hb : b ∈ w.plan t) (hgauge : b.kind = .gauge) {k : Kind} (hheld : r.get? b.name = some k)
    (bs : List Binding) : (w.register r t).answer ≠ .ok bs := by
  intro hok
  obtain ⟨added, entered⟩ := entered_of_answer_eq_ok hok
  have hfits := (Registry.agrees_iff.1 entered.agrees).1 b hb
  exact (hfits k hheld).2 hgauge

/-- Both types are entered, the second one after further requests. -/
def BothEntered (w : Instrumentation) (h : History) (t : TypeInfo) (between : List Request)
    (u : TypeInfo) : Prop :=
  (∃ bs, (w.register h.registry t).answer = .ok bs) ∧
    ∃ bs, (w.register ((h.step (.type w t)).run between).registry u).answer = .ok bs

/-- A gauge whose name another type's plan uses as well keeps the two apart. -/
theorem not_bothEntered {w : Instrumentation} {t u : TypeInfo} {a b : Binding} (ha : a ∈ w.plan t)
    (hb : b ∈ w.plan u) (hgauge : b.kind = .gauge) (hname : a.name = b.name) (h : History)
    (between : List Request) : ¬ BothEntered w h t between u := by
  rintro ⟨⟨bs, hfirst⟩, cs, hsecond⟩
  have hheld := get?_of_register_eq_ok hfirst ha
  rw [← History.registry_step_type, hname] at hheld
  exact register_ne_ok_of_held hb hgauge (History.get?_run hheld between) cs hsecond

/-! ## The gauge of two types -/

theorem nameFor_gauge_instanceType (t : TypeInfo) (c : Callable) (d : Declaration) :
    Namer.instanceType.nameFor .gauge t c d = MetricName.compose t.fullName c.name .gauge d := rfl

/-- Where a gauge has one name for instances of two types. -/
theorem nameFor_gauge_eq {n : Namer} {d : Declaration}
    (h : n = .declaringType ∨ n = .instanceType ∧ d.absolute = true) (t u : TypeInfo)
    (c : Callable) : n.nameFor .gauge t c d = n.nameFor .gauge u c d := by
  rcases h with rfl | ⟨rfl, hd⟩
  · rfl
  · rw [nameFor_gauge_instanceType, nameFor_gauge_instanceType,
      MetricName.compose_of_absolute hd, MetricName.compose_of_absolute hd]

/-- Two types have the same method of one declaring type in view, and a gauge is found for it. Under
the type of the instance it has two names, unless its name is taken as it stands. In that case, and
under the declaring type always, it has one name; then, in either order and whatever is asked for in
between, the types are never both entered into a registry. -/
theorem gauge_sharing (R : Resolver) {t u : TypeInfo} {c e : Callable} {d : Declaration}
    (hdistinct : t.fullName ≠ u.fullName) (ht : c ∈ Callable.hierarchy t)
    (hu : e ∈ Callable.hierarchy u) (hname : e.name = c.name) (howner : e.owner = c.owner)
    (hd : R.find? .gauge c = some d) :
    (d.absolute = false → ∃ m n, m ≠ n ∧ gaugeNames ⟨R, .instanceType⟩ t c.name = [m] ∧
        gaugeNames ⟨R, .instanceType⟩ u c.name = [n]) ∧
      ∀ n : Namer, n = .declaringType ∨ n = .instanceType ∧ d.absolute = true →
        (∃ m, gaugeNames ⟨R, n⟩ t c.name = [m] ∧ gaugeNames ⟨R, n⟩ u c.name = [m]) ∧
          ∀ (h : History) (between : List Request),
            ¬ BothEntered ⟨R, n⟩ h t between u ∧ ¬ BothEntered ⟨R, n⟩ h u between t := by
  -- A callable in view is fixed by its owner and its name.
  have hsame : e = c := by
    have hfound := Callable.find?_of_mem_hierarchy hu
    rw [howner, hname, Callable.find?_of_mem_hierarchy ht] at hfound
    exact (Option.some.inj hfound).symm
  subst hsame
  constructor
  · intro hrelative
    refine ⟨_, _, ?_, gaugeNames_of_mem_hierarchy ht hd, gaugeNames_of_mem_hierarchy hu hd⟩
    rw [nameFor_gauge_instanceType, nameFor_gauge_instanceType, ne_eq,
      MetricName.compose_left_inj hrelative]
    exact hdistinct
  · intro n hn
    have hone := nameFor_gauge_eq hn t u e
    have hplan (v : TypeInfo) (hv : e ∈ Callable.hierarchy v) :
        ⟨.gauge, n.nameFor .gauge v e d, e.name, e.owner.fullName⟩ ∈ plan ⟨R, n⟩ v :=
      mem_plan_iff.2 ⟨e, hv, d, hd, rfl, rfl, rfl⟩
    refine ⟨⟨_, gaugeNames_of_mem_hierarchy ht hd, ?_⟩, fun h between => ⟨?_, ?_⟩⟩
    · rw [gaugeNames_of_mem_hierarchy hu hd, hone]
    · exact not_bothEntered (hplan t ht) (hplan u hu) rfl hone h between
    · exact not_bothEntered (hplan u hu) (hplan t ht) rfl hone.symm h between

/-- A type with a gauge and two heirs of it. -/
theorem gauge_sharing_of_heirs :
    let base := TypeInfo.build "pkg.P" [.method (.ofPairs "g" [(.gauge, .unnamed)])]
    let first := TypeInfo.build "pkg.B1" [.parent base]
    let second := TypeInfo.build "pkg.B2" [.parent base]
    let c : Callable := ⟨base, .ofPairs "g" [(.gauge, .unnamed)], []⟩
    first.fullName ≠ second.fullName ∧ c ∈ Callable.hierarchy first ∧
      c ∈ Callable.hierarchy second ∧ Resolver.standard.find? .gauge c = some .unnamed ∧
      (∃ m n, m ≠ n ∧ gaugeNames ⟨.standard, .instanceType⟩ first "g" = [m] ∧
        gaugeNames ⟨.standard, .instanceType⟩ second "g" = [n]) ∧
      (∃ m, gaugeNames ⟨.standard, .declaringType⟩ first "g" = [m] ∧
        gaugeNames ⟨.standard, .declaringType⟩ second "g" = [m]) ∧
      ∀ (h : History) (between : List Request),
        ¬ BothEntered ⟨.standard, .declaringType⟩ h first between second ∧
          ¬ BothEntered ⟨.standard, .declaringType⟩ h second between first := by
  intro base first second c
  have hdistinct : first.fullName ≠ second.fullName := by decide
  have hfirst : c ∈ Callable.hierarchy first := by decide
  have hsecond : c ∈ Callable.hierarchy second := by decide
  have hfound : Resolver.standard.find? .gauge c = some .unnamed := by decide
  obtain ⟨hinstance, hshared⟩ := gauge_sharing .standard hdistinct hfirst hsecond rfl rfl hfound
  obtain ⟨hone, hnever⟩ := hshared .declaringType (.inl rfl)
  exact ⟨hdistinct, hfirst, hsecond, hfound, hinstance rfl, hone, hnever⟩

end MetricWiring.Instrumentation
