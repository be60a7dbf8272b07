import MetricWiring.Proofs.MetricName
import MetricWiring.Proofs.Plan

/-!
# What a type inherits

The flattened view of a type is made of its own methods and of what its parent has in view under
other names, as it is there (`hierarchy_eq_append`). So one method looked up, all methods of a type
and the flattened view never differ on a callable (`views_agree`). The plan divides in the same way.
A binding is made of what the resolver and the namer read (`bindingFor_congr`), and neither of them
reads the instance beyond its name or a type beyond its own definition. So the bindings for a type's
own methods do not show its parent, and those for inherited methods do not show what the type
declares, the names of its methods apart (`bindings_do_not_leak`).
-/
namespace MetricWiring

namespace Callable

/-- What a type has in view from its parent: the callables whose names it does not declare. -/
def inherited (t : TypeInfo) : List Callable :=
  match t.parent? with
  | none => []
  | some p => (hierarchy p).filter fun c => c.name ∉ t.own.methods.names

theorem hierarchy_eq_append (t : TypeInfo) : hierarchy t = declaredOn t ++ inherited t := by
  cases ht : t.parent? with
  | none => rw [hierarchy_of_parent?_eq_none ht, inherited, ht, List.append_nil]
  | some p => rw [hierarchy_of_parent?_eq_some ht, inherited, ht]

theorem name_mem_of_mem_declaredOn {t : TypeInfo} {c : Callable} (h : c ∈ declaredOn t) :
    c.name ∈ t.own.methods.names := by
  rw [← map_name_declaredOn]
  exact List.mem_map_of_mem h

theorem name_not_mem_of_mem_inherited {t : TypeInfo} {c : Callable} (h : c ∈ inherited t) :
    c.name ∉ t.own.methods.names := by
  rw [inherited] at h
  cases ht : t.parent? with
  | none => simp [ht] at h
  | some p =>
    simp only [ht, List.mem_filter, decide_eq_true_eq] at h
    exact h.2

/-- The names a type declares decide what it inherits from a given parent, in whatever order. -/
theorem inherited_congr {t u : TypeInfo} (hparent : t.parent? = u.parent?)
    (hnames : ∀ n, n ∈ t.own.methods.names ↔ n ∈ u.own.methods.names) :
    inherited t = inherited u := by
  simp only [inherited, hparent, hnames]

theorem map_some_declaredOn (t : TypeInfo) :
    (declaredOn t).map some = t.own.methods.names.map (find? t) := by
  rw [← map_name_declaredOn, List.map_map]
  apply List.map_congr_left
  intro c hc
  have hfind : find? t c.name = some c := find?_eq_some_iff.2 ⟨hc, rfl⟩
  exact hfind.symm

/-- The flattened view is the type's own methods followed by what its parent has in view under other
names, unchanged and in order. The own methods are those found by name, one by one, and a callable
in view is found by its name at its owner: the same one, with the same types overridden. -/
theorem views_agree (t : TypeInfo) :
    (hierarchy t = declaredOn t ++
      match t.parent? with
      | none => []
      | some p => (hierarchy p).filter fun c => c.name ∉ t.own.methods.names) ∧
      (declaredOn t).map some = t.own.methods.names.map (find? t) ∧
      ∀ c ∈ hierarchy t, find? c.owner c.name = some c :=
  ⟨hierarchy_eq_append t, map_some_declaredOn t, fun _ hc => find?_of_mem_hierarchy hc⟩

end Callable

/-! ## What a binding is made of -/

theorem Source.find?_congr {c e : Callable} (hmethod : c.method = e.method)
    (howner : c.owner.own = e.owner.own) (s : Source) (k : Kind) : s.find? k c = s.find? k e := by
  cases s with
  | method => simp only [Source.find?, Callable.declarations, hmethod]
  | type => simp only [Source.find?, TypeInfo.declarations, howner]

theorem Resolver.find?_congr {c e : Callable} (hmethod : c.method = e.method)
    (howner : c.owner.own = e.owner.own) (r : Resolver) (k : Kind) : r.find? k c = r.find? k e := by
  have hsource : (fun s : Source => s.find? k c) = fun s => s.find? k e := by
    funext s
    exact Source.find?_congr hmethod howner s k
  rw [Resolver.find?_eq_findSome?, Resolver.find?_eq_findSome?, hsource]

theorem Namer.space_congr {t u : TypeInfo} {c e : Callable} (hinst : t.fullName = u.fullName)
    (howner : c.owner.own = e.owner.own) (n : Namer) (k : Kind) :
    n.space k t c = n.space k u e := by
  have hname : c.owner.fullName = e.owner.fullName := congrArg TypeDef.fullName howner
  induction n with
  | declaringType => exact hname
  | instanceType => simp only [Namer.space, hinst, hname]
  | wrapped n ih => exact ih

namespace Instrumentation

theorem bindingFor_congr {t u : TypeInfo} {c e : Callable} (hinst : t.fullName = u.fullName)
    (hmethod : c.method = e.method) (howner : c.owner.own = e.owner.own) (w : Instrumentation)
    (k : Kind) : w.bindingFor t k c = w.bindingFor u k e := by
  have hname : c.name = e.name := congrArg Method.name hmethod
  have hspace : c.owner.fullName = e.owner.fullName := congrArg TypeDef.fullName howner
  simp only [bindingFor, Resolver.find?_congr hmethod howner w.resolver k,
    Namer.nameFor_eq_compose, Namer.space_congr hinst howner w.namer k, hname, hspace]

/-! ## The two parts of a plan -/

/-- The bindings in the plan of a type for methods that it declares. -/
def ownBindings (w : Instrumentation) (t : TypeInfo) : List Binding :=
  (w.plan t).filter fun b => b.method ∈ t.own.methods.names

/-- The bindings in the plan of a type for methods that it does not declare. -/
def inheritedBindings (w : Instrumentation) (t : TypeInfo) : List Binding :=
  (w.plan t).filter fun b => b.method ∉ t.own.methods.names

/-- To pick bindings by their method is to pick the methods. -/
theorem filter_filterMap_bindingFor (w : Instrumentation) (t : TypeInfo) (k : Kind)
    (p : String → Bool) (cs : List Callable) :
    ((cs.filterMap (w.bindingFor t k)).filter fun b => p b.method) =
      (cs.filter fun c => p c.name).filterMap (w.bindingFor t k) := by
  rw [List.filter_filterMap, List.filterMap_filter]
  congr 1
  funext c
  cases hb : w.bindingFor t k c with
  | none => simp
  | some b =>
    obtain ⟨_, _, _, _, hmethod, _⟩ := bindingFor_eq_some_iff.1 hb
    rw [Option.filter_some, hmethod]

theorem filter_plan (w : Instrumentation) (t : TypeInfo) (p : String → Bool) :
    ((w.plan t).filter fun b => p b.method) =
      Kind.all.flatMap fun k =>
        ((callables t k).filter fun c => p c.name).filterMap (w.bindingFor t k) := by
  rw [plan_eq, List.filter_flatMap]
  congr 1
  funext k
  exact filter_filterMap_bindingFor w t k p (callables t k)

/-- A gauge can be on any method in view, every other kind on the type's own methods only. -/
theorem callables_eq_append (t : TypeInfo) (k : Kind) :
    callables t k =
      Callable.declaredOn t ++ if k = .gauge then Callable.inherited t else [] := by
  by_cases hk : k = .gauge
  · rw [if_pos hk, hk, callables_gauge, Callable.hierarchy_eq_append]
  · rw [if_neg hk, callables_of_ne_gauge t hk, List.append_nil]

theorem filter_callables (t : TypeInfo) (k : Kind) :
    ((callables t k).filter fun c => c.name ∈ t.own.methods.names) = Callable.declaredOn t ∧
      ((callables t k).filter fun c => c.name ∉ t.own.methods.names) =
        if k = .gauge then Callable.inherited t else [] := by
  let rest := if k = .gauge then Callable.inherited t else []
  have hown : ∀ c ∈ Callable.declaredOn t, c.name ∈ t.own.methods.names :=
    fun _ hc => Callable.name_mem_of_mem_declaredOn hc
  have hrest : ∀ c ∈ rest, c.name ∉ t.own.methods.names := by
    intro c hc
    by_cases hk : k = .gauge
    · have hinherited : c ∈ Callable.inherited t := by simpa [rest, hk] using hc
      exact Callable.name_not_mem_of_mem_inherited hinherited
    · simp [rest, hk] at hc
  have hparts : callables t k = Callable.declaredOn t ++ rest := callables_eq_append t k
  rw [hparts, List.filter_append, List.filter_append]
  constructor
  · have hkept := List.filter_eq_self.2 fun c hc => decide_eq_true (hown c hc)
    have hdropped : (rest.filter fun c => c.name ∈ t.own.methods.names) = [] := by
      simpa [List.filter_eq_nil_iff] using hrest
    rw [hkept, hdropped, List.append_nil]
  · have hkept := List.filter_eq_self.2 fun c hc => decide_eq_true (hrest c hc)
    have hdropped :
        ((Callable.declaredOn t).filter fun c => c.name ∉ t.own.methods.names) = [] := by
      simpa [List.filter_eq_nil_iff] using hown
    rw [hkept, hdropped, List.nil_append]

theorem ownBindings_eq (w : Instrumentation) (t : TypeInfo) :
    w.ownBindings t =
      Kind.all.flatMap fun k => (Callable.declaredOn t).filterMap (w.bindingFor t k) := by
  rw [ownBindings, filter_plan w t fun n => n ∈ t.own.methods.names]
  simp only [(filter_callables t _).1]

/-- Only gauges are inherited. -/
theorem inheritedBindings_eq (w : Instrumentation) (t : TypeInfo) :
    w.inheritedBindings t = (Callable.inherited t).filterMap (w.bindingFor t .gauge) := by
  rw [inheritedBindings, filter_plan w t fun n => n ∉ t.own.methods.names]
  simp only [(filter_callables t _).2]
  simp [Kind.all]

theorem kind_of_mem_inheritedBindings {w : Instrumentation} {t : TypeInfo} {b : Binding}
    (h : b ∈ w.inheritedBindings t) : b.kind = .gauge := by
  rw [inheritedBindings_eq] at h
  obtain ⟨c, _, hc⟩ := List.mem_filterMap.1 h
  obtain ⟨_, _, hkind, _⟩ := bindingFor_eq_some_iff.1 hc
  exact hkind

theorem ownBindings_congr {t u : TypeInfo} (h : t.own = u.own) (w : Instrumentation) :
    w.ownBindings t = w.ownBindings u := by
  have hinst : t.fullName = u.fullName := congrArg TypeDef.fullName h
  have hmethods : t.methods = u.methods := congrArg (fun d => d.methods.entries) h
  rw [ownBindings_eq, ownBindings_eq]
  congr 1
  funext k
  rw [Callable.declaredOn, Callable.declaredOn, hmethods, List.filterMap_map, List.filterMap_map]
  congr 1
  funext m
  -- The two callables stand on types with different ancestors, and override different types.
  show w.bindingFor t k ⟨t, m, Callable.overridden t m.name⟩ =
    w.bindingFor u k ⟨u, m, Callable.overridden u m.name⟩
  apply bindingFor_congr hinst
  · rfl
  · exact h

theorem inheritedBindings_congr {t u : TypeInfo} (hinst : t.fullName = u.fullName)
    (hparent : t.parent? = u.parent?)
    (hnames : ∀ n, n ∈ t.own.methods.names ↔ n ∈ u.own.methods.names) (w : Instrumentation) :
    w.inheritedBindings t = w.inheritedBindings u := by
  have hbinding : w.bindingFor t .gauge = w.bindingFor u .gauge := by
    funext c
    exact bindingFor_congr hinst rfl rfl w .gauge
  rw [inheritedBindings_eq, inheritedBindings_eq, Callable.inherited_congr hparent hnames, hbinding]

/-- A type with other ancestors, or with none, has the same bindings for its own methods, and all
its other bindings are gauges. A type with other declarations has the same bindings for the methods
it inherits, as long as its name, its parent and the names of its methods are the same. -/
theorem bindings_do_not_leak (w : Instrumentation) {t u v x : TypeInfo} (hown : t.own = u.own)
    (hinst : v.fullName = x.fullName) (hparent : v.parent? = x.parent?)
    (hnames : ∀ n, n ∈ v.own.methods.names ↔ n ∈ x.own.methods.names) :
    w.ownBindings t = w.ownBindings u ∧
      (∀ b ∈ w.inheritedBindings t, b.kind = .gauge) ∧
      (∀ b ∈ w.inheritedBindings u, b.kind = .gauge) ∧
      w.inheritedBindings v = w.inheritedBindings x := by
  have hgauges (s : TypeInfo) : ∀ b ∈ w.inheritedBindings s, b.kind = .gauge :=
    fun _ hb => kind_of_mem_inheritedBindings hb
  have hrest := inheritedBindings_congr hinst hparent hnames w
  exact ⟨ownBindings_congr hown w, hgauges t, hgauges u, hrest⟩

/-- A type with a gauge on all its methods; an heir that redeclares one of them, the heir without
its parent, and the heir with other declarations in another order. The gauge that is inherited is
the one of the other method. -/
theorem bindings_do_not_leak_of_heirs :
    let base := TypeInfo.build "pkg.P"
      [.declare .gauge .unnamed, .method (.ofPairs "g" []), .method (.ofPairs "h" [])]
    let own : List TypeInfo.BuildStep :=
      [.method (.ofPairs "g" [(.timed, .unnamed)]), .method (.ofPairs "run" [(.gauge, .unnamed)])]
    let heir := TypeInfo.build "pkg.T" (.parent base :: own)
    let orphan := TypeInfo.build "pkg.T" own
    let other := TypeInfo.build "pkg.T" [.parent base, .declare .gauge (.verbatim "depth"),
      .method (.ofPairs "run" []), .method (.ofPairs "g" [])]
    heir.own = orphan.own ∧ heir.fullName = other.fullName ∧ heir.parent? = other.parent? ∧
      (∀ n, n ∈ heir.own.methods.names ↔ n ∈ other.own.methods.names) ∧
      standard.ownBindings heir = standard.ownBindings orphan ∧
      (∀ b ∈ standard.inheritedBindings heir, b.kind = .gauge) ∧
      (∀ b ∈ standard.inheritedBindings orphan, b.kind = .gauge) ∧
      standard.inheritedBindings heir = standard.inheritedBindings other ∧
      (standard.inheritedBindings heir).map Binding.name = ["pkg.T.h.gauge"] := by
  intro base own heir orphan other
  have hown : heir.own = orphan.own := by decide
  have hinst : heir.fullName = other.fullName := by decide
  have hparent : heir.parent? = other.parent? := by decide
  have hperm : heir.own.methods.names.Perm other.own.methods.names := by decide
  have hnames : ∀ n, n ∈ heir.own.methods.names ↔ n ∈ other.own.methods.names :=
    fun _ => hperm.mem_iff
  obtain ⟨hsame, hgauges, hgauges', hrest⟩ :=
    bindings_do_not_leak standard hown hinst hparent hnames
  exact ⟨hown, hinst, hparent, hnames, hsame, hgauges, hgauges', hrest, by decide⟩

end Instrumentation

end MetricWiring
