import Mathlib.Data.List.Forall2
import MetricWiring.Proofs.Policies
import MetricWiring.Proofs.Registration
import MetricWiring.Proofs.SearchLog

/-!
# What the wiring of a type reports

A plan is made by asking about one method for one kind after the other, and reports are written as
these questions are answered (`planning`). The reports come out binding by binding: the trace of the
search that found the declaration, then the metric that was bound. Exactly the questions without an
answer leave no report (`events_visit_eq_nil_iff`). The registration adds one warning if it fails
and nothing if it succeeds (`log_faithful`).
-/
namespace MetricWiring.Instrumentation

/-- One method is asked about for one kind. What the search reports comes first, and then the metric
that is bound, if there is one. -/
def visit (w : Instrumentation) (t : TypeInfo) (k : Kind) (c : Callable) :
    Reported (List Binding) :=
  let asked := w.resolver.search k c
  match asked.value with
  | none => ⟨asked.events, []⟩
  | some d =>
    let name := w.namer.nameFor k t c d
    ⟨asked.events ++ [.bound k name c.name t.fullName], [⟨k, name, c.name, c.owner.fullName⟩]⟩

/-- What a plan asks about, in this order. -/
def questions (t : TypeInfo) : List (Kind × Callable) :=
  Kind.all.flatMap fun k => (callables t k).map fun c => (k, c)

/-- A plan as it is made. Reports and bindings are added to those that there are. -/
def planning (w : Instrumentation) (t : TypeInfo) : Reported (List Binding) :=
  (questions t).foldl
    (fun done q =>
      let visited := w.visit t q.1 q.2
      ⟨done.events ++ visited.events, done.value ++ visited.value⟩)
    ⟨[], []⟩

/-! ## The run and its account -/

/-- What a plan makes of a question, from its resolution. -/
def finding? (w : Instrumentation) (q : Kind × Callable) : Option Finding :=
  (w.resolver.resolve q.1 q.2).map fun found => ⟨q.1, q.2, found⟩

theorem findings_eq_filterMap (w : Instrumentation) (t : TypeInfo) :
    w.findings t = (questions t).filterMap w.finding? := by
  rw [findings, questions, List.filterMap_flatMap]
  congr 1
  funext k
  rw [List.filterMap_map]
  rfl

theorem visit_eq (w : Instrumentation) (t : TypeInfo) (q : Kind × Callable) :
    w.visit t q.1 q.2 =
      ⟨(w.finding? q).toList.flatMap (w.findingEvents t),
        (w.finding? q).toList.map (w.binding t)⟩ := by
  rw [visit, Resolver.search_eq, finding?]
  cases w.resolver.resolve q.1 q.2 with
  | none => rfl
  | some found =>
    simp only [Reported.ofResolution, Option.map_some, Option.toList_some, List.flatMap_singleton,
      List.map_singleton]
    rfl

theorem events_visit_eq_nil_iff {w : Instrumentation} {t : TypeInfo} {k : Kind} {c : Callable} :
    (w.visit t k c).events = [] ↔ w.resolver.find? k c = none := by
  constructor
  · intro h
    rw [← Resolver.value_search]
    cases hvalue : (w.resolver.search k c).value with
    | none => rfl
    | some d => simp [visit, hvalue] at h
  · intro h
    rw [visit, Resolver.search_of_find?_eq_none h]

/-- Whatever has been reported and bound before, the questions add what was found for them. -/
theorem foldl_visit (w : Instrumentation) (t : TypeInfo) (qs : List (Kind × Callable))
    (done : Reported (List Binding)) :
    qs.foldl
        (fun done q =>
          let visited := w.visit t q.1 q.2
          ⟨done.events ++ visited.events, done.value ++ visited.value⟩)
        done =
      ⟨done.events ++ (qs.filterMap w.finding?).flatMap (w.findingEvents t),
        done.value ++ (qs.filterMap w.finding?).map (w.binding t)⟩ := by
  induction qs generalizing done with
  | nil => simp
  | cons q qs ih =>
    rw [List.foldl_cons, ih, visit_eq]
    cases hq : w.finding? q with
    | none => simp [hq]
    | some f => simp [hq]

theorem planning_eq (w : Instrumentation) (t : TypeInfo) :
    w.planning t = ⟨w.planEvents t, w.plan t⟩ := by
  rw [planning, foldl_visit, planEvents, plan, findings_eq_filterMap]
  rfl

/-! ## Reading the reports -/

/-- The reports on one binding: the trace of a search for a declaration of its kind, on a method
that its type asks about, and then the metric. -/
def Narrates (w : Instrumentation) (t : TypeInfo) (b : Binding) (events : List Event) : Prop :=
  ∃ c ∈ callables t b.kind, ∃ d traces,
    w.resolver.search b.kind c = ⟨traces, some d⟩ ∧ (∀ e ∈ traces, e.level = .trace) ∧
      b = ⟨b.kind, w.namer.nameFor b.kind t c d, c.name, c.owner.fullName⟩ ∧
      events = traces ++ [.bound b.kind b.name b.method t.fullName]

theorem narrates_of_mem_findings {w : Instrumentation} {t : TypeInfo} {f : Finding}
    (h : f ∈ w.findings t) : Narrates w t (w.binding t f) (w.findingEvents t f) := by
  obtain ⟨hc, hfound⟩ := mem_findings_iff.1 h
  have hsearch : w.resolver.search f.kind f.callable =
      ⟨f.events, some f.resolution.declaration⟩ := by
    rw [Resolver.search_eq, hfound]
    rfl
  refine ⟨f.callable, hc, f.resolution.declaration, f.events, hsearch, ?_, rfl, rfl⟩
  intro e he
  have hlogged : e ∈ (w.resolver.search f.kind f.callable).events := by rwa [hsearch]
  exact Resolver.level_of_mem_search hlogged

/-- The metric that is reported for a binding to an instance of a type of the given name. -/
def boundEvent (fullName : String) (b : Binding) : Event := .bound b.kind b.name b.method fullName

theorem filter_debug_findingEvents (w : Instrumentation) (t : TypeInfo) (f : Finding) :
    ((w.findingEvents t f).filter fun e => e.level = .debug) =
      [boundEvent t.fullName (w.binding t f)] := by
  have htraces : (f.events.filter fun e => e.level = .debug) = [] := by
    rw [Finding.events, List.filter_eq_nil_iff]
    intro e he
    obtain ⟨position, _, rfl⟩ := List.mem_map.1 he
    simp [Event.level]
  rw [findingEvents, List.filter_append, htraces]
  rfl

theorem filter_debug_planEvents (w : Instrumentation) (t : TypeInfo) :
    ((w.planEvents t).filter fun e => e.level = .debug) =
      (w.plan t).map (boundEvent t.fullName) := by
  rw [planEvents, List.filter_flatMap, plan, List.map_map, List.map_eq_flatMap]
  congr 1
  funext f
  exact filter_debug_findingEvents w t f

/-- The warning that says why a type of the given name was not registered. -/
def Warns (fullName : String) (cause : RegistryError) (e : Event) : Prop :=
  e.level = .warn ∧
    match cause with
    | .emptyName k method =>
      e.message = "Absolute declaration without a name" ∧
        e.fields = [("kind", .text k.keyword), ("method", .text method),
          ("instance_type", .text fullName)]
    | .duplicateName .. =>
      e.message = "Metric registration rejected" ∧
        e.fields = [("instance_type", .text fullName), ("error", .text cause.message)]

/-- How the reports of a registration end, by its answer. -/
def Concludes (fullName : String) (bs : List Binding) :
    Except RegistryError (List Binding) → List Event → Prop
  | .ok entered, events => entered = bs ∧ events = []
  | .error cause, events =>
    (∀ k method, cause = .emptyName k method →
        ∃ b ∈ bs, b.kind = k ∧ b.method = method ∧ b.name = "") ∧
      ∃ e, Warns fullName cause e ∧ events = [e]

/-- Entering the plan adds the ending to the reports on the plan. -/
theorem concludes_register (w : Instrumentation) (r : Registry) (t : TypeInfo) :
    ∃ ending, (w.register r t).events = w.planEvents t ++ ending ∧
      Concludes t.fullName (w.plan t) (w.register r t).answer ending := by
  rw [register_eq, run_enter]
  cases hfind : (w.plan t).find? fun b => b.name = "" with
  | some b =>
    have hnoName : b.name = "" := (find?_noName_eq_some_iff.1 hfind).1
    refine ⟨_, rfl, ?_, _, ⟨rfl, rfl, rfl⟩, rfl⟩
    rintro k method ⟨⟩
    exact ⟨b, List.mem_of_find?_eq_some hfind, rfl, rfl, hnoName⟩
  | none =>
    cases hall : (Registry.registerAll (w.plan t)).run r with
    | ok added s =>
      simp only
      exact ⟨[], (List.append_nil _).symm, rfl, rfl⟩
    | error e s =>
      obtain ⟨⟨earlier, b, k, _, rfl⟩, -⟩ := Registry.registerAll_eq_error_iff.1 hall
      simp only
      refine ⟨_, rfl, ?_, _, ⟨rfl, rfl, rfl⟩, rfl⟩
      rintro _ _ ⟨⟩

/-- The reports of a plan are those of its run, question by question. Each binding in turn has its
own, the trace of its search and then the metric, and there are no others; questions to which
nothing is found are the ones that report nothing. The metrics alone are the bindings of the plan. A
registration reports its plan and then, only if it fails, one warning with the cause. -/
theorem log_faithful (w : Instrumentation) (t : TypeInfo) (r : Registry) :
    w.planning t = ⟨w.planEvents t, w.plan t⟩ ∧
      (∃ blocks, List.Forall₂ (Narrates w t) (w.plan t) blocks ∧
        w.planEvents t = blocks.flatten) ∧
      (∀ k c, (w.visit t k c).events = [] ↔ w.resolver.find? k c = none) ∧
      ((w.planEvents t).filter fun e => e.level = .debug) =
        (w.plan t).map (boundEvent t.fullName) ∧
      ∃ ending, (w.register r t).events = w.planEvents t ++ ending ∧
        Concludes t.fullName (w.plan t) (w.register r t).answer ending := by
  refine ⟨planning_eq w t, ?_, fun k c => events_visit_eq_nil_iff, filter_debug_planEvents w t,
    concludes_register w r t⟩
  refine ⟨(w.findings t).map (w.findingEvents t), ?_, List.flatMap_def⟩
  rw [plan, List.forall₂_map_left_iff, List.forall₂_map_right_iff, List.forall₂_same]
  intro f hf
  exact narrates_of_mem_findings hf

end MetricWiring.Instrumentation
