import MetricWiring.Proofs.Batch
import MetricWiring.Proofs.MetricName
import MetricWiring.Proofs.Plan

/-!
# How a registration ends

A type is registered in one of three ways: refused for the first binding without a metric name, or
else refused for the first binding that clashes, or else entered as a whole. `Settles` says when
each of them happens and what it leaves behind; nothing else is possible (`settles_iff`).
-/
namespace MetricWiring.Instrumentation

/-- The answer to a list of bindings and the registry that is left. -/
inductive Settles (r : Registry) (bs : List Binding) :
    Except RegistryError (List Binding) → Registry → Prop where
  /-- A binding has no metric name and all before it have one. Clashes do not matter. -/
  | unnamed {earlier : List Binding} {b : Binding} (split : earlier ++ [b] <+: bs)
      (named : ∀ a ∈ earlier, a.name ≠ "") (noName : b.name = "") :
      Settles r bs (.error (.emptyName b.kind b.method)) r
  /-- Every binding has a name, and one of them clashes while none before it does. -/
  | refused {earlier : List Binding} {b : Binding} {k : Kind} (named : ∀ a ∈ bs, a.name ≠ "")
      (first : Registry.Refused r bs earlier b k) :
      Settles r bs (.error (.duplicateName b.name k b.kind)) r
  /-- Every binding has a name, and none clashes. -/
  | entered {s : Registry} {added : Nat} (named : ∀ a ∈ bs, a.name ≠ "")
      (all : Registry.Entered r bs added s) : Settles r bs (.ok bs) s

theorem find?_noName_eq_none_iff {bs : List Binding} :
    bs.find? (fun b => b.name = "") = none ↔ ∀ a ∈ bs, a.name ≠ "" := by
  simp [List.find?_eq_none]

theorem find?_noName_eq_some_iff {bs : List Binding} {b : Binding} :
    bs.find? (fun b => b.name = "") = some b ↔
      b.name = "" ∧ ∃ earlier, earlier ++ [b] <+: bs ∧ ∀ a ∈ earlier, a.name ≠ "" := by
  rw [List.find?_eq_some_iff_append]
  simp only [decide_eq_true_eq, Bool.not_eq_true', decide_eq_false_iff_not, ne_eq]
  refine and_congr_right fun _ => exists_congr fun earlier => ?_
  constructor
  · intro h
    obtain ⟨later, hbs, hearlier⟩ := h
    exact ⟨⟨later, by rw [hbs, List.append_assoc]; rfl⟩, hearlier⟩
  · intro h
    obtain ⟨⟨later, hbs⟩, hearlier⟩ := h
    exact ⟨later, by rw [← hbs, List.append_assoc]; rfl, hearlier⟩

theorem run_onRegistry {α : Type} (x : Registry.OnRegistry α) (s : Session) :
    (onRegistry x).run s =
      match x.run s.registry with
      | .ok a r => .ok a ⟨r, s.events⟩
      | .error e r => .error e ⟨r, s.events⟩ := by
  show onRegistry x s = _
  cases hrun : x.run s.registry with
  | ok a r => simp only [onRegistry, hrun]
  | error e r => simp only [onRegistry, hrun]

theorem run_tryCatch {α : Type} (x : OnSession α) (handle : RegistryError → OnSession α)
    (s : Session) :
    (tryCatch x handle).run s =
      match x.run s with
      | .ok a u => .ok a u
      | .error e u => (handle e).run u := by
  simp only [EStateM.run, tryCatch, tryCatchThe, MonadExceptOf.tryCatch, EStateM.tryCatch]
  cases x s <;> rfl

/-- Bindings that all have names are entered as a batch; what the batch leaves of the registry is
left. -/
theorem run_enter (fullName : String) (bs : List Binding) (s : Session) :
    (enter fullName bs).run s =
      match bs.find? fun b => b.name = "" with
      | some b =>
        .error (.emptyName b.kind b.method)
          ⟨s.registry, s.events ++ [.unnamed b.kind b.method fullName]⟩
      | none =>
        match (Registry.registerAll bs).run s.registry with
        | .ok _ r => .ok bs ⟨r, s.events⟩
        | .error e r => .error e ⟨r, s.events ++ [.rejected fullName e]⟩ := by
  rw [enter]
  cases bs.find? fun b => b.name = "" with
  | some b => rfl
  | none =>
    simp only [run_tryCatch, EStateM.run_bind, run_onRegistry]
    cases (Registry.registerAll bs).run s.registry <;> rfl

/-- A type is registered by entering its plan, after the reports on the plan. -/
theorem register_eq (w : Instrumentation) (r : Registry) (t : TypeInfo) :
    w.register r t = .ofResult ((enter t.fullName (w.plan t)).run ⟨r, w.planEvents t⟩) := rfl

theorem register_of_settles {w : Instrumentation} {r s : Registry} {t : TypeInfo}
    {answer : Except RegistryError (List Binding)} (h : Settles r (w.plan t) answer s) :
    (w.register r t).answer = answer ∧ (w.register r t).registry = s := by
  rw [register_eq, run_enter]
  cases h with
  | unnamed split named noName =>
    rw [find?_noName_eq_some_iff.2 ⟨noName, _, split, named⟩]
    exact ⟨rfl, rfl⟩
  | refused named first =>
    rw [find?_noName_eq_none_iff.2 named]
    simp only [Registry.registerAll_eq_error_iff.2 ⟨⟨_, _, _, first, rfl⟩, rfl⟩]
    exact ⟨rfl, rfl⟩
  | entered named all =>
    rw [find?_noName_eq_none_iff.2 named]
    simp only [Registry.registerAll_eq_ok_iff.2 all]
    exact ⟨rfl, rfl⟩

theorem exists_settles (r : Registry) (bs : List Binding) :
    ∃ answer s, Settles r bs answer s := by
  cases hfind : bs.find? fun b => b.name = "" with
  | some b =>
    obtain ⟨noName, earlier, split, named⟩ := find?_noName_eq_some_iff.1 hfind
    exact ⟨_, _, .unnamed split named noName⟩
  | none =>
    have named := find?_noName_eq_none_iff.1 hfind
    cases hall : (Registry.registerAll bs).run r with
    | error e s =>
      obtain ⟨⟨earlier, b, k, first, rfl⟩, -⟩ := Registry.registerAll_eq_error_iff.1 hall
      exact ⟨_, _, .refused named first⟩
    | ok added s => exact ⟨_, _, .entered named (Registry.registerAll_eq_ok_iff.1 hall)⟩

/-- The outcome of a registration is the one outcome that the three ways allow. -/
theorem settles_iff {w : Instrumentation} {r s : Registry} {t : TypeInfo}
    {answer : Except RegistryError (List Binding)} :
    Settles r (w.plan t) answer s ↔
      (w.register r t).answer = answer ∧ (w.register r t).registry = s := by
  refine ⟨register_of_settles, ?_⟩
  rintro ⟨rfl, rfl⟩
  obtain ⟨answer, s, hs⟩ := exists_settles r (w.plan t)
  obtain ⟨rfl, rfl⟩ := register_of_settles hs
  exact hs

/-- The plan decides how a registration ends. -/
theorem register_congr {v w : Instrumentation} {t : TypeInfo} (h : v.plan t = w.plan t)
    (r : Registry) :
    (v.register r t).answer = (w.register r t).answer ∧
      (v.register r t).registry = (w.register r t).registry := by
  rw [← settles_iff, h, settles_iff]
  exact ⟨rfl, rfl⟩

/-- A type is entered exactly if all its bindings have names and its plan is entered as a batch. -/
theorem register_eq_ok_iff {w : Instrumentation} {r s : Registry} {t : TypeInfo}
    {bs : List Binding} :
    (w.register r t).answer = .ok bs ∧ (w.register r t).registry = s ↔
      bs = w.plan t ∧ (∀ b ∈ w.plan t, b.name ≠ "") ∧
        ∃ added, (Registry.registerAll (w.plan t)).run r = .ok added s := by
  rw [← settles_iff]
  constructor
  · intro h
    cases h with
    | entered named all => exact ⟨rfl, named, _, Registry.registerAll_eq_ok_iff.2 all⟩
  · rintro ⟨rfl, named, added, hok⟩
    exact .entered named (Registry.registerAll_eq_ok_iff.1 hok)

/-- A type that is refused leaves the registry as it was. -/
theorem registry_of_answer_eq_error {w : Instrumentation} {r : Registry} {t : TypeInfo}
    {e : RegistryError} (h : (w.register r t).answer = .error e) :
    (w.register r t).registry = r := by
  generalize hs : (w.register r t).registry = s
  have hsettles := settles_iff.2 ⟨h, hs⟩
  cases hsettles <;> rfl

theorem entered_of_answer_eq_ok {w : Instrumentation} {r : Registry} {t : TypeInfo}
    {bs : List Binding} (hok : (w.register r t).answer = .ok bs) :
    ∃ added, Registry.Entered r (w.plan t) added (w.register r t).registry := by
  obtain ⟨-, -, added, hall⟩ := register_eq_ok_iff.1 ⟨hok, rfl⟩
  exact ⟨added, Registry.registerAll_eq_ok_iff.1 hall⟩

theorem get?_of_register_eq_ok {w : Instrumentation} {r : Registry} {t : TypeInfo}
    {bs : List Binding} (hok : (w.register r t).answer = .ok bs) {b : Binding} (hb : b ∈ w.plan t) :
    (w.register r t).registry.get? b.name = some b.kind := by
  obtain ⟨added, entered⟩ := entered_of_answer_eq_ok hok
  exact (entered.held _ _).2 (.inr ⟨b, hb, rfl, rfl⟩)

theorem exists_noName_iff (w : Instrumentation) (t : TypeInfo) :
    (∃ b ∈ w.plan t, b.name = "") ↔
      ∃ k, ∃ c ∈ callables t k, ∃ d, w.resolver.find? k c = some d ∧
        d.absolute = true ∧ d.name = "" := by
  constructor
  · intro h
    obtain ⟨b, hb, hnone⟩ := h
    obtain ⟨c, hc, d, hd, hname, _⟩ := mem_plan_iff.1 hb
    rw [hnone] at hname
    exact ⟨b.kind, c, hc, d, hd, Namer.nameFor_eq_empty_iff.1 hname.symm⟩
  · intro h
    obtain ⟨k, c, hc, d, hd, hempty⟩ := h
    have hname : w.namer.nameFor k t c d = "" := Namer.nameFor_eq_empty_iff.2 hempty
    exact ⟨⟨k, w.namer.nameFor k t c d, c.name, c.owner.fullName⟩,
      mem_plan_iff.2 ⟨c, hc, d, hd, rfl, rfl, rfl⟩, hname⟩

/-- A binding of the plan is without a name exactly if a declaration that applies is to be taken as
it stands and says nothing. A binding that is refused for a clash is refused for the only kind that
holds its name. Registering the type ends in the one way that `Settles` allows. -/
theorem register_settles (w : Instrumentation) (r : Registry) (t : TypeInfo) :
    ((∃ b ∈ w.plan t, b.name = "") ↔
        ∃ k, ∃ c ∈ callables t k, ∃ d, w.resolver.find? k c = some d ∧
          d.absolute = true ∧ d.name = "") ∧
      (∀ earlier b k, Registry.Refused r (w.plan t) earlier b k →
        ∀ l, Registry.Holds r earlier b.name l ↔ l = k) ∧
      ∀ answer s, Settles r (w.plan t) answer s ↔
        (w.register r t).answer = answer ∧ (w.register r t).registry = s := by
  exact ⟨exists_noName_iff w t, fun _ _ _ h => h.holds_iff, fun _ _ => settles_iff⟩

end MetricWiring.Instrumentation
