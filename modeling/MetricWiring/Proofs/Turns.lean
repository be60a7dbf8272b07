import MetricWiring.Proofs.Batch

/-!
# A batch against requests made one by one

Asking for names one after the other ends at the first refusal, and what was granted before it
stays. A batch gives the answer of such a run, counts its grants of new names and leaves the same
registry, except that a refusal undoes everything (`registerAll_agrees_inTurn`).
-/
namespace MetricWiring.Registry

/-- Requests for one name after the other: the answers to those granted, the refusal that ended them
if there was one, and the registry in the end. -/
structure Turns where
  answers : List Bool := []
  refusal : Option RegistryError := none
  registry : Registry

/-- Asks for the names of bindings in their order and stops at the first refusal. -/
def inTurn (r : Registry) : List Binding → Turns
  | [] => { registry := r }
  | b :: bs =>
    match (register b.name b.kind).run r with
    | .ok isNew s => { inTurn s bs with answers := isNew :: (inTurn s bs).answers }
    | .error e s => { refusal := some e, registry := s }

theorem run_registerEach (r : Registry) (bs : List Binding) :
    (registerEach bs).run r =
      match (inTurn r bs).refusal with
      | none => .ok ((inTurn r bs).answers.count true) (inTurn r bs).registry
      | some e => .error e (inTurn r bs).registry := by
  induction bs generalizing r with
  | nil => rfl
  | cons b bs ih =>
    rw [registerEach, inTurn, EStateM.run_bind]
    cases hb : (register b.name b.kind).run r with
    | error e s => rfl
    | ok isNew s =>
      simp only [EStateM.run_bind, ih s]
      cases (inTurn s bs).refusal with
      | some e => rfl
      | none => cases isNew <;> simp [Nat.add_comm]

/-- The run is refused for the binding after those granted, if it clashes with what they left. -/
theorem refusal_inTurn_iff {r : Registry} {bs : List Binding} {e : RegistryError} :
    (inTurn r bs).refusal = some e ↔
      ∃ b k, bs[(inTurn r bs).answers.length]? = some b ∧
        (inTurn r bs).registry.get? b.name = some k ∧ ¬ (k = b.kind ∧ b.kind ≠ .gauge) ∧
          e = .duplicateName b.name k b.kind := by
  induction bs generalizing r with
  | nil => simp [inTurn]
  | cons b bs ih =>
    rw [inTurn]
    cases hb : (register b.name b.kind).run r with
    | error e' s =>
      obtain ⟨⟨l, hl, hn, rfl⟩, rfl⟩ := register_eq_error_iff.1 hb
      simp only [List.length_nil, List.getElem?_cons_zero, Option.some.injEq]
      constructor
      · rintro rfl
        exact ⟨b, l, rfl, hl, hn, rfl⟩
      · rintro ⟨_, k, rfl, hk, -, rfl⟩
        rw [hl] at hk
        cases hk
        rfl
    | ok isNew s =>
      simp only [List.length_cons, List.getElem?_cons_succ]
      exact ih

theorem run_registerAll_eq_inTurn (r : Registry) (bs : List Binding) :
    (registerAll bs).run r =
      match (inTurn r bs).refusal with
      | none => .ok ((inTurn r bs).answers.count true) (inTurn r bs).registry
      | some e => .error e r := by
  rw [run_registerAll, run_registerEach]
  cases (inTurn r bs).refusal <;> rfl

/-- Checking a batch leaves the registry as it was. -/
theorem eq_of_run_stage {r s collected : Registry} {bs : List Binding}
    (h : (stage bs).run r = .ok collected s) : s = r := by
  have hfollows := foldlM_stageNext_follows r .empty bs (fun _ _ _ => rfl)
  rw [stage] at h
  rw [h] at hfollows
  generalize (registerEach bs).run _ = counted at hfollows
  cases hfollows
  rfl

/-- The batch, against its bindings taken in turn. Without a refusal it counts the answers that say
"new" and leaves the same registry, in whichever order the names collected are entered; to collect
them does not touch it. With one it gives the same refusal and leaves the registry as it was. The
refusal is that of the binding after those granted, for the kind that holds its name when its turn
comes. -/
theorem registerAll_agrees_inTurn (r : Registry) (bs : List Binding) :
    let turns := inTurn r bs
    ((registerAll bs).run r =
        match turns.refusal with
        | none => .ok (turns.answers.count true) turns.registry
        | some e => .error e r) ∧
      (∀ e, turns.refusal = some e ↔
        ∃ b k, bs[turns.answers.length]? = some b ∧ turns.registry.get? b.name = some k ∧
          ¬ (k = b.kind ∧ b.kind ≠ .gauge) ∧ e = .duplicateName b.name k b.kind) ∧
      ∀ collected s, (stage bs).run r = .ok collected s →
        s = r ∧ ∀ es : List (String × Kind), es.Perm collected.entries →
          es.foldl (fun acc e => acc.insert e.1 e.2) r = turns.registry := by
  intro turns
  refine ⟨run_registerAll_eq_inTurn r bs, fun e => refusal_inTurn_iff, ?_⟩
  intro collected s hstage
  obtain rfl := eq_of_run_stage hstage
  refine ⟨rfl, ?_⟩
  intro es hes
  rw [NameTable.foldl_insert_perm hes collected.nodup_names s]
  have hall := run_registerAll_eq_inTurn s bs
  rw [registerAll, EStateM.run_bind, hstage] at hall
  cases hr : (inTurn s bs).refusal with
  | none =>
    rw [hr] at hall
    exact (EStateM.Result.ok.inj hall).2
  | some e =>
    rw [hr] at hall
    cases hall

/-- The second request for a gauge ends the run. It keeps the two names granted; the batch keeps
none. -/
example :
    let bs : List Binding := [⟨.timed, "io", "read", "T"⟩, ⟨.gauge, "g", "g", "T"⟩,
      ⟨.gauge, "g", "h", "T"⟩]
    (inTurn .empty bs).registry.names = ["g", "io"] ∧
      (registerAll bs).run .empty = .error (.duplicateName "g" .gauge .gauge) .empty := by
  exact ⟨by decide, rfl⟩

end MetricWiring.Registry
