import MetricWiring.Proofs.Registration

/-!
# The order of registration

A batch is checked binding by binding, but whether it can be entered does not depend on the order:
each binding has to fit the registry, and any two have to go together (`agrees_iff`). Registering
types one after the other is entering their plans as one batch (`registerTypes_eq_ok_iff`), so the
order of the types does not matter either (`order_immaterial`).
-/
namespace MetricWiring

namespace Registry

/-- The name of a binding is free, or held by the binding's kind, which shares it. -/
def Fits (r : Registry) (b : Binding) : Prop :=
  ∀ k, r.get? b.name = some k → k = b.kind ∧ b.kind ≠ .gauge

/-- Two bindings go together: they have different names, or one kind that shares its names. -/
def Compatible (b c : Binding) : Prop := b.name = c.name → b.kind = c.kind ∧ c.kind ≠ .gauge

theorem Compatible.symm {b c : Binding} (h : Compatible b c) : Compatible c b := by
  intro hname
  obtain ⟨hkind, hg⟩ := h hname.symm
  exact ⟨hkind.symm, hkind ▸ hg⟩

theorem not_clashes_iff {r : Registry} {earlier : List Binding} {b : Binding} :
    (∀ k, ¬ Clashes r earlier b k) ↔ Fits r b ∧ ∀ a ∈ earlier, Compatible a b := by
  constructor
  · intro h
    refine ⟨fun k hk => ?_, fun a ha hname => ?_⟩
    · by_contra hn
      exact h k ⟨.inl hk, hn⟩
    · by_contra hn
      exact h a.kind ⟨.inr ⟨a, ha, hname, rfl⟩, hn⟩
  · rintro ⟨hfits, hall⟩ k ⟨hk | ⟨a, ha, hname, rfl⟩, hn⟩
    · exact hn (hfits k hk)
    · exact hn (hall a ha hname)

/-- The order-free form of `Agrees`. -/
theorem agrees_iff {r : Registry} {bs : List Binding} :
    Agrees r bs ↔ (∀ b ∈ bs, Fits r b) ∧ bs.Pairwise Compatible := by
  induction bs using List.reverseRecOn with
  | nil => simp
  | append_singleton bs b ih =>
    rw [agrees_concat, ih, not_clashes_iff, List.pairwise_append]
    simp only [List.mem_append, List.mem_singleton, or_imp, forall_and, forall_eq,
      List.pairwise_singleton, true_and]
    constructor
    · rintro ⟨⟨hfits, hpair⟩, hb, hall⟩
      exact ⟨⟨hfits, hb⟩, hpair, hall⟩
    · rintro ⟨⟨hfits, hb⟩, hpair, hall⟩
      exact ⟨⟨hfits, hpair⟩, hb, hall⟩

theorem Entered.perm {r s : Registry} {bs cs : List Binding} {added : Nat}
    (h : Entered r bs added s) (hp : bs.Perm cs) : Entered r cs added s where
  agrees := by
    obtain ⟨hfits, hpair⟩ := agrees_iff.1 h.agrees
    exact agrees_iff.2 ⟨fun b hb => hfits b (hp.mem_iff.2 hb),
      hpair.perm hp fun hbc => hbc.symm⟩
  held name k := by simp only [h.held, Holds, hp.mem_iff]
  size := h.size

theorem registerAll_perm {r s : Registry} {bs cs : List Binding} {added : Nat} (hp : bs.Perm cs) :
    (registerAll bs).run r = .ok added s ↔ (registerAll cs).run r = .ok added s := by
  rw [registerAll_eq_ok_iff, registerAll_eq_ok_iff]
  exact ⟨fun h => h.perm hp, fun h => h.perm hp.symm⟩

theorem run_registerAll_nil (r : Registry) : (registerAll []).run r = .ok 0 r := rfl

/-- A batch in two parts is one batch after the other. -/
theorem registerAll_append_iff {r s : Registry} {bs cs : List Binding} {added : Nat} :
    (registerAll (bs ++ cs)).run r = .ok added s ↔
      ∃ m u n, (registerAll bs).run r = .ok m u ∧ (registerAll cs).run u = .ok n s ∧
        m + n = added := by
  simp only [registerAll_eq_ok_iff_registerEach, registerEach_append, EStateM.run_bind]
  cases hbs : (registerEach bs).run r with
  | error e u => simp
  | ok m u =>
    cases hcs : (registerEach cs).run u with
    | error e v => simp [hcs]
    | ok n v => simp [hcs, and_comm]

end Registry

namespace Instrumentation

/-- Registers types one after the other, up to the first one that is refused. -/
def registerTypes (w : Instrumentation) (r : Registry) :
    List TypeInfo → Except RegistryError Registry
  | [] => .ok r
  | t :: ts =>
    match (w.register r t).answer with
    | .ok _ => registerTypes w (w.register r t).registry ts
    | .error e => .error e

theorem registerTypes_cons_iff {w : Instrumentation} {r s : Registry} {t : TypeInfo}
    {ts : List TypeInfo} :
    w.registerTypes r (t :: ts) = .ok s ↔
      (∀ b ∈ w.plan t, b.name ≠ "") ∧
        ∃ added u, (Registry.registerAll (w.plan t)).run r = .ok added u ∧
          w.registerTypes u ts = .ok s := by
  rw [registerTypes]
  cases ha : (w.register r t).answer with
  | error e =>
    simp only [reduceCtorEq, false_iff]
    rintro ⟨named, added, u, hok, -⟩
    have hset := register_eq_ok_iff.2 ⟨rfl, named, added, hok⟩
    rw [ha] at hset
    cases hset.1
  | ok bs =>
    obtain ⟨-, named, added, hok⟩ := register_eq_ok_iff.1 ⟨ha, rfl⟩
    constructor
    · intro h
      exact ⟨named, added, _, hok, h⟩
    · rintro ⟨-, m, u, hu, h⟩
      rw [hok] at hu
      cases hu
      exact h

/-- The types are all entered exactly if every binding has a name and the plans together are
entered as one batch. -/
theorem registerTypes_eq_ok_iff {w : Instrumentation} {r s : Registry} {ts : List TypeInfo} :
    w.registerTypes r ts = .ok s ↔
      (∀ t ∈ ts, ∀ b ∈ w.plan t, b.name ≠ "") ∧
        ∃ added, (Registry.registerAll (ts.flatMap w.plan)).run r = .ok added s := by
  induction ts generalizing r with
  | nil => simp [registerTypes, Registry.run_registerAll_nil]
  | cons t ts ih =>
    simp only [registerTypes_cons_iff, ih, List.flatMap_cons, Registry.registerAll_append_iff,
      List.forall_mem_cons]
    constructor
    · rintro ⟨named, m, u, hm, hts, n, hn⟩
      exact ⟨⟨named, hts⟩, m + n, m, u, n, hm, hn, rfl⟩
    · rintro ⟨⟨named, hts⟩, _, m, u, n, hm, hn, -⟩
      exact ⟨named, m, u, hm, hts, n, hn⟩

/-- A batch is entered in one order exactly if it is in another, with the same count of new names
and the same registry. So are types registered one after the other, and this happens exactly if all
their bindings have names and their plans are entered as one batch. -/
theorem order_immaterial (w : Instrumentation) (r : Registry) {bs cs : List Binding}
    {ts us : List TypeInfo} (hbs : bs.Perm cs) (hts : ts.Perm us) :
    (∀ added s, (Registry.registerAll bs).run r = .ok added s ↔
        (Registry.registerAll cs).run r = .ok added s) ∧
      (∀ s, w.registerTypes r ts = .ok s ↔ w.registerTypes r us = .ok s) ∧
      ∀ s, w.registerTypes r ts = .ok s ↔
        (∀ t ∈ ts, ∀ b ∈ w.plan t, b.name ≠ "") ∧
          ∃ added, (Registry.registerAll (ts.flatMap w.plan)).run r = .ok added s := by
  refine ⟨fun _ _ => Registry.registerAll_perm hbs, ?_, fun _ => registerTypes_eq_ok_iff⟩
  intro s
  have hplans : (ts.flatMap w.plan).Perm (us.flatMap w.plan) := hts.flatMap_right w.plan
  simp only [registerTypes_eq_ok_iff, hts.mem_iff, Registry.registerAll_perm hplans]

/-- A timer that shares a name already held, and a gauge; a type with a gauge, and an heir of it. -/
theorem order_immaterial_of_two :
    let r : Registry := NameTable.empty.insert "io" .timed
    let a : Binding := ⟨.timed, "io", "read", "pkg.T"⟩
    let b : Binding := ⟨.gauge, "level", "level", "pkg.T"⟩
    let base := TypeInfo.build "pkg.P" [.method (.ofPairs "g" [(.gauge, .unnamed)])]
    let heir := TypeInfo.build "pkg.B" [.parent base]
    [a, b].Perm [b, a] ∧ [base, heir].Perm [heir, base] ∧
      (∃ s, (Registry.registerAll [a, b]).run r = .ok 1 s ∧
        (Registry.registerAll [b, a]).run r = .ok 1 s) ∧
      ∃ s, standard.registerTypes r [base, heir] = .ok s ∧
        standard.registerTypes r [heir, base] = .ok s := by
  intro r a b base heir
  have hbs : [a, b].Perm [b, a] := .swap b a []
  have hts : [base, heir].Perm [heir, base] := .swap heir base []
  obtain ⟨hbatch, htypes, -⟩ := order_immaterial standard r hbs hts
  have hok : (standard.registerTypes r [base, heir]).isOk = true := by decide
  cases hrun : standard.registerTypes r [base, heir] with
  | error e =>
    rw [hrun] at hok
    cases hok
  | ok s => exact ⟨hbs, hts, ⟨_, rfl, (hbatch _ _).1 rfl⟩, s, rfl, (htypes s).1 hrun⟩

end Instrumentation

end MetricWiring
