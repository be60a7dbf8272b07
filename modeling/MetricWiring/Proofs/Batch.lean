import Mathlib.Data.List.Induction
import MetricWiring.Proofs.NameTable
import MetricWiring.Registry

/-!
# Batches of bindings

A batch is checked against two tables, the registry and the names collected so far. Its answer is
nevertheless that of asking for one name after the other (`run_registerAll`). So a batch is entered
exactly if none of its bindings clashes with what is held when its turn comes
(`registerAll_eq_ok_iff`), and else refused for the first one that does, with the registry left as
it was (`registerAll_eq_error_iff`).
-/
namespace MetricWiring.Registry

theorem judge_eq_fresh_iff {held : Option Kind} {k : Kind} :
    judge held k = .fresh ↔ held = none := by
  cases held with
  | none => simp [judge]
  | some l => by_cases h : l = k ∧ k ≠ .gauge <;> simp [judge, h]

theorem judge_eq_shared_iff {held : Option Kind} {k : Kind} :
    judge held k = .shared ↔ held = some k ∧ k ≠ .gauge := by
  cases held with
  | none => simp [judge]
  | some l =>
    by_cases h : l = k
    · subst h
      by_cases hg : l = .gauge <;> simp [judge, hg]
    · simp [judge, h]

theorem judge_eq_refused_iff {held : Option Kind} {k l : Kind} :
    judge held k = .refused l ↔ held = some l ∧ ¬ (l = k ∧ k ≠ .gauge) := by
  cases held with
  | none => simp [judge]
  | some m =>
    by_cases h : m = k ∧ k ≠ .gauge
    · rw [judge, if_pos h]
      constructor
      · intro hs
        cases hs
      · intro hs
        obtain ⟨hm, hn⟩ := hs
        cases hm
        exact absurd h hn
    · rw [judge, if_neg h]
      constructor
      · intro hm
        cases hm
        exact ⟨rfl, h⟩
      · intro hs
        obtain ⟨hm, _⟩ := hs
        cases hm
        rfl

/-! ## One name -/

theorem run_register (r : Registry) (name : String) (k : Kind) :
    (register name k).run r =
      match judge (r.get? name) k with
      | .fresh => .ok true (r.insert name k)
      | .shared => .ok false r
      | .refused l => .error (.duplicateName name l k) r := by
  rw [register, EStateM.run_bind, EStateM.run_get]
  simp only
  cases judge (r.get? name) k <;> rfl

theorem register_eq_ok_iff {r s : Registry} {name : String} {k : Kind} {isNew : Bool} :
    (register name k).run r = .ok isNew s ↔
      (r.get? name = none ∧ isNew = true ∧ s = r.insert name k) ∨
        (r.get? name = some k ∧ k ≠ .gauge ∧ isNew = false ∧ s = r) := by
  rw [run_register]
  cases hj : judge (r.get? name) k with
  | fresh =>
    have hnone := judge_eq_fresh_iff.1 hj
    simp [hnone, eq_comm]
  | shared =>
    obtain ⟨hsome, hk⟩ := judge_eq_shared_iff.1 hj
    simp [hsome, hk, eq_comm]
  | refused l =>
    obtain ⟨hsome, hn⟩ := judge_eq_refused_iff.1 hj
    simp only [reduceCtorEq, hsome, Option.some.injEq, false_and, false_or, false_iff]
    intro hs
    obtain ⟨hl, hk, _⟩ := hs
    exact hn ⟨hl, hk⟩

/-- A request is refused for the kind that holds the name, and then nothing is entered. -/
theorem register_eq_error_iff {r s : Registry} {name : String} {k : Kind} {e : RegistryError} :
    (register name k).run r = .error e s ↔
      (∃ l, r.get? name = some l ∧ ¬ (l = k ∧ k ≠ .gauge) ∧ e = .duplicateName name l k) ∧
        s = r := by
  rw [run_register]
  cases hj : judge (r.get? name) k with
  | fresh =>
    have hnone := judge_eq_fresh_iff.1 hj
    simp [hnone]
  | shared =>
    obtain ⟨hsome, hk⟩ := judge_eq_shared_iff.1 hj
    simp [hsome, hk]
  | refused l =>
    obtain ⟨hsome, hn⟩ := judge_eq_refused_iff.1 hj
    simp only [EStateM.Result.error.injEq, hsome, Option.some.injEq]
    constructor
    · rintro ⟨rfl, rfl⟩
      exact ⟨⟨l, rfl, hn, rfl⟩, rfl⟩
    · rintro ⟨⟨m, rfl, _, rfl⟩, rfl⟩
      exact ⟨rfl, rfl⟩

/-- A name keeps its kind when another name, or the same one again, is registered. -/
theorem get?_of_register {r s : Registry} {m n : String} {k l : Kind} {isNew : Bool}
    (hok : (register m l).run r = .ok isNew s) (hn : r.get? n = some k) : s.get? n = some k := by
  rcases register_eq_ok_iff.1 hok with ⟨hnone, _, rfl⟩ | ⟨_, _, _, rfl⟩
  · have hne : n ≠ m := by
      intro hnm
      rw [hnm, hnone] at hn
      cases hn
    rw [NameTable.get?_insert, if_neg hne]
    exact hn
  · exact hn

/-! ## One name after the other -/

/-- Asks for the names of bindings one after the other until one is refused. The answer counts the
new names. -/
def registerEach : List Binding → OnRegistry Nat
  | [] => return 0
  | b :: bs => do
    let isNew ← register b.name b.kind
    let added ← registerEach bs
    return isNew.toNat + added

theorem registerEach_append (bs cs : List Binding) :
    registerEach (bs ++ cs) = do
      let added ← registerEach bs
      let further ← registerEach cs
      return added + further := by
  induction bs with
  | nil => simp only [List.nil_append, registerEach, pure_bind, Nat.zero_add, bind_pure]
  | cons b bs ih =>
    simp only [List.cons_append, registerEach, ih, bind_assoc, pure_bind, Nat.add_assoc]

theorem run_registerEach_concat (r : Registry) (bs : List Binding) (b : Binding) :
    (registerEach (bs ++ [b])).run r =
      match (registerEach bs).run r with
      | .error e s => .error e s
      | .ok added s =>
        match (register b.name b.kind).run s with
        | .error e s' => .error e s'
        | .ok isNew s' => .ok (added + isNew.toNat) s' := by
  rw [registerEach_append, EStateM.run_bind]
  cases (registerEach bs).run r with
  | error e s => rfl
  | ok added s =>
    simp only [registerEach, bind_assoc, pure_bind, Nat.add_zero, EStateM.run_bind]
    cases (register b.name b.kind).run s <;> rfl

/-- A batch that is checked against two tables, beside the same requests made singly: the registry
that these reach is what merging the two tables gives, or both are refused alike. Checking leaves
the registry as it was. -/
inductive Follows (r collected : Registry) :
    EStateM.Result RegistryError Registry Registry →
      EStateM.Result RegistryError Registry Nat → Prop where
  | ok {c : Registry} {added : Nat} (size : c.size = collected.size + added) :
      Follows r collected (.ok c r) (.ok added (r.merge c))
  | error (e : RegistryError) (s : Registry) : Follows r collected (.error e r) (.error e s)

/-- What is counted beforehand is also what has been collected more. -/
theorem Follows.add {r s c c' : Registry} {n : Nat} {y : OnRegistry Nat}
    {x : EStateM.Result RegistryError Registry Registry} (h : Follows r c' x (y.run s))
    (hsize : c'.size = c.size + n) :
    Follows r c x ((do let added ← y; return n + added : OnRegistry Nat).run s) := by
  rw [EStateM.run_bind]
  generalize y.run s = counted at h
  cases h with
  | ok size => exact .ok (by omega)
  | error e s => exact .error e s

/-- As long as nothing collected is in the registry, the batch follows the single requests. -/
theorem foldlM_stageNext_follows (r collected : Registry) (bs : List Binding)
    (apart : ∀ name k, r.get? name = some k → collected.get? name = none) :
    Follows r collected ((bs.foldlM stageNext collected).run r)
      ((registerEach bs).run (r.merge collected)) := by
  induction bs generalizing collected with
  | nil => exact .ok rfl
  | cons b bs ih =>
    have held : (r.merge collected).get? b.name = (r.get? b.name).or (collected.get? b.name) := by
      rw [NameTable.get?_merge]
      cases hr : r.get? b.name with
      | none => simp
      | some k => simp [apart _ _ hr]
    rw [List.foldlM_cons, registerEach, EStateM.run_bind, EStateM.run_bind, run_register, held,
      stageNext, EStateM.run_bind, EStateM.run_get]
    simp only
    cases hj : judge ((r.get? b.name).or (collected.get? b.name)) b.kind with
    | fresh =>
      obtain ⟨hr, hc⟩ := Option.or_eq_none_iff.1 (judge_eq_fresh_iff.1 hj)
      -- The binding is collected only because the registry does not hold its name.
      have apart' : ∀ name k, r.get? name = some k →
          (collected.insert b.name b.kind).get? name = none := by
        intro name k hk
        have hne : name ≠ b.name := by
          rintro rfl
          rw [hr] at hk
          cases hk
        rw [NameTable.get?_insert, if_neg hne]
        exact apart name k hk
      have hrest := ih _ apart'
      rw [NameTable.merge_insert] at hrest
      exact hrest.add (NameTable.size_insert b.kind hc)
    | shared => exact (ih collected apart).add (Nat.add_zero _).symm
    | refused l => exact .error _ _

/-- A batch answers what the single requests do. Its bindings are entered together, or the registry
is left as it was. -/
theorem run_registerAll (r : Registry) (bs : List Binding) :
    (registerAll bs).run r =
      match (registerEach bs).run r with
      | .ok added s => .ok added s
      | .error e _ => .error e r := by
  have h := foldlM_stageNext_follows r .empty bs (fun _ _ _ => rfl)
  rw [NameTable.merge_empty] at h
  rw [registerAll, stage, EStateM.run_bind]
  generalize (bs.foldlM stageNext .empty).run r = staged at h
  generalize (registerEach bs).run r = counted at h
  cases h with
  | ok size =>
    rw [NameTable.size_empty, Nat.zero_add] at size
    rw [← size]
    rfl
  | error e s => rfl

theorem registerAll_eq_ok_iff_registerEach {r s : Registry} {bs : List Binding} {added : Nat} :
    (registerAll bs).run r = .ok added s ↔ (registerEach bs).run r = .ok added s := by
  rw [run_registerAll]
  cases (registerEach bs).run r <;> simp

/-! ## Who holds a name, and when bindings clash -/

/-- A name is held by a kind in the registry or by one of the bindings that came before. -/
def Holds (r : Registry) (earlier : List Binding) (name : String) (k : Kind) : Prop :=
  r.get? name = some k ∨ ∃ b ∈ earlier, b.name = name ∧ b.kind = k

/-- The name of a binding is held by a kind that does not share it: only one and the same kind
shares its names, and gauges never do. -/
def Clashes (r : Registry) (earlier : List Binding) (b : Binding) (existing : Kind) : Prop :=
  Holds r earlier b.name existing ∧ ¬ (existing = b.kind ∧ b.kind ≠ .gauge)

/-- No binding of a list clashes with the registry or with the bindings before it. -/
def Agrees (r : Registry) (bs : List Binding) : Prop :=
  ∀ earlier b, earlier ++ [b] <+: bs → ∀ k, ¬ Clashes r earlier b k

@[simp] theorem holds_nil {r : Registry} {name : String} {k : Kind} :
    Holds r [] name k ↔ r.get? name = some k := by simp [Holds]

theorem holds_concat {r : Registry} {bs : List Binding} {b : Binding} {name : String} {k : Kind} :
    Holds r (bs ++ [b]) name k ↔ Holds r bs name k ∨ (b.name = name ∧ b.kind = k) := by
  simp [Holds, or_and_right, exists_or, or_assoc]

@[simp] theorem agrees_nil (r : Registry) : Agrees r [] := by
  intro earlier b h
  simp at h

theorem agrees_concat {r : Registry} {bs : List Binding} {b : Binding} :
    Agrees r (bs ++ [b]) ↔ Agrees r bs ∧ ∀ k, ¬ Clashes r bs b k := by
  constructor
  · intro h
    exact ⟨fun earlier c hc => h earlier c (hc.trans (List.prefix_append bs [b])),
      h bs b (List.prefix_refl _)⟩
  · rintro ⟨hbs, hb⟩ earlier c hc
    rcases List.prefix_concat_iff.1 hc with heq | hlt
    · obtain ⟨rfl, hcb⟩ := List.append_inj' heq rfl
      cases hcb
      exact hb
    · exact hbs earlier c hlt

/-- The bindings did not clash, and what is held afterwards is what was held before together with
the names of the bindings. -/
structure Entered (r : Registry) (bs : List Binding) (added : Nat) (s : Registry) : Prop where
  agrees : Agrees r bs
  held : ∀ name k, s.get? name = some k ↔ Holds r bs name k
  size : s.size = r.size + added

theorem Entered.nil (r : Registry) : Entered r [] 0 r where
  agrees := agrees_nil r
  held _ _ := holds_nil.symm
  size := rfl

theorem Entered.keeps {r s : Registry} {bs : List Binding} {added : Nat} (h : Entered r bs added s)
    {name : String} {k : Kind} (hk : r.get? name = some k) : s.get? name = some k :=
  (h.held name k).2 (.inl hk)

/-- One more binding is taken in. -/
theorem Entered.concat {r s s' : Registry} {bs : List Binding} {b : Binding} {added : Nat}
    {isNew : Bool} (h : Entered r bs added s)
    (hb : (register b.name b.kind).run s = .ok isNew s') :
    Entered r (bs ++ [b]) (added + isNew.toNat) s' := by
  rcases register_eq_ok_iff.1 hb with ⟨hnone, rfl, rfl⟩ | ⟨hsome, hk, rfl, rfl⟩
  · have free : ∀ k, ¬ Holds r bs b.name k := by
      intro k hk
      rw [← h.held, hnone] at hk
      cases hk
    refine ⟨agrees_concat.2 ⟨h.agrees, fun k hk => free k hk.1⟩, ?_, ?_⟩
    · intro name k
      rw [NameTable.get?_insert, holds_concat]
      by_cases hn : name = b.name
      · subst hn
        simp [free]
      · have hn' : ¬ b.name = name := fun h => hn h.symm
        simp [hn, hn', h.held]
    · rw [NameTable.size_insert _ hnone, h.size, Bool.toNat_true, Nat.add_assoc]
  · refine ⟨agrees_concat.2 ⟨h.agrees, ?_⟩, ?_, by simpa using h.size⟩
    · intro k hc
      obtain ⟨hheld, hn⟩ := hc
      rw [← h.held, hsome] at hheld
      cases hheld
      exact hn ⟨rfl, hk⟩
    · intro name k
      rw [holds_concat, h.held]
      refine ⟨.inl, ?_⟩
      rintro (hheld | ⟨rfl, rfl⟩)
      · exact hheld
      · exact (h.held _ _).1 hsome

/-- One more binding is refused: it clashes. -/
theorem Entered.clashes {r s s' : Registry} {bs : List Binding} {b : Binding} {added : Nat}
    {e : RegistryError} (h : Entered r bs added s)
    (hb : (register b.name b.kind).run s = .error e s') :
    ∃ k, Clashes r bs b k ∧ e = .duplicateName b.name k b.kind := by
  obtain ⟨⟨l, hl, hn, rfl⟩, -⟩ := register_eq_error_iff.1 hb
  exact ⟨l, ⟨(h.held _ _).1 hl, hn⟩, rfl⟩

/-- What is held decides the registry and the number of names. -/
theorem Entered.unique {r s s' : Registry} {bs : List Binding} {m n : Nat} (h : Entered r bs m s)
    (h' : Entered r bs n s') : m = n ∧ s = s' := by
  have hs : s = s' := by
    apply NameTable.ext_get?
    intro name
    apply Option.ext
    intro k
    rw [h.held, h'.held]
  have hm := h.size
  have hn := h'.size
  rw [hs] at hm
  exact ⟨by omega, hs⟩

/-! ## The outcome of a batch -/

theorem Entered.of_registerEach {r s : Registry} {bs : List Binding} {added : Nat}
    (h : (registerEach bs).run r = .ok added s) : Entered r bs added s := by
  induction bs using List.reverseRecOn generalizing added s with
  | nil =>
    cases h
    exact .nil r
  | append_singleton bs b ih =>
    rw [run_registerEach_concat] at h
    cases hbs : (registerEach bs).run r with
    | error e s₁ => simp [hbs] at h
    | ok m s₁ =>
      rw [hbs] at h
      cases hb : (register b.name b.kind).run s₁ with
      | error e s₂ => simp [hb] at h
      | ok isNew s₂ =>
        simp only [hb, EStateM.Result.ok.injEq] at h
        obtain ⟨rfl, rfl⟩ := h
        exact (ih hbs).concat hb

/-- The bindings before `b` were taken in, and `b` is refused for the kind that holds its name. -/
structure Refused (r : Registry) (bs earlier : List Binding) (b : Binding) (k : Kind) : Prop where
  split : earlier ++ [b] <+: bs
  agrees : Agrees r earlier
  clashes : Clashes r earlier b k

theorem refused_of_registerEach {r s : Registry} {bs : List Binding} {e : RegistryError}
    (h : (registerEach bs).run r = .error e s) :
    ∃ earlier b k, Refused r bs earlier b k ∧ e = .duplicateName b.name k b.kind := by
  induction bs using List.reverseRecOn generalizing e s with
  | nil => cases h
  | append_singleton bs b ih =>
    rw [run_registerEach_concat] at h
    cases hbs : (registerEach bs).run r with
    | error e' s₁ =>
      rw [hbs] at h
      cases h
      obtain ⟨earlier, c, k, hr, rfl⟩ := ih hbs
      exact ⟨earlier, c, k,
        ⟨hr.split.trans (List.prefix_append bs [b]), hr.agrees, hr.clashes⟩, rfl⟩
    | ok m s₁ =>
      have entered := Entered.of_registerEach hbs
      rw [hbs] at h
      cases hb : (register b.name b.kind).run s₁ with
      | error e' s₂ =>
        simp only [hb, EStateM.Result.error.injEq] at h
        obtain ⟨rfl, rfl⟩ := h
        obtain ⟨k, hk, rfl⟩ := entered.clashes hb
        exact ⟨bs, b, k, ⟨List.prefix_refl _, entered.agrees, hk⟩, rfl⟩
      | ok isNew s₂ => simp [hb] at h

theorem registerEach_of_agrees {r : Registry} {bs : List Binding} (h : Agrees r bs) :
    ∃ added s, (registerEach bs).run r = .ok added s := by
  cases hbs : (registerEach bs).run r with
  | error e s =>
    obtain ⟨earlier, b, k, hr, _⟩ := refused_of_registerEach hbs
    exact absurd hr.clashes (h earlier b hr.split k)
  | ok added s => exact ⟨added, s, rfl⟩

/-- Bindings that do not clash leave one kind at most to each name. -/
theorem Agrees.holds_unique {r : Registry} {bs : List Binding} (h : Agrees r bs) {name : String}
    {k l : Kind} (hk : Holds r bs name k) (hl : Holds r bs name l) : k = l := by
  obtain ⟨added, s, hok⟩ := registerEach_of_agrees h
  have entered := Entered.of_registerEach hok
  have hsk := (entered.held name k).2 hk
  rw [(entered.held name l).2 hl] at hsk
  exact (Option.some.inj hsk).symm

/-- The kind for which a binding is refused is the only one that holds its name. -/
theorem Refused.holds_iff {r : Registry} {bs earlier : List Binding} {b : Binding} {k : Kind}
    (h : Refused r bs earlier b k) (l : Kind) : Holds r earlier b.name l ↔ l = k := by
  constructor
  · intro hl
    exact h.agrees.holds_unique hl h.clashes.1
  · rintro rfl
    exact h.clashes.1

/-- The requests before a binding that clashes are granted, so the run is refused for this one. -/
theorem Refused.registerEach {r : Registry} {bs earlier : List Binding} {b : Binding} {k : Kind}
    (h : Refused r bs earlier b k) :
    ∃ s, (registerEach bs).run r = .error (.duplicateName b.name k b.kind) s := by
  obtain ⟨later, rfl⟩ := h.split
  obtain ⟨m, s, hok⟩ := registerEach_of_agrees h.agrees
  have entered := Entered.of_registerEach hok
  have hb : (register b.name b.kind).run s = .error (.duplicateName b.name k b.kind) s :=
    register_eq_error_iff.2 ⟨⟨k, (entered.held _ _).2 h.clashes.1, h.clashes.2, rfl⟩, rfl⟩
  refine ⟨s, ?_⟩
  rw [registerEach_append, EStateM.run_bind, run_registerEach_concat, hok]
  simp only [hb]

theorem registerAll_eq_ok_iff {r s : Registry} {bs : List Binding} {added : Nat} :
    (registerAll bs).run r = .ok added s ↔ Entered r bs added s := by
  rw [registerAll_eq_ok_iff_registerEach]
  refine ⟨Entered.of_registerEach, fun h => ?_⟩
  obtain ⟨m, u, hok⟩ := registerEach_of_agrees h.agrees
  obtain ⟨rfl, rfl⟩ := h.unique (.of_registerEach hok)
  exact hok

/-- A batch is refused for its first binding that clashes, and none of it is entered. -/
theorem registerAll_eq_error_iff {r s : Registry} {bs : List Binding} {e : RegistryError} :
    (registerAll bs).run r = .error e s ↔
      (∃ earlier b k, Refused r bs earlier b k ∧ e = .duplicateName b.name k b.kind) ∧ s = r := by
  rw [run_registerAll]
  constructor
  · intro h
    cases hbs : (registerEach bs).run r with
    | error e' u =>
      simp only [hbs, EStateM.Result.error.injEq] at h
      obtain ⟨rfl, rfl⟩ := h
      exact ⟨refused_of_registerEach hbs, rfl⟩
    | ok m u => simp [hbs] at h
  · rintro ⟨⟨earlier, b, k, first, rfl⟩, rfl⟩
    obtain ⟨u, hbs⟩ := first.registerEach
    rw [hbs]

end MetricWiring.Registry
