import Mathlib.Data.List.Dedup
import MetricWiring.Proofs.Registration

/-!
# A registry and its history

A registry is used in three ways: for one name, for a batch, and for the plan of a type. Beside the
registry a history keeps what was granted, which no program needs. `Sound` ties the two together;
every use of the registry preserves it, granted or refused, so it holds after every run
(`Sound.run`).
-/
namespace MetricWiring

/-- The entry of the registry that a binding asks for. -/
def Binding.entry (b : Binding) : String × Kind := (b.name, b.kind)

/-- One use of a registry. -/
inductive Request where
  | name (name : String) (k : Kind)
  | batch (bs : List Binding)
  | type (w : Instrumentation) (t : TypeInfo)

/-- The number of names that are new in a batch, if the batch is entered. -/
def Registry.newNames (r : Registry) (bs : List Binding) : Nat :=
  match (registerAll bs).run r with
  | .ok added _ => added
  | .error _ _ => 0

structure History where
  registry : Registry := .empty
  /-- The entries asked for by all requests that were granted, oldest first. -/
  granted : List (String × Kind) := []
  /-- The sum of what the granted requests added. -/
  added : Nat := 0

namespace History

/-- Goes on with the registry that the request leaves. If it is granted, the entries that it asked
for are granted: those of the plan, where a type is registered. -/
def step (h : History) : Request → History
  | .name n k =>
    match (Registry.register n k).run h.registry with
    | .ok isNew r => ⟨r, h.granted ++ [(n, k)], h.added + isNew.toNat⟩
    | .error _ r => { h with registry := r }
  | .batch bs =>
    match (Registry.registerAll bs).run h.registry with
    | .ok added r => ⟨r, h.granted ++ bs.map Binding.entry, h.added + added⟩
    | .error _ r => { h with registry := r }
  | .type w t =>
    let out := w.register h.registry t
    match out.answer with
    | .ok _ =>
      ⟨out.registry, h.granted ++ (w.plan t).map Binding.entry,
        h.added + h.registry.newNames (w.plan t)⟩
    | .error _ => { h with registry := out.registry }

def run (h : History) (qs : List Request) : History := qs.foldl step h

theorem run_concat (h : History) (qs : List Request) (q : Request) :
    h.run (qs ++ [q]) = (h.run qs).step q := by
  simp [run, List.foldl_append]

/-! ## The invariant -/

/-- The registry holds what was granted and nothing else, gauges were granted once, and each name
was counted once. -/
structure Sound (h : History) : Prop where
  held : ∀ n k, h.registry.get? n = some k ↔ (n, k) ∈ h.granted
  gauge_once : ∀ n, (n, Kind.gauge) ∈ h.granted → (h.granted.map Prod.fst).count n = 1
  size : h.registry.size = h.added

theorem Sound.initial : Sound {} where
  held n k := by simp
  gauge_once n h := by simp at h
  size := rfl

theorem Sound.not_mem_of_free {h : History} (hs : Sound h) {n : String}
    (hn : h.registry.get? n = none) : n ∉ h.granted.map Prod.fst := by
  intro hmem
  obtain ⟨⟨m, k⟩, hp, rfl⟩ := List.mem_map.1 hmem
  rw [(hs.held m k).2 hp] at hn
  cases hn

/-- A name that is free is granted. -/
theorem Sound.grant_new {h : History} (hs : Sound h) {n : String} (k : Kind)
    (hnone : h.registry.get? n = none) :
    Sound ⟨h.registry.insert n k, h.granted ++ [(n, k)], h.added + 1⟩ := by
  have hfree := hs.not_mem_of_free hnone
  refine ⟨?_, ?_, ?_⟩
  · intro m l
    simp only [NameTable.get?_insert, List.mem_append, List.mem_singleton, Prod.mk.injEq]
    by_cases hm : m = n
    · have hout : (m, l) ∉ h.granted := by
        intro hml
        exact hfree (List.mem_map.2 ⟨(m, l), hml, hm⟩)
      simp [hm, hm ▸ hout, eq_comm]
    · simp [hm, hs.held]
  · intro m hm
    rw [List.map_append, List.count_append]
    by_cases hmn : m = n
    · rw [hmn, List.count_eq_zero_of_not_mem hfree]
      simp
    · have hold : (m, Kind.gauge) ∈ h.granted := by simpa [hmn] using hm
      have hne : ¬ n = m := fun hnm => hmn hnm.symm
      rw [hs.gauge_once m hold]
      simp [hne]
  · rw [NameTable.size_insert k hnone, hs.size]

/-- A name is granted once more to the kind that holds it. That kind is no gauge, so the names of
gauges are counted as before. -/
theorem Sound.grant_shared {h : History} (hs : Sound h) {n : String} {k : Kind}
    (hsome : h.registry.get? n = some k) (hk : k ≠ .gauge) :
    Sound ⟨h.registry, h.granted ++ [(n, k)], h.added⟩ := by
  have hheld : (n, k) ∈ h.granted := (hs.held n k).1 hsome
  refine ⟨?_, ?_, hs.size⟩
  · intro m l
    rw [hs.held, List.mem_append, List.mem_singleton]
    constructor
    · exact .inl
    · intro hml
      rcases hml with hml | hml
      · exact hml
      · rw [hml]
        exact hheld
  · intro m hm
    have hold : (m, Kind.gauge) ∈ h.granted := by
      rcases List.mem_append.1 hm with hm | hm
      · exact hm
      · rw [List.mem_singleton, Prod.mk.injEq] at hm
        exact absurd hm.2.symm hk
    have hne : ¬ n = m := by
      intro hnm
      rw [hnm, (hs.held m .gauge).2 hold] at hsome
      exact hk (Option.some.inj hsome).symm
    rw [List.map_append, List.count_append, hs.gauge_once m hold]
    simp [hne]

/-- One name is granted. -/
theorem Sound.grant {h : History} (hs : Sound h) {n : String} {k : Kind} {isNew : Bool}
    {r : Registry} (hok : (Registry.register n k).run h.registry = .ok isNew r) :
    Sound ⟨r, h.granted ++ [(n, k)], h.added + isNew.toNat⟩ := by
  rcases Registry.register_eq_ok_iff.1 hok with ⟨hnone, rfl, rfl⟩ | ⟨hsome, hk, rfl, rfl⟩
  · exact hs.grant_new k hnone
  · exact hs.grant_shared hsome hk

/-- The names of bindings are granted one after the other. -/
theorem Sound.grantEach {h : History} (hs : Sound h) {bs : List Binding} {added : Nat}
    {r : Registry} (hok : (Registry.registerEach bs).run h.registry = .ok added r) :
    Sound ⟨r, h.granted ++ bs.map Binding.entry, h.added + added⟩ := by
  induction bs generalizing h added with
  | nil =>
    cases hok
    simpa using hs
  | cons b bs ih =>
    rw [Registry.registerEach, EStateM.run_bind] at hok
    cases hb : (Registry.register b.name b.kind).run h.registry with
    | error e s => simp [hb] at hok
    | ok isNew s =>
      cases hbs : (Registry.registerEach bs).run s with
      | error e s' =>
        simp only [hb, EStateM.run_bind, hbs] at hok
        cases hok
      | ok further s' =>
        simp only [hb, EStateM.run_bind, hbs] at hok
        obtain ⟨rfl, rfl⟩ := EStateM.Result.ok.inj hok
        have hrest := ih (hs.grant hb) hbs
        simpa [Binding.entry, Nat.add_assoc] using hrest

/-- A batch is granted. -/
theorem Sound.grantAll {h : History} (hs : Sound h) {bs : List Binding} {added : Nat}
    {r : Registry} (hok : (Registry.registerAll bs).run h.registry = .ok added r) :
    Sound ⟨r, h.granted ++ bs.map Binding.entry, h.added + added⟩ := by
  exact hs.grantEach (Registry.registerAll_eq_ok_iff_registerEach.1 hok)

/-! ## Steps and runs -/

/-- A type is granted as the batch of its plan, or refused with everything left as it was. -/
theorem step_type_cases (h : History) (w : Instrumentation) (t : TypeInfo) :
    h.step (.type w t) = h ∨
      ∃ added r, (Registry.registerAll (w.plan t)).run h.registry = .ok added r ∧
        h.step (.type w t) = ⟨r, h.granted ++ (w.plan t).map Binding.entry, h.added + added⟩ := by
  cases hanswer : (w.register h.registry t).answer with
  | error e =>
    left
    simp [step, hanswer, Instrumentation.registry_of_answer_eq_error hanswer]
  | ok bs =>
    right
    obtain ⟨-, -, added, hok⟩ := Instrumentation.register_eq_ok_iff.1 ⟨hanswer, rfl⟩
    exact ⟨added, _, hok, by simp [step, hanswer, Registry.newNames, hok]⟩

theorem registry_step_type (h : History) (w : Instrumentation) (t : TypeInfo) :
    (h.step (.type w t)).registry = (w.register h.registry t).registry := by
  rw [step]
  cases (w.register h.registry t).answer <;> rfl

/-- A single name is granted, or refused with everything left as it was. -/
theorem step_name_cases (h : History) (n : String) (k : Kind) :
    h.step (.name n k) = h ∨
      ∃ isNew r, (Registry.register n k).run h.registry = .ok isNew r ∧
        h.step (.name n k) = ⟨r, h.granted ++ [(n, k)], h.added + isNew.toNat⟩ := by
  rw [step]
  cases hrun : (Registry.register n k).run h.registry with
  | error e r =>
    obtain ⟨-, rfl⟩ := Registry.register_eq_error_iff.1 hrun
    exact .inl rfl
  | ok isNew r => exact .inr ⟨isNew, r, rfl, rfl⟩

/-- A batch is granted, or refused with everything left as it was. -/
theorem step_batch_cases (h : History) (bs : List Binding) :
    h.step (.batch bs) = h ∨
      ∃ added r, (Registry.registerAll bs).run h.registry = .ok added r ∧
        h.step (.batch bs) = ⟨r, h.granted ++ bs.map Binding.entry, h.added + added⟩ := by
  rw [step]
  cases hrun : (Registry.registerAll bs).run h.registry with
  | error e r =>
    obtain ⟨-, rfl⟩ := Registry.registerAll_eq_error_iff.1 hrun
    exact .inl rfl
  | ok added r => exact .inr ⟨added, r, rfl, rfl⟩

theorem Sound.step {h : History} (hs : Sound h) (q : Request) : Sound (h.step q) := by
  cases q with
  | name n k =>
    rcases step_name_cases h n k with hsame | ⟨isNew, r, hok, hnext⟩
    · rw [hsame]
      exact hs
    · rw [hnext]
      exact hs.grant hok
  | batch bs =>
    rcases step_batch_cases h bs with hsame | ⟨added, r, hok, hnext⟩
    · rw [hsame]
      exact hs
    · rw [hnext]
      exact hs.grantAll hok
  | type w t =>
    rcases step_type_cases h w t with hsame | ⟨added, r, hok, hnext⟩
    · rw [hsame]
      exact hs
    · rw [hnext]
      exact hs.grantAll hok

theorem Sound.run {h : History} (hs : Sound h) (qs : List Request) : Sound (h.run qs) := by
  induction qs using List.reverseRecOn with
  | nil => exact hs
  | append_singleton qs q ih =>
    rw [run_concat]
    exact ih.step q

/-- A name keeps its kind, whatever becomes of the request. -/
theorem get?_step {h : History} {n : String} {k : Kind} (hn : h.registry.get? n = some k)
    (q : Request) : (h.step q).registry.get? n = some k := by
  cases q with
  | name m l =>
    rcases step_name_cases h m l with hsame | ⟨isNew, r, hok, hnext⟩
    · rw [hsame]
      exact hn
    · rw [hnext]
      exact Registry.get?_of_register hok hn
  | batch bs =>
    rcases step_batch_cases h bs with hsame | ⟨added, r, hok, hnext⟩
    · rw [hsame]
      exact hn
    · rw [hnext]
      exact (Registry.registerAll_eq_ok_iff.1 hok).keeps hn
  | type w t =>
    rcases step_type_cases h w t with hsame | ⟨added, r, hok, hnext⟩
    · rw [hsame]
      exact hn
    · rw [hnext]
      exact (Registry.registerAll_eq_ok_iff.1 hok).keeps hn

theorem get?_run {h : History} {n : String} {k : Kind} (hn : h.registry.get? n = some k)
    (qs : List Request) : (h.run qs).registry.get? n = some k := by
  induction qs using List.reverseRecOn with
  | nil => exact hn
  | append_singleton qs q ih =>
    rw [run_concat]
    exact get?_step ih q

/-! ## What a registry tells of its history -/

theorem Sound.mem_names_iff {h : History} (hs : Sound h) {n : String} :
    n ∈ h.registry.names ↔ n ∈ h.granted.map Prod.fst := by
  simp [NameTable.mem_names, hs.held]

theorem Sound.size_eq_distinct {h : History} (hs : Sound h) :
    h.registry.size = (h.granted.map Prod.fst).dedup.length :=
  NameTable.size_eq_length_dedup fun _ => hs.mem_names_iff

/-- After any run from an empty registry: it maps names to kinds as they were granted, no name was
granted to two kinds, a gauge's name was granted once, a name keeps its kind from then on, and the
size is the number of different names granted, which is what the granted requests added together. -/
theorem registry_of_run (qs : List Request) :
    let h := run {} qs
    (∀ n k, h.registry.get? n = some k ↔ (n, k) ∈ h.granted) ∧
      (∀ n k l, (n, k) ∈ h.granted → (n, l) ∈ h.granted → k = l) ∧
      (∀ n, (n, Kind.gauge) ∈ h.granted → (h.granted.map Prod.fst).count n = 1) ∧
      (∀ n k later, h.registry.get? n = some k → (h.run later).registry.get? n = some k) ∧
      h.registry.size = (h.granted.map Prod.fst).dedup.length ∧
      h.registry.size = h.added ∧
      (∀ n, n ∈ h.registry.names ↔ n ∈ h.granted.map Prod.fst) ∧
      h.registry.names.Pairwise (· < ·) := by
  intro h
  have hs : Sound h := Sound.initial.run qs
  refine ⟨hs.held, ?_, hs.gauge_once, fun n k later hn => get?_run hn later, hs.size_eq_distinct,
    hs.size, fun n => hs.mem_names_iff, h.registry.names_increasing⟩
  intro n k l hk hl
  rw [← hs.held] at hk hl
  rw [hk] at hl
  exact Option.some.inj hl

end History

end MetricWiring
