import MetricWiring.Proofs.TypeBuilding

/-!
# The order of declarations in a table

A table can be filled call by call or from a list of pairs. Only the last declaration of each kind
counts, and going through the table gives these in the order of their kinds. A table is told by the
increasing list of what it holds (`toList_eq_of_increasing`), so putting a declaration in changes
one place of this list, and a list of pairs may as well be sorted first and thinned out afterwards
(`toList_ofList`). Tables are equal exactly if the last declarations agree (`tables_canonical`).
-/
namespace MetricWiring.DeclarationTable

theorem ofList_eq_ofList_iff {ps qs : List (Kind × Declaration)} :
    ofList ps = ofList qs ↔ ∀ k, latest ps k = latest qs k := by
  constructor
  · intro h k
    rw [← get_ofList, h, get_ofList]
  · intro h
    refine ext_get fun k => ?_
    rw [get_ofList, get_ofList, h]

/-! ## Going through a table -/

theorem increasing_toList (t : DeclarationTable) : t.toList.Pairwise fun p q => p.1 < q.1 := by
  refine List.Pairwise.filterMap _ ?_ Kind.all_increasing
  intro k l hkl p hp q hq
  obtain ⟨_, _, rfl⟩ := Option.map_eq_some_iff.1 hp
  obtain ⟨_, _, rfl⟩ := Option.map_eq_some_iff.1 hq
  exact hkl

theorem nodup_kinds_of_increasing {ps : List (Kind × Declaration)}
    (h : ps.Pairwise fun p q => p.1 < q.1) : (ps.map Prod.fst).Nodup := by
  refine List.pairwise_map.2 (h.imp fun hlt heq => ?_)
  rw [heq] at hlt
  exact Nat.lt_irrefl _ hlt

/-- There is one increasing list of what a table holds. -/
theorem toList_eq_of_increasing {t : DeclarationTable} {ps : List (Kind × Declaration)}
    (h : ps.Pairwise fun p q => p.1 < q.1) (hmem : ∀ k d, (k, d) ∈ ps ↔ t.get k = some d) :
    t.toList = ps := by
  have hps : ps.Nodup := .of_map _ (nodup_kinds_of_increasing h)
  have hperm : t.toList.Perm ps := by
    refine (List.perm_ext_iff_of_nodup (nodup_toList t) hps).2 ?_
    rintro ⟨k, d⟩
    rw [mem_toList, hmem]
  refine hperm.eq_of_pairwise ?_ (increasing_toList t) h
  intro p q _ _ hpq hqp
  exact absurd hpq (Nat.lt_asymm hqp)

/-- A declaration that is put in stands between the smaller and the greater kinds. -/
theorem toList_insert (t : DeclarationTable) (k : Kind) (d : Declaration) :
    (t.insert k d).toList =
      (t.toList.filter fun p => p.1 < k) ++ (k, d) :: t.toList.filter fun p => k < p.1 := by
  apply toList_eq_of_increasing
  · rw [List.pairwise_append, List.pairwise_cons]
    refine ⟨(increasing_toList t).filter _, ⟨?_, (increasing_toList t).filter _⟩, ?_⟩
    · intro q hq
      simpa using (List.mem_filter.1 hq).2
    · intro p hp q hq
      have hpk : p.1 < k := by simpa using (List.mem_filter.1 hp).2
      rcases List.mem_cons.1 hq with rfl | hq
      · exact hpk
      · have hkq : k < q.1 := by simpa using (List.mem_filter.1 hq).2
        exact Nat.lt_trans hpk hkq
  · intro l e
    rw [get_insert]
    by_cases hl : l = k
    · subst hl
      simp [Kind.lt_iff_rank, eq_comm]
    · have hrank : l.rank ≠ k.rank := fun h => hl (Kind.rank_injective h)
      have hapart : l.rank < k.rank ∨ k.rank < l.rank := by omega
      simp only [List.mem_append, List.mem_filter, List.mem_cons, mem_toList, Prod.mk.injEq, hl,
        false_and, false_or, decide_eq_true_eq, Kind.lt_iff_rank, ← and_or_left, hapart, and_true,
        if_false]

/-! ## Filling a table in bulk -/

/-- The pairs in the order of their kinds. Pairs of one kind keep their order. -/
def sorted (ps : List (Kind × Declaration)) : List (Kind × Declaration) :=
  ps.mergeSort fun p q => p.1.rank ≤ q.1.rank

/-- Of neighbours of one kind only the last stays. -/
def thinned : List (Kind × Declaration) → List (Kind × Declaration)
  | [] => []
  | p :: ps => if ps.head?.map Prod.fst = some p.1 then thinned ps else p :: thinned ps

theorem filter_sorted (ps : List (Kind × Declaration)) (k : Kind) :
    ((sorted ps).filter fun p => p.1 = k) = ps.filter fun p => p.1 = k := by
  have hsame : (ps.filter fun p => p.1 = k).Pairwise fun p q => decide (p.1.rank ≤ q.1.rank) := by
    refine List.pairwise_of_forall_mem_list fun p hp q hq => ?_
    have hpk : p.1 = k := by simpa using (List.mem_filter.1 hp).2
    have hqk : q.1 = k := by simpa using (List.mem_filter.1 hq).2
    simp [hpk, hqk]
  have hsublist : (ps.filter fun p => p.1 = k).Sublist (sorted ps) :=
    List.sublist_mergeSort (by simpa using fun _ _ _ => Nat.le_trans)
      (by simpa using fun _ _ => Nat.le_total _ _) hsame List.filter_sublist
  have hfiltered := hsublist.filter fun p => p.1 = k
  rw [List.filter_filter] at hfiltered
  simp only [Bool.and_self] at hfiltered
  have hperm := (List.mergeSort_perm ps fun p q => p.1.rank ≤ q.1.rank).filter fun p => p.1 = k
  exact (hfiltered.eq_of_length hperm.length_eq.symm).symm

theorem latest_sorted (ps : List (Kind × Declaration)) (k : Kind) :
    latest (sorted ps) k = latest ps k := by
  rw [latest, filter_sorted, latest]

theorem sublist_thinned (ps : List (Kind × Declaration)) : (thinned ps).Sublist ps := by
  induction ps with
  | nil => exact .slnil
  | cons p ps ih =>
    rw [thinned]
    split
    · exact ih.cons p
    · exact ih.cons_cons p

theorem latest_thinned (ps : List (Kind × Declaration)) (k : Kind) :
    latest (thinned ps) k = latest ps k := by
  induction ps with
  | nil => rfl
  | cons p ps ih =>
    rw [thinned]
    split
    · rename_i hnext
      rw [ih, latest_cons]
      by_cases hp : p.1 = k
      · obtain ⟨q, hq, hqp⟩ := Option.map_eq_some_iff.1 hnext
        obtain ⟨qs, rfl⟩ := List.head?_eq_some_iff.1 hq
        rw [if_pos hp, latest_cons, if_pos (hqp.trans hp)]
        cases latest qs k <;> rfl
      · rw [if_neg hp]
    · rw [latest_cons, latest_cons, ih]

theorem increasing_thinned {ps : List (Kind × Declaration)}
    (h : ps.Pairwise fun p q => p.1.rank ≤ q.1.rank) :
    (thinned ps).Pairwise fun p q => p.1 < q.1 := by
  induction ps with
  | nil => exact .nil
  | cons p ps ih =>
    rw [List.pairwise_cons] at h
    rw [thinned]
    split
    · exact ih h.2
    · rename_i hnext
      refine List.pairwise_cons.2 ⟨fun q hq => ?_, ih h.2⟩
      have hq' : q ∈ ps := (sublist_thinned ps).subset hq
      refine Nat.lt_of_le_of_ne (h.1 q hq') fun hrank => hnext ?_
      -- The head of the rest lies between two equal kinds.
      cases ps with
      | nil => cases hq'
      | cons next ps =>
        have hle : p.1.rank ≤ next.1.rank := h.1 next List.mem_cons_self
        have hge : next.1.rank ≤ q.1.rank := by
          rcases List.mem_cons.1 hq' with rfl | hlater
          · exact Nat.le_refl _
          · exact (List.pairwise_cons.1 h.2).1 q hlater
        have hkind : next.1 = p.1 := Kind.rank_injective (by omega)
        rw [List.head?_cons, Option.map_some, hkind]

theorem pairwise_sorted (ps : List (Kind × Declaration)) :
    (sorted ps).Pairwise fun p q => p.1.rank ≤ q.1.rank := by
  have hsorted : (sorted ps).Pairwise fun p q => decide (p.1.rank ≤ q.1.rank) = true :=
    List.pairwise_mergeSort (by simpa using fun _ _ _ => Nat.le_trans)
      (by simpa using fun _ _ => Nat.le_total _ _) ps
  exact hsorted.imp of_decide_eq_true

/-- Putting pairs in one after the other comes to sorting them and keeping the last of each kind. -/
theorem toList_ofList (ps : List (Kind × Declaration)) :
    (ofList ps).toList = thinned (sorted ps) := by
  have hincreasing := increasing_thinned (pairwise_sorted ps)
  refine toList_eq_of_increasing hincreasing fun k d => ?_
  rw [← get_ofList_eq_some_iff (nodup_kinds_of_increasing hincreasing), get_ofList, get_ofList,
    latest_thinned, latest_sorted]

/-! ## Filling a table call by call -/

/-- A call that puts a declaration into a table, with an answer or without. -/
inductive Call where
  | exchange (k : Kind) (d : Declaration)
  | insert (k : Kind) (d : Declaration)

/-- What a call puts in. -/
def Call.pair : Call → Kind × Declaration
  | .exchange k d => (k, d)
  | .insert k d => (k, d)

def call (t : DeclarationTable) : Call → DeclarationTable
  | .exchange k d => (t.exchange k d).table
  | .insert k d => t.insert k d

/-- The table that calls make of the empty one. -/
def ofCalls (calls : List Call) : DeclarationTable := calls.foldl call empty

theorem call_eq (t : DeclarationTable) (c : Call) : t.call c = t.insert c.pair.1 c.pair.2 := by
  cases c <;> rfl

theorem ofCalls_eq_ofList (calls : List Call) : ofCalls calls = ofList (calls.map Call.pair) := by
  rw [ofCalls, ofList, insertAll, List.foldl_map]
  congr 1
  funext t c
  exact t.call_eq c

theorem ofCalls_concat (calls : List Call) (c : Call) :
    ofCalls (calls ++ [c]) = (ofCalls calls).call c := by
  rw [ofCalls, List.foldl_append]
  rfl

theorem latest_pairs_congr {calls others : List Call} {k : Kind}
    (h : (calls.filter fun c => c.pair.1 = k) = others.filter fun c => c.pair.1 = k) :
    latest (calls.map Call.pair) k = latest (others.map Call.pair) k := by
  simp only [latest, List.filter_map, Function.comp_def, h]

/-- After any calls a table goes through its kinds in order, each with the declaration given last.
A call with an answer hands out the last declaration of its kind before it and leaves the other
kinds alone, each in its place. Filling a table from a list is putting the pairs in one after the
other, or sorting them and keeping the last of each kind. Tables are equal exactly if the last
declarations agree, so the order of calls of different kinds makes no difference. -/
theorem tables_canonical (calls : List Call) :
    (((ofCalls calls).toList.map Prod.fst).Pairwise (· < ·) ∧
      ∀ k d, (k, d) ∈ (ofCalls calls).toList ↔ latest (calls.map Call.pair) k = some d) ∧
    (∀ k d, let out := (ofCalls calls).exchange k d
      out.replaced = latest (calls.map Call.pair) k ∧
        out.table = ofCalls (calls ++ [.exchange k d]) ∧
        (∀ l, l ≠ k → out.table.get l = (ofCalls calls).get l) ∧
        out.table.toList = ((ofCalls calls).toList.filter fun p => p.1 < k) ++
          (k, d) :: (ofCalls calls).toList.filter fun p => k < p.1) ∧
    (∀ ps, ofList ps = ofCalls (ps.map fun p => .insert p.1 p.2) ∧
      (ofList ps).toList = thinned (sorted ps)) ∧
    (∀ others, ofCalls calls = ofCalls others ↔
      ∀ k, latest (calls.map Call.pair) k = latest (others.map Call.pair) k) ∧
    ∀ others, (∀ k, (calls.filter fun c => c.pair.1 = k) = others.filter fun c => c.pair.1 = k) →
      ofCalls calls = ofCalls others := by
  have hget (k : Kind) : (ofCalls calls).get k = latest (calls.map Call.pair) k := by
    rw [ofCalls_eq_ofList, get_ofList]
  have hequal (others : List Call) : ofCalls calls = ofCalls others ↔
      ∀ k, latest (calls.map Call.pair) k = latest (others.map Call.pair) k := by
    rw [ofCalls_eq_ofList, ofCalls_eq_ofList, ofList_eq_ofList_iff]
  refine ⟨⟨List.pairwise_map.2 (increasing_toList _), fun k d => ?_⟩, fun k d => ?_, fun ps => ?_,
    hequal, fun others h => (hequal others).2 fun k => latest_pairs_congr (h k)⟩
  · rw [mem_toList, hget]
  · exact ⟨hget k, (ofCalls_concat calls (.exchange k d)).symm, fun l hl => get_insert_of_ne _ d hl,
      toList_insert _ k d⟩
  · refine ⟨?_, toList_ofList ps⟩
    rw [ofCalls_eq_ofList, List.map_map]
    exact congrArg ofList (List.map_id ps).symm

/-- A timer put in twice, and a gauge before it or in between. -/
theorem tables_canonical_of_three :
    let calls : List Call :=
      [.exchange .timed .unnamed, .insert .gauge .unnamed, .exchange .timed (.named "t")]
    let others : List Call :=
      [.insert .gauge .unnamed, .exchange .timed .unnamed, .exchange .timed (.named "t")]
    ((∀ k, (calls.filter fun c => c.pair.1 = k) = others.filter fun c => c.pair.1 = k) ∧
        Kind.gauge ≠ .timed) ∧
      ofCalls calls = ofCalls others ∧
      ((ofCalls calls).exchange .timed .unnamed).replaced = some (.named "t") ∧
      ((ofCalls calls).exchange .timed .unnamed).table.get .gauge = some .unnamed := by
  intro calls others
  have hkinds (k : Kind) :
      (calls.filter fun c => c.pair.1 = k) = others.filter fun c => c.pair.1 = k := by
    cases k <;> rfl
  obtain ⟨_, hexchange, _, _, horder⟩ := tables_canonical calls
  obtain ⟨hreplaced, _, hkept, _⟩ := hexchange .timed .unnamed
  exact ⟨⟨hkinds, by decide⟩, horder others hkinds, hreplaced, hkept .gauge (by decide)⟩

end MetricWiring.DeclarationTable
