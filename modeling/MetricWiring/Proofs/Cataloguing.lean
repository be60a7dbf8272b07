import MetricWiring.Catalog
import MetricWiring.Proofs.NameTable
import MetricWiring.Proofs.Occurrences

/-!
# The first type of each name

Types are added to a catalog one after the other, and each addition answers whether the type is new,
with a warning if it is not. What the catalog holds afterwards, what was answered and how large the
catalog has become are tied together step by step (`first_of_each_name`). Types without a common
name are catalogued in any order.
-/
namespace MetricWiring.Catalog

/-- The outcomes of adding types one after the other. -/
def insertions (c : Catalog) : List TypeInfo → List Insertion
  | [] => []
  | t :: ts => c.add t :: insertions (c.add t).catalog ts

/-- The warning that a type was left out because of its name. -/
def Warns (fullName : String) (e : Event) : Prop :=
  e.level = .warn ∧ e.message = "Type already catalogued, ignoring duplicate" ∧
    e.fields = [("namespace", .text fullName)]

/-- What adding a type comes to after other types: it is added, or left out with a warning. -/
inductive Outcome (earlier : List TypeInfo) (t : TypeInfo) : Insertion → Prop
  | added (hnew : t.fullName ∉ earlier.map TypeInfo.fullName) :
      Outcome earlier t ⟨true, ofTypes (earlier ++ [t]), []⟩
  | leftOut {e : Event} (hheld : t.fullName ∈ earlier.map TypeInfo.fullName)
      (he : Warns t.fullName e) (hsame : ofTypes (earlier ++ [t]) = ofTypes earlier) :
      Outcome earlier t ⟨false, ofTypes earlier, [e]⟩

/-! ## One addition -/

theorem add_of_held {c : Catalog} {t : TypeInfo} (h : t.fullName ∈ c.names) :
    c.add t = ⟨false, c, [.alreadyCatalogued t.fullName]⟩ := by
  obtain ⟨u, hu⟩ := NameTable.mem_names.1 h
  simp [add, NameTable.contains, hu]

theorem add_of_free {c : Catalog} {t : TypeInfo} (h : t.fullName ∉ c.names) :
    c.add t = ⟨true, c.insert t.fullName t, []⟩ := by
  have hnone : c.get? t.fullName = none := NameTable.lookup_eq_none_iff.2 h
  simp [add, NameTable.contains, hnone]

theorem get?_add (c : Catalog) (t : TypeInfo) (n : String) :
    (c.add t).catalog.get? n = (c.get? n).or (if t.fullName = n then some t else none) := by
  by_cases hheld : t.fullName ∈ c.names
  · rw [add_of_held hheld]
    by_cases hn : t.fullName = n
    · obtain ⟨u, hu⟩ := NameTable.mem_names.1 hheld
      rw [← hn, hu, Option.some_or]
    · rw [if_neg hn, Option.or_none]
  · rw [add_of_free hheld, NameTable.get?_insert]
    by_cases hn : t.fullName = n
    · have hnone : c.get? n = none := NameTable.lookup_eq_none_iff.2 (hn ▸ hheld)
      rw [if_pos hn.symm, if_pos hn, hnone, Option.none_or]
    · rw [if_neg (fun h => hn h.symm), if_neg hn, Option.or_none]

theorem size_add (c : Catalog) (t : TypeInfo) :
    (c.add t).catalog.size = c.size + (c.add t).added.toNat := by
  by_cases hheld : t.fullName ∈ c.names
  · rw [add_of_held hheld]
    rfl
  · rw [add_of_free hheld, NameTable.size_insert t (NameTable.lookup_eq_none_iff.2 hheld)]
    rfl

/-! ## One addition after the other -/

theorem ofTypes_concat (ts : List TypeInfo) (t : TypeInfo) :
    ofTypes (ts ++ [t]) = ((ofTypes ts).add t).catalog := by
  rw [ofTypes, List.foldl_append]
  rfl

theorem insertions_append (c : Catalog) (ts us : List TypeInfo) :
    insertions c (ts ++ us) =
      insertions c ts ++ insertions (ts.foldl (fun c t => (c.add t).catalog) c) us := by
  induction ts generalizing c with
  | nil => rfl
  | cons t ts ih =>
    rw [List.cons_append, insertions, insertions, ih, List.cons_append, List.foldl_cons]

@[simp] theorem length_insertions (c : Catalog) (ts : List TypeInfo) :
    (insertions c ts).length = ts.length := by
  induction ts generalizing c with
  | nil => rfl
  | cons t ts ih => rw [insertions, List.length_cons, ih, List.length_cons]

/-- A type is added to the catalog of those before it. -/
theorem getElem?_insertions (earlier : List TypeInfo) (t : TypeInfo) (later : List TypeInfo) :
    (insertions .empty (earlier ++ t :: later))[earlier.length]? =
      some ((ofTypes earlier).add t) := by
  rw [insertions_append, List.getElem?_append_right (by simp), length_insertions, Nat.sub_self]
  rfl

theorem get?_ofTypes (ts : List TypeInfo) (n : String) :
    (ofTypes ts).get? n = ts.find? fun t => t.fullName == n := by
  induction ts using List.reverseRecOn with
  | nil => rfl
  | append_singleton ts t ih =>
    rw [ofTypes_concat, get?_add, ih, List.find?_append]
    by_cases hn : t.fullName = n <;> simp [hn]

theorem mem_names_ofTypes {ts : List TypeInfo} {n : String} :
    n ∈ (ofTypes ts).names ↔ n ∈ ts.map TypeInfo.fullName := by
  rw [NameTable.mem_names]
  simp only [get?_ofTypes, ← Option.isSome_iff_exists, List.find?_isSome, beq_iff_eq, List.mem_map]

theorem size_ofTypes (ts : List TypeInfo) :
    (ofTypes ts).size = (insertions .empty ts).countP Insertion.added := by
  induction ts using List.reverseRecOn with
  | nil => rfl
  | append_singleton ts t ih =>
    rw [ofTypes_concat, size_add, ih, insertions_append, List.countP_append]
    cases hadded : ((ofTypes ts).add t).added <;>
      simp_all [insertions, ofTypes]

theorem outcome_add (earlier : List TypeInfo) (t : TypeInfo) :
    Outcome earlier t ((ofTypes earlier).add t) := by
  by_cases hheld : t.fullName ∈ (ofTypes earlier).names
  · have hsame : ofTypes (earlier ++ [t]) = ofTypes earlier := by
      rw [ofTypes_concat, add_of_held hheld]
    rw [add_of_held hheld]
    exact .leftOut (mem_names_ofTypes.1 hheld) ⟨rfl, rfl, rfl⟩ hsame
  · have hnext : (ofTypes earlier).insert t.fullName t = ofTypes (earlier ++ [t]) := by
      rw [ofTypes_concat, add_of_free hheld]
    rw [add_of_free hheld, hnext]
    exact .added fun hmem => hheld (mem_names_ofTypes.2 hmem)

theorem ofTypes_perm {ts us : List TypeInfo} (h : ts.Perm us)
    (hnames : (ts.map TypeInfo.fullName).Nodup) : ofTypes ts = ofTypes us := by
  have hnames' : (us.map TypeInfo.fullName).Nodup := (h.map _).nodup_iff.1 hnames
  refine NameTable.ext_get? fun n => Option.ext fun t => ?_
  rw [get?_ofTypes, get?_ofTypes, find?_key_eq_some_iff hnames, find?_key_eq_some_iff hnames',
    h.mem_iff]

/-- A catalog that types were added to holds the first one of each name. Its size is the number of
different names, and of the additions that were answered with yes. Each addition was answered with
yes if the name was new, and otherwise changed nothing and gave one warning. If no two types have a
name in common, the order in which they were added makes no difference. -/
theorem first_of_each_name (types : List TypeInfo) :
    (∀ n, (ofTypes types).get? n = types.find? fun t => t.fullName == n) ∧
      (ofTypes types).size = (types.map TypeInfo.fullName).dedup.length ∧
      (ofTypes types).size = (insertions .empty types).countP Insertion.added ∧
      (insertions .empty types).length = types.length ∧
      (∀ earlier t later, types = earlier ++ t :: later →
        ∃ out, (insertions .empty types)[earlier.length]? = some out ∧ Outcome earlier t out) ∧
      ∀ others, types.Perm others → (types.map TypeInfo.fullName).Nodup →
        ofTypes types = ofTypes others := by
  refine ⟨get?_ofTypes types, NameTable.size_eq_length_dedup fun _ => mem_names_ofTypes,
    size_ofTypes types, length_insertions _ _, ?_, fun _ => ofTypes_perm⟩
  rintro earlier t later rfl
  exact ⟨_, getElem?_insertions earlier t later, outcome_add earlier t⟩

/-- A type, another one, and a second one under the name of the first. -/
theorem first_of_each_name_of_three :
    let p := TypeInfo.start "pkg.P"
    let q := TypeInfo.start "pkg.Q"
    let again := p.declare .timed .unnamed
    [p, q].Perm [q, p] ∧ ([p, q].map TypeInfo.fullName).Nodup ∧
      ofTypes [p, q] = ofTypes [q, p] ∧ (ofTypes [p, q, again]).get? "pkg.P" = some p ∧
      ∃ out, (insertions .empty [p, q, again])[2]? = some out ∧ Outcome [p, q] again out := by
  intro p q again
  have hperm : [p, q].Perm [q, p] := .swap q p []
  have hnames : ([p, q].map TypeInfo.fullName).Nodup := by decide
  obtain ⟨hfirst, _, _, _, houtcomes, _⟩ := first_of_each_name [p, q, again]
  obtain ⟨_, _, _, _, _, horder⟩ := first_of_each_name [p, q]
  exact ⟨hperm, hnames, horder [q, p] hperm hnames, hfirst "pkg.P", houtcomes [p, q] again [] rfl⟩

end MetricWiring.Catalog
