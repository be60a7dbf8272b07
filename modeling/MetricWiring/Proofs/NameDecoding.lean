import Mathlib.Data.List.DropRight
import MetricWiring.MetricName

/-!
# Taking metric names apart

A namespace may contain dots and may be empty, so a name is read from its end. A segment without
dots can be taken off a path (`cut_extend`), and with it the suffix and then the method of a derived
name (`decode?_compose`). Whatever stands behind a namespace, the namespace can be recovered
(`compose_left_inj`).
-/
namespace MetricWiring

/-- A part of a path that no dot divides and that is not left out. -/
structure IsSegment (s : String) : Prop where
  ne_empty : s ≠ ""
  dotless : '.' ∉ s.toList

instance (s : String) : Decidable (IsSegment s) :=
  decidable_of_iff (s ≠ "" ∧ '.' ∉ s.toList) ⟨fun h => ⟨h.1, h.2⟩, fun h => ⟨h.1, h.2⟩⟩

/-- The declaration leaves the name to be derived from the method. -/
structure Declaration.Derives (d : Declaration) : Prop where
  unnamed : d.name = ""
  relative : d.absolute = false

instance (d : Declaration) : Decidable d.Derives :=
  decidable_of_iff (d.name = "" ∧ d.absolute = false) ⟨fun h => ⟨h.1, h.2⟩, fun h => ⟨h.1, h.2⟩⟩

namespace Kind

theorem isSegment_suffix (k : Kind) (monotonic : Bool) : IsSegment (k.suffix monotonic) := by
  cases k <;> cases monotonic <;> decide

/-- The kind a suffix stands for, and whether it is the suffix of counters that only grow. -/
def ofSuffix? (suffix : String) : Option (Kind × Bool) :=
  [(timed, false), (metered, false), (counted, false), (counted, true), (gauge, false),
    (exceptionMetered, false)].find? fun (k, monotonic) => k.suffix monotonic == suffix

theorem ofSuffix?_suffix (k : Kind) (monotonic : Bool) :
    ofSuffix? (k.suffix monotonic) = some (k, decide (k = .counted) && monotonic) := by
  cases k <;> cases monotonic <;> decide

end Kind

namespace MetricName

theorem extend_of_ne_empty {path segment : String} (hp : path ≠ "") (hs : segment ≠ "") :
    extend path segment = path ++ "." ++ segment := by
  simp [extend, hp, hs]

theorem toList_append_dot (path segment : String) :
    (path ++ "." ++ segment).toList = path.toList ++ '.' :: segment.toList := by
  simp [String.toList_append]

/-- What stands before the last dot of a name, and what stands behind it. -/
def cut (name : String) : String × String :=
  (String.ofList (name.toList.rdropWhile (· != '.')).dropLast,
    String.ofList (name.toList.rtakeWhile (· != '.')))

private theorem forall_ne_dot {l : List Char} (h : '.' ∉ l) :
    ∀ c ∈ l, (c != '.') = true :=
  fun _ hc => bne_iff_ne.2 fun hdot => h (hdot ▸ hc)

theorem cut_of_dotless {s : String} (hs : '.' ∉ s.toList) : cut s = ("", s) := by
  have hbehind : s.toList.rtakeWhile (· != '.') = s.toList :=
    List.rtakeWhile_eq_self_iff.2 (forall_ne_dot hs)
  have hbefore : s.toList.rdropWhile (· != '.') = [] :=
    List.rdropWhile_eq_nil_iff.2 (forall_ne_dot hs)
  simp [cut, hbehind, hbefore]

theorem cut_append_dot (path : String) {s : String} (hs : '.' ∉ s.toList) :
    cut (path ++ "." ++ s) = (path, s) := by
  have hreversed : ∀ c ∈ s.toList.reverse, (c != '.') = true := fun c hc =>
    forall_ne_dot hs c (List.mem_reverse.1 hc)
  have hbehind : (path.toList ++ '.' :: s.toList).rtakeWhile (· != '.') = s.toList := by
    simp [List.rtakeWhile, List.takeWhile_append_of_pos hreversed]
  have hbefore : (path.toList ++ '.' :: s.toList).rdropWhile (· != '.')
      = path.toList ++ ['.'] := by
    simp [List.rdropWhile, List.dropWhile_append_of_pos hreversed]
  rw [cut, toList_append_dot, hbehind, hbefore]
  simp

/-- The segment that was put under a path last can be taken off it again. -/
theorem cut_extend (path : String) {s : String} (hs : IsSegment s) :
    cut (extend path s) = (path, s) := by
  by_cases hp : path = ""
  · rw [hp, empty_extend, cut_of_dotless hs.dotless]
  · rw [extend_of_ne_empty hp hs.ne_empty, cut_append_dot path hs.dotless]

/-- A path with a segment behind it is not the segment alone. -/
theorem ne_extend {path s : String} (hpath : path ≠ "") (hs : s ≠ "") : s ≠ extend path s := by
  intro hsame
  have hlength := congrArg String.length hsame
  rw [extend_of_ne_empty hpath hs] at hlength
  simp only [String.length_append] at hlength
  have hdot : ".".length = 1 := rfl
  omega

/-- One and the same segment, with dots or without, hides no difference between paths. -/
theorem extend_left_inj {p q s : String} : extend p s = extend q s ↔ p = q := by
  refine ⟨fun h => ?_, fun h => by rw [h]⟩
  by_cases hs : s = ""
  · simpa [hs] using h
  · by_cases hp : p = ""
    · by_cases hq : q = ""
      · rw [hp, hq]
      · rw [hp, empty_extend] at h
        exact absurd h (ne_extend hq hs)
    · by_cases hq : q = ""
      · rw [hq, empty_extend] at h
        exact absurd h.symm (ne_extend hp hs)
      · rw [extend_of_ne_empty hp hs, extend_of_ne_empty hq hs, String.append_left_inj,
          String.append_left_inj] at h
        exact h

theorem join_left_inj {p q : String} {segments : List String} :
    join p segments = join q segments ↔ p = q := by
  induction segments generalizing p q with
  | nil => rfl
  | cons s segments ih => rw [join_cons, join_cons, ih, extend_left_inj]

theorem compose_left_inj {d : Declaration} (hd : d.absolute = false) {p q method : String}
    {k : Kind} : compose p method k d = compose q method k d ↔ p = q := by
  simp only [compose, hd, Bool.false_eq_true, if_false]
  by_cases hn : d.name = ""
  · rw [if_pos hn, if_pos hn, join_left_inj]
  · rw [if_neg hn, if_neg hn, join_left_inj]

theorem compose_of_derives {d : Declaration} (hd : d.Derives) (space method : String) (k : Kind) :
    compose space method k d = extend (extend space method) (d.suffix k) := by
  simp [compose, hd.unnamed, hd.relative]

/-- What a derived name is made of. -/
structure Origin where
  space : String
  method : String
  kind : Kind
  /-- The name is that of a counter that only grows. -/
  growing : Bool
  deriving DecidableEq, Repr

/-- What the name of a metric is made of that a declaration leaves to be derived. -/
def Origin.of (space method : String) (k : Kind) (d : Declaration) : Origin :=
  { space, method, kind := k, growing := decide (k = .counted) && d.monotonic }

theorem Origin.of_eq_of_iff {p q m n : String} {k l : Kind} {d e : Declaration} :
    of p m k d = of q n l e
      ↔ p = q ∧ m = n ∧ k = l ∧ (k = .counted → d.monotonic = e.monotonic) := by
  simp only [of, mk.injEq]
  refine and_congr_right fun _ => and_congr_right fun _ => and_congr_right fun hkind => ?_
  subst hkind
  by_cases hk : k = .counted <;> simp [hk]

/-- Reads a derived name from its end: the suffix, the method before it, and the namespace that is
left. -/
def decode? (name : String) : Option Origin :=
  (Kind.ofSuffix? (cut name).2).map fun (k, growing) =>
    { space := (cut (cut name).1).1, method := (cut (cut name).1).2, kind := k, growing }

theorem decode?_compose {d : Declaration} (hd : d.Derives) {method : String}
    (hm : IsSegment method) (space : String) (k : Kind) :
    decode? (compose space method k d) = some (Origin.of space method k d) := by
  have hsuffix : IsSegment (d.suffix k) := k.isSegment_suffix d.monotonic
  rw [decode?, compose_of_derives hd, cut_extend _ hsuffix]
  simp only
  rw [cut_extend space hm, Declaration.suffix, Kind.ofSuffix?_suffix]
  rfl

/-- A derived name tells the namespace, the method and the kind, and for counters of which sort. -/
theorem compose_inj {p q m n : String} {k l : Kind} {d e : Declaration} (hm : IsSegment m)
    (hn : IsSegment n) (hd : d.Derives) (he : e.Derives)
    (h : compose p m k d = compose q n l e) :
    p = q ∧ m = n ∧ k = l ∧ (k = .counted → d.monotonic = e.monotonic) := by
  have hdecoded := congrArg decode? h
  rw [decode?_compose hd hm, decode?_compose he hn] at hdecoded
  exact Origin.of_eq_of_iff.1 (Option.some.inj hdecoded)

/-- Derived names can be read back into what they were made of, so two of them are equal only where
all of that is. Explicit names cannot, but they too tell the namespace they stand under, once the
rest is known. -/
theorem names_decodable :
    (∀ (space method : String) (k : Kind) (d : Declaration), IsSegment method → d.Derives →
      decode? (compose space method k d) = some (Origin.of space method k d))
    ∧ (∀ (p q m n : String) (k l : Kind) (d e : Declaration), IsSegment m → IsSegment n →
        d.Derives → e.Derives → compose p m k d = compose q n l e →
        p = q ∧ m = n ∧ k = l ∧ (k = .counted → d.monotonic = e.monotonic))
    ∧ ∀ (p q method : String) (k : Kind) (d : Declaration), d.absolute = false →
        compose p method k d = compose q method k d → p = q :=
  ⟨fun space _ k _ hm hd => decode?_compose hd hm space k,
    fun _ _ _ _ _ _ _ _ hm hn hd he h => compose_inj hm hn hd he h,
    fun _ _ _ _ _ hd h => (compose_left_inj hd).1 h⟩

/-- Under a namespace with dots, under none, and with a name that itself has dots. -/
theorem names_decodable_of_dotted :
    (IsSegment "run" ∧ Declaration.unnamed.Derives
      ∧ (Declaration.named "jobs.done").absolute = false)
    ∧ decode? (compose "app.queue" "run" .timed .unnamed)
        = some ⟨"app.queue", "run", .timed, false⟩
    ∧ decode? (compose "" "run" .counted (Declaration.unnamed.withMonotonic true))
        = some ⟨"", "run", .counted, true⟩
    ∧ compose "app.queue" "run" .timed .unnamed ≠ compose "app" "run" .metered .unnamed
    ∧ compose "app" "run" .timed (.named "jobs.done")
        ≠ compose "" "run" .timed (.named "jobs.done") :=
  ⟨⟨by decide, by decide, rfl⟩,
    names_decodable.1 "app.queue" "run" .timed .unnamed (by decide) (by decide),
    names_decodable.1 "" "run" .counted (Declaration.unnamed.withMonotonic true) (by decide)
      (by decide),
    fun h => absurd (names_decodable.2.1 "app.queue" "app" "run" "run" .timed .metered .unnamed
      .unnamed (by decide) (by decide) (by decide) (by decide) h).1 (by decide),
    fun h => absurd (names_decodable.2.2 "app" "" "run" .timed (.named "jobs.done") rfl h)
      (by decide)⟩

end MetricName

end MetricWiring
