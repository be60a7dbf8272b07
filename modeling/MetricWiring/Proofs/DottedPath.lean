import MetricWiring.Proofs.MetricName

/-!
# Paths are joined with dots

A path is joined from left to right, and whether a dot is put in depends on what has been joined so
far. What comes of it is the plain join of all segments that are not empty, the namespace among them
(`join_eq_intercalate`). So empty segments can stand anywhere, and a path can be joined in two parts
(`join_dotted`).
-/
namespace MetricWiring.MetricName

/-- The segments that a path keeps. -/
def kept (segments : List String) : List String := segments.filter (· ≠ "")

@[simp] theorem kept_nil : kept [] = [] := rfl

@[simp] theorem kept_cons_empty (segments : List String) :
    kept ("" :: segments) = kept segments := by
  simp [kept]

theorem kept_cons_of_ne {s : String} (hs : s ≠ "") (segments : List String) :
    kept (s :: segments) = s :: kept segments := by
  simp [kept, hs]

/-- The next segment goes into the path that has been joined so far. -/
theorem intercalate_kept_extend (path s : String) (segments : List String) :
    ".".intercalate (kept (extend path s :: segments)) =
      ".".intercalate (kept (path :: s :: segments)) := by
  by_cases hs : s = ""
  · subst hs
    by_cases hpath : path = ""
    · simp [hpath]
    · simp [kept_cons_of_ne hpath]
  · by_cases hpath : path = ""
    · simp [hpath]
    · have hextended : path ++ "." ++ s ≠ "" := by simp [String.append_eq_empty_iff, hpath]
      rw [extend, if_neg hs, if_neg hpath, kept_cons_of_ne hextended, kept_cons_of_ne hpath,
        kept_cons_of_ne hs, String.intercalate_cons_append, String.intercalate_cons_cons]

theorem join_eq_intercalate (space : String) (segments : List String) :
    join space segments = ".".intercalate (kept (space :: segments)) := by
  induction segments generalizing space with
  | nil =>
    by_cases hspace : space = ""
    · simp [hspace]
    · simp [kept_cons_of_ne hspace]
  | cons s segments ih => rw [join_cons, ih, intercalate_kept_extend]

theorem join_eq_empty_iff {space : String} {segments : List String} :
    join space segments = "" ↔ space = "" ∧ ∀ s ∈ segments, s = "" := by
  induction segments generalizing space with
  | nil => simp
  | cons s segments ih => rw [join_cons, ih, extend_eq_empty_iff, List.forall_mem_cons, and_assoc]

theorem join_congr {segments others : List String} (h : kept segments = kept others)
    (space : String) : join space segments = join space others := by
  have hkept : kept (space :: segments) = kept (space :: others) := by
    by_cases hspace : space = ""
    · simp [hspace, h]
    · rw [kept_cons_of_ne hspace, kept_cons_of_ne hspace, h]
  rw [join_eq_intercalate, join_eq_intercalate, hkept]

theorem join_append (space : String) (segments further : List String) :
    join space (segments ++ further) = join (join space segments) further :=
  List.foldl_append

/-- A path is the join with dots of the segments that are not empty, the namespace first. It is
empty only if all of them are, the empty ones among them make no difference, and what stands under
a joined path stands under its segments. -/
theorem join_dotted (space : String) (segments : List String) :
    join space segments = ".".intercalate ((space :: segments).filter (· ≠ "")) ∧
      (join space segments = "" ↔ space = "" ∧ ∀ s ∈ segments, s = "") ∧
      (∀ others, segments.filter (· ≠ "") = others.filter (· ≠ "") →
        join space segments = join space others) ∧
      ∀ further, join (join space segments) further = join space (segments ++ further) :=
  ⟨join_eq_intercalate space segments, join_eq_empty_iff, fun _ h => join_congr h space,
    fun further => (join_append space segments further).symm⟩

/-- Under no namespace, with empty segments in front and in between. -/
theorem join_dotted_of_gaps :
    ["", "a", "", "b"].filter (· ≠ "") = ["a", "b"].filter (· ≠ "") ∧
      join "" ["", "a", "", "b"] = join "" ["a", "b"] ∧ join "" ["a", "b"] = "a.b" := by
  have hkept : ["", "a", "", "b"].filter (· ≠ "") = ["a", "b"].filter (· ≠ "") := by decide
  exact ⟨hkept, (join_dotted "" ["", "a", "", "b"]).2.2.1 ["a", "b"] hkept, by decide⟩

end MetricWiring.MetricName
