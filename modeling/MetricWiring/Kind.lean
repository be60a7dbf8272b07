/-!
# The kinds of metric

Five kinds of metric can be asked for. Each has a keyword, by which it is written in attributes and
shown, and a suffix for the names of metrics that are given none. `Kind.all` lists the kinds in the
order in which a type is wired, which is also their order as values.
-/
namespace MetricWiring

inductive Kind where
  | timed
  | metered
  | counted
  | gauge
  | exceptionMetered
  deriving DecidableEq, Repr

namespace Kind

/-- Every kind, in wiring order. -/
def all : List Kind := [timed, metered, counted, gauge, exceptionMetered]

@[simp] theorem mem_all (k : Kind) : k ∈ all := by cases k <;> decide

theorem nodup_all : all.Nodup := by decide

/-- The place of a kind in wiring order. -/
def rank : Kind → Nat
  | timed => 0
  | metered => 1
  | counted => 2
  | gauge => 3
  | exceptionMetered => 4

theorem rank_injective {a b : Kind} (h : a.rank = b.rank) : a = b := by
  cases a <;> cases b <;> simp_all [rank]

instance : Ord Kind := ⟨fun a b => compare a.rank b.rank⟩

instance : LT Kind := ⟨fun a b => a.rank < b.rank⟩

instance (a b : Kind) : Decidable (a < b) := inferInstanceAs (Decidable (a.rank < b.rank))

theorem lt_iff_rank {a b : Kind} : a < b ↔ a.rank < b.rank := Iff.rfl

theorem all_increasing : all.Pairwise (· < ·) := by decide

/-- The word that stands for a kind in attributes and in messages. -/
def keyword : Kind → String
  | timed => "timed"
  | metered => "metered"
  | counted => "counted"
  | gauge => "gauge"
  | exceptionMetered => "exception_metered"

theorem keyword_injective {a b : Kind} (h : a.keyword = b.keyword) : a = b := by
  cases a <;> cases b <;> simp_all [keyword]

/-- The kind a keyword stands for. Only the exact spelling is a keyword. -/
def ofKeyword? (word : String) : Option Kind :=
  all.find? (fun k => k.keyword == word)

@[simp] theorem ofKeyword?_keyword (k : Kind) : ofKeyword? k.keyword = some k := by
  cases k <;> decide

theorem ofKeyword?_eq_some_iff {word : String} {k : Kind} :
    ofKeyword? word = some k ↔ word = k.keyword := by
  constructor
  · intro h
    rw [ofKeyword?] at h
    have hk := List.find?_some h
    exact (eq_of_beq hk).symm
  · rintro rfl
    exact ofKeyword?_keyword k

/-- The last segment of an unnamed metric. A counter that only grows has a suffix of its own. -/
def suffix (k : Kind) (monotonic : Bool) : String :=
  match k with
  | timed => "timer"
  | metered => "meter"
  | counted => if monotonic then "current" else "counter"
  | gauge => "gauge"
  | exceptionMetered => "exceptions"

def isGauge (k : Kind) : Bool := k == gauge

@[simp] theorem isGauge_iff {k : Kind} : k.isGauge = true ↔ k = gauge := by simp [isGauge]

end Kind

/-- A word that is none of the five keywords. -/
structure UnknownKind where
  word : String
  deriving DecidableEq, Repr

namespace UnknownKind

def message (e : UnknownKind) : String :=
  "unknown variant `" ++ e.word ++ "`, expected one of " ++
    ", ".intercalate (Kind.all.map fun k => "`" ++ k.keyword ++ "`")

end UnknownKind

/-- Reads a keyword, or says which word is none. -/
def Kind.parse (word : String) : Except UnknownKind Kind :=
  match ofKeyword? word with
  | some k => .ok k
  | none => .error ⟨word⟩

end MetricWiring
