import MetricWiring.Kind

/-!
# Declarations and declaration tables

A declaration asks for one metric. A site, which is a method or a whole type, carries at most one
declaration of each kind; its table has one slot per kind, so two tables are equal exactly when they
hold the same declaration for every kind (`DeclarationTable.ext_get`).
-/
namespace MetricWiring

/-- What one declaration says. An empty name stands for a name derived from the method. -/
structure Declaration where
  name : String := ""
  /-- The name is the whole metric name. -/
  absolute : Bool := false
  /-- The counter only grows. Of no effect for the other kinds. -/
  monotonic : Bool := false
  deriving DecidableEq, Repr, Inhabited

namespace Declaration

/-- The declaration that leaves everything to be derived. -/
def unnamed : Declaration := {}

/-- A name that is put under the namespace of the type. -/
def named (name : String) : Declaration := { name }

/-- A name that is used as it stands. -/
def verbatim (name : String) : Declaration := { name, absolute := true }

def withAbsolute (d : Declaration) (absolute : Bool) : Declaration := { d with absolute }

def withMonotonic (d : Declaration) (monotonic : Bool) : Declaration := { d with monotonic }

/-- The suffix that this declaration takes if it is unnamed and of the given kind. -/
def suffix (d : Declaration) (k : Kind) : String := k.suffix d.monotonic

end Declaration

/-- The declarations of one site, a slot for each kind. -/
structure DeclarationTable where
  timed : Option Declaration := none
  metered : Option Declaration := none
  counted : Option Declaration := none
  gauge : Option Declaration := none
  exceptionMetered : Option Declaration := none
  deriving DecidableEq, Repr, Inhabited

namespace DeclarationTable

def empty : DeclarationTable := {}

def get (t : DeclarationTable) : Kind → Option Declaration
  | .timed => t.timed
  | .metered => t.metered
  | .counted => t.counted
  | .gauge => t.gauge
  | .exceptionMetered => t.exceptionMetered

/-- Fills the slot of a kind, whatever it held. -/
def insert (t : DeclarationTable) (k : Kind) (d : Declaration) : DeclarationTable :=
  match k with
  | .timed => { t with timed := some d }
  | .metered => { t with metered := some d }
  | .counted => { t with counted := some d }
  | .gauge => { t with gauge := some d }
  | .exceptionMetered => { t with exceptionMetered := some d }

/-- The outcome of an insertion that hands out what it replaces. -/
structure Exchange where
  replaced : Option Declaration
  table : DeclarationTable

/-- Fills the slot of a kind and hands out what it held. -/
def exchange (t : DeclarationTable) (k : Kind) (d : Declaration) : Exchange where
  replaced := t.get k
  table := t.insert k d

theorem ext_get {t u : DeclarationTable} (h : ∀ k, t.get k = u.get k) : t = u := by
  cases t
  cases u
  simpa [get] using
    And.intro (h .timed) (And.intro (h .metered) (And.intro (h .counted)
      (And.intro (h .gauge) (h .exceptionMetered))))

@[simp] theorem get_empty (k : Kind) : empty.get k = none := by cases k <;> rfl

theorem get_insert (t : DeclarationTable) (k l : Kind) (d : Declaration) :
    (t.insert k d).get l = if l = k then some d else t.get l := by
  cases k <;> cases l <;> rfl

@[simp] theorem get_insert_self (t : DeclarationTable) (k : Kind) (d : Declaration) :
    (t.insert k d).get k = some d := by simp [get_insert]

theorem get_insert_of_ne (t : DeclarationTable) {k l : Kind} (d : Declaration) (h : l ≠ k) :
    (t.insert k d).get l = t.get l := by simp [get_insert, h]

def contains (t : DeclarationTable) (k : Kind) : Bool := (t.get k).isSome

/-- The declarations present, in the order of their kinds. -/
def toList (t : DeclarationTable) : List (Kind × Declaration) :=
  Kind.all.filterMap fun k => (t.get k).map (k, ·)

@[simp] theorem mem_toList {t : DeclarationTable} {k : Kind} {d : Declaration} :
    (k, d) ∈ t.toList ↔ t.get k = some d := by
  simp only [toList, List.mem_filterMap, Option.map_eq_some_iff, Prod.mk.injEq]
  constructor
  · rintro ⟨_, _, _, h, rfl, rfl⟩
    exact h
  · intro h
    exact ⟨k, Kind.mem_all k, d, h, rfl, rfl⟩

def size (t : DeclarationTable) : Nat := t.toList.length

def isEmpty (t : DeclarationTable) : Bool := t.toList.isEmpty

/-- Inserts the pairs in their order, so that the last one of a kind stays. -/
def insertAll (t : DeclarationTable) (pairs : List (Kind × Declaration)) : DeclarationTable :=
  pairs.foldl (fun acc p => acc.insert p.1 p.2) t

def ofList (pairs : List (Kind × Declaration)) : DeclarationTable := empty.insertAll pairs

@[simp] theorem insertAll_nil (t : DeclarationTable) : t.insertAll [] = t := rfl

@[simp] theorem insertAll_cons (t : DeclarationTable) (p : Kind × Declaration)
    (ps : List (Kind × Declaration)) :
    t.insertAll (p :: ps) = (t.insert p.1 p.2).insertAll ps := rfl

end DeclarationTable

end MetricWiring
