import MetricWiring.Declaration

/-!
# Methods and method tables

A type lists its methods in the order in which their names first appear, and no two methods of one
table share a name: putting a method under a name that is taken replaces the one that was there, in
its place.
-/
namespace MetricWiring

/-- A method of a type with the declarations it carries itself. -/
structure Method where
  name : String
  declarations : DeclarationTable := .empty
  deriving DecidableEq, Repr, Inhabited

namespace Method

def declare (m : Method) (k : Kind) (d : Declaration) : Method :=
  { m with declarations := m.declarations.insert k d }

@[simp] theorem declare_name (m : Method) (k : Kind) (d : Declaration) :
    (m.declare k d).name = m.name := rfl

/-- Attaches declarations one after the other. -/
def declareAll (m : Method) (pairs : List (Kind × Declaration)) : Method :=
  pairs.foldl (fun acc p => acc.declare p.1 p.2) m

/-- The method that carries the given declarations, the last one of each kind. -/
def ofPairs (name : String) (pairs : List (Kind × Declaration)) : Method :=
  { name, declarations := .ofList pairs }

theorem declareAll_eq (m : Method) (pairs : List (Kind × Declaration)) :
    m.declareAll pairs = { m with declarations := m.declarations.insertAll pairs } := by
  induction pairs generalizing m with
  | nil => rfl
  | cons p pairs ih => exact ih (m.declare p.1 p.2)

theorem declareAll_new (name : String) (pairs : List (Kind × Declaration)) :
    declareAll { name } pairs = ofPairs name pairs :=
  declareAll_eq { name } pairs

end Method

/-- The methods of one type. -/
structure MethodTable where
  entries : List Method
  nodup : (entries.map Method.name).Nodup
  deriving DecidableEq, Repr

namespace MethodTable

def empty : MethodTable := ⟨[], List.nodup_nil⟩

instance : Inhabited MethodTable := ⟨empty⟩

def names (t : MethodTable) : List String := t.entries.map Method.name

/-- The entry of a name, if there is one. -/
def find? (t : MethodTable) (name : String) : Option Method :=
  t.entries.find? (fun m => m.name == name)

def declares (t : MethodTable) (name : String) : Bool := (t.find? name).isSome

/-- Replaces the entry of the same name in its place, or adds the method at the end. -/
def place (m : Method) : List Method → List Method
  | [] => [m]
  | e :: es => if e.name = m.name then m :: es else e :: place m es

theorem map_name_place (m : Method) (es : List Method) :
    (place m es).map Method.name =
      if m.name ∈ es.map Method.name then es.map Method.name
      else es.map Method.name ++ [m.name] := by
  induction es with
  | nil => simp [place]
  | cons e es ih =>
    by_cases h : e.name = m.name
    · simp [place, h]
    · have h' : ¬ m.name = e.name := fun hm => h hm.symm
      by_cases hm : m.name ∈ es.map Method.name <;> simp_all [place]

theorem nodup_place (m : Method) {es : List Method} (h : (es.map Method.name).Nodup) :
    ((place m es).map Method.name).Nodup := by
  rw [map_name_place]
  by_cases hm : m.name ∈ es.map Method.name
  · rwa [if_pos hm]
  · rw [if_neg hm, List.nodup_append]
    refine ⟨h, by simp, ?_⟩
    intro a ha b hb hab
    rw [List.mem_singleton] at hb
    subst hb hab
    exact hm ha

def put (t : MethodTable) (m : Method) : MethodTable :=
  ⟨place m t.entries, nodup_place m t.nodup⟩

@[simp] theorem entries_empty : empty.entries = [] := rfl

@[simp] theorem entries_put (t : MethodTable) (m : Method) :
    (t.put m).entries = place m t.entries := rfl

theorem names_put (t : MethodTable) (m : Method) :
    (t.put m).names = if m.name ∈ t.names then t.names else t.names ++ [m.name] :=
  map_name_place m t.entries

end MethodTable

end MetricWiring
