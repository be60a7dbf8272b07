import MetricWiring.TypeInfo

/-!
# Methods as seen from a type

A callable is a method together with the type that declares it and the ancestors whose methods of
the same name it overrides. There are three ways to look at a type: one method of its own
(`Callable.find?`), all methods of its own (`Callable.declaredOn`), and the flattened view of
everything it can be asked to do (`Callable.hierarchy`), in which the nearest definition of a name
wins.
-/
namespace MetricWiring

structure Callable where
  /-- The type that declares the method. -/
  owner : TypeInfo
  method : Method
  /-- The ancestors of the owner that declare the name too, nearest first. -/
  overrides : List TypeInfo
  deriving DecidableEq, Repr

namespace Callable

def name (c : Callable) : String := c.method.name

/-- The declarations on the method itself. Those of overridden methods are not inherited. -/
def declarations (c : Callable) : DeclarationTable := c.method.declarations

/-- The proper ancestors of a type that declare a method of the given name, nearest first. -/
def overridden (t : TypeInfo) (name : String) : List TypeInfo :=
  (TypeInfo.chain t.ancestors).filter fun a => a.own.methods.declares name

/-- The method of that name which the type itself declares. -/
def find? (t : TypeInfo) (name : String) : Option Callable :=
  (t.own.methods.find? name).map fun m => ⟨t, m, overridden t name⟩

/-- The methods that the type itself declares, in the order of its table. -/
def declaredOn (t : TypeInfo) : List Callable :=
  t.methods.map fun m => ⟨t, m, overridden t m.name⟩

/-- The same callable, which overrides one more type's method. -/
def overriding (c : Callable) (further : TypeInfo) : Callable :=
  { c with overrides := c.overrides ++ [further] }

@[simp] theorem name_overriding (c : Callable) (further : TypeInfo) :
    (c.overriding further).name = c.name := rfl

/-- Enters a definition into a flattened view. A name that is in view keeps its callable, which
then overrides the new definition; a new name goes to the end. -/
def enter (owner : TypeInfo) (m : Method) : List Callable → List Callable
  | [] => [⟨owner, m, []⟩]
  | c :: view =>
    if c.name = m.name then c.overriding owner :: view
    else c :: enter owner m view

/-- Enters all methods that a type declares. -/
def enterType (view : List Callable) (owner : TypeInfo) : List Callable :=
  owner.methods.foldl (fun acc m => enter owner m acc) view

/-- Every method that the type has, its own ones first and then those that each ancestor
introduces. -/
def hierarchy (t : TypeInfo) : List Callable := t.lineage.foldl enterType []

theorem map_name_enter (owner : TypeInfo) (m : Method) (view : List Callable) :
    (enter owner m view).map name =
      if m.name ∈ view.map name then view.map name else view.map name ++ [m.name] := by
  induction view with
  | nil => simp [enter, name]
  | cons c view ih =>
    by_cases h : c.name = m.name
    · simp [enter, h]
    · have h' : ¬ m.name = c.name := fun hm => h hm.symm
      by_cases hm : m.name ∈ view.map name <;> simp_all [enter]

theorem nodup_enter (owner : TypeInfo) (m : Method) {view : List Callable}
    (h : (view.map name).Nodup) : ((enter owner m view).map name).Nodup := by
  rw [map_name_enter]
  by_cases hm : m.name ∈ view.map name
  · rwa [if_pos hm]
  · rw [if_neg hm, List.nodup_append]
    refine ⟨h, by simp, ?_⟩
    intro a ha b hb hab
    rw [List.mem_singleton] at hb
    subst hb hab
    exact hm ha

end Callable

end MetricWiring
