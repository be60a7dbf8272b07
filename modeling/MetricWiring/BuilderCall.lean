import MetricWiring.TypeInfo

/-!
# Calls that build a type

A type is built by calls, one after the other, on a type that has only its name. This comes to the
same as making it in steps (`BuilderCall.built_eq_build`).
-/
namespace MetricWiring

/-- A call on a type that is being built. The declarations of a method are attached one after the
other, either while it is put in or before. -/
inductive BuilderCall where
  | parent (p : TypeInfo)
  | declare (k : Kind) (d : Declaration)
  | method (name : String) (declared : List (Kind × Declaration))
  | withMethod (name : String) (declared : List (Kind × Declaration))

namespace BuilderCall

def run (t : TypeInfo) : BuilderCall → TypeInfo
  | parent p => t.withParent p
  | declare k d => t.declare k d
  | method name declared => t.method name fun m => m.declareAll declared
  | withMethod name declared => t.withMethod (Method.declareAll { name } declared)

/-- The type that calls make of one that has only its name. -/
def built (fullName : String) (calls : List BuilderCall) : TypeInfo :=
  calls.foldl run (.start fullName)

/-- The step that a call comes to. -/
def step : BuilderCall → TypeInfo.BuildStep
  | parent p => .parent p
  | declare k d => .declare k d
  | method name declared => .method (.ofPairs name declared)
  | withMethod name declared => .method (.ofPairs name declared)

theorem run_eq_apply (t : TypeInfo) (c : BuilderCall) : run t c = t.apply c.step := by
  cases c with
  | parent | declare => rfl
  | method name declared | withMethod name declared =>
    exact congrArg t.withMethod (Method.declareAll_new name declared)

theorem built_eq_build (fullName : String) (calls : List BuilderCall) :
    built fullName calls = .build fullName (calls.map step) := by
  rw [built, TypeInfo.build, List.foldl_map]
  congr 1
  funext t c
  exact run_eq_apply t c

end BuilderCall

end MetricWiring
