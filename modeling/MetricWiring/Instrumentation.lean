import MetricWiring.Event
import MetricWiring.Namer
import MetricWiring.Resolver

/-!
# Wiring a type

An instrumentation pairs a resolver with a namer. Its plan for a type goes through the kinds in
wiring order and, for each, through the methods in question: all methods of the flattened view for
gauges, the type's own methods for every other kind. Each declaration found becomes a binding.
Registering a type enters its plan into a registry, whole or not at all.
-/
namespace MetricWiring

structure Instrumentation where
  resolver : Resolver
  namer : Namer
  deriving Repr

/-- A method for which a declaration of some kind was found. -/
structure Finding where
  kind : Kind
  callable : Callable
  resolution : Resolution
  deriving Repr

namespace Finding

/-- The trace of the search, from the innermost list outwards. -/
def events (f : Finding) : List Event :=
  f.resolution.positions.map fun position =>
    .resolved f.kind f.callable.name f.callable.owner.fullName position

end Finding

namespace Instrumentation

/-- The instrumentation used unless another one is asked for. -/
def standard : Instrumentation := ⟨.standard, .instanceType⟩

/-- The methods of a type that can carry a metric of the given kind. -/
def callables (t : TypeInfo) (k : Kind) : List Callable :=
  if k = .gauge then Callable.hierarchy t else Callable.declaredOn t

def findingsOf (w : Instrumentation) (t : TypeInfo) (k : Kind) : List Finding :=
  (callables t k).filterMap fun c => (w.resolver.resolve k c).map fun found => ⟨k, c, found⟩

/-- All findings for a type, by kind and then by method. -/
def findings (w : Instrumentation) (t : TypeInfo) : List Finding :=
  Kind.all.flatMap (w.findingsOf t)

def binding (w : Instrumentation) (t : TypeInfo) (f : Finding) : Binding where
  kind := f.kind
  name := w.namer.nameFor f.kind t f.callable f.resolution.declaration
  method := f.callable.name
  owner := f.callable.owner.fullName

/-- Every binding for an instance of a type. -/
def plan (w : Instrumentation) (t : TypeInfo) : List Binding := (w.findings t).map (w.binding t)

/-- What is reported for one finding: how it was made and which metric came of it. -/
def findingEvents (w : Instrumentation) (t : TypeInfo) (f : Finding) : List Event :=
  let b := w.binding t f
  f.events ++ [.bound b.kind b.name b.method t.fullName]

/-- What is reported while a type is planned. -/
def planEvents (w : Instrumentation) (t : TypeInfo) : List Event :=
  (w.findings t).flatMap (w.findingEvents t)

/-! ## Registering -/

/-- What a registration works on: the registry, and the events reported so far. -/
structure Session where
  registry : Registry
  events : List Event

/-- A computation on a session. When it fails, what it has done and reported stays. -/
abbrev OnSession (α : Type) : Type := EStateM RegistryError Session α

def report (es : List Event) : OnSession Unit :=
  modify fun s => { s with events := s.events ++ es }

/-- Uses the registry of a session, and goes on with the registry that is left. -/
def onRegistry {α : Type} (x : Registry.OnRegistry α) : OnSession α := fun s =>
  match x.run s.registry with
  | .ok a r => .ok a { s with registry := r }
  | .error e r => .error e { s with registry := r }

/-- Enters bindings that belong to a type of the given name. A binding without a metric name is
refused before the registry is asked. -/
def enter (fullName : String) (bindings : List Binding) : OnSession (List Binding) :=
  match bindings.find? fun b => b.name = "" with
  | some b => do
    report [.unnamed b.kind b.method fullName]
    throw (.emptyName b.kind b.method)
  | none =>
    tryCatch
      (do
        let _ ← onRegistry (Registry.registerAll bindings)
        return bindings)
      fun e => do
        report [.rejected fullName e]
        throw e

/-- Plans a type and enters all its bindings, or none. -/
def wire (w : Instrumentation) (t : TypeInfo) : OnSession (List Binding) := do
  report (w.planEvents t)
  enter t.fullName (w.plan t)

/-- The outcome of a registration: its answer, the registry afterwards and what was reported. -/
structure Registration where
  answer : Except RegistryError (List Binding)
  registry : Registry
  events : List Event

def Registration.ofResult :
    EStateM.Result RegistryError Session (List Binding) → Registration
  | .ok bs s => ⟨.ok bs, s.registry, s.events⟩
  | .error e s => ⟨.error e, s.registry, s.events⟩

/-- Registers a type where nothing has been reported before. -/
def register (w : Instrumentation) (r : Registry) (t : TypeInfo) : Registration :=
  .ofResult ((w.wire t).run ⟨r, []⟩)

@[simp] theorem length_plan (w : Instrumentation) (t : TypeInfo) :
    (w.plan t).length = (w.findings t).length := by simp [plan]

end Instrumentation

end MetricWiring
