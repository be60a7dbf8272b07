import MetricWiring.Document
import MetricWiring.Folder
import MetricWiring.Instrumentation

/-!
# Naming configurations

A configuration chooses who names gauges and in which order declarations are looked for. It is read
from a document: a field that is missing takes its default, entries under other keys are passed
over, and any other departure makes the document no configuration. How a document spells a word is
left to a `WordRule`, since the formats differ in this.
-/
namespace MetricWiring

/-- Which type a gauge is named after. -/
inductive GaugeNaming where
  | declaringClass
  | instanceClass
  deriving DecidableEq, Repr

namespace GaugeNaming

def word : GaugeNaming → String
  | declaringClass => "declaring_class"
  | instanceClass => "instance_class"

def ofWord? (word : String) : Option GaugeNaming :=
  [declaringClass, instanceClass].find? fun g => g.word == word

def namer : GaugeNaming → Namer
  | declaringClass => .declaringType
  | instanceClass => .instanceType

@[simp] theorem ofWord?_word (g : GaugeNaming) : ofWord? g.word = some g := by
  cases g <;> decide

end GaugeNaming

namespace Source

def word : Source → String
  | method => "method"
  | type => "class"

def ofWord? (word : String) : Option Source :=
  [method, type].find? fun s => s.word == word

@[simp] theorem ofWord?_word (s : Source) : ofWord? s.word = some s := by
  cases s <;> decide

end Source

structure NamingConfig where
  gaugeNaming : GaugeNaming := .instanceClass
  /-- Where declarations are looked for, highest precedence first. -/
  resolutionOrder : List Source := [.method, .type]
  deriving DecidableEq, Repr, Inhabited

inductive ConfigError where
  | unreadable (path : String) (cause : ReadError)
  /-- The document is no configuration. -/
  | malformed
  /-- The layers give no configuration. -/
  | notLoaded
  /-- There is nowhere to look for declarations. -/
  | emptyResolutionOrder
  deriving DecidableEq, Repr

namespace ConfigError

/-- The text of an error, for those that have one of their own. -/
def message? : ConfigError → Option String
  | unreadable path cause =>
    some ("Failed to read config file '" ++ path ++ "': " ++ cause.message)
  | malformed => none
  | notLoaded => none
  | emptyResolutionOrder => some "resolution_order must name at least one declaration source"

end ConfigError

/-- The word that a document stands for, if it stands for one. -/
abbrev WordRule := Document → Option String

/-- A word is a text, or a mapping from the word to null. -/
def WordRule.plain : WordRule
  | .text s => some s
  | .mapping [(key, .null)] => some key
  | _ => none

namespace NamingConfig

def standard : NamingConfig := {}

def readGaugeNaming (rule : WordRule) (d : Document) : Option GaugeNaming := do
  GaugeNaming.ofWord? (← rule d)

def readSource (rule : WordRule) (d : Document) : Option Source := do
  Source.ofWord? (← rule d)

def readOrder (rule : WordRule) (d : Document) : Option (List Source) :=
  match d.untagged with
  | .list items => items.mapM (readSource rule)
  | .blank => some []
  | _ => none

/-- A field that may be missing, but may not be given twice. -/
def readField {α : Type} (read : Document → Option α) (default : α) :
    List Document → Option α
  | [] => some default
  | [d] => read d
  | _ => none

/-- Reads the fields from their entries, or by position from a list that may end early. -/
def ofDocument? (rule : WordRule) (d : Document) : Option NamingConfig :=
  let ofFields (gauge order : List Document) : Option NamingConfig := do
    let gaugeNaming ← readField (readGaugeNaming rule) standard.gaugeNaming gauge
    let resolutionOrder ← readField (readOrder rule) standard.resolutionOrder order
    return { gaugeNaming, resolutionOrder }
  match d.untagged with
  | .mapping entries =>
    ofFields (Document.valuesAt "gauge_naming" entries)
      (Document.valuesAt "resolution_order" entries)
  | .list items => if items.length ≤ 2 then ofFields (items.take 1) (items.drop 1) else none
  | .blank => some standard
  | _ => none

/-- A configuration has to look for declarations somewhere. -/
def validate (c : NamingConfig) : Except ConfigError NamingConfig :=
  if c.resolutionOrder.isEmpty then .error .emptyResolutionOrder else .ok c

/-- Reads and validates a document. -/
def decode (rule : WordRule) (d : Document) : Except ConfigError NamingConfig :=
  match ofDocument? rule d with
  | some c => c.validate
  | none => .error .malformed

/-- The instrumentation that a configuration asks for. -/
def instrumentation (c : NamingConfig) : Except ConfigError Instrumentation :=
  match c.validate with
  | .ok c => .ok ⟨.ofSources c.resolutionOrder, c.gaugeNaming.namer⟩
  | .error e => .error e

end NamingConfig

end MetricWiring
