import MetricWiring.NamingConfig
import MetricWiring.NamingConfig.KeyPath
import MetricWiring.Yaml.Stream

/-!
# Configurations in layers

A configuration can be put together from several files and from variables. Each of them is a layer,
and a layer that comes later writes over those before it, field by field. Only what is left in the
end is read as a configuration, so a layer may hold a wrong value that a later one replaces. Letter
case plays no role in keys and words.

How a file or a variable is read and how a value is set under a key are rules of their own
(`LayerRules`). By the standard ones, files are read by the newer dialect, and numbers and truth
values are kept as the texts they are written as, since no word looks like one.
-/
namespace MetricWiring

namespace Yaml.Node

/-- Whether a plain scalar under a tag of the core schema is something else than a text. -/
def isTyped (tag : Option String) : Bool :=
  ["bool", "int", "float", "null"].any fun name => tag == some ("tag:yaml.org,2002:" ++ name)

/-- Infinity and the number that is none have no place in a layer. -/
def isUnboundedNumber (text : String) : Bool :=
  (["", "+", "-"].flatMap fun sign => [".inf", ".Inf", ".INF"].map (sign ++ ·)).contains text ||
    [".nan", ".NaN", ".NAN"].contains text

mutual

/-- The value that a node is in a layer. Entries whose keys are no texts are left out, and of
several entries under a key only the last one counts. -/
def toValue? : Node → Option Document
  | scalar tag plain text =>
    if !plain then some (.text text)
    else if isTyped tag then some .null
    else if tag.isSome then some (.text text)
    else if text = "" || text = "~" || text = "null" then some .null
    else if isUnboundedNumber text then none
    else some (.text text)
  | sequence _ items => (itemValues? items).map .list
  | mapping _ entries => (entryValues? entries).map .mapping

def itemValues? : List Node → Option (List Document)
  | [] => some []
  | item :: rest => do return (← item.toValue?) :: (← itemValues? rest)

def entryValues? : List (Node × Node) → Option (List (String × Document))
  | [] => some []
  | (key, value) :: rest => do
    match key.text? with
    | some name =>
      if rest.any fun entry => entry.1.text? == some name then entryValues? rest
      else return (name, ← value.toValue?) :: (← entryValues? rest)
    | none => entryValues? rest

end

end Yaml.Node

/-- A word is a text, or the only key of a mapping, in any letter case. -/
def WordRule.anyCase : WordRule
  | .text s => some (foldCase s)
  | .mapping [(key, _)] => some (foldCase key)
  | _ => none

/-- What one source says: values under their keys. -/
abbrev Layer := List (String × Document)

namespace Layer

/-- The layer in a text. -/
def ofText? (text : String) : Option Layer :=
  match Yaml.soleDocument? .yaml12 text with
  | some none => some []
  | some (some (.mapping _ entries)) => Yaml.Node.entryValues? entries
  | _ => none

/-- The text with a dot for every two underscores. -/
def dotted : List Char → List Char
  | [] => []
  | '_' :: '_' :: r => '.' :: dotted r
  | c :: r => c :: dotted r

/-- The key that a variable stands for, if its name begins as those of this program do. -/
def key? (variableName : String) : Option String :=
  ("metrics_naming__".toList.isPrefixOf? (foldCase variableName).toList).map fun r =>
    .ofList (dotted r)

/-- The value of a variable under a key. The order of sources has commas between its items. -/
def value (key text : String) : Document :=
  if key = "resolution_order" then
    .list ((text.toList.splitOn ',').map fun part => .text (.ofList part))
  else .text text

end Layer

/-- How files and variables become layers, and what setting a value under a key does to a document.
A configuration leaves this to a library. -/
structure LayerRules where
  /-- The text in the bytes of a file. -/
  text? : ByteArray → Option String
  /-- The layer in a text. -/
  layer? : String → Option Layer
  /-- The key that a variable stands for. -/
  key? : String → Option String
  /-- The value under a key that the text of a variable stands for. -/
  value (key text : String) : Document
  /-- The document after a value was set under a key. -/
  set (key : String) (value below : Document) : Document
  word : WordRule

def LayerRules.standard : LayerRules where
  text? := String.fromUTF8?
  layer? := Layer.ofText?
  key? := Layer.key?
  value := Layer.value
  set key value below := Document.write value (KeyPath.ofKey key) (some below)
  word := .anyCase

namespace Layer

/-- The layer that variables make up. -/
def ofEnvironment (rules : LayerRules) (environment : List (String × String)) : Layer :=
  environment.filterMap fun (name, text) =>
    (rules.key? name).map fun key => (key, rules.value key text)

/-- The document that is left when a layer is written over another. -/
def writeOver (rules : LayerRules) (below : Document) (layer : Layer) : Document :=
  layer.foldl (fun d entry => rules.set entry.1 entry.2 d) below

/-- The document that layers make up, later ones over earlier ones. -/
def merge (rules : LayerRules) (layers : List Layer) : Document :=
  layers.foldl (writeOver rules) (.mapping [])

end Layer

/-- What surrounds the program: the files that it finds and the variables that are set. -/
structure Surroundings where
  folder : Folder
  environment : List (String × String)

/-- The bytes of the file that a layer's path means: the file itself, or one with an ending added to
its name. -/
def Folder.layerFile? (folder : Folder) (path : String) : Option ByteArray :=
  let withEnding (ending : String) : Option ByteArray :=
    match (names path).reverse with
    | [] => none
    | last :: before =>
      if last = ".." then none
      else (folder.read ("/".intercalate (before.reverse ++ [last ++ ending]))).toOption
  ((folder.read path).toOption.orElse fun _ => withEnding ".yaml").orElse fun _ => withEnding ".yml"

/-- The text of the file that a layer's path means. -/
def LayerRules.fileText? (rules : LayerRules) (folder : Folder) (path : String) :
    Option String := do
  rules.text? (← folder.layerFile? path)

namespace NamingConfig

/-- The file that is read first, if there is one. -/
def standardFile : String := "metrics-naming.yaml"

/-- The variable that names a further file. -/
def fileVariable : String := "METRICS_NAMING_CONFIG"

/-- The layers that there are, from the lowest on: the standard file, the file at `path`, the file
that the variable names, and the variables. The standard file may be missing, or have no text. A
file that is asked for has to be there. -/
def layers? (rules : LayerRules) (s : Surroundings) (path : Option String) :
    Option (List Layer) := do
  let standard ← (rules.fileText? s.folder standardFile).toList.mapM rules.layer?
  let asked ← (path.toList ++ (s.environment.lookup fileVariable).toList).mapM fun path => do
    rules.layer? (← rules.fileText? s.folder path)
  return standard ++ asked ++ [Layer.ofEnvironment rules s.environment]

/-- The configuration that layers make up. -/
def ofLayers (rules : LayerRules) (layers : List Layer) : Except ConfigError NamingConfig :=
  match decode rules.word (Layer.merge rules layers) with
  | .error .malformed => .error .notLoaded
  | result => result

/-- Loads the configuration from all its sources. -/
def load (rules : LayerRules) (s : Surroundings) (path : Option String) :
    Except ConfigError NamingConfig :=
  match layers? rules s path with
  | some layers => ofLayers rules layers
  | none => .error .notLoaded

end NamingConfig

end MetricWiring
