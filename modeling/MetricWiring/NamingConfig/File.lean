import MetricWiring.NamingConfig
import MetricWiring.Yaml.Stream

/-!
# A configuration in one file

How a file is written is left to a `FileFormat`. The standard format is the older dialect, in which
every scalar is a text, however it looks, and a word may also be given as a tag without content.
-/
namespace MetricWiring

namespace Yaml.Node

/-- The name of a tag that no handle stands before. -/
def ownTag? (tag : Option String) : Option String :=
  match tag.map String.toList with
  | some ('!' :: c :: r) => some (.ofList (c :: r))
  | _ => none

/-- A scalar as a document: a text, unless nothing is written. Under a tag of its own it can also be
null. -/
def ofScalar (tag : Option String) (plain : Bool) (text : String) : Document :=
  match ownTag? tag with
  | some name =>
    .tagged name <|
      if plain && text = "" then .blank
      else if plain && ["~", "null", "Null", "NULL"].contains text then .null
      else .text text
  | none => if plain && text = "" then .blank else .text text

def underTag (tag : Option String) (d : Document) : Document :=
  match ownTag? tag with
  | some name => .tagged name d
  | none => d

mutual

/-- The document with all scalars as texts. Entries whose keys are no texts are left out. -/
def toTexts : Node → Document
  | scalar tag plain text => ofScalar tag plain text
  | sequence tag items => underTag tag (.list (textItems items))
  | mapping tag entries => underTag tag (.mapping (textEntries entries))

def textItems : List Node → List Document
  | [] => []
  | item :: rest => item.toTexts :: textItems rest

def textEntries : List (Node × Node) → List (String × Document)
  | [] => []
  | (key, value) :: rest =>
    match key.text? with
    | some name => (name, value.toTexts) :: textEntries rest
    | none => textEntries rest

end

/-- Whether the entries have texts for keys, if the node is a mapping. -/
def hasTextKeys : Node → Bool
  | mapping _ entries => entries.all fun entry => entry.1.text?.isSome
  | _ => true

end Yaml.Node

/-- A word is a text, or a tag without content. -/
def WordRule.orTag : WordRule
  | .text s => some s
  | .tagged tag content => if content.isNothing then some tag else none
  | _ => none

/-- How a text is read as a document, and how a document spells a word. -/
structure FileFormat where
  document? : String → Option Document
  word : WordRule

/-- The document in a text. A text without one is blank. -/
def Yaml.documentOfText? (text : String) : Option Document :=
  match soleDocument? .yaml11 text with
  | some (some root) => if root.hasTextKeys then some root.toTexts else none
  | some none => some .blank
  | none => none

def FileFormat.standard : FileFormat where
  document? := Yaml.documentOfText?
  word := .orTag

namespace NamingConfig

def ofText (format : FileFormat) (text : String) : Except ConfigError NamingConfig :=
  match format.document? text with
  | some d => decode format.word d
  | none => .error .malformed

/-- Reads the configuration in a file. -/
def fromFile (format : FileFormat) (folder : Folder) (path : String) :
    Except ConfigError NamingConfig :=
  match folder.readText path with
  | .ok text => ofText format text
  | .error e => .error (.unreadable path e)

end NamingConfig

end MetricWiring
