/-!
# Dialects of YAML

Readers of YAML agree on the grammar and differ at its edges, above all since version 1.2 of the
language was written down. A dialect says on which side of each edge a reader stands.
-/
namespace MetricWiring.Yaml

structure Dialect where
  /-- Control characters may not stand in a text. -/
  printableOnly : Bool
  /-- Tabs may stand before the first token of a line. -/
  leadingTabs : Bool
  /-- A comment may follow a token with no blank between. -/
  gluedComments : Bool
  /-- The value of an entry may not stand behind tabs alone. -/
  spacedValues : Bool
  /-- An entry in brackets may lack its key, and its colon may stand right before a bracket. -/
  bareEntries : Bool
  /-- What stands in brackets is indented like the block around it. -/
  indentedBrackets : Bool
  /-- The last line of a block of text is closed even where the text ends without a line end. -/
  closedBlocks : Bool
  /-- Anchors may have any name. -/
  freeAnchors : Bool
  /-- Directives that are not known are passed over, as is the version that a text asks for. -/
  freeDirectives : Bool
  /-- A document may be ended before one has begun. -/
  idleEnds : Bool
  deriving DecidableEq, Repr

namespace Dialect

def yaml11 : Dialect where
  printableOnly := true
  leadingTabs := false
  gluedComments := true
  spacedValues := false
  bareEntries := false
  indentedBrackets := false
  closedBlocks := false
  freeAnchors := false
  freeDirectives := false
  idleEnds := false

def yaml12 : Dialect where
  printableOnly := false
  leadingTabs := true
  gluedComments := false
  spacedValues := true
  bareEntries := true
  indentedBrackets := true
  closedBlocks := true
  freeAnchors := true
  freeDirectives := true
  idleEnds := true

end Dialect

end MetricWiring.Yaml
