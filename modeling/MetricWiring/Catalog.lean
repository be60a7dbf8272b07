import MetricWiring.Event
import MetricWiring.NameTable
import MetricWiring.TypeInfo

/-!
# The catalog of types

Types by name. The first type of a name stays; a later one of the same name is reported and left
out.
-/
namespace MetricWiring

abbrev Catalog := NameTable TypeInfo

namespace Catalog

/-- The outcome of an insertion: whether the type was added, the catalog afterwards and what was
reported. -/
structure Insertion where
  added : Bool
  catalog : Catalog
  events : List Event

def add (c : Catalog) (t : TypeInfo) : Insertion :=
  if c.contains t.fullName then ⟨false, c, [.alreadyCatalogued t.fullName]⟩
  else ⟨true, c.insert t.fullName t, []⟩

/-- The catalog of the given types, in which the first one of each name stays. -/
def ofTypes (types : List TypeInfo) : Catalog :=
  types.foldl (fun c t => (c.add t).catalog) .empty

end Catalog

end MetricWiring
