import MetricWiring.Code.TypeExtent

/-!
# Readers of types

Arguments can hold types. What they are read with is left open: any reader will do that takes a type
as it is written.
-/
namespace MetricWiring.Code

structure TypeReader where
  read : Reader TypeSyntax
  /-- A type takes its own trees from the front of a list. -/
  tokens : ∀ {ts rest : List TokenTree} {t : TypeSyntax},
    read ts = some (t, rest) → ts = t.tokens ++ rest

namespace TypeReader

/-- The reader that attributes are read with. -/
def standard : TypeReader := ⟨typeSyntax, tokens_of_typeSyntax⟩

end TypeReader

end MetricWiring.Code
