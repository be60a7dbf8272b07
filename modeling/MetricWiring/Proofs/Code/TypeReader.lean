import MetricWiring.Code.TypeReader
import MetricWiring.Proofs.Code.SingleSegment

/-!
# What is relied on of readers of types

Little has to be known of how types are read. That what stands behind a comma is no part of a type
(`StopsAtCommas`) lets arguments be written without regard to each other; that groups behind a type
are not looked into (`SeesBrackets`) lets the arguments of a declaration change places behind one;
and where a path has one segment, that must be the name in front (`NamesSegment`). The standard
reader does all this.
-/
namespace MetricWiring.Code

namespace TypeReader

/-- A type is the same whether a comma follows, with anything behind it, or the end of the list.
Other trees that are no part of it may stand before. -/
def StopsAtCommas (types : TypeReader) : Prop :=
  ∀ (type after : List TokenTree) (t : TypeSyntax) (stop stop' : Stop),
    types.read (type ++ (after ++ stop.trees)) = some (t, after ++ stop.trees) →
      types.read (type ++ (after ++ stop'.trees)) = some (t, after ++ stop'.trees)

/-- Of groups that follow a type only the brackets matter. -/
def SeesBrackets (types : TypeReader) : Prop :=
  ∀ (type after after' : List TokenTree) (t : TypeSyntax), Alike after.length after after' →
    types.read (type ++ after) = some (t, after) → types.read (type ++ after') = some (t, after')

/-- A path of one segment that begins with a name has that name for its segment. -/
def NamesSegment (types : TypeReader) : Prop :=
  ∀ (i : Ident) (ts rest : List TokenTree) (t : TypeSyntax) (p : PathShape), i.isName = true →
    types.read (.ident i :: ts) = some (t, rest) → t.shape = .path p → p.segments = 1 → p.last = i

theorem standard_stopsAtCommas : standard.StopsAtCommas := by
  intro type after t stop stop' htype
  rw [← List.append_assoc] at htype ⊢
  rcases typeSyntax_lasts stop stop' (type ++ after) t _ htype with
    hless | ⟨left, _, hleft, hread⟩
  · rw [List.length_append] at hless
    omega
  · obtain rfl := (List.append_left_inj stop.trees).1 hleft
    exact hread

theorem standard_seesBrackets : standard.SeesBrackets :=
  fun _ _ _ _ halike htype => typeSyntax_of_alike halike htype

theorem standard_namesSegment : standard.NamesSegment := by
  intro i ts rest t p hi htype hpath hone
  have hread := (typeSyntax_eq_some_iff.1 htype).1
  rw [hpath] at hread
  exact last_of_readType hi hread hone

end TypeReader

/-- A type that is a path of one segment: an identifier, with the given arguments behind it. -/
structure SingleSegment (types : TypeReader) (i : Ident) (arguments : List TokenTree)
    (t : TypeSyntax) : Prop where
  isName : i.isName = true
  tokens : t.tokens = .ident i :: arguments
  read : ∃ after, types.read (t.tokens ++ after) = some (t, after)
  path : ∃ p, t.shape = .path p ∧ p.segments = 1

theorem SingleSegment.lastSegment {types : TypeReader} {i : Ident} {arguments : List TokenTree}
    {t : TypeSyntax} (htypes : types.NamesSegment) (h : SingleSegment types i arguments t) :
    t.lastSegment = some i := by
  obtain ⟨after, hread⟩ := h.read
  obtain ⟨p, hpath, hone⟩ := h.path
  rw [h.tokens, List.cons_append] at hread
  have hlast := htypes i (arguments ++ after) after t p h.isName hread hpath hone
  rw [TypeSyntax.lastSegment, hpath, ← hlast]

end MetricWiring.Code
