import MetricWiring.Attribute.DeclarationArguments
import MetricWiring.Code.Item

/-!
# Markers

A marker is an attribute whose path ends in the keyword of a kind. It declares a metric of that kind
on the method it stands on, and is taken off when the method is instrumented; all other attributes
stay. A method has at most one marker of each kind.
-/
namespace MetricWiring.Marker

open Code (Attribute MethodItem TokenTree)

/-- The kind that an attribute declares, if it is a marker. -/
def kind? (a : Attribute) : Option Kind :=
  match a.path.segments.getLast? with
  | some i => if i.raw then none else Kind.ofKeyword? i.name
  | none => none

/-- The arguments that a marker of the given kind is written with. -/
def written (k : Kind) (a : Attribute) : Except AttributeError DeclarationArguments :=
  match a.form with
  | .bare => .ok {}
  | .list _ content => DeclarationArguments.ofTrees content
  | .value _ => .error (.valuedMarker k)

/-- The arguments of a marker of the given kind, if they fit it. -/
def arguments (k : Kind) (a : Attribute) : Except AttributeError DeclarationArguments :=
  match written k a with
  | .ok args => args.check k.keyword
  | .error e => .error e

/-- The declarations of the markers in a list, added to those found before. -/
def collect (found : List (Kind × DeclarationArguments)) :
    List Attribute → Except AttributeError (List (Kind × DeclarationArguments))
  | [] => .ok found
  | a :: as =>
    match kind? a with
    | none => collect found as
    | some k =>
      match arguments k a with
      | .error e => .error e
      | .ok args =>
        if (found.map Prod.fst).contains k then .error .duplicateKind
        else collect (found ++ [(k, args)]) as

/-- The attributes that are no markers. -/
def remaining (as : List Attribute) : List Attribute := as.filter fun a => (kind? a).isNone

/-- The declarations of the markers in a list, and the attributes left without them. -/
def take (as : List Attribute) :
    Except AttributeError (List (Kind × DeclarationArguments) × List Attribute) :=
  match collect [] as with
  | .ok declarations => .ok (declarations, remaining as)
  | .error e => .error e

/-- Reads a method from a text and takes off its markers. -/
def parse (text : String) :
    Except AttributeError (List (Kind × DeclarationArguments) × List Attribute) :=
  match (TokenTree.read? text).bind MethodItem.ofTrees? with
  | some m => take m.attributes
  | none => .error .malformed

end MetricWiring.Marker
