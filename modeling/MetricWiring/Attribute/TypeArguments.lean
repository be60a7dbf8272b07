import MetricWiring.Attribute.DeclarationArguments
import MetricWiring.Code.TypeReader

/-!
# The arguments of an instrumented type

What may stand in the parentheses of `instrumented(...)`: a namespace, a parent type, and
declarations that hold for all methods of the type, each kind at most once. A comma may follow each
argument; the last namespace and the last parent hold. Parents are read with any reader of types.
-/
namespace MetricWiring

open Code (Ident TokenTree TypeReader TypeSyntax)

inductive TypeArgument where
  | space (s : String)
  | parent (t : TypeSyntax)
  | declaration (k : Kind) (args : DeclarationArguments)
  deriving Repr

/-- What the arguments of one type amount to. -/
structure TypeArguments where
  space : Option String := none
  parent : Option TypeSyntax := none
  /-- The declarations, in the order in which they are written. -/
  declarations : List (Kind × DeclarationArguments) := []
  deriving Repr, Inhabited

namespace TypeArgument

/-- The namespace, given what follows its word. -/
def spaceValue (ts : List TokenTree) : Except AttributeError (TypeArgument × List TokenTree) :=
  match DeclarationArgument.nameValue ts with
  | some (value, rest) => if value = "" then .error .emptyNamespace else .ok (.space value, rest)
  | none => .error .malformed

theorem length_spaceValue {ts rest : List TokenTree} {a : TypeArgument}
    (h : spaceValue ts = .ok (a, rest)) : rest.length ≤ ts.length := by
  unfold spaceValue at h
  split at h
  · rename_i hvalue
    split at h
    · cases h
    · cases h
      exact DeclarationArgument.length_nameValue hvalue
  · cases h

/-- The parent, given what follows its word. -/
def parentValue (types : TypeReader) :
    List TokenTree → Except AttributeError (TypeArgument × List TokenTree)
  | .punct '=' _ :: rest =>
    match types.read rest with
    | some (t, rest) => .ok (.parent t, rest)
    | none => .error .malformed
  | _ => .error .malformed

theorem length_parentValue {types : TypeReader} {ts rest : List TokenTree} {a : TypeArgument}
    (h : parentValue types ts = .ok (a, rest)) : rest.length ≤ ts.length := by
  unfold parentValue at h
  split at h
  · split at h
    · rename_i tail t left htype
      cases h
      rw [types.tokens htype, List.length_cons, List.length_append]
      omega
    · cases h
  · cases h

/-- The arguments of a declaration, if parentheses follow. -/
def optionalArguments :
    List TokenTree → Except AttributeError (DeclarationArguments × List TokenTree)
  | .group .parenthesis content :: rest => (DeclarationArguments.ofTrees content).map (·, rest)
  | ts => .ok ({}, ts)

theorem length_optionalArguments {ts rest : List TokenTree} {args : DeclarationArguments}
    (h : optionalArguments ts = .ok (args, rest)) : rest.length ≤ ts.length := by
  unfold optionalArguments at h
  split at h
  · rename_i content tail
    cases hcontent : DeclarationArguments.ofTrees content with
    | error e =>
      rw [hcontent] at h
      cases h
    | ok args =>
      rw [hcontent] at h
      cases h
      exact Nat.le_succ _
  · cases h
    exact Nat.le_refl _

/-- A declaration of the given kind, given what follows its keyword. -/
def declarationValue (k : Kind) (ts : List TokenTree) :
    Except AttributeError (TypeArgument × List TokenTree) :=
  match optionalArguments ts with
  | .error e => .error e
  | .ok (args, rest) =>
    match args.check k.keyword with
    | .error e => .error e
    | .ok args => .ok (.declaration k args, rest)

theorem length_declarationValue {k : Kind} {ts rest : List TokenTree} {a : TypeArgument}
    (h : declarationValue k ts = .ok (a, rest)) : rest.length ≤ ts.length := by
  unfold declarationValue at h
  split at h
  · cases h
  · rename_i args left hargs
    split at h
    · cases h
    · cases h
      exact length_optionalArguments hargs

/-- Takes one argument, without the comma that may follow it. Keywords are words here as well. -/
def read (types : TypeReader) :
    List TokenTree → Except AttributeError (TypeArgument × List TokenTree)
  | .ident i :: rest =>
    if i.isWord "namespace" then spaceValue rest
    else if i.isWord "parent" then parentValue types rest
    else
      match if i.raw then none else Kind.ofKeyword? i.name with
      | some k => declarationValue k rest
      | none => .error .unknownArgument
  | _ => .error .malformed

/-- An argument takes at least its word. -/
theorem length_read {types : TypeReader} {ts rest : List TokenTree} {a : TypeArgument}
    (h : read types ts = .ok (a, rest)) : rest.length < ts.length := by
  unfold read at h
  split at h
  · rw [List.length_cons]
    apply Nat.lt_succ_of_le
    split at h
    · exact length_spaceValue h
    · split at h
      · exact length_parentValue h
      · split at h
        · exact length_declarationValue h
        · cases h
  · cases h

end TypeArgument

namespace TypeArguments

def kinds (args : TypeArguments) : List Kind := args.declarations.map Prod.fst

/-- What the arguments amount to with one more of them. A kind is declared once. -/
def add (args : TypeArguments) : TypeArgument → Except AttributeError TypeArguments
  | .space s => .ok { args with space := some s }
  | .parent t => .ok { args with parent := some t }
  | .declaration k given =>
    if args.kinds.contains k then .error .duplicateKind
    else .ok { args with declarations := args.declarations ++ [(k, given)] }

/-- Reads further arguments to the end of the list. -/
def readFrom (types : TypeReader) (args : TypeArguments) (ts : List TokenTree) :
    Except AttributeError TypeArguments :=
  if ts.isEmpty then .ok args
  else
    match _h : TypeArgument.read types ts with
    | .error e => .error e
    | .ok (a, rest) =>
      match args.add a with
      | .error e => .error e
      | .ok args => readFrom types args (Code.skipSign ',' rest)
termination_by ts.length
decreasing_by
  have := TypeArgument.length_read _h
  have := (Code.skipSign_suffix ',' rest).length_le
  omega

/-- Reads the arguments that take all of the trees. -/
def ofTrees (types : TypeReader) (ts : List TokenTree) : Except AttributeError TypeArguments :=
  readFrom types {} ts

/-- Reads arguments from a text. -/
def parse (text : String) : Except AttributeError TypeArguments :=
  match TokenTree.read? text with
  | some ts => ofTrees .standard ts
  | none => .error .malformed

end TypeArguments

end MetricWiring
