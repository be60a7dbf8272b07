import MetricWiring.Attribute.Error
import MetricWiring.Code.Lexer
import MetricWiring.Code.Reader
import MetricWiring.Declaration

/-!
# The arguments of a declaration

What may stand in the parentheses of `timed(...)` and its like: a name, and two flags that can be
switched on or off. A comma may follow each argument. The last name and the last value of `absolute`
hold; `monotonic` holds once it has been switched on.
-/
namespace MetricWiring

open Code (Ident TokenTree)

inductive DeclarationArgument where
  | name (s : String)
  | absolute (on : Bool)
  | monotonic (on : Bool)
  deriving DecidableEq, Repr

/-- What the arguments of one declaration amount to. -/
structure DeclarationArguments where
  name : Option String := none
  absolute : Bool := false
  monotonic : Bool := false
  deriving DecidableEq, Repr, Inhabited

namespace DeclarationArgument

/-- The value of a flag, given what follows its word. -/
def flag : List TokenTree → Option (Bool × List TokenTree)
  | .punct '=' _ :: .ident i :: rest =>
    if i.isWord "true" then some (true, rest)
    else if i.isWord "false" then some (false, rest)
    else none
  | .punct '=' _ :: _ => none
  | rest => some (true, rest)

/-- The value of a name, given what follows its word. -/
def nameValue : List TokenTree → Option (String × List TokenTree)
  | .punct '=' _ :: .literal (.string value _) :: rest => some (value, rest)
  | _ => none

/-- Takes one argument, without the comma that may follow it. -/
def read : List TokenTree → Except AttributeError (DeclarationArgument × List TokenTree)
  | .ident i :: rest =>
    let found (value : Option (DeclarationArgument × List TokenTree)) :
        Except AttributeError (DeclarationArgument × List TokenTree) :=
      match value with
      | some v => .ok v
      | none => .error .malformed
    if i.isWord "name" then found ((nameValue rest).map fun v => (.name v.1, v.2))
    else if i.isWord "absolute" then found ((flag rest).map fun v => (.absolute v.1, v.2))
    else if i.isWord "monotonic" then found ((flag rest).map fun v => (.monotonic v.1, v.2))
    else if i.isName then .error .unknownArgument
    else .error .malformed
  | _ => .error .malformed

theorem length_flag {ts rest : List TokenTree} {b : Bool} (h : flag ts = some (b, rest)) :
    rest.length ≤ ts.length := by
  unfold flag at h
  split at h
  · split at h
    · simp only [Option.some.injEq, Prod.mk.injEq] at h
      simp [← h.2]
      omega
    · split at h
      · simp only [Option.some.injEq, Prod.mk.injEq] at h
        simp [← h.2]
        omega
      · simp at h
  · simp at h
  · simp only [Option.some.injEq, Prod.mk.injEq] at h
    simp [← h.2]

theorem length_nameValue {ts rest : List TokenTree} {s : String}
    (h : nameValue ts = some (s, rest)) : rest.length ≤ ts.length := by
  unfold nameValue at h
  split at h
  · simp only [Option.some.injEq, Prod.mk.injEq] at h
    simp [← h.2]
    omega
  · simp at h

/-- An argument takes at least its word. -/
theorem length_read {ts rest : List TokenTree} {a : DeclarationArgument}
    (h : read ts = .ok (a, rest)) : rest.length < ts.length := by
  unfold read at h
  split at h
  · rename_i i tail
    simp only at h
    split at h
    · cases hv : nameValue tail with
      | none => simp [hv] at h
      | some v =>
        simp only [hv, Option.map_some, Except.ok.injEq, Prod.mk.injEq] at h
        have := length_nameValue hv
        simp [← h.2]
        omega
    · split at h
      · cases hv : flag tail with
        | none => simp [hv] at h
        | some v =>
          simp only [hv, Option.map_some, Except.ok.injEq, Prod.mk.injEq] at h
          have := length_flag hv
          simp [← h.2]
          omega
      · split at h
        · cases hv : flag tail with
          | none => simp [hv] at h
          | some v =>
            simp only [hv, Option.map_some, Except.ok.injEq, Prod.mk.injEq] at h
            have := length_flag hv
            simp [← h.2]
            omega
        · split at h <;> simp at h
  · simp at h

/-- Takes arguments to the end of the list. -/
def readAll (ts : List TokenTree) : Except AttributeError (List DeclarationArgument) :=
  if ts.isEmpty then .ok []
  else
    match _h : read ts with
    | .ok (a, rest) => (readAll (Code.skipSign ',' rest)).map (a :: ·)
    | .error e => .error e
termination_by ts.length
decreasing_by
  have := length_read _h
  have := (Code.skipSign_suffix ',' rest).length_le
  omega

end DeclarationArgument

namespace DeclarationArguments

/-- What the arguments amount to with one more of them. -/
def add (args : DeclarationArguments) : DeclarationArgument → DeclarationArguments
  | .name s => { args with name := some s }
  | .absolute on => { args with absolute := on }
  | .monotonic on => { args with monotonic := args.monotonic || on }

def ofList (given : List DeclarationArgument) : DeclarationArguments := given.foldl add {}

/-- Reads the arguments that take all of the trees. -/
def ofTrees (ts : List TokenTree) : Except AttributeError DeclarationArguments :=
  (DeclarationArgument.readAll ts).map ofList

/-- Only the declaration of the given word can be monotonic. -/
def check (args : DeclarationArguments) (word : String) :
    Except AttributeError DeclarationArguments :=
  if args.monotonic && word != Kind.counted.keyword then .error .misplacedMonotonic else .ok args

/-- Reads arguments from a text. -/
def parse (text : String) : Except AttributeError DeclarationArguments :=
  match TokenTree.read? text with
  | some ts => ofTrees ts
  | none => .error .malformed

end DeclarationArguments

end MetricWiring
