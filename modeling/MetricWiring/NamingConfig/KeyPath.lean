import MetricWiring.Document

/-!
# Paths into a document

A key of a layer is a path: names with dots between and positions in square brackets. Writing along
a path makes what is missing on the way. Names are kept in small letters, so that a value is found
however its key was spelled.
-/
namespace MetricWiring

/-- The text with the letters A to Z made small. That is enough to compare it with the names and
words of a configuration, which have no other letters. -/
def foldCase (s : String) : String := .ofList (s.toList.map Char.toLower)

/-- A step into a document. Positions below zero count from the end. -/
inductive Step where
  | key (name : String)
  | position (i : Int)
  deriving DecidableEq, Repr

abbrev KeyPath := List Step

namespace KeyPath

def isNameSign (c : Char) : Bool := c.isAlphanum || c == '_' || c == '-' || c == ' '

/-- A name, and what follows it. -/
def name? (cs : List Char) : Option (Step × List Char) :=
  let name := cs.takeWhile isNameSign
  if name.isEmpty then none else some (.key (.ofList name), cs.dropWhile isNameSign)

/-- A position behind its opening bracket, and what follows the closing one. -/
def position? (cs : List Char) : Option (Step × List Char) :=
  let cs := cs.dropWhile (· == ' ')
  let negative := cs.head? == some '-'
  let cs := if negative then cs.drop 1 else cs
  let digits := cs.takeWhile Char.isDigit
  match (cs.dropWhile Char.isDigit).dropWhile (· == ' ') with
  | ']' :: rest =>
    if digits.isEmpty then none
    else
      let n := digits.foldl (fun n c => 10 * n + (c.toNat - '0'.toNat)) 0
      some (.position (if negative then -(n : Int) else n), rest)
  | _ => none

/-- The further steps of a path. -/
def further? : Nat → List Char → Option KeyPath
  | _, [] => some []
  | 0, _ :: _ => none
  | n + 1, c :: r => do
    let (step, rest) ← if c = '.' then name? r else if c = '[' then position? r else none
    return step :: (← further? n rest)

/-- The path that a key stands for. A key that is no path is a name as it stands. -/
def ofKey (key : String) : KeyPath :=
  match name? key.toList with
  | some (step, rest) =>
    match further? rest.length rest with
    | some steps => step :: steps
    | none => [.key key]
  | none => [.key key]

end KeyPath

namespace Document

def entries : Document → List (String × Document)
  | mapping es => es
  | _ => []

def items : Document → List Document
  | list ds => ds
  | _ => []

/-- Changes the value under a key, which is added if it is missing. -/
def alter (key : String) (f : Option Document → Document) :
    List (String × Document) → List (String × Document)
  | [] => [(key, f none)]
  | (k, d) :: rest => if k = key then (k, f (some d)) :: rest else (k, d) :: alter key f rest

/-- Changes the value at a position. A list that is too short is filled up with nulls. -/
def alterAt (f : Document → Document) : Nat → List Document → List Document
  | 0, [] => [f .null]
  | 0, d :: ds => f d :: ds
  | n + 1, [] => .null :: alterAt f n []
  | n + 1, d :: ds => d :: alterAt f n ds

/-- The place in a list of the given length that a position means. -/
def place (length : Nat) (i : Int) : Nat := if i < 0 then length - i.natAbs else i.natAbs

@[simp] theorem lookup_alter_self (key : String) (f : Option Document → Document)
    (es : List (String × Document)) :
    (alter key f es).lookup key = some (f (es.lookup key)) := by
  induction es with
  | nil => simp [alter]
  | cons e es ih =>
    obtain ⟨k, d⟩ := e
    by_cases h : k = key
    · subst h
      simp [alter]
    · have h' : (key == k) = false := beq_eq_false_iff_ne.2 (Ne.symm h)
      simp [alter, h, List.lookup_cons, h', ih]

theorem lookup_alter_of_ne {key other : String} (f : Option Document → Document)
    (es : List (String × Document)) (h : other ≠ key) :
    (alter key f es).lookup other = es.lookup other := by
  induction es with
  | nil => simp [alter, List.lookup_cons, beq_eq_false_iff_ne.2 h]
  | cons e es ih =>
    obtain ⟨k, d⟩ := e
    by_cases hk : k = key
    · subst hk
      simp [alter, List.lookup_cons, beq_eq_false_iff_ne.2 h]
    · simp [alter, hk, List.lookup_cons, ih]

mutual

/-- What a new value leaves of an old one: a mapping adds its entries to those of the old value, and
any other value takes its place. -/
def overwrite (old : Option Document) : Document → Document
  | mapping new =>
    match new with
    | [] => old.getD (mapping [])
    | new => mapping (overwriteEntries ((old.map entries).getD []) new)
  | d => d

def overwriteEntries (old : List (String × Document)) :
    List (String × Document) → List (String × Document)
  | [] => old
  | (key, d) :: rest =>
    overwriteEntries (alter (foldCase key) (fun old => overwrite old d) old) rest

end

@[simp] theorem overwrite_text (old : Option Document) (s : String) :
    overwrite old (text s) = text s := by simp [overwrite]

@[simp] theorem overwrite_list (old : Option Document) (ds : List Document) :
    overwrite old (list ds) = list ds := by simp [overwrite]

/-- The document after a value was written at the end of a path. -/
def write (value : Document) : KeyPath → Option Document → Document
  | [], old => overwrite old value
  | .key name :: path, old =>
    mapping (alter (foldCase name) (write value path) ((old.map entries).getD []))
  | .position i :: path, old =>
    let ds := (old.map items).getD []
    list (alterAt (fun d => if path.isEmpty then value else write value path (some d))
      (place ds.length i) ds)

@[simp] theorem entries_write_key (value d : Document) (name : String) :
    (write value [.key name] (some d)).entries =
      alter (foldCase name) (fun old => overwrite old value) d.entries := by
  simp [write, entries]

end Document

end MetricWiring
