/-!
# Documents

A document is data as a configuration format gives it: texts, lists and mappings, with a few forms
that a configuration has no use for but has to recognise in order to refuse them.
-/
namespace MetricWiring

inductive Document where
  | null
  /-- Nothing was written where something could stand. -/
  | blank
  | boolean (b : Bool)
  | number (digits : String)
  | text (s : String)
  | list (items : List Document)
  | mapping (entries : List (String × Document))
  /-- Content under a tag. -/
  | tagged (tag : String) (content : Document)
  deriving Repr, Inhabited

namespace Document

/-- Whether the document stands for no value. -/
def isNothing : Document → Bool
  | null => true
  | blank => true
  | _ => false

/-- The document without the tags around it. -/
def untagged : Document → Document
  | tagged _ content => content.untagged
  | d => d

/-- The values of all entries under a key, in their order. -/
def valuesAt (key : String) (entries : List (String × Document)) : List Document :=
  (entries.filter fun e => e.1 == key).map Prod.snd

mutual

/-- Whether two documents are the same. -/
def same : Document → Document → Bool
  | null, null => true
  | blank, blank => true
  | boolean a, boolean b => a == b
  | number a, number b => a == b
  | text a, text b => a == b
  | list as, list bs => sameItems as bs
  | mapping as, mapping bs => sameEntries as bs
  | tagged s a, tagged t b => s == t && same a b
  | _, _ => false

def sameItems : List Document → List Document → Bool
  | [], [] => true
  | a :: as, b :: bs => same a b && sameItems as bs
  | _, _ => false

def sameEntries : List (String × Document) → List (String × Document) → Bool
  | [], [] => true
  | (k, a) :: as, (l, b) :: bs => k == l && same a b && sameEntries as bs
  | _, _ => false

end

mutual

theorem same_iff (a b : Document) : same a b ↔ a = b := by
  cases a <;> cases b <;> simp [same, same_iff, sameItems_iff, sameEntries_iff]

theorem sameItems_iff (as bs : List Document) : sameItems as bs ↔ as = bs := by
  cases as <;> cases bs <;> simp [sameItems, same_iff, sameItems_iff]

theorem sameEntries_iff (as bs : List (String × Document)) : sameEntries as bs ↔ as = bs := by
  cases as <;> cases bs <;> simp [sameEntries, same_iff, sameEntries_iff, Prod.ext_iff]

end

instance : DecidableEq Document := fun a b => decidable_of_iff _ (same_iff a b)

end Document

end MetricWiring
