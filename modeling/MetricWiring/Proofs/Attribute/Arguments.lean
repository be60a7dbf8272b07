import Mathlib.Data.List.Nodup
import MetricWiring.Attribute.TypeArguments

/-!
# What a list of arguments amounts to

Reading a list of arguments to its end and adding them up are two steps: the arguments as they are
written (`DeclarationArgument.readAll`, `TypeArgument.Written`), and what they come to. Of a
repeated namespace or parent the last one holds, kinds are declared once, and a declaration is
monotonic once any of its arguments says so.
-/
namespace MetricWiring

open Code (TokenTree TypeReader TypeSyntax)

/-- If no word is repeated, the last value of a word is the only one. -/
theorem getLast?_filterMap_eq_some_iff {α β : Type} {word : α → String} {value? : α → Option β}
    {make : β → α} {given : List α} {b : β} (hvalue : ∀ a b, value? a = some b ↔ a = make b)
    (hword : ∀ b b', word (make b) = word (make b')) (hnodup : (given.map word).Nodup) :
    (given.filterMap value?).getLast? = some b ↔ make b ∈ given := by
  have hmem : ∀ b, b ∈ given.filterMap value? ↔ make b ∈ given := by
    intro b
    simp only [List.mem_filterMap, hvalue, exists_eq_right]
  constructor
  · intro h
    exact (hmem b).1 (List.mem_of_getLast? h)
  · intro h
    have hne : given.filterMap value? ≠ [] := List.ne_nil_of_mem ((hmem b).2 h)
    rw [List.getLast?_eq_some_getLast hne]
    have hlast := (hmem _).1 (List.getLast_mem hne)
    have hsame := List.inj_on_of_nodup_map hnodup hlast h (hword _ _)
    rwa [← hvalue, (hvalue _ _).2 rfl] at hsame

namespace DeclarationArgument

theorem readAll_nil : readAll [] = .ok [] := by
  rw [readAll]
  rfl

theorem readAll_of_read_eq_ok {ts rest : List TokenTree} {a : DeclarationArgument}
    (h : read ts = .ok (a, rest)) :
    readAll ts = (readAll (Code.skipSign ',' rest)).map (a :: ·) := by
  have hne : ¬ ts.isEmpty = true := by
    rw [List.isEmpty_iff]
    rintro rfl
    cases h
  rw [readAll, if_neg hne]
  split
  · rename_i hread
    rw [h] at hread
    cases hread
    rfl
  · rename_i hread
    rw [h] at hread
    cases hread

theorem readAll_of_read {ts rest : List TokenTree} {a : DeclarationArgument}
    {given : List DeclarationArgument} (h : read ts = .ok (a, rest))
    (hrest : readAll (Code.skipSign ',' rest) = .ok given) : readAll ts = .ok (a :: given) := by
  rw [readAll_of_read_eq_ok h, hrest]
  rfl

theorem readAll_of_read_eq_error {ts : List TokenTree} {e : AttributeError} (hne : ts ≠ [])
    (h : read ts = .error e) : readAll ts = .error e := by
  rw [readAll, if_neg (by rwa [List.isEmpty_iff])]
  split
  · rename_i hread
    rw [h] at hread
    cases hread
  · rename_i hread
    rw [h] at hread
    cases hread
    rfl

end DeclarationArgument

attribute [ext] DeclarationArguments

namespace DeclarationArguments

theorem ofTrees_eq_ok_iff {ts : List TokenTree} {args : DeclarationArguments} :
    ofTrees ts = .ok args ↔
      ∃ given, DeclarationArgument.readAll ts = .ok given ∧ args = ofList given := by
  rw [ofTrees]
  cases DeclarationArgument.readAll ts <;> simp [Except.map, eq_comm]

theorem ofTrees_eq_error_iff {ts : List TokenTree} {e : AttributeError} :
    ofTrees ts = .error e ↔ DeclarationArgument.readAll ts = .error e := by
  rw [ofTrees]
  cases DeclarationArgument.readAll ts <;> simp [Except.map]

theorem monotonic_foldl_add (args : DeclarationArguments) (given : List DeclarationArgument) :
    (given.foldl add args).monotonic = true ↔
      args.monotonic = true ∨ .monotonic true ∈ given := by
  induction given generalizing args with
  | nil => simp
  | cons a given ih =>
    rw [List.foldl_cons, ih, List.mem_cons]
    cases a with
    | name s => simp [add]
    | absolute on => simp [add]
    | monotonic on => cases on <;> simp [add]

theorem monotonic_ofList_iff {given : List DeclarationArgument} :
    (ofList given).monotonic = true ↔ .monotonic true ∈ given := by
  simp [ofList, monotonic_foldl_add]

theorem check_of_imp {args : DeclarationArguments} {k : Kind}
    (h : args.monotonic = true → k = .counted) : args.check k.keyword = .ok args := by
  rw [check, if_neg]
  intro hboth
  rw [Bool.and_eq_true] at hboth
  obtain ⟨hon, hword⟩ := hboth
  rw [h hon] at hword
  simp at hword

theorem check_of_ne {args : DeclarationArguments} {k : Kind} (hon : args.monotonic = true)
    (hk : k ≠ .counted) : args.check k.keyword = .error .misplacedMonotonic := by
  have hword : k.keyword ≠ Kind.counted.keyword := fun h => hk (Kind.keyword_injective h)
  rw [check, if_pos]
  simp [hon, hword]

end DeclarationArguments

namespace TypeArgument

/-- The arguments that stand in a list of trees, with a comma behind each of them or none. -/
inductive Written (types : TypeReader) : List TokenTree → List TypeArgument → Prop
  | nil : Written types [] []
  | cons {ts rest : List TokenTree} {a : TypeArgument} {given : List TypeArgument} :
      read types ts = .ok (a, rest) → Written types (Code.skipSign ',' rest) given →
        Written types ts (a :: given)

theorem Written.unique {types : TypeReader} {ts : List TokenTree}
    {given given' : List TypeArgument} (h : Written types ts given)
    (h' : Written types ts given') : given = given' := by
  induction h generalizing given' with
  | nil =>
    cases h' with
    | nil => rfl
    | cons hread _ => cases hread
  | cons hread _ ih =>
    cases h' with
    | nil => cases hread
    | cons hread' hrest =>
      rw [hread] at hread'
      cases hread'
      rw [ih hrest]

def space? : TypeArgument → Option String
  | space s => some s
  | _ => none

def parent? : TypeArgument → Option TypeSyntax
  | parent t => some t
  | _ => none

def declaration? : TypeArgument → Option (Kind × DeclarationArguments)
  | declaration k args => some (k, args)
  | _ => none

end TypeArgument

namespace TypeArguments

theorem readFrom_nil (types : TypeReader) (args : TypeArguments) :
    readFrom types args [] = .ok args := by
  rw [readFrom]
  rfl

theorem readFrom_of_read {types : TypeReader} {before args : TypeArguments}
    {ts rest : List TokenTree} {a : TypeArgument} (h : TypeArgument.read types ts = .ok (a, rest))
    (hadd : before.add a = .ok args) :
    readFrom types before ts = readFrom types args (Code.skipSign ',' rest) := by
  have hne : ¬ ts.isEmpty = true := by
    rw [List.isEmpty_iff]
    rintro rfl
    cases h
  rw [readFrom, if_neg hne]
  split
  · rename_i hread
    rw [h] at hread
    cases hread
  · rename_i hread
    rw [h] at hread
    cases hread
    rw [hadd]

/-- The arguments are what one has after those in `before` and the given ones. -/
structure SumsUp (before : TypeArguments) (given : List TypeArgument) (args : TypeArguments) :
    Prop where
  space : args.space = (given.filterMap TypeArgument.space?).getLast?.or before.space
  parent : args.parent = (given.filterMap TypeArgument.parent?).getLast?.or before.parent
  declarations :
    args.declarations = before.declarations ++ given.filterMap TypeArgument.declaration?
  nodup : before.kinds.Nodup → args.kinds.Nodup

theorem SumsUp.nil (args : TypeArguments) : SumsUp args [] args where
  space := by simp
  parent := by simp
  declarations := by simp
  nodup := id

theorem SumsUp.cons {before args args' : TypeArguments} {a : TypeArgument}
    {given : List TypeArgument} (ha : before.add a = .ok args) (h : SumsUp args given args') :
    SumsUp before (a :: given) args' := by
  cases a with
  | space s =>
    cases ha
    refine ⟨?_, h.parent, h.declarations, h.nodup⟩
    simp [h.space, TypeArgument.space?, List.getLast?_cons, Option.or_some]
  | parent t =>
    cases ha
    refine ⟨h.space, ?_, h.declarations, h.nodup⟩
    simp [h.parent, TypeArgument.parent?, List.getLast?_cons]
  | declaration k d =>
    rw [add] at ha
    split at ha
    · cases ha
    · rename_i hk
      cases ha
      refine ⟨h.space, h.parent, ?_, ?_⟩
      · simp [h.declarations, TypeArgument.declaration?]
      · intro hbefore
        apply h.nodup
        rw [kinds, List.map_append, List.map_cons, List.map_nil, ← List.concat_eq_append]
        exact List.Nodup.concat (by simpa [kinds] using hk) hbefore

theorem sumsUp_of_readFrom {types : TypeReader} {before args : TypeArguments} {ts : List TokenTree}
    (h : readFrom types before ts = .ok args) :
    ∃ given, TypeArgument.Written types ts given ∧ SumsUp before given args := by
  fun_induction readFrom types before ts with
  | case1 before ts hempty =>
    cases h
    rw [List.isEmpty_iff] at hempty
    exact ⟨[], hempty ▸ .nil, .nil args⟩
  | case2 | case3 => cases h
  | case4 before ts hempty a rest hread after hadd ih =>
    obtain ⟨given, hwritten, hsum⟩ := ih h
    exact ⟨a :: given, .cons hread hwritten, hsum.cons hadd⟩

end TypeArguments

end MetricWiring
