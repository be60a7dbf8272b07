import MetricWiring.Code.Character
import MetricWiring.Code.Progress

/-!
# String literals

The characters behind the opening quote of a literal, read up to the closing one. Escapes are
replaced by what they stand for, a line end behind a backslash is skipped together with the white
space after it, and a carriage return may only stand before a line feed.
-/
namespace MetricWiring.Code

/-- The sorts of literal with escapes. They differ in which characters they can hold. -/
inductive StringSort where
  | text
  | bytes
  /-- Text without the null character. -/
  | nullFree
  deriving DecidableEq, Repr

def hexDigit? (c : Char) : Option Nat :=
  if c.isDigit then some (c.toNat - '0'.toNat)
  else if 'a' ≤ c ∧ c ≤ 'f' then some (c.toNat - 'a'.toNat + 10)
  else if 'A' ≤ c ∧ c ≤ 'F' then some (c.toNat - 'A'.toNat + 10)
  else none

namespace StringSort

/-- Whether the sort can hold a character written as itself. -/
def admits : StringSort → Char → Bool
  | text, _ => true
  | bytes, c => c.toNat < 128
  | nullFree, c => c.toNat != 0

/-- Whether the sort can hold a character written by two hexadecimal digits. -/
def admitsCode : StringSort → Nat → Bool
  | text, n => n < 128
  | bytes, _ => true
  | nullFree, n => n != 0

end StringSort

/-- The rest of an escape by code point: up to six hexadecimal digits before the closing brace. -/
def codePoint (value digits : Nat) : List Char → Option (Char × List Char)
  | [] => none
  | c :: r =>
    if c = '\x7d' then
      if digits ≠ 0 ∧ value.isValidChar then some (Char.ofNat value, r) else none
    else if c = '_' then
      if digits = 0 then none else codePoint value digits r
    else
      match hexDigit? c with
      | some d => if digits = 6 then none else codePoint (value * 16 + d) (digits + 1) r
      | none => none

theorem codePoint_leaves (value digits : Nat) (cs : List Char) :
    Leaves cs.length (codePoint value digits cs) := by
  induction cs generalizing value digits with
  | nil => exact .failed
  | cons c cs ih =>
    rw [codePoint, List.length_cons]
    have hrest (value digits : Nat) : Leaves (cs.length + 1) (codePoint value digits cs) :=
      (ih value digits).mono (Nat.le_succ _)
    split
    · split
      · exact .done _ (Nat.lt_succ_self _)
      · exact .failed
    · split
      · split
        · exact .failed
        · exact hrest _ _
      · split
        · split
          · exact .failed
          · exact hrest _ _
        · exact .failed

/-- The character that an escape stands for, given what follows the backslash. -/
def escape (sort : StringSort) : List Char → Option (Char × List Char)
  | 'n' :: r => some ('\n', r)
  | 'r' :: r => some ('\r', r)
  | 't' :: r => some ('\t', r)
  | '\\' :: r => some ('\\', r)
  | '\'' :: r => some ('\'', r)
  | '"' :: r => some ('"', r)
  | '0' :: r => if sort.admits '\x00' then some ('\x00', r) else none
  | 'x' :: a :: b :: r =>
    match hexDigit? a, hexDigit? b with
    | some a, some b =>
      if sort.admitsCode (a * 16 + b) then some (Char.ofNat (a * 16 + b), r) else none
    | _, _ => none
  | 'u' :: '\x7b' :: r =>
    match sort with
    | .bytes => none
    | sort => (codePoint 0 0 r).filter fun found => sort.admits found.1
  | _ => none

theorem escape_leaves (sort : StringSort) (cs : List Char) : Leaves cs.length (escape sort cs) := by
  unfold escape
  split
  case h_9 r =>
    intro c rest h
    split at h
    · cases h
    · have hrest := codePoint_leaves 0 0 r c rest (Option.filter_eq_some_iff.1 h).1
      simp only [List.length_cons]
      omega
  case h_1 | h_2 | h_3 | h_4 | h_5 | h_6 => exact .done _ (Nat.lt_succ_self _)
  case h_10 => exact .failed
  case h_7 =>
    split
    · exact .done _ (Nat.lt_succ_self _)
    · exact .failed
  case h_8 =>
    split
    · split
      · exact .done _ (by simp only [List.length_cons]; omega)
      · exact .failed
    · exact .failed

/-- What follows a line end behind a backslash. -/
def continuation : List Char → Option (List Char)
  | [] => some []
  | '\r' :: '\n' :: r => continuation r
  | '\r' :: _ => none
  | c :: r => if isWhite c then continuation r else some (c :: r)

theorem length_continuation {cs rest : List Char} (h : continuation cs = some rest) :
    rest.length ≤ cs.length := by
  fun_induction continuation cs with
  | case1 =>
    cases h
    exact Nat.le_refl _
  | case2 r ih =>
    have := ih h
    simp only [List.length_cons]
    omega
  | case3 => cases h
  | case4 c r _ _ _ ih =>
    have := ih h
    simp only [List.length_cons]
    omega
  | case5 =>
    cases h
    exact Nat.le_refl _

/-- The value of a literal with escapes, and what follows the closing quote. -/
def cooked (sort : StringSort) : List Char → Option (List Char × List Char)
  | [] => none
  | '"' :: r => some ([], r)
  | '\r' :: '\n' :: r => (cooked sort r).map fun v => ('\n' :: v.1, v.2)
  | '\r' :: _ => none
  | '\\' :: '\n' :: r =>
    match _h : continuation r with
    | some rest => cooked sort rest
    | none => none
  | '\\' :: '\r' :: '\n' :: r =>
    match _h : continuation r with
    | some rest => cooked sort rest
    | none => none
  | '\\' :: r =>
    match _h : escape sort r with
    | some (c, rest) => (cooked sort rest).map fun v => (c :: v.1, v.2)
    | none => none
  | c :: r =>
    if sort.admits c then (cooked sort r).map fun v => (c :: v.1, v.2) else none
termination_by cs => cs.length
decreasing_by
  all_goals simp only [List.length_cons]
  · omega
  · have := length_continuation _h
    omega
  · have := length_continuation _h
    omega
  · have := escape_leaves sort r c rest _h
    omega
  · omega

theorem cooked_leaves (sort : StringSort) (cs : List Char) :
    Leaves cs.length (cooked sort cs) := by
  fun_induction cooked sort cs with
  | case1 | case4 | case6 | case8 | case10 | case12 => exact .failed
  | case2 => exact .done _ (Nat.lt_succ_self _)
  | case3 r ih => exact (ih.map _).mono (by simp only [List.length_cons]; omega)
  | case5 r rest hcontinuation ih | case7 r rest hcontinuation ih =>
    have hrest := length_continuation hcontinuation
    exact ih.mono (by simp only [List.length_cons]; omega)
  | case9 r _ _ c rest hescape ih =>
    have hrest := escape_leaves sort r c rest hescape
    exact (ih.map _).mono (by simp only [List.length_cons]; omega)
  | case11 c r _ _ _ _ _ _ _ ih => exact (ih.map _).mono (Nat.le_succ _)

/-- Whether the text goes on with that many hash signs; if so, what follows them. -/
def dropHashes : Nat → List Char → Option (List Char)
  | 0, r => some r
  | n + 1, '#' :: r => dropHashes n r
  | _ + 1, _ => none

theorem length_dropHashes {n : Nat} {cs rest : List Char} (h : dropHashes n cs = some rest) :
    rest.length ≤ cs.length := by
  fun_induction dropHashes n cs with
  | case1 =>
    cases h
    exact Nat.le_refl _
  | case2 n r ih => exact Nat.le_succ_of_le (ih h)
  | case3 => cases h

/-- The value of a literal without escapes that is closed by a quote and `hashes` hash signs. -/
def rawBody (sort : StringSort) (hashes : Nat) : List Char → Option (List Char × List Char)
  | [] => none
  | '\r' :: '\n' :: r => (rawBody sort hashes r).map fun v => ('\r' :: '\n' :: v.1, v.2)
  | '\r' :: _ => none
  | c :: r =>
    match if c = '"' then dropHashes hashes r else none with
    | some rest => some ([], rest)
    | none =>
      if sort.admits c then (rawBody sort hashes r).map fun v => (c :: v.1, v.2) else none

theorem rawBody_leaves (sort : StringSort) (hashes : Nat) (cs : List Char) :
    Leaves cs.length (rawBody sort hashes cs) := by
  fun_induction rawBody sort hashes cs with
  | case1 | case3 | case6 => exact .failed
  | case2 r ih => exact (ih.map ('\r' :: '\n' :: ·)).mono (Nat.le_add_right _ 2)
  | case4 c r _ _ rest hclosed =>
    split at hclosed
    · exact .done _ (Nat.lt_succ_of_le (length_dropHashes hclosed))
    · cases hclosed
  | case5 c r _ _ _ _ ih => exact (ih.map _).mono (Nat.le_succ _)

/-- A literal without escapes, from its hash signs on. -/
def raw (sort : StringSort) (cs : List Char) : Option (List Char × List Char) :=
  let hashes := (cs.takeWhile (· == '#')).length
  match cs.dropWhile (· == '#') with
  | '"' :: r => if hashes ≤ 255 then rawBody sort hashes r else none
  | _ => none

theorem raw_leaves (sort : StringSort) (cs : List Char) : Leaves cs.length (raw sort cs) := by
  have hdrop := (List.dropWhile_suffix (l := cs) (· == '#')).length_le
  unfold raw
  split
  · rename_i r hr
    rw [hr, List.length_cons] at hdrop
    dsimp only
    split
    · exact (rawBody_leaves sort _ r).mono (by omega)
    · exact .failed
  · exact .failed

end MetricWiring.Code
