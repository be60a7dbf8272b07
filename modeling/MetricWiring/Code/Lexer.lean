import MetricWiring.Code.StringLiteral
import MetricWiring.Code.Token

/-!
# Splitting source text into tokens

Blanks and comments separate tokens and are dropped, apart from documentation comments, which stand
for attributes. `TokenTree.read?` gives the trees of a text, unless it does not split into tokens or
its brackets do not match.
-/
namespace MetricWiring.Code

/-- The text up to the end of the line, and what follows from the line feed on. -/
def takeLine : List Char → List Char × List Char
  | [] => ([], [])
  | '\n' :: r => ([], '\n' :: r)
  | '\r' :: '\n' :: r => ([], '\n' :: r)
  | c :: r => (c :: (takeLine r).1, (takeLine r).2)

theorem length_takeLine (cs : List Char) : (takeLine cs).2.length ≤ cs.length := by
  fun_induction takeLine cs with
  | case1 | case2 => exact Nat.le_refl _
  | case3 => exact Nat.le_succ _
  | case4 c r _ _ ih => exact Nat.le_succ_of_le ih

/-- The inside of a comment up to its end, and what follows it. Comments nest; `depth` counts those
that were opened inside. -/
def takeComment (depth : Nat) : List Char → Option (List Char × List Char)
  | [] => none
  | '/' :: '*' :: r => (takeComment (depth + 1) r).map fun v => ('/' :: '*' :: v.1, v.2)
  | '*' :: '/' :: r =>
    match depth with
    | 0 => some ([], r)
    | depth + 1 => (takeComment depth r).map fun v => ('*' :: '/' :: v.1, v.2)
  | c :: r => (takeComment depth r).map fun v => (c :: v.1, v.2)

theorem takeComment_leaves (depth : Nat) (cs : List Char) :
    Leaves cs.length (takeComment depth cs) := by
  fun_induction takeComment depth cs with
  | case1 => exact .failed
  | case2 depth r ih => exact (ih.map ('/' :: '*' :: ·)).mono (Nat.le_add_right _ 2)
  | case3 r => exact .done _ (Nat.lt_succ_of_lt (Nat.lt_succ_self r.length))
  | case4 r depth ih => exact (ih.map ('*' :: '/' :: ·)).mono (Nat.le_add_right _ 2)
  | case5 depth c r _ _ ih => exact (ih.map _).mono (Nat.le_succ _)

/-- Whether a carriage return stands without a line feed after it. -/
def hasLoneReturn : List Char → Bool
  | [] => false
  | '\r' :: '\n' :: r => hasLoneReturn r
  | c :: r => c == '\r' || hasLoneReturn r

/-- The attribute that a documentation comment stands for. -/
def docAttribute (inner : Bool) (text : List Char) : Option (List Token) :=
  if hasLoneReturn text then none
  else
    some ([.punct '#' false] ++ (if inner then [.punct '!' false] else []) ++
      [.opening .bracket, .ident ⟨"doc", false⟩, .punct '=' false,
        .literal (.string (.ofList text) ""), .closing .bracket])

/-- What a documentation comment stands for, given its text and what follows it. -/
def documented (inner : Bool) (v : List Char × List Char) : Option (List Token × List Char) :=
  (docAttribute inner v.1).map (·, v.2)

theorem documented_leaves (inner : Bool) {text rest : List Char} {n : Nat} (h : rest.length < n) :
    Leaves n (documented inner (text, rest)) := by
  unfold documented
  cases docAttribute inner text with
  | none => exact .failed
  | some ts => exact .done ts h

/-- A comment, from its first slash on: the tokens it stands for and what follows it. -/
def comment? : List Char → Option (List Token × List Char)
  | '/' :: '/' :: '/' :: '/' :: r => some ([], (takeLine r).2)
  | '/' :: '/' :: '/' :: r => documented false (takeLine r)
  | '/' :: '/' :: '!' :: r => documented true (takeLine r)
  | '/' :: '/' :: r => some ([], (takeLine r).2)
  | '/' :: '*' :: '*' :: '/' :: r => some ([], r)
  | '/' :: '*' :: '*' :: '*' :: r => (takeComment 0 ('*' :: '*' :: r)).map fun v => ([], v.2)
  | '/' :: '*' :: '*' :: r => takeComment 0 r >>= documented false
  | '/' :: '*' :: '!' :: r => takeComment 0 r >>= documented true
  | '/' :: '*' :: r => (takeComment 0 r).map fun v => ([], v.2)
  | _ => none

theorem comment?_leaves (cs : List Char) : Leaves cs.length (comment? cs) := by
  have hline (r : List Char) (n : Nat) : (takeLine r).2.length < r.length + (n + 1) := by
    have := length_takeLine r
    omega
  have hdocumented (inner : Bool) (r : List Char) (n : Nat) :
      Leaves (r.length + n) (takeComment 0 r >>= documented inner) :=
    .mono (.bind (takeComment_leaves 0 r) fun _ _ h => documented_leaves inner h)
      (Nat.le_add_right _ n)
  unfold comment?
  split
  · exact .done _ (hline _ 3)
  · exact documented_leaves _ (hline _ 2)
  · exact documented_leaves _ (hline _ 2)
  · exact .done _ (hline _ 1)
  · rename_i r
    have hshort : r.length < r.length + 4 := by omega
    exact .done _ hshort
  · rename_i r
    exact ((takeComment_leaves 0 ('*' :: '*' :: r)).map fun _ => []).mono (Nat.le_add_right _ 2)
  · exact hdocumented _ _ 3
  · exact hdocumented _ _ 3
  · rename_i r _ _ _ _
    exact ((takeComment_leaves 0 r).map fun _ => []).mono (Nat.le_add_right _ 2)
  · exact .failed

/-- Drops the suffix that may follow a literal. -/
def dropSuffix : List Char → List Char
  | [] => []
  | c :: r => if isIdentStart c then r.dropWhile isIdentContinue else c :: r

theorem length_dropSuffix (cs : List Char) : (dropSuffix cs).length ≤ cs.length := by
  unfold dropSuffix
  split
  · exact Nat.le_refl _
  · split
    · exact Nat.le_succ_of_le (List.dropWhile_suffix _).length_le
    · exact Nat.le_refl _

theorem Leaves.dropSuffix {α β : Type} {x : Option (α × List Char)} {n : Nat} (hx : Leaves n x)
    (f : α → β) : Leaves n (x.map fun v => (f v.1, Code.dropSuffix v.2)) := by
  intro w rest hw
  obtain ⟨⟨v, left⟩, hv, hw⟩ := Option.map_eq_some_iff.1 hw
  cases hw
  exact Nat.lt_of_le_of_lt (length_dropSuffix left) (hx v left hv)

/-- A character literal from behind its opening quote: the character, and what follows the closing
quote. -/
def quotedCharacter (sort : StringSort) : List Char → Option (Char × List Char)
  | '\\' :: r =>
    match escape sort r with
    | some (c, '\'' :: rest) => some (c, rest)
    | _ => none
  | c :: '\'' :: rest => if sort.admits c then some (c, rest) else none
  | _ => none

theorem quotedCharacter_leaves (sort : StringSort) (cs : List Char) :
    Leaves cs.length (quotedCharacter sort cs) := by
  unfold quotedCharacter
  split
  · split
    · rename_i r _ c rest hescape
      have hleft := escape_leaves sort r c _ hescape
      rw [List.length_cons] at hleft
      exact .done _ (Nat.lt_succ_of_lt (Nat.lt_of_succ_lt hleft))
    · exact .failed
  · split
    · exact .done _ (Nat.lt_succ_of_lt (Nat.lt_succ_self _))
    · exact .failed
  · exact .failed

/-- What follows the fraction of a number, if there is one. -/
def dropFraction : List Char → List Char
  | '.' :: [] => []
  | '.' :: c :: r =>
    if c == '.' || isIdentStart c then '.' :: c :: r else (c :: r).dropWhile isIdentContinue
  | rest => rest

theorem length_dropFraction (cs : List Char) : (dropFraction cs).length ≤ cs.length := by
  unfold dropFraction
  split
  · exact Nat.zero_le _
  · split
    · exact Nat.le_refl _
    · exact Nat.le_succ_of_le (List.dropWhile_suffix _).length_le
  · exact Nat.le_refl _

/-- What follows a number that begins with a digit. -/
def dropNumber (cs : List Char) : List Char :=
  let rest := dropFraction (cs.dropWhile isIdentContinue)
  let consumed := cs.take (cs.length - rest.length)
  let hexadecimal := consumed.take 2 == ['0', 'x']
  match consumed.getLast?, rest with
  | some e, sign :: digit :: r =>
    if (e == 'e' || e == 'E') && !hexadecimal && (sign == '+' || sign == '-') && digit.isDigit then
      r.dropWhile isIdentContinue
    else rest
  | _, _ => rest

theorem length_dropNumber {c : Char} (hc : c.isDigit = true) (r : List Char) :
    (dropNumber (c :: r)).length < (c :: r).length := by
  have hcontinue : isIdentContinue c = true := by simp [isIdentContinue, hc]
  have hrest := length_dropFraction ((c :: r).dropWhile isIdentContinue)
  have hdrop := (List.dropWhile_suffix (l := r) isIdentContinue).length_le
  rw [List.dropWhile_cons_of_pos hcontinue] at hrest
  unfold dropNumber
  rw [List.dropWhile_cons_of_pos hcontinue, List.length_cons]
  dsimp only
  split
  · rename_i sign digit tail _ hsplit
    have htail := (List.dropWhile_suffix (l := tail) isIdentContinue).length_le
    rw [hsplit, List.length_cons, List.length_cons] at hrest
    split
    · omega
    · rw [hsplit, List.length_cons, List.length_cons]
      omega
  · omega

/-- A literal at the beginning of a text: its value, if it is a string, and what follows it. -/
def literal? : List Char → Option (Option (List Char) × List Char)
  | '"' :: r => (cooked .text r).map fun v => (some v.1, dropSuffix v.2)
  | 'r' :: r => (raw .text r).map fun v => (some v.1, dropSuffix v.2)
  | 'b' :: '"' :: r => (cooked .bytes r).map fun v => (none, dropSuffix v.2)
  | 'b' :: 'r' :: r => (raw .bytes r).map fun v => (none, dropSuffix v.2)
  | 'b' :: '\'' :: r => (quotedCharacter .bytes r).map fun v => (none, dropSuffix v.2)
  | 'c' :: '"' :: r => (cooked .nullFree r).map fun v => (none, dropSuffix v.2)
  | 'c' :: 'r' :: r => (raw .nullFree r).map fun v => (none, dropSuffix v.2)
  | '\'' :: r => (quotedCharacter .text r).map fun v => (none, dropSuffix v.2)
  | c :: r => if c.isDigit then some (none, dropNumber (c :: r)) else none
  | [] => none

theorem literal?_leaves (cs : List Char) : Leaves cs.length (literal? cs) := by
  unfold literal?
  split
  · exact ((cooked_leaves .text _).dropSuffix some).mono (Nat.le_succ _)
  · exact ((raw_leaves .text _).dropSuffix some).mono (Nat.le_succ _)
  · exact ((cooked_leaves .bytes _).dropSuffix fun _ => none).mono (Nat.le_add_right _ 2)
  · exact ((raw_leaves .bytes _).dropSuffix fun _ => none).mono (Nat.le_add_right _ 2)
  · exact ((quotedCharacter_leaves .bytes _).dropSuffix fun _ => none).mono (Nat.le_add_right _ 2)
  · exact ((cooked_leaves .nullFree _).dropSuffix fun _ => none).mono (Nat.le_add_right _ 2)
  · exact ((raw_leaves .nullFree _).dropSuffix fun _ => none).mono (Nat.le_add_right _ 2)
  · exact ((quotedCharacter_leaves .text _).dropSuffix fun _ => none).mono (Nat.le_succ _)
  · split
    · rename_i hdigit
      exact .done _ (length_dropNumber hdigit _)
    · exact .failed
  · exact .failed

/-- Whether a sign follows that is not the beginning of a comment. -/
def startsWithSign : List Char → Bool
  | '/' :: '/' :: _ => false
  | '/' :: '*' :: _ => false
  | c :: _ => isSign c
  | [] => false

/-- The beginnings of literals, none of which can begin an identifier. -/
def startsLikeLiteral : List Char → Bool
  | 'r' :: '"' :: _ => true
  | 'r' :: '#' :: '"' :: _ => true
  | 'r' :: '#' :: '#' :: _ => true
  | 'b' :: '"' :: _ => true
  | 'b' :: '\'' :: _ => true
  | 'b' :: 'r' :: '"' :: _ => true
  | 'b' :: 'r' :: '#' :: _ => true
  | 'c' :: '"' :: _ => true
  | 'c' :: 'r' :: '"' :: _ => true
  | 'c' :: 'r' :: '#' :: _ => true
  | _ => false

/-- The letters of an identifier, and what follows it. -/
def letters? : List Char → Option (List Char × List Char)
  | c :: r =>
    if isIdentStart c then some (c :: r.takeWhile isIdentContinue, r.dropWhile isIdentContinue)
    else none
  | [] => none

theorem letters?_leaves (cs : List Char) : Leaves cs.length (letters? cs) := by
  unfold letters?
  split
  · split
    · exact .done _ (Nat.lt_succ_of_le (List.dropWhile_suffix _).length_le)
    · exact .failed
  · exact .failed

/-- The words that cannot be written raw. -/
def neverRaw : List String := ["_", "super", "self", "Self", "crate"]

/-- An identifier, raw or not. -/
def anyIdent? (cs : List Char) : Option (Ident × List Char) :=
  match cs with
  | 'r' :: '#' :: r => do
    let (letters, rest) ← letters? r
    let name := String.ofList letters
    if neverRaw.contains name then none else some (⟨name, true⟩, rest)
  | cs => (letters? cs).map fun v => (⟨.ofList v.1, false⟩, v.2)

theorem anyIdent?_leaves (cs : List Char) : Leaves cs.length (anyIdent? cs) := by
  unfold anyIdent?
  split
  · rename_i r
    refine .mono (.bind (letters?_leaves r) fun letters rest hrest => ?_) (Nat.le_add_right _ 2)
    exact .ite (fun _ => .failed) fun _ => .done _ hrest
  · exact (letters?_leaves cs).map fun letters => Ident.mk (.ofList letters) false

/-- The quote of a lifetime: an identifier follows it, and no further quote after that. -/
def isLifetime (afterQuote : List Char) : Bool :=
  match anyIdent? afterQuote with
  | some (_, '\'' :: _) => false
  | some (i, '#' :: _) => i.raw
  | some _ => true
  | none => false

/-- The first token of a text that begins with neither a blank nor a comment, and what follows. -/
def token? (cs : List Char) : Option (Token × List Char) :=
  match cs with
  | [] => none
  | c :: r =>
    match Delimiter.all.find? (fun d => d.opening == c),
        Delimiter.all.find? (fun d => d.closing == c) with
    | some d, _ => some (.opening d, r)
    | none, some d => some (.closing d, r)
    | none, none =>
      match literal? cs with
      | some (value, rest) =>
        let written := String.ofList (cs.take (cs.length - rest.length))
        match value with
        | some value => some (.literal (.string (.ofList value) written), rest)
        | none => some (.literal (.other written), rest)
      | none =>
        if c == '\'' then if isLifetime r then some (.punct c true, r) else none
        else if isSign c then some (.punct c (startsWithSign r), r)
        else if startsLikeLiteral cs then none
        else (anyIdent? cs).map fun v => (.ident v.1, v.2)

theorem token?_leaves (cs : List Char) : Leaves cs.length (token? cs) := by
  unfold token?
  split
  · exact .failed
  · rename_i c r
    have hone : r.length < (c :: r).length := Nat.lt_succ_self _
    split
    · exact .done _ hone
    · exact .done _ hone
    · split
      · rename_i value rest hliteral
        have hrest := literal?_leaves (c :: r) value rest hliteral
        dsimp only
        split
        · exact .done _ hrest
        · exact .done _ hrest
      · refine .ite (fun _ => .ite (fun _ => .done _ hone) fun _ => .failed) fun _ => ?_
        refine .ite (fun _ => .done _ hone) fun _ => .ite (fun _ => .failed) fun _ => ?_
        exact (anyIdent?_leaves (c :: r)).map Token.ident

/-- The tokens at the beginning of a text, possibly none, and what follows them. -/
def step? (cs : List Char) : Option (List Token × List Char) :=
  match cs with
  | [] => none
  | '/' :: '/' :: _ => comment? cs
  | '/' :: '*' :: _ => comment? cs
  | c :: r => if isBlank c then some ([], r) else (token? cs).map fun v => ([v.1], v.2)

theorem step?_progresses : Progresses step? := by
  intro cs
  unfold step?
  split
  · exact .failed
  · exact comment?_leaves _
  · exact comment?_leaves _
  · rename_i c r _ _
    refine .ite (fun _ => .done _ (Nat.lt_succ_self _)) fun _ => ?_
    exact (token?_leaves (c :: r)).map fun t => [t]

/-- The tokens of a text. -/
def tokens? (cs : List Char) : Option (List Token) :=
  (readToEnd step? step?_progresses cs).map List.flatten

/-- The text without the byte order mark that it may begin with. -/
def dropByteOrderMark : List Char → List Char
  | [] => []
  | c :: r => if c.toNat = 0xFEFF then r else c :: r

/-- The token trees of a text. -/
def TokenTree.read? (text : String) : Option (List TokenTree) :=
  (tokens? (dropByteOrderMark text.toList)).bind TokenTree.ofTokens?

end MetricWiring.Code
