import MetricWiring.Code.Progress
import MetricWiring.Code.Token

/-!
# Reading from a list of token trees

A reader takes what it understands from the front of a list and returns the rest. The pieces here
are the ones that the grammar of types, attributes and items is put together from.
-/
namespace MetricWiring.Code

abbrev Reader (α : Type) := List TokenTree → Option (α × List TokenTree)

/-- Whether the next tree is the given sign, be it the beginning of a longer one. -/
def atSign (c : Char) : List TokenTree → Bool
  | .punct d _ :: _ => d == c
  | _ => false

/-- Whether the next two trees form the given sign of two characters. -/
def atSigns (c d : Char) : List TokenTree → Bool
  | .punct a true :: .punct b _ :: _ => a == c && b == d
  | _ => false

/-- Whether the next tree is the given word, not raw. -/
def atWord (word : String) : List TokenTree → Bool
  | .ident i :: _ => i.isWord word
  | _ => false

/-- Whether the next tree is a name: an identifier that is no keyword. -/
def atName : List TokenTree → Bool
  | .ident i :: _ => i.isName
  | _ => false

def atIdent : List TokenTree → Bool
  | .ident _ :: _ => true
  | _ => false

def atGroup (d : Delimiter) : List TokenTree → Bool
  | .group e _ :: _ => e == d
  | _ => false

def atLifetime : List TokenTree → Bool
  | .punct '\'' _ :: .ident _ :: _ => true
  | _ => false

/-- Whether a literal follows: a number with its sign, any other literal, or a truth value. -/
def atLiteral : List TokenTree → Bool
  | .literal _ :: _ => true
  | .punct '-' _ :: .literal (.other _) :: _ => true
  | .ident i :: _ => i.isWord "true" || i.isWord "false"
  | _ => false

/-- Takes the given sign. -/
def sign (c : Char) : Reader Unit
  | .punct d _ :: rest => if d = c then some ((), rest) else none
  | _ => none

/-- Takes the given sign of two characters. -/
def signs (c d : Char) : Reader Unit := fun ts =>
  if atSigns c d ts then some ((), ts.drop 2) else none

/-- Takes the given word, not raw. -/
def word (w : String) : Reader Unit
  | .ident i :: rest => if i.isWord w then some ((), rest) else none
  | _ => none

/-- Takes a name. -/
def name : Reader Ident
  | .ident i :: rest => if i.isName then some (i, rest) else none
  | _ => none

/-- Takes an identifier, be it a keyword. -/
def ident : Reader Ident
  | .ident i :: rest => some (i, rest)
  | _ => none

def lifetime : Reader Unit
  | .punct '\'' _ :: .ident _ :: rest => some ((), rest)
  | _ => none

/-- Takes a group and gives its content. -/
def group (d : Delimiter) : Reader (List TokenTree)
  | .group e content :: rest => if e = d then some (content, rest) else none
  | _ => none

def literal : Reader Unit
  | .literal _ :: rest => some ((), rest)
  | .punct '-' _ :: .literal (.other _) :: rest => some ((), rest)
  | .ident i :: rest => if i.isWord "true" || i.isWord "false" then some ((), rest) else none
  | _ => none

theorem suffix_ite {ts us vs : List TokenTree} {b : Bool} (hthen : us <:+ ts) (helse : vs <:+ ts) :
    (if b then us else vs) <:+ ts := by
  cases b with
  | true => exact hthen
  | false => exact helse

/-- The trees after an optional sign. -/
def skipSign (c : Char) (ts : List TokenTree) : List TokenTree :=
  if atSign c ts then ts.drop 1 else ts

theorem skipSign_suffix (c : Char) (ts : List TokenTree) : skipSign c ts <:+ ts :=
  suffix_ite (List.drop_suffix 1 ts) List.suffix_rfl

/-- The trees after an optional sign of two characters. -/
def skipSigns (c d : Char) (ts : List TokenTree) : List TokenTree :=
  if atSigns c d ts then ts.drop 2 else ts

theorem skipSigns_suffix (c d : Char) (ts : List TokenTree) : skipSigns c d ts <:+ ts :=
  suffix_ite (List.drop_suffix 2 ts) List.suffix_rfl

/-- The trees after an optional word. -/
def skipWord (w : String) (ts : List TokenTree) : List TokenTree :=
  if atWord w ts then ts.drop 1 else ts

theorem skipWord_suffix (word : String) (ts : List TokenTree) : skipWord word ts <:+ ts :=
  suffix_ite (List.drop_suffix 1 ts) List.suffix_rfl

/-- Three dots. -/
def atDots (ts : List TokenTree) : Bool := atSigns '.' '.' ts && atSigns '.' '.' (ts.drop 1)

/-- The value that a reader gives for a list which it takes whole. -/
def whole {α : Type} (read : Reader α) (ts : List TokenTree) : Option α :=
  match read ts with
  | some (a, []) => some a
  | _ => none

/-- The trees that were taken, given what is left of them. -/
def taken (before rest : List TokenTree) : List TokenTree :=
  before.take (before.length - rest.length)

/-! ## Readers that take what is in front -/

/-- The reader takes certain trees from the front of a list, at least one, and takes them whatever
stands behind them. -/
def TakesFront {α : Type} (read : Reader α) : Prop :=
  ∀ ts v rest, read ts = some (v, rest) →
    ∃ front, front ≠ [] ∧ ts = front ++ rest ∧ ∀ more, read (front ++ more) = some (v, more)

theorem TakesFront.progresses {α : Type} {read : Reader α} (h : TakesFront read) :
    Progresses read := by
  intro ts v rest hread
  obtain ⟨front, hne, rfl, _⟩ := h ts v rest hread
  have hfront := List.length_pos_iff.2 hne
  rw [List.length_append]
  omega

theorem sign_takesFront (c : Char) : TakesFront (sign c) := by
  intro ts v rest h
  unfold sign at h
  split at h
  · split at h
    · rename_i d joint _ hd
      cases h
      exact ⟨[.punct d joint], List.cons_ne_nil _ _, rfl, fun more => by simp [sign, hd]⟩
    · cases h
  · cases h

theorem signs_takesFront (c d : Char) : TakesFront (signs c d) := by
  intro ts v rest h
  unfold signs at h
  split at h
  · rename_i hat
    cases h
    match ts with
    | [] => cases hat
    | [.ident _] | [.punct _ true] | [.punct _ false] | [.literal _] | [.group _ _] => cases hat
    | t :: u :: ts =>
      refine ⟨[t, u], List.cons_ne_nil _ _, rfl, fun more => ?_⟩
      have hmore : atSigns c d (t :: u :: more) = true := by
        rw [← hat]
        rcases t with _ | ⟨_, _ | _⟩ <;> cases u <;> rfl
      simp only [List.cons_append, List.nil_append, signs, if_pos hmore]
      rfl
  · cases h

theorem word_takesFront (w : String) : TakesFront (word w) := by
  intro ts v rest h
  unfold word at h
  split at h
  · split at h
    · rename_i i _ hi
      cases h
      exact ⟨[.ident i], List.cons_ne_nil _ _, rfl, fun more => by simp [word, hi]⟩
    · cases h
  · cases h

theorem name_takesFront : TakesFront name := by
  intro ts v rest h
  unfold name at h
  split at h
  · split at h
    · rename_i i _ hi
      cases h
      exact ⟨[.ident v], List.cons_ne_nil _ _, rfl, fun more => by simp [name, hi]⟩
    · cases h
  · cases h

theorem ident_takesFront : TakesFront ident := by
  intro ts v rest h
  unfold ident at h
  split at h
  · cases h
    exact ⟨[_], List.cons_ne_nil _ _, rfl, fun more => rfl⟩
  · cases h

theorem lifetime_takesFront : TakesFront lifetime := by
  intro ts v rest h
  unfold lifetime at h
  split at h
  · cases h
    exact ⟨[_, _], List.cons_ne_nil _ _, rfl, fun more => rfl⟩
  · cases h

theorem group_takesFront (d : Delimiter) : TakesFront (group d) := by
  intro ts v rest h
  unfold group at h
  split at h
  · split at h
    · rename_i e content _ hd
      cases h
      exact ⟨[.group e v], List.cons_ne_nil _ _, rfl, fun more => by simp [group, hd]⟩
    · cases h
  · cases h

theorem literal_takesFront : TakesFront literal := by
  intro ts v rest h
  unfold literal at h
  split at h
  · cases h
    exact ⟨[_], List.cons_ne_nil _ _, rfl, fun more => rfl⟩
  · cases h
    exact ⟨[_, _], List.cons_ne_nil _ _, rfl, fun more => rfl⟩
  · split at h
    · rename_i i _ hi
      cases h
      exact ⟨[.ident i], List.cons_ne_nil _ _, rfl, fun more => by simp [literal, hi]⟩
    · cases h
  · cases h

end MetricWiring.Code
