/-!
# Tables by name

A table holds one value per name, with the names in increasing order of their characters. There is
only one table with a given content: two tables that look the same up are equal
(`NameTable.ext_get?`).
-/
namespace MetricWiring

structure NameTable (α : Type) where
  entries : List (String × α)
  increasing : entries.Pairwise fun a b => a.1 < b.1
  deriving DecidableEq, Repr

namespace NameTable

variable {α : Type}

def empty : NameTable α := ⟨[], List.Pairwise.nil⟩

instance : Inhabited (NameTable α) := ⟨empty⟩

/-- The value of the first entry of a name. -/
def lookup (name : String) : List (String × α) → Option α
  | [] => none
  | e :: es => if e.1 = name then some e.2 else lookup name es

def get? (t : NameTable α) (name : String) : Option α := lookup name t.entries

def contains (t : NameTable α) (name : String) : Bool := (t.get? name).isSome

/-- The names in increasing order. The table is kept sorted, so there is nothing left to sort. -/
def names (t : NameTable α) : List String := t.entries.map Prod.fst

def size (t : NameTable α) : Nat := t.entries.length

def isEmpty (t : NameTable α) : Bool := t.entries.isEmpty

/-- Puts an entry in its place. -/
def place (name : String) (value : α) : List (String × α) → List (String × α)
  | [] => [(name, value)]
  | e :: es =>
    if name < e.1 then (name, value) :: e :: es
    else if e.1 = name then (name, value) :: es
    else e :: place name value es

theorem mem_place {name : String} {value : α} {es : List (String × α)} {e : String × α}
    (h : e ∈ place name value es) : e = (name, value) ∨ e ∈ es := by
  induction es with
  | nil => simpa [place] using h
  | cons f es ih =>
    unfold place at h
    split at h
    · simpa using h
    · split at h
      · rcases List.mem_cons.1 h with rfl | h
        · exact .inl rfl
        · exact .inr (List.mem_cons_of_mem f h)
      · rcases List.mem_cons.1 h with rfl | h
        · exact .inr List.mem_cons_self
        · exact (ih h).imp id (List.mem_cons_of_mem f)

theorem increasing_place (name : String) (value : α) {es : List (String × α)}
    (h : es.Pairwise fun a b => a.1 < b.1) :
    (place name value es).Pairwise fun a b => a.1 < b.1 := by
  induction es with
  | nil => simp [place]
  | cons e es ih =>
    rw [List.pairwise_cons] at h
    unfold place
    split
    · rename_i hlt
      refine List.pairwise_cons.2 ⟨?_, List.pairwise_cons.2 h⟩
      intro f hf
      rcases List.mem_cons.1 hf with rfl | hf
      · exact hlt
      · exact String.lt_trans hlt (h.1 f hf)
    · rename_i hnlt
      split
      · rename_i heq
        exact List.pairwise_cons.2 ⟨fun f hf => heq ▸ h.1 f hf, h.2⟩
      · rename_i hne
        refine List.pairwise_cons.2 ⟨?_, ih h.2⟩
        intro f hf
        rcases mem_place hf with rfl | hf
        · rcases Std.lt_trichotomy e.1 name with hlt | heq | hgt
          · exact hlt
          · exact absurd heq hne
          · exact absurd hgt hnlt
        · exact h.1 f hf

/-- Sets the value of a name, whatever it was. -/
def insert (t : NameTable α) (name : String) (value : α) : NameTable α :=
  ⟨place name value t.entries, increasing_place name value t.increasing⟩

/-- Sets the values of all entries of another table. -/
def merge (t u : NameTable α) : NameTable α :=
  u.entries.foldl (fun acc e => acc.insert e.1 e.2) t

theorem lookup_place (name other : String) (value : α) (es : List (String × α)) :
    lookup other (place name value es) = if other = name then some value else lookup other es := by
  induction es with
  | nil => simp [place, lookup, eq_comm]
  | cons e es ih =>
    unfold place
    split
    · simp [lookup, eq_comm]
    · split
      · rename_i heq
        subst heq
        by_cases h : other = e.1
        · simp [lookup, h]
        · have h' : ¬ e.1 = other := fun he => h he.symm
          simp [lookup, h, h']
      · rename_i hne
        by_cases h : e.1 = other
        · have : ¬ other = name := fun ho => hne (h.trans ho)
          simp [lookup, h, this]
        · simp [lookup, h, ih]

@[simp] theorem get?_empty (name : String) : (empty : NameTable α).get? name = none := rfl

theorem get?_insert (t : NameTable α) (name other : String) (value : α) :
    (t.insert name value).get? other = if other = name then some value else t.get? other :=
  lookup_place name other value t.entries

@[simp] theorem get?_insert_self (t : NameTable α) (name : String) (value : α) :
    (t.insert name value).get? name = some value := by simp [get?_insert]

theorem lookup_eq_some_iff {name : String} {value : α} {es : List (String × α)}
    (h : es.Pairwise fun a b => a.1 < b.1) : lookup name es = some value ↔ (name, value) ∈ es := by
  induction es with
  | nil => simp [lookup]
  | cons e es ih =>
    rw [List.pairwise_cons] at h
    unfold lookup
    split
    · rename_i heq
      subst heq
      constructor
      · intro hv
        obtain rfl : e.2 = value := by simpa using hv
        exact List.mem_cons_self
      · intro hm
        rcases List.mem_cons.1 hm with hm | hm
        · rw [← hm]
        · exact absurd (h.1 _ hm) (String.lt_irrefl e.1)
    · rename_i hne
      rw [ih h.2, List.mem_cons]
      refine ⟨.inr, ?_⟩
      rintro (hm | hm)
      · exact absurd (congrArg Prod.fst hm.symm) hne
      · exact hm

theorem get?_eq_some_iff {t : NameTable α} {name : String} {value : α} :
    t.get? name = some value ↔ (name, value) ∈ t.entries :=
  lookup_eq_some_iff t.increasing

theorem ext_get? {t u : NameTable α} (h : ∀ name, t.get? name = u.get? name) : t = u := by
  have hmem (e : String × α) : e ∈ t.entries ↔ e ∈ u.entries := by
    rw [← get?_eq_some_iff (t := t), ← get?_eq_some_iff (t := u), h]
  rcases t with ⟨es, hes⟩
  rcases u with ⟨fs, hfs⟩
  simp only at hmem
  suffices es = fs by subst this; rfl
  clear h
  induction es generalizing fs with
  | nil =>
    cases fs with
    | nil => rfl
    | cons f fs => exact absurd ((hmem f).2 List.mem_cons_self) List.not_mem_nil
  | cons e es ih =>
    cases fs with
    | nil => exact absurd ((hmem e).1 List.mem_cons_self) List.not_mem_nil
    | cons f fs =>
      rw [List.pairwise_cons] at hes hfs
      have hef : e = f := by
        rcases List.mem_cons.1 ((hmem e).1 List.mem_cons_self) with rfl | he
        · rfl
        rcases List.mem_cons.1 ((hmem f).2 List.mem_cons_self) with rfl | hf
        · rfl
        exact absurd (hes.1 f hf) (String.lt_asymm (hfs.1 e he))
      subst hef
      congr 1
      refine ih hes.2 fs hfs.2 fun g => ?_
      have hg := hmem g
      simp only [List.mem_cons] at hg
      constructor
      · intro hm
        rcases hg.1 (.inr hm) with rfl | hm'
        · exact absurd (hes.1 _ hm) (String.lt_irrefl _)
        · exact hm'
      · intro hm
        rcases hg.2 (.inr hm) with rfl | hm'
        · exact absurd (hfs.1 _ hm) (String.lt_irrefl _)
        · exact hm'

end NameTable

end MetricWiring
