import MetricWiring.Proofs.Code.TypeLookahead

/-!
# Paths of one segment

The readers of paths only ever add segments. So a path that has one segment in the end is the
identifier at its front, whatever was read behind that (`last_of_readType`).
-/
namespace MetricWiring.Code

/-! ## Going on with a path -/

/-- One path goes on from another: it has further segments or the same last one. -/
structure PathShape.GoesOn (p q : PathShape) : Prop where
  le : p.segments ≤ q.segments
  last_eq : q.segments = p.segments → q.last = p.last

namespace PathShape.GoesOn

theorem refl (p : PathShape) : p.GoesOn p := ⟨Nat.le_refl _, fun _ => rfl⟩

theorem trans {p q r : PathShape} (hpq : p.GoesOn q) (hqr : q.GoesOn r) : p.GoesOn r where
  le := Nat.le_trans hpq.le hqr.le
  last_eq h := by
    have hle := hpq.le
    have hle' := hqr.le
    rw [hqr.last_eq (by omega), hpq.last_eq (by omega)]

end PathShape.GoesOn

/-- A segment is one more, and becomes the last one. -/
theorem of_segment {n : Nat} {p q : PathShape} {ts rest : List TokenTree}
    (h : segment n p ts = some (q, rest)) :
    q.segments = p.segments + 1 ∧ ∃ tail, ts = .ident q.last :: tail := by
  cases n with
  | zero => cases h
  | succ n =>
    rcases ts with _ | ⟨i | _ | _ | _, tail⟩
    case cons.ident =>
      simp only [segment, ident, Option.bind_eq_bind, Option.bind_some] at h
      split at h
      · cases h
        exact ⟨rfl, _, rfl⟩
      · split at h
        · split at h
          · obtain ⟨_, _, h⟩ := Option.bind_eq_some_iff.1 h
            cases h
            exact ⟨rfl, _, rfl⟩
          · cases h
            exact ⟨rfl, _, rfl⟩
        · cases h
    all_goals cases h

namespace PathShape.GoesOn

variable {n : Nat} {p q : PathShape} {ts rest : List TokenTree}

theorem of_segment (h : segment n p ts = some (q, rest)) : p.GoesOn q := by
  have hone := (Code.of_segment h).1
  exact ⟨by omega, by omega⟩

theorem of_furtherSegments (h : furtherSegments n p ts = some (q, rest)) : p.GoesOn q := by
  induction n generalizing p ts with
  | zero => cases h
  | succ n ih =>
    rw [furtherSegments] at h
    split at h
    · obtain ⟨⟨middle, tail⟩, hsegment, hrest⟩ := Option.bind_eq_some_iff.1 h
      exact (of_segment hsegment).trans (ih hrest)
    · cases h
      exact refl _

theorem of_calls (h : calls n p ts = some (q, rest)) : p.GoesOn q := by
  induction n generalizing p ts with
  | zero => cases h
  | succ n ih =>
    rw [calls_eq] at h
    split at h
    · cases h
      exact refl _
    · split at h
      · obtain ⟨_, _, h⟩ := Option.bind_eq_some_iff.1 h
        obtain ⟨⟨continues, tail⟩, _, h⟩ := Option.bind_eq_some_iff.1 h
        let called : PathShape :=
          { p with hasArguments := true, lastHasArguments := true, lastIsCall := true }
        have hcalled : p.GoesOn called := ⟨Nat.le_refl _, fun _ => rfl⟩
        cases continues with
        | true =>
          obtain ⟨⟨middle, tail⟩, hfurther, hrest⟩ := Option.bind_eq_some_iff.1 h
          exact hcalled.trans ((of_furtherSegments hfurther).trans (ih hrest))
        | false =>
          cases h
          exact hcalled
      · cases h
        exact refl _

end PathShape.GoesOn

/-! ## Paths that begin with an identifier -/

theorem last_of_path {n : Nat} {q : PathShape} {i : Ident} {ts rest : List TokenTree}
    (h : path n (.ident i :: ts) = some (q, rest)) :
    1 ≤ q.segments ∧ (q.segments = 1 → q.last = i) := by
  cases n with
  | zero => cases h
  | succ n =>
    obtain ⟨⟨p, tail⟩, hsegment, hfurther⟩ := Option.bind_eq_some_iff.1 h
    obtain ⟨hone, _, hident⟩ := of_segment hsegment
    have hone : p.segments = 1 := hone
    cases hident
    have hon := PathShape.GoesOn.of_furtherSegments hfurther
    have hle := hon.le
    exact ⟨by omega, fun hq => hon.last_eq (by omega)⟩

theorem last_of_typePath {n : Nat} {q : PathShape} {i : Ident} {ts rest : List TokenTree}
    (h : typePath n (.ident i :: ts) = some (q, rest)) (hq : q.segments = 1) : q.last = i := by
  cases n with
  | zero => cases h
  | succ n =>
    obtain ⟨⟨p, tail⟩, hpath, hcalls⟩ := Option.bind_eq_some_iff.1 h
    have hon := PathShape.GoesOn.of_calls hcalls
    have hle := hon.le
    obtain ⟨hone, hlast⟩ := last_of_path hpath
    rw [hon.last_eq (by omega), hlast (by omega)]

/-- What is read as a path behind another path is that path. -/
theorem eq_of_pathType {n : Nat} {plus quantified : Bool} {p q : PathShape}
    {ts rest : List TokenTree} (h : pathType n plus quantified p ts = some (.path q, rest)) :
    q = p := by
  cases n with
  | zero => cases h
  | succ n =>
    unfold pathType at h
    split at h
    · cases h
      rfl
    · split at h
      · split at h <;> cases h
      · split at h
        · obtain ⟨_, _, h⟩ := Option.bind_eq_some_iff.1 h
          cases h
        · split at h <;> cases h
          rfl

theorem last_of_readType {n : Nat} {plus : Bool} {q : PathShape} {i : Ident}
    {ts rest : List TokenTree} (hi : i.isName = true)
    (h : readType n plus (.ident i :: ts) = some (.path q, rest)) (hq : q.segments = 1) :
    q.last = i := by
  have hword : ∀ word ∈ reservedWords, atWord word (.ident i :: ts) = false := by
    intro word hword
    rw [Bool.eq_false_iff]
    intro hat
    have hat := Ident.isWord_iff.1 hat
    subst hat
    simp [Ident.isName, hword] at hi
  have hfor := hword "for" (by decide)
  have hfn := hword "fn" (by decide)
  have hunsafe := hword "unsafe" (by decide)
  have hextern := hword "extern" (by decide)
  have hname : atName (.ident i :: ts) = true := hi
  cases n with
  | zero => cases h
  | succ n =>
    simp only [readType, hfor, hfn, hunsafe, hextern, hname, atGroup, Bool.or_false, Bool.true_or,
      Bool.false_eq_true, if_false, if_true] at h
    obtain ⟨⟨p, tail⟩, hpath, hrest⟩ := Option.bind_eq_some_iff.1 h
    obtain rfl := eq_of_pathType hrest
    exact last_of_typePath hpath hq

end MetricWiring.Code
