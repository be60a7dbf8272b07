import MetricWiring.Proofs.Occurrences
import MetricWiring.Proofs.Registration

/-!
# Which resolvers agree

A resolver is known by the order in which its sources come up for the first time: two resolvers find
the same for every method of every type exactly if these orders are equal (`agree_iff`). For two
different orders there is a type that tells them apart, with one method and a timer on either
source or on both.
-/
namespace MetricWiring

namespace Resolver

/-- A type with one method. Each source holds, as an absolute timer, the name it is given. -/
def probe (held : Source → Option String) : TypeInfo :=
  let table (s : Source) : DeclarationTable := { timed := (held s).map .verbatim }
  { own := {
      fullName := ""
      declarations := table .type
      methods := MethodTable.empty.put { name := "", declarations := table .method } } }

theorem exists_find?_probe (held : Source → Option String) :
    ∃ c ∈ Callable.hierarchy (probe held),
      ∀ s : Source, s.find? .timed c = (held s).map .verbatim := by
  refine ⟨⟨probe held, ⟨"", { timed := (held .method).map .verbatim }⟩, []⟩, ?_, ?_⟩
  · rw [Callable.hierarchy_of_parent?_eq_none rfl]
    exact List.mem_singleton.2 rfl
  · intro s
    cases s <;> rfl

theorem findSome?_map_verbatim (l : List Source) (held : Source → Option String) :
    (l.findSome? fun s => (held s).map Declaration.verbatim) =
      (l.findSome? held).map .verbatim := by
  induction l with
  | nil => rfl
  | cons s l ih => cases h : held s <;> simp [h, ih]

theorem find?_eq_of_eraseDups_eq {r s : Resolver}
    (h : r.sources.eraseDups = s.sources.eraseDups) (k : Kind) (c : Callable) :
    r.find? k c = s.find? k c := by
  rw [find?_eq_findSome?, find?_eq_findSome?, ← findSome?_eraseDups r.sources, h,
    findSome?_eraseDups]

/-- What the sources are told apart by. -/
def label : Source → String
  | .method => "method"
  | .type => "type"

theorem label_injective (a b : Source) (h : label a = label b) : a = b := by
  cases a <;> cases b <;> simp_all [label]

theorem eraseDups_eq_of_agree {r s : Resolver}
    (h : ∀ t, ∀ c ∈ Callable.hierarchy t, ∀ k, r.find? k c = s.find? k c) :
    r.sources.eraseDups = s.sources.eraseDups := by
  apply eq_of_findSome?_eq label_injective (nodup_eraseDups _) (nodup_eraseDups _)
  intro held
  obtain ⟨c, hc, hfind⟩ := exists_find?_probe held
  have hprobe := h (probe held) c hc .timed
  simp only [find?_eq_findSome?, hfind, findSome?_map_verbatim] at hprobe
  rw [findSome?_eraseDups, findSome?_eraseDups]
  refine Option.map_injective ?_ hprobe
  intro a b hab
  exact congrArg Declaration.name hab

theorem agree_iff {r s : Resolver} :
    (∀ t, ∀ c ∈ Callable.hierarchy t, ∀ k, r.find? k c = s.find? k c) ↔
      r.sources.eraseDups = s.sources.eraseDups := by
  constructor
  · exact eraseDups_eq_of_agree
  · intro h t c _ k
    exact find?_eq_of_eraseDups_eq h k c

end Resolver

namespace Instrumentation

theorem plan_congr {r s : Resolver} (h : ∀ k c, r.find? k c = s.find? k c) (n : Namer)
    (t : TypeInfo) : plan ⟨r, n⟩ t = plan ⟨s, n⟩ t := by
  have hbinding (k : Kind) : bindingFor ⟨r, n⟩ t k = bindingFor ⟨s, n⟩ t k := by
    funext c
    simp only [bindingFor, h]
  simp only [plan_eq, hbinding]

/-- A resolver asks its sources from left to right, however they are nested, and the first one that
finds something decides. Of this order only the first occurrences matter: resolvers in which they
come in the same order find the same, plan the same and register the same, and any two others are
told apart by some method of some type. -/
theorem resolvers_agree_exactly (r s : Resolver) :
    (∀ k c, r.find? k c = r.sources.findSome? (·.find? k c)) ∧
      ((∀ t, ∀ c ∈ Callable.hierarchy t, ∀ k, r.find? k c = s.find? k c) ↔
        r.sources.eraseDups = s.sources.eraseDups) ∧
      (r.sources.eraseDups = s.sources.eraseDups →
        (∀ k c, r.find? k c = s.find? k c) ∧
          ∀ (n : Namer) (t : TypeInfo) (reg : Registry),
            plan ⟨r, n⟩ t = plan ⟨s, n⟩ t ∧
              (register ⟨r, n⟩ reg t).answer = (register ⟨s, n⟩ reg t).answer ∧
              (register ⟨r, n⟩ reg t).registry = (register ⟨s, n⟩ reg t).registry) := by
  refine ⟨r.find?_eq_findSome?, Resolver.agree_iff, ?_⟩
  intro h
  have hfind := Resolver.find?_eq_of_eraseDups_eq h
  refine ⟨hfind, fun n t reg => ?_⟩
  have hplan := plan_congr hfind n t
  exact ⟨hplan, register_congr hplan reg⟩

end Instrumentation

end MetricWiring
