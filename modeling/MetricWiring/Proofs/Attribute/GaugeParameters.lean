import MetricWiring.Proofs.Attribute.Description
import MetricWiring.Proofs.Plan

/-!
# Gauges are read without arguments

A gauge is read from an instance alone. That a function has further parameters is refused where a
gauge is declared on it or on its type, and a declaration is only ever looked for on the method and
on the type that declares it; so no gauge is bound to a method with parameters, however the types of
an ancestry override each other (`gauges_without_parameters`).
-/
namespace MetricWiring

open Code (ImplBlock)

/-- The type comes of an instrumented block, under any parent. -/
def ComesFrom (t : TypeInfo) (block : ImplBlock) : Prop :=
  ∃ args x module parent, Expansion.ofBlock args block = .ok x ∧ x.typeInfo module parent = t

/-- A type and its ancestors that come of the given blocks, the block of the type first. -/
inductive Instrumented : List ImplBlock → TypeInfo → Prop
  | root {args : TypeArguments} {block : ImplBlock} {x : Expansion} {module : String}
      (hblock : Expansion.ofBlock args block = .ok x) (hparent : x.parent = none) :
      Instrumented [block] (x.typeInfo module none)
  | heir {args : TypeArguments} {block : ImplBlock} {x : Expansion} {module : String}
      {written : Code.TypeSyntax} {above : List ImplBlock} {p : TypeInfo}
      (hblock : Expansion.ofBlock args block = .ok x) (hparent : x.parent = some written)
      (habove : Instrumented above p) :
      Instrumented (block :: above) (x.typeInfo module (some p))

namespace Expansion

theorem parent?_typeInfo {args : TypeArguments} {block : ImplBlock} {x : Expansion}
    (h : ofBlock args block = .ok x) (module : String) (parent : Option TypeInfo) :
    (x.typeInfo module parent).parent? = parent := by
  obtain ⟨_, space, _, rfl⟩ := of_ofBlock_eq_ok h
  rw [typeInfo_expanded]
  cases parent <;> rfl

theorem mem_map_fst_of_get_pairs {declared : List (Kind × DeclarationArguments)} {k : Kind}
    {d : Declaration} (h : (DeclarationTable.ofList (pairs declared)).get k = some d) :
    k ∈ declared.map Prod.fst := by
  rw [← map_fst_pairs]
  exact List.mem_map.2 ⟨_, DeclarationTable.mem_of_get_ofList h, rfl⟩

/-- The function behind a method for which a gauge is found takes nothing but the instance. -/
theorem parameters_of_gauge {t : TypeInfo} {block : ImplBlock} {name : String} {c : Callable}
    {d : Declaration} (ht : ComesFrom t block) (hc : Callable.find? t name = some c)
    (hd : c.declarations.get .gauge = some d ∨ c.owner.declarations.get .gauge = some d) :
    ∃ f, definition? block name = some f ∧ f.parameters = ⟨true, 0⟩ := by
  obtain ⟨args, x, module, parent, hblock, rfl⟩ := ht
  obtain ⟨hadmissible, space, _, rfl⟩ := of_ofBlock_eq_ok hblock
  rw [typeInfo_expanded] at hc
  obtain ⟨m, hm, rfl⟩ := Option.map_eq_some_iff.1 hc
  obtain ⟨f, hf, rfl⟩ := find?_described.1 hm
  obtain ⟨hmem, hreceiver, _⟩ := of_definition?_eq_some hf
  have hf' := hadmissible.methods f hmem
  have hgauge : .gauge ∈ args.kinds ∨ .gauge ∈ Marker.kinds f.attributes := by
    rcases hd with hmethod | htype
    · right
      rw [← Marker.map_fst_declarations hf'.markers.fits]
      exact mem_map_fst_of_get_pairs hmethod
    · left
      exact mem_map_fst_of_get_pairs htype
  have hothers := hf'.gauge hreceiver hgauge
  refine ⟨f, hf, ?_⟩
  calc
    f.parameters = ⟨f.parameters.hasReceiver, f.parameters.others⟩ := rfl
    _ = ⟨true, 0⟩ := by rw [hreceiver, hothers]

end Expansion

namespace Instrumented

theorem forall₂_lineage {blocks : List ImplBlock} {t : TypeInfo} (h : Instrumented blocks t) :
    List.Forall₂ ComesFrom t.lineage blocks := by
  induction h with
  | root hblock _ =>
    rw [TypeInfo.lineage_of_parent?_eq_none (Expansion.parent?_typeInfo hblock _ _)]
    exact .cons ⟨_, _, _, _, hblock, rfl⟩ .nil
  | heir hblock _ _ ih =>
    rw [TypeInfo.lineage_of_parent?_eq_some (Expansion.parent?_typeInfo hblock _ _)]
    exact .cons ⟨_, _, _, _, hblock, rfl⟩ ih

theorem exists_block {blocks : List ImplBlock} {t a : TypeInfo} (h : Instrumented blocks t)
    (ha : a ∈ t.lineage) : ∃ block, (a, block) ∈ t.lineage.zip blocks := by
  have hlength := h.forall₂_lineage.length_eq
  rw [← List.map_fst_zip (Nat.le_of_eq hlength), List.mem_map] at ha
  obtain ⟨⟨_, block⟩, hmem, rfl⟩ := ha
  exact ⟨block, hmem⟩

theorem comesFrom {blocks : List ImplBlock} {t a : TypeInfo} {block : ImplBlock}
    (h : Instrumented blocks t) (ha : (a, block) ∈ t.lineage.zip blocks) : ComesFrom a block :=
  (List.forall₂_iff_zip.1 h.forall₂_lineage).2 ha

theorem block_unique {blocks : List ImplBlock} {t a : TypeInfo} {block block' : ImplBlock}
    (h : Instrumented blocks t) (hb : (a, block) ∈ t.lineage.zip blocks)
    (hb' : (a, block') ∈ t.lineage.zip blocks) : block = block' := by
  have hnodup : ((t.lineage.zip blocks).map Prod.fst).Nodup := by
    rw [List.map_fst_zip (Nat.le_of_eq h.forall₂_lineage.length_eq)]
    exact TypeInfo.nodup_lineage t
  exact congrArg Prod.snd (List.inj_on_of_nodup_map hnodup hb hb' rfl)

end Instrumented

namespace Instrumentation

open Expansion

theorem exists_plain_of_gauge {w : Instrumentation} {t : TypeInfo} {blocks : List ImplBlock}
    {b : Binding} (h : Instrumented blocks t) (hb : b ∈ w.plan t) (hk : b.kind = .gauge) :
    ∃ a block, t.nearest? b.method = some a ∧ b.owner = a.fullName ∧
      (a, block) ∈ t.lineage.zip blocks ∧
        ∃ f, definition? block b.method = some f ∧ f.parameters = ⟨true, 0⟩ := by
  obtain ⟨a, c, d, hnearest, hc, hd, _, howner⟩ := (mem_plan_iff_of_gauge hk).1 hb
  obtain ⟨block, hblock⟩ := h.exists_block (TypeInfo.mem_lineage_of_nearest? hnearest).1
  exact ⟨a, block, hnearest, howner, hblock,
    parameters_of_gauge (h.comesFrom hblock) hc (Resolver.mem_of_find?_eq_some hd)⟩

/-- The arguments of a type under the queue. -/
def underQueue : TypeArguments := { parent := some queueBlock.selfType }

/-- A queue of another sort, whose length depends on a number. -/
def urgentBlock : ImplBlock := plainBlock "Urgent" [
  emptyFunction [] "len" ⟨true, 1⟩ selfAndNumber]

/-- Under any resolver and any namer, a gauge is only bound to a method that its declaring type
defines without parameters besides the receiver. Where the nearest definition has further
parameters, no gauge is bound, whatever the ancestors declare. -/
theorem gauges_without_parameters (w : Instrumentation) {blocks : List ImplBlock} {t : TypeInfo}
    (h : Instrumented blocks t) :
    (∀ b ∈ w.plan t, b.kind = .gauge →
      ∃ a block, t.nearest? b.method = some a ∧ b.owner = a.fullName ∧
        (a, block) ∈ t.lineage.zip blocks ∧
          ∃ f, definition? block b.method = some f ∧ f.parameters = ⟨true, 0⟩) ∧
    (∀ name a block f, t.nearest? name = some a → (a, block) ∈ t.lineage.zip blocks →
      definition? block name = some f → f.parameters.others ≠ 0 →
        ∀ b ∈ w.plan t, b.kind = .gauge → b.method ≠ name) := by
  refine ⟨fun b hb hk => exists_plain_of_gauge h hb hk, ?_⟩
  rintro name a block f hnearest hblock hf hothers b hb hk rfl
  obtain ⟨a', block', hnearest', _, hblock', f', hf', hplain⟩ := exists_plain_of_gauge h hb hk
  rw [hnearest] at hnearest'
  cases hnearest'
  rw [h.block_unique hblock' hblock, hf] at hf'
  cases hf'
  exact hothers (by rw [hplain])

/-- The heir of a type with two gauges gives one of them a parameter, and is left with the other. -/
theorem gauges_without_parameters_of_urgent :
    let base := (expanded countedType queueBlock (.ofType "Queue")).typeInfo "shop" none
    let urgent := (expanded underQueue urgentBlock (.ofType "Urgent")).typeInfo "shop" (some base)
    let blocks := [urgentBlock, queueBlock]
    Instrumented blocks urgent ∧
      (∃ b ∈ standard.plan urgent, b.kind = .gauge ∧ b.method = "age") ∧
      (∀ b ∈ standard.plan urgent, b.kind = .gauge →
        ∃ a block, urgent.nearest? b.method = some a ∧ b.owner = a.fullName ∧
          (a, block) ∈ urgent.lineage.zip blocks ∧
            ∃ f, definition? block b.method = some f ∧ f.parameters = ⟨true, 0⟩) ∧
      ∀ b ∈ standard.plan urgent, b.kind = .gauge → b.method ≠ "len" := by
  intro base urgent blocks
  have hurgent : ofBlock underQueue urgentBlock =
      .ok (expanded underQueue urgentBlock (.ofType "Urgent")) := rfl
  have h : Instrumented blocks urgent := .heir hurgent rfl (.root ofBlock_queueBlock rfl)
  obtain ⟨hplain, hnever⟩ := gauges_without_parameters standard h
  refine ⟨h, by decide, hplain, ?_⟩
  exact hnever "len" urgent urgentBlock _ rfl List.mem_cons_self rfl (by decide)

end Instrumentation

end MetricWiring
