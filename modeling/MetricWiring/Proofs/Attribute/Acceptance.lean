import MetricWiring.Attribute.Expansion
import MetricWiring.Proofs.Attribute.Markers

/-!
# Which blocks are instrumented

A block is instrumented exactly if it is an inherent one without generics whose type has a name or
is given a namespace, and each of its functions has markers in order and the parameters that they
ask for (`ofBlock_decides`). For any other block the first defect in this order is reported, where
functions are looked at one after the other, and the markers of each before its parameters.
-/
namespace MetricWiring.Expansion

open Code (BlockItem ImplBlock MethodItem)

/-- What is asked of a function. The type is or is not declared a gauge as a whole. -/
structure Admissible (gaugeType : Prop) (m : MethodItem) : Prop where
  markers : Marker.WellFormed m.attributes
  receiver : m.parameters.hasReceiver = false → Marker.kinds m.attributes = []
  gauge : m.parameters.hasReceiver = true → gaugeType ∨ .gauge ∈ Marker.kinds m.attributes →
    m.parameters.others = 0

/-- What is wrong with a function. -/
inductive MethodDefect (gaugeType : Prop) (m : MethodItem) : AttributeError → Prop
  | markers {e : AttributeError} (hfirst : Marker.FirstDefect m.attributes e) :
      MethodDefect gaugeType m e
  | receiver {k : Kind} {ks : List Kind} (hmarkers : Marker.WellFormed m.attributes)
      (hreceiver : m.parameters.hasReceiver = false)
      (hkinds : Marker.kinds m.attributes = k :: ks) :
      MethodDefect gaugeType m (.receiverRequired k)
  | gauge (hmarkers : Marker.WellFormed m.attributes)
      (hreceiver : m.parameters.hasReceiver = true)
      (hgauge : gaugeType ∨ .gauge ∈ Marker.kinds m.attributes)
      (hothers : m.parameters.others ≠ 0) :
      MethodDefect gaugeType m .gaugeParameters

/-- What is asked of a block. -/
structure BlockAdmissible (args : TypeArguments) (block : ImplBlock) : Prop where
  inherent : block.ofTrait = false
  plain : block.genericCount = 0
  named : args.space ≠ none ∨ block.selfType.lastSegment ≠ none
  methods : ∀ m ∈ block.methods, Admissible (.gauge ∈ args.kinds) m

/-- What is wrong with a block. -/
inductive BlockDefect (args : TypeArguments) (block : ImplBlock) : AttributeError → Prop
  | ofTrait (htrait : block.ofTrait = true) : BlockDefect args block .traitBlock
  | generic (htrait : block.ofTrait = false) (hgeneric : block.genericCount ≠ 0) :
      BlockDefect args block .genericBlock
  | unnamed (htrait : block.ofTrait = false) (hgeneric : block.genericCount = 0)
      (hspace : args.space = none) (hsegment : block.selfType.lastSegment = none) :
      BlockDefect args block .namespaceRequired
  | method {e : AttributeError} (htrait : block.ofTrait = false) (hgeneric : block.genericCount = 0)
      (hnamed : args.space ≠ none ∨ block.selfType.lastSegment ≠ none)
      (hfirst : First (Admissible (.gauge ∈ args.kinds)) (MethodDefect (.gauge ∈ args.kinds))
        block.methods e) :
      BlockDefect args block e

/-! ## One function -/

/-- What becomes of a function that is in order. -/
def expandedMethod (m : MethodItem) : ExpandedItem where
  kept := .function { m with attributes := Marker.remaining m.attributes }
  method :=
    if m.parameters.hasReceiver then
      some (.emit m.name.name (Marker.declarations m.attributes))
    else none

theorem one_lt_count_iff {p : Code.Parameters} (h : p.hasReceiver = true) :
    1 < p.count ↔ p.others ≠ 0 := by
  simp only [Code.Parameters.count, h, Bool.toNat_true]
  omega

/-- The test for a gauge with parameters, as it is made and as it is meant. -/
theorem refused_iff {m : MethodItem} {gaugeType : Bool} (hmarkers : Marker.WellFormed m.attributes)
    (hreceiver : m.parameters.hasReceiver = true) :
    ((gaugeType || ((Marker.declarations m.attributes).map Prod.fst).contains .gauge) &&
        decide (1 < m.parameters.count)) = true ↔
      (gaugeType = true ∨ .gauge ∈ Marker.kinds m.attributes) ∧ m.parameters.others ≠ 0 := by
  rw [Marker.map_fst_declarations hmarkers.fits, Bool.and_eq_true, Bool.or_eq_true,
    List.contains_iff_mem, decide_eq_true_iff, one_lt_count_iff hreceiver]

theorem ofMethod_of_admissible {m : MethodItem} {gaugeType : Bool}
    (h : Admissible (gaugeType = true) m) : ofMethod gaugeType m = .ok (expandedMethod m) := by
  rw [ofMethod, Marker.take_of_wellFormed h.markers]
  cases hreceiver : m.parameters.hasReceiver with
  | true =>
    have hfine : ¬ ((gaugeType ||
        ((Marker.declarations m.attributes).map Prod.fst).contains .gauge) &&
          decide (1 < m.parameters.count)) = true := by
      rw [refused_iff h.markers hreceiver]
      rintro ⟨hgauge, hothers⟩
      exact hothers (h.gauge hreceiver hgauge)
    simp only [if_true, if_neg hfine, expandedMethod, hreceiver]
  | false =>
    have hnone : Marker.declarations m.attributes = [] := by
      rw [← List.map_eq_nil_iff, Marker.map_fst_declarations h.markers.fits, h.receiver hreceiver]
    simp [hnone, expandedMethod, hreceiver]

theorem ofMethod_of_defect {m : MethodItem} {gaugeType : Bool} {e : AttributeError}
    (h : MethodDefect (gaugeType = true) m e) : ofMethod gaugeType m = .error e := by
  rw [ofMethod]
  cases h with
  | markers hfirst => rw [Marker.take_of_firstDefect hfirst]
  | receiver hmarkers hreceiver hkinds =>
    rw [← Marker.map_fst_declarations hmarkers.fits, List.map_eq_cons_iff] at hkinds
    obtain ⟨⟨k, args⟩, rest, hdeclared, rfl, _⟩ := hkinds
    simp [Marker.take_of_wellFormed hmarkers, hreceiver, hdeclared]
  | gauge hmarkers hreceiver hgauge hothers =>
    have hrefused := (refused_iff hmarkers hreceiver).2 ⟨hgauge, hothers⟩
    simp only [Marker.take_of_wellFormed hmarkers, hreceiver, if_true, if_pos hrefused]

theorem admissible_or_defect (gaugeType : Prop) (m : MethodItem) :
    Admissible gaugeType m ∨ ∃ e, MethodDefect gaugeType m e := by
  rcases Marker.wellFormed_or_firstDefect m.attributes with hmarkers | ⟨e, he⟩
  · cases hreceiver : m.parameters.hasReceiver with
    | true =>
      by_cases hgauge : gaugeType ∨ .gauge ∈ Marker.kinds m.attributes
      · by_cases hothers : m.parameters.others = 0
        · exact .inl ⟨hmarkers, by simp [hreceiver], fun _ _ => hothers⟩
        · exact .inr ⟨_, .gauge hmarkers hreceiver hgauge hothers⟩
      · exact .inl ⟨hmarkers, by simp [hreceiver], fun _ h => absurd h hgauge⟩
    | false =>
      cases hkinds : Marker.kinds m.attributes with
      | nil => exact .inl ⟨hmarkers, fun _ => hkinds, by simp [hreceiver]⟩
      | cons k ks => exact .inr ⟨_, .receiver hmarkers hreceiver hkinds⟩
  · exact .inr ⟨e, .markers he⟩

/-! ## All items of a block -/

/-- What becomes of an item that is in order. -/
def expandedItem : BlockItem → ExpandedItem
  | .function m => expandedMethod m
  | .other written => ⟨.other written, none⟩

theorem ofItem_of_admissible {gaugeType : Bool} {items : List BlockItem}
    (h : ∀ m ∈ items.filterMap BlockItem.function?, Admissible (gaugeType = true) m) :
    ∀ i ∈ items, ofItem gaugeType i = .ok (expandedItem i) := by
  intro i hi
  cases i with
  | function m => exact ofMethod_of_admissible (h m (List.mem_filterMap.2 ⟨_, hi, rfl⟩))
  | other written => rfl

theorem mapM_ofItem_of_first {gaugeType : Bool} {items : List BlockItem} {e : AttributeError}
    (h : First (Admissible (gaugeType = true)) (MethodDefect (gaugeType = true))
      (items.filterMap BlockItem.function?) e) :
    items.mapM (ofItem gaugeType) = .error e := by
  obtain ⟨before, m, after, hsplit, hbefore, hdefect⟩ := h
  -- The items before the function are those of the functions before it and some that are none.
  obtain ⟨front, back, rfl, hfront, hback⟩ := List.filterMap_eq_append_iff.1 hsplit
  obtain ⟨skipped, i, rest, rfl, hskipped, hi, _⟩ := List.filterMap_eq_cons_iff.1 hback
  rw [← List.append_assoc]
  apply mapM_eq_error (g := expandedItem)
  · apply ofItem_of_admissible
    have hnone : skipped.filterMap BlockItem.function? = [] :=
      List.filterMap_eq_nil_iff.2 hskipped
    rwa [List.filterMap_append, hfront, hnone, List.append_nil]
  · cases i with
    | function f =>
      cases hi
      exact ofMethod_of_defect hdefect
    | other written => cases hi

/-! ## The block -/

/-- What becomes of a block that is in order. -/
def expanded (args : TypeArguments) (block : ImplBlock) (space : Namespace) : Expansion where
  block := { block with items := block.items.map fun i => (expandedItem i).kept }
  space := space
  parent := args.parent
  declares := args.declarations.map .emit
  methods := block.items.filterMap fun i => (expandedItem i).method

theorem namespaceOf_eq_none_iff {args : TypeArguments} {selfType : Code.TypeSyntax} :
    namespaceOf args selfType = none ↔ args.space = none ∧ selfType.lastSegment = none := by
  rw [namespaceOf]
  cases args.space <;> simp

theorem exists_namespaceOf {args : TypeArguments} {selfType : Code.TypeSyntax}
    (h : args.space ≠ none ∨ selfType.lastSegment ≠ none) :
    ∃ space, namespaceOf args selfType = some space := by
  rw [← Option.ne_none_iff_exists', Ne, namespaceOf_eq_none_iff, not_and_or]
  exact h

theorem contains_kinds (args : TypeArguments) :
    (args.kinds.contains .gauge = true) = (.gauge ∈ args.kinds) :=
  propext List.contains_iff_mem

theorem exists_ofBlock_eq_ok {args : TypeArguments} {block : ImplBlock}
    (h : BlockAdmissible args block) :
    ∃ space, namespaceOf args block.selfType = some space ∧
      ofBlock args block = .ok (expanded args block space) := by
  obtain ⟨space, hspace⟩ := exists_namespaceOf h.named
  have hmethods := h.methods
  rw [← contains_kinds] at hmethods
  have hitems := mapM_eq_ok (ofItem_of_admissible hmethods)
  refine ⟨space, hspace, ?_⟩
  rw [ofBlock, if_neg (by simp [h.inherent]), if_neg (by simp [h.plain])]
  simp only [hspace, hitems, expanded, List.map_map, List.filterMap_map]
  rfl

theorem ofBlock_of_defect {args : TypeArguments} {block : ImplBlock} {e : AttributeError}
    (h : BlockDefect args block e) : ofBlock args block = .error e := by
  rw [ofBlock]
  cases h with
  | ofTrait htrait => rw [if_pos htrait]
  | generic htrait hgeneric => rw [if_neg (by simp [htrait]), if_pos hgeneric]
  | unnamed htrait hgeneric hspace hsegment =>
    have hnone := namespaceOf_eq_none_iff.2 ⟨hspace, hsegment⟩
    simp [htrait, hgeneric, hnone]
  | method htrait hgeneric hnamed hfirst =>
    obtain ⟨space, hspace⟩ := exists_namespaceOf hnamed
    rw [← contains_kinds] at hfirst
    rw [if_neg (by simp [htrait]), if_neg (by simp [hgeneric])]
    simp only [hspace]
    rw [mapM_ofItem_of_first hfirst]

theorem blockAdmissible_or_defect (args : TypeArguments) (block : ImplBlock) :
    BlockAdmissible args block ∨ ∃ e, BlockDefect args block e := by
  cases htrait : block.ofTrait with
  | true => exact .inr ⟨_, .ofTrait htrait⟩
  | false =>
    by_cases hgeneric : block.genericCount = 0
    · by_cases hnamed : args.space ≠ none ∨ block.selfType.lastSegment ≠ none
      · rcases all_or_first (admissible_or_defect (.gauge ∈ args.kinds)) block.methods with
          hall | ⟨e, hfirst⟩
        · exact .inl ⟨htrait, hgeneric, hnamed, hall⟩
        · exact .inr ⟨e, .method htrait hgeneric hnamed hfirst⟩
      · rw [not_or, not_not, not_not] at hnamed
        exact .inr ⟨_, .unnamed htrait hgeneric hnamed.1 hnamed.2⟩
    · exact .inr ⟨_, .generic htrait hgeneric⟩

/-- What an instrumented block has become. -/
theorem of_ofBlock_eq_ok {args : TypeArguments} {block : ImplBlock} {x : Expansion}
    (h : ofBlock args block = .ok x) :
    BlockAdmissible args block ∧
      ∃ space, namespaceOf args block.selfType = some space ∧ x = expanded args block space := by
  rcases blockAdmissible_or_defect args block with hblock | ⟨e, he⟩
  · obtain ⟨space, hspace, hok⟩ := exists_ofBlock_eq_ok hblock
    rw [hok] at h
    cases h
    exact ⟨hblock, space, hspace, rfl⟩
  · rw [ofBlock_of_defect he] at h
    cases h

/-- A block is instrumented exactly if it is in order, and otherwise the answer is its first
defect. -/
theorem ofBlock_decides (args : TypeArguments) (block : ImplBlock) :
    Decides (ofBlock args block) (BlockAdmissible args block) (BlockDefect args block) := by
  apply Decides.of_total
  · intro h
    obtain ⟨space, _, hok⟩ := exists_ofBlock_eq_ok h
    exact ⟨_, hok⟩
  · intro e he
    exact ofBlock_of_defect he
  · exact blockAdmissible_or_defect args block

end MetricWiring.Expansion
