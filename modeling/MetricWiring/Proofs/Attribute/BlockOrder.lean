import MetricWiring.Proofs.Attribute.ArgumentOrder
import MetricWiring.Proofs.Attribute.Description

/-!
# The order of markers and arguments

The markers of a method can change places among themselves and with the other attributes, and take
their arguments in any order (`Marker.Rearranged`). They stay in order and declare the same things,
and the other attributes are left as they were. With the arguments of the type rearranged at the
same time, a block that is instrumented remains so and describes the same type
(`Expansion.argument_order_immaterial`).
-/
namespace MetricWiring

open Code (Attribute BlockItem ImplBlock MethodItem TokenTree TypeReader TypeSyntax)

theorem Reordered.filterMap_perm {α β : Type} {R : α → α → Prop} {xs ys : List α} {f : α → Option β}
    (h : Reordered R xs ys) (hf : ∀ x y, R x y → f x = f y) :
    (xs.filterMap f).Perm (ys.filterMap f) := by
  obtain ⟨moved, hperm, hrelated⟩ := h
  have hsame : moved.filterMap f = ys.filterMap f := by
    clear hperm
    induction hrelated with
    | nil => rfl
    | cons hxy _ ih => rw [List.filterMap_cons, List.filterMap_cons, hf _ _ hxy, ih]
  rw [← hsame]
  exact hperm.filterMap f

theorem Reordered.exists_of_mem {α : Type} {R : α → α → Prop} {xs ys : List α} {y : α}
    (h : Reordered R xs ys) (hy : y ∈ ys) : ∃ x ∈ xs, R x y := by
  obtain ⟨moved, hperm, hrelated⟩ := h
  have hmoved : ∃ x ∈ moved, R x y := by
    clear hperm
    induction hrelated with
    | nil => cases hy
    | cons hxy _ ih =>
      rcases List.mem_cons.1 hy with rfl | hy
      · exact ⟨_, List.mem_cons_self, hxy⟩
      · obtain ⟨x, hx, hxy⟩ := ih hy
        exact ⟨x, List.mem_cons_of_mem _ hx, hxy⟩
  obtain ⟨x, hx, hxy⟩ := hmoved
  exact ⟨x, hperm.mem_iff.2 hx, hxy⟩

namespace DeclarationTable

theorem ofList_perm {ps qs : List (Kind × Declaration)} (h : ps.Perm qs)
    (hnodup : (ps.map Prod.fst).Nodup) : ofList ps = ofList qs := by
  have hnodup' : (qs.map Prod.fst).Nodup := (h.map _).nodup_iff.1 hnodup
  refine ext_get fun k => Option.ext fun d => ?_
  rw [get_ofList_eq_some_iff hnodup, get_ofList_eq_some_iff hnodup', h.mem_iff]

end DeclarationTable

namespace Marker

/-- An attribute as it stands, or with its arguments permuted. -/
inductive Varied : Attribute → Attribute → Prop
  | same (a : Attribute) : Varied a a
  | list {path : Code.PlainPath} {inner : Bool} {d : Code.Delimiter}
      {content content' : List TokenTree} (h : DeclarationArgument.Permuted content content') :
      Varied { path, form := .list d content, inner } { path, form := .list d content', inner }

/-- The markers have changed places among themselves and with the other attributes, which stand in
the same order as before. -/
structure Rearranged (as as' : List Attribute) : Prop where
  markers : Reordered Varied (as.filter fun a => (kind? a).isSome)
    (as'.filter fun a => (kind? a).isSome)
  others : remaining as = remaining as'

theorem Varied.kind?_eq {a a' : Attribute} (h : Varied a a') : kind? a = kind? a' := by
  cases h <;> rfl

theorem Varied.written_eq {a a' : Attribute} (h : Varied a a') (k : Kind) :
    written k a = written k a' := by
  cases h with
  | same => rfl
  | list hpermuted => exact DeclarationArguments.ofTrees_permuted hpermuted

theorem Varied.declaration?_eq {a a' : Attribute} (h : Varied a a') :
    declaration? a = declaration? a' := by
  simp only [declaration?, arguments, h.kind?_eq, h.written_eq]

theorem Varied.fits {a a' : Attribute} {k : Kind} (h : Varied a a') (hfits : Fits k a) :
    Fits k a' := by
  cases h with
  | same => exact hfits
  | list hpermuted =>
    obtain ⟨given, given', hlisted, hlisted', hperm, _⟩ := hpermuted.exists_listed
    have hread' := DeclarationArgument.readAll_eq_ok_iff.2 hlisted'
    obtain ⟨given₀, hgiven₀, hcounted⟩ := hfits
    cases hgiven₀ with
    | bare hform => cases hform
    | list hform hread =>
      cases hform
      obtain rfl := (DeclarationArgument.readAll_eq_ok_iff.1 hread).unique hlisted
      exact ⟨given', .list rfl hread', fun hon => hcounted (hperm.mem_iff.2 hon)⟩

/-- What only markers have is found among the markers. -/
theorem filterMap_markers {β : Type} {f : Attribute → Option β} (as : List Attribute)
    (hf : ∀ a, kind? a = none → f a = none) :
    (as.filter fun a => (kind? a).isSome).filterMap f = as.filterMap f :=
  filterMap_filter_of_none (fun a ha => hf a (by simpa using ha)) as

namespace Rearranged

variable {as as' : List Attribute} (h : Rearranged as as')

include h

theorem kinds_perm : (kinds as).Perm (kinds as') := by
  rw [kinds, kinds, ← filterMap_markers as fun _ hk => hk, ← filterMap_markers as' fun _ hk => hk]
  exact h.markers.filterMap_perm fun _ _ hvaried => hvaried.kind?_eq

theorem declarations_perm : (declarations as).Perm (declarations as') := by
  have hnone (a : Attribute) (hk : kind? a = none) : declaration? a = none := by
    simp [declaration?, hk]
  rw [declarations, declarations, ← filterMap_markers as hnone, ← filterMap_markers as' hnone]
  exact h.markers.filterMap_perm fun _ _ hvaried => hvaried.declaration?_eq

/-- Markers that are in order remain so. -/
theorem wellFormed (hwell : WellFormed as) : WellFormed as' where
  fits a' ha' k hk := by
    have hmarker : a' ∈ as'.filter fun a => (kind? a).isSome :=
      List.mem_filter.2 ⟨ha', by simp [hk]⟩
    obtain ⟨a, ha, hvaried⟩ := h.markers.exists_of_mem hmarker
    exact hvaried.fits (hwell.fits a (List.mem_filter.1 ha).1 k (hvaried.kind?_eq.trans hk))
  nodup := h.kinds_perm.nodup_iff.1 hwell.nodup

end Rearranged

end Marker

namespace Expansion

/-- A function with its markers rearranged, or any other item. -/
inductive ItemRearranged : BlockItem → BlockItem → Prop
  | function {m : MethodItem} {attributes : List Attribute}
      (h : Marker.Rearranged m.attributes attributes) :
      ItemRearranged (.function m) (.function { m with attributes })
  | other (written : List TokenTree) : ItemRearranged (.other written) (.other written)

/-- The block with the markers of its functions rearranged. -/
def BlockRearranged (block block' : ImplBlock) : Prop :=
  ∃ items, List.Forall₂ ItemRearranged block.items items ∧ block' = { block with items }

theorem Admissible.rearranged {gaugeType : Prop} {m : MethodItem} {attributes : List Attribute}
    (hm : Admissible gaugeType m) (h : Marker.Rearranged m.attributes attributes) :
    Admissible gaugeType { m with attributes } where
  markers := h.wellFormed hm.markers
  receiver hreceiver := by
    have hkinds := h.kinds_perm
    rw [hm.receiver hreceiver] at hkinds
    exact List.perm_nil.1 hkinds.symm
  gauge hreceiver hgauge := hm.gauge hreceiver (hgauge.imp_right h.kinds_perm.mem_iff.2)

/-- Declarations of different kinds fill a table in any order. -/
theorem ofList_pairs_perm {declared declared' : List (Kind × DeclarationArguments)}
    (h : declared.Perm declared') (hnodup : (declared.map Prod.fst).Nodup) :
    DeclarationTable.ofList (pairs declared) = DeclarationTable.ofList (pairs declared') := by
  have hpairs : (pairs declared).Perm (pairs declared') := h.map _
  refine DeclarationTable.ofList_perm hpairs ?_
  rwa [map_fst_pairs]

theorem described_rearranged {m : MethodItem} {attributes : List Attribute}
    (hm : Marker.WellFormed m.attributes) (h : Marker.Rearranged m.attributes attributes) :
    described { m with attributes } = described m := by
  have hnodup : ((Marker.declarations m.attributes).map Prod.fst).Nodup := by
    rw [Marker.map_fst_declarations hm.fits]
    exact hm.nodup
  simp only [described, Method.ofPairs, ofList_pairs_perm h.declarations_perm hnodup]

/-- A function in order leaves the same with its markers rearranged. -/
theorem ItemRearranged.withoutMarkers_eq {i i' : BlockItem} (h : ItemRearranged i i') :
    withoutMarkers i' = withoutMarkers i := by
  cases h with
  | other => rfl
  | @function m attributes h =>
    have hothers := h.others
    rw [Marker.remaining, Marker.remaining] at hothers
    simp only [withoutMarkers, hothers]

/-- The method that an item becomes, if it is a function that takes an instance. -/
def describedItem (i : BlockItem) : Option Method :=
  (i.function?.filter fun f => f.parameters.hasReceiver).map described

/-- A function in order becomes the same method with its markers rearranged. -/
theorem ItemRearranged.describedItem_eq {i i' : BlockItem} (h : ItemRearranged i i')
    (hi : ∀ m, i.function? = some m → Marker.WellFormed m.attributes) :
    describedItem i' = describedItem i := by
  cases h with
  | other => rfl
  | @function m attributes h =>
    have hdescribed := described_rearranged (hi m rfl) h
    cases hreceiver : m.parameters.hasReceiver <;>
      simp [describedItem, BlockItem.function?, Option.filter_some, hreceiver, hdescribed]

namespace BlockRearranged

variable {block block' : ImplBlock}

theorem admissible {args args' : TypeArguments} (h : BlockRearranged block block')
    (hargs : TypeArguments.SameUpToOrder args args') (hblock : BlockAdmissible args block) :
    BlockAdmissible args' block' := by
  obtain ⟨items, hitems, rfl⟩ := h
  have hkinds : args.kinds.Perm args'.kinds := hargs.declarations.map _
  refine ⟨hblock.inherent, hblock.plain, hargs.space ▸ hblock.named, fun m' hm' => ?_⟩
  obtain ⟨i', hi', hfunction⟩ := List.mem_filterMap.1 hm'
  have hreordered : Reordered ItemRearranged block.items items := ⟨_, .refl _, hitems⟩
  obtain ⟨i, hi, hrearranged⟩ := hreordered.exists_of_mem hi'
  cases hrearranged with
  | other => cases hfunction
  | @function m attributes hmarkers =>
    cases hfunction
    have hm : m ∈ block.methods := List.mem_filterMap.2 ⟨_, hi, rfl⟩
    have hadmissible := (hblock.methods m hm).rearranged hmarkers
    rwa [propext hkinds.mem_iff] at hadmissible

theorem block_expanded (h : BlockRearranged block block') (args args' : TypeArguments)
    (space space' : Namespace) :
    (expanded args' block' space').block = (expanded args block space).block := by
  obtain ⟨items, hitems, rfl⟩ := h
  have hkept : items.map withoutMarkers = block.items.map withoutMarkers := by
    generalize block.items = before at hitems
    induction hitems with
    | nil => rfl
    | cons hitem _ ih => rw [List.map_cons, List.map_cons, hitem.withoutMarkers_eq, ih]
  simp only [expanded, kept_expandedItem, hkept]

theorem map_described (h : BlockRearranged block block')
    (hblock : ∀ m ∈ block.methods, Marker.WellFormed m.attributes) :
    (receiving block').map described = (receiving block).map described := by
  have hitems (block : ImplBlock) :
      (receiving block).map described = block.items.filterMap describedItem := by
    rw [receiving, ImplBlock.methods, List.filter_filterMap, List.map_filterMap]
    rfl
  rw [hitems, hitems]
  obtain ⟨items, hrearranged, rfl⟩ := h
  have hfunctions : ∀ i ∈ block.items, ∀ m, i.function? = some m →
      Marker.WellFormed m.attributes := fun i hi m hm =>
    hblock m (List.mem_filterMap.2 ⟨i, hi, hm⟩)
  clear hblock
  generalize block.items = before at hrearranged hfunctions
  induction hrearranged with
  | nil => rfl
  | cons hitem _ ih =>
    obtain ⟨hfirst, hrest⟩ := List.forall_mem_cons.1 hfunctions
    simp only [List.filterMap_cons] at ih ⊢
    rw [hitem.describedItem_eq hfirst, ih hrest]

/-- What is written makes the same type, though the calls may come in another order. -/
theorem typeInfo_expanded_eq {args args' : TypeArguments} (h : BlockRearranged block block')
    (hargs : TypeArguments.SameUpToOrder args args')
    (hnodup : (args.declarations.map Prod.fst).Nodup)
    (hblock : ∀ m ∈ block.methods, Marker.WellFormed m.attributes) (space : Namespace)
    (module : String) (parent : Option TypeInfo) :
    (expanded args' block' space).typeInfo module parent =
      (expanded args block space).typeInfo module parent := by
  rw [typeInfo_expanded, typeInfo_expanded, h.map_described hblock,
    ofList_pairs_perm hargs.declarations hnodup]

end BlockRearranged

/-- An accepted list of arguments divides at its commas. If no word is repeated in it, what stands
between the commas can change places, declarations can have their arguments permuted, and so can the
markers of the block, which can also change places among the attributes of their functions: the
block is instrumented as before, with the same type and the same attributes left. Of the reader of
types it matters that it neither passes commas nor looks into groups behind a type. -/
theorem argument_order_immaterial {types : TypeReader} (hcommas : types.StopsAtCommas)
    (hbrackets : types.SeesBrackets) {ts ts' : List TokenTree} {args : TypeArguments}
    {block block' : ImplBlock} {x : Expansion} (hargs : TypeArguments.ofTrees types ts = .ok args)
    (hblock : ofBlock args block = .ok x)
    (hwords : ∀ given, TypeArgument.Listed types ts given → (given.map TypeArgument.word).Nodup)
    (hts : TypeArgument.Rearranged types ts ts') (hmarkers : BlockRearranged block block') :
    (∃ runs, TypeArgument.Joined runs ts ∧ ∀ runs' ts', runs.Perm runs' →
      TypeArgument.Joined runs' ts' → TypeArgument.Rearranged types ts ts') ∧
    ∃ args' x', TypeArguments.ofTrees types ts' = .ok args' ∧ ofBlock args' block' = .ok x' ∧
      x'.block = x.block ∧ x'.kept = x.kept ∧ x'.parent = x.parent ∧
        ∀ module parent, x'.typeInfo module parent = x.typeInfo module parent := by
  obtain ⟨_, hlisted, _, _⟩ := TypeArguments.of_ofTrees_eq_ok hargs
  refine ⟨hlisted.exists_joined hcommas, ?_⟩
  obtain ⟨args', hargs', hsame⟩ :=
    TypeArguments.ofTrees_of_rearranged hcommas hbrackets hargs hts hwords
  obtain ⟨hadmissible, space, hspace, rfl⟩ := of_ofBlock_eq_ok hblock
  obtain ⟨space', hspace', hblock'⟩ := exists_ofBlock_eq_ok (hmarkers.admissible hsame hadmissible)
  have hselfType : block'.selfType = block.selfType := by
    obtain ⟨items, _, rfl⟩ := hmarkers
    rfl
  have hsamespace : space' = space := by
    rw [namespaceOf, hselfType, ← hsame.space] at hspace'
    rw [namespaceOf, hspace'] at hspace
    exact Option.some.inj hspace
  subst hsamespace
  have hkept := hmarkers.block_expanded args args' space' space'
  refine ⟨args', _, hargs', hblock', hkept, ?_, hsame.parent.symm, ?_⟩
  · rw [kept, kept, hkept]
  · exact hmarkers.typeInfo_expanded_eq hsame (TypeArguments.nodup_kinds_of_ofTrees hargs)
      (fun m hm => (hadmissible.methods m hm).markers) space'

/-- The arguments `name = "run"` and `absolute`. -/
def nameItem : List TokenTree :=
  [.ident ⟨"name", false⟩, .punct '=' false, .literal (.string "run" "\"run\"")]

def absoluteItem : List TokenTree := [.ident ⟨"absolute", false⟩]

/-- Two items with a comma between them. -/
def separated (item item' : List TokenTree) : List TokenTree :=
  item ++ [.punct ',' false] ++ item'

/-- A declaration of the given kind with arguments. -/
def listItem (k : Kind) (content : List TokenTree) : List TokenTree :=
  [.ident ⟨k.keyword, false⟩, .group .parenthesis content]

/-- An attribute whose path is the given word. -/
def wordAttribute (word : String) (form : Code.AttributeForm) : Attribute where
  path := ⟨false, [⟨word, false⟩]⟩
  form := form

/-- A block with one function that has the given attributes. -/
def workerBlock (attributes : List Attribute) : ImplBlock := plainBlock "Worker" [.function {
  attributes
  header := [.ident ⟨"fn", false⟩, .ident ⟨"run", false⟩, .group .parenthesis selfOnly]
  name := ⟨"run", false⟩
  parameters := ⟨true, 0⟩
  body := [] }]

/-- Two declarations of a type change places, two arguments do in one of them and in a marker, and
the marker passes another attribute. -/
theorem argument_order_immaterial_of_worker :
    let content := separated nameItem absoluteItem
    let content' := separated absoluteItem nameItem
    let ts := separated (listItem .timed content) (listItem .metered [])
    let ts' := separated (listItem .metered []) (listItem .timed content')
    let inline := wordAttribute "inline" .bare
    let block := workerBlock [wordAttribute "counted" (.list .parenthesis content), inline]
    let block' := workerBlock [inline, wordAttribute "counted" (.list .parenthesis content')]
    TypeReader.standard.StopsAtCommas ∧ TypeReader.standard.SeesBrackets ∧
    ∃ args x, TypeArguments.ofTrees .standard ts = .ok args ∧ ofBlock args block = .ok x ∧
      (∀ given, TypeArgument.Listed .standard ts given →
        (given.map TypeArgument.word).Nodup) ∧
      TypeArgument.Rearranged .standard ts ts' ∧ BlockRearranged block block' ∧
      ∃ args' x', TypeArguments.ofTrees .standard ts' = .ok args' ∧
        ofBlock args' block' = .ok x' ∧
        x'.block = x.block ∧ x'.kept = x.kept ∧ x'.parent = x.parent ∧
          ∀ module parent, x'.typeInfo module parent = x.typeInfo module parent := by
  intro content content' ts ts' inline block block'
  have hcontent : DeclarationArgument.Listed content [.name "run", .absolute true] :=
    .cons .name .comma (.cons (.absolute .bare) .nothing .nil)
  have hpermuted : DeclarationArgument.Permuted content content' :=
    ⟨[nameItem, absoluteItem], [absoluteItem, nameItem], [.name "run", .absolute true],
      .cons .comma (.cons .nothing .nil), .swap _ _ _, .cons .comma (.cons .nothing .nil),
      .cons .name (.cons (.absolute .bare) .nil), by decide⟩
  have hlisted : TypeArgument.Listed .standard ts
      [.declaration .timed (.ofList [.name "run", .absolute true]),
        .declaration .metered (.ofList [])] :=
    .cons (.list hcontent) .comma (.cons (.list .nil) .nothing .nil)
  have hconsistent : TypeArguments.Consistent
      [.declaration .timed (.ofList [.name "run", .absolute true]),
        .declaration .metered (.ofList [])] :=
    ⟨by simp [TypeArgument.Valid, DeclarationArguments.ofList, DeclarationArguments.add], by decide⟩
  have hargs := TypeArguments.ofTrees_of_listed hlisted hconsistent
  have hwords : ∀ given, TypeArgument.Listed .standard ts given →
      (given.map TypeArgument.word).Nodup := by
    intro given hgiven
    rw [← hlisted.unique hgiven]
    decide
  have hts : TypeArgument.Rearranged .standard ts ts' :=
    ⟨[listItem .timed content, listItem .metered []],
      [listItem .metered [], listItem .timed content'], .cons .last,
      ⟨_, .swap _ _ _, .cons (.last (.list .nil) (.same _))
        (.cons (.last (.list hcontent) (.list hpermuted)) .nil)⟩, .cons .last⟩
  have hmarkers : BlockRearranged block block' := by
    have hmarker : Reordered Marker.Varied
        [wordAttribute "counted" (.list .parenthesis content)]
        [wordAttribute "counted" (.list .parenthesis content')] :=
      ⟨_, .refl _, .cons (.list hpermuted) .nil⟩
    exact ⟨block'.items, .cons (.function ⟨hmarker, rfl⟩) .nil, rfl⟩
  have hfits : Marker.Fits .counted (wordAttribute "counted" (.list .parenthesis content)) :=
    ⟨_, .list rfl (DeclarationArgument.readAll_eq_ok_iff.2 hcontent), fun _ => rfl⟩
  have hwell : Marker.WellFormed
      [wordAttribute "counted" (.list .parenthesis content), inline] := by
    refine ⟨fun a ha k hk => ?_, by decide⟩
    rcases List.mem_pair.1 ha with rfl | rfl
    · obtain rfl : Kind.counted = k := Option.some.inj hk
      exact hfits
    · cases hk
  have hadmissible (args : TypeArguments) : BlockAdmissible args block := by
    have hnamed : block.selfType.lastSegment ≠ none := by
      simp [block, workerBlock, plainBlock, TypeSyntax.lastSegment]
    refine ⟨rfl, rfl, .inr hnamed, fun m hm => ?_⟩
    obtain rfl := List.mem_singleton.1 hm
    exact ⟨hwell, fun h => absurd h (by decide), fun _ _ => rfl⟩
  obtain ⟨space, _, hblock⟩ := exists_ofBlock_eq_ok (hadmissible _)
  have hcommas := TypeReader.standard_stopsAtCommas
  have hbrackets := TypeReader.standard_seesBrackets
  exact ⟨hcommas, hbrackets, _, _, hargs, hblock, hwords, hts, hmarkers,
    (argument_order_immaterial hcommas hbrackets hargs hblock hwords hts hmarkers).2⟩

end Expansion

end MetricWiring
