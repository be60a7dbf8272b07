import MetricWiring.Proofs.Attribute.Acceptance
import MetricWiring.Proofs.TypeBuilding

/-!
# What an instrumented block describes

The type that comes of a block says what the arguments and the block say, and nothing else
(`typeInfo_exact`): its methods are the functions that take an instance, the last one under each
name, with one declaration for each marker. Of the block itself only the markers are taken away.
-/
namespace MetricWiring

open Code (Attribute BlockItem ImplBlock MethodItem TokenTree TypeReader TypeSyntax)

/-! ## Module paths -/

namespace Namespace

theorem dotted_append {s : List Char} (h : ':' ∉ s) (r : List Char) :
    dotted (s ++ r) = s ++ dotted r := by
  induction s with
  | nil => rfl
  | cons c s ih =>
    rw [List.mem_cons, not_or] at h
    rw [List.cons_append, List.cons_append, ← ih h.2, dotted]
    intro _ hc
    exact absurd hc.symm h.1

theorem dotted_intercalate {segments : List (List Char)} (h : ∀ s ∈ segments, ':' ∉ s) :
    dotted ([':', ':'].intercalate segments) = ['.'].intercalate segments := by
  induction segments with
  | nil => rfl
  | cons s rest ih =>
    rw [List.forall_mem_cons] at h
    cases rest with
    | nil => simpa [dotted] using dotted_append h.1 []
    | cons next rest =>
      rw [List.intercalate_cons_cons, List.intercalate_cons_cons, List.append_assoc,
        dotted_append h.1, List.append_assoc, ← ih h.2]
      rfl

/-- Seen from the module with the given path, a type is named under the segments of the path. -/
theorem within_of_path {path : List String} (h : ∀ s ∈ path, ':' ∉ s.toList) (name : String) :
    (ofType name).within ("::".intercalate path) = ".".intercalate path ++ "." ++ name := by
  have hsegments : ∀ s ∈ path.map String.toList, ':' ∉ s := by simpa using h
  have hpath : String.ofList (dotted ("::".intercalate path).toList) = ".".intercalate path := by
    rw [← String.toList_inj, String.toList_ofList, String.toList_intercalate,
      String.toList_intercalate]
    exact dotted_intercalate hsegments
  rw [within, hpath]

end Namespace

/-! ## Functions that take an instance -/

/-- The functions of a block that take an instance. -/
def receiving (block : ImplBlock) : List MethodItem :=
  block.methods.filter fun f => f.parameters.hasReceiver

/-- The function that a method comes from: the last one of its name. -/
def definition? (block : ImplBlock) (name : String) : Option MethodItem :=
  ((receiving block).filter fun f => f.name.name == name).getLast?

/-- A function without its markers. All other items stay as they are. -/
def withoutMarkers : BlockItem → BlockItem
  | .function f =>
    .function { f with attributes := f.attributes.filter fun a => (Marker.kind? a).isNone }
  | .other written => .other written

theorem of_definition?_eq_some {block : ImplBlock} {name : String} {f : MethodItem}
    (h : definition? block name = some f) :
    f ∈ block.methods ∧ f.parameters.hasReceiver = true ∧ f.name.name = name := by
  obtain ⟨hreceiving, hname⟩ := List.mem_filter.1 (List.mem_of_getLast? h)
  obtain ⟨hmem, hreceiver⟩ := List.mem_filter.1 hreceiving
  exact ⟨hmem, hreceiver, eq_of_beq hname⟩

namespace Expansion

/-- The declarations that arguments describe. -/
def pairs (declared : List (Kind × DeclarationArguments)) : List (Kind × Declaration) :=
  declared.map fun d => (d.1, ⟨d.2.name.getD "", d.2.absolute, d.2.monotonic⟩)

/-- The method that a function becomes. -/
def described (f : MethodItem) : Method :=
  .ofPairs f.name.name (pairs (Marker.declarations f.attributes))

/-- The code that is written for a function. -/
def written (f : MethodItem) : MethodTerm :=
  .emit f.name.name (Marker.declarations f.attributes)

theorem method_expandedItem (i : BlockItem) :
    (expandedItem i).method =
      (i.function?.filter fun f => f.parameters.hasReceiver).map written := by
  cases i with
  | function f =>
    cases hreceiver : f.parameters.hasReceiver <;>
      simp [expandedItem, expandedMethod, BlockItem.function?, Option.filter_some, hreceiver,
        written]
  | other written => rfl

theorem methods_expanded (args : TypeArguments) (block : ImplBlock) (space : Namespace) :
    (expanded args block space).methods = (receiving block).map written := by
  rw [receiving, ImplBlock.methods, List.filter_filterMap, List.map_filterMap]
  simp only [expanded, method_expandedItem]

/-! ## Running what is written -/

theorem map_eval_emit (declared : List (Kind × DeclarationArguments)) :
    (declared.map DeclareTerm.emit).map DeclareTerm.eval = pairs declared := by
  rw [List.map_map, pairs]
  exact List.map_congr_left fun d _ => DeclareTerm.eval_emit d

theorem step_call_emit (d : Kind × DeclarationArguments) :
    (DeclareTerm.emit d).call.step =
      .declare d.1 ⟨d.2.name.getD "", d.2.absolute, d.2.monotonic⟩ := by
  have heval := DeclareTerm.eval_emit d
  rw [DeclareTerm.eval, Prod.mk.injEq] at heval
  rw [DeclareTerm.call, BuilderCall.step, heval.1, heval.2]

theorem step_call_written (f : MethodItem) : (written f).call.step = .method (described f) := by
  rw [MethodTerm.call, BuilderCall.step, written, MethodTerm.emit, map_eval_emit, described]

/-- The written calls give the type its parent, the declarations and the methods. -/
theorem map_step_calls (args : TypeArguments) (block : ImplBlock) (space : Namespace)
    (parent : Option TypeInfo) :
    ((expanded args block space).calls parent).map BuilderCall.step =
      parent.toList.map .parent ++ (pairs args.declarations).map (fun d => .declare d.1 d.2) ++
        ((receiving block).map described).map .method := by
  rw [calls, methods_expanded]
  simp only [expanded, pairs, List.map_append, List.map_map, Function.comp_def, step_call_emit,
    step_call_written]
  rfl

theorem typeInfo_expanded (args : TypeArguments) (block : ImplBlock) (space : Namespace)
    (module : String) (parent : Option TypeInfo) :
    (expanded args block space).typeInfo module parent =
      { own := {
          fullName := space.within module
          declarations := .ofList (pairs args.declarations)
          methods := .ofList ((receiving block).map described) }
        ancestors := (parent.map fun p => p.own :: p.ancestors).getD [] } := by
  rw [typeInfo, BuilderCall.built_eq_build, map_step_calls]
  exact TypeInfo.build_eq _ _ _ _

theorem find?_described {block : ImplBlock} {name : String} {m : Method} :
    (MethodTable.ofList ((receiving block).map described)).find? name = some m ↔
      ∃ f, definition? block name = some f ∧ described f = m := by
  rw [MethodTable.find?_ofList, List.filter_map, List.getLast?_map, Option.map_eq_some_iff]
  rfl

theorem map_fst_pairs (declared : List (Kind × DeclarationArguments)) :
    (pairs declared).map Prod.fst = declared.map Prod.fst := by
  rw [pairs, List.map_map]
  rfl

theorem declarations_described {f : MethodItem} (h : Marker.WellFormed f.attributes) :
    (described f).declarations.toList.Perm (pairs (Marker.declarations f.attributes)) := by
  apply DeclarationTable.toList_ofList_perm
  rw [map_fst_pairs, Marker.map_fst_declarations h.fits]
  exact h.nodup

theorem kept_expandedItem (i : BlockItem) : (expandedItem i).kept = withoutMarkers i := by
  cases i with
  | function f => rfl
  | other written => rfl

/-! ## The type of a block -/

/-- The type says what the arguments and the block say, seen from a module, and nothing else.
Parents are looked up as they are written. -/
structure Describes (given : List TypeArgument) (block : ImplBlock) (module : String)
    (typeOf : TypeSyntax → TypeInfo) (t : TypeInfo) : Prop where
  space : ∀ s, (given.filterMap TypeArgument.space?).getLast? = some s → t.fullName = s
  derived : given.filterMap TypeArgument.space? = [] →
    ∃ i, block.selfType.lastSegment = some i ∧
      t.fullName = .ofList (Namespace.dotted module.toList) ++ "." ++ i.name ∧
        ∀ path : List String, (∀ s ∈ path, ':' ∉ s.toList) → module = "::".intercalate path →
          t.fullName = ".".intercalate path ++ "." ++ i.name
  parent : t.parent? = (given.filterMap TypeArgument.parent?).getLast?.map typeOf
  declarations : t.declarations.toList.Perm
    ((given.filterMap TypeArgument.declaration?).map fun d =>
      (d.1, ⟨d.2.name.getD "", d.2.absolute, d.2.monotonic⟩))
  names : t.methods.map Method.name = ((receiving block).map fun f => f.name.name).eraseDups
  /-- Each method has one declaration for each marker of the function it comes from. -/
  methods : ∀ m ∈ t.methods, ∃ f, definition? block m.name = some f ∧
    ∃ declared, List.Forall₂ Marker.Declares
        (f.attributes.filter fun a => (Marker.kind? a).isSome) declared ∧
      m.declarations.toList.Perm declared

theorem space_of_getLast? {args : TypeArguments} {given : List TypeArgument} {s : String}
    {selfType : TypeSyntax} {space : Namespace} (hsum : TypeArguments.SumsUp {} given args)
    (hspace : namespaceOf args selfType = some space)
    (hs : (given.filterMap TypeArgument.space?).getLast? = some s) : space = .given s := by
  have hargs : args.space = some s := by rw [hsum.space, hs, Option.some_or]
  rw [namespaceOf, hargs] at hspace
  exact (Option.some.inj hspace).symm

theorem space_of_none {args : TypeArguments} {given : List TypeArgument} {selfType : TypeSyntax}
    {space : Namespace} (hsum : TypeArguments.SumsUp {} given args)
    (hspace : namespaceOf args selfType = some space)
    (hnone : given.filterMap TypeArgument.space? = []) :
    ∃ i, selfType.lastSegment = some i ∧ space = .ofType i.name := by
  have hargs : args.space = none := by
    rw [hsum.space, hnone]
    rfl
  simp only [namespaceOf, hargs, Option.map_eq_some_iff] at hspace
  obtain ⟨i, hi, rfl⟩ := hspace
  exact ⟨i, hi, rfl⟩

theorem describes_expanded {args : TypeArguments} {given : List TypeArgument} {block : ImplBlock}
    {space : Namespace} (hsum : TypeArguments.SumsUp {} given args)
    (hblock : BlockAdmissible args block) (hspace : namespaceOf args block.selfType = some space)
    (module : String) (typeOf : TypeSyntax → TypeInfo) :
    Describes given block module typeOf
      ((expanded args block space).typeInfo module (args.parent.map typeOf)) := by
  rw [typeInfo_expanded]
  constructor
  case space =>
    intro s hs
    rw [space_of_getLast? hsum hspace hs]
    rfl
  case derived =>
    intro hnone
    obtain ⟨i, hi, rfl⟩ := space_of_none hsum hspace hnone
    refine ⟨i, hi, rfl, ?_⟩
    rintro path hpath rfl
    exact Namespace.within_of_path hpath i.name
  case parent =>
    have hparent := hsum.parent
    rw [Option.or_none] at hparent
    rw [← hparent]
    cases args.parent <;> rfl
  case declarations =>
    have hnodup := hsum.nodup List.nodup_nil
    have hdeclared := hsum.declarations
    rw [List.nil_append] at hdeclared
    rw [← hdeclared]
    apply DeclarationTable.toList_ofList_perm
    rw [map_fst_pairs]
    exact hnodup
  case names =>
    have hnames := MethodTable.names_ofList ((receiving block).map described)
    rw [List.map_map] at hnames
    exact hnames
  case methods =>
    intro m hm
    obtain ⟨f, hf, rfl⟩ := find?_described.1 (MethodTable.find?_eq_some_iff.2 ⟨hm, rfl⟩)
    have hmarkers := (hblock.methods f (of_definition?_eq_some hf).1).markers
    exact ⟨f, hf, _, Marker.forall₂_declarations hmarkers, declarations_described hmarkers⟩

/-- The arguments `counted(monotonic)` as they are written. -/
def countedArguments : List TokenTree :=
  [.ident ⟨"counted", false⟩, .group .parenthesis [.ident ⟨"monotonic", false⟩]]

/-- What these arguments come to. -/
def countedType : TypeArguments := { declarations := [(.counted, { monotonic := true })] }

/-- A function with an empty body. -/
def emptyFunction (markers : List String) (name : String) (parameters : Code.Parameters)
    (written : List TokenTree) : BlockItem :=
  .function {
    attributes := markers.map fun word => { path := ⟨false, [⟨word, false⟩]⟩, form := .bare }
    header := [.ident ⟨"fn", false⟩, .ident ⟨name, false⟩, .group .parenthesis written]
    name := ⟨name, false⟩
    parameters
    body := [] }

/-- A block with the given name and functions. -/
def plainBlock (name : String) (items : List BlockItem) : ImplBlock where
  attributes := []
  header := [.ident ⟨"impl", false⟩, .ident ⟨name, false⟩]
  ofTrait := false
  genericCount := 0
  selfType := ⟨[.ident ⟨name, false⟩], .path { segments := 1, last := ⟨name, false⟩ }⟩
  items

/-- The parameters `&self`. -/
def selfOnly : List TokenTree := [.punct '&' false, .ident ⟨"self", false⟩]

/-- The parameters `&self, n: u32`. -/
def selfAndNumber : List TokenTree :=
  selfOnly ++ [.punct ',' false, .ident ⟨"n", false⟩, .punct ':' false, .ident ⟨"u32", false⟩]

/-- A queue with a constructor, two gauges and a method that has a parameter. -/
def queueBlock : ImplBlock := plainBlock "Queue" [
  emptyFunction [] "new" ⟨false, 0⟩ [],
  emptyFunction ["inline", "gauge"] "len" ⟨true, 0⟩ selfOnly,
  emptyFunction ["gauge"] "age" ⟨true, 0⟩ selfOnly,
  emptyFunction [] "push" ⟨true, 1⟩ selfAndNumber]

theorem ofTrees_countedArguments (types : TypeReader) :
    TypeArguments.ofTrees types countedArguments = .ok countedType := by
  have hcontent : DeclarationArguments.ofTrees [.ident ⟨"monotonic", false⟩] =
      .ok { monotonic := true } :=
    DeclarationArguments.ofTrees_eq_ok_iff.2
      ⟨_, DeclarationArgument.readAll_of_read rfl DeclarationArgument.readAll_nil, rfl⟩
  have hread : TypeArgument.read types countedArguments =
      .ok (.declaration .counted { monotonic := true }, []) := by
    show TypeArgument.declarationValue .counted
      [.group .parenthesis [.ident ⟨"monotonic", false⟩]] = _
    rw [TypeArgument.declarationValue, TypeArgument.optionalArguments, hcontent]
    rfl
  calc
    TypeArguments.readFrom types {} countedArguments =
        TypeArguments.readFrom types countedType [] := TypeArguments.readFrom_of_read hread rfl
    _ = .ok countedType := TypeArguments.readFrom_nil types countedType

theorem ofBlock_queueBlock :
    ofBlock countedType queueBlock = .ok (expanded countedType queueBlock (.ofType "Queue")) := by
  rfl

/-- An instrumented block describes a type that says what its arguments and its functions say, and
nothing else, whatever its parent is read with. The block itself only loses its markers. -/
theorem typeInfo_exact {types : TypeReader} {ts : List TokenTree} {args : TypeArguments}
    {block : ImplBlock} {x : Expansion} (hargs : TypeArguments.ofTrees types ts = .ok args)
    (hblock : ofBlock args block = .ok x) (module : String) (typeOf : TypeSyntax → TypeInfo) :
    (∃ given, TypeArgument.Written types ts given) ∧
      (∀ given, TypeArgument.Written types ts given →
        Describes given block module typeOf (x.typeInfo module (x.parent.map typeOf))) ∧
      x.block = { block with items := block.items.map withoutMarkers } := by
  obtain ⟨given, hwritten, hsum⟩ := TypeArguments.sumsUp_of_readFrom hargs
  obtain ⟨hadmissible, space, hspace, rfl⟩ := of_ofBlock_eq_ok hblock
  refine ⟨⟨given, hwritten⟩, ?_, ?_⟩
  · intro given' hwritten'
    rw [hwritten'.unique hwritten]
    exact describes_expanded hsum hadmissible hspace module typeOf
  · simp only [expanded, kept_expandedItem]

theorem typeInfo_exact_of_queue :
    let x := expanded countedType queueBlock (.ofType "Queue")
    TypeArguments.ofTrees .standard countedArguments = .ok countedType ∧
      ofBlock countedType queueBlock = .ok x ∧
      ∀ (module : String) (typeOf : TypeSyntax → TypeInfo),
        (∃ given, TypeArgument.Written .standard countedArguments given) ∧
          (∀ given, TypeArgument.Written .standard countedArguments given →
            Describes given queueBlock module typeOf (x.typeInfo module none)) ∧
          x.block = { queueBlock with items := queueBlock.items.map withoutMarkers } := by
  have hargs := ofTrees_countedArguments .standard
  exact ⟨hargs, ofBlock_queueBlock, typeInfo_exact hargs ofBlock_queueBlock⟩

end Expansion

end MetricWiring
