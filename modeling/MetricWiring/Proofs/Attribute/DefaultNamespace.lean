import MetricWiring.Proofs.Attribute.Description
import MetricWiring.Proofs.Code.TypeReader
import MetricWiring.Proofs.NameDecoding

/-!
# Default namespaces

A type that is given no namespace is named after its module and the last segment of its path. For
types of one segment this tells the modules apart and the identifiers, but not what stands behind
the identifier (`default_namespaces_eq_iff`): types that differ in their arguments only share their
namespace.
-/
namespace MetricWiring

open Code (Ident ImplBlock SingleSegment TokenTree TypeReader)

/-! ## Modules and names -/

/-- The path of a module: identifiers joined by double colons. -/
def IsModule (module : String) : Prop :=
  ∃ path : List String, path ≠ [] ∧ (∀ s ∈ path, IsSegment s ∧ ':' ∉ s.toList) ∧
    module = "::".intercalate path

theorem intercalate_dot_inj {path path' : List String} (hne : path ≠ []) (hne' : path' ≠ [])
    (h : ∀ s ∈ path, '.' ∉ s.toList) (h' : ∀ s ∈ path', '.' ∉ s.toList)
    (heq : ".".intercalate path = ".".intercalate path') : path = path' := by
  have hchars : ['.'].intercalate (path.map String.toList) =
      ['.'].intercalate (path'.map String.toList) := by
    have := congrArg String.toList heq
    rwa [String.toList_intercalate, String.toList_intercalate] at this
  have hsplit := congrArg (List.splitOn '.') hchars
  rw [List.splitOn_intercalate '.' (by simpa using h) (by simpa using hne),
    List.splitOn_intercalate '.' (by simpa using h') (by simpa using hne')] at hsplit
  exact (List.map_injective_iff.2 fun _ _ => String.toList_inj.1) hsplit

namespace Namespace

/-- The module and the name can be recovered from the namespace of a type. -/
theorem within_ofType_inj {module module' name name' : String} (hmodule : IsModule module)
    (hmodule' : IsModule module') (hname : '.' ∉ name.toList) (hname' : '.' ∉ name'.toList) :
    (ofType name).within module = (ofType name').within module' ↔
      module = module' ∧ name = name' := by
  obtain ⟨path, hne, hpath, rfl⟩ := hmodule
  obtain ⟨path', hne', hpath', rfl⟩ := hmodule'
  constructor
  · intro heq
    rw [within_of_path (fun s hs => (hpath s hs).2), within_of_path (fun s hs => (hpath' s hs).2)]
      at heq
    have hcut := congrArg MetricName.cut heq
    rw [MetricName.cut_append_dot _ hname, MetricName.cut_append_dot _ hname'] at hcut
    obtain ⟨hpaths, hnames⟩ := Prod.mk.inj hcut
    have hsame := intercalate_dot_inj hne hne' (fun s hs => (hpath s hs).1.dotless)
      (fun s hs => (hpath' s hs).1.dotless) hpaths
    exact ⟨congrArg "::".intercalate hsame, hnames⟩
  · rintro ⟨hmodules, rfl⟩
    rw [hmodules]

end Namespace

namespace Expansion

/-- A block without a namespace is named after the identifier of its type. -/
theorem fullName_of_singleSegment {types : TypeReader} (hnames : types.NamesSegment)
    {args : TypeArguments} {block : ImplBlock} {x : Expansion} {i : Ident}
    {arguments : List TokenTree} (hx : ofBlock args block = .ok x) (hspace : args.space = none)
    (htype : SingleSegment types i arguments block.selfType)
    (module : String) (parent : Option TypeInfo) :
    (x.typeInfo module parent).fullName = (Namespace.ofType i.name).within module := by
  obtain ⟨_, space, hnamespace, rfl⟩ := of_ofBlock_eq_ok hx
  simp only [namespaceOf, hspace, htype.lastSegment hnames, Option.map_some, Option.some.injEq]
    at hnamespace
  rw [typeInfo_expanded, ← hnamespace]
  rfl

/-- The default namespaces of types of one segment agree if and only if the modules do and the
identifiers, whatever arguments stand behind these. -/
theorem default_namespaces_eq_iff {types : TypeReader} (hnames : types.NamesSegment)
    {args args' : TypeArguments} {block block' : ImplBlock} {x x' : Expansion} {i i' : Ident}
    {arguments arguments' : List TokenTree} {module module' : String}
    (hx : ofBlock args block = .ok x) (hx' : ofBlock args' block' = .ok x')
    (hspace : args.space = none) (hspace' : args'.space = none)
    (htype : SingleSegment types i arguments block.selfType)
    (htype' : SingleSegment types i' arguments' block'.selfType) (hi : '.' ∉ i.name.toList)
    (hi' : '.' ∉ i'.name.toList) (hmodule : IsModule module) (hmodule' : IsModule module')
    (parent parent' : Option TypeInfo) :
    (x.typeInfo module parent).fullName = (x'.typeInfo module' parent').fullName ↔
      module = module' ∧ i.name = i'.name := by
  rw [fullName_of_singleSegment hnames hx hspace htype,
    fullName_of_singleSegment hnames hx' hspace' htype',
    Namespace.within_ofType_inj hmodule hmodule' hi hi']

/-- A single word in angle brackets. -/
def inAngles (word : String) : List TokenTree :=
  [.punct '<' false, .ident ⟨word, false⟩, .punct '>' false]

/-- A block for a type of one segment that has arguments, with one function. -/
def runBlock (name : String) (arguments : List TokenTree) : ImplBlock :=
  let named : ImplBlock := plainBlock name [emptyFunction [] "run" ⟨true, 0⟩ selfOnly]
  { named with
    header := named.header ++ arguments
    selfType := ⟨.ident ⟨name, false⟩ :: arguments,
      .path {
        segments := 1, last := ⟨name, false⟩, hasArguments := true, lastHasArguments := true }⟩ }

theorem singleSegment_worker {word : String} (hword : word ∈ ["u8", "u16"]) :
    SingleSegment .standard ⟨"Worker", false⟩ (inAngles word)
      (runBlock "Worker" (inAngles word)).selfType where
  isName := by decide
  tokens := rfl
  read := by
    rw [List.mem_pair] at hword
    rcases hword with rfl | rfl
    · exact ⟨[], by rfl⟩
    · exact ⟨[], by rfl⟩
  path := ⟨_, rfl, rfl⟩

theorem ofBlock_worker (word : String) :
    ofBlock {} (runBlock "Worker" (inAngles word)) =
      .ok (expanded {} (runBlock "Worker" (inAngles word)) (.ofType "Worker")) := by
  rfl

theorem default_namespaces_eq_iff_of_workers :
    let x := expanded {} (runBlock "Worker" (inAngles "u8")) (.ofType "Worker")
    let x' := expanded {} (runBlock "Worker" (inAngles "u16")) (.ofType "Worker")
    (TypeReader.standard.NamesSegment ∧
      ofBlock {} (runBlock "Worker" (inAngles "u8")) = .ok x ∧
      ofBlock {} (runBlock "Worker" (inAngles "u16")) = .ok x' ∧
      SingleSegment .standard ⟨"Worker", false⟩ (inAngles "u8") x.selfType ∧
      SingleSegment .standard ⟨"Worker", false⟩ (inAngles "u16") x'.selfType ∧
      IsModule "app" ∧ IsModule "app::jobs") ∧
    (x.typeInfo "app::jobs" none).fullName = (x'.typeInfo "app::jobs" none).fullName ∧
    (x.typeInfo "app" none).fullName ≠ (x'.typeInfo "app::jobs" none).fullName := by
  have happ : IsModule "app" := ⟨["app"], by decide, by decide, by decide⟩
  have hjobs : IsModule "app::jobs" := ⟨["app", "jobs"], by decide, by decide, by decide⟩
  have hnames := TypeReader.standard_namesSegment
  have hu8 : SingleSegment .standard ⟨"Worker", false⟩ (inAngles "u8")
      (runBlock "Worker" (inAngles "u8")).selfType := singleSegment_worker (by decide)
  have hu16 : SingleSegment .standard ⟨"Worker", false⟩ (inAngles "u16")
      (runBlock "Worker" (inAngles "u16")).selfType := singleSegment_worker (by decide)
  refine ⟨⟨hnames, ofBlock_worker "u8", ofBlock_worker "u16", hu8, hu16, happ, hjobs⟩, ?_, ?_⟩
  · exact (default_namespaces_eq_iff hnames (ofBlock_worker "u8") (ofBlock_worker "u16") rfl rfl
      hu8 hu16 (by decide) (by decide) hjobs hjobs none none).2 ⟨rfl, rfl⟩
  · intro hsame
    have hmodules := ((default_namespaces_eq_iff hnames (ofBlock_worker "u8")
      (ofBlock_worker "u16") rfl rfl hu8 hu16 (by decide) (by decide) happ hjobs none none).1
        hsame).1
    exact absurd hmodules (by decide)

/-- Two accepted blocks of one module whose types differ in their arguments, and one namespace. -/
theorem arguments_left_out_of_namespace :
    ∃ x x', ofBlock {} (runBlock "Worker" (inAngles "u8")) = .ok x ∧
      ofBlock {} (runBlock "Worker" (inAngles "u16")) = .ok x' ∧
      SingleSegment .standard ⟨"Worker", false⟩ (inAngles "u8") x.selfType ∧
      SingleSegment .standard ⟨"Worker", false⟩ (inAngles "u16") x'.selfType ∧
      inAngles "u8" ≠ inAngles "u16" ∧ IsModule "app" ∧
      (x.typeInfo "app" none).fullName = "app.Worker" ∧
      (x'.typeInfo "app" none).fullName = "app.Worker" := by
  refine ⟨_, _, ofBlock_worker "u8", ofBlock_worker "u16", singleSegment_worker (by decide),
    singleSegment_worker (by decide), by simp [inAngles], ?_, by decide, by decide⟩
  exact ⟨["app"], by decide, by decide, by decide⟩

end Expansion

end MetricWiring
