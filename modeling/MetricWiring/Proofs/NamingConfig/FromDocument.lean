import MetricWiring.NamingConfig.File
import MetricWiring.Proofs.GaugeHook
import MetricWiring.Proofs.NamingConfig.Decoding
import MetricWiring.Proofs.SourceOrder

/-!
# From a document to plans

The instrumentation that a configuration asks for plans every type as any other one does that asks
the same sources in the same order and names by the same policy, however these are nested and
wrapped (`plan_of_sources_of_policy`). Together with the reading of documents this leads from the
words in a file to the plan of a type (`document_to_plan`).
-/
namespace MetricWiring

@[simp] theorem Resolver.sources_ofSources (order : List Source) :
    (Resolver.ofSources order).sources = order := by
  rw [ofSources, sources, sourcesOfList_eq_flatMap, List.flatMap_map]
  simp [sources]

@[simp] theorem GaugeNaming.policy_namer (g : GaugeNaming) : g.namer.policy = g.namer := by
  cases g <;> rfl

/-- Of a resolver only its sources matter to a plan, and of a namer only the policy inside. -/
theorem Instrumentation.plan_of_sources_of_policy {w v : Instrumentation}
    (hsources : w.resolver.sources = v.resolver.sources) (hpolicy : w.namer.policy = v.namer.policy)
    (t : TypeInfo) : w.plan t = v.plan t := by
  have hbinding (k : Kind) : w.bindingFor t k = v.bindingFor t k := by
    funext c
    have hfind : w.resolver.find? k c = v.resolver.find? k c := by
      rw [Resolver.find?_eq_findSome?, Resolver.find?_eq_findSome?, hsources]
    have hname (d : Declaration) : w.namer.nameFor k t c d = v.namer.nameFor k t c d := by
      rw [← Namer.nameFor_policy, hpolicy, Namer.nameFor_policy]
    simp only [bindingFor, hfind, hname]
  simp only [plan_eq, hbinding]

theorem FileFormat.word_standard (w : String) : standard.word (.text w) = some w := rfl

namespace NamingConfig

theorem instrumentation_eq_ok {c : NamingConfig} (h : c.resolutionOrder ≠ []) :
    c.instrumentation =
      .ok ⟨.firstOf (c.resolutionOrder.map .source), c.gaugeNaming.namer⟩ := by
  have hvalid : c.validate = .ok c := by
    rw [validate, if_neg]
    rwa [List.isEmpty_iff]
  rw [instrumentation, hvalid]
  rfl

theorem Shows.eq_standard {c : NamingConfig} (h : c.Shows none none) : c = standard := by
  have hgauge : c.gaugeNaming = .instanceClass := GaugeNaming.word_injective h.gaugeNaming
  have horder : c.resolutionOrder = [.method, .type] :=
    List.map_injective_iff.2 Source.word_injective h.resolutionOrder
  obtain ⟨g, o⟩ := c
  simp only at hgauge horder
  rw [hgauge, horder]
  rfl

theorem fromFile_of_document {format : FileFormat} {folder : Folder} {path text : String}
    {d : Document} (htext : folder.readText path = .ok text)
    (hd : format.document? text = some d) :
    fromFile format folder path = decode format.word d := by
  rw [fromFile, htext]
  simp only [ofText, hd]

/-- A mapping that gives the fields in words, with anything else beside them, is no configuration if
a word is not spelled exactly; else it has nowhere to look if it gives an empty order; else it is
read as the words that it gives and the defaults for what it does not give. A file is read as the
mapping in it. A configuration that was read is wired at once, into an instrumentation that plans
like every one with the same sources in the same order and the same policy, and like the standard
one if neither field was given. Of the format it matters only that a text is the word it spells. -/
theorem document_to_plan {format : FileFormat}
    (hword : ∀ w, format.word (.text w) = some w) {entries : List (String × Document)}
    {gauge : Option String} {order : Option (List String)} (h : Spells entries gauge order) :
    Decides (decode format.word (.mapping entries)) (Exact gauge order ∧ order ≠ some [])
        (fun e => e = .malformed ∧ ¬ Exact gauge order ∨
          e = .emptyResolutionOrder ∧ Exact gauge order ∧ order = some []) ∧
      (∀ folder path text, folder.readText path = .ok text →
        format.document? text = some (.mapping entries) →
          fromFile format folder path = decode format.word (.mapping entries)) ∧
      ∀ c, decode format.word (.mapping entries) = .ok c →
        c.Shows gauge order ∧
          ∃ w, c.instrumentation = .ok w ∧
            w = ⟨.firstOf (c.resolutionOrder.map .source), c.gaugeNaming.namer⟩ ∧
            (∀ r n, r.sources = c.resolutionOrder → n.policy = c.gaugeNaming.namer →
              ∀ t, w.plan t = Instrumentation.plan ⟨r, n⟩ t) ∧
            (gauge = none → order = none → ∀ t, w.plan t = Instrumentation.standard.plan t) := by
  have hrule : Verbatim format.word gauge order :=
    ⟨fun w _ => hword w, fun _ _ w _ => hword w⟩
  refine ⟨decides_decode h hrule, fun _ _ _ => fromFile_of_document, ?_⟩
  intro c hc
  obtain ⟨hshows, horder⟩ := (decode_eq_ok_iff h hrule).1 hc
  have hsome : c.resolutionOrder ≠ [] := mt hshows.resolutionOrder_eq_nil_iff.1 horder
  refine ⟨hshows, _, instrumentation_eq_ok hsome, rfl, ?_, ?_⟩
  · intro r n hsources hpolicy t
    apply Instrumentation.plan_of_sources_of_policy
    · exact (Resolver.sources_ofSources c.resolutionOrder).trans hsources.symm
    · exact (GaugeNaming.policy_namer c.gaugeNaming).trans hpolicy.symm
  · rintro rfl rfl t
    rw [hshows.eq_standard]
    rfl

/-- A mapping with an unrelated list beside the fields and a source that is named twice, in the
standard format. -/
theorem document_to_plan_of_class_only :
    let format := FileFormat.standard
    let entries : List (String × Document) :=
      [("resolution_order", .list [.text "class", .text "class"]), ("hosts", .list [.blank]),
        ("gauge_naming", .text "declaring_class")]
    let gauge := some "declaring_class"
    let order := some ["class", "class"]
    let c : NamingConfig := ⟨.declaringClass, [.type, .type]⟩
    (∀ w, format.word (.text w) = some w) ∧ Spells entries gauge order ∧ Exact gauge order ∧
      order ≠ some [] ∧ (∃ c, decode format.word (.mapping entries) = .ok c) ∧
      decode format.word (.mapping entries) = .ok c ∧ c.Shows gauge order ∧
      ∃ w, c.instrumentation = .ok w ∧
        ∀ t, w.plan t = Instrumentation.plan
          ⟨.wrapped (.firstOf [.source .type, .wrapped (.source .type)]),
            .wrapped .declaringType⟩ t := by
  intro format entries gauge order c
  have hword (w : String) : format.word (.text w) = some w := FileFormat.word_standard w
  have hspells : Spells entries gauge order := ⟨by decide, rfl, rfl⟩
  have hexact : Exact gauge order := exact_iff.2 ⟨c, rfl, rfl⟩
  have horder : order ≠ some [] := by decide
  have hc : decode format.word (.mapping entries) = .ok c := rfl
  obtain ⟨hdecides, -, hplans⟩ := document_to_plan hword hspells
  obtain ⟨hshows, w, hw, -, hplan, -⟩ := hplans c hc
  exact ⟨hword, hspells, hexact, horder, hdecides.ok_iff.2 ⟨hexact, horder⟩, hc, hshows, w, hw,
    hplan _ _ rfl rfl⟩

end NamingConfig

end MetricWiring
