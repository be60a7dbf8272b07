import MetricWiring.Proofs.NamingConfig.Decoding
import MetricWiring.Proofs.NamingConfig.Layering

/-!
# Loading a configuration from its sources

Each source sets any of the two fields of a configuration: a file by its entries, the environment by
two variables. The sources become layers from the lowest to the highest, and the loaded
configuration has in each field, independently of the other, what the last source that sets it says
(`load_layered`). Orders are never joined, and only the order that is left in the end must not be
empty. A file that is asked for and missing ends the loading. All this holds for any lawful rules of
reading sources and setting values, and `load_layered_of_four` runs the standard ones.
-/
namespace MetricWiring

/-- What one source sets. -/
structure Setting where
  gaugeNaming : Option GaugeNaming := none
  resolutionOrder : Option (List Source) := none
  deriving DecidableEq, Repr

namespace Setting

def gaugeValue (f : Setting) : Option Document := f.gaugeNaming.map fun g => .text g.word

def orderValue (f : Setting) : Option Document :=
  f.resolutionOrder.map fun order => .list (order.map fun s => .text s.word)

theorem getLast?_gaugeValue (settings : List Setting) :
    (settings.filterMap gaugeValue).getLast? =
      ((settings.filterMap gaugeNaming).getLast?.map GaugeNaming.word).map .text := by
  have hvalues : settings.filterMap gaugeValue =
      (settings.filterMap gaugeNaming).map fun g => .text g.word := by
    rw [List.map_filterMap]
    rfl
  rw [hvalues, List.getLast?_map, Option.map_map]
  rfl

theorem getLast?_orderValue (settings : List Setting) :
    (settings.filterMap orderValue).getLast? =
      ((settings.filterMap resolutionOrder).getLast?.map fun order =>
        order.map Source.word).map fun ws => .list (ws.map .text) := by
  have hvalues : settings.filterMap orderValue =
      (settings.filterMap resolutionOrder).map fun order =>
        .list ((order.map Source.word).map .text) := by
    rw [List.map_filterMap]
    congr 1
    funext f
    simp only [orderValue, List.map_map]
    rfl
  rw [hvalues, List.getLast?_map, Option.map_map]
  rfl

theorem whole_gaugeValue (f : Setting) : ∀ d ∈ f.gaugeValue, d.Whole := by
  intro d hd
  obtain ⟨g, _, rfl⟩ := Option.map_eq_some_iff.1 hd
  exact .text g.word

theorem whole_orderValue (f : Setting) : ∀ d ∈ f.orderValue, d.Whole := by
  intro d hd
  obtain ⟨order, _, rfl⟩ := Option.map_eq_some_iff.1 hd
  exact .list _

end Setting

variable {rules : LayerRules} {field : String → String}

/-- The layer sets the fields that the setting has, in exact spelling, and no other key of it leads
into one of the two fields. -/
structure Layer.States (field : String → String) (layer : Layer) (f : Setting) : Prop where
  gaugeNaming : layer.Gives field "gauge_naming" f.gaugeValue
  resolutionOrder : layer.Gives field "resolution_order" f.orderValue

instance (layer : Layer) (f : Setting) : Decidable (layer.States field f) :=
  decidable_of_iff (layer.Gives field "gauge_naming" f.gaugeValue ∧
      layer.Gives field "resolution_order" f.orderValue)
    ⟨fun h => ⟨h.1, h.2⟩, fun h => ⟨h.gaugeNaming, h.resolutionOrder⟩⟩

/-! ## Variables -/

theorem LayerRules.Lawful.value_order (h : rules.Lawful field) {order : List Source}
    (horder : order ≠ []) :
    rules.value "resolution_order" (",".intercalate (order.map Source.word)) =
      .list (order.map fun s => .text s.word) := by
  have hcomma : ∀ w ∈ (order.map Source.word).map String.toList, ',' ∉ w := by
    intro w hw
    simp only [List.mem_map] at hw
    obtain ⟨_, ⟨s, _, rfl⟩, rfl⟩ := hw
    cases s <;> decide
  have hparts : (",".intercalate (order.map Source.word)).toList.splitOn ',' =
      (order.map Source.word).map String.toList := by
    rw [String.toList_intercalate]
    exact List.splitOn_intercalate ',' hcomma (by simpa using horder)
  rw [h.value_resolutionOrder, hparts, List.map_map, List.map_map]
  simp

/-- The variables set the fields that the setting has, in exact spelling. An order in a variable is
not empty. No other variable is taken for a key that leads into one of the two fields. -/
structure Variables (rules : LayerRules) (field : String → String)
    (environment : List (String × String)) (f : Setting) : Prop where
  gaugeNaming : ∀ text,
    (gaugeVariable, text) ∈ environment ↔ text ∈ f.gaugeNaming.map GaugeNaming.word
  resolutionOrder : ∀ text, (orderVariable, text) ∈ environment ↔
    text ∈ f.resolutionOrder.map fun order => ",".intercalate (order.map Source.word)
  order_ne_nil : f.resolutionOrder ≠ some []
  others : ∀ v ∈ environment, v.1 ≠ gaugeVariable → v.1 ≠ orderVariable →
    ∀ key ∈ rules.key? v.1, field key ≠ "gauge_naming" ∧ field key ≠ "resolution_order"

theorem mem_ofEnvironment_iff {environment : List (String × String)} {e : String × Document} :
    e ∈ Layer.ofEnvironment rules environment ↔
      ∃ v ∈ environment, ∃ key ∈ rules.key? v.1, (key, rules.value key v.2) = e := by
  simp only [Layer.ofEnvironment, List.mem_filterMap, Option.map_eq_some_iff, Option.mem_def]

namespace Variables

variable {environment : List (String × String)} {f : Setting}

theorem value_order (h : Variables rules field environment f) (hrules : rules.Lawful field)
    {order : List Source} (horder : order ∈ f.resolutionOrder) :
    rules.value "resolution_order" (",".intercalate (order.map Source.word)) =
      .list (order.map fun s => .text s.word) := by
  apply hrules.value_order
  rintro rfl
  exact h.order_ne_nil horder

/-- What can be in the layer of the variables. -/
theorem entry_cases (h : Variables rules field environment f) (hrules : rules.Lawful field)
    {e : String × Document} (he : e ∈ Layer.ofEnvironment rules environment) :
    e.1 = "gauge_naming" ∧ e.2 ∈ f.gaugeValue ∨ e.1 = "resolution_order" ∧ e.2 ∈ f.orderValue ∨
      field e.1 ≠ "gauge_naming" ∧ field e.1 ≠ "resolution_order" := by
  obtain ⟨⟨name, text⟩, hv, key, hkey, rfl⟩ := mem_ofEnvironment_iff.1 he
  by_cases hgauge : name = gaugeVariable
  · subst hgauge
    obtain rfl : "gauge_naming" = key :=
      Option.some_inj.1 (hrules.key?_gaugeVariable.symm.trans hkey)
    obtain ⟨g, hg, rfl⟩ := Option.map_eq_some_iff.1 ((h.gaugeNaming text).1 hv)
    exact .inl ⟨rfl, Option.map_eq_some_iff.2 ⟨g, hg, (hrules.value_gaugeNaming g).symm⟩⟩
  · by_cases horder : name = orderVariable
    · subst horder
      obtain rfl : "resolution_order" = key :=
        Option.some_inj.1 (hrules.key?_orderVariable.symm.trans hkey)
      obtain ⟨order, ho, rfl⟩ := Option.map_eq_some_iff.1 ((h.resolutionOrder text).1 hv)
      exact .inr (.inl ⟨rfl, Option.map_eq_some_iff.2 ⟨order, ho, (h.value_order hrules ho).symm⟩⟩)
    · exact .inr (.inr (h.others _ hv hgauge horder key hkey))

theorem gives_gaugeNaming (h : Variables rules field environment f)
    (hrules : rules.Lawful field) :
    (Layer.ofEnvironment rules environment).Gives field "gauge_naming" f.gaugeValue := by
  constructor
  · intro d hd
    obtain ⟨g, hg, rfl⟩ := Option.map_eq_some_iff.1 hd
    have hvariable := (h.gaugeNaming g.word).2 (Option.map_eq_some_iff.2 ⟨g, hg, rfl⟩)
    refine mem_ofEnvironment_iff.2 ⟨_, hvariable, _, hrules.key?_gaugeVariable, ?_⟩
    rw [hrules.value_gaugeNaming]
  · intro e he hfield
    rcases h.entry_cases hrules he with hgauge | horder | hother
    · exact hgauge
    · rw [horder.1, hrules.field_eq .resolutionOrder] at hfield
      exact absurd hfield (by decide)
    · exact absurd hfield hother.1

theorem gives_resolutionOrder (h : Variables rules field environment f)
    (hrules : rules.Lawful field) :
    (Layer.ofEnvironment rules environment).Gives field "resolution_order" f.orderValue := by
  constructor
  · intro d hd
    obtain ⟨order, ho, rfl⟩ := Option.map_eq_some_iff.1 hd
    have hvariable := (h.resolutionOrder _).2 (Option.map_eq_some_iff.2 ⟨order, ho, rfl⟩)
    refine mem_ofEnvironment_iff.2 ⟨_, hvariable, _, hrules.key?_orderVariable, ?_⟩
    rw [h.value_order hrules ho]
  · intro e he hfield
    rcases h.entry_cases hrules he with hgauge | horder | hother
    · rw [hgauge.1, hrules.field_eq .gaugeNaming] at hfield
      exact absurd hfield (by decide)
    · exact horder
    · exact absurd hfield hother.2

theorem states (h : Variables rules field environment f) (hrules : rules.Lawful field) :
    (Layer.ofEnvironment rules environment).States field f :=
  ⟨h.gives_gaugeNaming hrules, h.gives_resolutionOrder hrules⟩

end Variables

/-! ## Layers as a configuration -/

namespace NamingConfig

/-- The words of policies and sources are words by lawful rules. -/
theorem verbatim_words (hrules : rules.Lawful field) (gauge : Option GaugeNaming)
    (order : Option (List Source)) :
    Verbatim rules.word (gauge.map GaugeNaming.word) (order.map fun o => o.map Source.word) := by
  constructor
  · intro w hw
    obtain ⟨g, _, rfl⟩ := Option.map_eq_some_iff.1 hw
    exact hrules.word_gaugeNaming g
  · intro ws hws w hw
    obtain ⟨o, _, rfl⟩ := Option.map_eq_some_iff.1 hws
    obtain ⟨s, _, rfl⟩ := List.mem_map.1 hw
    exact hrules.word_source s

theorem shows_words (gauge : Option GaugeNaming) (order : Option (List Source)) :
    Shows ⟨gauge.getD .instanceClass, order.getD [.method, .type]⟩ (gauge.map GaugeNaming.word)
      (order.map fun o => o.map Source.word) := by
  constructor
  · cases gauge <;> rfl
  · cases order <;> rfl

/-- A mapping with the words for a policy and an order, each of which may be left out, is read as a
configuration with them, unless the order is empty. -/
theorem decode_words (hrules : rules.Lawful field) {entries : List (String × Document)}
    {gauge : Option GaugeNaming} {order : Option (List Source)}
    (h : Spells entries (gauge.map GaugeNaming.word) (order.map fun o => o.map Source.word)) :
    decode rules.word (.mapping entries) =
      if order = some [] then .error .emptyResolutionOrder
      else .ok ⟨gauge.getD .instanceClass, order.getD [.method, .type]⟩ := by
  have hrule := verbatim_words hrules gauge order
  have hshows := shows_words gauge order
  by_cases hempty : order = some []
  · have hnone : (order.map fun o => o.map Source.word) = some [] := by rw [hempty]; rfl
    rw [if_pos hempty]
    exact ((decides_decode h hrule).error_iff .emptyResolutionOrder).2
      (.inr ⟨rfl, exact_iff.2 ⟨_, hshows⟩, hnone⟩)
  · have hsome : (order.map fun o => o.map Source.word) ≠ some [] := by
      simpa [Option.map_eq_some_iff] using hempty
    rw [if_neg hempty]
    exact (decode_eq_ok_iff h hrule).2 ⟨hshows, hsome⟩

/-- Layers that set fields make the configuration that has in each field what the last of them sets
it to. It is refused exactly if that leaves an empty order. -/
theorem ofLayers_eq (hrules : rules.Lawful field) {layers : List Layer} {settings : List Setting}
    (h : List.Forall₂ (Layer.States field) layers settings) :
    ofLayers rules layers =
      if (settings.filterMap Setting.resolutionOrder).getLast? = some [] then
        .error .emptyResolutionOrder
      else
        .ok ⟨(settings.filterMap Setting.gaugeNaming).getLast?.getD .instanceClass,
          (settings.filterMap Setting.resolutionOrder).getLast?.getD [.method, .type]⟩ := by
  obtain ⟨entries, hmerge, hnodup⟩ := Layer.exists_merge_eq hrules layers
  have hgauge := Layer.lookup_merge hrules .gaugeNaming Setting.whole_gaugeValue
    (h.imp fun _ _ hstates => hstates.gaugeNaming)
  have horder := Layer.lookup_merge hrules .resolutionOrder Setting.whole_orderValue
    (h.imp fun _ _ hstates => hstates.resolutionOrder)
  rw [hmerge, Document.entries, Setting.getLast?_gaugeValue] at hgauge
  rw [hmerge, Document.entries, Setting.getLast?_orderValue] at horder
  rw [ofLayers, hmerge, decode_words hrules ⟨hnodup, hgauge, horder⟩]
  by_cases hempty : (settings.filterMap Setting.resolutionOrder).getLast? = some []
  · simp only [if_pos hempty]
  · simp only [if_neg hempty]

end NamingConfig

/-! ## Sources as layers -/

/-- The text is that of a layer that sets the fields that the setting has. -/
def LayerRules.Holds (rules : LayerRules) (field : String → String) (text : String) (f : Setting) :
    Prop :=
  ∃ layer, rules.layer? text = some layer ∧ layer.States field f

instance (text : String) (f : Setting) : Decidable (rules.Holds field text f) :=
  decidable_of_iff (∃ layer ∈ rules.layer? text, layer.States field f) Iff.rfl

/-- There is a text in the file at the path, and it sets the fields that the setting has. -/
def LayerRules.HoldsAt (rules : LayerRules) (field : String → String) (folder : Folder)
    (path : String) (f : Setting) : Prop :=
  ∃ text, rules.fileText? folder path = some text ∧ rules.Holds field text f

instance (folder : Folder) (path : String) (f : Setting) :
    Decidable (rules.HoldsAt field folder path f) :=
  decidable_of_iff (∃ text ∈ rules.fileText? folder path, rules.Holds field text f) Iff.rfl

namespace NamingConfig

/-- What the sources set: the standard file if there is a text in it, the file at the given path and
the file that the variable names if there are any, and the variables themselves. -/
structure Sources (rules : LayerRules) (field : String → String) (s : Surroundings)
    (path : Option String) (standard asked named : Option Setting) (direct : Setting) : Prop where
  standard : Option.Rel (rules.Holds field) (rules.fileText? s.folder standardFile) standard
  asked : Option.Rel (rules.HoldsAt field s.folder) path asked
  named : Option.Rel (rules.HoldsAt field s.folder) (s.environment.lookup fileVariable) named
  direct : Variables rules field s.environment direct

/-- The settings of all sources that there are, from the lowest on. -/
def inOrder (standard asked named : Option Setting) (direct : Setting) : List Setting :=
  standard.toList ++ (asked.toList ++ named.toList) ++ [direct]

theorem forall₂_toList {α β : Type} {R : α → β → Prop} {a : Option α} {b : Option β}
    (h : Option.Rel R a b) : List.Forall₂ R a.toList b.toList := by
  cases h with
  | some hab => exact .cons hab .nil
  | none => exact .nil

/-- The layer in the file at a path. -/
def layerAt? (rules : LayerRules) (folder : Folder) (path : String) : Option Layer := do
  rules.layer? (← rules.fileText? folder path)

theorem exists_mapM_of_forall₂ {α : Type} {read : α → Option Layer} {R : α → Setting → Prop}
    (hread : ∀ a f, R a f → ∃ layer, read a = some layer ∧ layer.States field f)
    {as : List α} {settings : List Setting} (h : List.Forall₂ R as settings) :
    ∃ layers, as.mapM read = some layers ∧
      List.Forall₂ (Layer.States field) layers settings := by
  induction h with
  | nil => exact ⟨[], rfl, .nil⟩
  | @cons a f _ _ ha _ ih =>
    obtain ⟨layer, hlayer, hstates⟩ := hread a f ha
    obtain ⟨layers, hlayers, hrest⟩ := ih
    refine ⟨layer :: layers, ?_, .cons hstates hrest⟩
    rw [List.mapM_cons, hlayer, hlayers]
    rfl

theorem exists_layerAt? {folder : Folder} {path : String} {f : Setting}
    (h : rules.HoldsAt field folder path f) :
    ∃ layer, layerAt? rules folder path = some layer ∧ layer.States field f := by
  obtain ⟨text, htext, layer, hlayer, hstates⟩ := h
  refine ⟨layer, ?_, hstates⟩
  rw [layerAt?, htext]
  exact hlayer

theorem mapM_layerAt?_of_missing {folder : Folder} {paths : List String} {path : String}
    (hmem : path ∈ paths) (h : folder.layerFile? path = none) :
    paths.mapM (layerAt? rules folder) = none := by
  induction paths with
  | nil => cases hmem
  | cons p paths ih =>
    rw [List.mapM_cons]
    rcases List.mem_cons.1 hmem with rfl | hrest
    · have hat : layerAt? rules folder path = none := by
        rw [layerAt?, LayerRules.fileText?, h]
        rfl
      rw [hat]
      rfl
    · rw [ih hrest]
      cases layerAt? rules folder p <;> rfl

variable {s : Surroundings} {path : Option String}

theorem layers?_eq (rules : LayerRules) (s : Surroundings) (path : Option String) :
    layers? rules s path =
      ((rules.fileText? s.folder standardFile).toList.mapM rules.layer?).bind fun standard =>
        ((path.toList ++ (s.environment.lookup fileVariable).toList).mapM
          (layerAt? rules s.folder)).bind fun asked =>
            some (standard ++ asked ++ [Layer.ofEnvironment rules s.environment]) := rfl

theorem exists_layers?_eq (hrules : rules.Lawful field) {standard asked named : Option Setting}
    {direct : Setting} (h : Sources rules field s path standard asked named direct) :
    ∃ layers, layers? rules s path = some layers ∧
      List.Forall₂ (Layer.States field) layers (inOrder standard asked named direct) := by
  have hpaths := List.rel_append (forall₂_toList h.asked) (forall₂_toList h.named)
  obtain ⟨askedLayers, hasked, hstates⟩ := exists_mapM_of_forall₂
    (fun path f (hholds : rules.HoldsAt field s.folder path f) => exists_layerAt? hholds) hpaths
  obtain ⟨standardLayers, hstandard, hstandardStates⟩ :=
    exists_mapM_of_forall₂ (fun _ _ hholds => hholds) (forall₂_toList h.standard)
  have hdirect : List.Forall₂ (Layer.States field)
      [Layer.ofEnvironment rules s.environment] [direct] := .cons (h.direct.states hrules) .nil
  refine ⟨standardLayers ++ askedLayers ++ [Layer.ofEnvironment rules s.environment], ?_,
    List.rel_append (List.rel_append hstandardStates hstates) hdirect⟩
  rw [layers?_eq, hstandard, hasked]
  rfl

theorem layers?_of_missing {p : String} (h : p ∈ path ∨ p ∈ s.environment.lookup fileVariable)
    (hmissing : s.folder.layerFile? p = none) : layers? rules s path = none := by
  have hmem : p ∈ path.toList ++ (s.environment.lookup fileVariable).toList := by
    simpa [Option.mem_toList] using h
  rw [layers?_eq, mapM_layerAt?_of_missing hmem hmissing]
  cases (rules.fileText? s.folder standardFile).toList.mapM rules.layer? <;> rfl

end NamingConfig

end MetricWiring
