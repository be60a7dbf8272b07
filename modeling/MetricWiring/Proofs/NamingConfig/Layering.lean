import Mathlib.Data.List.Forall2
import Mathlib.Data.List.Nodup
import MetricWiring.NamingConfig.Layers

/-!
# What layers leave in the document

Of the rules by which layers are made and written, the two fields of a configuration need only a few
laws (`LayerRules.Lawful`): setting a value under another key leaves a field alone, and a text or a
list under its own key takes the place of what was there as a whole. So of several layers the last
one that gives a field decides on it, whatever those before it say (`lookup_merge`), and no field
comes up twice in the document (`exists_merge_eq`). The standard rules obey the laws
(`LayerRules.lawful_standard`).
-/
namespace MetricWiring

/-- The names of the fields of a configuration. -/
inductive FieldName : String → Prop where
  | gaugeNaming : FieldName "gauge_naming"
  | resolutionOrder : FieldName "resolution_order"

/-- A value that is set or replaced as a whole. -/
inductive Document.Whole : Document → Prop where
  | text (s : String) : Whole (.text s)
  | list (ds : List Document) : Whole (.list ds)

/-- The variable that sets the gauge naming. -/
def gaugeVariable : String := "METRICS_NAMING__GAUGE_NAMING"

/-- The variable that sets the order, with commas between the sources. -/
def orderVariable : String := "METRICS_NAMING__RESOLUTION_ORDER"

/-- What a configuration relies on when it leaves its sources to the rules. The field that a key
leads to or into is `field key`. -/
structure LayerRules.Lawful (rules : LayerRules) (field : String → String) : Prop where
  key?_gaugeVariable : rules.key? gaugeVariable = some "gauge_naming"
  key?_orderVariable : rules.key? orderVariable = some "resolution_order"
  /-- The word for a policy is read as a text. -/
  value_gaugeNaming (g : GaugeNaming) : rules.value "gauge_naming" g.word = .text g.word
  /-- The order is split at its commas. -/
  value_resolutionOrder (text : String) : rules.value "resolution_order" text =
    .list ((text.toList.splitOn ',').map fun part => .text (.ofList part))
  field_eq {name : String} (h : FieldName name) : field name = name
  /-- Setting a value keeps a mapping one that gives no key twice. -/
  exists_set_eq (key : String) (value : Document) {es : List (String × Document)}
    (h : (es.map Prod.fst).Nodup) :
    ∃ es', rules.set key value (.mapping es) = .mapping es' ∧ (es'.map Prod.fst).Nodup
  /-- A text or a list under the key of a field replaces what was there. -/
  lookup_set_self {name : String} (h : FieldName name) {value : Document} (hvalue : value.Whole)
    (es : List (String × Document)) :
    (rules.set name value (.mapping es)).entries.lookup name = some value
  lookup_set_of_ne {key name : String} (h : FieldName name) (hkey : field key ≠ name)
    (value : Document) (es : List (String × Document)) :
    (rules.set key value (.mapping es)).entries.lookup name = es.lookup name
  word_gaugeNaming (g : GaugeNaming) : rules.word (.text g.word) = some g.word
  word_source (s : Source) : rules.word (.text s.word) = some s.word

/-! ## Layers under lawful rules -/

namespace Layer

variable {rules : LayerRules} {field : String → String}

/-- The layer gives a field the value, or leaves it alone if there is none. No other key leads into
the field. -/
structure Gives (field : String → String) (layer : Layer) (name : String)
    (value : Option Document) : Prop where
  given : ∀ d ∈ value, (name, d) ∈ layer
  only : ∀ e ∈ layer, field e.1 = name → e.1 = name ∧ e.2 ∈ value

instance (layer : Layer) (name : String) (value : Option Document) :
    Decidable (layer.Gives field name value) :=
  decidable_of_iff ((∀ d ∈ value, (name, d) ∈ layer) ∧
      ∀ e ∈ layer, field e.1 = name → e.1 = name ∧ e.2 ∈ value)
    ⟨fun h => ⟨h.1, h.2⟩, fun h => ⟨h.given, h.only⟩⟩

theorem exists_writeOver_eq (h : rules.Lawful field) (layer : Layer)
    {es : List (String × Document)} (hes : (es.map Prod.fst).Nodup) :
    ∃ es', writeOver rules (.mapping es) layer = .mapping es' ∧ (es'.map Prod.fst).Nodup := by
  rw [writeOver]
  induction layer generalizing es with
  | nil => exact ⟨es, rfl, hes⟩
  | cons e layer ih =>
    obtain ⟨es', hset, hes'⟩ := h.exists_set_eq e.1 e.2 hes
    rw [List.foldl_cons, hset]
    exact ih hes'

theorem lookup_foldl_set (h : rules.Lawful field) {name : String} (hname : FieldName name)
    {value : Option Document} (hvalue : ∀ d ∈ value, d.Whole) {layer : Layer}
    (honly : ∀ e ∈ layer, field e.1 = name → e.1 = name ∧ e.2 ∈ value)
    {es : List (String × Document)} (hes : (es.map Prod.fst).Nodup) :
    (writeOver rules (.mapping es) layer).entries.lookup name =
      if name ∈ layer.map Prod.fst then value else es.lookup name := by
  rw [writeOver]
  induction layer generalizing es with
  | nil => simp [Document.entries]
  | cons e layer ih =>
    rw [List.forall_mem_cons] at honly
    obtain ⟨es', hset, hes'⟩ := h.exists_set_eq e.1 e.2 hes
    rw [List.foldl_cons, hset, ih honly.2 hes']
    by_cases hlater : name ∈ layer.map Prod.fst
    · simp [hlater]
    · by_cases he : e.1 = name
      · have hmem : e.2 ∈ value := (honly.1 (by rw [he, h.field_eq hname])).2
        have hself := h.lookup_set_self hname (hvalue _ hmem) es
        rw [← he, hset, Document.entries, he] at hself
        rw [if_neg hlater, hself]
        simp [he, Option.mem_def.1 hmem]
      · have hfield : field e.1 ≠ name := fun hf => he (honly.1 hf).1
        have he' : ¬ name = e.1 := fun hn => he hn.symm
        have hother := h.lookup_set_of_ne hname hfield e.2 es
        rw [hset, Document.entries] at hother
        rw [if_neg hlater, hother]
        simp [hlater, he']

/-- A layer over a document: the value that the layer gives, or else what was there. -/
theorem Gives.lookup_writeOver (h : rules.Lawful field) {name : String} (hname : FieldName name)
    {value : Option Document} (hvalue : ∀ d ∈ value, d.Whole) {layer : Layer}
    (hgives : layer.Gives field name value) {es : List (String × Document)}
    (hes : (es.map Prod.fst).Nodup) :
    (writeOver rules (.mapping es) layer).entries.lookup name = value.or (es.lookup name) := by
  rw [lookup_foldl_set h hname hvalue hgives.only hes]
  cases value with
  | some d =>
    rw [if_pos (List.mem_map.2 ⟨(name, d), hgives.given d rfl, rfl⟩), Option.some_or]
  | none =>
    have habsent : name ∉ layer.map Prod.fst := by
      intro hmem
      obtain ⟨e, he, hkey⟩ := List.mem_map.1 hmem
      obtain ⟨-, hnone⟩ := hgives.only e he (by rw [hkey, h.field_eq hname])
      cases hnone
    rw [if_neg habsent, Option.none_or]

theorem exists_merge_eq (h : rules.Lawful field) (layers : List Layer) :
    ∃ es, merge rules layers = .mapping es ∧ (es.map Prod.fst).Nodup := by
  rw [merge]
  suffices hover : ∀ es : List (String × Document), (es.map Prod.fst).Nodup →
      ∃ es', layers.foldl (writeOver rules) (.mapping es) = .mapping es' ∧
        (es'.map Prod.fst).Nodup from hover [] List.nodup_nil
  induction layers with
  | nil => exact fun es hes => ⟨es, rfl, hes⟩
  | cons layer layers ih =>
    intro es hes
    obtain ⟨es', hwrite, hes'⟩ := exists_writeOver_eq h layer hes
    rw [List.foldl_cons, hwrite]
    exact ih es' hes'

/-- Of the layers that give a field, the last one decides on it. -/
theorem lookup_merge (h : rules.Lawful field) {α : Type} {name : String} (hname : FieldName name)
    {value : α → Option Document} (hvalue : ∀ a, ∀ d ∈ value a, d.Whole) {layers : List Layer}
    {l : List α}
    (hgives : List.Forall₂ (fun layer a => Gives field layer name (value a)) layers l) :
    (merge rules layers).entries.lookup name = (l.filterMap value).getLast? := by
  rw [merge]
  suffices hover : ∀ es : List (String × Document), (es.map Prod.fst).Nodup →
      (layers.foldl (writeOver rules) (.mapping es)).entries.lookup name =
        (l.filterMap value).getLast?.or (es.lookup name) by
    rw [hover [] List.nodup_nil, List.lookup_nil, Option.or_none]
  induction hgives with
  | nil => exact fun _ _ => rfl
  | @cons layer a layers l hlayer hrest ih =>
    intro es hes
    obtain ⟨es', hwrite, hes'⟩ := exists_writeOver_eq h layer hes
    have hlookup := hlayer.lookup_writeOver h hname (hvalue a) hes
    rw [hwrite, Document.entries] at hlookup
    rw [List.foldl_cons, hwrite, ih es' hes', hlookup]
    cases ha : value a with
    | none => rw [List.filterMap_cons_none ha, Option.none_or]
    | some d =>
      rw [List.filterMap_cons_some ha, List.getLast?_cons]
      cases (l.filterMap value).getLast? <;> rfl

end Layer

/-! ## The standard rules -/

namespace KeyPath

theorem exists_ofKey_eq (key : String) : ∃ name rest, ofKey key = .key name :: rest := by
  rw [ofKey, name?]
  by_cases hname : (key.toList.takeWhile isNameSign).isEmpty
  · exact ⟨key, [], by rw [if_pos hname]⟩
  · rw [if_neg hname]
    simp only
    split
    · exact ⟨_, _, rfl⟩
    · exact ⟨key, [], rfl⟩

/-- The field of a configuration that a key leads to or into: the first name on its path, in small
letters. -/
def field (key : String) : String :=
  match ofKey key with
  | .key name :: _ => foldCase name
  | _ => key

theorem ofKey_fieldName {name : String} (h : FieldName name) : ofKey name = [.key name] := by
  cases h <;> decide

theorem foldCase_fieldName {name : String} (h : FieldName name) : foldCase name = name := by
  cases h <;> decide

end KeyPath

theorem foldCase_word_gaugeNaming (g : GaugeNaming) : foldCase g.word = g.word := by
  cases g <;> decide

theorem foldCase_word_source (s : Source) : foldCase s.word = s.word := by
  cases s <;> decide

namespace Document

theorem map_fst_alter (key : String) (f : Option Document → Document)
    (es : List (String × Document)) :
    (alter key f es).map Prod.fst =
      if key ∈ es.map Prod.fst then es.map Prod.fst else es.map Prod.fst ++ [key] := by
  induction es with
  | nil => simp [alter]
  | cons e es ih =>
    obtain ⟨k, d⟩ := e
    by_cases hk : k = key
    · simp [alter, hk]
    · have hk' : ¬ key = k := fun h => hk h.symm
      by_cases hmem : key ∈ es.map Prod.fst <;> simp_all [alter]

theorem nodup_alter (key : String) (f : Option Document → Document)
    {es : List (String × Document)} (h : (es.map Prod.fst).Nodup) :
    ((alter key f es).map Prod.fst).Nodup := by
  rw [map_fst_alter]
  by_cases hmem : key ∈ es.map Prod.fst
  · rwa [if_pos hmem]
  · rw [if_neg hmem]
    rw [← List.concat_eq_append]
    exact List.Nodup.concat hmem h

theorem exists_write_eq (value d : Document) (key : String) :
    ∃ rest, write value (KeyPath.ofKey key) (some d) =
      mapping (alter (KeyPath.field key) (write value rest) d.entries) := by
  obtain ⟨name, rest, hkey⟩ := KeyPath.exists_ofKey_eq key
  refine ⟨rest, ?_⟩
  rw [KeyPath.field, hkey]
  simp only [write, Option.map_some, Option.getD_some]

theorem Whole.overwrite_eq {d : Document} (h : d.Whole) (old : Option Document) :
    overwrite old d = d := by
  cases h with
  | text s => exact overwrite_text old s
  | list ds => exact overwrite_list old ds

end Document

theorem LayerRules.lawful_standard : standard.Lawful KeyPath.field where
  key?_gaugeVariable := by decide
  key?_orderVariable := by decide
  value_gaugeNaming _ := rfl
  value_resolutionOrder _ := rfl
  field_eq h := by
    rw [KeyPath.field, KeyPath.ofKey_fieldName h]
    exact KeyPath.foldCase_fieldName h
  exists_set_eq key value es hes := by
    obtain ⟨rest, hwrite⟩ := Document.exists_write_eq value (.mapping es) key
    exact ⟨_, hwrite, Document.nodup_alter _ _ hes⟩
  lookup_set_self {name} h value hvalue es := by
    show (Document.write value (KeyPath.ofKey name) _).entries.lookup name = some value
    rw [KeyPath.ofKey_fieldName h, Document.entries_write_key, KeyPath.foldCase_fieldName h,
      Document.lookup_alter_self, hvalue.overwrite_eq]
  lookup_set_of_ne {key name} _ hkey value es := by
    obtain ⟨rest, hwrite⟩ := Document.exists_write_eq value (.mapping es) key
    show (Document.write value (KeyPath.ofKey key) _).entries.lookup name = es.lookup name
    rw [hwrite]
    exact Document.lookup_alter_of_ne _ _ hkey.symm
  word_gaugeNaming g := congrArg some (foldCase_word_gaugeNaming g)
  word_source s := congrArg some (foldCase_word_source s)

end MetricWiring
