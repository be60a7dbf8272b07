import Mathlib.Data.Set.List
import MetricWiring.NamingConfig
import MetricWiring.Proofs.FirstError

/-!
# Configurations in words

A mapping can give the two fields of a configuration in words. It is then read as the configuration
that shows these words, and the defaults for what it does not give (`ofDocument?_eq_some_iff`).
There is such a configuration exactly if the words are spelled exactly (`exact_iff`), and one whose
order is empty is refused after that (`decides_decode`). What stands under other keys has no part
in it.
-/
namespace MetricWiring

/-- Looking for the word that names each thing is the inverse of naming it. -/
theorem find?_word_eq_some_iff {α : Type} {word : α → String} {all : List α}
    (h : ∀ a, (all.find? fun b => word b == word a) = some a) {w : String} {a : α} :
    (all.find? fun b => word b == w) = some a ↔ word a = w := by
  constructor
  · intro hfind
    have hword := List.find?_some hfind
    exact eq_of_beq hword
  · rintro rfl
    exact h a

namespace GaugeNaming

theorem ofWord?_eq_some_iff {w : String} {g : GaugeNaming} : ofWord? w = some g ↔ g.word = w :=
  find?_word_eq_some_iff ofWord?_word

theorem word_injective : Function.Injective word :=
  Function.IsPartialInv.injective fun _ _ => ofWord?_eq_some_iff

end GaugeNaming

namespace Source

theorem ofWord?_eq_some_iff {w : String} {s : Source} : ofWord? w = some s ↔ s.word = w :=
  find?_word_eq_some_iff ofWord?_word

theorem word_injective : Function.Injective word :=
  Function.IsPartialInv.injective fun _ _ => ofWord?_eq_some_iff

theorem mapM_ofWord?_eq_some_iff {ws : List String} {order : List Source} :
    ws.mapM ofWord? = some order ↔ order.map word = ws := by
  induction ws generalizing order with
  | nil => simp [eq_comm]
  | cons w ws ih =>
    simp only [List.mapM_cons, Option.bind_eq_bind, Option.bind_eq_some_iff, ofWord?_eq_some_iff,
      ih, Option.pure_def, Option.some_inj]
    constructor
    · intro h
      obtain ⟨s, rfl, rest, rfl, rfl⟩ := h
      rfl
    · intro h
      obtain ⟨s, rest, rfl, hs, hrest⟩ := List.map_eq_cons_iff.1 h
      exact ⟨s, hs, rest, hrest, rfl⟩

end Source

/-- Where no key is given twice, there is one value under a key at most. -/
theorem Document.valuesAt_eq_toList_lookup {entries : List (String × Document)}
    (h : (entries.map Prod.fst).Nodup) (key : String) :
    valuesAt key entries = (entries.lookup key).toList := by
  induction entries with
  | nil => rfl
  | cons e entries ih =>
    obtain ⟨k, d⟩ := e
    rw [List.map_cons, List.nodup_cons] at h
    have hrest := ih h.2
    by_cases hk : k = key
    · have hnone : entries.filter (fun e => e.1 == key) = [] := by
        rw [List.filter_eq_nil_iff]
        intro e he heq
        have hkey : e.1 = k := (eq_of_beq heq).trans hk.symm
        exact h.1 (List.mem_map.2 ⟨e, he, hkey⟩)
      simp [valuesAt, hk, hnone]
    · have hne : (key == k) = false := beq_eq_false_iff_ne.2 (Ne.symm hk)
      rw [List.lookup_cons, hne, ← hrest]
      simp [valuesAt, hk]

namespace NamingConfig

/-- What a mapping gives for the two fields, in words. No key is given twice, and what stands under
other keys may be anything. -/
structure Spells (entries : List (String × Document)) (gauge : Option String)
    (order : Option (List String)) : Prop where
  nodup : (entries.map Prod.fst).Nodup
  gaugeNaming : entries.lookup "gauge_naming" = gauge.map .text
  resolutionOrder :
    entries.lookup "resolution_order" = order.map fun ws => .list (ws.map .text)

/-- The words that are given are words of a configuration, letter by letter. -/
structure Exact (gauge : Option String) (order : Option (List String)) : Prop where
  gaugeNaming : ∀ w ∈ gauge, ∃ g : GaugeNaming, g.word = w
  resolutionOrder : ∀ ws ∈ order, ∀ w ∈ ws, ∃ s : Source, s.word = w

/-- The fields of the configuration are those that the given words name, and the defaults where no
words are given. -/
structure Shows (c : NamingConfig) (gauge : Option String) (order : Option (List String)) :
    Prop where
  gaugeNaming : c.gaugeNaming.word = gauge.getD "instance_class"
  resolutionOrder : c.resolutionOrder.map Source.word = order.getD ["method", "class"]

variable {rule : WordRule} {entries : List (String × Document)} {gauge : Option String}
  {order : Option (List String)} {c : NamingConfig}

theorem exact_iff : Exact gauge order ↔ ∃ c : NamingConfig, c.Shows gauge order := by
  constructor
  · intro h
    have hgauge : ∃ g : GaugeNaming, g.word = gauge.getD "instance_class" := by
      cases gauge with
      | none => exact ⟨.instanceClass, rfl⟩
      | some w => exact h.gaugeNaming w rfl
    have horder : ∃ o : List Source, o.map Source.word = order.getD ["method", "class"] := by
      cases order with
      | none => exact ⟨[.method, .type], rfl⟩
      | some ws =>
        have hwords : ws ∈ Set.range (List.map Source.word) := by
          rw [Set.range_list_map]
          exact h.resolutionOrder ws rfl
        exact hwords
    obtain ⟨g, hg⟩ := hgauge
    obtain ⟨o, ho⟩ := horder
    exact ⟨⟨g, o⟩, hg, ho⟩
  · rintro ⟨c, hgauge, horder⟩
    constructor
    · rintro w rfl
      exact ⟨c.gaugeNaming, hgauge⟩
    · rintro ws rfl w hw
      rw [Option.getD_some] at horder
      rw [← horder] at hw
      obtain ⟨s, -, hs⟩ := List.mem_map.1 hw
      exact ⟨s, hs⟩

theorem Shows.resolutionOrder_eq_nil_iff (h : c.Shows gauge order) :
    c.resolutionOrder = [] ↔ order = some [] := by
  rw [← List.map_eq_nil_iff (f := Source.word), h.resolutionOrder]
  cases order <;> simp

/-- The rule takes each given word as it stands. -/
def Verbatim (rule : WordRule) (gauge : Option String) (order : Option (List String)) : Prop :=
  (∀ w ∈ gauge, rule (.text w) = some w) ∧ ∀ ws ∈ order, ∀ w ∈ ws, rule (.text w) = some w

theorem readField_gaugeNaming_iff (hrule : ∀ w ∈ gauge, rule (.text w) = some w)
    {g : GaugeNaming} :
    readField (readGaugeNaming rule) standard.gaugeNaming (gauge.map .text).toList = some g ↔
      g.word = gauge.getD "instance_class" := by
  cases gauge with
  | none =>
    show some GaugeNaming.instanceClass = some g ↔ g.word = GaugeNaming.instanceClass.word
    rw [Option.some_inj, GaugeNaming.word_injective.eq_iff, eq_comm]
  | some w =>
    show readGaugeNaming rule (.text w) = some g ↔ g.word = w
    rw [readGaugeNaming, hrule w rfl]
    exact GaugeNaming.ofWord?_eq_some_iff

theorem mapM_readSource {ws : List String} (hrule : ∀ w ∈ ws, rule (.text w) = some w) :
    (ws.map Document.text).mapM (readSource rule) = ws.mapM Source.ofWord? := by
  induction ws with
  | nil => rfl
  | cons w ws ih =>
    rw [List.forall_mem_cons] at hrule
    have hw : readSource rule (.text w) = Source.ofWord? w := by
      rw [readSource, hrule.1]
      rfl
    rw [List.map_cons, List.mapM_cons, List.mapM_cons, hw, ih hrule.2]

theorem readField_resolutionOrder_iff
    (hrule : ∀ ws ∈ order, ∀ w ∈ ws, rule (.text w) = some w) {o : List Source} :
    readField (readOrder rule) standard.resolutionOrder
        (order.map fun ws => Document.list (ws.map .text)).toList = some o ↔
      o.map Source.word = order.getD ["method", "class"] := by
  cases order with
  | none =>
    show some [Source.method, Source.type] = some o ↔
      o.map Source.word = [Source.method, Source.type].map Source.word
    rw [Option.some_inj, (List.map_injective_iff.2 Source.word_injective).eq_iff, eq_comm]
  | some ws =>
    show (ws.map Document.text).mapM (readSource rule) = some o ↔ o.map Source.word = ws
    rw [mapM_readSource (hrule ws rfl), Source.mapM_ofWord?_eq_some_iff]

theorem ofDocument?_eq_some_iff (h : Spells entries gauge order)
    (hrule : Verbatim rule gauge order) :
    ofDocument? rule (.mapping entries) = some c ↔ c.Shows gauge order := by
  have hmapping : (Document.mapping entries).untagged = .mapping entries := rfl
  simp only [ofDocument?, hmapping, Document.valuesAt_eq_toList_lookup h.nodup, h.gaugeNaming,
    h.resolutionOrder, Option.bind_eq_bind, Option.bind_eq_some_iff,
    readField_gaugeNaming_iff hrule.1, readField_resolutionOrder_iff hrule.2, Option.pure_def,
    Option.some_inj]
  constructor
  · rintro ⟨g, hg, o, ho, rfl⟩
    exact ⟨hg, ho⟩
  · intro hc
    exact ⟨c.gaugeNaming, hc.gaugeNaming, c.resolutionOrder, hc.resolutionOrder, rfl⟩

theorem decode_eq_ok_iff (h : Spells entries gauge order) (hrule : Verbatim rule gauge order) :
    decode rule (.mapping entries) = .ok c ↔ c.Shows gauge order ∧ order ≠ some [] := by
  rw [← ofDocument?_eq_some_iff h hrule, decode]
  cases hd : ofDocument? rule (.mapping entries) with
  | none => simp
  | some d =>
    have hempty := ((ofDocument?_eq_some_iff h hrule).1 hd).resolutionOrder_eq_nil_iff
    simp only [validate, List.isEmpty_iff, hempty]
    split
    · next horder => simp [horder]
    · next horder => simp [horder]

/-- What a mapping in words is read as. Words that are not spelled exactly make it no configuration,
before an empty order is looked at. -/
theorem decides_decode (h : Spells entries gauge order) (hrule : Verbatim rule gauge order) :
    Decides (decode rule (.mapping entries)) (Exact gauge order ∧ order ≠ some []) fun e =>
      e = .malformed ∧ ¬ Exact gauge order ∨
        e = .emptyResolutionOrder ∧ Exact gauge order ∧ order = some [] := by
  apply Decides.of_total
  · rintro ⟨hexact, horder⟩
    obtain ⟨c, hc⟩ := exact_iff.1 hexact
    exact ⟨c, (decode_eq_ok_iff h hrule).2 ⟨hc, horder⟩⟩
  · rintro e (⟨rfl, hinexact⟩ | ⟨rfl, hexact, hempty⟩)
    · have hnone : ofDocument? rule (.mapping entries) = none := by
        rw [Option.eq_none_iff_forall_ne_some]
        intro c hc
        exact hinexact (exact_iff.2 ⟨c, (ofDocument?_eq_some_iff h hrule).1 hc⟩)
      rw [decode, hnone]
    · obtain ⟨c, hc⟩ := exact_iff.1 hexact
      have hnil : c.resolutionOrder = [] := hc.resolutionOrder_eq_nil_iff.2 hempty
      rw [decode, (ofDocument?_eq_some_iff h hrule).2 hc]
      simp only [validate, hnil, List.isEmpty_nil, if_true]
  · by_cases hexact : Exact gauge order
    · by_cases horder : order = some []
      · exact .inr ⟨.emptyResolutionOrder, .inr ⟨rfl, hexact, horder⟩⟩
      · exact .inl ⟨hexact, horder⟩
    · exact .inr ⟨.malformed, .inl ⟨rfl, hexact⟩⟩

end NamingConfig

end MetricWiring
