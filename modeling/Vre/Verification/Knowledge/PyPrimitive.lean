import Vre.Model.PyPrimitive
import Vre.Verification.Knowledge.Serialization

/-! # Names and values that are not stored as they are

A name without surrogates is a text, and so is its folded name. A primitive whose values are JSON
values is written as it is.
-/

namespace Vre

/-! ## Strings -/

namespace PyStr

@[simp] theorem isEncodable_ofString (s : String) : (ofString s).isEncodable = true := by
  simp [isEncodable, ofString, CodePoint.isChar]

@[simp] theorem text_ofString (s : String) : (ofString s).text = s := by
  simp [text, ofString, CodePoint.shown, Function.comp_def]

/-- A string that UTF-8 encodes is a text. -/
theorem ofString_text {s : PyStr} (h : s.isEncodable = true) : ofString s.text = s := by
  rw [ofString, text, String.toList_ofList, List.map_map]
  apply (List.map_congr_left ?_).trans s.map_id
  intro c hc
  cases c with
  | char _ => rfl
  | surrogate _ => cases List.all_eq_true.mp h _ hc

theorem ofString_inj {s s' : String} : ofString s = ofString s' ↔ s = s' := by
  constructor
  · intro h
    rw [← text_ofString s, h, text_ofString]
  · intro h
    rw [h]

theorem mapTexts_chars (f : String → String) (before chars : List Char) :
    mapTexts f before (chars.map .char) = ofString (f (String.ofList (before ++ chars))) := by
  induction chars generalizing before with
  | nil => rw [List.append_nil, List.map_nil, mapTexts]
  | cons c rest ih => rw [List.map_cons, mapTexts, ih, List.append_assoc, List.singleton_append]

/-- No surrogate is lost, and none comes in. -/
theorem isEncodable_mapTexts (f : String → String) (before : List Char) (s : PyStr) :
    (mapTexts f before s).isEncodable = s.isEncodable := by
  induction s generalizing before with
  | nil => exact isEncodable_ofString _
  | cons c rest ih =>
      cases c with
      | char c => exact (ih _).trans rfl
      | surrogate offset => simp [mapTexts, isEncodable, CodePoint.isChar]

variable [NameFolding]

@[simp] theorem foldName_ofString (name : String) :
    (ofString name).foldName = ofString (Vre.foldName name) := by
  rw [foldName, ofString, mapTexts_chars, List.nil_append, String.ofList_toList]

/-- The folded name has a surrogate exactly when the name does. -/
@[simp] theorem isEncodable_foldName (name : PyStr) :
    name.foldName.isEncodable = name.isEncodable :=
  isEncodable_mapTexts _ _ _

end PyStr

/-! ## Values -/

/-- Every value in the properties and the metadata of the primitive is a JSON value. -/
structure Primitive.JsonValued (p : Primitive) : Prop where
  properties : ∀ d ∈ p.depths, Serializable d.properties
  metadata : ∀ d ∈ p.depths, ∀ r ∈ d.relata, Serializable r.metadata

theorem Primitive.Storable.jsonValued {p : Primitive} (h : p.Storable) : p.JsonValued :=
  ⟨h.properties, h.metadata⟩

/-- What is read back holds JSON values. -/
theorem jsonValued_load (row : PrimitiveRow) (relata : List RelatumRow) :
    (row.load relata).JsonValued := by
  constructor
  · intro d hd
    obtain ⟨entry, -, hproperties⟩ := exists_entry_of_mem_load hd
    exact hproperties ▸ serializable_jsonLoads entry.properties
  · intro d hd r hr
    rw [relata_of_mem_load hd] at hr
    obtain ⟨rel, -, -, rfl⟩ := mem_relataAt.mp hr
    exact serializable_jsonLoads rel.metadataJson

section

variable [JsonEncoder]

theorem writtenProperties_eq {properties : Properties}
    (h : ∀ e ∈ properties, e.2.written = e.2) : writtenProperties properties = properties := by
  apply (List.map_congr_left ?_).trans properties.map_id
  intro e he
  exact Prod.ext rfl (h e he)

/-- A primitive is written as it is when each of its values is. -/
theorem written_eq {p : PyPrimitive}
    (hproperties : ∀ d ∈ p.depths, ∀ e ∈ d.properties, e.2.written = e.2)
    (hmetadata : ∀ d ∈ p.depths, ∀ r ∈ d.relata, ∀ e ∈ r.metadata, e.2.written = e.2) :
    p.written = p.toPrimitive := by
  have hdepths : p.depths.map Depth.written = p.depths := by
    apply (List.map_congr_left ?_).trans p.depths.map_id
    intro d hd
    have hrelata : d.relata.map Relatum.written = d.relata := by
      apply (List.map_congr_left ?_).trans d.relata.map_id
      intro r hr
      simp only [Relatum.written, writtenProperties_eq (hmetadata d hd r hr), id]
    simp only [Depth.written, writtenProperties_eq (hproperties d hd), hrelata, id]
  rw [PyPrimitive.written, hdepths]
  rfl

theorem written_of_serializable {properties : Properties} (h : Serializable properties) :
    ∀ e ∈ properties, e.2.written = e.2 := by
  intro e he
  obtain ⟨text, htext⟩ := h e he
  rw [htext]
  rfl

/-- JSON values are written as they are. -/
theorem written_of_jsonValued {p : PyPrimitive} (h : p.toPrimitive.JsonValued) :
    p.written = p.toPrimitive := by
  apply written_eq
  · intro d hd
    exact written_of_serializable (h.properties d hd)
  · intro d hd r hr
    exact written_of_serializable (h.metadata d hd r hr)

/-- Writing changes values alone. -/
theorem exists_relatum_written {p : PyPrimitive} {P : RelationType → UUID → Prop} :
    (∃ d ∈ p.written.depths, ∃ r ∈ d.relata, P r.relationType r.targetId) ↔
      ∃ d ∈ p.depths, ∃ r ∈ d.relata, P r.relationType r.targetId := by
  simp [PyPrimitive.written, Depth.written, Relatum.written]

theorem stamped_written {p : PyPrimitive} : p.written.Stamped ↔ p.toPrimitive.Stamped := by
  have hdepths : (∀ d ∈ p.written.depths, d.provenance.isSome) ↔
      ∀ d ∈ p.depths, d.provenance.isSome := by
    simp [PyPrimitive.written, Depth.written]
  have hrelata : (∀ d ∈ p.written.depths, ∀ r ∈ d.relata, r.provenance.isSome) ↔
      ∀ d ∈ p.depths, ∀ r ∈ d.relata, r.provenance.isSome := by
    simp [PyPrimitive.written, Depth.written, Relatum.written]
  constructor
  · intro h
    exact ⟨h.primitive, hdepths.mp h.depths, hrelata.mp h.relata⟩
  · intro h
    exact ⟨h.primitive, hdepths.mpr h.depths, hrelata.mpr h.relata⟩

/-- Under a name that UTF-8 encodes, the folded name is that of the text. -/
theorem ofString_nameLower_written [NameFolding] {p : PyPrimitive}
    (h : p.name.isEncodable = true) : .ofString p.written.nameLower = p.nameLower := by
  rw [PyPrimitive.nameLower, ← PyStr.ofString_text h, PyStr.foldName_ofString]
  rfl

end

/-- Where `json.dumps` rejects what is no JSON value, every primitive is written as it is. -/
theorem written_strict (p : PyPrimitive) : letI := strictEncoder
    p.written = p.toPrimitive := by
  let _ := strictEncoder
  have hvalue : ∀ value : PyValue, value.written = value := by
    intro value
    cases value <;> rfl
  exact written_eq (fun _ _ e _ => hvalue e.2) (fun _ _ _ _ e _ => hvalue e.2)

theorem toPrimitive_toPy (p : Primitive) : p.toPy.toPrimitive = p :=
  congrArg (Primitive.mk p.id · p.depths p.provenance p.metrics) (PyStr.text_ofString p.name)

theorem written_toPy [JsonEncoder] {p : Primitive} (h : p.JsonValued) :
    p.toPy.written = p.toPy.toPrimitive :=
  written_of_jsonValued ((toPrimitive_toPy p).symm ▸ h)

end Vre
