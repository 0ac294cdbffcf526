import Vre.Model.ReferenceLoop
import Vre.Verification.Grounding.Demands
import Vre.Verification.Learning.Acceptance

/-! # Filled templates

The template of a gap lists the levels that the query misses. When the query masks nothing it
demands, these are the levels that the stored primitive misses, and the filled template passes
the validation of `learn_gap`.
-/

namespace Vre

/-! ## Filled slots -/

@[simp] theorem ProposedDepth.fill_level (content : DepthLevel → SlotContent)
    (slot : ProposedDepth) : (slot.fill content).level = slot.level := rfl

theorem ProposedDepth.fill_properties (content : DepthLevel → SlotContent)
    (slot : ProposedDepth) : (slot.fill content).properties ≠ [] ∧
      Serializable (slot.fill content).properties := by
  refine ⟨fun hnil => (content slot.level).nonempty ?_, serializable_jsonLoads _⟩
  exact List.map_eq_nil_iff.mp hnil

theorem LearningCandidate.proposed_fill (content : DepthLevel → SlotContent)
    (candidate : LearningCandidate) :
    (candidate.fill content).proposed = candidate.proposed.map (ProposedDepth.fill content) := by
  cases candidate with
  | existence c => cases hd1 : c.d1 <;> simp [fill, proposed, hd1]
  | _ => rfl

theorem LearningCandidate.serializable_fill (content : DepthLevel → SlotContent)
    (candidate : LearningCandidate) :
    ∀ d ∈ (candidate.fill content).proposed, Serializable d.properties := by
  rw [proposed_fill]
  exact List.forall_mem_map.mpr fun slot _ => (slot.fill_properties content).2

/-- The slots of a template, filled. -/
def filledSlots (content : DepthLevel → SlotContent) (levels : List DepthLevel) :
    List ProposedDepth :=
  (levels.map ProposedDepth.slot).map (ProposedDepth.fill content)

@[simp] theorem levels_filledSlots (content : DepthLevel → SlotContent)
    (levels : List DepthLevel) : (filledSlots content levels).map ProposedDepth.level = levels := by
  simp [filledSlots, Function.comp_def, ProposedDepth.slot]

theorem mem_filledSlots {content : DepthLevel → SlotContent} {levels : List DepthLevel}
    {d : ProposedDepth} (hd : d ∈ filledSlots content levels) :
    d.level ∈ levels ∧ d.properties ≠ [] := by
  obtain ⟨slot, hslot, rfl⟩ := List.mem_map.mp hd
  obtain ⟨level, hlevel, rfl⟩ := List.mem_map.mp hslot
  exact ⟨hlevel, (ProposedDepth.fill_properties content _).1⟩

namespace LearningEngine

/-- Filling the levels that a view misses is valid for every primitive that has the levels of
the view, as far as is required. -/
theorem validFill_missing (content : DepthLevel → SlotContent) {view present : Finset DepthLevel}
    {required : DepthLevel} (hview : ∀ l ≤ required, l ∈ present ↔ l ∈ view)
    (hunmet : ¬ Meets (contiguousMax view) required) :
    ValidFill (filledSlots content (missingDepthLevels view (contiguousMax view) required))
      required present := by
  have hmissing : ∀ d ∈ filledSlots content
      (missingDepthLevels view (contiguousMax view) required),
        d.level ≤ required ∧ d.level ∉ view :=
    fun d hd => mem_missingDepthLevels.mp (mem_filledSlots hd).1
  refine ⟨?_, ?_, fun d hd => (mem_filledSlots hd).2, fun d hd => (hmissing d hd).1,
    fun d hd => ?_, fun d hd l hl => ?_⟩
  · simpa [filledSlots] using missingDepthLevels_ne_nil.mpr hunmet
  · rw [levels_filledSlots]
    exact nodup_missingDepthLevels view _ required
  · obtain ⟨hle, habsent⟩ := hmissing d hd
    exact fun hpresent => habsent ((hview _ hle).mp hpresent)
  · have hle := hl.trans (hmissing d hd).1
    rw [levels_filledSlots, mem_missingDepthLevels, hview l hle]
    exact (em (l ∈ view)).imp_right fun habsent => ⟨hle, habsent⟩

end LearningEngine

/-! ## The gaps of a stored graph -/

namespace GroundingEngine

open Tables

/-- An existence gap is about a concept of the query that is not stored. -/
theorem absent_of_existence [NameFolding] {t : Tables} (h : t.Schema) {draw : Draw}
    (hfresh : ∀ i, ¬ t.Stored (draw.uuid4 i)) {concepts : List String}
    {minDepth : Option DepthLevel} {p : Primitive}
    (hp : p ∈ (t.inquiry draw concepts minDepth).allNodes)
    (hid : p.id ∈ (t.inquiry draw concepts minDepth).transientIds) :
    p.name ∈ concepts ∧ t.named p.name = none := by
  obtain ⟨-, htransients, -⟩ := identifyRoots_spec (h.coherent concepts) draw
  have hdrawn : ∃ i, p.id = draw.uuid4 i := by
    obtain ⟨r, hr, hrid⟩ := List.mem_map.mp hid
    obtain ⟨-, -, i, heq⟩ := htransients r hr
    exact ⟨i, hrid.symm.trans (congrArg Primitive.id heq)⟩
  have hp : p ∈ (t.inquiry draw concepts minDepth).transients := by
    apply (List.mem_append.mp hp).resolve_left
    intro hnode
    obtain ⟨row, hrow, -, rfl⟩ := mem_closureNodes.mp hnode
    obtain ⟨i, heq⟩ := hdrawn
    exact hfresh i ⟨row, hrow, heq⟩
  obtain ⟨hname, habsent, -⟩ := htransients p hp
  refine ⟨hname, named_eq_none.mpr fun row hrow hfold => ?_⟩
  have hnamed : t.Named concepts row.id := ⟨row, hrow, rfl, hfold ▸ List.mem_map_of_mem hname⟩
  apply habsent _ (mem_closureNodes.mpr ⟨row, hrow, hnamed.inClosure, rfl⟩)
  exact (h.nameLower_nodeRow concepts hrow).trans hfold

theorem subject_mem_of_existence [NameFolding] {t : Tables} (h : t.Schema) {draw : Draw}
    (hfresh : ∀ i, ¬ t.Stored (draw.uuid4 i)) {concepts : List String}
    {minDepth : Option DepthLevel} {gap : KnowledgeGap}
    (hgap : gap ∈ (t.inquiry draw concepts minDepth).gaps) (hkind : gap.kind = .existence) :
    gap.subject.name ∈ concepts := by
  rcases Inquiry.gap_cases (h.coherent concepts) hgap with
    ⟨g, rfl, hmem, hid⟩ | ⟨g, rfl, -⟩ | ⟨g, rfl, -⟩ | ⟨g, rfl⟩
  · exact (absent_of_existence h hfresh hmem hid).1
  · cases hkind
  · cases hkind
  · cases hkind

/-- A depth gap asks for a depth that the query demands. -/
theorem Inquiry.OwesDepth.demands [NameFolding] {t : Tables} (h : t.Schema) {draw : Draw}
    {concepts : List String} {minDepth : Option DepthLevel} {g : DepthGap}
    (howes : (t.inquiry draw concepts minDepth).OwesDepth g) :
    t.Demands concepts minDepth g.primitive.id g.requiredDepth := by
  rcases howes.demand with ⟨e, he, hid, hrequired⟩ | ⟨hfloor, hroot⟩
  · obtain ⟨rel, hrel, rfl⟩ := List.mem_map.mp (Inquiry.mem_frontierGated.mp he).1
    exact hid ▸ hrequired ▸ .source hrel
  · exact .floor hfloor ((named_iff_root h).mpr (List.mem_map_of_mem hroot))

/-- A relational gap asks for a depth that the query demands. -/
theorem Inquiry.OwesTarget.demands [NameFolding] {t : Tables} {draw : Draw}
    {concepts : List String} {minDepth : Option DepthLevel} {g : RelationalGap}
    (howes : (t.inquiry draw concepts minDepth).OwesTarget g) :
    t.Demands concepts minDepth g.target.id g.requiredDepth := by
  obtain ⟨e, he, -, hid, hrequired⟩ := howes.demand
  obtain ⟨rel, hrel, rfl⟩ := List.mem_map.mp (Inquiry.mem_frontierVisible.mp he).1
  exact hid ▸ hrequired ▸ .target hrel

end GroundingEngine

/-! ## Filling a gap -/

namespace LearningEngine

open GroundingEngine

/-- A node of an unmasked query and its stored primitive lack the same levels, as far as the
query demands. The fill of these levels is valid for the primitive. -/
theorem validFill_node [NameFolding] (content : DepthLevel → SlotContent) {t t' : Tables}
    (h : t.Schema) (hsame : t.SameKnowledge t') {concepts : List String}
    {minDepth : Option DepthLevel} (hunmasked : t.Unmasked concepts minDepth) {n : Primitive}
    (hn : n ∈ (t.subgraph concepts).nodes) {required : DepthLevel}
    (hdemand : t.Demands concepts minDepth n.id required)
    (hunmet : ¬ Meets n.contiguousMaxDepth required) :
    ∃ p, t'.live n.id = some p ∧ ¬ Meets p.contiguousMaxDepth required ∧
      ValidFill (filledSlots content
        (missingDepthLevels n.groundingLevels n.contiguousMaxDepth required))
        required p.groundingLevels := by
  obtain ⟨row, hrow, -, rfl⟩ := Tables.mem_closureNodes.mp hn
  have hlive := (Tables.live_eq_some h).mpr ⟨row, hrow, rfl, rfl⟩
  obtain ⟨metrics, hlive'⟩ := hsame.live h hlive
  have hview : ∀ l ≤ required, l ∈ (t.loadRow row).groundingLevels ↔
      l ∈ (t.nodeRow concepts row).groundingLevels := by
    intro l hl
    rw [Tables.mem_groundingLevels_iff_masked h hrow]
    exact or_iff_left (hunmasked row.id required hdemand l hl)
  refine ⟨_, hlive', fun hmet => hunmet ?_, validFill_missing content hview hunmet⟩
  refine meets_contiguousMaxDepth.mpr fun l hl => (hview l hl).mp ?_
  exact meets_contiguousMaxDepth.mp hmet l hl

/-- A filled template of an unmasked query determines a primitive to save. -/
theorem exists_learned [NameFolding] {t t' : Tables} (h : t.Schema) (hsame : t.SameKnowledge t')
    {draw : Draw} (hfresh : ∀ i, ¬ t.Stored (draw.uuid4 i)) {concepts : List String}
    {minDepth : Option DepthLevel} (hunmasked : t.Unmasked concepts minDepth)
    {gap : KnowledgeGap} (hgap : gap ∈ (t.inquiry draw concepts minDepth).gaps)
    (hkind : gap.kind ≠ .reachability) (learning : Draw) (content : DepthLevel → SlotContent) :
    ∃ p, Learned learning t' gap ((templateForGap gap).fill content) p := by
  rcases Inquiry.gap_cases (h.coherent concepts) hgap with
    ⟨g, rfl, hmem, hid⟩ | ⟨g, rfl, howes⟩ | ⟨g, rfl, howes⟩ | ⟨g, rfl⟩
  · obtain ⟨-, habsent⟩ := absent_of_existence h hfresh hmem hid
    have habsent' : t'.named g.primitive.name = none := by
      apply Tables.named_eq_none.mpr
      intro row' hrow'
      obtain ⟨row, hrow, metrics, rfl⟩ := hsame.exists_row hrow'
      exact Tables.named_eq_none.mp habsent row hrow
    exact ⟨_, .existence rfl rfl rfl (ProposedDepth.fill_properties content _).1 habsent'⟩
  · have hunmet := howes.current ▸ howes.unmet
    obtain ⟨p, hlive, hopen, hvalid⟩ :=
      validFill_node content h hsame hunmasked howes.mem (howes.demands h) hunmet
    rw [← howes.current] at hvalid
    exact ⟨_, .fill (.depth g _) hlive hopen hvalid⟩
  · have hunmet := howes.current ▸ howes.unmet
    obtain ⟨p, hlive, hopen, hvalid⟩ :=
      validFill_node content h hsame hunmasked howes.mem howes.demands hunmet
    rw [← howes.current] at hvalid
    exact ⟨_, .fill (.relational g _) hlive hopen hvalid⟩
  · exact absurd rfl hkind

end LearningEngine

end Vre
