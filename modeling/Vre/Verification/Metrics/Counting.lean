import Vre.Verification.Grounding.Check
import Vre.Verification.Grounding.Trace

/-! # Counting a check

A check rewrites the metrics of the stored primitives that its concepts name, each once, and
nothing else.
-/

namespace Vre

/-! ## The updates -/

namespace MetricsManager

theorem metricUpdates_append (now : Timestamp) (gapIds : List UUID) (targets : List Primitive)
    (p : Primitive) (current : OrderedDict UUID (Option PrimitiveMetrics)) :
    metricUpdates now gapIds (targets ++ [p]) current =
      ((current.get? p.id).map fun m => (metricUpdates now gapIds targets current).set p.id
        (bump now (p.id ∈ gapIds) (m.getD .new))).getD
          (metricUpdates now gapIds targets current) := by
  simp only [metricUpdates, List.foldl_append, List.foldl_cons, List.foldl_nil]
  cases current.get? p.id <;> rfl

/-- Each target whose metrics were read is counted once, from what was read. -/
theorem get?_metricUpdates (now : Timestamp) (gapIds : List UUID) (targets : List Primitive)
    (current : OrderedDict UUID (Option PrimitiveMetrics)) (id : UUID) :
    (metricUpdates now gapIds targets current).get? id =
      if id ∈ targets.map Primitive.id then
        (current.get? id).map fun m => bump now (id ∈ gapIds) (m.getD .new)
      else none := by
  induction targets using List.reverseRecOn with
  | nil => rfl
  | append_singleton targets p ih =>
      rw [metricUpdates_append]
      by_cases hid : id = p.id
      · subst hid
        cases hget : current.get? p.id with
        | none => simpa [hget] using ih
        | some m => simp [OrderedDict.get?_set]
      · cases hget : current.get? p.id with
        | none => simpa [hid] using ih
        | some m => simpa [OrderedDict.get?_set, hid] using ih

end MetricsManager

namespace Tables

/-- The tables after the metrics of the given ids were written. -/
def writeMetrics (t : Tables) (updates : OrderedDict UUID PrimitiveMetrics) : Tables :=
  { t with
    primitives := t.primitives.map fun row =>
      match updates.get? row.id with
      | some metrics => { row with metricsJson := some metrics }
      | none => row }

theorem foldl_setMetrics_eq (t : Tables) (updates : OrderedDict UUID PrimitiveMetrics) :
    updates.entries.foldl (fun t e => t.setMetrics e.1 e.2) t = t.writeMetrics updates := by
  obtain ⟨entries, hnodup⟩ := updates
  induction entries generalizing t with
  | nil => simp [writeMetrics, OrderedDict.get?]
  | cons e rest ih =>
      obtain ⟨hnot, hrest⟩ := List.nodup_cons.mp hnodup
      rw [List.foldl_cons, ih (t.setMetrics e.1 e.2) hrest]
      simp only [writeMetrics, setMetrics, List.map_map]
      refine congrArg (fun rows => (⟨rows, t.relata⟩ : Tables))
        (List.map_congr_left fun row _ => ?_)
      simp only [Function.comp_apply, OrderedDict.get?]
      by_cases hid : row.id = e.1
      · have hnone : rest.find? (fun e' => e'.1 = e.1) = none := by
          refine List.find?_eq_none.mpr fun e' he' heq => hnot ?_
          exact List.mem_map.mpr ⟨e', he', of_decide_eq_true heq⟩
        simp [hid, hnone]
      · have hne : ¬ e.1 = row.id := fun h => hid h.symm
        simp [hid, hne]

theorem writeMetrics_of_empty {updates : OrderedDict UUID PrimitiveMetrics}
    (h : updates.entries = []) (t : Tables) : t.writeMetrics updates = t := by
  rw [← foldl_setMetrics_eq, h]
  rfl

/-- The tables after a check of `concepts` whose gaps are about `gapIds`. -/
def countCheck [NameFolding] (t : Tables) (now : Timestamp) (concepts : List String)
    (gapIds : List UUID) : Tables :=
  { t with
    primitives := t.primitives.map fun row =>
      if row.nameLower ∈ concepts.map foldName then
        { row with metricsJson := some (MetricsManager.bump now (row.id ∈ gapIds)
            (row.metricsJson.getD .new)) }
      else row }

end Tables

/-! ## The targets of a check -/

namespace GroundingEngine

open Tables

theorem fold_resolved [NameFolding] (q : Inquiry) :
    q.resolved.map foldName = q.concepts.map foldName := by
  rw [Inquiry.resolved, List.map_map]
  apply List.map_congr_left
  intro c _
  simp only [Function.comp_apply]
  cases hget : (OrderedDict.ofItems
      (q.response.result.primitives.map fun p => (p.nameLower, p.name))).get? (foldName c) with
  | none => rfl
  | some name =>
      obtain ⟨p, -, hp⟩ := List.mem_map.mp (OrderedDict.mem_of_get?_ofItems hget)
      obtain ⟨hfold, rfl⟩ := Prod.mk.inj hp
      exact hfold

/-- The primitives of the response under a submitted name. -/
def Inquiry.targets [NameFolding] (q : Inquiry) : List Primitive :=
  q.response.result.primitives.filter fun p => p.nameLower ∈ q.concepts.map foldName

/-- A stored primitive is a target exactly when the concepts name it. -/
theorem mem_targets_iff [NameFolding] {t : Tables} (h : t.Schema) {draw : Draw}
    (hfresh : draw.Fresh t) (concepts : List String) (minDepth : Option DepthLevel)
    {row : PrimitiveRow} (hrow : row ∈ t.primitives) :
    row.id ∈ (t.inquiry draw concepts minDepth).targets.map Primitive.id ↔
      row.nameLower ∈ concepts.map foldName := by
  have hapart := hfresh.apart h concepts minDepth
  have hprimitives := hapart.primitives_eq (t.hydrated_subgraph concepts)
  constructor
  · intro hid
    obtain ⟨p, hp, hsame⟩ := List.mem_map.mp hid
    obtain ⟨hp, hname⟩ := List.mem_filter.mp hp
    rw [hprimitives] at hp
    rcases List.mem_append.mp hp with hp | hp
    · obtain ⟨n, hn, rfl⟩ := List.mem_map.mp hp
      obtain ⟨row', hrow', -, rfl⟩ := mem_closureNodes.mp (List.mem_filter.mp hn).1
      obtain rfl : row' = row := h.row_unique hrow' hrow hsame
      exact h.nameLower_nodeRow concepts hrow ▸ of_decide_eq_true hname
    · apply absurd (List.mem_map_of_mem (f := Primitive.id) hp)
      exact hfresh.notMem_transientIds h ⟨row, hrow, hsame.symm⟩
  · intro hname
    have hroot : t.nodeRow concepts row ∈ (t.subgraph concepts).roots :=
      (mem_roots_subgraph h).mpr ⟨row, hrow, hname, rfl⟩
    have hnode := hapart.node_of_root hroot
    have hfrontier := Inquiry.root_mem_frontier ((hapart.mem_rootIds hnode).mpr hroot)
    refine List.mem_map.mpr ⟨(t.nodeRow concepts row).envelope, ?_, rfl⟩
    refine List.mem_filter.mpr ⟨?_, decide_eq_true ?_⟩
    · rw [hprimitives]
      refine List.mem_append_left _ (List.mem_map_of_mem ?_)
      exact List.mem_filter.mpr ⟨hnode, decide_eq_true hfrontier⟩
    · exact (h.nameLower_nodeRow concepts hrow).symm ▸ hname

end GroundingEngine

/-! ## The effect of a check -/

theorem Sqlite.get?_batchReadMetrics [NameFolding] {t : Tables} (h : t.Schema) {ids : List UUID}
    {row : PrimitiveRow} (hrow : row ∈ t.primitives) (hid : row.id ∈ ids) :
    ∃ current, Repository.batchReadMetrics (⟨t, none⟩ : SqliteRepository) ids = .ok current ∧
      current.get? row.id = some row.metricsJson := by
  refine ⟨_, rfl, OrderedDict.get?_ofItems_of_nodup ?_ ?_⟩
  · rw [List.map_map]
    exact h.nodup_ids.sublist (List.filter_sublist.map _)
  · exact List.mem_map.mpr ⟨row, List.mem_filter.mpr ⟨hrow, decide_eq_true hid⟩, rfl⟩

namespace MetricsManager

/-- The updates of a check, written, count it. -/
theorem writeMetrics_eq_countCheck [NameFolding] {t : Tables} (h : t.Schema) {draw : Draw}
    (hfresh : draw.Fresh t) (concepts : List String) (minDepth : Option DepthLevel)
    (gapIds : List UUID) {current : OrderedDict UUID (Option PrimitiveMetrics)}
    (hcurrent : Repository.batchReadMetrics (⟨t, none⟩ : SqliteRepository)
      ((t.inquiry draw concepts minDepth).targets.map Primitive.id) = .ok current) :
    t.writeMetrics (metricUpdates draw.now gapIds (t.inquiry draw concepts minDepth).targets
      current) = t.countCheck draw.now concepts gapIds := by
  refine congrArg (fun rows => (⟨rows, t.relata⟩ : Tables)) (List.map_congr_left fun row hrow => ?_)
  have htarget := GroundingEngine.mem_targets_iff h hfresh concepts minDepth hrow
  rw [get?_metricUpdates]
  by_cases hname : row.nameLower ∈ concepts.map foldName
  · have hid := htarget.mpr hname
    obtain ⟨read, hread, hget⟩ := Sqlite.get?_batchReadMetrics h hrow hid
    obtain rfl : read = current := Except.ok.inj (hread.symm.trans hcurrent)
    simp only [hid, if_true, hget, Option.map_some, hname]
  · have hid : row.id ∉ (t.inquiry draw concepts minDepth).targets.map Primitive.id :=
      fun hid => hname (htarget.mp hid)
    simp only [hid, hname, if_false]

theorem updateGrounding_of_targets [NameFolding] {t : Tables} (h : t.Schema) {draw : Draw}
    (hfresh : draw.Fresh t) {concepts : List String} (minDepth : Option DepthLevel)
    {result : GroundingResult}
    (hresolved : result.resolved.map foldName = concepts.map foldName)
    (hprimitives : result.getPrimitives =
      (t.inquiry draw concepts minDepth).response.result.primitives) :
    updateGrounding draw result (⟨t, none⟩ : SqliteRepository) =
      .ok () ⟨t.countCheck draw.now concepts (gapPrimitiveIds result.gaps), none⟩ := by
  have htargets : (result.getPrimitives.filter fun p =>
      p.nameLower ∈ result.resolved.map foldName) = (t.inquiry draw concepts minDepth).targets := by
    rw [hprimitives, hresolved]
    rfl
  obtain ⟨current, hcurrent⟩ : ∃ current, Repository.batchReadMetrics
      (⟨t, none⟩ : SqliteRepository)
      ((t.inquiry draw concepts minDepth).targets.map Primitive.id) = .ok current := ⟨_, rfl⟩
  have hwrite := writeMetrics_eq_countCheck h hfresh concepts minDepth
    (gapPrimitiveIds result.gaps) hcurrent
  have hbatch (updates : OrderedDict UUID PrimitiveMetrics) :
      Repository.batchUpdateMetrics updates (⟨t, none⟩ : SqliteRepository) =
        .ok () ⟨t.writeMetrics updates, none⟩ :=
    (Sqlite.batchUpdateMetrics_eq updates t).trans (by rw [Tables.foldl_setMetrics_eq])
  unfold updateGrounding
  simp only [htargets, hcurrent]
  rw [← hwrite]
  split
  · rename_i hempty
    rw [List.isEmpty_iff.mp hempty, Tables.writeMetrics_of_empty rfl]
  · split
    · rename_i hempty
      rw [Tables.writeMetrics_of_empty (List.isEmpty_iff.mp hempty)]
    · rw [hbatch]

end MetricsManager

namespace VRE

@[simp] theorem resolved_stampIdentity {σ : Type} (vre : VRE σ) (result : GroundingResult) :
    (vre.stampIdentity result).resolved = result.resolved := by
  unfold stampIdentity
  split <;> rfl

/-- A check returns the verdict of the engine, and counts itself. -/
theorem check_counts [NameFolding] {σ : Type} (vre : VRE σ) {t : Tables} (h : t.Schema)
    {draw : Draw} (hfresh : draw.Fresh t) (concepts : List String)
    (minDepth : Option DepthLevel) :
    ∃ result, vre.check draw concepts minDepth (⟨t, none⟩ : SqliteRepository) =
      .ok result ⟨t.countCheck draw.now concepts (gapPrimitiveIds result.gaps), none⟩ := by
  obtain ⟨result, hground, hresolved, hprimitives⟩ : ∃ result,
      GroundingEngine.ground draw (⟨t, none⟩ : SqliteRepository) concepts minDepth = .ok result ∧
      result.resolved.map foldName = concepts.map foldName ∧
      result.getPrimitives =
        (t.inquiry draw concepts minDepth).response.result.primitives := by
    by_cases hne : concepts = []
    · subst hne
      refine ⟨_, GroundingEngine.ground_nil draw _ minDepth, rfl, ?_⟩
      rw [GroundingEngine.response_nil]
      rfl
    · exact ⟨_, GroundingEngine.ground_eq h draw hne minDepth,
        GroundingEngine.fold_resolved _, rfl⟩
  refine ⟨vre.stampIdentity result, ?_⟩
  have hread : Action.read (fun repo : SqliteRepository =>
      GroundingEngine.ground draw repo concepts minDepth) ⟨t, none⟩ = .ok result ⟨t, none⟩ :=
    Action.read_of_ok hground
  have hcount : MetricsManager.updateGrounding draw (vre.stampIdentity result)
      (⟨t, none⟩ : SqliteRepository) =
        .ok () ⟨t.countCheck draw.now concepts
          (gapPrimitiveIds (vre.stampIdentity result).gaps), none⟩ := by
    refine MetricsManager.updateGrounding_of_targets h hfresh minDepth ?_ ?_
    · rw [resolved_stampIdentity, hresolved]
    · rw [GroundingResult.getPrimitives, trace_stampIdentity, ← hprimitives]
      rfl
  unfold check
  rw [Loops.bind_of_ok hread, Loops.bind_of_ok hcount]
  rfl

end VRE

end Vre
