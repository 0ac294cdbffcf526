import Vre.Model.Neo4j
import Vre.Verification.Store.Closure

/-! # Saving to the Neo4j backend

The graph of nodes and relationships, read as the two tables of the SQLite backend, and what
one `save_primitive` does to it.
-/

namespace Vre

/-- Tables as a graph. -/
def Tables.toGraph (t : Tables) : Neo4jRepository :=
  ⟨t.primitives, t.relata⟩

namespace Neo4j

/-! ## Statements -/

theorem matchesNode_iff {t : Tables} {id : UUID} :
    matchesNode t.toGraph id = true ↔ t.Stored id := by
  simp [matchesNode, Tables.toGraph, Tables.Stored]

theorem mergeNode_of_free {t : Tables} {row : PrimitiveRow} (h : t.NameFree row) :
    mergeNode row t.toGraph =
      .ok () (Tables.toGraph ⟨Tables.replaceRow row t.primitives, t.relata⟩) := by
  have hmerge : mergeNode row t.toGraph = if matchesNode t.toGraph row.id then
      .ok () ⟨t.primitives.map fun r => if r.id = row.id then row else r, t.relata⟩ else
      .ok () ⟨t.primitives ++ [row], t.relata⟩ := if_neg (Tables.nameFree_iff_any.mp h)
  rw [hmerge, Tables.replaceRow]
  by_cases hmatch : matchesNode t.toGraph row.id = true
  · have hold : t.primitives.any fun other => other.id = row.id := hmatch
    rw [if_pos hmatch, if_pos hold]
    rfl
  · have hnew : ¬ t.primitives.any fun other => other.id = row.id := hmatch
    rw [if_neg hmatch, if_neg hnew]
    rfl

theorem mergeNode_of_taken {t : Tables} {row : PrimitiveRow} (h : ¬ t.NameFree row) :
    ∃ exc, mergeNode row t.toGraph = .error exc t.toGraph ∧ exc.cls = .constraintError := by
  have htaken := not_not.mp (mt Tables.nameFree_iff_any.mpr h)
  exact ⟨_, if_pos htaken, rfl⟩

/-- The deletes by type leave the relationships of the other types and sources. -/
theorem forM_deleteRelationships (id : UUID) (types : List RelationType) (db : Neo4jRepository) :
    (types.forM fun rt => deleteRelationships id rt) db = .ok () { db with
      relationships := db.relationships.filter fun r =>
        ¬ (r.sourceId = id ∧ r.relType ∈ types) } := by
  induction types generalizing db with
  | nil => simp [pure, EStateM.pure]
  | cons rt rest ih =>
      have hstep : deleteRelationships id rt db = .ok () { db with
          relationships := db.relationships.filter fun r =>
            ¬ (r.sourceId = id ∧ r.relType = rt) } := rfl
      rw [Loops.forM_cons, Loops.bind_of_ok hstep, ih]
      simp only [List.filter_filter]
      congr 2
      apply List.filter_congr
      intro r _
      by_cases hid : r.sourceId = id <;> by_cases htype : r.relType = rt <;> simp [hid, htype]

theorem mem_relTypes (rt : RelationType) : rt ∈ relTypes := by
  cases rt <;> decide

/-- All deletes together are the delete of the SQLite backend. -/
theorem deleteAll_eq (id : UUID) (t : Tables) :
    (relTypes.forM fun rt => deleteRelationships id rt) t.toGraph =
      .ok () (t.deleteOutgoing id).toGraph := by
  rw [forM_deleteRelationships]
  simp [mem_relTypes, Tables.toGraph, Tables.deleteOutgoing]

/-- Both ends of the relatum match a node. -/
def endsMatch (t : Tables) (rp : RelatumRow) : Bool :=
  matchesNode t.toGraph rp.sourceId && matchesNode t.toGraph rp.targetId

/-- The creates add the relationships whose two ends match, and skip the others. -/
theorem forM_createRelationship (params : List RelatumRow) (t : Tables) :
    (params.forM createRelationship) t.toGraph =
      .ok () (Tables.toGraph ⟨t.primitives, t.relata ++ params.filter (endsMatch t)⟩) := by
  induction params generalizing t with
  | nil => simp [Tables.toGraph, pure, EStateM.pure]
  | cons rp rest ih =>
      rw [Loops.forM_cons]
      by_cases hends : endsMatch t rp = true
      · have hstep : createRelationship rp t.toGraph =
            .ok () (Tables.toGraph ⟨t.primitives, t.relata ++ [rp]⟩) :=
          if_pos (Bool.and_eq_true_iff.mp hends)
        rw [Loops.bind_of_ok hstep, ih, List.filter_cons_of_pos hends, List.append_assoc]
        rfl
      · have hstep : createRelationship rp t.toGraph = .ok () t.toGraph :=
          if_neg fun h => hends (Bool.and_eq_true_iff.mpr h)
        rw [Loops.bind_of_ok hstep, ih, List.filter_cons_of_neg hends]

/-! ## The cycle check -/

/-- A path of one or more relationships leads back to the source. -/
theorem wouldCycle_iff {t : Tables} (h : ∀ rel ∈ t.relata, t.Stored rel.sourceId)
    {sourceId targetId : UUID} (hsource : t.Stored sourceId) :
    wouldCycle t.toGraph sourceId targetId = true ↔
      Relation.TransGen t.TransEdge targetId sourceId := by
  have hedge : ∀ a b, b ∈ transitiveTargets t.toGraph a ↔ t.TransEdge a b :=
    fun _ _ => Tables.mem_transitiveTargets
  have hrel : (fun a b => b ∈ transitiveTargets t.toGraph a) = t.TransEdge := by
    funext a b
    exact propext (hedge a b)
  have hnodes : ∀ a, Worklist.Reach (transitiveTargets t.toGraph)
      (transitiveTargets t.toGraph targetId) a →
      ∀ b ∈ transitiveTargets t.toGraph a, b ∈ targets t.toGraph :=
    fun _ _ _ hb => Tables.transEdge_target ((hedge _ _).mp hb)
  have hsearch : (sourceId ∈ Worklist.search (transitiveTargets t.toGraph) (targets t.toGraph)
      (transitiveTargets t.toGraph targetId)) ↔
        Relation.TransGen t.TransEdge targetId sourceId := by
    rw [Worklist.mem_search hnodes, Worklist.Reach, hrel, Relation.TransGen.head'_iff]
    simp only [hedge]
  simp only [wouldCycle, Bool.and_eq_true, matchesNode_iff, decide_eq_true_eq, hsearch]
  constructor
  · exact fun hall => hall.2
  · intro hpath
    obtain ⟨next, ⟨rel, hrel, hid, -⟩, -⟩ := Relation.TransGen.head'_iff.mp hpath
    exact ⟨⟨hid ▸ h rel hrel, hsource⟩, hpath⟩

/-- The check by relatum refuses exactly the proposals that close a cycle. -/
theorem checkTransitiveCycles_cases {t kept : Tables} {sourceId : UUID}
    (params : List RelatumRow)
    (hkept : ∀ a b, kept.TransEdge a b ↔ Digraph.Without t.TransEdge sourceId a b)
    (hsources : ∀ rel ∈ kept.relata, kept.Stored rel.sourceId) (hsource : kept.Stored sourceId) :
    (checkTransitiveCycles sourceId kept.toGraph params = .ok () ∧ t.NoCycle sourceId params) ∨
    (∃ exc, checkTransitiveCycles sourceId kept.toGraph params = .error exc ∧
      exc.cls = .cyclicRelationshipError ∧ ¬ t.NoCycle sourceId params) := by
  have hrel : kept.TransEdge = Digraph.Without t.TransEdge sourceId := by
    funext a b
    exact propext (hkept a b)
  induction params with
  | nil => exact Or.inl ⟨rfl, fun _ hrp => (nomatch hrp)⟩
  | cons rp rest ih =>
      have hcons : t.NoCycle sourceId (rp :: rest) ↔ (rp.relType ∈ transitiveRelationTypes →
          ¬ Relation.ReflTransGen (Digraph.Without t.TransEdge sourceId) rp.targetId sourceId) ∧
            t.NoCycle sourceId rest := List.forall_mem_cons
      have hskip : checkTransitiveCycles sourceId kept.toGraph (rp :: rest) =
          checkTransitiveCycles sourceId kept.toGraph rest → (rp.relType ∈ transitiveRelationTypes →
            ¬ Relation.ReflTransGen (Digraph.Without t.TransEdge sourceId) rp.targetId sourceId) →
          (checkTransitiveCycles sourceId kept.toGraph (rp :: rest) = .ok () ∧
            t.NoCycle sourceId (rp :: rest)) ∨
          (∃ exc, checkTransitiveCycles sourceId kept.toGraph (rp :: rest) = .error exc ∧
            exc.cls = .cyclicRelationshipError ∧ ¬ t.NoCycle sourceId (rp :: rest)) := by
        intro heq hopen
        rw [heq, hcons]
        rcases ih with ⟨hok, hno⟩ | ⟨exc, herror, hcls, hcycle⟩
        · exact Or.inl ⟨hok, hopen, hno⟩
        · exact Or.inr ⟨exc, herror, hcls, fun hboth => hcycle hboth.2⟩
      by_cases htype : rp.relType ∈ transitiveRelationTypes
      · by_cases hself : rp.targetId = sourceId
        · refine Or.inr ⟨_, by simp [checkTransitiveCycles, htype, hself]; rfl, rfl, fun hno => ?_⟩
          exact (hcons.mp hno).1 htype (hself ▸ .refl)
        · by_cases hcycle : wouldCycle kept.toGraph sourceId rp.targetId = true
          · have hpath := (wouldCycle_iff hsources hsource).mp hcycle
            refine Or.inr ⟨_, by simp [checkTransitiveCycles, htype, hself, hcycle]; rfl, rfl,
              fun hno => ?_⟩
            exact (hcons.mp hno).1 htype (hrel ▸ hpath.to_reflTransGen)
          · apply hskip (by simp [checkTransitiveCycles, htype, hself, hcycle])
            intro _ hpath
            rw [← hrel] at hpath
            rcases Relation.reflTransGen_iff_eq_or_transGen.mp hpath with heq | hpath
            · exact hself heq.symm
            · exact hcycle ((wouldCycle_iff hsources hsource).mpr hpath)
      · exact hskip (by simp [checkTransitiveCycles, htype]) fun htype' => absurd htype' htype

theorem executeWrite_of_ok {α : Type} {tx : Action Neo4jRepository α} {db db' : Neo4jRepository}
    {a : α} (h : tx db = .ok a db') : executeWrite tx db = .ok a db' := by
  simp only [executeWrite, h]

/-- A managed write that raises leaves no effect. -/
theorem executeWrite_of_error {α : Type} {tx : Action Neo4jRepository α}
    {db db' : Neo4jRepository} {exc : PyException} (h : tx db = .error exc db') :
    executeWrite tx db = .error exc db := by
  simp only [executeWrite, h]

/-! ## `save_primitive` -/

/-- The statements of a save: they refuse a taken name or a cycle, or they replace the record
and the relationships whose targets are stored. -/
theorem writePrimitive_cases {row : PrimitiveRow} {params : List RelatumRow}
    (hsource : ∀ rp ∈ params, rp.sourceId = row.id) {t : Tables}
    (hsources : ∀ rel ∈ t.relata, t.Stored rel.sourceId) :
    (t.NameFree row ∧ t.NoCycle row.id params ∧ ∃ created,
      (t.TargetsStored row.id params → created = params) ∧
      writePrimitive row params t.toGraph = .ok () (t.replace row created).toGraph) ∨
    ∃ exc db, writePrimitive row params t.toGraph = .error exc db ∧
      (¬ t.NameFree row ∧ exc.cls = .constraintError ∨
        t.NameFree row ∧ ¬ t.NoCycle row.id params ∧ exc.cls = .cyclicRelationshipError) := by
  unfold writePrimitive
  by_cases hname : t.NameFree row
  · -- The statements after the deletes see these tables.
    let kept : Tables := ⟨Tables.replaceRow row t.primitives, (t.deleteOutgoing row.id).relata⟩
    have hstored : ∀ id, kept.Stored id ↔ id = row.id ∨ t.Stored id :=
      fun id => (Tables.stored_replace : (t.replace row []).Stored id ↔ _)
    have hedges : ∀ a b, kept.TransEdge a b ↔ Digraph.Without t.TransEdge row.id a b :=
      fun _ _ => Tables.transEdge_deleteOutgoing
    have hkept : ∀ rel ∈ kept.relata, kept.Stored rel.sourceId :=
      fun rel hrel => (hstored _).mpr (Or.inr (hsources rel (List.mem_filter.mp hrel).1))
    have hdelete : (relTypes.forM fun rt => deleteRelationships row.id rt)
        (Tables.toGraph ⟨Tables.replaceRow row t.primitives, t.relata⟩) = .ok () kept.toGraph :=
      deleteAll_eq row.id _
    rw [Loops.bind_of_ok (mergeNode_of_free hname), Loops.bind_of_ok hdelete]
    rcases checkTransitiveCycles_cases params hedges hkept ((hstored _).mpr (Or.inl rfl)) with
      ⟨hcheck, hno⟩ | ⟨exc, hcheck, hcls, hcycle⟩
    · refine Or.inl ⟨hname, hno, params.filter (endsMatch kept), fun htargets => ?_, ?_⟩
      · refine List.filter_eq_self.mpr fun rp hrp => Bool.and_eq_true_iff.mpr ⟨?_, ?_⟩
        · exact matchesNode_iff.mpr ((hstored _).mpr (Or.inl (hsource rp hrp)))
        · exact matchesNode_iff.mpr ((hstored _).mpr (htargets rp hrp))
      · have hread : Action.read (fun db : Neo4jRepository =>
            checkTransitiveCycles row.id db params) kept.toGraph = .ok () kept.toGraph :=
          Action.read_of_ok hcheck
        rw [Loops.bind_of_ok hread]
        exact forM_createRelationship params kept
    · have hread : Action.read (fun db : Neo4jRepository =>
          checkTransitiveCycles row.id db params) kept.toGraph = .error exc kept.toGraph :=
        Action.read_of_error hcheck
      exact Or.inr ⟨exc, _, Loops.bind_of_error hread, Or.inr ⟨hname, hcycle, hcls⟩⟩
  · obtain ⟨exc, hmerge, hcls⟩ := mergeNode_of_taken hname
    exact Or.inr ⟨exc, _, Loops.bind_of_error hmerge, Or.inl ⟨hname, hcls⟩⟩

/-- What one save can do. An absent target is no reason to refuse. -/
theorem savePrimitive_cases [NameFolding] (p : Primitive) {t : Tables}
    (hsources : ∀ rel ∈ t.relata, t.Stored rel.sourceId) :
    (p.Storable ∧ t.NameFree p.toRow ∧ t.NoCycle p.id p.toRelata ∧ ∃ created,
      (t.TargetsStored p.id p.toRelata → created = p.toRelata) ∧
      savePrimitive p t.toGraph = .ok () (t.replace p.toRow created).toGraph) ∨
    ∃ exc, savePrimitive p t.toGraph = .error exc t.toGraph ∧
      (p.serialize = .error exc ∨
        p.Storable ∧ ¬ t.NameFree p.toRow ∧ exc.cls = .persistenceError ∨
        p.Storable ∧ t.NameFree p.toRow ∧ ¬ t.NoCycle p.id p.toRelata ∧
          exc.cls = .cyclicRelationshipError) := by
  cases hserialize : p.serialize with
  | error exc =>
      refine Or.inr ⟨exc, ?_, Or.inl rfl⟩
      unfold savePrimitive
      rw [bind_serialize, hserialize]
  | ok records =>
      have hp := storable_of_serialize hserialize
      cases (serialize_eq hp).symm.trans hserialize
      have hsource : ∀ rp ∈ p.toRelata, rp.sourceId = p.toRow.id :=
        fun _ => Sqlite.sourceId_of_mem_toRelata
      unfold savePrimitive
      rw [bind_serialize, hserialize]
      rcases writePrimitive_cases hsource hsources with
        ⟨hname, hcycle, created, htargets, hok⟩ | ⟨exc, db, herror, hwhy⟩
      · refine Or.inl ⟨hp, hname, hcycle, created, htargets, Loops.tryCatch_of_ok ?_⟩
        exact executeWrite_of_ok hok
      · have hfail := executeWrite_of_error herror
        let failed : PyException := ⟨.persistenceError, s!"Failed to save primitive "
          ++ s!"'{p.name}': a primitive with that name already exists (case-insensitive)"⟩
        apply Or.inr
        rcases hwhy with ⟨hname, hcls⟩ | ⟨hname, hcycle, hcls⟩
        · refine ⟨failed, (Loops.tryCatch_of_error hfail).trans ?_,
            Or.inr (Or.inl ⟨hp, hname, rfl⟩)⟩
          simp only [hcls]
          rfl
        · refine ⟨exc, (Loops.tryCatch_of_error hfail).trans ?_,
            Or.inr (Or.inr ⟨hp, hname, hcycle, hcls⟩)⟩
          simp only [hcls]
          rfl

end Neo4j

end Vre
