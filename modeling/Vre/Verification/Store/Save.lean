import Vre.Verification.Knowledge.PyPrimitive
import Vre.Verification.Store.Schema

/-! # Saving to the SQLite backend

What one `save_primitive` can do, as one case distinction: it refuses the primitive and
leaves the tables alone, or it replaces the primitive's record and outgoing relata.
-/

namespace Vre

namespace Tables

/-! ## The outcome of a save -/

/-- No other record holds the row's folded name. -/
def NameFree (t : Tables) (row : PrimitiveRow) : Prop :=
  ∀ other ∈ t.primitives, other.nameLower = row.nameLower → other.id = row.id

/-- No proposed transitive relatum closes a cycle over the edges that stay. -/
def NoCycle (t : Tables) (id : UUID) (params : List RelatumRow) : Prop :=
  ∀ rp ∈ params, rp.relType ∈ transitiveRelationTypes →
    ¬ Relation.ReflTransGen (Digraph.Without t.TransEdge id) rp.targetId id

/-- Every proposed target is stored, or is the saved primitive itself. -/
def TargetsStored (t : Tables) (id : UUID) (params : List RelatumRow) : Prop :=
  ∀ rp ∈ params, rp.targetId = id ∨ t.Stored rp.targetId

def replaceRow (row : PrimitiveRow) (rows : List PrimitiveRow) : List PrimitiveRow :=
  if rows.any fun other => other.id = row.id then
    rows.map fun r => if r.id = row.id then row else r
  else
    rows ++ [row]

/-- The tables after a save: the record replaced, and the relata that leave it. -/
def replace (t : Tables) (row : PrimitiveRow) (params : List RelatumRow) : Tables where
  primitives := replaceRow row t.primitives
  relata := (t.relata.filter fun r => r.sourceId ≠ row.id) ++ params

/-- The name is free when the unique index finds no other record with it. -/
theorem nameFree_iff_any {t : Tables} {row : PrimitiveRow} : t.NameFree row ↔
    ¬ t.primitives.any fun other => other.id ≠ row.id ∧ other.nameLower = row.nameLower := by
  simp only [NameFree, List.any_eq_true, decide_eq_true_eq, not_exists, not_and]
  apply forall₂_congr
  intro other _
  exact not_imp_not.symm

theorem mem_replaceRow {row r : PrimitiveRow} {rows : List PrimitiveRow} :
    r ∈ replaceRow row rows ↔ r = row ∨ r ∈ rows ∧ r.id ≠ row.id := by
  unfold replaceRow
  split
  · rename_i hany
    simp only [List.any_eq_true, decide_eq_true_eq] at hany
    obtain ⟨old, hold, hid⟩ := hany
    rw [List.mem_map]
    constructor
    · rintro ⟨s, hs, rfl⟩
      by_cases h : s.id = row.id
      · simp [h]
      · simp [h, hs]
    · rintro (rfl | ⟨hr, hne⟩)
      · exact ⟨old, hold, if_pos hid⟩
      · exact ⟨r, hr, if_neg hne⟩
  · rename_i hany
    simp only [List.any_eq_true, decide_eq_true_eq, not_exists, not_and] at hany
    rw [List.mem_append, List.mem_singleton]
    constructor
    · rintro (hr | rfl)
      · exact Or.inr ⟨hr, hany r hr⟩
      · exact Or.inl rfl
    · rintro (rfl | ⟨hr, -⟩)
      · exact Or.inr rfl
      · exact Or.inl hr

theorem stored_replace {t : Tables} {row : PrimitiveRow} {params : List RelatumRow} {id : UUID} :
    (t.replace row params).Stored id ↔ id = row.id ∨ t.Stored id := by
  simp only [Stored, replace, mem_replaceRow]
  constructor
  · rintro ⟨r, rfl | ⟨hr, -⟩, rfl⟩
    · exact Or.inl rfl
    · exact Or.inr ⟨r, hr, rfl⟩
  · intro h
    by_cases hid : id = row.id
    · exact ⟨row, Or.inl rfl, hid.symm⟩
    · obtain ⟨r, hr, rfl⟩ := h.resolve_left hid
      exact ⟨r, Or.inr ⟨hr, hid⟩, rfl⟩

theorem mem_relata_replace {t : Tables} {row : PrimitiveRow} {params : List RelatumRow}
    {rel : RelatumRow} : rel ∈ (t.replace row params).relata ↔
      rel ∈ t.relata ∧ rel.sourceId ≠ row.id ∨ rel ∈ params := by
  simp [replace]

theorem mem_transitiveTargets {t : Tables} {a b : UUID} :
    b ∈ t.transitiveTargets a ↔ t.TransEdge a b := by
  simp only [transitiveTargets, TransEdge, List.mem_map, List.mem_filter, decide_eq_true_eq]
  constructor
  · rintro ⟨rel, ⟨hrel, hsource, htype⟩, htarget⟩
    exact ⟨rel, hrel, hsource, htarget, htype⟩
  · rintro ⟨rel, hrel, hsource, htarget, htype⟩
    exact ⟨rel, ⟨hrel, hsource, htype⟩, htarget⟩

theorem transEdge_target {t : Tables} {a b : UUID} (h : t.TransEdge a b) : b ∈ t.targets := by
  obtain ⟨rel, hrel, -, rfl, -⟩ := h
  exact List.mem_map_of_mem hrel

/-- With the relata of one source gone, its transitive edges are gone, and no other. -/
theorem transEdge_deleteOutgoing {t : Tables} {id a b : UUID} :
    (t.deleteOutgoing id).TransEdge a b ↔ Digraph.Without t.TransEdge id a b := by
  simp only [TransEdge, deleteOutgoing, Digraph.Without, List.mem_filter, decide_eq_true_eq]
  constructor
  · rintro ⟨rel, ⟨hrel, hne⟩, rfl, htarget, htype⟩
    exact ⟨hne, rel, hrel, rfl, htarget, htype⟩
  · rintro ⟨hne, rel, hrel, rfl, htarget, htype⟩
    exact ⟨rel, ⟨hrel, hne⟩, rfl, htarget, htype⟩

end Tables

namespace Sqlite

/-! ## The cycle check -/

theorem collectTargets_cases (sourceId : UUID) (params : List RelatumRow)
    (targetRelType : OrderedDict UUID RelationType) :
    (∃ collected, collectTargets sourceId params targetRelType = .ok collected ∧
      (∀ rp ∈ params, rp.relType ∈ transitiveRelationTypes → rp.targetId ≠ sourceId) ∧
      ∀ k, k ∈ collected.keys ↔ k ∈ targetRelType.keys ∨
        ∃ rp ∈ params, rp.relType ∈ transitiveRelationTypes ∧ rp.targetId = k) ∨
    (∃ exc, collectTargets sourceId params targetRelType = .error exc ∧
      exc.cls = .cyclicRelationshipError ∧
      ∃ rp ∈ params, rp.relType ∈ transitiveRelationTypes ∧ rp.targetId = sourceId) := by
  induction params generalizing targetRelType with
  | nil => exact Or.inl ⟨targetRelType, rfl, by simp, by simp⟩
  | cons rp rest ih =>
      by_cases htype : rp.relType ∈ transitiveRelationTypes
      · by_cases hself : rp.targetId = sourceId
        · have hstep : collectTargets sourceId (rp :: rest) targetRelType =
              raise .cyclicRelationshipError
                s!"Self-referential {rp.relType.value} on {sourceId}" := by
            simp [collectTargets, htype, hself]
          exact Or.inr ⟨_, hstep, rfl, rp, by simp, htype, hself⟩
        · have hstep : collectTargets sourceId (rp :: rest) targetRelType =
              collectTargets sourceId rest (targetRelType.setDefault rp.targetId rp.relType) := by
            simp [collectTargets, htype, hself]
          rw [hstep]
          rcases ih (targetRelType.setDefault rp.targetId rp.relType) with
            ⟨collected, hok, hne, hkeys⟩ | ⟨exc, herr, hcls, rq, hrq, hcyc⟩
          · refine Or.inl ⟨collected, hok, List.forall_mem_cons.mpr ⟨fun _ => hself, hne⟩, ?_⟩
            intro k
            rw [hkeys, OrderedDict.mem_keys_setDefault]
            simp only [List.exists_mem_cons_iff, htype, true_and]
            tauto
          · exact Or.inr ⟨exc, herr, hcls, rq, List.mem_cons_of_mem rp hrq, hcyc⟩
      · have hstep : collectTargets sourceId (rp :: rest) targetRelType =
            collectTargets sourceId rest targetRelType := by
          simp [collectTargets, htype]
        rw [hstep]
        rcases ih targetRelType with
          ⟨collected, hok, hne, hkeys⟩ | ⟨exc, herr, hcls, rq, hrq, hcyc⟩
        · refine Or.inl ⟨collected, hok,
            List.forall_mem_cons.mpr ⟨fun h => absurd h htype, hne⟩, ?_⟩
          intro k
          simp only [hkeys, List.exists_mem_cons_iff, htype, false_and, false_or]
        · exact Or.inr ⟨exc, herr, hcls, rq, List.mem_cons_of_mem rp hrq, hcyc⟩

theorem mem_originsReaching {t : Tables} {targets : List UUID} {sourceId origin : UUID} :
    origin ∈ originsReaching t targets sourceId ↔
      origin ∈ targets ∧ Relation.ReflTransGen t.TransEdge origin sourceId := by
  have hrel : (fun a b => b ∈ t.transitiveTargets a) = t.TransEdge := by
    funext a b
    exact propext Tables.mem_transitiveTargets
  have hnodes : ∀ row, Worklist.Reach
      (fun row : UUID × UUID => (t.transitiveTargets row.2).map fun target => (row.1, target))
      (targets.map fun target => (target, target)) row →
      ∀ b ∈ (t.transitiveTargets row.2).map fun target => (row.1, target),
        b ∈ targets.flatMap fun origin => t.targets.map fun target => (origin, target) := by
    rintro ⟨o, x⟩ hreach b hb
    obtain ⟨target, htarget, rfl⟩ := List.mem_map.mp hb
    have hedge := Tables.transEdge_target (Tables.mem_transitiveTargets.mp htarget)
    exact List.mem_flatMap.mpr
      ⟨o, (Worklist.reach_tagged.mp hreach).1, List.mem_map_of_mem hedge⟩
  rw [originsReaching, List.mem_dedup, List.mem_map]
  simp only [List.mem_filter, decide_eq_true_eq, Worklist.mem_search hnodes]
  constructor
  · rintro ⟨⟨o, x⟩, ⟨hreach, rfl⟩, rfl⟩
    rw [Worklist.reach_tagged, hrel] at hreach
    exact hreach
  · intro h
    refine ⟨(origin, sourceId), ⟨?_, rfl⟩, rfl⟩
    rw [Worklist.reach_tagged, hrel]
    exact h

/-- The batched check over the tables without the source's relata refuses exactly the
proposals that close a cycle. -/
theorem checkTransitiveCycles_cases {t kept : Tables} {sourceId : UUID} (params : List RelatumRow)
    (hkept : ∀ a b, kept.TransEdge a b ↔ Digraph.Without t.TransEdge sourceId a b) :
    (checkTransitiveCycles sourceId params kept = .ok () ∧ t.NoCycle sourceId params) ∨
    (∃ exc, checkTransitiveCycles sourceId params kept = .error exc ∧
      exc.cls = .cyclicRelationshipError ∧ ¬ t.NoCycle sourceId params) := by
  have hrel : kept.TransEdge = Digraph.Without t.TransEdge sourceId := by
    funext a b
    exact propext (hkept a b)
  unfold checkTransitiveCycles
  rcases collectTargets_cases sourceId params .empty with
    ⟨collected, hok, -, hkeys⟩ | ⟨exc, herr, hcls, rp, hrp, htype, hself⟩
  · have hmem : ∀ k, k ∈ originsReaching kept collected.keys sourceId ↔
        (∃ rp ∈ params, rp.relType ∈ transitiveRelationTypes ∧ rp.targetId = k) ∧
          Relation.ReflTransGen (Digraph.Without t.TransEdge sourceId) k sourceId := by
      simp [mem_originsReaching, hkeys, hrel]
    simp only [hok, Loops.ok_bind]
    split
    · rename_i hnone
      refine Or.inl ⟨rfl, fun rp hrp htype hreach => ?_⟩
      have hreached := (hmem rp.targetId).mpr ⟨⟨rp, hrp, htype, rfl⟩, hreach⟩
      rw [hnone] at hreached
      cases hreached
    · rename_i offending rest hsome
      obtain ⟨⟨rp, hrp, htype, rfl⟩, hreach⟩ := (hmem offending).mp (by simp [hsome])
      exact Or.inr ⟨_, rfl, rfl, fun hno => hno rp hrp htype hreach⟩
  · refine Or.inr ⟨exc, by simp only [herr]; rfl, hcls, fun hno => hno rp hrp htype ?_⟩
    rw [hself]

/-! ## The transaction -/

theorem execute_eq (statement : Tables → Except PyException Tables) (db : SqliteRepository) :
    execute statement db = match statement db.tables with
      | .ok tables => .ok () { db with tables := tables }
      | .error e => .error e db := rfl

theorem insertRelatum_of_stored {t : Tables} {rel : RelatumRow}
    (h : t.Stored rel.sourceId ∧ t.Stored rel.targetId) :
    t.insertRelatum rel = .ok { t with relata := t.relata ++ [rel] } :=
  if_pos ⟨Tables.stored_iff_any.mpr h.1, Tables.stored_iff_any.mpr h.2⟩

theorem insertRelatum_of_absent {t : Tables} {rel : RelatumRow}
    (h : ¬ (t.Stored rel.sourceId ∧ t.Stored rel.targetId)) :
    t.insertRelatum rel = .error ⟨.sqliteError, "FOREIGN KEY constraint failed"⟩ :=
  if_neg fun hany => h ⟨Tables.stored_iff_any.mp hany.1, Tables.stored_iff_any.mp hany.2⟩

/-- The inserts go through exactly when both ends of every relatum are stored. -/
theorem forM_insertRelatum (params : List RelatumRow) (t : Tables) (savepoint : Option Tables) :
    ((∀ rp ∈ params, t.Stored rp.sourceId ∧ t.Stored rp.targetId) ∧
      (params.forM fun rp => execute (Tables.insertRelatum rp)) ⟨t, savepoint⟩ =
        .ok () ⟨{ t with relata := t.relata ++ params }, savepoint⟩) ∨
    ((∃ rp ∈ params, ¬ (t.Stored rp.sourceId ∧ t.Stored rp.targetId)) ∧
      ∃ exc t', (params.forM fun rp => execute (Tables.insertRelatum rp)) ⟨t, savepoint⟩ =
        .error exc ⟨t', savepoint⟩ ∧ exc.cls = .sqliteError) := by
  induction params generalizing t with
  | nil =>
      refine Or.inl ⟨by simp, ?_⟩
      rw [List.append_nil]
      rfl
  | cons rp rest ih =>
      rw [Loops.forM_cons]
      by_cases hstored : t.Stored rp.sourceId ∧ t.Stored rp.targetId
      · have hstep : execute (Tables.insertRelatum rp) ⟨t, savepoint⟩ =
            .ok () ⟨{ t with relata := t.relata ++ [rp] }, savepoint⟩ := by
          simp only [execute_eq, insertRelatum_of_stored hstored]
        rw [Loops.bind_of_ok hstep]
        rcases ih { t with relata := t.relata ++ [rp] } with
          ⟨hall, hok⟩ | ⟨⟨rq, hrq, hnot⟩, exc, t', herr, hcls⟩
        · refine Or.inl ⟨List.forall_mem_cons.mpr ⟨hstored, hall⟩, ?_⟩
          simp only [hok, List.append_assoc, List.singleton_append]
        · exact Or.inr ⟨⟨rq, List.mem_cons_of_mem rp hrq, hnot⟩, exc, t', herr, hcls⟩
      · have hstep : execute (Tables.insertRelatum rp) ⟨t, savepoint⟩ =
            .error ⟨.sqliteError, "FOREIGN KEY constraint failed"⟩ ⟨t, savepoint⟩ := by
          simp only [execute_eq, insertRelatum_of_absent hstored]
        rw [Loops.bind_of_error hstep]
        exact Or.inr ⟨⟨rp, by simp, hstored⟩, _, _, rfl, rfl⟩

theorem upsertPrimitiveRow_of_free {t : Tables} {row : PrimitiveRow} (h : t.NameFree row) :
    t.upsertPrimitiveRow row =
      .ok { t with primitives := Tables.replaceRow row t.primitives } := by
  simp only [Tables.upsertPrimitiveRow, if_neg (Tables.nameFree_iff_any.mp h), Tables.replaceRow]
  split <;> rfl

theorem upsertPrimitiveRow_of_taken {t : Tables} {row : PrimitiveRow} (h : ¬ t.NameFree row) :
    t.upsertPrimitiveRow row =
      .error ⟨.sqliteError, "UNIQUE constraint failed: primitives.name_lower"⟩ := by
  apply if_pos
  exact not_not.mp (mt Tables.nameFree_iff_any.mpr h)

/-- The statements of a save: they refuse a taken name, a cycle or an absent target, in this
order, or they replace the record and its relata. -/
theorem writePrimitive_cases {row : PrimitiveRow} {params : List RelatumRow}
    (hsource : ∀ rp ∈ params, rp.sourceId = row.id) (t : Tables) (savepoint : Option Tables) :
    (t.NameFree row ∧ t.NoCycle row.id params ∧ t.TargetsStored row.id params ∧
      writePrimitive row params ⟨t, savepoint⟩ = .ok () ⟨t.replace row params, savepoint⟩) ∨
    ∃ exc t', writePrimitive row params ⟨t, savepoint⟩ = .error exc ⟨t', savepoint⟩ ∧
      (¬ t.NameFree row ∧ exc.cls = .sqliteError ∨
        t.NameFree row ∧ ¬ t.NoCycle row.id params ∧ exc.cls = .cyclicRelationshipError ∨
        t.NameFree row ∧ t.NoCycle row.id params ∧ ¬ t.TargetsStored row.id params ∧
          exc.cls = .sqliteError) := by
  unfold writePrimitive
  by_cases hname : t.NameFree row
  · have hupsert : execute (Tables.upsertPrimitiveRow row) ⟨t, savepoint⟩ =
        .ok () ⟨{ t with primitives := Tables.replaceRow row t.primitives }, savepoint⟩ := by
      simp only [execute_eq, upsertPrimitiveRow_of_free hname]
    -- The statement after `DELETE FROM relata` sees these tables.
    let kept : Tables := ⟨Tables.replaceRow row t.primitives, (t.deleteOutgoing row.id).relata⟩
    have hdelete : execute (fun t => .ok (t.deleteOutgoing row.id))
        ⟨{ t with primitives := Tables.replaceRow row t.primitives }, savepoint⟩ =
          .ok () ⟨kept, savepoint⟩ := rfl
    rw [Loops.bind_of_ok hupsert, Loops.bind_of_ok hdelete]
    have hedges : ∀ a b, kept.TransEdge a b ↔ Digraph.Without t.TransEdge row.id a b :=
      fun _ _ => Tables.transEdge_deleteOutgoing
    rcases checkTransitiveCycles_cases params hedges with
      ⟨hcheck, hno⟩ | ⟨exc, hcheck, hcls, hcyc⟩
    · have hread : Action.read (fun db : SqliteRepository =>
          checkTransitiveCycles row.id params db.tables) ⟨kept, savepoint⟩ =
            .ok () ⟨kept, savepoint⟩ := Action.read_of_ok hcheck
      have hkept : ∀ id, kept.Stored id ↔ id = row.id ∨ t.Stored id :=
        fun id => (Tables.stored_replace : (t.replace row []).Stored id ↔ _)
      rw [Loops.bind_of_ok hread]
      rcases forM_insertRelatum params kept savepoint with
        ⟨hall, hok⟩ | ⟨⟨rp, hrp, habsent⟩, exc, t', herr, hcls⟩
      · exact Or.inl ⟨hname, hno, fun rp hrp => (hkept _).mp (hall rp hrp).2, hok⟩
      · refine Or.inr ⟨exc, t', herr, Or.inr (Or.inr ⟨hname, hno, fun htargets => ?_, hcls⟩)⟩
        exact habsent ⟨(hkept _).mpr (Or.inl (hsource rp hrp)), (hkept _).mpr (htargets rp hrp)⟩
    · have hread : Action.read (fun db : SqliteRepository =>
          checkTransitiveCycles row.id params db.tables) ⟨kept, savepoint⟩ =
            .error exc ⟨kept, savepoint⟩ := Action.read_of_error hcheck
      rw [Loops.bind_of_error hread]
      exact Or.inr ⟨exc, kept, rfl, Or.inr (Or.inl ⟨hname, hcyc, hcls⟩)⟩
  · have hupsert : execute (Tables.upsertPrimitiveRow row) ⟨t, savepoint⟩ =
        .error ⟨.sqliteError, "UNIQUE constraint failed: primitives.name_lower"⟩
          ⟨t, savepoint⟩ := by
      simp only [execute_eq, upsertPrimitiveRow_of_taken hname]
    rw [Loops.bind_of_error hupsert]
    exact Or.inr ⟨_, _, rfl, Or.inl ⟨hname, rfl⟩⟩

/-! ## `save_primitive` -/

theorem sourceId_of_mem_toRelata {p : Primitive} {rp : RelatumRow} (h : rp ∈ p.toRelata) :
    rp.sourceId = p.id := by
  obtain ⟨d, -, hrp⟩ := List.mem_flatMap.mp h
  obtain ⟨r, -, rfl⟩ := List.mem_map.mp hrp
  rfl

/-- Why a save refuses a primitive: it does not serialize, its name is taken, it would close
a cycle, or one of its relata has no target. -/
inductive Refusal [NameFolding] (t : Tables) (p : Primitive) (exc : PyException) : Prop where
  | serialize (h : p.serialize = .error exc)
  | name (hp : p.Storable) (h : ¬ t.NameFree p.toRow) (hcls : exc.cls = .persistenceError)
  | cycle (hp : p.Storable) (hname : t.NameFree p.toRow) (h : ¬ t.NoCycle p.id p.toRelata)
      (hcls : exc.cls = .cyclicRelationshipError)
  | target (hp : p.Storable) (hname : t.NameFree p.toRow) (hcycle : t.NoCycle p.id p.toRelata)
      (h : ¬ t.TargetsStored p.id p.toRelata) (hcls : exc.cls = .persistenceError)

/-- A primitive that a save accepts. -/
structure Accepts [NameFolding] (t : Tables) (p : Primitive) : Prop where
  storable : p.Storable
  name_free : t.NameFree p.toRow
  no_cycle : t.NoCycle p.id p.toRelata
  targets : t.TargetsStored p.id p.toRelata

theorem Refusal.not_accepts [NameFolding] {t : Tables} {p : Primitive} {exc : PyException}
    (h : Refusal t p exc) : ¬ Accepts t p := by
  intro haccepts
  cases h with
  | serialize herror =>
      rw [serialize_eq haccepts.storable] at herror
      cases herror
  | name _ hname _ => exact hname haccepts.name_free
  | cycle _ _ hcycle _ => exact hcycle haccepts.no_cycle
  | target _ _ _ htargets _ => exact htargets haccepts.targets

/-- A primitive that does not serialize is refused before the transaction. -/
theorem savePrimitiveBinding_of_serialize_error [NameFolding] {p : Primitive} {exc : PyException}
    (h : p.serialize = .error exc) (bound : Except PyException (String × String))
    (db : SqliteRepository) : savePrimitiveBinding bound p db = .error exc db := by
  unfold savePrimitiveBinding
  rw [bind_serialize, h]

theorem savePrimitive_of_serialize_error [NameFolding] {p : Primitive} {exc : PyException}
    (h : p.serialize = .error exc) (db : SqliteRepository) :
    savePrimitive p db = .error exc db :=
  savePrimitiveBinding_of_serialize_error h _ db

/-- What one save can do. -/
theorem savePrimitive_cases [NameFolding] (p : Primitive) (t : Tables) :
    (Accepts t p ∧ savePrimitive p ⟨t, none⟩ = .ok () ⟨t.replace p.toRow p.toRelata, none⟩) ∨
    ∃ exc, Refusal t p exc ∧ savePrimitive p ⟨t, none⟩ = .error exc ⟨t, none⟩ := by
  cases hserialize : p.serialize with
  | error exc =>
      exact Or.inr ⟨exc, .serialize hserialize, savePrimitive_of_serialize_error hserialize _⟩
  | ok records =>
      have hp := storable_of_serialize hserialize
      unfold savePrimitive savePrimitiveBinding
      rw [bind_serialize, serialize_eq hp]
      have hbegin : begin ⟨t, none⟩ = .ok () ⟨t, some t⟩ := rfl
      have hbound : (Action.lift (.ok (p.name, p.nameLower)) :
          Action SqliteRepository (String × String)) ⟨t, some t⟩ =
            .ok (p.name, p.nameLower) ⟨t, some t⟩ := rfl
      have hsource : ∀ rp ∈ p.toRelata, rp.sourceId = p.toRow.id :=
        fun _ => sourceId_of_mem_toRelata
      rcases writePrimitive_cases hsource t (some t) with
        ⟨hname, hcycle, htargets, hok⟩ | ⟨exc, t', herr, hwhy⟩
      · refine Or.inl ⟨⟨hp, hname, hcycle, htargets⟩, Loops.tryCatch_of_ok ?_⟩
        rw [Loops.bind_of_ok hbegin, Loops.bind_of_ok hbound]
        exact (Loops.bind_of_ok hok).trans rfl
      · have hfail : (do
            begin
            let names ← Action.lift (.ok (p.name, p.nameLower))
            writePrimitive { p.toRow with name := names.1, nameLower := names.2 } p.toRelata
            commit : Action SqliteRepository Unit) ⟨t, none⟩ = .error exc ⟨t', some t⟩ := by
          rw [Loops.bind_of_ok hbegin, Loops.bind_of_ok hbound]
          exact Loops.bind_of_error herr
        let failed : PyException :=
          ⟨.persistenceError, s!"Failed to save primitive '{p.name}': {exc.message}"⟩
        apply Or.inr
        rcases hwhy with ⟨hname, hcls⟩ | ⟨hname, hcycle, hcls⟩ | ⟨hname, hcycle, htargets, hcls⟩
        · refine ⟨failed, .name hp hname rfl, (Loops.tryCatch_of_error hfail).trans ?_⟩
          simp only [hcls]
          rfl
        · refine ⟨exc, .cycle hp hname hcycle hcls, (Loops.tryCatch_of_error hfail).trans ?_⟩
          simp only [hcls]
          rfl
        · refine ⟨failed, .target hp hname hcycle htargets rfl,
            (Loops.tryCatch_of_error hfail).trans ?_⟩
          simp only [hcls]
          rfl

/-! ## Saving under any name -/

/-- Under a name that UTF-8 encodes a primitive is saved as its values are written. -/
theorem savePyPrimitive_eq [NameFolding] [JsonEncoder] {p : PyPrimitive}
    (h : p.name.isEncodable = true) : savePyPrimitive p = savePrimitive p.written := by
  have hlower : p.nameLower.isEncodable = true := by
    rw [PyPrimitive.nameLower, PyStr.isEncodable_foldName, h]
  have htext : p.nameLower.text = p.written.nameLower := by
    rw [← ofString_nameLower_written h, PyStr.text_ofString]
  unfold savePyPrimitive savePrimitive PyStr.encode
  rw [if_pos h, if_pos hlower, htext]
  rfl

/-- The save of a primitive under a text, where it is written as it is. -/
theorem savePyPrimitive_toPy [NameFolding] [JsonEncoder] {p : Primitive}
    (h : p.toPy.written = p.toPy.toPrimitive) : savePyPrimitive p.toPy = savePrimitive p := by
  rw [savePyPrimitive_eq (PyStr.isEncodable_ofString p.name), h, toPrimitive_toPy]

/-- Saving raises past its handlers when it comes to bind a name with a surrogate: nothing is
written, and the transaction stays open. -/
theorem savePyPrimitive_of_surrogate [NameFolding] [JsonEncoder] {p : PyPrimitive}
    (h : p.name.isEncodable = false) (hp : p.written.Storable) (t : Tables) :
    ∃ message, savePyPrimitive p ⟨t, none⟩ = .error ⟨.unicodeEncodeError, message⟩ ⟨t, some t⟩ := by
  refine ⟨"'utf-8' codec can't encode characters: surrogates not allowed", ?_⟩
  unfold savePyPrimitive savePrimitiveBinding PyStr.encode
  rw [bind_serialize, serialize_eq hp, if_neg (by simp [h])]
  rfl

/-- A save that returns has a name that UTF-8 encodes. -/
theorem isEncodable_of_ok [NameFolding] [JsonEncoder] {t : Tables} {p : PyPrimitive}
    {db : SqliteRepository} (h : savePyPrimitive p ⟨t, none⟩ = .ok () db) :
    p.name.isEncodable = true := by
  by_contra hname
  cases hserialize : p.written.serialize with
  | error exc => cases (savePrimitiveBinding_of_serialize_error hserialize _ _).symm.trans h
  | ok records =>
      obtain ⟨message, herror⟩ := savePyPrimitive_of_surrogate (Bool.not_eq_true _ ▸ hname)
        (storable_of_serialize hserialize) t
      cases herror.symm.trans h

end Sqlite

end Vre
