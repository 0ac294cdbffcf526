import Vre.Model.Seeding
import Vre.Verification.Store.Live
import Vre.Verification.Store.Runs

/-! # Seeding again

A seeder that completes leaves a store on which it completes again, with the same ids and the
same graph. In the second run the primitives rewritten so far have the edges that they had at
the same point of the first run, and these lead only to primitives rewritten so far. So a
cycle that the second run would meet is one that the first run would have met.
-/

namespace Vre

/-! ## Completed runs -/

/-- The primitive that a call asks to be saved, under a new identifier. -/
def SeedCall.proposed (call : SeedCall) (draw : Draw) (returned : List UUID) : Primitive :=
  { call.primitive returned with id := draw.uuid4 returned.length }

/-- The program completes: it leads from `t` to `t'` and returns `ids`, the ids returned
before it started included. -/
inductive Seeded [NameFolding] (draw : Draw) :
    List SeedCall → List UUID → Tables → List UUID → Tables → Prop where
  | nil {returned t} : Seeded draw [] returned t returned t
  | cons {call rest returned t p ids t'} (hp : t.canonical (call.proposed draw returned) = p)
      (haccepts : Sqlite.Accepts t p)
      (hrest : Seeded draw rest (returned ++ [p.id]) (t.replace p.toRow p.toRelata) ids t') :
      Seeded draw (call :: rest) returned t ids t'

theorem runSeeder_ok_iff [NameFolding] {draw : Draw} {program : List SeedCall}
    {returned ids : List UUID} {t : Tables} (h : t.Schema) {db' : SqliteRepository} :
    runSeeder draw program returned (⟨t, none⟩ : SqliteRepository) = .ok ids db' ↔
      ∃ t', Seeded draw program returned t ids t' ∧ db' = ⟨t', none⟩ := by
  induction program generalizing returned t with
  | nil =>
      constructor
      · intro hrun
        cases hrun
        exact ⟨t, .nil, rfl⟩
      · rintro ⟨t', hseeded, rfl⟩
        cases hseeded
        rfl
  | cons call rest ih =>
      rw [runSeeder, Loops.bind_ok]
      constructor
      · rintro ⟨saved, db, hsaved, hrest⟩
        rcases Sqlite.upsertPrimitive_cases h (call.proposed draw returned) with
          ⟨haccepts, hok⟩ | ⟨exc, -, herror⟩
        · cases hok.symm.trans hsaved
          obtain ⟨t', hseeded, rfl⟩ := (ih (h.replace haccepts)).mp hrest
          exact ⟨t', .cons rfl haccepts hseeded, rfl⟩
        · cases herror.symm.trans hsaved
      · rintro ⟨t', hseeded, rfl⟩
        cases hseeded with
        | cons hp haccepts hrest =>
            subst hp
            rcases Sqlite.upsertPrimitive_cases h (call.proposed draw returned) with
              ⟨-, hok⟩ | ⟨exc, hrefusal, -⟩
            · exact ⟨_, _, hok, (ih (h.replace haccepts)).mpr ⟨t', hrest, rfl⟩⟩
            · exact absurd haccepts hrefusal.not_accepts

/-! ## Names -/

/-- Every primitive of `t` is one of `t'`, under the same name. -/
def KeepsNames (t t' : Tables) : Prop :=
  ∀ row ∈ t.primitives, ∃ row' ∈ t'.primitives, row'.id = row.id ∧ row'.nameLower = row.nameLower

/-- The canonical primitive is the proposed one, under the id of its namesake if there is
one. -/
theorem canonical_cases [NameFolding] {t : Tables} (h : t.Schema) (p : Primitive) :
    (∃ row ∈ t.primitives, row.nameLower = p.nameLower ∧
      t.canonical p = { p with id := row.id }) ∨
    (∀ row ∈ t.primitives, row.nameLower ≠ p.nameLower) ∧ t.canonical p = p := by
  unfold Tables.canonical
  cases hnamed : t.named p.name with
  | none => exact Or.inr ⟨Tables.named_eq_none.mp hnamed, rfl⟩
  | some found =>
      obtain ⟨row, hrow, hname, rfl⟩ := (Tables.named_eq_some h).mp hnamed
      exact Or.inl ⟨row, hrow, hname, rfl⟩

/-- The id of a stored name is that of its record. -/
theorem canonical_of_row [NameFolding] {t : Tables} (h : t.Schema) {p : Primitive}
    {row : PrimitiveRow} (hrow : row ∈ t.primitives) (hname : row.nameLower = p.nameLower) :
    t.canonical p = { p with id := row.id } := by
  rcases canonical_cases h p with ⟨row', hrow', hname', heq⟩ | ⟨hnone, -⟩
  · obtain rfl : row' = row := h.row_unique_name hrow' hrow (hname'.trans hname.symm)
    exact heq
  · exact absurd hname (hnone row hrow)

/-- A record under the id of the canonical primitive has its name. -/
theorem nameLower_of_canonical [NameFolding] {t : Tables} (h : t.Schema) {p : Primitive}
    (hnew : ¬ t.Stored p.id) {row : PrimitiveRow} (hrow : row ∈ t.primitives)
    (hid : row.id = (t.canonical p).id) : row.nameLower = p.nameLower := by
  rcases canonical_cases h p with ⟨row', hrow', hname, heq⟩ | ⟨-, heq⟩
  · obtain rfl : row = row' := h.row_unique hrow hrow' (hid.trans (congrArg Primitive.id heq))
    exact hname
  · exact absurd ⟨row, hrow, hid.trans (congrArg Primitive.id heq)⟩ hnew

theorem nameLower_canonical [NameFolding] (t : Tables) (p : Primitive) :
    (t.canonical p).nameLower = p.nameLower := by
  unfold Tables.canonical
  split <;> rfl

theorem keepsNames_replace [NameFolding] {t : Tables} (h : t.Schema) {p : Primitive}
    (hnew : ¬ t.Stored p.id) (params : List RelatumRow) :
    KeepsNames t (t.replace (t.canonical p).toRow params) := by
  intro row hrow
  by_cases hid : row.id = (t.canonical p).id
  · refine ⟨_, Tables.mem_replaceRow.mpr (Or.inl rfl), hid.symm, ?_⟩
    exact (nameLower_canonical t p).trans (nameLower_of_canonical h hnew hrow hid).symm
  · exact ⟨row, Tables.mem_replaceRow.mpr (Or.inr ⟨hrow, hid⟩), rfl, rfl⟩

/-- The identifiers that the rest of the run will draw are not stored. -/
def Unused (draw : Draw) (start : ℕ) (t : Tables) : Prop :=
  ∀ i, start ≤ i → ¬ t.Stored (draw.uuid4 i)

theorem Unused.step [NameFolding] {draw : Draw} (hdistinct : Function.Injective draw.uuid4)
    {t : Tables} (h : t.Schema) {call : SeedCall} {returned : List UUID}
    (hunused : Unused draw returned.length t) {id : UUID} (params : List RelatumRow) :
    Unused draw (returned ++ [id]).length
      (t.replace (t.canonical (call.proposed draw returned)).toRow params) := by
  intro i hi hstored
  rw [List.length_append, List.length_singleton] at hi
  rcases Tables.stored_replace.mp hstored with hid | hstored
  · rcases canonical_cases h (call.proposed draw returned) with ⟨row, hrow, -, heq⟩ | ⟨-, heq⟩
    · refine hunused i (Nat.le_of_succ_le hi) ⟨row, hrow, ?_⟩
      exact (congrArg Primitive.id heq).symm.trans hid.symm
    · have hsame : draw.uuid4 i = draw.uuid4 returned.length :=
        hid.trans (congrArg Primitive.id heq)
      exact absurd (hdistinct hsame) (Nat.ne_of_gt hi)
  · exact hunused i (Nat.le_of_succ_le hi) hstored

theorem KeepsNames.trans {t t' t'' : Tables} (h : KeepsNames t t') (h' : KeepsNames t' t'') :
    KeepsNames t t'' := by
  intro row hrow
  obtain ⟨row', hrow', hid, hname⟩ := h row hrow
  obtain ⟨row'', hrow'', hid', hname'⟩ := h' row' hrow'
  exact ⟨row'', hrow'', hid'.trans hid, hname'.trans hname⟩

theorem Seeded.keepsNames [NameFolding] {draw : Draw}
    (hdistinct : Function.Injective draw.uuid4) {program : List SeedCall}
    {returned ids : List UUID} {t t' : Tables} (hseeded : Seeded draw program returned t ids t')
    (h : t.Schema) (hunused : Unused draw returned.length t) :
    t'.Schema ∧ KeepsNames t t' := by
  induction hseeded with
  | nil => exact ⟨h, fun row hrow => ⟨row, hrow, rfl, rfl⟩⟩
  | cons hp haccepts _ ih =>
      subst hp
      obtain ⟨hschema, hrest⟩ := ih (h.replace haccepts) (hunused.step hdistinct h _)
      refine ⟨hschema, (keepsNames_replace h ?_ _).trans hrest⟩
      exact hunused _ le_rfl

/-! ## The second run -/

/-- The second run stands at `u` where the first run stood at `t`, having rewritten the
primitives `returned`. These are as they were at `t`, and cite only each other; the others
are still as the first run has left them. -/
structure Replays [NameFolding] (returned : List UUID) (t u final : Tables) : Prop where
  schema : u.Schema
  ids : u.primitives.map PrimitiveRow.id = final.primitives.map PrimitiveRow.id
  stored : ∀ id ∈ returned, t.Stored id
  rewritten : ∀ row, row.id ∈ returned → (row ∈ u.primitives ↔ row ∈ t.primitives)
  untouched : ∀ row, row.id ∉ returned → (row ∈ u.primitives ↔ row ∈ final.primitives)
  edges_rewritten : ∀ id ∈ returned, u.outgoing id = t.outgoing id
  edges_untouched : ∀ id, id ∉ returned → u.outgoing id = final.outgoing id
  closed : ∀ id ∈ returned, ∀ rel ∈ t.outgoing id, rel.targetId ∈ returned

/-- Before its first call the second run stands where the first has ended. -/
theorem Replays.start [NameFolding] {t final : Tables} (h : final.Schema) :
    Replays [] t final final where
  schema := h
  ids := rfl
  stored := by simp
  rewritten := by simp
  untouched := fun _ _ => Iff.rfl
  edges_rewritten := by simp
  edges_untouched := fun _ _ => rfl
  closed := by simp

/-- In the second run the name has the record that it had in the first. -/
theorem Replays.exists_row [NameFolding] {returned : List UUID} {t u final : Tables}
    (hreplays : Replays returned t u final) (h : t.Schema) {p : Primitive}
    (hnew : ¬ t.Stored p.id) {params : List RelatumRow}
    (hkeeps : KeepsNames (t.replace (t.canonical p).toRow params) final) :
    ∃ row ∈ u.primitives, row.id = (t.canonical p).id ∧ row.nameLower = p.nameLower := by
  by_cases hreturned : (t.canonical p).id ∈ returned
  · obtain ⟨row, hrow, hid⟩ := hreplays.stored _ hreturned
    refine ⟨row, ?_, hid, nameLower_of_canonical h hnew hrow hid⟩
    exact (hreplays.rewritten row (hid.symm ▸ hreturned)).mpr hrow
  · obtain ⟨row, hrow, hid, hname⟩ := hkeeps _ (Tables.mem_replaceRow.mpr (Or.inl rfl))
    have hid : row.id = (t.canonical p).id := hid
    refine ⟨row, (hreplays.untouched row (hid.symm ▸ hreturned)).mpr hrow, hid, ?_⟩
    exact hname.trans (nameLower_canonical t p)

/-- Both runs save the same primitive. -/
theorem Replays.canonical_eq [NameFolding] {returned : List UUID} {t u final : Tables}
    (hreplays : Replays returned t u final) (h : t.Schema) {draw : Draw} {call : SeedCall}
    (hunused : Unused draw returned.length t) {params : List RelatumRow}
    (hkeeps : KeepsNames
      (t.replace (t.canonical (call.proposed draw returned)).toRow params) final)
    (again : Draw) : u.canonical (call.proposed again returned) =
      t.canonical (call.proposed draw returned) := by
  obtain ⟨row, hrow, hid, hname⟩ := hreplays.exists_row h (hunused _ le_rfl) hkeeps
  have hname : row.nameLower = (call.proposed again returned).nameLower := hname
  rw [canonical_of_row hreplays.schema hrow hname, hid]
  rcases canonical_cases h (call.proposed draw returned) with ⟨_, -, -, heq⟩ | ⟨-, heq⟩
  · rw [heq]
    rfl
  · rw [heq]
    rfl

/-- What a call saves cites only primitives that were returned. -/
theorem target_mem_returned [NameFolding] (t : Tables) (call : SeedCall) (draw : Draw)
    {returned : List UUID} {rel : RelatumRow}
    (h : rel ∈ (t.canonical (call.proposed draw returned)).toRelata) :
    rel.targetId ∈ returned := by
  have hdepths : (t.canonical (call.proposed draw returned)).depths =
      (call.primitive returned).depths := by
    unfold Tables.canonical
    split <;> rfl
  obtain ⟨d, hd, hrel⟩ := List.mem_flatMap.mp h
  obtain ⟨r, hr, rfl⟩ := List.mem_map.mp hrel
  exact call.cites_returned returned d (hdepths ▸ hd) r hr

/-- What the first run has accepted, the second run accepts. A walk from a primitive that was
rewritten stays among those, where both runs have the same edges. -/
theorem Replays.accepts [NameFolding] {returned : List UUID} {t u final : Tables}
    (hreplays : Replays returned t u final) {p : Primitive} (haccepts : Sqlite.Accepts t p)
    (htargets : ∀ rel ∈ p.toRelata, rel.targetId ∈ returned)
    (hrow : ∃ row ∈ u.primitives, row.id = p.id ∧ row.nameLower = p.nameLower) :
    Sqlite.Accepts u p where
  storable := haccepts.storable
  name_free := by
    obtain ⟨row, hrow, hid, hname⟩ := hrow
    intro other hother hsame
    rw [hreplays.schema.row_unique_name hother hrow (hsame.trans hname.symm)]
    exact hid
  no_cycle := by
    intro rel hrel htype hcycle
    apply haccepts.no_cycle rel hrel htype
    refine Digraph.reach_of_closed (S := fun id => id ∈ returned) ?_ (htargets rel hrel) hcycle
    rintro a b ha ⟨hne, edge, hedge, rfl, rfl, htrans⟩
    have hmem : edge ∈ t.outgoing edge.sourceId := by
      rw [← hreplays.edges_rewritten _ ha]
      exact Tables.mem_outgoing.mpr ⟨hedge, rfl⟩
    exact ⟨⟨hne, edge, (Tables.mem_outgoing.mp hmem).1, rfl, rfl, htrans⟩,
      hreplays.closed _ ha edge hmem⟩
  targets := by
    intro rel hrel
    obtain ⟨row, hrow, hid⟩ := hreplays.stored _ (htargets rel hrel)
    refine Or.inr ⟨row, (hreplays.rewritten row ?_).mpr hrow, hid⟩
    exact hid.symm ▸ htargets rel hrel

theorem map_id_replaceRow {row : PrimitiveRow} {rows : List PrimitiveRow}
    (h : row.id ∈ rows.map PrimitiveRow.id) :
    (Tables.replaceRow row rows).map PrimitiveRow.id = rows.map PrimitiveRow.id := by
  have hany : (rows.any fun other => other.id = row.id) = true := by
    simpa using h
  rw [Tables.replaceRow, if_pos hany, List.map_map]
  apply List.map_congr_left
  intro r _
  simp only [Function.comp_apply]
  split
  · rename_i hid
    exact hid.symm
  · rfl

theorem mem_of_mem_append_singleton {ids : List UUID} {id new : UUID} (h : id ∈ ids ++ [new])
    (hne : id ≠ new) : id ∈ ids :=
  (List.mem_append.mp h).resolve_right fun heq => hne (List.mem_singleton.mp heq)

/-- The same save keeps the second run in step with the first. -/
theorem Replays.step [NameFolding] {returned : List UUID} {t u final : Tables}
    (hreplays : Replays returned t u final) {p : Primitive} (haccepts : Sqlite.Accepts u p)
    (hstored : u.Stored p.id) (htargets : ∀ rel ∈ p.toRelata, rel.targetId ∈ returned) :
    Replays (returned ++ [p.id]) (t.replace p.toRow p.toRelata) (u.replace p.toRow p.toRelata)
      final where
  schema := hreplays.schema.replace haccepts
  ids := by
    refine (map_id_replaceRow ?_).trans hreplays.ids
    exact Tables.stored_iff_mem.mp hstored
  stored := by
    intro id hid
    apply Tables.stored_replace.mpr
    rcases List.mem_append.mp hid with hid | hid
    · exact Or.inr (hreplays.stored id hid)
    · exact Or.inl (List.mem_singleton.mp hid)
  rewritten := by
    intro row hid
    refine Tables.mem_replaceRow.trans (Iff.trans ?_ Tables.mem_replaceRow.symm)
    refine or_congr_right (and_congr_left fun hne => ?_)
    exact hreplays.rewritten row (mem_of_mem_append_singleton hid hne)
  untouched := by
    intro row hid
    rw [List.mem_append, List.mem_singleton, not_or] at hid
    refine Tables.mem_replaceRow.trans (Iff.trans ?_ (hreplays.untouched row hid.1))
    constructor
    · rintro (rfl | ⟨hrow, -⟩)
      · exact absurd rfl hid.2
      · exact hrow
    · exact fun hrow => Or.inr ⟨hrow, hid.2⟩
  edges_rewritten := by
    intro id hid
    by_cases hself : id = p.id
    · rw [hself, Tables.outgoing_replace_self, Tables.outgoing_replace_self]
    · rw [Tables.outgoing_replace_of_ne hself, Tables.outgoing_replace_of_ne hself]
      exact hreplays.edges_rewritten id (mem_of_mem_append_singleton hid hself)
  edges_untouched := by
    intro id hid
    rw [List.mem_append, List.mem_singleton, not_or] at hid
    rw [Tables.outgoing_replace_of_ne hid.2]
    exact hreplays.edges_untouched id hid.1
  closed := by
    intro id hid rel hrel
    apply List.mem_append_left _
    by_cases hself : id = p.id
    · rw [hself, Tables.outgoing_replace_self] at hrel
      exact htargets rel hrel
    · rw [Tables.outgoing_replace_of_ne hself] at hrel
      exact hreplays.closed id (mem_of_mem_append_singleton hid hself) rel hrel

/-- From where the first run completes, the second completes. -/
theorem Seeded.again [NameFolding] {draw : Draw} (hdistinct : Function.Injective draw.uuid4)
    {program : List SeedCall} {returned ids : List UUID} {t final : Tables}
    (hseeded : Seeded draw program returned t ids final) (h : t.Schema)
    (hunused : Unused draw returned.length t) (again : Draw) {u : Tables}
    (hreplays : Replays returned t u final) :
    ∃ u', Seeded again program returned u ids u' ∧ Replays ids final u' final := by
  induction hseeded generalizing u with
  | nil => exact ⟨u, .nil, hreplays⟩
  | @cons call rest returned t p ids final hp haccepts hrest ih =>
      subst hp
      have hschema := h.replace haccepts
      have hunused' : Unused draw
          (returned ++ [(t.canonical (call.proposed draw returned)).id]).length
          (t.replace (t.canonical (call.proposed draw returned)).toRow
            (t.canonical (call.proposed draw returned)).toRelata) :=
        hunused.step hdistinct h _
      have hkeeps := (hrest.keepsNames hdistinct hschema hunused').2
      have hsame := hreplays.canonical_eq h hunused hkeeps again
      have hrow := hreplays.exists_row h (hunused _ le_rfl) hkeeps
      have htargets : ∀ rel ∈ (t.canonical (call.proposed draw returned)).toRelata,
          rel.targetId ∈ returned := fun _ hrel => target_mem_returned t call draw hrel
      have haccepts' := hreplays.accepts haccepts htargets
        (hrow.imp fun row hrow => ⟨hrow.1, hrow.2.1, hrow.2.2.trans (nameLower_canonical t _).symm⟩)
      have hstored : u.Stored (t.canonical (call.proposed draw returned)).id :=
        hrow.imp fun row hrow => ⟨hrow.1, hrow.2.1⟩
      obtain ⟨u', hagain, hend⟩ := ih hschema hunused'
        (hreplays.step haccepts' hstored htargets)
      exact ⟨u', .cons hsame haccepts' hagain, hend⟩

/-! ## Idempotence -/

/-- Two lists with the same distinct ids, of which one holds the records of the other, are
the same. -/
theorem eq_of_map_id {rows rows' : List PrimitiveRow}
    (hids : rows.map PrimitiveRow.id = rows'.map PrimitiveRow.id)
    (hnodup : (rows'.map PrimitiveRow.id).Nodup) (hmem : ∀ row ∈ rows, row ∈ rows') :
    rows = rows' := by
  have hlength : rows.length = rows'.length := by simpa using congrArg List.length hids
  apply List.ext_getElem hlength
  intro i hi hi'
  have hids' : (rows.map PrimitiveRow.id)[i]? = (rows'.map PrimitiveRow.id)[i]? := by rw [hids]
  have hid : rows[i].id = rows'[i].id := by
    simpa [List.getElem?_map, hi, hi'] using hids'
  exact List.inj_on_of_nodup_map hnodup (hmem _ (List.getElem_mem hi)) (List.getElem_mem hi') hid

theorem perm_relata_of_outgoing {t t' : Tables} (h : ∀ id, t.outgoing id = t'.outgoing id) :
    t.relata.Perm t'.relata := by
  apply List.perm_iff_count.mpr
  intro rel
  have hcount (t : Tables) : (t.outgoing rel.sourceId).count rel = t.relata.count rel :=
    List.count_filter (by simp)
  rw [← hcount t, ← hcount t', h]

/-- A second run of a seeder, right after one that has completed, completes too. It returns
the same ids, writes the same records, and leaves the same relata: every primitive reads back
as the first run has left it. -/
theorem runSeeder_again [NameFolding] {db db' : SqliteRepository} (h : db.Sound) {draw : Draw}
    (hfresh : draw.Fresh db.tables) {program : List SeedCall} {ids : List UUID}
    (hrun : runSeeder draw program [] db = .ok ids db') (again : Draw) :
    ∃ db'', runSeeder again program [] db' = .ok ids db'' ∧
      db''.tables.primitives = db'.tables.primitives ∧
      db''.tables.relata.Perm db'.tables.relata ∧
      ∀ id, Repository.findById db'' id = Repository.findById db' id := by
  have hschema := h.2.toSchema
  rw [h.eq_idle] at hrun
  obtain ⟨final, hseeded, rfl⟩ := (runSeeder_ok_iff hschema).mp hrun
  have hunused : Unused draw ([] : List UUID).length db.tables := fun i _ => hfresh.unused i
  obtain ⟨hfinal, -⟩ := hseeded.keepsNames hfresh.distinct hschema hunused
  obtain ⟨u, hagain, hend⟩ := hseeded.again hfresh.distinct hschema hunused again
    (.start hfinal)
  have hrows (row : PrimitiveRow) : row ∈ u.primitives ↔ row ∈ final.primitives := by
    by_cases hid : row.id ∈ ids
    · exact hend.rewritten row hid
    · exact hend.untouched row hid
  have hedges (id : UUID) : u.outgoing id = final.outgoing id := by
    by_cases hid : id ∈ ids
    · exact hend.edges_rewritten id hid
    · exact hend.edges_untouched id hid
  have hprimitives : u.primitives = final.primitives :=
    eq_of_map_id hend.ids hfinal.nodup_ids fun row hrow => (hrows row).mp hrow
  refine ⟨⟨u, none⟩, (runSeeder_ok_iff hfinal).mpr ⟨u, hagain, rfl⟩, hprimitives,
    perm_relata_of_outgoing hedges, fun id => ?_⟩
  have hlive : u.live id = final.live id := by
    have hload : u.loadRow = final.loadRow := funext fun row => by
      rw [Tables.loadRow, Tables.loadRow, hedges]
    rw [Tables.live, Tables.live, hprimitives, hload]
  have hread : Repository.findById (⟨final, none⟩ : SqliteRepository) id =
      .ok (final.live id) := findById_eq hfinal id
  rw [hread, ← hlive]
  exact findById_eq hend.schema id

/-- A seeder that declares a process and a permission, and then constrains the process by the
permission. -/
def processSeeder : List SeedCall :=
  [⟨fun _ => sample 0 "process" [.existence] [], by simp [sample]⟩,
    ⟨fun _ => sample 0 "permission" [.existence] [], by simp [sample]⟩,
    ⟨fun returned => sample 0 "process" [.existence] ((returned[1]?).toList.map fun permission =>
      ⟨.constrainedBy, permission, .existence, [], some authored⟩), by
        intro returned d hd r hr
        simp only [sample, List.map_cons, List.map_nil, List.dropLast_singleton, List.nil_append,
          List.getLast?_singleton, Option.map_some, Option.toList_some, List.mem_singleton] at hd
        subst hd
        obtain ⟨permission, hmem, rfl⟩ := List.mem_map.mp hr
        exact List.mem_of_getElem? (Option.mem_toList.mp hmem)⟩]

theorem runSeeder_again_process : letI := asciiFolding
    ∃ db db' : SqliteRepository,
      runSeeder ⟨fun i => i, 0⟩ processSeeder [] SqliteRepository.fresh = .ok [0, 1, 0] db ∧
      runSeeder ⟨fun i => i + 5, 0⟩ processSeeder [] db = .ok [0, 1, 0] db' ∧
      db'.tables.primitives = db.tables.primitives := by
  have hcompletes : ∀ _ : NameFolding,
      (runSeeder ⟨fun i => i, 0⟩ processSeeder []).run' SqliteRepository.fresh =
        some [0, 1, 0] →
      ∃ db db' : SqliteRepository,
        runSeeder ⟨fun i => i, 0⟩ processSeeder [] SqliteRepository.fresh = .ok [0, 1, 0] db ∧
        runSeeder ⟨fun i => i + 5, 0⟩ processSeeder [] db = .ok [0, 1, 0] db' ∧
        db'.tables.primitives = db.tables.primitives := by
    intro _ hreturned
    have hsound : SqliteRepository.fresh.Sound := ⟨rfl, Tables.wellFormed_empty⟩
    have hfresh : Draw.Fresh ⟨fun i => i, 0⟩ SqliteRepository.fresh.tables :=
      ⟨by simp [Tables.Stored, SqliteRepository.fresh], fun _ _ h => h⟩
    obtain ⟨db, hrun⟩ := Loops.ok_of_run_eq_some hreturned
    obtain ⟨db', hagain, hsame, -⟩ := runSeeder_again hsound hfresh hrun ⟨fun i => i + 5, 0⟩
    exact ⟨db, db', hrun, hagain, hsame⟩
  exact hcompletes asciiFolding (by decide +kernel)

end Vre
