import Vre.Model.SplitRead
import Vre.Verification.Grounding.Accretion
import Vre.Verification.Interface.Sessions
import Vre.Verification.Learning.Replays

/-! # Checks while others write

`resolve_subgraph` on SQLite is three statements. When other connections check and learn between
them, the check still ends with a verdict: that of a store which holds what the statements saw.
-/

namespace Vre

namespace SplitRead

variable [NameFolding]

/-! ## What the statements see -/

/-- What the second and the third statement return, of what the first has reached. -/
def seen (reader : SplitRead) (names : List String) : Tables where
  primitives := reader.rows.primitives.filter fun row =>
    row.id ∈ Sqlite.reachableIds reader.reachable names
  relata := reader.file.tables.relata.filter fun r =>
    r.sourceId ∈ Sqlite.reachableIds reader.reachable names ∧
      r.targetId ∈ Sqlite.reachableIds reader.reachable names

/-- Each statement finds a well-formed store, which has grown since the one before. -/
structure Growing (reader : SplitRead) : Prop where
  reachable : reader.reachable.WellFormed
  rows : reader.rows.WellFormed
  file : reader.file.Sound
  first : reader.reachable.Grows reader.rows
  second : reader.rows.Grows reader.file.tables

variable {reader : SplitRead} {names : List String}

theorem mem_seen_primitives {row : PrimitiveRow} : row ∈ (reader.seen names).primitives ↔
    row ∈ reader.rows.primitives ∧ reader.reachable.InClosure names row.id := by
  simp [seen, Tables.mem_reachableIds]

theorem mem_seen_relata {rel : RelatumRow} : rel ∈ (reader.seen names).relata ↔
    rel ∈ reader.file.tables.relata ∧ reader.reachable.InClosure names rel.sourceId ∧
      reader.reachable.InClosure names rel.targetId := by
  simp [seen, Tables.mem_reachableIds]

/-- What is seen leads nowhere but to what was reached. -/
theorem inClosure_of_seen {id : UUID} (h : (reader.seen names).InClosure names id) :
    reader.reachable.InClosure names id := by
  obtain ⟨root, hroot, hpath⟩ := h
  cases hpath with
  | refl =>
      obtain ⟨row, hrow, rfl, -⟩ := hroot
      exact (mem_seen_primitives.mp hrow).2
  | tail _ hedge =>
      obtain ⟨rel, hrel, -, rfl, -⟩ := hedge
      exact (mem_seen_relata.mp hrel).2.2

namespace Growing

variable (h : reader.Growing)
include h

theorem mem_file_of_reachable {rel : RelatumRow} (hrel : rel ∈ reader.reachable.relata) :
    rel ∈ reader.file.tables.relata :=
  h.second.relata.subset (h.first.relata.subset hrel)

/-- The relata that are seen have both their ends among the records that are seen. -/
theorem stored_seen {id : UUID} (hid : reader.reachable.InClosure names id) :
    (reader.seen names).Stored id := by
  obtain ⟨row, hrow, rfl⟩ := hid.stored h.reachable.toSchema
  obtain ⟨row', hrow', hsame, -, -⟩ :=
    h.first.exists_row h.reachable.toSchema h.rows.toSchema hrow
  exact ⟨row', mem_seen_primitives.mpr ⟨hrow', hsame ▸ hid⟩, hsame⟩

theorem schema_seen (names : List String) : (reader.seen names).Schema where
  nodup_ids := h.rows.nodup_ids.sublist (List.filter_sublist.map _)
  nodup_names := h.rows.nodup_names.sublist (List.filter_sublist.map _)
  folded row hrow := h.rows.folded row (mem_seen_primitives.mp hrow).1
  sources _ hrel := h.stored_seen (mem_seen_relata.mp hrel).2.1
  targets _ hrel := h.stored_seen (mem_seen_relata.mp hrel).2.2
  stamped_rows row hrow := h.rows.stamped_rows row (mem_seen_primitives.mp hrow).1
  stamped_relata rel hrel := h.file.2.stamped_relata rel (mem_seen_relata.mp hrel).1

/-- At least what the first statement found is seen. -/
theorem widens_seen (names : List String) :
    Tables.Widens names reader.reachable (reader.seen names) := by
  have hrelata : ∀ rel ∈ reader.reachable.closureRelata names,
      rel ∈ (reader.seen names).relata := by
    intro rel hrel
    obtain ⟨hmem, hends⟩ := Tables.mem_closureRelata.mp hrel
    exact mem_seen_relata.mpr ⟨h.mem_file_of_reachable hmem, hends⟩
  have hrow : ∀ row ∈ reader.reachable.primitives, reader.reachable.InClosure names row.id →
      ∃ row' ∈ (reader.seen names).primitives, row'.id = row.id ∧
        row'.nameLower = row.nameLower ∧ ∀ level entry, lastAt row.depthsJson level = some entry →
          reader.reachable.CountsAt row level entry → ∃ entry',
            lastAt row'.depthsJson level = some entry' ∧
              (entry.properties ≠ [] → entry'.properties ≠ []) := by
    intro row hrow hinside
    obtain ⟨row', hrow', hid, hkept⟩ :=
      h.first.exists_row h.reachable.toSchema h.rows.toSchema hrow
    exact ⟨row', mem_seen_primitives.mpr ⟨hrow', hid ▸ hinside⟩, hid, hkept⟩
  have hnamed : ∀ id, reader.reachable.Named names id → (reader.seen names).Named names id := by
    intro id hid
    have hinside := hid.inClosure
    obtain ⟨row, hmem, rfl, hname⟩ := hid
    obtain ⟨row', hrow', hid, hsame, -⟩ := hrow row hmem hinside
    exact ⟨row', hrow', hid, hsame ▸ hname⟩
  refine ⟨hrelata, ?_⟩
  intro row hmem hinside
  obtain ⟨row', hrow', hid, hsame, hkept⟩ := hrow row hmem hinside
  refine ⟨row', hrow', hid, hsame, ?_⟩
  intro level hlevel
  obtain ⟨entry, hlast, hwhy⟩ := Tables.mem_groundingLevels_nodeRow.mp hlevel
  have hcounts : reader.reachable.CountsAt row level entry := by
    apply hwhy.imp_right
    apply Or.imp_right
    intro hrelatum
    obtain ⟨rel, hrel, hsource, -, hat⟩ := hrelatum
    exact ⟨rel, hrel, hsource, hat⟩
  obtain ⟨entry', hlast', hcontent⟩ := hkept level entry hlast hcounts
  apply Tables.mem_groundingLevels_nodeRow.mpr
  refine ⟨entry', hlast', hwhy.imp_right (Or.imp hcontent ?_)⟩
  intro hrelatum
  obtain ⟨rel, hrel, hsource, htarget, hat⟩ := hrelatum
  have hkept := hrelata rel (Tables.mem_closureRelata.mpr ⟨hrel, hsource ▸ hinside, htarget⟩)
  exact ⟨rel, hkept, hsource.trans hid.symm, htarget.of_subset hnamed hrelata, hat⟩

theorem inClosure_seen {id : UUID} :
    (reader.seen names).InClosure names id ↔ reader.reachable.InClosure names id :=
  ⟨inClosure_of_seen, (h.widens_seen names).inClosure⟩

/-- A store that has grown since the second statement, and has the relata of the third, shows
what was seen. -/
theorem seen_widens {t' : Tables} (ht' : t'.WellFormed) (hgrows : reader.rows.Grows t')
    (hrelata : ∀ rel ∈ reader.file.tables.relata, rel ∈ t'.relata) (names : List String) :
    Tables.Widens names (reader.seen names) t' := by
  have hkept : ∀ rel ∈ (reader.seen names).closureRelata names, rel ∈ t'.relata := by
    intro rel hrel
    exact hrelata rel (mem_seen_relata.mp (Tables.mem_closureRelata.mp hrel).1).1
  have hrow := fun row (hmem : row ∈ reader.rows.primitives) =>
    hgrows.exists_row h.rows.toSchema ht'.toSchema hmem
  have hnamed : ∀ id, (reader.seen names).Named names id → t'.Named names id := by
    intro id hid
    obtain ⟨row, hmem, rfl, hname⟩ := hid
    obtain ⟨row', hrow', hid, hsame, -⟩ := hrow row (mem_seen_primitives.mp hmem).1
    exact ⟨row', hrow', hid, hsame ▸ hname⟩
  refine ⟨hkept, ?_⟩
  intro row hmem hinside
  obtain ⟨row', hrow', hid, hsame, hlevels⟩ := hrow row (mem_seen_primitives.mp hmem).1
  refine ⟨row', hrow', hid, hsame, ?_⟩
  intro level hlevel
  obtain ⟨entry, hlast, hwhy⟩ := Tables.mem_groundingLevels_nodeRow.mp hlevel
  apply Tables.mem_groundingLevels_nodeRow.mpr
  by_cases hown : level = .existence ∨ entry.properties ≠ []
  · obtain ⟨entry', hlast', hcontent⟩ :=
      hlevels level entry hlast (hown.imp_right Or.inl)
    exact ⟨entry', hlast', hown.imp_right fun hne => Or.inl (hcontent hne)⟩
  · -- A relatum that the third statement saw stands at a record of its level.
    obtain ⟨hdeeper, hbare⟩ := not_or.mp hown
    obtain ⟨rel, hrel, hsource, htarget, hat⟩ :=
      (hwhy.resolve_left hdeeper).resolve_left hbare
    have hmem' := hrelata rel (mem_seen_relata.mp hrel).1
    obtain ⟨entry', hentry', hlevel'⟩ := ht'.homed rel hmem' row' hrow' (hid.trans hsource.symm)
    obtain ⟨last, hlast'⟩ := exists_lastAt hentry' (hlevel'.trans hat)
    refine ⟨last, hlast', Or.inr (Or.inr ⟨rel, hmem', hsource.trans hid.symm, ?_, hat⟩)⟩
    exact htarget.of_subset hnamed hkept

/-- When the store has only been extended, a name that is seen was there for the first
statement. -/
theorem names_reachable (hextends : reader.reachable.Extends reader.rows)
    (hseen : ∀ c ∈ names, ∃ row ∈ (reader.seen names).primitives, row.nameLower = foldName c) :
    ∀ c ∈ names, ∃ row ∈ reader.reachable.primitives, row.nameLower = foldName c := by
  intro c hc
  obtain ⟨row, hrow, hname⟩ := hseen c hc
  obtain ⟨hrow, hinside⟩ := mem_seen_primitives.mp hrow
  obtain ⟨old, hold, hid⟩ := hinside.stored h.reachable.toSchema
  obtain ⟨row', hrow', hid', hsame⟩ :=
    hextends.exists_row h.reachable.toSchema h.rows.toSchema hold
  cases h.rows.row_unique hrow' hrow (hid'.trans hid)
  exact ⟨old, hold, hsame.symm.trans hname⟩

/-! ## The check -/

/-- The statements return the subgraph of a store that holds what they see. -/
theorem resolveSubgraph_eq_seen (names : List String) :
    reader.resolveSubgraph names = Sqlite.resolveSubgraph ⟨reader.seen names, none⟩ names := by
  have hids : ∀ id, id ∈ Sqlite.reachableIds (reader.seen names) names ↔
      id ∈ Sqlite.reachableIds reader.reachable names := by
    intro id
    rw [Tables.mem_reachableIds, Tables.mem_reachableIds, h.inClosure_seen]
  have hempty : (Sqlite.reachableIds (reader.seen names) names).isEmpty =
      (Sqlite.reachableIds reader.reachable names).isEmpty := by
    rw [Bool.eq_iff_iff]
    simp only [List.isEmpty_iff, List.eq_nil_iff_forall_not_mem, hids]
  have hrows : ((reader.seen names).primitives.filter fun row =>
      row.id ∈ Sqlite.reachableIds (reader.seen names) names) =
        reader.rows.primitives.filter fun row =>
          row.id ∈ Sqlite.reachableIds reader.reachable names := by
    simp only [hids]
    simp [seen, List.filter_filter]
  have hedges : ((reader.seen names).relata.filter fun r =>
      r.sourceId ∈ Sqlite.reachableIds (reader.seen names) names ∧
        r.targetId ∈ Sqlite.reachableIds (reader.seen names) names) =
        reader.file.tables.relata.filter fun r =>
          r.sourceId ∈ Sqlite.reachableIds reader.reachable names ∧
            r.targetId ∈ Sqlite.reachableIds reader.reachable names := by
    simp only [hids]
    simp [seen, List.filter_filter]
  simp only [resolveSubgraph, Sqlite.resolveSubgraph, hempty, hrows, hedges]

theorem ground_eq_seen (draw : Draw) (concepts : List String) (minDepth : Option DepthLevel) :
    GroundingEngine.ground draw reader concepts minDepth =
      GroundingEngine.ground draw (⟨reader.seen concepts, none⟩ : SqliteRepository) concepts
        minDepth := by
  have hresolve : Repository.resolveSubgraph reader concepts =
      Repository.resolveSubgraph (⟨reader.seen concepts, none⟩ : SqliteRepository) concepts :=
    h.resolveSubgraph_eq_seen concepts
  simp only [GroundingEngine.ground, GroundingEngine.query, hresolve]

end Growing

end SplitRead

/-! ## What others do in between -/

namespace Request

variable {σ : Type} [NameFolding]

/-- A request that an agent makes, whose new primitive has a new identifier. -/
def Additive (db : SqliteRepository) : Request → Prop
  | check _ _ _ => True
  | learn call => ¬ db.tables.Stored (call.draw.uuid4 0)
  | store _ => False
  | placements => True

/-- An agent's request that places no relatum. -/
def PlacesNone : Request → Prop
  | learn call => call.gap.kind ≠ .reachability
  | _ => True

/-- The file after the requests. -/
def serve (vre : VRE σ) (db : SqliteRepository) (requests : List Request) : SqliteRepository :=
  requests.foldl (fun db request => (request.step vre db).2) db

theorem serve_append (vre : VRE σ) (db : SqliteRepository) (first second : List Request) :
    serve vre db (first ++ second) = serve vre (serve vre db first) second :=
  List.foldl_append

/-- A check leaves the knowledge of the store. -/
theorem step_check (vre : VRE σ) {db : SqliteRepository} (h : db.Sound) (draw : Draw)
    (concepts : List String) (minDepth : Option DepthLevel) :
    ∃ t', ((check draw concepts minDepth).step vre db).2 = ⟨t', none⟩ ∧
      db.tables.SameKnowledge t' := by
  obtain ⟨-, r, -, hr, -⟩ :=
    GroundingEngine.ground_grounded_iff h.2.toSchema draw concepts minDepth
  rw [h.eq_idle] at hr
  obtain ⟨t', hcheck, hsame⟩ := vre.check_eq draw hr
  refine ⟨t', ?_, hsame⟩
  rw [h.eq_idle]
  simp only [step, hcheck]

/-- A call of `learn_gap` keeps the store, or saves what it has learned. -/
theorem step_learn (vre : VRE σ) {db : SqliteRepository} (h : db.Sound)
    (call : LearningEngine.LearnCall) :
    ((learn call).step vre db).2 = db ∨ ∃ p,
      LearningEngine.Learned call.draw db.tables call.gap call.candidate p ∧
        Sqlite.Accepts db.tables p ∧
        ((learn call).step vre db).2 = ⟨db.tables.replace p.toRow p.toRelata, none⟩ := by
  have houtcome := LearningEngine.learnGap_outcome h.2.toSchema call.draw call.gap call.candidate
  rw [← h.eq_idle] at houtcome
  rcases houtcome with ⟨exc, herror⟩ | ⟨p, hp, haccepts, hok⟩
  · apply Or.inl
    simp only [step, LearningEngine.LearnCall.step, herror]
  · apply Or.inr
    refine ⟨p, hp, haccepts, ?_⟩
    simp only [step, LearningEngine.LearnCall.step, hok]

theorem grows_of_added {t t' : Tables} {gap : KnowledgeGap} {candidate : LearningCandidate}
    (h : LearningEngine.Added t t' gap candidate) (hrelata : t.relata.Subperm t'.relata) :
    t.Grows t' := by
  have hrefl := (Tables.Grows.refl t).live
  refine ⟨?_, hrelata⟩
  intro id q hq
  cases h with
  | existence hnew _ hlive =>
      rw [hlive id]
      split
      · rename_i hid
        rw [hid, hnew] at hq
        cases hq
      · exact hrefl id q hq
  | fill _ hold hfilled hlive =>
      rw [hlive id]
      split
      · rename_i hid
        rw [hid, hfilled.id, hold] at hq
        cases hq
        refine ⟨_, rfl, hfilled.name, ?_⟩
        intro d hd hgrounds
        exact ⟨d, hfilled.kept d hd hgrounds, rfl, rfl, List.Subset.refl _⟩
      · exact hrefl id q hq
  | edge _ _ hold hlinked hlive =>
      rw [hlive id]
      split
      · rename_i hid
        rw [hid, hlinked.id, hold] at hq
        cases hq
        refine ⟨_, rfl, hlinked.name, ?_⟩
        intro d hd hgrounds
        obtain ⟨d', hd', hlevel, hproperties, -, hrelata⟩ :=
          hlinked.retains.depths d hd hgrounds
        exact ⟨d', hd', hlevel, hproperties, hrelata⟩
      · exact hrefl id q hq

theorem step_additive (vre : VRE σ) {db : SqliteRepository} (h : db.Sound) {request : Request}
    (hadds : request.Additive db) :
    (request.step vre db).2.Sound ∧ db.tables.Grows (request.step vre db).2.tables := by
  cases request with
  | check draw concepts minDepth =>
      obtain ⟨t', hstep, hsame⟩ := step_check vre h draw concepts minDepth
      rw [hstep]
      exact ⟨⟨rfl, h.2.sameKnowledge hsame⟩, (hsame.extends h.2.toSchema).grows⟩
  | learn call =>
      rcases step_learn vre h call with hsame | ⟨p, hp, haccepts, hstep⟩
      · rw [hsame]
        exact ⟨h, .refl _⟩
      · rw [hstep]
        exact ⟨⟨rfl, h.2.replace haccepts⟩,
          grows_of_added (hp.added h.2.toSchema hadds haccepts)
            (hp.subperm_relata h.2 hadds haccepts)⟩
  | store call => exact hadds.elim
  | placements =>
      have hsame : (placements.step vre db).2 = db := by
        simp only [step]
        split <;> rfl
      rw [hsame]
      exact ⟨h, .refl _⟩

theorem serve_additive (vre : VRE σ) {db : SqliteRepository} (h : db.Sound)
    {requests : List Request} (hadds : Runs.EveryStep (step vre) Additive db requests) :
    (serve vre db requests).Sound ∧ db.tables.Grows (serve vre db requests).tables := by
  have hstates : Runs.EveryState (step vre)
      (fun db' => db'.Sound ∧ db.tables.Grows db'.tables) db requests := by
    apply Runs.everyState_of_everyStep ?_ ⟨h, .refl _⟩ hadds
    intro db' request hbefore hadds
    obtain ⟨hsound, hgrows⟩ := step_additive vre hbefore.1 hadds
    exact ⟨hsound, hbefore.2.trans hgrows⟩
  exact hstates.last

/-- What places no relatum leaves those of the store. -/
theorem step_placesNone (vre : VRE σ) {db : SqliteRepository} (h : db.Sound) {request : Request}
    (hadds : request.Additive db) (hnone : request.PlacesNone) :
    db.tables.Extends (request.step vre db).2.tables := by
  cases request with
  | check draw concepts minDepth =>
      obtain ⟨t', hstep, hsame⟩ := step_check vre h draw concepts minDepth
      rw [hstep]
      exact hsame.extends h.2.toSchema
  | learn call =>
      rcases step_learn vre h call with hsame | ⟨p, hp, haccepts, hstep⟩
      · rw [hsame]
        exact .refl _
      · rw [hstep]
        exact hp.extends h.2 hnone hadds haccepts
  | store call => exact hadds.elim
  | placements =>
      have hsame : (placements.step vre db).2 = db := by
        simp only [step]
        split <;> rfl
      rw [hsame]
      exact .refl _

theorem serve_placesNone (vre : VRE σ) {db : SqliteRepository} (h : db.Sound)
    {requests : List Request} (hadds : Runs.EveryStep (step vre) Additive db requests)
    (hnone : ∀ request ∈ requests, request.PlacesNone) :
    db.tables.Extends (serve vre db requests).tables := by
  induction requests generalizing db with
  | nil => exact .refl _
  | cons request rest ih =>
      have hstep := step_placesNone vre h hadds.1 (hnone request List.mem_cons_self)
      have hsound := (step_additive vre h hadds.1).1
      exact hstep.trans (ih hsound hadds.2 fun r hr => hnone r (List.mem_cons_of_mem request hr))

end Request

namespace SplitRead

section

variable {σ : Type} [NameFolding]

/-- A read that other connections meet with requests between its statements. -/
def during (vre : VRE σ) (db : SqliteRepository) (first second : List Request) : SplitRead :=
  ⟨db.tables, (Request.serve vre db first).tables,
    Request.serve vre (Request.serve vre db first) second⟩

theorem growing_during (vre : VRE σ) {db : SqliteRepository} (h : db.Sound)
    {first second : List Request} (hadds : Runs.EveryStep (Request.step vre) Request.Additive db
      (first ++ second)) : (during vre db first second).Growing := by
  obtain ⟨hfirst, hsecond⟩ := Runs.everyStep_append.mp hadds
  obtain ⟨hsound, hgrows⟩ := Request.serve_additive vre h hfirst
  obtain ⟨hsound', hgrows'⟩ := Request.serve_additive vre hsound hsecond
  exact ⟨h.2, hsound.2, hsound', hgrows, hgrows'⟩

/-- A check whose statements other agents' requests come between never fails. When it is
grounded, a check after any more of their requests is grounded exactly when every relatum of
its closure that the statements did not see is satisfied. -/
theorem grounded_later_iff (vre : VRE σ) {db : SqliteRepository} (h : db.Sound)
    {first second later : List Request} (hadds : Runs.EveryStep (Request.step vre)
      Request.Additive db (first ++ second ++ later)) (concepts : List String)
    (minDepth : Option DepthLevel) (draw after : Draw) :
    let reader := during vre db first second
    let db' := Request.serve vre reader.file later
    ∃ r sg r', GroundingEngine.ground draw reader concepts minDepth = .ok r ∧
      Repository.resolveSubgraph db' concepts = .ok sg ∧
      GroundingEngine.ground after db' concepts minDepth = .ok r' ∧
      (r.grounded = true → (r'.grounded = true ↔ ∀ rel ∈ db'.tables.relata,
        db'.tables.InClosure concepts rel.sourceId → db'.tables.InClosure concepts rel.targetId →
          rel ∉ (reader.seen concepts).relata →
            Meets (sg.depthAt rel.sourceId) rel.sourceDepth ∧
              Meets (sg.depthAt rel.targetId) rel.targetDepth)) := by
  intro reader db'
  obtain ⟨hduring, hlater⟩ := Runs.everyStep_append.mp hadds
  have hreader : reader.Growing := growing_during vre h hduring
  have hafter : reader.file = Request.serve vre db (first ++ second) :=
    (Request.serve_append vre db first second).symm
  have hlater : Runs.EveryStep (Request.step vre) Request.Additive reader.file later := by
    rw [hafter]
    exact hlater
  obtain ⟨hsound', hgrows⟩ := Request.serve_additive vre hreader.file hlater
  have hschema : (⟨reader.seen concepts, none⟩ : SqliteRepository).tables.Schema :=
    hreader.schema_seen concepts
  obtain ⟨sg, r, hsg, hr, hiff⟩ :=
    GroundingEngine.ground_grounded_iff hschema draw concepts minDepth
  obtain ⟨sg', r', hsg', hr', hiff'⟩ :=
    GroundingEngine.ground_grounded_iff hsound'.2.toSchema after concepts minDepth
  rw [← hreader.ground_eq_seen] at hr
  refine ⟨r, sg', r', hr, hsg', hr', ?_⟩
  intro hgrounded
  have hwidens : Tables.Widens concepts (reader.seen concepts) db'.tables :=
    hreader.seen_widens hsound'.2 (hreader.second.trans hgrows)
      (fun _ hrel => hgrows.relata.subset hrel) concepts
  have hstrict := hiff.mp hgrounded
  cases hsg.symm.trans (resolveSubgraph_eq hschema concepts)
  cases hsg'.symm.trans (resolveSubgraph_eq hsound'.2.toSchema concepts)
  rw [hiff', hwidens.closureStrict_iff hschema hsound'.2.toSchema hstrict]
  have hseen : ∀ rel, rel ∈ (reader.seen concepts).closureRelata concepts ↔
      rel ∈ (reader.seen concepts).relata := by
    intro rel
    rw [Tables.mem_closureRelata, hreader.inClosure_seen, hreader.inClosure_seen,
      and_iff_left_iff_imp]
    intro hrel
    exact (mem_seen_relata.mp hrel).2
  constructor
  · intro hgained rel hrel hsource htarget hnot
    exact hgained rel (Tables.mem_closureRelata.mpr ⟨hrel, hsource, htarget⟩)
      fun hin => hnot ((hseen rel).mp hin)
  · intro hgained rel hrel hnot
    obtain ⟨hmem, hsource, htarget⟩ := Tables.mem_closureRelata.mp hrel
    exact hgained rel hmem hsource htarget fun hin => hnot ((hseen rel).mpr hin)

end

section

open LearningEngine

/-- `Write` requires `File` deeper than it is, and `Copy` requires `Disk` deeper than that is. -/
def shallowFile [NameFolding] : SqliteRepository :=
  List.foldl Operation.next .fresh
    [.save ⟨0, "File", [⟨.existence, [], [], some authored⟩,
        ⟨.identity, [("kind", .json "1")], [], some authored⟩], some authored, none⟩,
      .save (sample 1 "Write" [.existence] [⟨.requires, 0, .capabilities, [], some authored⟩]),
      .save (sample 2 "Disk" [.existence] []),
      .save (sample 3 "Copy" [.existence] [⟨.requires, 2, .identity, [], some authored⟩])]

/-- `File` is made to require `Copy`, and then filled. -/
def linkThenFill : List Request :=
  [.learn ⟨⟨fun i => i + 9, 0⟩, .reachability ⟨sample 0 "File" [.existence] []⟩,
      .reachability ⟨some "file", some "copy", some .requires, some .existence, some .existence⟩⟩,
    .learn (fillAndCreate true)]

/-- A check that both requests come into is grounded, which the store is at no moment. -/
theorem grounded_later_iff_linkThenFill : letI := asciiFolding
    (∃ r, GroundingEngine.ground ⟨fun i => i + 9, 0⟩
        (during (⟨.new, none⟩ : VRE Unit) shallowFile linkThenFill []) ["write"] none = .ok r ∧
      r.grounded = true) ∧
      ∀ n ≤ 2, (GroundingEngine.ground ⟨fun i => i + 9, 0⟩ (Request.serve (⟨.new, none⟩ : VRE Unit)
        shallowFile (linkThenFill.take n)) ["write"] none).map GroundingResult.grounded =
          .ok false := by
  let _ := asciiFolding
  have hsound : shallowFile.Sound := Operation.sound_foldl _
  have hadds : Runs.EveryStep (Request.step (⟨.new, none⟩ : VRE Unit)) Request.Additive
      shallowFile (linkThenFill ++ [] ++ []) := by
    simp only [linkThenFill, List.append_nil, Runs.EveryStep, Request.Additive,
      Tables.stored_iff_mem]
    decide +kernel
  have hsplit : (GroundingEngine.ground ⟨fun i => i + 9, 0⟩
      (during (⟨.new, none⟩ : VRE Unit) shallowFile linkThenFill []) ["write"] none).map
        GroundingResult.grounded = .ok true := by decide +kernel
  obtain ⟨r, sg, r', hr, -⟩ := grounded_later_iff (⟨.new, none⟩ : VRE Unit) hsound hadds ["write"]
    none ⟨fun i => i + 9, 0⟩ ⟨fun i => i + 9, 0⟩
  rw [hr] at hsplit
  exact ⟨⟨r, hr, Except.ok.inj hsplit⟩, by decide +kernel⟩

end

section

variable {σ : Type} [NameFolding]

/-- When the requests in between place no relatum, the check lies between those at its first
and at its second statement: grounded if the one is, and only if the other is. -/
theorem grounded_between (vre : VRE σ) {db : SqliteRepository} (h : db.Sound)
    {first second : List Request} (hadds : Runs.EveryStep (Request.step vre) Request.Additive db
      (first ++ second)) (hnone : ∀ request ∈ first ++ second, request.PlacesNone)
    (concepts : List String) (minDepth : Option DepthLevel) (before draw after : Draw) :
    ∃ r₁ r r₂, GroundingEngine.ground before db concepts minDepth = .ok r₁ ∧
      GroundingEngine.ground draw (during vre db first second) concepts minDepth = .ok r ∧
      GroundingEngine.ground after (Request.serve vre db first) concepts minDepth = .ok r₂ ∧
      (r₁.grounded = true → r.grounded = true) ∧ (r.grounded = true → r₂.grounded = true) := by
  have hreader := growing_during vre h hadds
  obtain ⟨hfirst, hsecond⟩ := Runs.everyStep_append.mp hadds
  have hsound := (Request.serve_additive vre h hfirst).1
  have hextends := Request.serve_placesNone vre h hfirst
    fun request hrequest => hnone request (List.mem_append_left _ hrequest)
  have hextends' := Request.serve_placesNone vre hsound hsecond
    fun request hrequest => hnone request (List.mem_append_right _ hrequest)
  have hschema : (⟨(during vre db first second).seen concepts, none⟩ :
      SqliteRepository).tables.Schema := hreader.schema_seen concepts
  obtain ⟨sg₁, r₁, hsg₁, hr₁, hiff₁⟩ :=
    GroundingEngine.ground_grounded_iff h.2.toSchema before concepts minDepth
  obtain ⟨sg, r, hsg, hr, hiff⟩ :=
    GroundingEngine.ground_grounded_iff hschema draw concepts minDepth
  obtain ⟨sg₂, r₂, hsg₂, hr₂, hiff₂⟩ :=
    GroundingEngine.ground_grounded_iff hsound.2.toSchema after concepts minDepth
  cases hsg₁.symm.trans (resolveSubgraph_eq h.2.toSchema concepts)
  cases hsg.symm.trans (resolveSubgraph_eq hschema concepts)
  cases hsg₂.symm.trans (resolveSubgraph_eq hsound.2.toSchema concepts)
  rw [← hreader.ground_eq_seen] at hr
  refine ⟨r₁, r, r₂, hr₁, hr, hr₂, ?_, ?_⟩
  · intro hgrounded
    have hstrict := hiff₁.mp hgrounded
    apply hiff.mpr
    apply ((hreader.widens_seen concepts).closureStrict_iff h.2.toSchema hschema hstrict).mpr
    intro rel hrel hnot
    obtain ⟨hmem, hends⟩ := mem_seen_relata.mp (Tables.mem_closureRelata.mp hrel).1
    have hold : rel ∈ db.tables.relata :=
      hextends.relata.mem_iff.mp (hextends'.relata.mem_iff.mp hmem)
    exact absurd (Tables.mem_closureRelata.mpr ⟨hold, hends⟩) hnot
  · intro hgrounded
    have hstrict := hiff.mp hgrounded
    have hwidens := hreader.seen_widens hsound.2 (.refl _)
      (fun rel hrel => hextends'.relata.mem_iff.mp hrel) concepts
    have hnames := hreader.names_reachable hextends hstrict.stored
    have hback : ∀ id, (Request.serve vre db first).tables.InClosure concepts id →
        db.tables.InClosure concepts id := by
      intro id hid
      have hstored := hextends.stored_of_inClosure h.2.toSchema hsound.2.toSchema hnames hid
      exact (hextends.inClosure_iff h.2.toSchema hsound.2.toSchema hstored).mp hid
    apply hiff₂.mpr
    apply (hwidens.closureStrict_iff hschema hsound.2.toSchema hstrict).mpr
    intro rel hrel hnot
    obtain ⟨hmem, hsource, htarget⟩ := Tables.mem_closureRelata.mp hrel
    have hends := And.intro (hback _ hsource) (hback _ htarget)
    have hseen : rel ∈ ((during vre db first second).seen concepts).relata :=
      mem_seen_relata.mpr ⟨hextends'.relata.mem_iff.mpr hmem, hends⟩
    apply absurd _ hnot
    apply Tables.mem_closureRelata.mpr
    exact ⟨hseen, hreader.inClosure_seen.mpr hends.1, hreader.inClosure_seen.mpr hends.2⟩

end

theorem grounded_between_fillAndCreate : letI := asciiFolding
    ∃ r, GroundingEngine.ground ⟨fun i => i + 20, 0⟩ (during (⟨.new, none⟩ : VRE Unit)
        GroundingEngine.writeFile [.learn (LearningEngine.fillAndCreate true)]
        [.learn (LearningEngine.fillAndCreate false)]) ["write"] none = .ok r ∧
      r.grounded = true := by
  let _ := asciiFolding
  have hsound := GroundingEngine.sound_writeFile
  have hgrounded : (GroundingEngine.ground ⟨fun i => i + 20, 0⟩ GroundingEngine.writeFile ["write"]
      none).map GroundingResult.grounded = .ok true := by decide +kernel
  have hadds : Runs.EveryStep (Request.step (⟨.new, none⟩ : VRE Unit)) Request.Additive
      GroundingEngine.writeFile ([.learn (LearningEngine.fillAndCreate true)] ++
        [.learn (LearningEngine.fillAndCreate false)]) := by
    simp only [List.singleton_append, Runs.EveryStep, Request.Additive, Tables.stored_iff_mem]
    decide +kernel
  have hnone : ∀ request ∈ [Request.learn (LearningEngine.fillAndCreate true)] ++
      [.learn (LearningEngine.fillAndCreate false)], request.PlacesNone := by
    simp [Request.PlacesNone, LearningEngine.fillAndCreate, KnowledgeGap.kind]
  obtain ⟨r₁, r, -, hr₁, hr, -, hkeeps, -⟩ := grounded_between (⟨.new, none⟩ : VRE Unit) hsound
    hadds hnone ["write"] none ⟨fun i => i + 20, 0⟩ ⟨fun i => i + 20, 0⟩ ⟨fun i => i + 20, 0⟩
  rw [hr₁] at hgrounded
  exact ⟨r, hr, hkeeps (Except.ok.inj hgrounded)⟩

end SplitRead

end Vre
