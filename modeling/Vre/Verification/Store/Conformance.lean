import Vre.Verification.Store.Neo4j
import Vre.Verification.Store.Runs

/-! # The two backends under the same calls

The two backends keep the same records and answer the same reads, until a call saves a
relatum whose target is not stored: the one refuses it, the other drops it.
-/

namespace Vre

/-! ## The reads -/

namespace Tables

theorem findById_toGraph [NameFolding] (t : Tables) (id : UUID) :
    Repository.findById t.toGraph id = Repository.findById (⟨t, none⟩ : SqliteRepository) id := rfl

theorem findByName_toGraph [NameFolding] {t : Tables} (h : t.Schema) (name : String) :
    Repository.findByName t.toGraph name =
      Repository.findByName (⟨t, none⟩ : SqliteRepository) name := by
  change Neo4j.findByName t.toGraph name = Sqlite.findByName ⟨t, none⟩ name
  have hhead := List.head?_filter (p := fun row : PrimitiveRow => row.nameLower = foldName name)
    (l := t.primitives)
  have hkey : ∀ row ∈ t.primitives.filter fun row => row.nameLower = foldName name,
      row.nameLower = foldName name := by
    intro row hrow
    simpa using (List.mem_filter.mp hrow).2
  have hnodup : ((t.primitives.filter fun row => row.nameLower = foldName name).map
      PrimitiveRow.nameLower).Nodup := h.nodup_names.sublist (List.filter_sublist.map _)
  unfold Neo4j.findByName Sqlite.findByName
  simp only [toGraph]
  rw [← hhead]
  generalize t.primitives.filter (fun row => decide (row.nameLower = foldName name)) = found
    at hkey hnodup ⊢
  rcases found with _ | ⟨first, _ | ⟨second, rest⟩⟩
  · rfl
  · rfl
  · have hfirst := hkey first (by simp)
    have hsecond := hkey second (by simp)
    simp [hfirst, hsecond] at hnodup

/-- The relata of a node, found by way of the edges listed node by node. -/
theorem inner_eq_filter [NameFolding] {t : Tables} (h : t.Schema) {names : List String}
    {row : PrimitiveRow} (hrow : row ∈ t.primitives)
    (hid : row.id ∈ Sqlite.reachableIds t names) :
    (((t.primitives.filter fun node => node.id ∈ Sqlite.reachableIds t names).flatMap fun src =>
      t.relata.filter fun r => r.sourceId = src.id ∧
        r.targetId ∈ Sqlite.reachableIds t names).filter fun r => r.sourceId = row.id) =
      t.inner names row.id := by
  have hmem : row ∈ t.primitives.filter fun node => node.id ∈ Sqlite.reachableIds t names :=
    List.mem_filter.mpr ⟨hrow, decide_eq_true hid⟩
  obtain ⟨before, after, hsplit⟩ := List.append_of_mem hmem
  have hids : ((before ++ row :: after).map PrimitiveRow.id).Nodup :=
    hsplit ▸ h.nodup_ids.sublist (List.filter_sublist.map _)
  have hothers : ∀ src ∈ before ++ after, src.id ≠ row.id := by
    intro src hsrc heq
    rw [List.map_append, List.map_cons, List.nodup_middle, List.nodup_cons] at hids
    exact hids.1 (heq ▸ List.map_append ▸ List.mem_map_of_mem hsrc)
  have hnone : ∀ src ∈ before ++ after, (t.relata.filter fun r => r.sourceId = src.id ∧
      r.targetId ∈ Sqlite.reachableIds t names).filter (fun r => r.sourceId = row.id) = [] := by
    intro src hsrc
    refine List.filter_eq_nil_iff.mpr fun r hr heq => hothers src hsrc ?_
    have hsource := (of_decide_eq_true (List.mem_filter.mp hr).2).1
    exact hsource.symm.trans (of_decide_eq_true heq)
  rw [hsplit, List.flatMap_append, List.flatMap_cons, List.filter_append, List.filter_append,
    List.filter_flatMap, List.filter_flatMap,
    List.flatMap_eq_nil_iff.mpr fun src hsrc => hnone src (List.mem_append_left _ hsrc),
    List.flatMap_eq_nil_iff.mpr fun src hsrc => hnone src (List.mem_append_right _ hsrc),
    List.nil_append, List.append_nil, inner, outgoing, List.filter_filter, List.filter_filter]
  apply List.filter_congr
  intro r _
  by_cases hsource : r.sourceId = row.id <;> simp [hsource]

/-- The nodes list the same edges as the table, in another order. -/
theorem perm_edges [NameFolding] {t : Tables} (h : t.Schema) (names : List String) :
    ((t.primitives.filter fun node => node.id ∈ Sqlite.reachableIds t names).flatMap fun src =>
      t.relata.filter fun r => r.sourceId = src.id ∧
        r.targetId ∈ Sqlite.reachableIds t names).Perm (t.closureRelata names) := by
  let nodes := t.primitives.filter fun node => node.id ∈ Sqlite.reachableIds t names
  have hids : (nodes.map PrimitiveRow.id).Nodup :=
    h.nodup_ids.sublist (List.filter_sublist.map _)
  have hcover : ∀ rel ∈ t.closureRelata names, rel.sourceId ∈ nodes.map PrimitiveRow.id := by
    intro rel hrel
    obtain ⟨-, hsource, -⟩ := mem_closureRelata.mp hrel
    obtain ⟨row, hrow, hid⟩ := hsource.stored h
    refine List.mem_map.mpr ⟨row, List.mem_filter.mpr ⟨hrow, decide_eq_true ?_⟩, hid⟩
    exact hid ▸ mem_reachableIds.mpr hsource
  have hgroups := OrderedDict.perm_flatMap_filter RelatumRow.sourceId hids hcover
  rw [List.flatMap_map] at hgroups
  refine List.Perm.trans (List.Perm.of_eq ?_) hgroups
  apply List.flatMap_congr
  intro src hsrc
  have hinside : src.id ∈ Sqlite.reachableIds t names :=
    of_decide_eq_true (List.mem_filter.mp hsrc).2
  rw [closureRelata, List.filter_filter]
  apply List.filter_congr
  intro r _
  by_cases hsource : r.sourceId = src.id <;> simp [hsource, hinside]

/-- The named records are the roots of the subgraph, each read with its inner relata. -/
theorem roots_subgraph [NameFolding] {t : Tables} (h : t.Schema) (names : List String) :
    (t.subgraph names).roots =
      (t.primitives.filter fun row => row.nameLower ∈ names.map foldName).map
        (t.nodeRow names) := by
  simp only [subgraph, closureNodes, List.filter_map, List.filter_filter]
  refine congrArg (List.map (t.nodeRow names)) (List.filter_congr fun row hrow => ?_)
  rw [Function.comp_apply, h.nameLower_nodeRow names hrow]
  by_cases hname : row.nameLower ∈ names.map foldName
  · have hnamed : t.Named names row.id := ⟨row, hrow, rfl, hname⟩
    have hmem := mem_reachableIds.mpr hnamed.inClosure
    simp only [hname, hmem, decide_true, Bool.and_self]
  · simp only [hname, decide_false, Bool.false_and]

/-- Both backends resolve the same roots, nodes and edges. -/
theorem resolveSubgraph_toGraph [NameFolding] {t : Tables} (h : t.Schema) (names : List String) :
    ∃ edges, Repository.resolveSubgraph t.toGraph names =
        .ok ⟨(t.subgraph names).roots, (t.subgraph names).nodes, edges⟩ ∧
      edges.Perm (t.subgraph names).edges := by
  let roots := t.primitives.filter fun row => row.nameLower ∈ names.map foldName
  let nodes := t.primitives.filter fun node => node.id ∈ Sqlite.reachableIds t names
  let edges := nodes.flatMap fun src => t.relata.filter fun r => r.sourceId = src.id ∧
    r.targetId ∈ Sqlite.reachableIds t names
  let hydrate : PrimitiveRow → Except PyException Primitive := fun row =>
    hydratePrimitive row (((OrderedDict.groupBy RelatumRow.sourceId edges).get? row.id).getD [])
  by_cases hroots : roots = []
  · have hempty : t.subgraph names = ⟨[], [], []⟩ := by
      apply subgraph_eq_empty
      rintro id ⟨root, ⟨row, hrow, -, hname⟩, -⟩
      have hmem : row ∈ roots := List.mem_filter.mpr ⟨hrow, decide_eq_true hname⟩
      rw [hroots] at hmem
      cases hmem
    rw [hempty]
    exact ⟨[], if_pos (List.isEmpty_iff.mpr hroots), .refl _⟩
  · have hhydrate : ∀ row ∈ t.primitives, row.id ∈ Sqlite.reachableIds t names →
        hydrate row = .ok (t.nodeRow names row) := by
      intro row hrow hid
      simp only [hydrate, edges, nodes]
      rw [OrderedDict.getD_groupBy, inner_eq_filter h hrow hid]
      exact hydratePrimitive_eq (h.stamped_rows row hrow) fun rel hrel =>
        h.stamped_relata rel (mem_inner.mp hrel).1
    have hnodes : nodes.mapM hydrate = .ok (t.closureNodes names) :=
      Loops.except_mapM_eq_ok fun row hrow => hhydrate row (List.mem_filter.mp hrow).1
        (of_decide_eq_true (List.mem_filter.mp hrow).2)
    have hnamed : roots.mapM hydrate = .ok (t.subgraph names).roots := by
      rw [roots_subgraph h]
      apply Loops.except_mapM_eq_ok
      intro row hrow
      obtain ⟨hmem, hname⟩ := List.mem_filter.mp hrow
      have hroot : t.Named names row.id := ⟨row, hmem, rfl, of_decide_eq_true hname⟩
      exact hhydrate row hmem (mem_reachableIds.mpr hroot.inClosure)
    refine ⟨edges.map RelatumRow.toStep, ?_, (perm_edges h names).map _⟩
    refine (if_neg fun hnil => hroots (List.isEmpty_iff.mp hnil)).trans ?_
    exact Loops.except_bind_ok.mpr ⟨_, hnamed, Loops.except_bind_ok.mpr ⟨_, hnodes, rfl⟩⟩

end Tables

/-! ## Calls -/

/-- A call that writes primitives to a repository. -/
inductive StoreCall where
  | save (primitive : Primitive)
  | upsert (primitive : Primitive)
  | delete (id : UUID)
  | clear

namespace StoreCall

variable {ρ : Type} [Repository ρ]

def run : StoreCall → Action ρ Unit
  | save primitive => Repository.savePrimitive primitive
  | upsert primitive => do
      let _ ← upsertPrimitive primitive
      return ()
  | delete id => do
      let _ ← (Repository.deletePrimitive id : Action ρ Bool)
      return ()
  | clear => do
      let _ ← (Repository.clear : Action ρ ℕ)
      return ()

/-- The class of the error that the call raises, if any, and the store it leaves. -/
def step (repo : ρ) (call : StoreCall) : Option ErrorClass × ρ :=
  match (call.run : Action ρ Unit) repo with
  | .ok _ repo' => (none, repo')
  | .error exc repo' => (some exc.cls, repo')

theorem step_of_ok {repo repo' : ρ} {call : StoreCall}
    (h : (call.run : Action ρ Unit) repo = .ok () repo') : call.step repo = (none, repo') := by
  simp only [step, h]

theorem step_of_error {repo repo' : ρ} {call : StoreCall} {exc : PyException}
    (h : (call.run : Action ρ Unit) repo = .error exc repo') :
    call.step repo = (some exc.cls, repo') := by
  simp only [step, h]

/-- An upsert takes the step of the save that it comes down to. -/
theorem step_upsert {repo : ρ} {p canonical : Primitive} (h : upsertPrimitive p repo =
    (do Repository.savePrimitive canonical; return canonical : Action ρ Primitive) repo) :
    (upsert p).step repo = (save canonical).step repo := by
  cases hsave : (Repository.savePrimitive canonical : Action ρ Unit) repo with
  | ok u repo' =>
      have hcall : (save canonical).step repo = (none, repo') := step_of_ok hsave
      rw [hcall]
      exact step_of_ok (Loops.bind_of_ok (h.trans (Loops.bind_of_ok hsave)))
  | error exc repo' =>
      have hcall : (save canonical).step repo = (some exc.cls, repo') := step_of_error hsave
      rw [hcall]
      exact step_of_error (Loops.bind_of_error (h.trans (Loops.bind_of_error hsave)))

end StoreCall

/-! ## Saves -/

/-- A save that nothing else refuses has all its targets stored. -/
def Tables.Conforms [NameFolding] (t : Tables) (p : Primitive) : Prop :=
  p.Storable → t.NameFree p.toRow → t.NoCycle p.id p.toRelata → t.TargetsStored p.id p.toRelata

namespace Neo4j

/-- What SQLite accepts, Neo4j saves to the same records. -/
theorem savePrimitive_of_accepts [NameFolding] {t : Tables} (h : t.Schema) {p : Primitive}
    (hp : Sqlite.Accepts t p) :
    savePrimitive p t.toGraph = .ok () (t.replace p.toRow p.toRelata).toGraph := by
  rcases savePrimitive_cases p h.sources with
    ⟨-, -, -, created, htargets, hok⟩ | ⟨exc, -, hserialize | ⟨-, hname, -⟩ | ⟨-, -, hcycle, -⟩⟩
  · rw [hok, htargets hp.targets]
  · cases (serialize_eq hp.storable).symm.trans hserialize
  · exact absurd hp.name_free hname
  · exact absurd hp.no_cycle hcycle

/-- What SQLite refuses for another reason than a missing target, Neo4j refuses with an error
of the same class. -/
theorem savePrimitive_of_refusal [NameFolding] {t : Tables} (h : t.Schema) {p : Primitive}
    (hconforms : t.Conforms p) {exc : PyException} (hrefusal : Sqlite.Refusal t p exc) :
    ∃ exc', savePrimitive p t.toGraph = .error exc' t.toGraph ∧ exc'.cls = exc.cls := by
  rcases savePrimitive_cases p h.sources with
    ⟨hp, hname, hcycle, -⟩ | ⟨exc', herror, hwhy⟩
  · cases hrefusal with
    | serialize hserialize => cases (serialize_eq hp).symm.trans hserialize
    | name _ htaken => exact absurd hname htaken
    | cycle _ _ hclosed => exact absurd hcycle hclosed
    | target _ _ _ habsent => exact absurd (hconforms hp hname hcycle) habsent
  · refine ⟨exc', herror, ?_⟩
    rcases hwhy with hserialize | ⟨hp, htaken, hcls⟩ | ⟨hp, hname, hclosed, hcls⟩
    · cases hrefusal with
      | serialize hserialize' => rw [Except.error.inj (hserialize.symm.trans hserialize')]
      | name hp => cases (serialize_eq hp).symm.trans hserialize
      | cycle hp => cases (serialize_eq hp).symm.trans hserialize
      | target hp => cases (serialize_eq hp).symm.trans hserialize
    · cases hrefusal with
      | serialize hserialize => cases (serialize_eq hp).symm.trans hserialize
      | name _ _ hcls' => exact hcls.trans hcls'.symm
      | cycle _ hname => exact absurd hname htaken
      | target _ hname => exact absurd hname htaken
    · cases hrefusal with
      | serialize hserialize => cases (serialize_eq hp).symm.trans hserialize
      | name _ htaken => exact absurd hname htaken
      | cycle _ _ _ hcls' => exact hcls.trans hcls'.symm
      | target _ _ hcycle => exact absurd hcycle hclosed

/-- A save that only a missing target refuses goes through in Neo4j. -/
theorem savePrimitive_of_not_conforms [NameFolding] {t : Tables} (h : t.Schema) {p : Primitive}
    (hbad : ¬ t.Conforms p) :
    (∃ graph, savePrimitive p t.toGraph = .ok () graph) ∧ ¬ Sqlite.Accepts t p := by
  unfold Tables.Conforms at hbad
  push Not at hbad
  obtain ⟨hp, hname, hcycle, habsent⟩ := hbad
  refine ⟨?_, fun haccepts => habsent haccepts.targets⟩
  rcases savePrimitive_cases p h.sources with
    ⟨-, -, -, created, -, hok⟩ | ⟨exc, -, hserialize | ⟨-, htaken, -⟩ | ⟨-, -, hclosed, -⟩⟩
  · exact ⟨_, hok⟩
  · cases (serialize_eq hp).symm.trans hserialize
  · exact absurd hname htaken
  · exact absurd hcycle hclosed

end Neo4j

/-! ## Runs -/

/-- The two stores hold the same well-formed records. -/
def Mirrors [NameFolding] (db : SqliteRepository) (graph : Neo4jRepository) : Prop :=
  db.Sound ∧ graph = db.tables.toGraph

/-- Every read returns the same from both stores; the edges of a subgraph are compared without
their order. -/
structure SameReads [NameFolding] (db : SqliteRepository) (graph : Neo4jRepository) : Prop where
  byId : ∀ id, Repository.findById graph id = Repository.findById db id
  byName : ∀ name, Repository.findByName graph name = Repository.findByName db name
  subgraph : ∀ names, ∃ sg edges, Repository.resolveSubgraph db names = .ok sg ∧
    Repository.resolveSubgraph graph names = .ok ⟨sg.roots, sg.nodes, edges⟩ ∧ edges.Perm sg.edges

theorem Mirrors.sameReads [NameFolding] {db : SqliteRepository} {graph : Neo4jRepository}
    (h : Mirrors db graph) : SameReads db graph := by
  obtain ⟨hsound, rfl⟩ := h
  have hschema := hsound.2.toSchema
  rw [hsound.eq_idle]
  refine ⟨Tables.findById_toGraph _, Tables.findByName_toGraph hschema, fun names => ?_⟩
  obtain ⟨edges, hresolve, hperm⟩ := Tables.resolveSubgraph_toGraph hschema names
  exact ⟨_, edges, resolveSubgraph_eq hschema names, hresolve, hperm⟩

/-- The condition on one call: what it saves has no missing target but for a save that is
refused anyway. -/
def StoreCall.Conforms [NameFolding] (db : SqliteRepository) : StoreCall → Prop
  | save primitive => db.tables.Conforms primitive
  | upsert primitive => db.tables.Conforms (db.tables.canonical primitive)
  | delete _ => True
  | clear => True

/-- An upsert saves the canonical primitive in both backends. -/
theorem Mirrors.step_upsert [NameFolding] {db : SqliteRepository} {graph : Neo4jRepository}
    (h : Mirrors db graph) (p : Primitive) :
    (StoreCall.upsert p).step db = (StoreCall.save (db.tables.canonical p)).step db ∧
    (StoreCall.upsert p).step graph = (StoreCall.save (db.tables.canonical p)).step graph := by
  obtain ⟨hsound, rfl⟩ := h
  have hschema := hsound.2.toSchema
  have hname := findByName_eq hschema p.name
  have hgraph := (Tables.findByName_toGraph hschema p.name).trans
    (hsound.eq_idle ▸ hname : Repository.findByName (⟨db.tables, none⟩ : SqliteRepository) p.name =
      .ok (db.tables.named p.name))
  exact ⟨StoreCall.step_upsert (Loops.bind_of_ok (Action.read_of_ok hname)),
    StoreCall.step_upsert (Loops.bind_of_ok (Action.read_of_ok hgraph))⟩

/-- A conforming save has the same outcome in both stores, and they hold the same after it. -/
theorem Mirrors.step_save [NameFolding] {db : SqliteRepository} {graph : Neo4jRepository}
    (h : Mirrors db graph) {p : Primitive} (hconforms : db.tables.Conforms p) :
    ((StoreCall.save p).step db).1 = ((StoreCall.save p).step graph).1 ∧
      Mirrors ((StoreCall.save p).step db).2 ((StoreCall.save p).step graph).2 := by
  obtain ⟨hsound, rfl⟩ := h
  obtain ⟨t, savepoint⟩ := db
  obtain ⟨rfl, hwell⟩ := hsound
  rcases Sqlite.savePrimitive_cases p t with ⟨haccepts, hok⟩ | ⟨exc, hrefusal, herror⟩
  · have hdb : (StoreCall.save p).step (⟨t, none⟩ : SqliteRepository) = (none, _) :=
      StoreCall.step_of_ok hok
    have hgraph : (StoreCall.save p).step t.toGraph = (none, _) :=
      StoreCall.step_of_ok (Neo4j.savePrimitive_of_accepts hwell.toSchema haccepts)
    rw [hdb, hgraph]
    exact ⟨rfl, ⟨rfl, hwell.replace haccepts⟩, rfl⟩
  · obtain ⟨exc', herror', hcls⟩ :=
      Neo4j.savePrimitive_of_refusal hwell.toSchema hconforms hrefusal
    have hdb : (StoreCall.save p).step (⟨t, none⟩ : SqliteRepository) = (some exc.cls, _) :=
      StoreCall.step_of_error herror
    have hgraph : (StoreCall.save p).step t.toGraph = (some exc'.cls, _) :=
      StoreCall.step_of_error herror'
    rw [hdb, hgraph]
    exact ⟨congrArg some hcls.symm, ⟨rfl, hwell⟩, rfl⟩

/-- Any other save raises in the one store and returns in the other. -/
theorem Mirrors.step_save_differs [NameFolding] {db : SqliteRepository} {graph : Neo4jRepository}
    (h : Mirrors db graph) {p : Primitive} (hbad : ¬ db.tables.Conforms p) :
    ((StoreCall.save p).step db).1 ≠ ((StoreCall.save p).step graph).1 := by
  obtain ⟨hsound, rfl⟩ := h
  obtain ⟨t, savepoint⟩ := db
  obtain ⟨rfl, hwell⟩ := hsound
  obtain ⟨⟨graph', hok⟩, hrefused⟩ := Neo4j.savePrimitive_of_not_conforms hwell.toSchema hbad
  rcases Sqlite.savePrimitive_cases p t with ⟨haccepts, -⟩ | ⟨exc, -, herror⟩
  · exact absurd haccepts hrefused
  · have hdb : (StoreCall.save p).step (⟨t, none⟩ : SqliteRepository) = (some exc.cls, _) :=
      StoreCall.step_of_error herror
    have hgraph : (StoreCall.save p).step t.toGraph = (none, graph') := StoreCall.step_of_ok hok
    rw [hdb, hgraph]
    exact nofun

theorem Mirrors.step [NameFolding] {db : SqliteRepository} {graph : Neo4jRepository}
    (h : Mirrors db graph) {call : StoreCall} (hconforms : call.Conforms db) :
    (call.step db).1 = (call.step graph).1 ∧ Mirrors (call.step db).2 (call.step graph).2 := by
  cases call with
  | save p => exact h.step_save hconforms
  | upsert p =>
      rw [(h.step_upsert p).1, (h.step_upsert p).2]
      exact h.step_save hconforms
  | delete id =>
      obtain ⟨hsound, rfl⟩ := h
      obtain ⟨t, savepoint⟩ := db
      obtain ⟨rfl, hwell⟩ := hsound
      exact ⟨rfl, ⟨rfl, hwell.deletePrimitiveRow id⟩, rfl⟩
  | clear =>
      obtain ⟨hsound, rfl⟩ := h
      obtain ⟨t, savepoint⟩ := db
      obtain ⟨rfl, -⟩ := hsound
      exact ⟨rfl, ⟨rfl, Tables.wellFormed_empty⟩, rfl⟩

theorem Mirrors.step_differs [NameFolding] {db : SqliteRepository} {graph : Neo4jRepository}
    (h : Mirrors db graph) {call : StoreCall} (hbad : ¬ call.Conforms db) :
    (call.step db).1 ≠ (call.step graph).1 := by
  cases call with
  | save p => exact h.step_save_differs hbad
  | upsert p =>
      rw [(h.step_upsert p).1, (h.step_upsert p).2]
      exact h.step_save_differs hbad
  | delete id => exact absurd trivial hbad
  | clear => exact absurd trivial hbad

/-- The backends agree on every call of a run, and on every read after it, exactly when every
call of the run conforms. -/
theorem backends_agree_iff [NameFolding] (calls : List StoreCall) :
    Runs.Lockstep StoreCall.step StoreCall.step Eq SameReads SqliteRepository.fresh
        Neo4jRepository.fresh calls ↔
      Runs.EveryStep StoreCall.step StoreCall.Conforms SqliteRepository.fresh calls := by
  have hfresh : Mirrors SqliteRepository.fresh Neo4jRepository.fresh :=
    ⟨⟨rfl, Tables.wellFormed_empty⟩, rfl⟩
  exact Runs.lockstep_iff (fun _ _ _ hsim hconforms => hsim.step hconforms)
    (fun _ _ _ hsim hbad => hsim.step_differs hbad) (fun _ _ hsim => hsim.sameReads) hfresh calls

/-- `Write` requires a primitive that no store holds. -/
def danglingWrite : Primitive :=
  sample 1 "Write" [.existence] [⟨.requires, 7, .existence, [], some authored⟩]

/-- The one backend refuses the missing target, the other drops the relatum. -/
theorem not_backends_agree_danglingWrite : letI := asciiFolding
    ¬ Runs.Lockstep StoreCall.step StoreCall.step Eq SameReads SqliteRepository.fresh
      Neo4jRepository.fresh [.save danglingWrite] := by
  let _ := asciiFolding
  rintro ⟨hsame, -⟩
  revert hsame
  decide

end Vre
