import Vre.Verification.Store.Conformance
import Vre.Verification.Store.Knowledge

/-! # The backends refine the knowledge base

A call of the repository contract has one meaning on knowledge bases. Each backend answers
every call of a run as that meaning does, and its reads are reads of the map. The two differ
in one point: SQLite refuses a primitive with a missing target, Neo4j drops the relatum.
-/

namespace Vre

/-! ## Calls and their meaning -/

/-- What a call that returns hands back. -/
inductive Reply where
  | done
  | saved (primitive : Primitive)
  | deleted (existed : Bool)
  | cleared (count : ℕ)
  deriving DecidableEq, Repr

/-- A call that may change what a repository holds. -/
inductive RepositoryCall where
  | save (primitive : Primitive)
  | upsert (primitive : Primitive)
  | delete (id : UUID)
  | clear
  | updateMetrics (id : UUID) (metrics : PrimitiveMetrics)
  | batchUpdateMetrics (updates : OrderedDict UUID PrimitiveMetrics)

namespace RepositoryCall

variable {ρ : Type} [Repository ρ]

def run : RepositoryCall → Action ρ Reply
  | save primitive => do
      Repository.savePrimitive primitive
      return .done
  | upsert primitive => do
      let saved ← upsertPrimitive primitive
      return .saved saved
  | delete id => do
      let existed ← Repository.deletePrimitive id
      return .deleted existed
  | clear => do
      let count ← Repository.clear
      return .cleared count
  | updateMetrics id metrics => do
      Repository.updateMetrics id metrics
      return .done
  | batchUpdateMetrics updates => do
      Repository.batchUpdateMetrics updates
      return .done

/-- The reply, or the class of the error raised, and the store the call leaves. -/
def step (repo : ρ) (call : RepositoryCall) : Except ErrorClass Reply × ρ :=
  match call.run repo with
  | .ok reply repo' => (.ok reply, repo')
  | .error exc repo' => (.error exc.cls, repo')

theorem step_of_ok {repo repo' : ρ} {call : RepositoryCall} {reply : Reply}
    (h : call.run repo = .ok reply repo') : call.step repo = (.ok reply, repo') := by
  simp only [step, h]

theorem step_of_error {repo repo' : ρ} {call : RepositoryCall} {exc : PyException}
    (h : call.run repo = .error exc repo') : call.step repo = (.error exc.cls, repo') := by
  simp only [step, h]

end RepositoryCall

namespace KnowledgeBase

variable [NameFolding]

/-- The answer of a save that hands back `reply` when it is not refused. -/
def answer (reply : Reply) (outcome : Option ErrorClass × KnowledgeBase) :
    Except ErrorClass Reply × KnowledgeBase :=
  match outcome.1 with
  | none => (.ok reply, outcome.2)
  | some cls => (.error cls, outcome.2)

@[simp] theorem snd_answer (reply : Reply) (outcome : Option ErrorClass × KnowledgeBase) :
    (answer reply outcome).2 = outcome.2 := by
  unfold answer
  split <;> rfl

/-- What a call means: its answer, and the map after it. -/
noncomputable def step (policy : MissingTarget) (kb : KnowledgeBase) :
    RepositoryCall → Except ErrorClass Reply × KnowledgeBase
  | .save p => answer .done (kb.save policy p)
  | .upsert p => answer (.saved (kb.canonical p)) (kb.save policy (kb.canonical p))
  | .delete id => (.ok (.deleted (kb.known id).isSome), kb.erase id)
  | .clear => (.ok (.cleared {id | (kb.known id).isSome}.ncard), nothing)
  | .updateMetrics id metrics => (.ok .done, kb.setMetrics id metrics)
  | .batchUpdateMetrics updates =>
      (.ok .done, updates.entries.foldl (fun kb e => kb.setMetrics e.1 e.2) kb)

/-- The subgraph that answers a list of names: what the closure holds, each primitive with
those of its relata that stay inside, and the relata themselves. -/
structure Resolves (kb : KnowledgeBase) (names : List String) (sg : ResolvedSubgraph) : Prop where
  nodup : sg.ids.Nodup
  mem_ids : ∀ id, id ∈ sg.ids ↔ kb.InClosure names id
  nodes : ∀ node ∈ sg.nodes, ∃ p, kb.known node.id = some p ∧ node = p.within sg.ids
  roots : sg.roots = sg.nodes.filter fun node => node.nameLower ∈ names.map foldName
  edges : sg.edges.Perm (sg.nodes.flatMap fun node => node.toRelata.map RelatumRow.toStep)

end KnowledgeBase

/-- Every read of the repository is a read of the map. -/
structure Represents {ρ : Type} [NameFolding] [Repository ρ] (repo : ρ) (kb : KnowledgeBase) :
    Prop where
  byId : ∀ id, Repository.findById repo id = .ok (kb.known id)
  byName : ∀ name, Repository.findByName repo name = .ok (kb.lookup name)
  metrics : ∀ ids, ∃ found, Repository.batchReadMetrics repo ids = .ok found ∧
    ∀ id, found.get? id = if id ∈ ids then (kb.known id).map Primitive.metrics else none
  subgraph : ∀ names, ∃ sg, Repository.resolveSubgraph repo names = .ok sg ∧
    kb.Resolves names sg

/-! ## Reads -/

namespace Tables

theorem inClosure_knowledge [NameFolding] {t : Tables} (h : t.WellFormed) {names : List String}
    {id : UUID} : (t.knowledge h).InClosure names id ↔ t.InClosure names id := by
  have hnamed : ∀ root, (∃ p, t.live root = some p ∧ p.nameLower ∈ names.map foldName) ↔
      t.Named names root := by
    intro root
    constructor
    · intro hp
      obtain ⟨p, hp, hname⟩ := hp
      obtain ⟨row, hrow, rfl, rfl⟩ := (live_eq_some h.toSchema).mp hp
      exact ⟨row, hrow, rfl, h.nameLower_loadRow hrow ▸ hname⟩
    · intro hroot
      obtain ⟨row, hrow, rfl, hname⟩ := hroot
      exact ⟨_, (live_eq_some h.toSchema).mpr ⟨row, hrow, rfl, rfl⟩,
        (h.nameLower_loadRow hrow).symm ▸ hname⟩
  simp only [KnowledgeBase.InClosure, InClosure, knowledge, ← hnamed, h.transitiveEdge_live]
  constructor
  · intro hroot
    obtain ⟨root, p, hp, hname, hpath⟩ := hroot
    exact ⟨root, ⟨p, hp, hname⟩, hpath⟩
  · intro hroot
    obtain ⟨root, ⟨p, hp, hname⟩, hpath⟩ := hroot
    exact ⟨root, p, hp, hname, hpath⟩

/-- A subgraph's edges are the relata its nodes carry. -/
theorem perm_edges_nodes [NameFolding] {t : Tables} (h : t.WellFormed) (names : List String) :
    (t.subgraph names).edges.Perm
      ((t.subgraph names).nodes.flatMap fun node => node.toRelata.map RelatumRow.toStep) := by
  have hexact := exact_subgraph h names
  have hgroups := OrderedDict.perm_flatMap_filter EpistemicStep.sourceId hexact.nodup
    (h.toSchema.coherent names).sources
  rw [ResolvedSubgraph.ids, List.flatMap_map] at hgroups
  apply hgroups.symm.trans
  apply List.Perm.flatMap_left
  intro node hnode
  exact (hexact.carried node hnode).symm

theorem resolves_subgraph [NameFolding] {t : Tables} (h : t.WellFormed) (names : List String) :
    (t.knowledge h).Resolves names (t.subgraph names) := by
  have hexact := exact_subgraph h names
  refine ⟨hexact.nodup, ?_, hexact.nodes, rfl, perm_edges_nodes h names⟩
  intro id
  rw [inClosure_knowledge, hexact.mem_ids]

/-- The metrics of the records under the ids. -/
def metricsOf (t : Tables) (ids : List UUID) :
    OrderedDict UUID (Option PrimitiveMetrics) :=
  OrderedDict.ofItems ((t.primitives.filter fun row => row.id ∈ ids).map fun row =>
    (row.id, row.metricsJson))

theorem get?_metricsOf [NameFolding] {t : Tables} (h : t.Schema) (ids : List UUID) (id : UUID) :
    (t.metricsOf ids).get? id =
      if id ∈ ids then (t.live id).map Primitive.metrics else none := by
  have hnodup : (((t.primitives.filter fun row => row.id ∈ ids).map fun row =>
      (row.id, row.metricsJson)).map Prod.fst).Nodup := by
    rw [List.map_map]
    exact h.nodup_ids.sublist (List.filter_sublist.map _)
  by_cases hstored : id ∈ ids ∧ t.Stored id
  · obtain ⟨hid, row, hrow, rfl⟩ := hstored
    have hlive : t.live row.id = some (t.loadRow row) :=
      (live_eq_some h).mpr ⟨row, hrow, rfl, rfl⟩
    rw [if_pos hid, hlive]
    apply OrderedDict.get?_ofItems_of_nodup hnodup
    exact List.mem_map.mpr ⟨row, List.mem_filter.mpr ⟨hrow, decide_eq_true hid⟩, rfl⟩
  · have hnone : (if id ∈ ids then (t.live id).map Primitive.metrics else none) = none := by
      split
      · rename_i hid
        rw [live_eq_none.mpr fun hs => hstored ⟨hid, hs⟩]
        rfl
      · rfl
    rw [hnone]
    apply OrderedDict.get?_ofItems_eq_none.mpr
    intro v hv
    obtain ⟨row, hrow, heq⟩ := List.mem_map.mp hv
    obtain ⟨hmem, hid⟩ := List.mem_filter.mp hrow
    cases heq
    exact hstored ⟨of_decide_eq_true hid, row, hmem, rfl⟩

end Tables

/-! ## Saves -/

namespace KnowledgeBase

variable [NameFolding]

theorem save_of_unserializable {policy : MissingTarget} {kb : KnowledgeBase} {p : Primitive}
    {exc : PyException} (h : p.serialize = .error exc) :
    kb.save policy p = (some exc.cls, kb) := by
  simp only [save, h]

theorem save_of_taken {policy : MissingTarget} {kb : KnowledgeBase} {p : Primitive}
    (hp : p.Storable) (h : ¬ kb.NameFree p) :
    kb.save policy p = (some .persistenceError, kb) := by
  simp only [save, serialize_eq hp, if_pos h]

theorem save_of_cycle {policy : MissingTarget} {kb : KnowledgeBase} {p : Primitive}
    (hp : p.Storable) (hname : kb.NameFree p) (h : ¬ kb.StaysAcyclic (kb.offered policy p)) :
    kb.save policy p = (some .cyclicRelationshipError, kb) := by
  simp only [save, serialize_eq hp, hname, not_true_eq_false, if_false, if_pos h]

theorem save_of_admits {policy : MissingTarget} {kb : KnowledgeBase} {p : Primitive}
    (hp : p.Storable) (hname : kb.NameFree p) (h : kb.Admits (kb.offered policy p)) :
    kb.save policy p = (none, kb.write _ h) := by
  simp only [save, serialize_eq hp, hname, h.acyclic, h, not_true_eq_false, if_false, dif_pos]

theorem save_of_missing {policy : MissingTarget} {kb : KnowledgeBase} {p : Primitive}
    (hp : p.Storable) (hname : kb.NameFree p) (hcycle : kb.StaysAcyclic (kb.offered policy p))
    (h : ¬ kb.Admits (kb.offered policy p)) :
    kb.save policy p = (some .persistenceError, kb) := by
  simp only [save, serialize_eq hp, hname, hcycle, h, not_true_eq_false, if_false, dif_neg,
    not_false_eq_true]

theorem save_cases (policy : MissingTarget) (kb : KnowledgeBase) (p : Primitive) :
    (∃ cls, kb.save policy p = (some cls, kb)) ∨
      ∃ h, kb.save policy p = (none, kb.write (kb.offered policy p) h) := by
  unfold save
  split
  · exact Or.inl ⟨_, rfl⟩
  · split
    · exact Or.inl ⟨_, rfl⟩
    · split
      · exact Or.inl ⟨_, rfl⟩
      · split
        · rename_i h
          exact Or.inr ⟨h, rfl⟩
        · exact Or.inl ⟨_, rfl⟩

end KnowledgeBase

/-- A backend saves the primitive, on tables that it wraps, with the outcome. -/
def Saves {ρ : Type} [NameFolding] [Repository ρ] (wrap : Tables → ρ) (t : Tables) (p : Primitive)
    (outcome : Option ErrorClass × KnowledgeBase) : Prop :=
  (∃ t' h', Repository.savePrimitive p (wrap t) = .ok () (wrap t') ∧
    outcome = (none, t'.knowledge h')) ∨
  ∃ exc h, Repository.savePrimitive p (wrap t) = .error exc (wrap t) ∧
    outcome = (some exc.cls, t.knowledge h)

namespace Sqlite

theorem saves_refused [NameFolding] {t : Tables} (h : t.WellFormed) (p : Primitive) :
    Saves (fun t => (⟨t, none⟩ : SqliteRepository)) t p ((t.knowledge h).save .refused p) := by
  rcases savePrimitive_cases p t with ⟨haccepts, hok⟩ | ⟨exc, hrefusal, herror⟩
  · apply Or.inl
    refine ⟨_, h.replace haccepts, hok, ?_⟩
    have hadmits : (t.knowledge h).Admits ((t.knowledge h).offered .refused p) :=
      (Tables.admits_knowledge h).mpr haccepts
    rw [Tables.knowledge_replace h haccepts]
    exact KnowledgeBase.save_of_admits haccepts.storable
      ((Tables.nameFree_knowledge h).mpr haccepts.name_free) hadmits
  · apply Or.inr
    refine ⟨exc, h, herror, ?_⟩
    cases hrefusal with
    | serialize hserialize => exact KnowledgeBase.save_of_unserializable hserialize
    | name hp htaken hcls =>
        rw [hcls]
        exact KnowledgeBase.save_of_taken hp (mt (Tables.nameFree_knowledge h).mp htaken)
    | cycle hp hname hclosed hcls =>
        rw [hcls]
        exact KnowledgeBase.save_of_cycle hp ((Tables.nameFree_knowledge h).mpr hname)
          (mt (Tables.staysAcyclic_knowledge h).mp hclosed)
    | target hp hname hcycle habsent hcls =>
        rw [hcls]
        exact KnowledgeBase.save_of_missing hp ((Tables.nameFree_knowledge h).mpr hname)
          ((Tables.staysAcyclic_knowledge h).mpr hcycle)
          (mt (Tables.admits_knowledge h).mp fun haccepts => habsent haccepts.targets)

end Sqlite

namespace Neo4j

/-- The primitive without the relata that lead to no node. -/
def attachable (t : Tables) (p : Primitive) : Primitive :=
  p.restrict fun id => id = p.id ∨ (t.live id).isSome

theorem toRow_attachable [NameFolding] (t : Tables) (p : Primitive) :
    (attachable t p).toRow = p.toRow := by
  simp [attachable, Primitive.restrict, Primitive.toRow, Primitive.nameLower, Function.comp_def,
    Depth.toEntry]

theorem toRelata_attachable (t : Tables) (p : Primitive) : (attachable t p).toRelata =
    p.toRelata.filter fun rp => rp.targetId = p.id ∨ (t.live rp.targetId).isSome := by
  simp only [attachable, Primitive.restrict, Primitive.toRelata, List.flatMap_map,
    List.filter_flatMap, List.filter_map]
  rfl

/-- A relatum without a target closes no cycle. -/
theorem noCycle_attachable [NameFolding] {t : Tables} (h : t.Schema) {p : Primitive} :
    t.NoCycle p.id (attachable t p).toRelata ↔ t.NoCycle p.id p.toRelata := by
  rw [toRelata_attachable]
  constructor
  · intro hno rp hrp htype hpath
    have hkept : rp.targetId = p.id ∨ (t.live rp.targetId).isSome := by
      rcases Relation.ReflTransGen.cases_head hpath with heq | ⟨b, hedge, -⟩
      · exact Or.inl heq
      · obtain ⟨-, rel, hrel, hsource, -⟩ := hedge
        exact Or.inr (Tables.isSome_live.mpr (hsource ▸ h.sources rel hrel))
    exact hno rp (List.mem_filter.mpr ⟨hrp, decide_eq_true hkept⟩) htype hpath
  · intro hno rp hrp
    exact hno rp (List.mem_filter.mp hrp).1

/-- A save that neither the name nor a cycle refuses writes the relata whose ends match. -/
theorem savePrimitive_writes [NameFolding] {t : Tables} (h : t.Schema) {p : Primitive}
    (hp : p.Storable) (hname : t.NameFree p.toRow) (hcycle : t.NoCycle p.id p.toRelata) :
    savePrimitive p t.toGraph =
      .ok () (t.replace p.toRow (attachable t p).toRelata).toGraph := by
  -- The statements after the deletes see these tables.
  let kept : Tables := ⟨Tables.replaceRow p.toRow t.primitives, (t.deleteOutgoing p.id).relata⟩
  have hstored : ∀ id, kept.Stored id ↔ id = p.id ∨ t.Stored id :=
    fun id => (Tables.stored_replace : (t.replace p.toRow []).Stored id ↔ _)
  have hkept : ∀ rel ∈ kept.relata, kept.Stored rel.sourceId :=
    fun rel hrel => (hstored _).mpr (Or.inr (h.sources rel (List.mem_filter.mp hrel).1))
  have hdelete : (relTypes.forM fun rt => deleteRelationships p.id rt)
      (Tables.toGraph ⟨Tables.replaceRow p.toRow t.primitives, t.relata⟩) =
        .ok () kept.toGraph := deleteAll_eq p.id _
  have hedges : ∀ a b, kept.TransEdge a b ↔ Digraph.Without t.TransEdge p.id a b :=
    fun _ _ => Tables.transEdge_deleteOutgoing
  have hcheck : Action.read (fun db => checkTransitiveCycles p.id db p.toRelata) kept.toGraph =
      .ok () kept.toGraph := by
    apply Action.read_of_ok
    rcases checkTransitiveCycles_cases p.toRelata hedges hkept ((hstored _).mpr (Or.inl rfl)) with
      ⟨hok, -⟩ | ⟨exc, -, -, hclosed⟩
    · exact hok
    · exact absurd hcycle hclosed
  have hends : p.toRelata.filter (endsMatch kept) = (attachable t p).toRelata := by
    rw [toRelata_attachable]
    apply List.filter_congr
    intro rp hrp
    have hsource : matchesNode kept.toGraph rp.sourceId = true :=
      matchesNode_iff.mpr ((hstored _).mpr (Or.inl (Sqlite.sourceId_of_mem_toRelata hrp)))
    rw [endsMatch, hsource, Bool.true_and, Bool.eq_iff_iff, matchesNode_iff, hstored,
      decide_eq_true_iff, Tables.isSome_live]
  have hwrite : writePrimitive p.toRow p.toRelata t.toGraph =
      .ok () (t.replace p.toRow (attachable t p).toRelata).toGraph := by
    unfold writePrimitive
    rw [Loops.bind_of_ok (mergeNode_of_free hname)]
    apply (Loops.bind_of_ok hdelete).trans
    apply (Loops.bind_of_ok hcheck).trans
    rw [← hends]
    exact forM_createRelationship p.toRelata kept
  unfold savePrimitive
  rw [bind_serialize, serialize_eq hp]
  exact Loops.tryCatch_of_ok (executeWrite_of_ok hwrite)

theorem saves_dropped [NameFolding] {t : Tables} (h : t.WellFormed) (p : Primitive) :
    Saves Tables.toGraph t p ((t.knowledge h).save .dropped p) := by
  have hcycle_iff : (t.knowledge h).StaysAcyclic (attachable t p) ↔ t.NoCycle p.id p.toRelata :=
    (Tables.staysAcyclic_knowledge h).trans (noCycle_attachable h.toSchema)
  rcases savePrimitive_cases p h.sources with
    ⟨hp, hname, hcycle, -⟩ |
      ⟨exc, herror, hserialize | ⟨hp, htaken, hcls⟩ | ⟨hp, hname, hclosed, hcls⟩⟩
  · have haccepts : Sqlite.Accepts t (attachable t p) := by
      refine ⟨storable_restrict hp _, ?_, (noCycle_attachable h.toSchema).mpr hcycle, ?_⟩
      · rw [toRow_attachable]
        exact hname
      · intro rp hrp
        rw [toRelata_attachable] at hrp
        exact (of_decide_eq_true (List.mem_filter.mp hrp).2).imp_right Tables.isSome_live.mp
    have hok := savePrimitive_writes h.toSchema hp hname hcycle
    rw [← toRow_attachable t p] at hok
    apply Or.inl
    refine ⟨_, h.replace haccepts, hok, ?_⟩
    have hadmits : (t.knowledge h).Admits ((t.knowledge h).offered .dropped p) :=
      (Tables.admits_knowledge h).mpr haccepts
    rw [Tables.knowledge_replace h haccepts]
    exact KnowledgeBase.save_of_admits hp ((Tables.nameFree_knowledge h).mpr hname) hadmits
  · exact Or.inr ⟨exc, h, herror, KnowledgeBase.save_of_unserializable hserialize⟩
  · apply Or.inr
    refine ⟨exc, h, herror, ?_⟩
    rw [hcls]
    exact KnowledgeBase.save_of_taken hp (mt (Tables.nameFree_knowledge h).mp htaken)
  · apply Or.inr
    refine ⟨exc, h, herror, ?_⟩
    rw [hcls]
    exact KnowledgeBase.save_of_cycle hp ((Tables.nameFree_knowledge h).mpr hname)
      (mt hcycle_iff.mp hclosed)

end Neo4j

/-! ## One call -/

/-- A backend that reads what the tables it wraps hold, and runs each call on them. -/
structure Realizes {ρ : Type} [NameFolding] [Repository ρ] (wrap : Tables → ρ)
    (policy : KnowledgeBase.MissingTarget) : Prop where
  byId : ∀ t, t.WellFormed → ∀ id, Repository.findById (wrap t) id = .ok (t.live id)
  byName : ∀ t, t.WellFormed → ∀ name, Repository.findByName (wrap t) name = .ok (t.named name)
  metrics : ∀ t ids, Repository.batchReadMetrics (wrap t) ids = .ok (t.metricsOf ids)
  subgraph : ∀ t, t.WellFormed → ∀ names, ∃ edges, Repository.resolveSubgraph (wrap t) names =
    .ok ⟨(t.subgraph names).roots, (t.subgraph names).nodes, edges⟩ ∧
      edges.Perm (t.subgraph names).edges
  save : ∀ t (h : t.WellFormed) p, Saves wrap t p ((t.knowledge h).save policy p)
  delete : ∀ t id, Repository.deletePrimitive id (wrap t) =
    .ok (t.primitives.any fun row => row.id = id) (wrap (t.deletePrimitiveRow id))
  clear : ∀ t, Repository.clear (wrap t) = .ok t.primitives.length (wrap ⟨[], []⟩)
  updateMetrics : ∀ t id metrics, Repository.updateMetrics id metrics (wrap t) =
    .ok () (wrap (t.setMetrics id metrics))
  batchUpdateMetrics : ∀ t (updates : OrderedDict UUID PrimitiveMetrics),
    Repository.batchUpdateMetrics updates (wrap t) =
      .ok () (wrap (updates.entries.foldl (fun t e => t.setMetrics e.1 e.2) t))

theorem Sqlite.realizes [NameFolding] :
    Realizes (fun t => (⟨t, none⟩ : SqliteRepository)) .refused where
  byId := fun _ h => findById_eq h.toSchema
  byName := fun _ h => findByName_eq h.toSchema
  metrics := fun _ _ => rfl
  subgraph := fun _ h names => ⟨_, resolveSubgraph_eq h.toSchema names, .refl _⟩
  save := fun _ h => Sqlite.saves_refused h
  delete := fun _ _ => rfl
  clear := fun _ => rfl
  updateMetrics := fun t id metrics => Sqlite.updateMetrics_eq id metrics t
  batchUpdateMetrics := fun t updates => Sqlite.batchUpdateMetrics_eq updates t

theorem Neo4j.foldl_setMetrics (entries : List (UUID × PrimitiveMetrics)) (t : Tables) :
    entries.foldl (fun db e => Neo4j.setMetrics e.1 e.2 db) t.toGraph =
      (entries.foldl (fun t e => t.setMetrics e.1 e.2) t).toGraph := by
  induction entries generalizing t with
  | nil => rfl
  | cons e rest ih => exact ih (t.setMetrics e.1 e.2)

theorem Neo4j.realizes [NameFolding] : Realizes Tables.toGraph .dropped where
  byId := fun t h id => (Tables.findById_toGraph t id).trans (findById_eq h.toSchema id)
  byName := fun _ h name =>
    (Tables.findByName_toGraph h.toSchema name).trans (findByName_eq h.toSchema name)
  metrics := fun _ _ => rfl
  subgraph := fun _ h => Tables.resolveSubgraph_toGraph h.toSchema
  save := fun _ h => Neo4j.saves_dropped h
  delete := fun _ _ => rfl
  clear := fun _ => rfl
  updateMetrics := fun _ _ _ => rfl
  batchUpdateMetrics := by
    intro t updates
    exact congrArg (EStateM.Result.ok ()) (Neo4j.foldl_setMetrics updates.entries t)

/-- The repository wraps tables that hold the knowledge base. -/
def Holds {ρ : Type} [NameFolding] (wrap : Tables → ρ) (repo : ρ) (kb : KnowledgeBase) : Prop :=
  ∃ t h, repo = wrap t ∧ kb = t.knowledge h

section

variable {ρ : Type} [NameFolding] [Repository ρ] {wrap : Tables → ρ}
  {policy : KnowledgeBase.MissingTarget} (hreal : Realizes wrap policy)
include hreal

theorem Realizes.represents {repo : ρ} {kb : KnowledgeBase} (h : Holds wrap repo kb) :
    Represents repo kb := by
  obtain ⟨t, hwell, rfl, rfl⟩ := h
  refine ⟨hreal.byId t hwell, ?_, ?_, ?_⟩
  · intro name
    rw [Tables.lookup_knowledge]
    exact hreal.byName t hwell name
  · intro ids
    exact ⟨_, hreal.metrics t ids, Tables.get?_metricsOf hwell.toSchema ids⟩
  · intro names
    obtain ⟨edges, hresolve, hperm⟩ := hreal.subgraph t hwell names
    have h := Tables.resolves_subgraph hwell names
    exact ⟨_, hresolve, h.nodup, h.mem_ids, h.nodes, h.roots, hperm.trans h.edges⟩

/-- A save that `call` comes down to, handing back `reply`. -/
theorem Realizes.step_save {t : Tables} (hwell : t.WellFormed) {p : Primitive} {reply : Reply}
    {call : RepositoryCall} (hcall : (call.run : Action ρ Reply) (wrap t) =
      (do Repository.savePrimitive p; return reply : Action ρ Reply) (wrap t)) :
    let outcome := KnowledgeBase.answer reply ((t.knowledge hwell).save policy p)
    (call.step (wrap t)).1 = outcome.1 ∧ Holds wrap (call.step (wrap t)).2 outcome.2 := by
  rcases hreal.save t hwell p with ⟨t', h', hok, heq⟩ | ⟨exc, h', herror, heq⟩
  · rw [heq, RepositoryCall.step_of_ok (hcall.trans (Loops.bind_of_ok hok))]
    exact ⟨rfl, t', h', rfl, rfl⟩
  · rw [heq, RepositoryCall.step_of_error (hcall.trans (Loops.bind_of_error herror))]
    exact ⟨rfl, t, h', rfl, rfl⟩

/-- The backend answers a call as the knowledge base does, and holds what that holds. -/
theorem Realizes.step {repo : ρ} {kb : KnowledgeBase} (h : Holds wrap repo kb)
    (call : RepositoryCall) : (call.step repo).1 = (kb.step policy call).1 ∧
      Holds wrap (call.step repo).2 (kb.step policy call).2 := by
  obtain ⟨t, hwell, rfl, rfl⟩ := h
  cases call with
  | save p => exact hreal.step_save hwell rfl
  | upsert p =>
      have hread : Action.read (fun repo : ρ => Repository.findByName repo p.name) (wrap t) =
          .ok (t.named p.name) (wrap t) := Action.read_of_ok (hreal.byName t hwell p.name)
      rw [KnowledgeBase.step, Tables.canonical_knowledge]
      apply hreal.step_save hwell
      have hupsert : (upsertPrimitive p : Action ρ Primitive) (wrap t) =
          (do Repository.savePrimitive (t.canonical p); return t.canonical p) (wrap t) :=
        Loops.bind_of_ok hread
      cases hsave : (Repository.savePrimitive (t.canonical p) : Action ρ Unit) (wrap t) with
      | ok u repo =>
          rw [Loops.bind_of_ok hsave]
          exact Loops.bind_of_ok (hupsert.trans (Loops.bind_of_ok hsave))
      | error exc repo =>
          rw [Loops.bind_of_error hsave]
          exact Loops.bind_of_error (hupsert.trans (Loops.bind_of_error hsave))
  | delete id =>
      have hok : ((RepositoryCall.delete id).run : Action ρ Reply) (wrap t) = .ok _ _ :=
        Loops.bind_of_ok (hreal.delete t id)
      rw [RepositoryCall.step_of_ok hok]
      refine ⟨?_, t.deletePrimitiveRow id, hwell.deletePrimitiveRow id, rfl,
        (Tables.knowledge_deletePrimitiveRow hwell id).symm⟩
      have hsome : (t.primitives.any fun row => row.id = id) = (t.live id).isSome :=
        Bool.eq_iff_iff.mpr (Tables.stored_iff_any.trans Tables.isSome_live.symm)
      rw [hsome]
      rfl
  | clear =>
      have hok : (RepositoryCall.clear.run : Action ρ Reply) (wrap t) = .ok _ _ :=
        Loops.bind_of_ok (hreal.clear t)
      rw [RepositoryCall.step_of_ok hok, KnowledgeBase.step, Tables.ncard_knowledge]
      exact ⟨rfl, _, Tables.wellFormed_empty, rfl, KnowledgeBase.ext_known rfl⟩
  | updateMetrics id metrics =>
      have hok : ((RepositoryCall.updateMetrics id metrics).run : Action ρ Reply) (wrap t) =
        .ok _ _ := Loops.bind_of_ok (hreal.updateMetrics t id metrics)
      rw [RepositoryCall.step_of_ok hok]
      exact ⟨rfl, _, _, rfl, (Tables.knowledge_setMetrics hwell id metrics).symm⟩
  | batchUpdateMetrics updates =>
      have hok : ((RepositoryCall.batchUpdateMetrics updates).run : Action ρ Reply) (wrap t) =
        .ok _ _ := Loops.bind_of_ok (hreal.batchUpdateMetrics t updates)
      obtain ⟨hwell', heq⟩ := Tables.foldl_setMetrics_knowledge updates.entries hwell
      rw [RepositoryCall.step_of_ok hok]
      exact ⟨rfl, _, hwell', rfl, heq⟩

theorem Realizes.lockstep (calls : List RepositoryCall) :
    Runs.Lockstep RepositoryCall.step (KnowledgeBase.step policy) Eq Represents
      (wrap ⟨[], []⟩) KnowledgeBase.nothing calls := by
  have hfresh : Holds wrap (wrap ⟨[], []⟩) KnowledgeBase.nothing :=
    ⟨_, Tables.wellFormed_empty, rfl, KnowledgeBase.ext_known rfl⟩
  apply Runs.lockstep_of_simulation ?_ ?_ hfresh calls
  · intro repo kb call h
    exact hreal.step h call
  · intro repo kb h
    exact hreal.represents h

end

/-- In every run SQLite answers each call as the knowledge base does that refuses missing
targets, and its reads are reads of that map. -/
theorem sqlite_refines [NameFolding] (calls : List RepositoryCall) :
    Runs.Lockstep RepositoryCall.step (KnowledgeBase.step .refused) Eq Represents
      SqliteRepository.fresh KnowledgeBase.nothing calls :=
  Sqlite.realizes.lockstep calls

/-- In every run Neo4j answers each call as the knowledge base does that drops relata to
missing targets, and its reads are reads of that map. -/
theorem neo4j_refines [NameFolding] (calls : List RepositoryCall) :
    Runs.Lockstep RepositoryCall.step (KnowledgeBase.step .dropped) Eq Represents
      Neo4jRepository.fresh KnowledgeBase.nothing calls :=
  Neo4j.realizes.lockstep calls

end Vre
