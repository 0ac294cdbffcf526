import Vre.Library.Worklist
import Vre.Model.Repository

/-! # The grounding engine

`GroundingEngine` of `vre.core.grounding.engine`: structured epistemic queries with
graph-derived depth gating. A set of ids is a list, and an adjacency dictionary is the
function that looks a node up in it.
-/

namespace Vre

namespace GroundingEngine

def emptyResponse : EpistemicResponse :=
  ⟨⟨[]⟩, ⟨[], [], []⟩⟩

/-! ## Roots -/

/-- The accumulators of `_identify_roots`. -/
structure RootScan where
  allRoots : List Primitive
  transients : List Primitive
  seen : List String

/-- The placeholder manufactured for a concept that is not in the graph. -/
def transientFor (draw : Draw) (index : ℕ) (name : String) : Primitive where
  id := draw.uuid4 index
  name := name
  depths := []
  provenance := some ⟨.synthetic, draw.now, draw.now,
    some s!"transient placeholder for concept '{name}' absent from the graph"⟩
  metrics := none

/-- One round of the loop of `_identify_roots`. -/
def identifyRoot [NameFolding] (draw : Draw) (byName : OrderedDict String Primitive)
    (st : RootScan) (name : String) : RootScan :=
  let fold := foldName name
  if fold ∈ st.seen then st
  else
    match byName.get? fold with
    | some matched => ⟨st.allRoots ++ [matched], st.transients, fold :: st.seen⟩
    | none =>
        let transient := transientFor draw st.transients.length name
        ⟨st.allRoots ++ [transient], st.transients ++ [transient], fold :: st.seen⟩

/-- `_identify_roots`: one root for each distinct folded name, in order of first
occurrence, and the transients among them. -/
def identifyRoots [NameFolding] (draw : Draw) (names : List String)
    (resolvedRoots : List Primitive) : List Primitive × List Primitive :=
  let byName := OrderedDict.ofItems (resolvedRoots.map fun r => (foldName r.name, r))
  let scan := names.foldl (identifyRoot draw byName) ⟨[], [], []⟩
  (scan.allRoots, scan.transients)

/-! ## Edges -/

/-- `{n.id: n for n in nodes}`. -/
def idToPrim (nodes : List Primitive) : OrderedDict UUID Primitive :=
  OrderedDict.ofItems (nodes.map fun n => (n.id, n))

/-- Fail loud if a resolved edge references a node absent from the set. -/
def validateEdgeEndpoints (edges : List EpistemicStep) (prims : OrderedDict UUID Primitive) :
    Except PyException Unit :=
  edges.forM fun edge =>
    [("source", edge.sourceId), ("target", edge.targetId)].forM fun e =>
      match prims.get? e.2 with
      | some _ => .ok ()
      | none => raise .graphIntegrityError
          (s!"Resolved {edge.relationType.value} edge references a {e.1} node {e.2} absent from "
            ++ "the resolved subgraph; the backend returned an edge whose "
            ++ s!"{e.1} it did not return.")

/-- `id_to_prim[id].contiguous_max_depth`. Endpoints are validated before any such lookup. -/
def depthOf (prims : OrderedDict UUID Primitive) (id : UUID) : Option DepthLevel :=
  (prims.get? id).bind Primitive.contiguousMaxDepth

/-- The source is grounded deeply enough to see the edge. -/
def isVisible (prims : OrderedDict UUID Primitive) (edge : EpistemicStep) : Bool :=
  Meets (depthOf prims edge.sourceId) edge.sourceDepth

/-- `_partition_edges_by_source_depth`. -/
def partitionEdges (edges : List EpistemicStep) (prims : OrderedDict UUID Primitive) :
    List EpistemicStep × List EpistemicStep :=
  (edges.filter fun e => isVisible prims e, edges.filter fun e => !isVisible prims e)

/-! ## Gaps -/

/-- The entries a gated edge, and a root below the override, offer to `depth_gap_map`. -/
def depthRequirements (allNodes : List Primitive) (gatedEdges : List EpistemicStep)
    (rootIds transientIds : List UUID) (minDepth : Option DepthLevel) :
    List (UUID × (DepthLevel × Option DepthLevel)) :=
  let prims := idToPrim allNodes
  let gated := gatedEdges.filterMap fun edge =>
    if edge.sourceId ∈ transientIds then none
    else some (edge.sourceId, (edge.sourceDepth, depthOf prims edge.sourceId))
  let override := match minDepth with
    | none => []
    | some floor => (allNodes.filter fun node =>
        node.id ∉ transientIds ∧ node.id ∈ rootIds ∧ ¬ Meets node.contiguousMaxDepth floor).map
          fun node => (node.id, (floor, node.contiguousMaxDepth))
  gated ++ override

/-- The entries visible edges offer to `relatum_depth_pairs`. -/
def relatumRequirements (allNodes : List Primitive) (visibleEdges : List EpistemicStep)
    (transientIds : List UUID) : List ((UUID × UUID) × DepthLevel) :=
  let prims := idToPrim allNodes
  visibleEdges.filterMap fun edge =>
    if edge.targetId ∈ transientIds ∨ Meets (depthOf prims edge.targetId) edge.targetDepth then none
    else some ((edge.sourceId, edge.targetId), edge.targetDepth)

def existenceGaps (allNodes : List Primitive) (transientIds : List UUID) : List KnowledgeGap :=
  (allNodes.filter fun node => node.id ∈ transientIds).map fun node => .existence ⟨node⟩

/-- Phase 2: one gap for each primitive, at the highest required depth. -/
def depthGaps (allNodes : List Primitive) (gatedEdges : List EpistemicStep)
    (rootIds transientIds : List UUID) (minDepth : Option DepthLevel) : List KnowledgeGap :=
  let prims := idToPrim allNodes
  let depthGapMap := OrderedDict.empty.mergeMax Prod.fst
    (depthRequirements allNodes gatedEdges rootIds transientIds minDepth)
  depthGapMap.entries.filterMap fun e =>
    (prims.get? e.1).map fun primitive => .depth ⟨primitive, e.2.1, e.2.2⟩

/-- Phase 3: one gap for each ordered pair, at the highest required depth. -/
def relationalGaps (allNodes : List Primitive) (visibleEdges : List EpistemicStep)
    (transientIds : List UUID) : List KnowledgeGap :=
  let prims := idToPrim allNodes
  let relatumDepthPairs := OrderedDict.empty.mergeMax id
    (relatumRequirements allNodes visibleEdges transientIds)
  relatumDepthPairs.entries.filterMap fun e =>
    (prims.get? e.1.1).bind fun source =>
      (prims.get? e.1.2).map fun target =>
        .relational ⟨source, target, e.2, target.contiguousMaxDepth⟩

/-- `_detect_gaps`. -/
def detectGaps (allNodes : List Primitive) (visibleEdges gatedEdges : List EpistemicStep)
    (rootIds transientIds : List UUID) (minDepth : Option DepthLevel) : List KnowledgeGap :=
  existenceGaps allNodes transientIds ++
    depthGaps allNodes gatedEdges rootIds transientIds minDepth ++
    relationalGaps allNodes visibleEdges transientIds

/-! ## Reachability -/

/-- `neighbors.get(id, set())`. -/
def neighborsOf (edges : List EpistemicStep) (id : UUID) : List UUID :=
  edges.flatMap fun e =>
    (if e.sourceId = id then [e.targetId] else []) ++ (if e.targetId = id then [e.sourceId] else [])

/-- `_reachable_undirected`. -/
def reachableUndirected (rootId : UUID) (edges : List EpistemicStep) : List UUID :=
  Worklist.search (neighborsOf edges) (edges.flatMap fun e => [e.sourceId, e.targetId]) [rootId]

/-- `adjacency.get(id, ())`. -/
def adjacentTo (visibleEdges : List EpistemicStep) (id : UUID) : List UUID :=
  (visibleEdges.filter fun e => e.sourceId = id).map EpistemicStep.targetId

/-- `_reachable_via_visible`: the justified frontier. -/
def reachableViaVisible (rootIds : List UUID) (visibleEdges : List EpistemicStep) : List UUID :=
  Worklist.search (adjacentTo visibleEdges) (visibleEdges.map EpistemicStep.targetId) rootIds

/-- `max(best :: rest, key=key)`: the first of the elements with the greatest key. -/
def firstMax {α : Type} (key : α → ℕ) : α → List α → α
  | best, [] => best
  | best, x :: rest => if key best < key x then firstMax key x rest else firstMax key best rest

/-- The connectivity check of `query`: anchor on the root with the largest component, and
report every root outside it. -/
def reachabilityGaps (roots : List Primitive) (edges : List EpistemicStep) : List KnowledgeGap :=
  match roots with
  | first :: second :: rest =>
      let anchor := firstMax (fun r => (reachableUndirected r.id edges).length) first
        (second :: rest)
      let reachable := reachableUndirected anchor.id edges
      (roots.filter fun root => root.id ≠ anchor.id ∧ root.id ∉ reachable).map
        fun root => .reachability ⟨root⟩
  | _ => []

/-! ## The response -/

/-- Copy one node down to its justified epistemic envelope. -/
def filterNode (collectedIds : List UUID) (p : Primitive) : Primitive :=
  let keptDepths := match p.contiguousMaxDepth with
    | none => []
    | some cmax => (p.depths.filter fun d => d.level ≤ cmax).map fun d =>
        { d with relata := d.relata.filter fun r => r.targetId ∈ collectedIds }
  { p with depths := keptDepths }

/-- `_filter_depths`. -/
def filterDepths (nodes : List Primitive) : List Primitive :=
  nodes.map (filterNode (nodes.map Primitive.id))

/-- The response of `query` to a resolved subgraph. -/
def respond [NameFolding] (draw : Draw) (concepts : List String) (minDepth : Option DepthLevel)
    (subgraph : ResolvedSubgraph) : Except PyException EpistemicResponse := do
  let (roots, transients) := identifyRoots draw concepts subgraph.roots
  let transientIds := transients.map Primitive.id
  let rootIds := roots.map Primitive.id
  let allNodes := subgraph.nodes ++ transients
  let prims := idToPrim allNodes
  validateEdgeEndpoints subgraph.edges prims
  let (visibleEdges, gatedEdges) := partitionEdges subgraph.edges prims
  let frontierIds := reachableViaVisible rootIds visibleEdges
  let frontierVisible := visibleEdges.filter fun e => e.sourceId ∈ frontierIds
  let frontierGated := gatedEdges.filter fun e => e.sourceId ∈ frontierIds
  let gaps := detectGaps allNodes frontierVisible frontierGated rootIds transientIds minDepth
  let nonTransientRoots := roots.filter fun r => r.id ∉ transientIds
  let gaps := gaps ++ reachabilityGaps nonTransientRoots frontierVisible
  let surviving := allNodes.filter fun n => n.id ∈ frontierIds
  return ⟨⟨roots.map Primitive.id⟩, ⟨filterDepths surviving, gaps, frontierVisible⟩⟩

/-- Flat-concept epistemic query with graph-derived depth gating. -/
def query {σ : Type} [NameFolding] [Repository σ] (draw : Draw) (repo : σ)
    (concepts : List String) (minDepth : Option DepthLevel) :
    Except PyException EpistemicResponse :=
  if concepts.isEmpty then
    .ok emptyResponse
  else do
    let subgraph ← Repository.resolveSubgraph repo concepts
    respond draw concepts minDepth subgraph

/-- Ground concepts against the graph in one step. -/
def ground {σ : Type} [NameFolding] [Repository σ] (draw : Draw) (repo : σ)
    (concepts : List String) (minDepth : Option DepthLevel) :
    Except PyException GroundingResult :=
  if concepts.isEmpty then
    .ok ⟨false, [], [], some emptyResponse, none⟩
  else do
    let response ← query draw repo concepts minDepth
    let canonicalByLower := OrderedDict.ofItems
      (response.result.primitives.map fun p => (p.nameLower, p.name))
    let resolved := concepts.map fun c => (canonicalByLower.get? (foldName c)).getD c
    return ⟨response.result.gaps.isEmpty, resolved, response.result.gaps, some response, none⟩

end GroundingEngine

end Vre
