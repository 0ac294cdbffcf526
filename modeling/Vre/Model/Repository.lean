import Vre.Library.OrderedDict
import Vre.Model.Epistemic

/-! # The repository contract

The abstract `Repository` of `vre.core.backends.repository`: what the engines may ask of a
persistence backend whose state is `σ`, and the operations built on it.
-/

namespace Vre

class Repository (σ : Type) where
  findById : σ → UUID → Except PyException (Option Primitive)
  findByName : σ → String → Except PyException (Option Primitive)
  savePrimitive : Primitive → Action σ Unit
  deletePrimitive : UUID → Action σ Bool
  clear : Action σ ℕ
  updateMetrics : UUID → PrimitiveMetrics → Action σ Unit
  batchReadMetrics : σ → List UUID →
    Except PyException (OrderedDict UUID (Option PrimitiveMetrics))
  batchUpdateMetrics : OrderedDict UUID PrimitiveMetrics → Action σ Unit
  resolveSubgraph : σ → List String → Except PyException ResolvedSubgraph

/-- Save a primitive under the id of any existing primitive with the same name, and return
it as saved. -/
def upsertPrimitive {σ : Type} [Repository σ] (primitive : Primitive) : Action σ Primitive := do
  let existing ← Action.read fun repo => Repository.findByName repo primitive.name
  let canonical := match existing with
    | none => primitive
    | some found => { primitive with id := found.id }
  Repository.savePrimitive canonical
  return canonical

end Vre
