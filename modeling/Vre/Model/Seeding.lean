import Vre.Model.Repository

/-! # Seeders

A seeder of `seeders/` is a program of `upsert_primitive` calls. It builds each primitive
under an identifier of its own, with relata that cite the primitives its earlier calls have
returned.
-/

namespace Vre

/-- One call of a seeder: the primitive it builds, given the ids returned so far. Every
relatum targets one of these. -/
structure SeedCall where
  primitive : List UUID → Primitive
  cites_returned : ∀ returned, ∀ d ∈ (primitive returned).depths, ∀ r ∈ d.relata,
    r.targetId ∈ returned

/-- Make the calls in order, each with a new identifier, and return the ids of what was
saved. -/
def runSeeder {σ : Type} [Repository σ] (draw : Draw) :
    List SeedCall → List UUID → Action σ (List UUID)
  | [], returned => return returned
  | call :: rest, returned => do
      let saved ← upsertPrimitive
        { call.primitive returned with id := draw.uuid4 returned.length }
      runSeeder draw rest (returned ++ [saved.id])

end Vre
