import Vre.Library.Components
import Vre.Library.Digraph
import Vre.Library.LineLog
import Vre.Library.Loops
import Vre.Library.OrderedDict
import Vre.Library.Runs
import Vre.Library.Subperm
import Vre.Library.Transactions
import Vre.Library.Worklist
import Vre.Model.Depth
import Vre.Model.Epistemic
import Vre.Model.Errors
import Vre.Model.Grounding
import Vre.Model.Guard
import Vre.Model.Identity
import Vre.Model.Interface
import Vre.Model.Knowledge
import Vre.Model.Learning
import Vre.Model.Neo4j
import Vre.Model.Policy
import Vre.Model.PyPrimitive
import Vre.Model.ReferenceLoop
import Vre.Model.Repository
import Vre.Model.Rows
import Vre.Model.SchemaVersion
import Vre.Model.Seeding
import Vre.Model.SplitRead
import Vre.Model.Sqlite
import Vre.Model.Tracing
import Vre.Verification.Grounding.Accretion
import Vre.Verification.Grounding.Check
import Vre.Verification.Grounding.Composition
import Vre.Verification.Grounding.Connectivity
import Vre.Verification.Grounding.Demands
import Vre.Verification.Grounding.DepthGate
import Vre.Verification.Grounding.Disclosure
import Vre.Verification.Grounding.Envelope
import Vre.Verification.Grounding.Gaps
import Vre.Verification.Grounding.Growth
import Vre.Verification.Grounding.Locality
import Vre.Verification.Grounding.Placeholders
import Vre.Verification.Grounding.ReadPaths
import Vre.Verification.Grounding.Rearrangement
import Vre.Verification.Grounding.Requirements
import Vre.Verification.Grounding.Resolution
import Vre.Verification.Grounding.Roots
import Vre.Verification.Grounding.Strict
import Vre.Verification.Grounding.Symmetry
import Vre.Verification.Grounding.Trace
import Vre.Verification.Identity.Interleaving
import Vre.Verification.Interface.Sessions
import Vre.Verification.Interface.SplitReads
import Vre.Verification.Interface.Tracing
import Vre.Verification.Knowledge.Base
import Vre.Verification.Knowledge.Contiguity
import Vre.Verification.Knowledge.Hydration
import Vre.Verification.Knowledge.PyPrimitive
import Vre.Verification.Knowledge.Serialization
import Vre.Verification.Learning.Acceptance
import Vre.Verification.Learning.Additions
import Vre.Verification.Learning.Attestation
import Vre.Verification.Learning.Backends
import Vre.Verification.Learning.Bridging
import Vre.Verification.Learning.Concurrency
import Vre.Verification.Learning.Effect
import Vre.Verification.Learning.Holes
import Vre.Verification.Learning.LearnedGraphs
import Vre.Verification.Learning.Placement
import Vre.Verification.Learning.Prerequisites
import Vre.Verification.Learning.Preservation
import Vre.Verification.Learning.ReferenceLoop
import Vre.Verification.Learning.Replays
import Vre.Verification.Learning.Script
import Vre.Verification.Learning.Serializability
import Vre.Verification.Learning.Templates
import Vre.Verification.Learning.Validation
import Vre.Verification.Metrics.Conservation
import Vre.Verification.Metrics.Counting
import Vre.Verification.Metrics.Interleaving
import Vre.Verification.Metrics.Statements
import Vre.Verification.Policy.Gate
import Vre.Verification.Policy.Growth
import Vre.Verification.Policy.Lifecycle
import Vre.Verification.Policy.Mediation
import Vre.Verification.Policy.Placements
import Vre.Verification.Policy.Registry
import Vre.Verification.Policy.Tightening
import Vre.Verification.Store.Closure
import Vre.Verification.Store.Conformance
import Vre.Verification.Store.Knowledge
import Vre.Verification.Store.Live
import Vre.Verification.Store.Neo4j
import Vre.Verification.Store.Refinement
import Vre.Verification.Store.Refusals
import Vre.Verification.Store.Retention
import Vre.Verification.Store.RoundTrip
import Vre.Verification.Store.Runs
import Vre.Verification.Store.Save
import Vre.Verification.Store.Schema
import Vre.Verification.Store.SchemaVersion
import Vre.Verification.Store.Seeding
import Vre.Verification.Store.WellFormed
