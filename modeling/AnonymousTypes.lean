import AnonymousTypes.Cache
import AnonymousTypes.Cache.Race
import AnonymousTypes.Construction
import AnonymousTypes.Construction.Fields
import AnonymousTypes.Definition
import AnonymousTypes.Delegate.Key
import AnonymousTypes.Diagnostic
import AnonymousTypes.Failure
import AnonymousTypes.Family
import AnonymousTypes.Fault
import AnonymousTypes.Identity
import AnonymousTypes.IdentityMap
import AnonymousTypes.IdentityMap.Bytes
import AnonymousTypes.Inspection
import AnonymousTypes.Interning
import AnonymousTypes.Output
import AnonymousTypes.Session
import AnonymousTypes.Session.Applied
import AnonymousTypes.Session.Finalization
import AnonymousTypes.Session.Run
import AnonymousTypes.Session.Step
import AnonymousTypes.Shape.Key
import AnonymousTypes.Sorted
import AnonymousTypes.Source
import AnonymousTypes.Symbol
import AnonymousTypes.Symbol.Shared
import AnonymousTypes.Symbol.Table
import AnonymousTypes.Table
import AnonymousTypes.Text.Hidden
import AnonymousTypes.Text.Quoted
import AnonymousTypes.Text.Utf8
import AnonymousTypes.Types
import AnonymousTypes.Types.Shared
import AnonymousTypes.Proofs.Sorting
import AnonymousTypes.Proofs.Serving
import AnonymousTypes.Proofs.Racing
import AnonymousTypes.Proofs.Finishing
import AnonymousTypes.Proofs.Asking
import AnonymousTypes.Proofs.Coherence
import AnonymousTypes.Proofs.Continuity
import AnonymousTypes.Proofs.RaceSafety
import AnonymousTypes.Proofs.Spelling
import AnonymousTypes.Proofs.Naming
import AnonymousTypes.Proofs.Likeness
import AnonymousTypes.Proofs.Apart
import AnonymousTypes.Proofs.Determinism
import AnonymousTypes.Proofs.Simulation
import AnonymousTypes.Proofs.Visibility
import AnonymousTypes.Proofs.Lineage
import AnonymousTypes.Proofs.OutputMap
import AnonymousTypes.Proofs.Emission
import AnonymousTypes.Proofs.Storing
import AnonymousTypes.Proofs.Exhaustion
import AnonymousTypes.Proofs.Restarting
import AnonymousTypes.Proofs.Chains
import AnonymousTypes.Proofs.Independence
import AnonymousTypes.Proofs.CanonicalText
import AnonymousTypes.Proofs.Utf8
import AnonymousTypes.Proofs.StoredForm
import AnonymousTypes.Proofs.Auditing
import AnonymousTypes.Proofs.Freezing
import AnonymousTypes.Proofs.Packing
import AnonymousTypes.Proofs.Attempts
import AnonymousTypes.Proofs.Conflict
import AnonymousTypes.Proofs.Overflow
import AnonymousTypes.Proofs.Describing
import AnonymousTypes.Proofs.Sharing
import AnonymousTypes.Proofs.HandingOver
import AnonymousTypes.Proofs.Reporting
import AnonymousTypes.Proofs.Colliding
import AnonymousTypes.Proofs.Locating
import AnonymousTypes.Proofs.Drifting
import AnonymousTypes.Proofs.Accounting
import AnonymousTypes.Proofs.Interning
import AnonymousTypes.Proofs.Symbols
import AnonymousTypes.Proofs.Pooling
import AnonymousTypes.Proofs.Fragments
import AnonymousTypes.Proofs.SourceOrder
import AnonymousTypes.Proofs.Eligibility
