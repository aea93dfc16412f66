import AnonymousTypes.Diagnostic
import AnonymousTypes.Identity

/-!
# Rejections

A *rejection* is the orderly refusal of a step that breaks a contract between the
compiler and this library. Mistakes in the program being compiled are not
rejections: they become diagnostics. A rejection can be shown as a diagnostic as
well (`Rejection.toDiagnostic`), which then says that the compiler is at fault.

A step fails by a rejection or by a fault.
-/

namespace AnonymousTypes

/-- The position of a generation in its chain; the first one is number zero. -/
structure GenerationId where
  ordinal : Nat
  deriving DecidableEq

instance : ToString GenerationId := ⟨fun g => s!"G{g.ordinal}"⟩

/-- A contract that was broken, by its cause. -/
inductive Rejection where
  /-- a type that is named already was to be given another identity -/
  | identityConflict (family : Family) (key : String) (existing attempted : Identity)
  /-- a new key was requested after the cache had been sealed -/
  | insertAfterSeal (family : Family) (key : String)
  /-- a shape was applied to the wrong number of types -/
  | arityMismatch (key : String) (expected found : Nat)
  /-- a generation was finalized for a second time -/
  | alreadyFinalized (generation : GenerationId)
  /-- a generation was derived from one that is not finalized -/
  | unfinalizedPredecessor (generation : GenerationId)
  deriving DecidableEq

/-- The wording of a rejection. -/
def Rejection.message : Rejection → String
  | .identityConflict family key existing attempted =>
    s!"{family.noun} `{key}` is already named {existing}, refusing to rename it to {attempted}"
  | .insertAfterSeal family key =>
    s!"{family.noun} `{key}` was requested after synthesized types were sealed"
  | .arityMismatch key expected found =>
    s!"shape `{key}` takes {expected} type argument(s), got {found}"
  | .alreadyFinalized generation => s!"generation {generation} has already been finalized"
  | .unfinalizedPredecessor generation =>
    s!"cannot derive a generation from {generation} before it is finalized"

/-- The rejection as a report to the user. -/
def Rejection.toDiagnostic (r : Rejection) : Diagnostic :=
  ((Diagnostic.ofError .internal).withMessage ("internal compiler error: " ++ r.message)).withNote
    "this is a bug in the compiler, not in the program being compiled"

/-- Why a step failed. -/
inductive Failure where
  /-- the step was refused -/
  | rejected (cause : Rejection)
  /-- the step ran into a fault -/
  | fault (cause : Fault)
  deriving DecidableEq

/-- The wording of a failure. -/
def Failure.message : Failure → String
  | .rejected cause => cause.message
  | .fault cause => cause.message

end AnonymousTypes
