import AnonymousTypes.Source

/-!
# Diagnostics

A diagnostic reports a mistake in the program being compiled: a code that never
changes its meaning, a severity, one message, any number of labelled locations
and any number of notes. The location a reader should look at first is the first
label marked *primary*; the others give context.

Diagnostics are built up by the `with…` functions, each of which adds one part.
-/

namespace AnonymousTypes

/-- What a diagnostic is about. -/
inductive DiagnosticCode where
  /-- two fields of one construction have the same name -/
  | duplicateField
  /-- the type of an initializer may not be stored in a field -/
  | ineligibleType
  /-- an initializer has no type of its own -/
  | untypedInitializer
  /-- constructions are not allowed here -/
  | illegalContext
  /-- no field name is written and none can be inferred -/
  | missingName
  /-- the compiler itself is at fault -/
  | internal
  deriving DecidableEq

namespace DiagnosticCode

/-- Every code. -/
def all : List DiagnosticCode :=
  [duplicateField, ineligibleType, untypedInitializer, illegalContext, missingName, internal]

/-- The code as it is printed. -/
def text : DiagnosticCode → String
  | duplicateField => "E2101"
  | ineligibleType => "E2102"
  | untypedInitializer => "E2103"
  | illegalContext => "E2104"
  | missingName => "E2105"
  | internal => "E9001"

/-- Codes whose text starts with `E9` report failures of the compiler. -/
def isInternal (code : DiagnosticCode) : Bool := ['E', '9'].isPrefixOf code.text.toList

/-- The code with the given text. -/
def ofText? (text : String) : Option DiagnosticCode := all.find? (·.text == text)

end DiagnosticCode

/-- How serious a diagnostic is. -/
inductive Severity where
  | error
  | warning
  | note
  deriving DecidableEq

/-- The word for a severity. -/
def Severity.text : Severity → String
  | .error => "error"
  | .warning => "warning"
  | .note => "note"

/-- A location with a remark. -/
structure DiagnosticLabel where
  location : Location
  message : String
  /-- whether this is where to look first -/
  isPrimary : Bool
  deriving DecidableEq

/-- A report about the program being compiled. -/
structure Diagnostic where
  code : DiagnosticCode
  severity : Severity
  message : String := ""
  labels : List DiagnosticLabel := []
  notes : List String := []
  deriving DecidableEq

namespace Diagnostic

/-- An error without any details yet. -/
def ofError (code : DiagnosticCode) : Diagnostic where
  code
  severity := .error

/-- Set the message. -/
def withMessage (d : Diagnostic) (message : String) : Diagnostic := { d with message }

/-- Add a primary label. -/
def withLabel (d : Diagnostic) (location : Location) (message : String) : Diagnostic :=
  { d with labels := d.labels ++ [⟨location, message, true⟩] }

/-- Add a label that only gives context. -/
def withSecondaryLabel (d : Diagnostic) (location : Location) (message : String) :
    Diagnostic :=
  { d with labels := d.labels ++ [⟨location, message, false⟩] }

/-- Add a note. -/
def withNote (d : Diagnostic) (note : String) : Diagnostic := { d with notes := d.notes ++ [note] }

/-- Whether the diagnostic is an error. -/
def isError (d : Diagnostic) : Bool := d.severity == .error

/-- Where to look first: the location of the first primary label. -/
def primaryLocation? (d : Diagnostic) : Option Location :=
  (d.labels.find? (·.isPrimary)).map (·.location)

instance : ToString Diagnostic :=
  ⟨fun d => s!"{d.severity.text}[{d.code.text}]: {d.message}"⟩

end Diagnostic

end AnonymousTypes
