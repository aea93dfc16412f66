import AnonymousTypes.Identity

/-!
# Output settings

What one generation of a compilation produces: the file it is written to, the
submission slot if it is a piece of an interactive program, and whether member
bodies are emitted. With bodies, the caches are sealed when the generation is
finalized; without, late requests stay legal.

The names of shapes contain a *fragment* that stands for the output: the stem of
the file name, with everything but ASCII letters, digits and underscores replaced
by an underscore.
-/

namespace AnonymousTypes

/-- What the output contains. -/
inductive EmitMode where
  /-- definitions and member bodies -/
  | full
  /-- definitions only -/
  | metadataOnly
  deriving DecidableEq

/-- The settings of one generation. -/
structure OutputConfig where
  /-- the file name of the output -/
  moduleName : String := "module"
  /-- the submission slot, for a piece of an interactive program -/
  slot : Option UInt32 := none
  mode : EmitMode := .full
  deriving DecidableEq

/-- The file name at the end of a path: the last component that says something.
Empty components say nothing, and neither does a dot, unless the path starts with
it. There is no file name if that component is a dot or two dots. -/
def fileName (path : List Char) : Option (List Char) :=
  match path.splitOn '/' with
  | [] => none
  | first :: rest =>
    let components := [first].filter (· ≠ []) ++ rest.filter fun c => c ≠ [] ∧ c ≠ ['.']
    match components.getLast? with
    | none => none
    | some name => if name = ['.'] ∨ name = ['.', '.'] then none else some name

/-- A file name up to its last dot. A dot at the very beginning does not count. -/
def fileStem (name : List Char) : List Char :=
  match (name.splitOn '.').reverse with
  | _ :: before :: more =>
    let stem := ['.'].intercalate (before :: more).reverse
    if stem = [] then name else stem
  | _ => name

/-- Whether a character stands for itself in a fragment. -/
def isFragmentChar (c : Char) : Bool := c.isAlphanum || c == '_'

namespace OutputConfig

/-- Whether finalization seals the caches. -/
def seals (config : OutputConfig) : Bool := config.mode == .full

/-- The fragment that stands for the output in the names of its shapes. -/
def fragment (config : OutputConfig) : String :=
  match fileName config.moduleName.toList with
  | none => ""
  | some name =>
    String.ofList ((fileStem name).map fun c => if isFragmentChar c then c else '_')

end OutputConfig

end AnonymousTypes
