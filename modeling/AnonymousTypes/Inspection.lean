import AnonymousTypes.Session
import AnonymousTypes.Text.Quoted

/-!
# Inspection texts

How debugger and log show keys, templates and generations: the name of the type,
then its parts in braces. Where only the most telling parts are shown, two dots
stand for the others. Texts are quoted.
-/

namespace AnonymousTypes

/-- A value by its named parts; `hasMore` tells whether some are left out. -/
def inspectRecord (name : String) (parts : List (String × String)) (hasMore : Bool) : String :=
  let shown := parts.map (fun part => part.1 ++ ": " ++ part.2) ++ if hasMore then [".."] else []
  name ++ " \x7b " ++ ", ".intercalate shown ++ " \x7d"

/-- A value that may be missing. -/
def inspectOption {α : Type} (inspect : α → String) : Option α → String
  | none => "None"
  | some a => "Some(" ++ inspect a ++ ")"

/-- A generation number. -/
def GenerationId.inspect (id : GenerationId) : String := s!"GenerationId({id.ordinal})"

/-- A shape key, by its canonical text. -/
def ShapeKey.inspect (key : ShapeKey) : String := "ShapeKey(" ++ Text.quote key.canonical ++ ")"

/-- An identity: the name and the index. -/
def Identity.inspect (i : Identity) : String :=
  inspectRecord "NameAndIndex" [("name", Text.quote i.name), ("index", toString i.index)] false

/-- The two counters. -/
def Numbering.inspect (n : Numbering) : String :=
  inspectRecord "NumberingState"
    [("next_shape_index", toString n.nextShape), ("next_delegate_index", toString n.nextDelegate)]
    false

/-- A template: its key, the generation that created it, its identity, and for a
shape the earliest location. -/
def Template.inspect : (family : Family) → Template family → String
  | .shape, t =>
    inspectRecord "ShapeTemplate"
      [("key", ShapeKey.inspect t.key), ("owner", t.owner.inspect),
        ("identity", inspectOption Identity.inspect t.identity),
        ("smallest_location", inspectOption toString t.earliest?)] true
  | .delegate, t =>
    inspectRecord "DelegateTemplate"
      [("name", Text.quote (DelegateKey.typeName t.key)), ("owner", t.owner.inspect),
        ("identity", inspectOption Identity.inspect t.identity)] true

/-- A generation: its position in the chain, its output, the number of templates it
created, and the counters it left behind. -/
def Generation.inspect (g : Generation) : String :=
  inspectRecord "Generation"
    [("id", g.id.inspect), ("module", Text.quote g.config.moduleName),
      ("shapes", toString g.shapes.size), ("delegates", toString g.delegates.size),
      ("finalized", inspectOption Numbering.inspect g.finalized)] true

end AnonymousTypes
