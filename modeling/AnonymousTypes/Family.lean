/-!
# The two families of synthesized types

A compilation synthesizes two kinds of definitions: *shapes*, the anonymous
records that programs construct, and *delegates*, the function-pointer types of
call sites that no predefined delegate covers. Both live in caches that behave
alike, so most of this library is stated once for a `Family`.
-/

namespace AnonymousTypes

/-- Which kind of definition is meant. -/
inductive Family where
  /-- anonymous records -/
  | shape
  /-- function-pointer types -/
  | delegate
  deriving DecidableEq

/-- The word for a member of the family, as error messages use it. -/
def Family.noun : Family → String
  | .shape => "shape"
  | .delegate => "delegate"

end AnonymousTypes
