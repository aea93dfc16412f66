/-!
# Delegate keys

A call site whose signature no predefined delegate covers needs a function-pointer
type of its own. What counts is how many parameters there are, which of them are
passed by reference, and whether a value is returned. A `DelegateKey` packs this:
one bit per parameter, thirty-two to a word, the first parameter in the lowest
bit of the first word.

The type's name is made from the key alone, so the same key has the same name in
every compilation: `Ac` (no result) or `Fn`, then — only if some parameter is
passed by reference — the words in braces, eight hexadecimal digits each, and
finally a backtick and the number of generic parameters, one for each parameter
and one for the result.
-/

namespace AnonymousTypes

/-- How a parameter is passed. -/
inductive Passing where
  | byValue
  | byReference
  deriving DecidableEq

namespace Passing

/-- The bit of a parameter. -/
def bit : Passing → Nat
  | .byValue => 0
  | .byReference => 1

/-- The bits of a list of parameters as a number, the first in the lowest place. -/
def toBits : List Passing → Nat
  | [] => 0
  | p :: rest => p.bit + 2 * toBits rest

/-- The number of parameters in one word. -/
abbrev perWord : Nat := 32

/-- The bits of a list of parameters in as many words as they need. -/
def pack (params : List Passing) : List UInt32 :=
  (List.range ((params.length + (perWord - 1)) / perWord)).map fun i =>
    UInt32.ofNat (toBits ((params.drop (i * perWord)).take perWord))

/-- Set the bit of the parameter at a position. -/
def setBit (words : List UInt32) (position : Nat) : List UInt32 :=
  words.modify (position / perWord) (· ||| 1 <<< UInt32.ofNat (position % perWord))

/-- Go through numbered parameters and set the bits of those passed by reference. -/
def setBits (words : List UInt32) (params : List (Passing × Nat)) : List UInt32 :=
  params.foldl (fun words p => if p.1 = byReference then setBit words p.2 else words) words

/-- The bits of a list of parameters, set one after another in words that start as zeros.
This makes the words of `pack` (`packBitwise_eq`), which can be told without the loop. -/
def packBitwise (params : List Passing) : List UInt32 :=
  setBits (List.replicate ((params.length + (perWord - 1)) / perWord) 0) params.zipIdx

end Passing

/-- The signature of a function-pointer type. -/
structure DelegateKey where
  /-- the number of parameters -/
  parameterCount : Nat
  /-- the bits of the parameters that are passed by reference -/
  words : List UInt32
  /-- whether there is no result -/
  returnsVoid : Bool
  /-- the words are those of some parameter list -/
  packed : ∃ params : List Passing, params.length = parameterCount ∧ words = Passing.pack params
  deriving DecidableEq

namespace DelegateKey

/-- The key of a parameter list. -/
def ofParameters (params : List Passing) (returnsVoid : Bool) : DelegateKey where
  parameterCount := params.length
  words := Passing.pack params
  returnsVoid
  packed := ⟨params, rfl, rfl⟩

/-- Whether the parameter at a position is passed by reference; false beyond the last. -/
def isByReference (key : DelegateKey) (position : Nat) : Bool :=
  position < key.parameterCount &&
    (key.words.getD (position / Passing.perWord) 0).toNat.testBit (position % Passing.perWord)

/-- Whether some parameter is passed by reference. -/
def hasByReference (key : DelegateKey) : Bool := key.words.any (· != 0)

/-- For each parameter, whether it is passed by reference. -/
def flags (key : DelegateKey) : List Bool :=
  (List.range key.parameterCount).map key.isByReference

/-- The number of generic parameters: one for each parameter, one for the result. -/
def arity (key : DelegateKey) : Nat :=
  key.parameterCount + if key.returnsVoid then 0 else 1

/-- The largest number of parameters of the predefined delegates. -/
def maxPredefined : Nat := 16

/-- Whether a predefined delegate covers the signature. -/
def isPredefined (key : DelegateKey) : Bool :=
  !key.hasByReference && key.parameterCount ≤ maxPredefined

/-- An upper-case hexadecimal digit. -/
def hexDigit (n : Nat) : Char :=
  if n < 10 then Char.ofNat ('0'.toNat + n) else Char.ofNat ('A'.toNat + (n - 10))

/-- The weights of eight hexadecimal digits, the first digit's first. -/
def hexWeights : List Nat := [0x10000000, 0x1000000, 0x100000, 0x10000, 0x1000, 0x100, 0x10, 1]

/-- A word as eight hexadecimal digits. -/
def hexWord (word : UInt32) : List Char :=
  hexWeights.map fun weight => hexDigit (word.toNat / weight % 16)

/-- The part of the name that spells the parameters passed by reference. -/
def pattern (key : DelegateKey) : List Char :=
  if key.hasByReference then
    '\x7b' :: ['_'].intercalate (key.words.map hexWord) ++ ['\x7d']
  else []

/-- The name of the type. -/
def typeName (key : DelegateKey) : String :=
  (if key.returnsVoid then "Ac" else "Fn") ++ String.ofList key.pattern ++ "`" ++
    toString key.arity

instance : ToString DelegateKey := ⟨typeName⟩

/-- The diagnostic spelling of a key. -/
def describe (key : DelegateKey) : String := s!"DelegateKey({key.typeName})"

end DelegateKey

end AnonymousTypes
