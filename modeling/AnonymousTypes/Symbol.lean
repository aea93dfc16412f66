/-!
# Symbols

Identifiers are compared far more often than they are read, so each distinct
text is stored once, in a symbol table (`AnonymousTypes.Symbol.Table`), and named
by a `Symbol`: the *shard* of the table that holds the text, and the *slot* that
the text has there.

As a number, a symbol has the shard in its top four bits and the slot below.
-/

namespace AnonymousTypes

/-- The number of shards of a symbol table. -/
abbrev Symbol.shardCount : Nat := 16

/-- The number of slots of a shard. -/
abbrev Symbol.slotCount : Nat := 268435456

/-- The last slot of a shard. -/
def Symbol.lastSlot : Nat := Symbol.slotCount - 1

/-- An interned text: the shard it lives in and its position there. -/
structure Symbol where
  /-- the shard -/
  shard : Fin Symbol.shardCount
  /-- the position within the shard -/
  slot : Fin Symbol.slotCount
  deriving DecidableEq

namespace Symbol

/-- The symbol of the empty text. -/
def empty : Symbol := ⟨0, 0⟩

/-- The symbol as one 32-bit number, the shard in the top four bits. -/
def raw (s : Symbol) : UInt32 := UInt32.ofNat (s.shard * slotCount + s.slot)

/-- The diagnostic spelling of a symbol. -/
def describe (s : Symbol) : String := s!"Name({s.shard.val}:{s.slot.val})"

end Symbol

end AnonymousTypes
