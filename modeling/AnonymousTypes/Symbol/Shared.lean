import AnonymousTypes.Interning
import AnonymousTypes.Symbol.Table
import AnonymousTypes.Table

/-!
# Symbols for several workers

A symbol table that several workers may use at the same time. Each shard is locked on its own. It
keeps its texts twice, in the order of their slots and bound to their slots, so that neither a
symbol nor a text has to be searched for.

Looking for a text takes the lock for reading, and entering it takes the lock for writing, so
these two are the steps of a call (`SharedSymbols.registry`).
-/

namespace AnonymousTypes

/-- The symbol with the given number: the top four bits are the shard. -/
def Symbol.ofRaw (raw : UInt32) : Symbol where
  shard := ⟨raw.toNat / slotCount, Nat.div_lt_of_lt_mul raw.toNat_lt⟩
  slot := ⟨raw.toNat % slotCount, Nat.mod_lt _ (by decide)⟩

/-- The texts of one shard. -/
structure SharedSymbols.Shard where
  /-- the slot of each text -/
  slots : Table String (Fin Symbol.slotCount)
  /-- the texts, in the order of their slots -/
  texts : List String

/-- The interned texts. -/
structure SharedSymbols where
  shards : Vector SharedSymbols.Shard Symbol.shardCount

namespace SharedSymbols

namespace Shard

/-- A shard without texts. -/
def empty : Shard := ⟨.empty, []⟩

/-- Put a text into the next slot. -/
def add (shard : Shard) (text : String) (hroom : shard.texts.length < Symbol.slotCount) : Shard :=
  ⟨shard.slots.insert text ⟨_, hroom⟩, shard.texts ++ [text]⟩

/-- Enter a text into the shard with a given number, unless it is there. Fails when there is no
slot left for it. -/
def enter (shard : Shard) (number : Fin Symbol.shardCount) (text : String) :
    Except Fault (Fin Symbol.slotCount) × Shard :=
  match shard.slots.find? text with
  | some slot => (.ok slot, shard)
  | none =>
    if hroom : shard.texts.length < Symbol.slotCount then
      (.ok ⟨_, hroom⟩, shard.add text hroom)
    else (.error (.shardFull number shard.texts.length), shard)

end Shard

/-- One of the shards. -/
def shard (s : SharedSymbols) (number : Fin Symbol.shardCount) : Shard :=
  s.shards.get number

/-- The table with another shard in the place of one. -/
def setShard (s : SharedSymbols) (number : Fin Symbol.shardCount) (shard : Shard) :
    SharedSymbols :=
  ⟨s.shards.set number shard number.isLt⟩

/-- A table without texts. -/
def empty : SharedSymbols := ⟨Vector.replicate Symbol.shardCount .empty⟩

/-- A table that holds the empty text only. -/
def new : SharedSymbols :=
  empty.setShard Symbol.empty.shard (Shard.empty.add "" (by decide))

/-- The symbol of a text, if the table holds it. -/
def find? (s : SharedSymbols) (text : String) : Option Symbol :=
  let number := SymbolTable.shardOf text
  ((s.shard number).slots.find? text).map (⟨number, ·⟩)

/-- Enter a text, unless it is there. -/
def enter (s : SharedSymbols) (text : String) : Except Fault Symbol × SharedSymbols :=
  let number := SymbolTable.shardOf text
  let (answer, shard) := (s.shard number).enter number text
  (answer.map (⟨number, ·⟩), s.setShard number shard)

/-- What workers do with the table. -/
def registry : Registry SharedSymbols String Symbol := ⟨find?, enter⟩

/-- The text of a symbol. A slot that is not in use is a fault. -/
def text (s : SharedSymbols) (symbol : Symbol) : Except Fault String :=
  match (s.shard symbol.shard).texts[symbol.slot.val]? with
  | some text => .ok text
  | none => .error (.unusedSlot (s.shard symbol.shard).texts.length symbol.slot)

/-- The number of texts, the empty one included. -/
def size (s : SharedSymbols) : Nat :=
  s.shards.toList.foldr (fun shard total => shard.texts.length + total) 0

end SharedSymbols

end AnonymousTypes
