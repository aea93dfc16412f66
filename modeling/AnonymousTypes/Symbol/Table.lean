import AnonymousTypes.Fault
import AnonymousTypes.Text.Utf8

/-!
# Symbol tables

The texts behind the symbols. A table consists of sixteen *shards*, and the text
alone decides in which of them it lives (`SymbolTable.shardOf`); within its shard a
text is named by its *slot*, the position at which it was added. Slots are never
freed, so a symbol stays valid for as long as the table lives. The empty text is
there from the start and owns the symbol with shard and slot zero.

The type carries what every operation keeps: no shard exceeds its slots, no text
occurs twice in a shard, and each text is in the shard that it belongs to.
-/

namespace AnonymousTypes

/-- The symbol with the given shard and slot. The shard is checked first. -/
def Symbol.ofParts (shard slot : Nat) : Except Fault Symbol :=
  if hs : shard < shardCount then
    if hl : slot < slotCount then .ok ⟨⟨shard, hs⟩, ⟨slot, hl⟩⟩
    else .error .slotOutOfRange
  else .error .shardOutOfRange

/-- The shard that a text belongs to: its first eight bytes as digits to the
base 31, in 32-bit arithmetic, modulo the number of shards. -/
def SymbolTable.shardOf (text : String) : Fin Symbol.shardCount :=
  let hash := ((Text.Utf8.encode text).take 8).foldl
    (fun (h : UInt32) (byte : UInt8) => h * 31 + byte.toUInt32) 0
  ⟨hash.toNat % Symbol.shardCount, Nat.mod_lt _ (by decide)⟩

/-- The interned texts. -/
structure SymbolTable where
  /-- the texts of each shard, in the order in which they were added -/
  shards : Vector (List String) Symbol.shardCount
  /-- a shard holds no more texts than it has slots -/
  bounded : ∀ (i : Nat) (h : i < Symbol.shardCount), shards[i].length ≤ Symbol.slotCount
  /-- no text occurs twice in a shard -/
  nodup : ∀ (i : Nat) (h : i < Symbol.shardCount), shards[i].Nodup
  /-- each text is in its own shard -/
  placed : ∀ (i : Nat) (h : i < Symbol.shardCount), ∀ text ∈ shards[i],
    (SymbolTable.shardOf text).val = i

namespace SymbolTable

/-- The texts of one shard. -/
def shard (t : SymbolTable) (i : Fin Symbol.shardCount) : List String := t.shards[i]

/-- A table that holds the empty text only. -/
def new : SymbolTable where
  shards := (Vector.replicate Symbol.shardCount []).set 0 [""]
  bounded i h := by
    rw [Vector.getElem_set]
    split <;> simp [Symbol.slotCount]
  nodup i h := by
    rw [Vector.getElem_set]
    split <;> simp
  placed i h := by
    rw [Vector.getElem_set]
    split
    · rename_i h0
      subst h0
      intro text ht
      rw [List.mem_singleton.1 ht]
      rfl
    · simp

/-- Add a text that its shard does not hold, at the end of the shard. -/
def add (t : SymbolTable) (text : String) (hnew : text ∉ t.shard (shardOf text))
    (hroom : (t.shard (shardOf text)).length < Symbol.slotCount) : SymbolTable where
  shards := t.shards.set (shardOf text) (t.shard (shardOf text) ++ [text])
  bounded i h := by
    rw [Vector.getElem_set]
    split
    · rw [List.length_append]
      exact hroom
    · exact t.bounded i h
  nodup i h := by
    rw [Vector.getElem_set]
    split
    · refine List.nodup_append.2 ⟨t.nodup _ (shardOf text).isLt, by simp, ?_⟩
      intro a ha b hb hab
      rw [List.mem_singleton.1 hb] at hab
      exact hnew (hab ▸ ha)
    · exact t.nodup i h
  placed i h := by
    rw [Vector.getElem_set]
    split
    · rename_i hi
      intro s hs
      rcases List.mem_append.1 hs with hs | hs
      · exact (t.placed _ (shardOf text).isLt s hs).trans hi
      · rw [List.mem_singleton.1 hs]
        exact hi
    · exact t.placed i h

/-- The symbol of a text that the table holds. -/
def symbolOf (t : SymbolTable) (text : String) (h : text ∈ t.shard (shardOf text)) : Symbol where
  shard := shardOf text
  slot := ⟨(t.shard (shardOf text)).idxOf text,
    Nat.lt_of_lt_of_le (List.idxOf_lt_length_of_mem h) (t.bounded _ (shardOf text).isLt)⟩

/-- The symbol of a text, if the table holds it. -/
def find? (t : SymbolTable) (text : String) : Option Symbol :=
  if h : text ∈ t.shard (shardOf text) then some (t.symbolOf text h) else none

/-- The symbol of a text, which is added first if the table does not hold it.
Fails when the text would need a slot that its shard does not have. -/
def intern (t : SymbolTable) (text : String) : Except Fault (Symbol × SymbolTable) :=
  if h : text ∈ t.shard (shardOf text) then .ok (t.symbolOf text h, t)
  else if hroom : (t.shard (shardOf text)).length < Symbol.slotCount then
    .ok (⟨shardOf text, ⟨_, hroom⟩⟩, t.add text h hroom)
  else .error (.shardFull (shardOf text) (t.shard (shardOf text)).length)

/-- The text of a symbol, if the table uses its slot. -/
def text? (t : SymbolTable) (s : Symbol) : Option String := (t.shard s.shard)[s.slot.val]?

/-- The text of a symbol. A slot that is not in use is a fault. -/
def text (t : SymbolTable) (s : Symbol) : Except Fault String :=
  match t.text? s with
  | some text => .ok text
  | none => .error (.unusedSlot (t.shard s.shard).length s.slot)

/-- The number of texts, the empty one included. -/
def size (t : SymbolTable) : Nat :=
  t.shards.toList.foldr (fun texts total => texts.length + total) 0

/-- Whether the table holds no text but the empty one. -/
def isEmpty (t : SymbolTable) : Bool := t.size ≤ 1

end SymbolTable

end AnonymousTypes
