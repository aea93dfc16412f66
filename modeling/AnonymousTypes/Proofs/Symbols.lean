import Mathlib.Data.List.Dedup
import Mathlib.Data.List.Perm.Subperm
import AnonymousTypes.Proofs.Interning
import AnonymousTypes.Symbol.Shared

/-!
# Symbols stand for texts

A text has one symbol, and a symbol stands for one text, whoever interns it and however the steps
of several workers are interleaved (`SharedSymbols.stable_bijection`).

Within a shard the slots are bound to the texts and the texts stand in their slots, and neither
says anything that the other does not (`Shard.WellFormed`). A text is looked for in one shard only,
so the number of this shard belongs to its symbol. Both numbers are read back from the one word in
which they are packed (`Symbol.raw_ofRaw`, `Symbol.ofRaw_raw`).
-/

namespace AnonymousTypes

/-! ## Symbols as numbers -/

namespace Symbol

/-- The number of a symbol as a sum: the shard in the high bits and the slot below. There is no
overflow, because there are as many symbols as words. -/
theorem toNat_raw (s : Symbol) : s.raw.toNat = s.shard * slotCount + s.slot := by
  have hshard : s.shard.val < 16 := s.shard.isLt
  have hslot : s.slot.val < 268435456 := s.slot.isLt
  refine UInt32.toNat_ofNat_of_lt' ?_
  change s.shard.val * 268435456 + s.slot.val < 4294967296
  omega

/-- **A symbol** can be read back from its number. -/
theorem ofRaw_raw (s : Symbol) : ofRaw s.raw = s := by
  have hraw : s.raw.toNat = s.shard.val * 268435456 + s.slot.val := s.toNat_raw
  have hslot : s.slot.val < 268435456 := s.slot.isLt
  have hshard' : s.raw.toNat / 268435456 = s.shard.val := by omega
  have hslot' : s.raw.toNat % 268435456 = s.slot.val := by omega
  exact congrArg₂ Symbol.mk (Fin.ext hshard') (Fin.ext hslot')

/-- **Every number** is that of a symbol. -/
theorem raw_ofRaw (raw : UInt32) : (ofRaw raw).raw = raw := by
  rw [← UInt32.toNat_inj, toNat_raw, ofRaw]
  exact Nat.div_add_mod' ..

/-- So symbols may be compared by their numbers. -/
theorem raw_inj {a b : Symbol} : a.raw = b.raw ↔ a = b :=
  ⟨fun h => by rw [← ofRaw_raw a, h, ofRaw_raw], congrArg raw⟩

end Symbol

/-! ## Tables for one worker -/

namespace SymbolTable

/-- A text has a symbol exactly if it stands in the slot of this symbol. From right to left this
needs that texts are placed in their own shard, and that none stands there twice: the search
returns the first slot. -/
theorem find?_eq_some_iff (t : SymbolTable) {text : String} {symbol : Symbol} :
    t.find? text = some symbol ↔ (t.shard symbol.shard)[symbol.slot.val]? = some text := by
  constructor
  · intro hfind
    rw [find?] at hfind
    split at hfind
    · obtain rfl := Option.some.inj hfind
      exact List.getElem?_eq_some_iff.2 ⟨List.idxOf_lt_length_of_mem ‹_›, List.getElem_idxOf _⟩
    · cases hfind
  · intro hget
    obtain ⟨number, slot⟩ := symbol
    have hmem := List.mem_of_getElem? hget
    obtain rfl : shardOf text = number := Fin.ext (t.placed _ number.isLt text hmem)
    obtain ⟨hlt, htext⟩ := List.getElem?_eq_some_iff.1 hget
    have hslot : (t.shard (shardOf text)).idxOf text = slot.val :=
      (congrArg (List.idxOf · _) htext.symm).trans
        ((t.nodup _ (shardOf text).isLt).idxOf_getElem slot.val hlt)
    rw [find?, dif_pos hmem, symbolOf, Option.some.injEq, Symbol.mk.injEq]
    exact ⟨rfl, Fin.ext hslot⟩

/-- Interning a known text adds nothing. -/
theorem intern_of_find? (t : SymbolTable) {text : String} {symbol : Symbol}
    (h : t.find? text = some symbol) : t.intern text = .ok (symbol, t) := by
  rw [find?] at h
  split at h
  · rw [intern, dif_pos ‹_›, Option.some.inj h]
  · cases h

/-- Intern texts one after the other. -/
def internAll (t : SymbolTable) : List String → Except Fault SymbolTable
  | [] => .ok t
  | text :: rest => do
    let (_, t) ← t.intern text
    t.internAll rest

variable {t : SymbolTable} {text : String} (hnew : text ∉ t.shard (shardOf text))
  (hroom : (t.shard (shardOf text)).length < Symbol.slotCount)

/-- A new text is put at the end of its shard, so the slots of the others stay. -/
theorem shard_add_self :
    (t.add text hnew hroom).shard (shardOf text) = t.shard (shardOf text) ++ [text] :=
  Vector.getElem_set_self ..

theorem shard_add_ne {number : Fin Symbol.shardCount} (hne : number ≠ shardOf text) :
    (t.add text hnew hroom).shard number = t.shard number :=
  Vector.getElem_set_ne (shardOf text).isLt number.isLt fun he => hne (Fin.ext he.symm)

end SymbolTable

namespace SharedSymbols

open SymbolTable (shardOf)

variable {number : Fin Symbol.shardCount} {text other : String}

/-! ## Shards -/

/-- The slots and the texts of a shard say the same, and the texts belong there. -/
structure Shard.WellFormed (number : Fin Symbol.shardCount) (shard : Shard) : Prop where
  bounded : shard.texts.length ≤ Symbol.slotCount
  inverse : Locates shard.slots.find? Fin.val shard.texts
  placed : ∀ text ∈ shard.texts, shardOf text = number

namespace Shard

variable {shard : Shard}

/-- A shard starts without texts and without slots. -/
theorem wellFormed_empty (number : Fin Symbol.shardCount) : Shard.empty.WellFormed number :=
  ⟨Nat.zero_le _, fun _ _ => by simp [empty], fun _ h => nomatch h⟩

namespace WellFormed

variable (h : shard.WellFormed number)

include h

theorem places : ∀ i < shard.texts.length, ∃ slot : Fin Symbol.slotCount, slot.val = i :=
  fun i hi => ⟨⟨i, Nat.lt_of_lt_of_le hi h.bounded⟩, rfl⟩

/-- The texts of a shard are those that have a slot. -/
theorem mem_iff : text ∈ shard.texts ↔ (shard.slots.find? text).isSome :=
  h.inverse.mem_iff h.places

/-- No text has two slots. -/
theorem nodup : shard.texts.Nodup := h.inverse.nodup h.places

/-- A text that has no slot yet can be added, if it belongs here and there is room. -/
theorem add (hnone : shard.slots.find? text = none) (hplaced : shardOf text = number)
    (hroom : shard.texts.length < Symbol.slotCount) : (shard.add text hroom).WellFormed number := by
  refine ⟨?_, ?_, ?_⟩
  · rw [Shard.add, List.length_append]
    exact hroom
  · exact h.inverse.concat (fun _ _ => Fin.ext) rfl hnone (Table.find?_insert_self ..)
      fun _ hne => Table.find?_insert_ne _ _ hne
  · intro other hother
    rcases List.mem_append.1 hother with hother | hother
    · exact h.placed other hother
    · exact List.mem_singleton.1 hother ▸ hplaced

end WellFormed

end Shard

/-! ## Tables -/

variable {s : SharedSymbols} {symbol : Symbol}

@[simp] theorem shard_setShard_self (number : Fin Symbol.shardCount) (shard : Shard) :
    (s.setShard number shard).shard number = shard :=
  Vector.getElem_set_self ..

@[simp] theorem setShard_shard (s : SharedSymbols) (number : Fin Symbol.shardCount) :
    s.setShard number (s.shard number) = s :=
  congrArg SharedSymbols.mk (Vector.set_getElem_self ..)

theorem shard_setShard_ne {number' : Fin Symbol.shardCount} (shard : Shard)
    (hne : number' ≠ number) : (s.setShard number shard).shard number' = s.shard number' :=
  Vector.getElem_set_ne number.isLt number'.isLt fun he => hne (Fin.ext he.symm)

/-- Put a text into the next slot of its shard. -/
def add (s : SharedSymbols) (text : String)
    (hroom : (s.shard (shardOf text)).texts.length < Symbol.slotCount) : SharedSymbols :=
  s.setShard (shardOf text) ((s.shard (shardOf text)).add text hroom)

/-- A text without a symbol is missing in its own shard. It is looked for nowhere else. -/
theorem find?_eq_none_iff :
    s.find? text = none ↔ (s.shard (shardOf text)).slots.find? text = none :=
  Option.map_eq_none_iff

/-- The new text is found in the slot that was the next one. -/
theorem find?_add_self (hroom : (s.shard (shardOf text)).texts.length < Symbol.slotCount) :
    (s.add text hroom).find? text = some ⟨shardOf text, ⟨_, hroom⟩⟩ := by
  rw [find?, add, shard_setShard_self, Shard.add, Table.find?_insert_self]
  rfl

/-- All other texts keep their symbols, in the same shard and in the others. -/
theorem find?_add_ne (hroom : (s.shard (shardOf text)).texts.length < Symbol.slotCount)
    (hne : other ≠ text) : (s.add text hroom).find? other = s.find? other := by
  rw [find?, find?, add]
  by_cases he : shardOf other = shardOf text
  · rw [he, shard_setShard_self, Shard.add, Table.find?_insert_ne _ _ hne]
  · rw [shard_setShard_ne _ he]

/-- **A known text** keeps its symbol, and nothing is added. -/
theorem enter_of_some (h : s.find? text = some symbol) : s.enter text = (.ok symbol, s) := by
  obtain ⟨slot, hslot, rfl⟩ := Option.map_eq_some_iff.1 h
  simp only [enter, Shard.enter, hslot, setShard_shard]
  rfl

/-- **A new text** gets the next slot of its shard. -/
theorem enter_of_none (h : s.find? text = none)
    (hroom : (s.shard (shardOf text)).texts.length < Symbol.slotCount) :
    s.enter text = (.ok ⟨shardOf text, ⟨_, hroom⟩⟩, s.add text hroom) := by
  simp only [enter, Shard.enter, find?_eq_none_iff.1 h, dif_pos hroom]
  rfl

/-- **No slot** is left for a new text. -/
theorem enter_of_full (h : s.find? text = none)
    (hfull : ¬(s.shard (shardOf text)).texts.length < Symbol.slotCount) :
    s.enter text =
      (.error (.shardFull (shardOf text) (s.shard (shardOf text)).texts.length), s) := by
  simp only [enter, Shard.enter, find?_eq_none_iff.1 h, dif_neg hfull, setShard_shard]
  rfl

/-- A new table is the empty one with the empty text entered, which is why its symbol is the
number zero. -/
theorem new_eq_add : new = empty.add "" (by decide) := rfl

/-- No shard has to hold more of the texts than it has slots. -/
def HasRoom (texts : List String) : Prop :=
  ∀ number, (texts.dedup.filter (shardOf · = number)).length ≤ Symbol.slotCount

instance (texts : List String) : Decidable (HasRoom texts) :=
  inferInstanceAs (Decidable (∀ number, (texts.dedup.filter (shardOf · = number)).length ≤ _))

/-- Every shard is well formed. -/
def WellFormed (s : SharedSymbols) : Prop := ∀ number, (s.shard number).WellFormed number

theorem shard_empty (number : Fin Symbol.shardCount) : empty.shard number = .empty :=
  Vector.getElem_replicate ..

theorem wellFormed_empty : empty.WellFormed := fun number => by
  rw [shard_empty]
  exact Shard.wellFormed_empty number

theorem find?_empty (text : String) : empty.find? text = none := by
  rw [find?_eq_none_iff, shard_empty]
  rfl

/-- Reading a symbol fails only if its slot is not taken yet. -/
theorem text_eq_ok_iff_getElem? :
    s.text symbol = .ok text ↔ (s.shard symbol.shard).texts[symbol.slot.val]? = some text := by
  rw [SharedSymbols.text]
  split <;> simp_all

/-- The texts of all shards. -/
def allTexts (s : SharedSymbols) : List String :=
  (List.finRange Symbol.shardCount).flatMap fun number => (s.shard number).texts

/-- The size of the table is what the shards hold together. -/
theorem length_allTexts (s : SharedSymbols) : s.allTexts.length = s.size := by
  have hshards : s.shards.toList = (List.finRange Symbol.shardCount).map s.shard := by
    refine List.ext_getElem (by simp) fun i _ _ => ?_
    rw [Vector.getElem_toList, List.getElem_map, List.getElem_finRange]
    rfl
  rw [size, hshards, List.foldr_map, allTexts, List.length_flatMap, List.sum_eq_foldr,
    List.foldr_map]

namespace WellFormed

variable (h : s.WellFormed)

include h

/-- Entering a new text keeps the table well formed. Only its own shard has to be looked at
again. -/
theorem add (hnone : s.find? text = none)
    (hroom : (s.shard (shardOf text)).texts.length < Symbol.slotCount) :
    (s.add text hroom).WellFormed := by
  intro number
  rw [SharedSymbols.add]
  by_cases he : number = shardOf text
  · rw [he, shard_setShard_self]
    exact (h _).add (find?_eq_none_iff.1 hnone) rfl hroom
  · rw [shard_setShard_ne _ he]
    exact h number

/-- **A symbol stands for a text** exactly if it is the symbol of this text. -/
theorem text_eq_ok_iff : s.text symbol = .ok text ↔ s.find? text = some symbol := by
  rw [text_eq_ok_iff_getElem?]
  constructor
  · intro hget
    have hplaced := (h symbol.shard).placed text (List.mem_of_getElem? hget)
    rw [find?, hplaced, ((h _).inverse text symbol.slot).2 hget]
    rfl
  · intro hfind
    obtain ⟨slot, hslot, rfl⟩ := Option.map_eq_some_iff.1 hfind
    exact ((h _).inverse text slot).1 hslot

/-- A shard holds the texts that are known and belong to it. -/
theorem mem_iff :
    text ∈ (s.shard number).texts ↔ shardOf text = number ∧ (s.find? text).isSome := by
  have hsome : (s.find? text).isSome ↔ text ∈ (s.shard (shardOf text)).texts := by
    rw [(h _).mem_iff, find?, Option.isSome_map]
  rw [hsome]
  constructor
  · intro hmem
    have hplaced := (h number).placed text hmem
    exact ⟨hplaced, hplaced ▸ hmem⟩
  · rintro ⟨rfl, hmem⟩
    exact hmem

/-- No text is in two shards. -/
theorem nodup_allTexts : s.allTexts.Nodup := by
  refine List.nodup_flatMap.2 ⟨fun number _ => (h number).nodup, ?_⟩
  refine (List.nodup_finRange _).imp fun hne text htext htext' => hne ?_
  exact ((h _).placed text htext).symm.trans ((h _).placed text htext')

/-- **The size** is the number of the texts that have a symbol. -/
theorem size_eq {texts : List String} (hnodup : texts.Nodup)
    (hmem : ∀ text, text ∈ texts ↔ (s.find? text).isSome) : s.size = texts.length := by
  have hperm : s.allTexts.Perm texts :=
    (List.perm_ext_iff_of_nodup h.nodup_allTexts hnodup).2 fun text => by
      simp [allTexts, h.mem_iff, hmem]
  rw [← length_allTexts, hperm.length_eq]

/-- **There is room** for a new text if there is for all that may come. -/
theorem length_lt {texts : List String} (honly : ∀ text, (s.find? text).isSome → text ∈ texts)
    (hroom : HasRoom texts) (hmem : text ∈ texts) (hnone : s.find? text = none) :
    (s.shard (shardOf text)).texts.length < Symbol.slotCount := by
  have hnodup : (text :: (s.shard (shardOf text)).texts).Nodup := by
    refine List.nodup_cons.2 ⟨fun hold => ?_, (h _).nodup⟩
    simpa [hnone] using (h.mem_iff.1 hold).2
  have hsub : text :: (s.shard (shardOf text)).texts ⊆
      texts.dedup.filter (shardOf · = shardOf text) := by
    intro other hother
    rw [List.mem_filter, List.mem_dedup, decide_eq_true_eq]
    rcases List.mem_cons.1 hother with rfl | hother
    · exact ⟨hmem, rfl⟩
    · obtain ⟨hplaced, hfind⟩ := h.mem_iff.1 hother
      exact ⟨honly other hfind, hplaced⟩
  exact Nat.le_trans (List.subperm_of_subset hnodup hsub).length_le (hroom _)

end WellFormed

/-- The table is well formed and holds none but the given texts. -/
structure HoldsSomeOf (texts : List String) (s : SharedSymbols) : Prop where
  wellFormed : s.WellFormed
  only : ∀ text, (s.find? text).isSome → text ∈ texts

variable {texts : List String}

/-- A table that holds none but the given texts stays one when one of these is entered. That is
how the room that was reckoned for them suffices to the end. -/
theorem HoldsSomeOf.add (h : s.HoldsSomeOf texts) (hmem : text ∈ texts)
    (hnone : s.find? text = none)
    (hroom : (s.shard (shardOf text)).texts.length < Symbol.slotCount) :
    (s.add text hroom).HoldsSomeOf texts := by
  refine ⟨h.wellFormed.add hnone hroom, fun other hother => ?_⟩
  by_cases he : other = text
  · exact he ▸ hmem
  · exact h.only other (find?_add_ne hroom he ▸ hother)

/-- A new table holds the empty text, so this one has to be reckoned with as well. -/
theorem holdsSomeOf_new : new.HoldsSomeOf ("" :: texts) := by
  have hempty : empty.HoldsSomeOf ("" :: texts) :=
    ⟨wellFormed_empty, fun text h => by simp [find?_empty] at h⟩
  exact hempty.add (List.mem_cons_self ..) (find?_empty "") _

/-- The empty text has its symbol from the start. -/
theorem find?_new_empty : new.find? "" = some Symbol.empty :=
  find?_add_self ..

/-- Nothing else has one at the start. -/
theorem isSome_find?_new_iff : (new.find? text).isSome ↔ text = "" := by
  constructor
  · intro h
    exact List.mem_singleton.1 (holdsSomeOf_new.only text h)
  · rintro rfl
    rw [find?_new_empty]
    rfl

/-- **Workers** may rely on the table as long as there is room: a known text is found again, a
new one is bound and disturbs no other, and no two texts share a symbol. Everything about
interleaved steps follows from these three. -/
theorem lawful (hroom : HasRoom texts) : registry.Lawful (HoldsSomeOf texts) (· ∈ texts) where
  known _ hfind := enter_of_some hfind
  new {s text} h hmem hnone := by
    have hlt := h.wellFormed.length_lt h.only hroom hmem hnone
    exact ⟨_, _, enter_of_none hnone hlt, h.add hmem hnone hlt, find?_add_self hlt,
      fun other hne => find?_add_ne hlt hne⟩
  injective {s text text' symbol} h hfind hfind' := by
    have htext := h.wellFormed.text_eq_ok_iff.2 hfind
    exact Except.ok.inj (htext.symm.trans (h.wellFormed.text_eq_ok_iff.2 hfind'))

/-! ## One table for one worker -/

/-- The texts of a table for one worker have the same slots. -/
def Represents (s : SharedSymbols) (table : SymbolTable) : Prop :=
  ∀ number, (s.shard number).texts = table.shard number

/-- Both kinds of tables start with the empty text. -/
theorem represents_new : new.Represents SymbolTable.new := by
  intro number
  rw [new_eq_add, SharedSymbols.add]
  by_cases he : number = shardOf ""
  · rw [he, shard_setShard_self]
    rfl
  · have hne : 0 ≠ number.val := fun h => he (Fin.ext h.symm)
    rw [shard_setShard_ne _ he, shard_empty]
    simp [Shard.empty, SymbolTable.shard, SymbolTable.new, Vector.getElem_set_ne _ _ hne]

namespace Represents

variable {table : SymbolTable} (hr : s.Represents table)

include hr

theorem text_eq (symbol : Symbol) : s.text symbol = table.text symbol := by
  rw [SharedSymbols.text, hr]
  rfl

theorem size_eq : s.size = table.size := by
  have hshards : table.shards.toList = s.shards.toList.map Shard.texts := by
    refine List.ext_getElem (by simp) fun i hi _ => ?_
    rw [Vector.getElem_toList, List.getElem_map, Vector.getElem_toList]
    exact (hr ⟨i, by simpa using hi⟩).symm
  rw [size, SymbolTable.size, hshards, List.foldr_map]

/-- The shared table looks a text up in its map and the other one searches its list. In a
well-formed table this comes to the same, because both say in which slot the text stands. -/
theorem find?_eq (h : s.WellFormed) (text : String) : s.find? text = table.find? text := by
  refine Option.ext fun symbol => ?_
  rw [← h.text_eq_ok_iff, text_eq_ok_iff_getElem?, hr, table.find?_eq_some_iff]

/-- A text that is new to one table is new to the other, and gets the same slot in both. -/
theorem add (hnew : text ∉ table.shard (shardOf text))
    (hroom : (s.shard (shardOf text)).texts.length < Symbol.slotCount)
    (hroom' : (table.shard (shardOf text)).length < Symbol.slotCount) :
    (s.add text hroom).Represents (table.add text hnew hroom') := by
  intro number
  rw [SharedSymbols.add]
  by_cases he : number = shardOf text
  · rw [he, shard_setShard_self, SymbolTable.shard_add_self]
    exact congrArg (· ++ [text]) (hr _)
  · rw [shard_setShard_ne _ he, SymbolTable.shard_add_ne _ _ he, hr]

/-- **Entering** a text does the same to both tables. -/
theorem enter (h : s.WellFormed) (text : String) :
    (∃ symbol table', table.intern text = .ok (symbol, table') ∧ (s.enter text).1 = .ok symbol ∧
      (s.enter text).2.Represents table') ∨
    ∃ fault, table.intern text = .error fault ∧ s.enter text = (.error fault, s) := by
  rcases hfind : s.find? text with _ | symbol
  · have hmem : text ∉ table.shard (shardOf text) := by
      rw [← hr, h.mem_iff, hfind]
      simp
    by_cases hroom : (s.shard (shardOf text)).texts.length < Symbol.slotCount
    · have hroom' := hr (shardOf text) ▸ hroom
      refine .inl ⟨⟨shardOf text, ⟨_, hroom'⟩⟩, table.add text hmem hroom', ?_, ?_, ?_⟩
      · rw [SymbolTable.intern, dif_neg hmem, dif_pos hroom']
      · simp only [enter_of_none hfind hroom, hr (shardOf text)]
      · rw [enter_of_none hfind hroom]
        exact hr.add hmem hroom hroom'
    · refine .inr ⟨_, by rw [SymbolTable.intern, dif_neg hmem, dif_neg (hr _ ▸ hroom)], ?_⟩
      rw [enter_of_full hfind hroom, hr]
  · refine .inl ⟨symbol, table, ?_, ?_⟩
    · exact table.intern_of_find? (hr.find?_eq h text ▸ hfind)
    · rw [enter_of_some hfind]
      exact ⟨rfl, hr⟩

end Represents

/-- **Texts interned** one after the other, by the turns of a worker and by a loop, lead to
tables that hold the same. There is room for all of them, so neither run stops. -/
theorem represents_internAll (hroom : HasRoom texts) {table : SymbolTable}
    (hs : s.HoldsSomeOf texts) (hr : s.Represents table) {order : List String}
    (horder : ∀ text ∈ order, text ∈ texts) :
    ∃ table', table.internAll order = .ok table' ∧
      (registry.internAll s order).HoldsSomeOf texts ∧
      (registry.internAll s order).Represents table' := by
  induction order generalizing s table with
  | nil => exact ⟨table, rfl, hs, hr⟩
  | cons text order ih =>
    obtain ⟨hmem, horder⟩ := List.forall_mem_cons.1 horder
    obtain ⟨symbol, s', henter, hs', -⟩ := (lawful hroom).enter hs hmem
    have hstep : registry.internAll s (text :: order) = registry.internAll s' order := by
      rw [Registry.internAll, List.foldl_cons, (lawful hroom).intern_eq_enter hs, henter]
      rfl
    change s.enter text = _ at henter
    rcases hr.enter hs.wellFormed text with ⟨symbol', table', hintern, -, hr'⟩ | ⟨fault, -, hfault⟩
    · rw [henter] at hr'
      obtain ⟨table'', hall, hrest⟩ := ih hs' hr' horder
      refine ⟨table'', ?_, hstep ▸ hrest⟩
      rw [SymbolTable.internAll, hintern]
      exact hall
    · rw [henter] at hfault
      cases hfault

/-- **Texts and symbols.** Let workers intern texts, each at its own pace, and let no shard have to
hold more texts than it has slots.

1. The calls stay those that were made, and a call that has had its turns is answered.
2. The answer is a symbol. For the empty text it is the empty symbol. The symbol stands for the text
   of the call, now and after any further steps.
3. Two answers are the same number exactly if the texts are the same.
4. There is one text for each of the non-empty texts interned, and the empty one.
5. If a number stands for a text, then interning this text gives this number and adds nothing.
6. Interned one after the other by a single worker, the texts get the same symbols if the order is
   right. -/
theorem stable_bijection (hroom : HasRoom ("" :: texts)) (schedule : List Nat) :
    let calls := (Registry.Calls.ofKeys new texts).run registry schedule
    (calls.callers.map Prod.fst = texts ∧
      ∀ i text, texts[i]? = some text → Registry.maxSteps ≤ schedule.count i →
        ∃ answer, calls.callers[i]? = some (text, .done answer)) ∧
    (∀ text answer, (text, .done answer) ∈ calls.callers →
      ∃ symbol, answer = .ok symbol ∧ (text = "" → symbol = Symbol.empty) ∧
        ∀ more, (calls.run registry more).store.text (.ofRaw symbol.raw) = .ok text) ∧
    (∀ text text' a b, (text, .done (.ok a)) ∈ calls.callers →
      (text', .done (.ok b)) ∈ calls.callers → (a.raw = b.raw ↔ text = text')) ∧
    calls.store.size = 1 + (calls.answered.dedup.filter (· ≠ "")).length ∧
    (∀ raw text, calls.store.text (.ofRaw raw) = .ok text →
      ∃ symbol, symbol.raw = raw ∧
        registry.intern calls.store text = (.ok symbol, calls.store)) ∧
    ∃ order table, SymbolTable.new.internAll order = .ok table ∧
      (∀ text, calls.store.find? text = table.find? text) ∧
      (∀ symbol, calls.store.text symbol = table.text symbol) ∧
      calls.store.size = table.size := by
  intro calls
  have hlawful := lawful hroom
  have hstart : Registry.Calls.Sound registry (HoldsSomeOf ("" :: texts)) (· ∈ "" :: texts) new
      (.ofKeys new texts) :=
    Registry.Calls.sound_ofKeys holdsSomeOf_new fun _ => List.mem_cons_of_mem ""
  have hsound := (hstart.run hlawful schedule).1
  change Registry.Calls.Sound _ _ _ _ calls at hsound
  have hwf := hsound.inOrder.wellFormed
  refine ⟨Registry.Calls.run_ofKeys schedule, ?_, ?_, ?_, ?_, ?_⟩
  · intro text answer hmem
    obtain ⟨symbol, rfl, hfind⟩ := hsound.find?_of_answered hlawful hmem
    refine ⟨symbol, rfl, ?_, fun more => ?_⟩
    · rintro rfl
      exact Option.some.inj ((hfind []).symm.trans (hsound.keeps find?_new_empty))
    · rw [Symbol.ofRaw_raw]
      exact (hsound.run hlawful more).1.inOrder.wellFormed.text_eq_ok_iff.2 (hfind more)
  · intro text text' a b ha hb
    rw [Symbol.raw_inj]
    exact hsound.answer_eq_iff hlawful ha hb
  · -- the known texts are those that were answered, and the empty one
    have hnodup : ("" :: calls.answered.dedup.filter (· ≠ "")).Nodup :=
      List.nodup_cons.2 ⟨by simp, (List.nodup_dedup _).filter _⟩
    rw [hwf.size_eq hnodup fun text => ?_, List.length_cons, Nat.add_comm]
    refine Iff.trans ?_ (hsound.isSome_find?_iff.trans (or_congr_left isSome_find?_new_iff)).symm
    by_cases he : text = "" <;> simp [he]
  · intro raw text htext
    have hfind := hwf.text_eq_ok_iff.1 htext
    refine ⟨.ofRaw raw, Symbol.raw_ofRaw raw, ?_⟩
    exact (hlawful.intern_eq_enter hsound.inOrder).trans (hlawful.known hsound.inOrder hfind)
  · -- the order is that of the turns in which the texts were entered
    obtain ⟨order, horder, hstore⟩ := hstart.exists_order hlawful schedule
    obtain ⟨table, hall, -, hr⟩ := represents_internAll hroom holdsSomeOf_new represents_new horder
    rw [show calls.store = _ from hstore] at hwf ⊢
    exact ⟨order, table, hall, hr.find?_eq hwf, hr.text_eq, hr.size_eq⟩

/-- Three workers have missed their texts before the first of them enters one. -/
theorem stable_bijection_of_contention :
    HasRoom ["", "x", "x", "y"] ∧
      let calls := (Registry.Calls.ofKeys new ["x", "x", "y"]).run registry [0, 1, 2, 1, 0, 2]
      ∃ a b, calls.callers[0]? = some ("x", .done (.ok a)) ∧
        calls.callers[1]? = some ("x", .done (.ok a)) ∧
        calls.callers[2]? = some ("y", .done (.ok b)) ∧ a.raw ≠ b.raw := by
  have hroom : HasRoom ["", "x", "x", "y"] := by decide +kernel
  obtain ⟨⟨-, hdone⟩, hanswer, hsame, -⟩ := stable_bijection hroom [0, 1, 2, 1, 0, 2]
  obtain ⟨_, h₀⟩ := hdone 0 "x" rfl (by decide)
  obtain ⟨_, h₁⟩ := hdone 1 "x" rfl (by decide)
  obtain ⟨_, h₂⟩ := hdone 2 "y" rfl (by decide)
  obtain ⟨a, rfl, -⟩ := hanswer _ _ (List.mem_of_getElem? h₀)
  obtain ⟨a', rfl, -⟩ := hanswer _ _ (List.mem_of_getElem? h₁)
  obtain ⟨b, rfl, -⟩ := hanswer _ _ (List.mem_of_getElem? h₂)
  have hsame₁ := hsame _ _ _ _ (List.mem_of_getElem? h₀) (List.mem_of_getElem? h₁)
  have hsame₂ := hsame _ _ _ _ (List.mem_of_getElem? h₀) (List.mem_of_getElem? h₂)
  obtain rfl : a = a' := Symbol.raw_inj.1 (hsame₁.2 rfl)
  exact ⟨hroom, a, b, h₀, h₁, h₂, fun he => absurd (hsame₂.1 he) (by decide)⟩

end SharedSymbols

end AnonymousTypes
