import Mathlib.Algebra.Group.Nat.Defs
import Mathlib.Logic.Basic
import AnonymousTypes.Proofs.Spelling

/-!
# Delegates are identified by their signatures

The key of a delegate packs which parameters are passed by reference into the bits of some words.
Nothing is lost on the way: each parameter has a bit of its own (`Passing.isSet_pack`), so the
parameters can be read back from the key (`DelegateKey.isByReference_ofParameters`) and different
signatures have different keys. Since the name of a delegate determines its key, it determines the
signature as well.
-/

namespace AnonymousTypes

namespace Passing

/-! ## The bits of parameters -/

theorem toBits_lt (params : List Passing) : toBits params < 2 ^ params.length := by
  induction params with
  | nil => exact Nat.one_pos
  | cons p rest ih =>
    have hbit : p.bit ≤ 1 := by cases p <;> decide
    rw [toBits, List.length_cons, Nat.pow_succ]
    omega

theorem testBit_toBits (params : List Passing) (i : Nat) :
    (toBits params).testBit i = decide (params[i]? = some byReference) := by
  induction params generalizing i with
  | nil => simp [toBits]
  | cons p rest ih =>
    cases i with
    | zero => cases p <;> simp [toBits, bit]
    | succ i =>
      have hhalf : (p.bit + 2 * toBits rest) / 2 = toBits rest := by
        cases p <;> simp only [bit] <;> omega
      rw [toBits, Nat.testBit_add_one, hhalf, ih, List.getElem?_cons_succ]

/-! ## The bits of words -/

/-- Whether the bit of the parameter at a position is set. -/
def isSet (words : List UInt32) (position : Nat) : Bool :=
  (words.getD (position / perWord) 0).toNat.testBit (position % perWord)

/-- Words are what is set in them. Lists of the same length are told apart by some position. -/
theorem ext_isSet {vs ws : List UInt32} (hlength : vs.length = ws.length)
    (h : ∀ position, isSet vs position = isSet ws position) : vs = ws := by
  apply List.ext_getElem hlength
  intro w hv hw
  apply UInt32.toNat_inj.1
  apply Nat.eq_of_testBit_eq
  intro i
  by_cases hi : i < 32
  · have hbit := h (w * perWord + i)
    have hdiv : (w * 32 + i) / 32 = w := by omega
    have hmod : (w * 32 + i) % 32 = i := by omega
    simpa [isSet, hdiv, hmod, hv, hw] using hbit
  · have hbeyond : ∀ word : UInt32, word.toNat.testBit i = false := fun word =>
      Nat.testBit_lt_two_pow (Nat.lt_of_lt_of_le word.toNat_lt
        (Nat.pow_le_pow_right (by decide) (Nat.le_of_not_lt hi)))
    rw [hbeyond, hbeyond]

theorem isSet_zeros (count position : Nat) : isSet (List.replicate count 0) position = false := by
  have hzero : (List.replicate count (0 : UInt32)).getD (position / perWord) 0 = 0 := by
    rw [List.getD_eq_getElem?_getD, List.getElem?_replicate]
    split <;> rfl
  rw [isSet, hzero]
  exact Nat.zero_testBit _

theorem length_pack (params : List Passing) :
    (pack params).length = (params.length + (perWord - 1)) / perWord := by
  rw [pack, List.length_map, List.length_range]

/-- **Each parameter has its bit**, and the bits behind the last parameter are not set. -/
theorem isSet_pack (params : List Passing) (position : Nat) :
    isSet (pack params) position = decide (params[position]? = some byReference) := by
  rw [isSet, List.getD_eq_getElem?_getD, pack, List.getElem?_map]
  by_cases hword : position / perWord < (params.length + (perWord - 1)) / perWord
  · -- the word is made of the parameters around this one
    have hsmall : toBits ((params.drop (position / perWord * perWord)).take perWord) <
        UInt32.size :=
      Nat.lt_of_lt_of_le (toBits_lt _)
        (Nat.pow_le_pow_right (by decide) (List.length_take_le ..))
    have hparam : ((params.drop (position / perWord * perWord)).take perWord)[position % perWord]? =
        params[position]? := by
      rw [List.getElem?_take_of_lt (Nat.mod_lt _ (by decide)), List.getElem?_drop,
        Nat.mul_comm, Nat.div_add_mod]
    rw [List.getElem?_range hword, Option.map_some, Option.getD_some,
      UInt32.toNat_ofNat_of_lt' hsmall, testBit_toBits, hparam]
  · have hbeyond : params.length ≤ position := by
      simp only [perWord] at hword
      omega
    rw [List.getElem?_eq_none (by simpa using hword), List.getElem?_eq_none hbeyond,
      Option.map_none]
    exact Nat.zero_testBit _

/-- No bit is set if no parameter is passed by reference. -/
theorem pack_eq_zeros_iff {params : List Passing} :
    pack params = List.replicate (pack params).length 0 ↔ byReference ∉ params := by
  constructor
  · intro hzeros hmem
    obtain ⟨position, hposition⟩ := List.getElem?_of_mem hmem
    have hbit := isSet_pack params position
    rw [hzeros, isSet_zeros, hposition] at hbit
    simp at hbit
  · intro hnone
    apply ext_isSet (List.length_replicate ..).symm
    intro position
    rw [isSet_pack, isSet_zeros, decide_eq_false_iff_not]
    exact fun hposition => hnone (List.mem_of_getElem? hposition)

/-! ## Setting one bit after another -/

@[simp] theorem length_setBit (words : List UInt32) (position : Nat) :
    (setBit words position).length = words.length :=
  List.length_modify ..

/-- Setting one bit leaves the others alone. -/
theorem isSet_setBit {words : List UInt32} {position : Nat}
    (hword : position / perWord < words.length) (other : Nat) :
    isSet (setBit words position) other = (isSet words other || decide (other = position)) := by
  rw [isSet, isSet, setBit, List.getD_eq_getElem?_getD, List.getElem?_modify,
    List.getD_eq_getElem?_getD]
  by_cases hsame : position / 32 = other / 32
  · have hmask : (1 <<< UInt32.ofNat (position % 32) : UInt32).toNat = 2 ^ (position % 32) := by
      have hlt : position % 32 < 32 := Nat.mod_lt _ (by decide)
      have hpow : 2 ^ (position % 32) < 2 ^ 32 := Nat.pow_lt_pow_right (by decide) hlt
      rw [UInt32.toNat_shiftLeft, UInt32.toNat_ofNat_of_lt' (Nat.lt_trans hlt (by decide)),
        Nat.mod_eq_of_lt hlt, UInt32.toNat_one, Nat.one_shiftLeft, Nat.mod_eq_of_lt hpow]
    have hword' : other / 32 < words.length := hsame ▸ hword
    have hother : other = position ↔ position % 32 = other % 32 := by omega
    simp [hsame, hword', UInt32.toNat_or, Nat.testBit_or, hmask, Nat.testBit_two_pow, hother]
  · have hne : other ≠ position := fun he => hsame (he ▸ rfl)
    cases words[other / 32]? <;> simp [hsame, hne]

@[simp] theorem length_setBits (words : List UInt32) (params : List (Passing × Nat)) :
    (setBits words params).length = words.length := by
  induction params generalizing words with
  | nil => rfl
  | cons p rest ih =>
    rw [setBits, List.foldl_cons, ← setBits, ih]
    split
    · exact length_setBit ..
    · rfl

/-- After the loop the bits are set that were set before, and those of the parameters that are
passed by reference. -/
theorem isSet_setBits {words : List UInt32} {params : List (Passing × Nat)}
    (hwords : ∀ p ∈ params, p.2 / perWord < words.length) (position : Nat) :
    isSet (setBits words params) position =
      (isSet words position || decide ((byReference, position) ∈ params)) := by
  induction params generalizing words with
  | nil => simp [setBits]
  | cons p rest ih =>
    obtain ⟨hfirst, hrest⟩ := List.forall_mem_cons.1 hwords
    rw [setBits, List.foldl_cons, ← setBits]
    obtain ⟨passing, i⟩ := p
    cases passing with
    | byValue => simp [ih hrest]
    | byReference =>
      have hrest' : ∀ p ∈ rest, p.2 / perWord < (setBit words i).length := by simpa using hrest
      simp [ih hrest', isSet_setBit hfirst, Bool.or_assoc]

/-- **The loop packs** what `pack` packs. The loop sets one bit after another in a list of empty
words; `pack` makes the words from groups of parameters. -/
theorem packBitwise_eq (params : List Passing) : packBitwise params = pack params := by
  apply ext_isSet
  · rw [packBitwise, length_setBits, List.length_replicate, length_pack]
  · intro position
    have hwords : ∀ p ∈ params.zipIdx, p.2 / perWord <
        (List.replicate ((params.length + (perWord - 1)) / perWord) (0 : UInt32)).length := by
      intro p hp
      have hlt := (List.getElem?_eq_some_iff.1 (List.mem_zipIdx_iff_getElem?.1 hp)).1
      rw [List.length_replicate]
      change p.2 / 32 < (params.length + 31) / 32
      omega
    rw [packBitwise, isSet_setBits hwords, isSet_zeros, isSet_pack, Bool.false_or]
    simp [List.mem_zipIdx_iff_getElem?]

end Passing

namespace DelegateKey

/-! ## Reading a key -/

/-- **The parameters can be read back** from the key. -/
theorem isByReference_ofParameters (params : List Passing) (returnsVoid : Bool) (position : Nat) :
    (ofParameters params returnsVoid).isByReference position =
      decide (params[position]? = some .byReference) := by
  have hbit : (ofParameters params returnsVoid).isByReference position =
      (decide (position < params.length) && Passing.isSet (Passing.pack params) position) := rfl
  rw [hbit, Passing.isSet_pack]
  by_cases hlt : position < params.length
  · simp [hlt]
  · simp [hlt]

/-- Whether some parameter is passed by reference can be told from the words. -/
theorem hasByReference_ofParameters (params : List Passing) (returnsVoid : Bool) :
    (ofParameters params returnsVoid).hasByReference = true ↔ .byReference ∈ params := by
  have hnone : (ofParameters params returnsVoid).hasByReference = false ↔
      Passing.pack params = List.replicate (Passing.pack params).length 0 := by
    simp [hasByReference, ofParameters, List.eq_replicate_iff]
  rw [← Bool.not_eq_false, hnone, Passing.pack_eq_zeros_iff, not_not]

/-- **Different signatures have different keys.** The number of parameters is part of the key, so
bits that are not set cannot be mistaken for parameters. -/
theorem ofParameters_inj {p q : List Passing} {u v : Bool} :
    ofParameters p u = ofParameters q v ↔ p = q ∧ u = v := by
  constructor
  · intro h
    have hlength : p.length = q.length := congrArg parameterCount h
    refine ⟨?_, congrArg returnsVoid h⟩
    apply List.ext_getElem hlength
    intro i hp hq
    have hbit : (ofParameters p u).isByReference i = (ofParameters q v).isByReference i := by rw [h]
    simp only [isByReference_ofParameters, List.getElem?_eq_getElem hp,
      List.getElem?_eq_getElem hq, Option.some.injEq, decide_eq_decide] at hbit
    cases hpi : p[i] <;> cases hqi : q[i] <;> simp [hpi, hqi] at hbit ⊢
  · rintro ⟨rfl, rfl⟩
    rfl

/-- **A delegate is identified by its signature.** Two parameter lists, each with or without a
result, have the same key exactly if they are the same, and so they have the same type name
exactly if they are the same. A parameter is found to be passed by reference exactly if it is
one of the list that is, and so it is found whether there is any. The words of the key are those
that a loop makes which sets the bit of one such parameter after another. -/
theorem identified_by_signature :
    (∀ (p q : List Passing) (u v : Bool),
      (ofParameters p u = ofParameters q v ↔ p = q ∧ u = v) ∧
      ((ofParameters p u).typeName = (ofParameters q v).typeName ↔ p = q ∧ u = v)) ∧
    (∀ (params : List Passing) (returnsVoid : Bool) (position : Nat),
      (ofParameters params returnsVoid).isByReference position = true ↔
        ∃ h : position < params.length, params[position] = .byReference) ∧
    (∀ (params : List Passing) (returnsVoid : Bool),
      (ofParameters params returnsVoid).hasByReference = true ↔ ∃ p ∈ params, p = .byReference) ∧
    ∀ (params : List Passing) (returnsVoid : Bool),
      (ofParameters params returnsVoid).words = Passing.packBitwise params := by
  refine ⟨fun p q u v => ⟨ofParameters_inj, ?_⟩, fun params returnsVoid position => ?_,
    fun params returnsVoid => ?_, fun params _ => (Passing.packBitwise_eq params).symm⟩
  · rw [typeName_inj, ofParameters_inj]
  · rw [isByReference_ofParameters, decide_eq_true_iff, List.getElem?_eq_some_iff]
  · rw [hasByReference_ofParameters]
    simp

end DelegateKey

end AnonymousTypes
