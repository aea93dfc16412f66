import AnonymousTypes.Family
import AnonymousTypes.Source
import AnonymousTypes.Symbol

/-!
# Faults

A *fault* is an assertion that failed: the step that ran into it stops on the
spot, and whatever it did before stays done. Faults are not meant to be handled.
They are kept apart from the rejections of `AnonymousTypes.Failure`, which a
caller can report.
-/

namespace AnonymousTypes

/-- An assertion that failed, by its cause. -/
inductive Fault where
  /-- the length of a span that ends before it starts -/
  | negativeLength
  /-- a numbering counter at its last value was bumped -/
  | counterExhausted
  /-- a symbol in a shard that does not exist -/
  | shardOutOfRange
  /-- a symbol with a slot that no shard can hold -/
  | slotOutOfRange
  /-- a symbol whose slot is not in use; the shard holds `size` texts -/
  | unusedSlot (size slot : Nat)
  /-- a shard of the symbol table that is full -/
  | shardFull (shard count : Nat)
  /-- a text that cannot be the name of a field -/
  | invalidFieldName (name : String)
  /-- a use at a location that no request carried before sealing -/
  | lateUse (family : Family) (location : Location)
  /-- a generation that the session does not hold -/
  | unknownGeneration (handle : Nat)
  deriving DecidableEq

/-- The wording of a fault. -/
def Fault.message : Fault → String
  | .negativeLength => "attempt to subtract with overflow"
  | .counterExhausted => "attempt to add with overflow"
  | .shardOutOfRange => "assertion failed: (shard as usize) < Self::NUM_SHARDS"
  | .slotOutOfRange => "assertion failed: local <= Self::MAX_LOCAL"
  | .unusedSlot size slot =>
    s!"index out of bounds: the len is {size} but the index is {slot}"
  | .shardFull shard count =>
    s!"interner shard {shard} exceeded capacity: {count} strings, max is {Symbol.lastSlot}"
  | .invalidFieldName name => s!"field name `{name}` cannot appear in a shape key"
  | .lateUse family location =>
    s!"{family.noun} requested from {location} after finalization"
  | .unknownGeneration handle => s!"no generation {handle}"

/-! ## When a computation that can fail gives a result -/

variable {ε ε' α β : Type}

theorem map_eq_ok_iff {x : Except ε α} {f : α → β} {b : β} :
    x.map f = .ok b ↔ ∃ a, x = .ok a ∧ f a = b := by
  cases x <;> simp [Except.map]

theorem mapError_eq_ok_iff {x : Except ε α} {f : ε → ε'} {a : α} :
    x.mapError f = .ok a ↔ x = .ok a := by
  cases x with
  | error e => exact ⟨nofun, nofun⟩
  | ok b =>
    change Except.ok b = Except.ok a ↔ _
    rw [Except.ok.injEq, Except.ok.injEq]

theorem bind_eq_ok_iff {x : Except ε α} {f : α → Except ε β} {b : β} :
    x >>= f = .ok b ↔ ∃ a, x = .ok a ∧ f a = .ok b := by
  cases x <;> simp [bind, Except.bind]

theorem bind_eq_error_iff {x : Except ε α} {f : α → Except ε β} {e : ε} :
    x >>= f = .error e ↔ x = .error e ∨ ∃ a, x = .ok a ∧ f a = .error e := by
  cases x <;> simp [bind, Except.bind]

/-- A list of computations that succeeds has the results of each. -/
theorem map_eq_of_mapM_eq_ok {f : α → Except ε β} {as : List α} {bs : List β}
    (h : as.mapM f = .ok bs) : as.map f = bs.map .ok := by
  induction as generalizing bs with
  | nil =>
    cases h
    rfl
  | cons a as ih =>
    rw [List.mapM_cons] at h
    obtain ⟨b, hfirst, hrest⟩ := bind_eq_ok_iff.1 h
    obtain ⟨bs', hbs', hpure⟩ := bind_eq_ok_iff.1 hrest
    cases hpure
    rw [List.map_cons, List.map_cons, hfirst, ih hbs']

/-- A list of computations fails as one of them does. -/
theorem exists_of_mapM_eq_error {f : α → Except ε β} {as : List α} {e : ε}
    (h : as.mapM f = .error e) : ∃ a ∈ as, f a = .error e := by
  induction as with
  | nil => cases h
  | cons a as ih =>
    rw [List.mapM_cons] at h
    rcases bind_eq_error_iff.1 h with hfirst | ⟨b, -, hrest⟩
    · exact ⟨a, List.mem_cons_self .., hfirst⟩
    · rcases bind_eq_error_iff.1 hrest with hrest | ⟨bs, -, hpure⟩
      · obtain ⟨a', hmem, ha'⟩ := ih hrest
        exact ⟨a', List.mem_cons_of_mem a hmem, ha'⟩
      · cases hpure

end AnonymousTypes
