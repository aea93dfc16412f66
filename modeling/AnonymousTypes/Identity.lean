import AnonymousTypes.Fault

/-!
# Identities and numbering

A synthesized type becomes visible outside the compilation under an `Identity`:
a name and an index. Indices come from counters that only ever go up, one for
each family; their state between two outputs is a `Numbering`. Where several
states are at hand, numbering continues from the larger counters.
-/

namespace AnonymousTypes

/-- The name and index under which a type is emitted. -/
structure Identity where
  name : String
  index : UInt32
  deriving DecidableEq

instance : ToString Identity := ⟨fun i => s!"`{i.name}` (index {i.index})"⟩

/-- The next unused index of each family. -/
structure Numbering where
  nextShape : UInt32
  nextDelegate : UInt32
  deriving DecidableEq

namespace Numbering

/-- Nothing is numbered yet. -/
def zero : Numbering := ⟨0, 0⟩

/-- The larger of the two counters of each family. -/
def join (a b : Numbering) : Numbering :=
  ⟨max a.nextShape b.nextShape, max a.nextDelegate b.nextDelegate⟩

theorem toNat_max (a b : UInt32) : (max a b).toNat = max a.toNat b.toNat := by
  change (if a ≤ b then b else a).toNat = _
  split
  · rename_i h
    exact (Nat.max_eq_right (UInt32.le_iff_toNat_le.1 h)).symm
  · rename_i h
    exact (Nat.max_eq_left (Nat.le_of_lt (UInt32.lt_iff_toNat_lt.1 (UInt32.not_le.1 h)))).symm

theorem toNat_nextShape_join (a b : Numbering) :
    (a.join b).nextShape.toNat = max a.nextShape.toNat b.nextShape.toNat := toNat_max ..

theorem toNat_nextDelegate_join (a b : Numbering) :
    (a.join b).nextDelegate.toNat = max a.nextDelegate.toNat b.nextDelegate.toNat := toNat_max ..

/-- Counters are compared as numbers. -/
theorem ext_toNat {a b : Numbering} (hshape : a.nextShape.toNat = b.nextShape.toNat)
    (hdelegate : a.nextDelegate.toNat = b.nextDelegate.toNat) : a = b := by
  cases a
  cases b
  rw [mk.injEq]
  exact ⟨UInt32.toNat_inj.1 hshape, UInt32.toNat_inj.1 hdelegate⟩

@[simp] theorem join_join_self (a b : Numbering) : (a.join b).join b = a.join b := by
  refine ext_toNat ?_ ?_
  · simp only [toNat_nextShape_join, Nat.max_assoc, Nat.max_self]
  · simp only [toNat_nextDelegate_join, Nat.max_assoc, Nat.max_self]

@[simp] theorem join_zero (a : Numbering) : a.join .zero = a := by
  have hmax : ∀ n : UInt32, max n 0 = n := fun n =>
    UInt32.toNat_inj.1 ((toNat_max n 0).trans (Nat.max_zero _))
  rw [join, zero, hmax, hmax]

end Numbering

/-- The index after the given one; there is none after the last. -/
def nextIndex (index : UInt32) : Except Fault UInt32 :=
  if index.toNat + 1 < UInt32.size then .ok (index + 1) else .error .counterExhausted

/-- The name of the shape with the given index: the fragment that stands for the
output, then the index, then the slot of the submission if there is one. -/
def shapeTypeName (index : UInt32) (slot : Option UInt32) (fragment : String) : String :=
  "<" ++ fragment ++ ">f__Shape" ++ toString index ++
    match slot with
    | some slot => "#" ++ toString slot
    | none => ""

end AnonymousTypes
