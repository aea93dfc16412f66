import Mathlib.Order.Bounds.Basic
import Mathlib.Order.WellFounded
import AnonymousTypes.Proofs.Sorting
import AnonymousTypes.Source

/-!
# Order keys keep the order of locations

A location has three numbers of 32 bits, and the order of locations is that of the number of which
they are the digits (`Location.compare_eq_compare_fullKey`). The order key is this number without
its last digit. So it never goes down where locations go up, and it tells locations apart unless
they differ in the end of the span alone (`Location.orderKey_keeps_order`).
-/

namespace AnonymousTypes

/-- Words are compared as numbers. -/
theorem compare_eq_compare_toNat (v w : UInt32) : compare v w = compare v.toNat w.toNat := by
  simp only [compare, compareOfLessAndEq, UInt32.lt_iff_toNat_lt, ← UInt32.toNat_inj]

/-- Numbers are compared digit by digit. -/
theorem compare_digits {base a b c d : Nat} (hc : c < base) (hd : d < base) :
    (compare a b).then (compare c d) = compare (a * base + c) (b * base + d) := by
  rcases Nat.lt_trichotomy a b with hlt | rfl | hgt
  · have hdigit : (a + 1) * base ≤ b * base := Nat.mul_le_mul_right base hlt
    have hless : a * base + c < b * base + d := by
      rw [Nat.add_one_mul] at hdigit
      omega
    rw [Nat.compare_eq_lt.2 hlt, Nat.compare_eq_lt.2 hless]
    rfl
  · rw [Nat.compare_eq_eq.2 rfl]
    simp only [compare, compareOfLessAndEq, Ordering.eq_then, Nat.add_lt_add_iff_left,
      Nat.add_left_cancel_iff]
  · have hdigit : (b + 1) * base ≤ a * base := Nat.mul_le_mul_right base hgt
    have hmore : b * base + d < a * base + c := by
      rw [Nat.add_one_mul] at hdigit
      omega
    rw [Nat.compare_eq_gt.2 hgt, Nat.compare_eq_gt.2 hmore]
    rfl

instance : Std.TransOrd Span :=
  inferInstanceAs (Std.TransCmp (compareLex (compareOn Span.start) (compareOn Span.stop)))

instance : Std.TransOrd Location :=
  inferInstanceAs (Std.TransCmp (compareLex (compareOn fun l : Location => l.file.ordinal)
    (compareOn Location.span)))

namespace Location

/-- The order key with the end of the span as one more digit. -/
def fullKey (l : Location) : Nat := l.orderKey.toNat * 4294967296 + l.span.stop.toNat

variable {a b : Location}

/-- **Locations are compared** by their three digits: the file, then the start, then the end. The
laws of an order are those of the triple. -/
theorem compare_eq_compare_fullKey (a b : Location) :
    compare a b = compare a.fullKey b.fullKey := by
  have hdigit : ∀ w : UInt32, w.toNat < 4294967296 := UInt32.toNat_lt
  calc compare a b
      = (compare a.file.ordinal b.file.ordinal).then
          ((compare a.span.start b.span.start).then (compare a.span.stop b.span.stop)) := rfl
    _ = compare a.fullKey b.fullKey := by
      rw [← Ordering.then_assoc, compare_eq_compare_toNat, compare_eq_compare_toNat,
        compare_eq_compare_toNat, compare_digits (hdigit _) (hdigit _), ← toNat_orderKey,
        ← toNat_orderKey, compare_digits (hdigit _) (hdigit _), fullKey, fullKey]

/-- **A location is smaller** if its order key is, or if it ends earlier with the same key. -/
theorem compare_eq_lt_iff : compare a b = .lt ↔
    a.orderKey < b.orderKey ∨ a.orderKey = b.orderKey ∧ a.span.stop < b.span.stop := by
  have ha := a.span.stop.toNat_lt
  have hb := b.span.stop.toNat_lt
  rw [compare_eq_compare_fullKey, Nat.compare_eq_lt, fullKey, fullKey, UInt64.lt_iff_toNat_lt,
    ← UInt64.toNat_inj, UInt32.lt_iff_toNat_lt]
  omega

theorem le_iff : a.le b = true ↔ a.fullKey ≤ b.fullKey := by
  rw [le, compare_eq_compare_fullKey, Nat.isLE_compare]

/-- **The order key** of a location is that of its file and start. -/
theorem orderKey_lt_iff : a.orderKey < b.orderKey ↔ a.file.ordinal < b.file.ordinal ∨
    a.file.ordinal = b.file.ordinal ∧ a.span.start < b.span.start := by
  have ha := a.span.start.toNat_lt
  have hb := b.span.start.toNat_lt
  rw [UInt64.lt_iff_toNat_lt, UInt32.lt_iff_toNat_lt, UInt32.lt_iff_toNat_lt, ← UInt32.toNat_inj,
    toNat_orderKey, toNat_orderKey]
  omega

theorem orderKey_eq_iff :
    a.orderKey = b.orderKey ↔ a.file = b.file ∧ a.span.start = b.span.start := by
  have ha := a.span.start.toNat_lt
  have hb := b.span.start.toNat_lt
  have hfile : a.file = b.file ↔ a.file.ordinal = b.file.ordinal :=
    ⟨congrArg FileId.ordinal, congrArg FileId.mk⟩
  rw [hfile, ← UInt64.toNat_inj, ← UInt32.toNat_inj, ← UInt32.toNat_inj, toNat_orderKey,
    toNat_orderKey]
  omega

/-- The order key loses one digit, so it keeps the order but not strictly. -/
theorem orderKey_le_of_le (h : a.le b) : a.orderKey ≤ b.orderKey := by
  have ha := a.span.stop.toNat_lt
  have hb := b.span.stop.toNat_lt
  rw [le_iff, fullKey, fullKey] at h
  exact UInt64.le_iff_toNat_le.2 (by omega)

/-- **Order keys of a sorted list** never go down. -/
theorem pairwise_map_orderKey {l : List Location} (h : l.Pairwise fun a b => a.le b) :
    (l.map orderKey).Pairwise (· ≤ ·) :=
  List.pairwise_map.2 (h.imp orderKey_le_of_le)

/-- Any locations have a smallest one. -/
theorem exists_smallest {S : Set Location} (hS : S.Nonempty) : ∃ m ∈ S, ∀ x ∈ S, m.le x := by
  obtain ⟨m, hm, hleast⟩ := WellFounded.has_min (measure fullKey).wf S hS
  exact ⟨m, hm, fun x hx => le_iff.2 (Nat.le_of_not_lt (hleast x hx))⟩

/-- The smallest location of a set has the smallest order key. Another location may share the
key, namely one that starts at the same place. -/
theorem isLeast_orderKey {S : Set Location} {m : Location} (hm : m ∈ S)
    (hsmallest : ∀ x ∈ S, m.le x) : IsLeast (orderKey '' S) m.orderKey := by
  refine ⟨Set.mem_image_of_mem _ hm, ?_⟩
  rintro _ ⟨x, hx, rfl⟩
  exact orderKey_le_of_le (hsmallest x hx)

/-- **Order keys keep the order of locations**, whether spans end behind their starts or not.

1. An order key is smaller than another exactly if the file is earlier, or the start in the same
   file, and is equal to it exactly if file and start are.
2. A location is smaller exactly if its order key is, or if the order keys are equal and its span
   ends earlier. So a smaller location has an order key that is not larger, and a smaller order key
   is that of a smaller location.
3. Sorting locations brings their order keys in order.
4. Of any locations, one is the smallest, and it has the smallest order key. -/
theorem orderKey_keeps_order :
    (∀ a b : Location,
      (a.orderKey < b.orderKey ↔ a.file.ordinal < b.file.ordinal ∨
        a.file.ordinal = b.file.ordinal ∧ a.span.start < b.span.start) ∧
      (a.orderKey = b.orderKey ↔ a.file = b.file ∧ a.span.start = b.span.start) ∧
      (compare a b = .lt ↔ a.orderKey < b.orderKey ∨
        a.orderKey = b.orderKey ∧ a.span.stop < b.span.stop) ∧
      (compare a b = .lt → a.orderKey ≤ b.orderKey) ∧
      (a.orderKey < b.orderKey → compare a b = .lt)) ∧
    (∀ l : List Location, (sortList Location.le l).Perm l ∧
      (sortList Location.le l).Pairwise (fun a b => a.le b) ∧
      ((sortList Location.le l).map orderKey).Pairwise (· ≤ ·)) ∧
    ∀ S : Set Location, S.Nonempty →
      ∃ m ∈ S, (∀ x ∈ S, m.le x) ∧ IsLeast (orderKey '' S) m.orderKey := by
  refine ⟨fun a b => ⟨orderKey_lt_iff, orderKey_eq_iff, compare_eq_lt_iff, fun hlt => ?_,
    fun hlt => compare_eq_lt_iff.2 (.inl hlt)⟩, fun l => ?_, fun S hS => ?_⟩
  · exact orderKey_le_of_le (Ordering.isLE_of_eq_lt hlt)
  · have hsorted : (sortList Location.le l).Pairwise fun a b => a.le b := sortList_isLE l
    exact ⟨sortList_perm _ l, hsorted, pairwise_map_orderKey hsorted⟩
  · obtain ⟨m, hm, hsmallest⟩ := exists_smallest hS
    exact ⟨m, hm, hsmallest, isLeast_orderKey hm hsmallest⟩

/-- At the last offset of a file, a span that ends before it starts is smaller than one that does
not, with the same order key. The first offset of the next file has a larger one. -/
theorem orderKey_keeps_order_at_last_offset : ∃ a b c : Location,
    a.span.length? = none ∧ b.span.length? = some 0 ∧ compare a b = .lt ∧
    a.orderKey = b.orderKey ∧ b.orderKey < c.orderKey ∧ compare b c = .lt ∧
    sortList Location.le [c, b, a] = [a, b, c] := by
  obtain ⟨a, b, c, hreversed, hempty, hlt, hfile, hstart, hnext, hsorted⟩ :
      ∃ a b c : Location, a.span.length? = none ∧ b.span.length? = some 0 ∧ compare a b = .lt ∧
        a.file = b.file ∧ a.span.start = b.span.start ∧ b.file.ordinal < c.file.ordinal ∧
        sortList Location.le [c, b, a] = [a, b, c] :=
    ⟨.ofOffsets 0 0xFFFFFFFF 0, .ofOffsets 0 0xFFFFFFFF 0xFFFFFFFF, .ofOffsets 1 0 0, by decide⟩
  have hab := (orderKey_keeps_order.1 a b).2.1
  obtain ⟨hless, -, -, -, hcompare⟩ := orderKey_keeps_order.1 b c
  have hkeys : b.orderKey < c.orderKey := hless.2 (.inl hnext)
  exact ⟨a, b, c, hreversed, hempty, hlt, hab.2 ⟨hfile, hstart⟩, hkeys, hcompare hkeys, hsorted⟩

end Location

end AnonymousTypes
