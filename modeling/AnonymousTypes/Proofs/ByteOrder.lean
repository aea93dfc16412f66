import AnonymousTypes.Text.Utf8
import AnonymousTypes.Proofs.Naming

/-!
# The byte order of texts

Texts are compared character by character. Their bytes compare the same way
(`Text.Utf8.encode_lt_iff`), because UTF-8 keeps the order of the code points: the leading
bytes of longer characters are larger, and within one length the payload is written in
base 64 from the top. So the order in which templates are numbered can be read off the bytes
of their texts (`Template.shapeCompare_eq_lt_iff`, `Template.delegateCompare_eq_lt_iff`).
-/

namespace AnonymousTypes

namespace Text.Utf8

/-! ## One character -/

/-- The bytes of the character with a given number, as numbers. -/
def codes (v : Nat) : List Nat :=
  if v < 0x80 then [v]
  else if v < 0x800 then [0xC0 + v / 0x40, 0x80 + v % 0x40]
  else if v < 0x10000 then [0xE0 + v / 0x1000, 0x80 + v / 0x40 % 0x40, 0x80 + v % 0x40]
  else [0xF0 + v / 0x40000, 0x80 + v / 0x1000 % 0x40, 0x80 + v / 0x40 % 0x40, 0x80 + v % 0x40]

/-- Code points end below seventeen times 2^16. A fourth leading byte is therefore enough. -/
theorem toNat_val_lt (c : Char) : c.val.toNat < 0x110000 := by
  rcases c.valid with h | ⟨-, h⟩
  · exact Nat.lt_trans h (by decide)
  · exact h

/-- The encoding of the library, written with divisions instead of shifts and masks, so that
arithmetic can be done with it. -/
theorem map_toNat_utf8EncodeChar (c : Char) :
    (String.utf8EncodeChar c).map UInt8.toNat = codes c.val.toNat := by
  have hc := toNat_val_lt c
  rw [String.utf8EncodeChar, codes]
  generalize c.val.toNat = v at *
  repeat' split
  all_goals
    simp only [List.map_cons, List.map_nil, UInt8.toNat_ofNat', List.cons.injEq, and_true]
    omega

/-- **Larger code points have larger bytes**, whatever follows them. Two characters of different
length already differ in the leading byte; within one length the digits in base 64 are compared
from the top. -/
theorem codes_lt {v w : Nat} (h : v < w) (x y : List Nat) : codes v ++ x < codes w ++ y := by
  -- the larger number is larger in the first digit in which the two differ
  have h₁ : v / 0x40 < w / 0x40 ∨ v / 0x40 = w / 0x40 ∧ v % 0x40 < w % 0x40 := by omega
  have h₂ : v / 0x40 < w / 0x40 → v / 0x1000 < w / 0x1000 ∨
      v / 0x1000 = w / 0x1000 ∧ v / 0x40 % 0x40 < w / 0x40 % 0x40 := by omega
  have h₃ : v / 0x1000 < w / 0x1000 → v / 0x40000 < w / 0x40000 ∨
      v / 0x40000 = w / 0x40000 ∧ v / 0x1000 % 0x40 < w / 0x1000 % 0x40 := by omega
  rw [codes, codes]
  repeat' split
  all_goals
    simp only [List.cons_append, List.nil_append, List.cons_lt_cons_iff]
    omega

theorem map_toNat_lt_iff {a b : List UInt8} :
    a.map UInt8.toNat < b.map UInt8.toNat ↔ a < b := by
  induction a generalizing b with
  | nil => cases b <;> simp
  | cons x xs ih =>
    cases b with
    | nil => simp
    | cons y ys =>
      rw [List.map_cons, List.map_cons, List.cons_lt_cons_iff, List.cons_lt_cons_iff, ih,
        UInt8.lt_iff_toNat_lt, UInt8.toNat_inj]

/-- The first character in which two texts differ decides about their bytes. -/
theorem utf8EncodeChar_lt {c d : Char} (h : c < d) (x y : List UInt8) :
    String.utf8EncodeChar c ++ x < String.utf8EncodeChar d ++ y := by
  rw [← map_toNat_lt_iff, List.map_append, List.map_append, map_toNat_utf8EncodeChar,
    map_toNat_utf8EncodeChar]
  exact codes_lt h ..

/-! ## Whole texts -/

/-- By induction on both texts, up to the first character in which they differ. A text that ends
first has fewer bytes. -/
theorem encode_lt_encode {a b : String} (h : a < b) : encode a < encode b := by
  have hlist : a.toList < b.toList := h
  rw [encode, encode]
  generalize a.toList = cs at hlist
  generalize b.toList = ds at hlist
  induction cs generalizing ds with
  | nil =>
    cases ds with
    | nil => cases hlist
    | cons d ds =>
      obtain ⟨b, bs, hb⟩ := List.exists_cons_of_ne_nil (String.utf8EncodeChar_ne_nil (c := d))
      rw [List.flatMap_nil, List.flatMap_cons, hb]
      exact List.nil_lt_cons ..
  | cons c cs ih =>
    cases ds with
    | nil => cases hlist
    | cons d ds =>
      rw [List.flatMap_cons, List.flatMap_cons]
      rcases List.cons_lt_cons_iff.1 hlist with hlt | ⟨rfl, hrest⟩
      · exact utf8EncodeChar_lt hlt ..
      · exact List.append_left_lt (ih ds hrest)

/-- **Texts compare like their bytes.** So templates are named in the same order by everybody who
sorts the encoded texts. -/
theorem encode_lt_iff {a b : String} : encode a < encode b ↔ a < b := by
  refine ⟨fun h => ?_, encode_lt_encode⟩
  rcases Std.lt_trichotomy a b with hlt | heq | hgt
  · exact hlt
  · rw [heq] at h
    exact absurd h (List.lt_irrefl _)
  · exact absurd h (List.lt_asymm (encode_lt_encode hgt))

end Text.Utf8

/-! ## The order of numbering -/

namespace Template

open Text.Utf8 (encode encode_lt_iff)

/-- **When a shape is numbered before another**: it is used from nowhere and the other one from
somewhere, or it is used from an earlier location, or the two are used from the same one, or both
from nowhere, and the bytes of its canonical text come first. -/
def Precedes (a b : Template .shape) : Prop :=
  b.earliest ≠ noLocation ∧ (a.earliest = noLocation ∨ a.earliest < b.earliest) ∨
    a.earliest = b.earliest ∧ encode a.key.canonical < encode b.key.canonical

instance (a b : Template .shape) : Decidable (a.Precedes b) := instDecidableOr

/-- The word for "none" comes before all locations, although no word is greater. -/
theorem compare_earliest?_eq_lt_iff {a b : Template .shape} :
    compare a.earliest? b.earliest? = .lt ↔
      b.earliest ≠ noLocation ∧ (a.earliest = noLocation ∨ a.earliest < b.earliest) := by
  rw [earliest?, earliest?]
  by_cases ha : a.earliest = noLocation <;> by_cases hb : b.earliest = noLocation
  · simp [ha, hb, compare]
  · simp [ha, hb, compare]
  · simp [ha, hb, compare]
  · rw [if_neg ha, if_neg hb, and_iff_right hb, or_iff_right ha]
    exact compareOfLessAndEq_eq_lt

theorem compare_earliest?_eq_eq_iff {a b : Template .shape} :
    compare a.earliest? b.earliest? = .eq ↔ a.earliest = b.earliest := by
  rw [Std.LawfulEqOrd.compare_eq_iff_eq, earliest?, earliest?]
  by_cases ha : a.earliest = noLocation <;> by_cases hb : b.earliest = noLocation
  · simp [ha, hb]
  · simp [ha, hb, Ne.symm hb]
  · simp [ha, hb]
  · simp [ha, hb]

/-- **The comparison of shapes** by which they are sorted says what `Precedes` says. -/
theorem shapeCompare_eq_lt_iff {a b : Template .shape} :
    shapeCompare a b = .lt ↔ a.Precedes b := by
  rw [shapeCompare, Ordering.then_eq_lt, Precedes, compare_earliest?_eq_lt_iff,
    compare_earliest?_eq_eq_iff, encode_lt_iff]
  exact or_congr_right (and_congr_right fun _ => compareOfLessAndEq_eq_lt)

/-- **Delegates** are compared by the bytes of their type names. Where they are used does not
count. -/
theorem delegateCompare_eq_lt_iff {a b : Template .delegate} : delegateCompare a b = .lt ↔
    encode (DelegateKey.typeName a.key) < encode (DelegateKey.typeName b.key) := by
  rw [encode_lt_iff]
  exact compareOfLessAndEq_eq_lt

/-- So the position of a shape in the sorted list counts the shapes that precede it. -/
theorem countP_shapeCompare (l : List (Template .shape)) (t : Template .shape) :
    (l.countP fun u => shapeCompare u t = .lt) = l.countP fun u => u.Precedes t :=
  List.countP_congr fun u _ => by
    rw [decide_eq_true_iff, decide_eq_true_iff, shapeCompare_eq_lt_iff]

theorem countP_delegateCompare (l : List (Template .delegate)) (t : Template .delegate) :
    (l.countP fun u => delegateCompare u t = .lt) =
      l.countP fun u => encode (DelegateKey.typeName u.key) < encode (DelegateKey.typeName t.key) :=
  List.countP_congr fun u _ => by
    rw [decide_eq_true_iff, decide_eq_true_iff, delegateCompare_eq_lt_iff]

end Template

end AnonymousTypes
