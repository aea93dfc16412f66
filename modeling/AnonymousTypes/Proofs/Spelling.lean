import AnonymousTypes.Definition

/-!
# Names tell types apart

The name of a shape contains its index and the name of a delegate spells its key, so
different shapes and different delegates have different names: `shapeTypeName_inj` and
`DelegateKey.typeName_inj`. A shape is never named like a delegate (`shapeTypeName_ne`).

What precedes the last separator of a name may be anything, what follows it is known not to
contain the separator; so a name can be taken apart from the end (`split_last`).
-/

namespace AnonymousTypes

/-! ## Taking texts apart -/

/-- A separator that does not occur in what follows can be found again. -/
theorem split_last {c : Char} {a a' b b' : List Char} (hb : c ∉ b) (hb' : c ∉ b')
    (h : a ++ c :: b = a' ++ c :: b') : a = a' ∧ b = b' := by
  rcases List.append_eq_append_iff.1 h with ⟨d, rfl, hd⟩ | ⟨d, rfl, hd⟩
  · rcases d with _ | ⟨x, d⟩
    · exact ⟨(List.append_nil a).symm, (List.cons.inj hd).2⟩
    · rw [List.cons_append] at hd
      have hmem : c ∈ d ++ c :: b' := List.mem_append_right _ (List.mem_cons_self ..)
      exact absurd ((List.cons.inj hd).2 ▸ hmem) hb
  · rcases d with _ | ⟨x, d⟩
    · exact ⟨List.append_nil a', (List.cons.inj hd).2.symm⟩
    · rw [List.cons_append] at hd
      have hmem : c ∈ d ++ c :: b := List.mem_append_right _ (List.mem_cons_self ..)
      exact absurd ((List.cons.inj hd).2 ▸ hmem) hb'

/-- So can one that does not occur in what precedes it. -/
theorem split_first {c : Char} {a a' b b' : List Char} (ha : c ∉ a) (ha' : c ∉ a')
    (h : a ++ c :: b = a' ++ c :: b') : a = a' ∧ b = b' := by
  have hreverse := congrArg List.reverse h
  simp only [List.reverse_append, List.reverse_cons, List.append_assoc, List.singleton_append]
    at hreverse
  obtain ⟨hbs, has⟩ := split_last (by simpa using ha) (by simpa using ha') hreverse
  exact ⟨List.reverse_inj.1 has, List.reverse_inj.1 hbs⟩

theorem toDigits_inj {m n : Nat} : Nat.toDigits 10 m = Nat.toDigits 10 n ↔ m = n := by
  refine ⟨fun h => ?_, congrArg (Nat.toDigits 10)⟩
  rw [← Nat.ofDigitChars_ten_toDigits (n := m), h, Nat.ofDigitChars_ten_toDigits]

theorem not_mem_toDigits {c : Char} (hc : c.isDigit = false) (n : Nat) :
    c ∉ Nat.toDigits 10 n := fun hmem => by
  have hdigit := Nat.isDigit_of_mem_toDigits (Nat.succ_pos 9) (Nat.le_refl 10) hmem
  rw [hc] at hdigit
  cases hdigit

/-! ## Shapes -/

/-- The slot of a submission, as the names of its shapes end. -/
def slotChars : Option UInt32 → List Char
  | some slot => '#' :: Nat.toDigits 10 slot.toNat
  | none => []

theorem toList_shapeTypeName (index : UInt32) (slot : Option UInt32) (fragment : String) :
    (shapeTypeName index slot fragment).toList =
      '<' :: fragment.toList ++ '>' :: ("f__Shape".toList ++
        (Nat.toDigits 10 index.toNat ++ slotChars slot)) := by
  have hnat : ∀ n : UInt32, (toString n).toList = Nat.toDigits 10 n.toNat := fun n =>
    Nat.toList_repr
  rcases slot with _ | slot
  · simp [shapeTypeName, hnat, slotChars]
  · simp [shapeTypeName, hnat, slotChars]

theorem slotChars_inj {slot slot' : Option UInt32} (h : slotChars slot = slotChars slot') :
    slot = slot' := by
  rcases slot with _ | slot <;> rcases slot' with _ | slot'
  · rfl
  · cases h
  · cases h
  · exact congrArg some (UInt32.toNat_inj.1 (toDigits_inj.1 (List.cons.inj h).2))

/-- The digits of a number can be told from what follows them in the name of a shape. -/
theorem digits_slotChars_inj {m n : Nat} {slot slot' : Option UInt32}
    (h : Nat.toDigits 10 m ++ slotChars slot = Nat.toDigits 10 n ++ slotChars slot') :
    m = n ∧ slot = slot' := by
  have hno : ∀ n, '#' ∉ Nat.toDigits 10 n := not_mem_toDigits rfl
  rcases slot with _ | slot <;> rcases slot' with _ | slot'
  · rw [slotChars, List.append_nil, List.append_nil, toDigits_inj] at h
    exact ⟨h, rfl⟩
  · have hmem : '#' ∈ Nat.toDigits 10 m ++ slotChars none :=
      h ▸ List.mem_append_right _ (List.mem_cons_self ..)
    rw [slotChars, List.append_nil] at hmem
    exact absurd hmem (hno m)
  · have hmem : '#' ∈ Nat.toDigits 10 n ++ slotChars none :=
      h ▸ List.mem_append_right _ (List.mem_cons_self ..)
    rw [slotChars, List.append_nil] at hmem
    exact absurd hmem (hno n)
  · obtain ⟨hdigits, hslot⟩ := split_first (hno m) (hno n) h
    exact ⟨toDigits_inj.1 hdigits, slotChars_inj (congrArg ('#' :: ·) hslot)⟩

/-- **The name of a shape** determines index, slot and fragment, whatever the fragment. -/
theorem shapeTypeName_inj {index index' : UInt32} {slot slot' : Option UInt32}
    {fragment fragment' : String} :
    shapeTypeName index slot fragment = shapeTypeName index' slot' fragment' ↔
      index = index' ∧ slot = slot' ∧ fragment = fragment' := by
  refine ⟨fun h => ?_, by rintro ⟨rfl, rfl, rfl⟩; rfl⟩
  have hclose : ∀ n slot, '>' ∉ "f__Shape".toList ++ (Nat.toDigits 10 n ++ slotChars slot) := by
    intro n slot
    have hno : ∀ n, '>' ∉ Nat.toDigits 10 n := not_mem_toDigits rfl
    rcases slot with _ | slot
    · simp [slotChars, hno]
    · simp [slotChars, hno]
  rw [← String.toList_inj, toList_shapeTypeName, toList_shapeTypeName] at h
  obtain ⟨hfragment, hrest⟩ := split_last (hclose _ _) (hclose _ _) h
  obtain ⟨hindex, hslot⟩ := digits_slotChars_inj (List.append_cancel_left hrest)
  exact ⟨UInt32.toNat_inj.1 hindex, hslot, String.toList_inj.1 (List.cons.inj hfragment).2⟩

/-! ## Delegates -/

namespace DelegateKey

theorem hexDigit_inj {m n : Nat} (hm : m < 16) (hn : n < 16) (h : hexDigit m = hexDigit n) :
    m = n := by
  have hall : ∀ m : Fin 16, ∀ n : Fin 16, hexDigit m.1 = hexDigit n.1 → m = n := by decide
  exact congrArg Fin.val (hall ⟨m, hm⟩ ⟨n, hn⟩ h)

/-- One more digit in common, from the top. -/
theorem div_eq_of_digit {m n weight next : Nat} (h : m / next = n / next)
    (hdigit : m / weight % 16 = n / weight % 16) (hnext : next = weight * 16) :
    m / weight = n / weight := by
  rw [hnext, ← Nat.div_div_eq_div_mul, ← Nat.div_div_eq_div_mul] at h
  rw [← Nat.div_add_mod (m / weight) 16, h, hdigit, Nat.div_add_mod]

theorem hexWord_inj {v w : UInt32} (h : hexWord v = hexWord w) : v = w := by
  refine UInt32.toNat_inj.1 ?_
  have hdigit : ∀ weight ∈ hexWeights, v.toNat / weight % 16 = w.toNat / weight % 16 := by
    intro weight hmem
    have hsame := List.map_inj_left.1 h weight hmem
    exact hexDigit_inj (Nat.mod_lt _ (Nat.succ_pos 15)) (Nat.mod_lt _ (Nat.succ_pos 15)) hsame
  simp only [hexWeights, List.mem_cons, List.not_mem_nil, or_false, forall_eq_or_imp, forall_eq]
    at hdigit
  obtain ⟨h₇, h₆, h₅, h₄, h₃, h₂, h₁, h₀⟩ := hdigit
  have hall : v.toNat / 0x100000000 = w.toNat / 0x100000000 := by
    rw [Nat.div_eq_of_lt v.toNat_lt, Nat.div_eq_of_lt w.toNat_lt]
  replace hall := div_eq_of_digit hall h₇ (by decide)
  replace hall := div_eq_of_digit hall h₆ (by decide)
  replace hall := div_eq_of_digit hall h₅ (by decide)
  replace hall := div_eq_of_digit hall h₄ (by decide)
  replace hall := div_eq_of_digit hall h₃ (by decide)
  replace hall := div_eq_of_digit hall h₂ (by decide)
  replace hall := div_eq_of_digit hall h₁ (by decide)
  replace hall := div_eq_of_digit hall h₀ (by decide)
  rwa [Nat.div_one, Nat.div_one] at hall

theorem length_hexWord (word : UInt32) : (hexWord word).length = 8 := rfl

/-- A list of words can be read back from its spelling, if its length is known. -/
theorem words_inj {vs ws : List UInt32} (hlength : vs.length = ws.length)
    (h : ['_'].intercalate (vs.map hexWord) = ['_'].intercalate (ws.map hexWord)) : vs = ws := by
  induction vs generalizing ws with
  | nil => exact (List.length_eq_zero_iff.1 hlength.symm).symm
  | cons v vs ih =>
    rcases ws with _ | ⟨w, ws⟩
    · cases hlength
    · have htail : vs.length = ws.length := Nat.succ.inj hlength
      rcases vs with _ | ⟨v', vs⟩ <;> rcases ws with _ | ⟨w', ws⟩
      · rw [List.map_singleton, List.map_singleton, List.intercalate_singleton,
          List.intercalate_singleton] at h
        rw [hexWord_inj h]
      · cases htail
      · cases htail
      · simp only [List.map_cons, List.intercalate_cons_cons, List.append_assoc] at h ih
        obtain ⟨hword, hrest⟩ :=
          List.append_inj h ((length_hexWord v).trans (length_hexWord w).symm)
        rw [hexWord_inj hword, ih htail (List.append_cancel_left hrest)]

theorem toList_typeName (key : DelegateKey) :
    key.typeName.toList = (if key.returnsVoid then "Ac" else "Fn").toList ++
      (key.pattern ++ '`' :: Nat.toDigits 10 key.arity) := by
  simp [typeName]

theorem length_words (key : DelegateKey) :
    key.words.length = (key.parameterCount + (Passing.perWord - 1)) / Passing.perWord := by
  obtain ⟨params, hlength, hwords⟩ := key.packed
  rw [hwords, Passing.pack, List.length_map, List.length_range, hlength]

/-- The spelling of the words tells them apart, if there are equally many. -/
theorem pattern_inj {a b : DelegateKey} (hlength : a.words.length = b.words.length)
    (h : a.pattern = b.pattern) : a.words = b.words := by
  have hzero : ∀ key : DelegateKey, key.hasByReference = false →
      key.words = List.replicate key.words.length 0 := by
    intro key hnone
    refine List.eq_replicate_iff.2 ⟨rfl, fun word hmem => ?_⟩
    simpa using List.any_eq_false.1 hnone word hmem
  rcases ha : a.hasByReference <;> rcases hb : b.hasByReference
  · rw [hzero a ha, hzero b hb, hlength]
  · simp [pattern, ha, hb] at h
  · simp [pattern, ha, hb] at h
  · simp only [pattern, ha, hb, if_true, List.cons_append] at h
    exact words_inj hlength (List.append_cancel_right (List.cons.inj h).2)

/-- **The name of a delegate** determines its key: the letters at the front say whether it
returns, the number at the end is the arity, and the digits between them say which parameters are
passed by reference. -/
theorem typeName_inj {a b : DelegateKey} : a.typeName = b.typeName ↔ a = b := by
  refine ⟨fun h => ?_, congrArg typeName⟩
  have hno : ∀ n, '`' ∉ Nat.toDigits 10 n := not_mem_toDigits rfl
  rw [← String.toList_inj, toList_typeName, toList_typeName] at h
  obtain ⟨hhead, hrest⟩ := List.append_inj h (by split <;> split <;> rfl)
  obtain ⟨hpattern, harity⟩ := split_last (hno _) (hno _) hrest
  have hvoid : a.returnsVoid = b.returnsVoid := by
    rcases ha : a.returnsVoid <;> rcases hb : b.returnsVoid <;> simp_all
  have hcount : a.parameterCount = b.parameterCount := by
    have hsame := toDigits_inj.1 harity
    rw [arity, arity, hvoid] at hsame
    exact Nat.add_right_cancel hsame
  have hwords : a.words = b.words :=
    pattern_inj (by rw [length_words, length_words, hcount]) hpattern
  cases a
  cases b
  subst hvoid hcount hwords
  rfl

end DelegateKey

/-- **A shape is never named like a delegate.** Its name begins with a bracket, and no name of a
delegate does. -/
theorem shapeTypeName_ne (index : UInt32) (slot : Option UInt32) (fragment : String)
    (key : DelegateKey) : shapeTypeName index slot fragment ≠ key.typeName := by
  intro h
  rw [← String.toList_inj, toList_shapeTypeName, DelegateKey.toList_typeName] at h
  split at h
  · exact absurd (List.cons.inj h).1 (by decide)
  · exact absurd (List.cons.inj h).1 (by decide)

/-- The text of a key determines it, in both families. -/
theorem Family.keyText_inj {family : Family} {a b : family.Key} :
    family.keyText a = family.keyText b ↔ a = b := by
  cases family with
  | shape => exact ShapeKey.canonical_inj
  | delegate => exact DelegateKey.typeName_inj

end AnonymousTypes
