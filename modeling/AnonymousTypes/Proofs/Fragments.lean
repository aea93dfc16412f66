import AnonymousTypes.Output
import AnonymousTypes.Proofs.Spelling

/-!
# What stands in the name of a shape

Index, slot and fragment can be read off the name of a shape, whatever the fragment is. The
fragments that stand for outputs consist of letters, digits and underscores
(`OutputConfig.isFragmentChar_of_mem`), and around the fragment a name has its fixed signs and
digits only (`mem_shapeTypeName_iff`). So a bar, by which the canonical texts of shape keys set
off the fields, never occurs in the name of a shape (`OutputConfig.shapeTypeName_readable`).
-/

namespace AnonymousTypes

/-! ## Characters -/

/-- The characters that stand for themselves are the letters, the digits and the underscore. -/
theorem isFragmentChar_iff {c : Char} : isFragmentChar c = true ↔
    ('A' ≤ c ∧ c ≤ 'Z' ∨ 'a' ≤ c ∧ c ≤ 'z') ∨ '0' ≤ c ∧ c ≤ '9' ∨ c = '_' := by
  have hupper : c.isUpper = true ↔ 'A' ≤ c ∧ c ≤ 'Z' := decide_eq_true_iff
  have hlower : c.isLower = true ↔ 'a' ≤ c ∧ c ≤ 'z' :=
    Bool.and_eq_true_iff.trans (and_congr decide_eq_true_iff decide_eq_true_iff)
  have hdigit : c.isDigit = true ↔ '0' ≤ c ∧ c ≤ '9' :=
    Bool.and_eq_true_iff.trans (and_congr decide_eq_true_iff decide_eq_true_iff)
  have hclasses : isFragmentChar c = ((c.isUpper || c.isLower) || c.isDigit || c == '_') := rfl
  rw [hclasses, Bool.or_eq_true, Bool.or_eq_true, Bool.or_eq_true, hupper, hlower, hdigit,
    beq_iff_eq, or_assoc]

theorem not_mem_slotChars {c : Char} (hc : c ≠ '#') (hdigit : c.isDigit = false)
    (slot : Option UInt32) : c ∉ slotChars slot := by
  rcases slot with _ | slot
  · exact List.not_mem_nil
  · exact fun hmem => (List.mem_cons.1 hmem).elim hc (not_mem_toDigits hdigit _)

/-- **Besides the fragment**, a name has fixed signs and digits. -/
theorem mem_shapeTypeName_iff {c : Char} (hfixed : c ∉ "<>f__Shape#".toList)
    (hdigit : c.isDigit = false) (index : UInt32) (slot : Option UInt32) (fragment : String) :
    c ∈ (shapeTypeName index slot fragment).toList ↔ c ∈ fragment.toList := by
  have hnumber := not_mem_toDigits hdigit index.toNat
  have hsign : c ≠ '#' := by
    rintro rfl
    exact hfixed (by decide)
  have hslot := not_mem_slotChars hsign hdigit slot
  rw [toList_shapeTypeName]
  simp only [String.reduceToList, List.mem_cons, List.not_mem_nil, or_false, not_or] at hfixed
  simp [hfixed, hnumber, hslot]

namespace OutputConfig

/-- **A fragment** has no other characters than those that stand for themselves. -/
theorem isFragmentChar_of_mem {config : OutputConfig} {c : Char}
    (h : c ∈ config.fragment.toList) : isFragmentChar c = true := by
  rw [fragment] at h
  split at h
  · cases h
  · rw [String.toList_ofList] at h
    obtain ⟨d, -, rfl⟩ := List.mem_map.1 h
    split
    · assumption
    · rfl

/-- A bar does not stand in the names of the shapes of an output. -/
theorem bar_not_mem_shapeTypeName (config : OutputConfig) (index : UInt32)
    (slot : Option UInt32) : '|' ∉ (shapeTypeName index slot config.fragment).toList := by
  rw [mem_shapeTypeName_iff (by decide) rfl]
  exact fun h => absurd (isFragmentChar_of_mem h) (by decide)

/-- **The names of shapes can be read.**

1. Two names are equal exactly if they have the same index, the same slot and the same fragment,
   whatever the fragments are.
2. The fragment of an output consists of letters, digits and underscores.
3. A name with such a fragment is not that of a delegate, and there is no bar in it. -/
theorem shapeTypeName_readable :
    (∀ (index index' : UInt32) (slot slot' : Option UInt32) (fragment fragment' : String),
      shapeTypeName index slot fragment = shapeTypeName index' slot' fragment' ↔
        index = index' ∧ slot = slot' ∧ fragment = fragment') ∧
    ∀ config : OutputConfig,
      (∀ c ∈ config.fragment.toList,
        ('A' ≤ c ∧ c ≤ 'Z' ∨ 'a' ≤ c ∧ c ≤ 'z') ∨ '0' ≤ c ∧ c ≤ '9' ∨ c = '_') ∧
      ∀ (index : UInt32) (slot : Option UInt32),
        (∀ key : DelegateKey, shapeTypeName index slot config.fragment ≠ key.typeName) ∧
        '|' ∉ (shapeTypeName index slot config.fragment).toList := by
  refine ⟨fun _ _ _ _ _ _ => shapeTypeName_inj, fun config => ⟨fun c hc => ?_,
    fun index slot => ⟨shapeTypeName_ne index slot _, ?_⟩⟩⟩
  · exact isFragmentChar_iff.1 (isFragmentChar_of_mem hc)
  · exact bar_not_mem_shapeTypeName config index slot

/-- A fragment may look like the end of a name. The path of an output may have a bar in it. -/
theorem shapeTypeName_readable_lookalike : ∃ config : OutputConfig,
    '|' ∈ config.moduleName.toList ∧ config.fragment = "My_App_Core" ∧
    '|' ∉ (shapeTypeName 1 (some 2) config.fragment).toList ∧
    shapeTypeName 1 (some 2) "app" ≠ shapeTypeName 12 none "app" ∧
    shapeTypeName 3 none "app>f__Shape1#2" ≠ shapeTypeName 3 none "app>f__Shape12" := by
  obtain ⟨config, hbar, hfragment⟩ : ∃ config : OutputConfig,
      '|' ∈ config.moduleName.toList ∧ config.fragment = "My_App_Core" :=
    ⟨{ moduleName := "out/My.App|Core.dll" }, by decide +kernel⟩
  obtain ⟨hinj, houtput⟩ := shapeTypeName_readable
  refine ⟨config, hbar, hfragment, ((houtput config).2 1 (some 2)).2, fun heq => ?_, fun heq => ?_⟩
  · exact absurd ((hinj ..).1 heq).1 (by decide)
  · exact absurd ((hinj ..).1 heq).2.2 (by decide)

end OutputConfig

end AnonymousTypes
