/-!
# Tables

A `Table` binds keys to values and remembers the order in which the keys were
added. Every key occurs once: a key can only be added while it is vacant, and a
bound value is changed in place.

The view of a table is `Table.find?`; each operation comes with the lemmas that
say what it does to the view.
-/

namespace AnonymousTypes

/-- Keys bound to values, in the order in which the keys were added. -/
structure Table (κ α : Type) where
  /-- the bindings -/
  entries : List (κ × α)
  /-- no key is bound twice -/
  nodup : (entries.map Prod.fst).Nodup

namespace Table

variable {κ α : Type}

/-- No key is bound. -/
def empty : Table κ α := ⟨[], List.nodup_nil⟩

/-- The bound keys. -/
def keys (t : Table κ α) : List κ := t.entries.map Prod.fst

/-- The bound values. -/
def values (t : Table κ α) : List α := t.entries.map Prod.snd

/-- The number of bound keys. -/
def size (t : Table κ α) : Nat := t.entries.length

variable [DecidableEq κ]

/-- The value bound to a key. -/
def find? (t : Table κ α) (key : κ) : Option α :=
  (t.entries.find? fun e => e.1 = key).map Prod.snd

/-- Bind a key, unless it is bound already. -/
def addIfVacant (t : Table κ α) (key : κ) (value : α) : Table κ α :=
  if h : key ∈ t.keys then t
  else
    { entries := t.entries ++ [(key, value)]
      nodup := by
        rw [List.map_append]
        refine List.nodup_append.2 ⟨t.nodup, by simp, ?_⟩
        intro a ha b hb hab
        have hak : a = key := hab.trans (List.mem_singleton.1 hb)
        exact h (hak ▸ ha) }

/-- Change the value bound to a key; nothing happens if the key is not bound. -/
def modify (t : Table κ α) (key : κ) (change : α → α) : Table κ α where
  entries := t.entries.map fun e => if e.1 = key then (e.1, change e.2) else e
  nodup := by
    have hkeys : (t.entries.map fun e => if e.1 = key then (e.1, change e.2) else e).map
        Prod.fst = t.entries.map Prod.fst := by
      rw [List.map_map]
      refine List.map_congr_left fun e _ => ?_
      simp only [Function.comp]
      split <;> rfl
    rw [hkeys]
    exact t.nodup

/-- Bind a key, whether it is bound already or not. -/
def insert (t : Table κ α) (key : κ) (value : α) : Table κ α :=
  (t.addIfVacant key value).modify key fun _ => value

/-! ## The view -/

@[simp] theorem find?_empty (key : κ) : (empty : Table κ α).find? key = none := rfl

theorem mem_keys_iff {t : Table κ α} {key : κ} : key ∈ t.keys ↔ (t.find? key).isSome := by
  rw [keys, find?, Option.isSome_map, List.find?_isSome, List.mem_map]
  simp only [decide_eq_true_eq]

theorem find?_eq_none_iff {t : Table κ α} {key : κ} : t.find? key = none ↔ key ∉ t.keys := by
  rw [mem_keys_iff, Option.not_isSome_iff_eq_none]

/-- A vacant key gets the new value; a bound one keeps its own. -/
theorem find?_addIfVacant_self (t : Table κ α) (key : κ) (value : α) :
    (t.addIfVacant key value).find? key = some ((t.find? key).getD value) := by
  rw [addIfVacant]
  split
  · rename_i h
    obtain ⟨v, hv⟩ := Option.isSome_iff_exists.1 (mem_keys_iff.1 h)
    rw [hv, Option.getD_some]
  · rename_i h
    have hnone := find?_eq_none_iff.2 h
    rw [hnone]
    rw [find?, Option.map_eq_none_iff] at hnone
    simp [find?, List.find?_append, hnone]

theorem find?_addIfVacant_ne (t : Table κ α) {key other : κ} (value : α) (hne : other ≠ key) :
    (t.addIfVacant key value).find? other = t.find? other := by
  rw [addIfVacant]
  split
  · rfl
  · simp [find?, List.find?_append, Ne.symm hne]

theorem find?_modify_self (t : Table κ α) (key : κ) (change : α → α) :
    (t.modify key change).find? key = (t.find? key).map change := by
  obtain ⟨entries, nodup⟩ := t
  simp only [modify, find?]
  clear nodup
  induction entries with
  | nil => rfl
  | cons e rest ih =>
    rw [List.map_cons, List.find?_cons, List.find?_cons]
    by_cases h : e.1 = key
    · simp only [if_pos h, decide_eq_true h, Option.map_some]
    · simp only [if_neg h, decide_eq_false h]
      exact ih

theorem find?_modify_ne (t : Table κ α) {key other : κ} (change : α → α) (hne : other ≠ key) :
    (t.modify key change).find? other = t.find? other := by
  obtain ⟨entries, nodup⟩ := t
  simp only [modify, find?]
  clear nodup
  induction entries with
  | nil => rfl
  | cons e rest ih =>
    rw [List.map_cons, List.find?_cons, List.find?_cons]
    by_cases h : e.1 = key
    · have ho : ¬ e.1 = other := fun he => hne (he.symm.trans h)
      simp only [if_pos h, decide_eq_false ho]
      exact ih
    · simp only [if_neg h]
      by_cases ho : e.1 = other
      · simp only [decide_eq_true ho]
      · simp only [decide_eq_false ho]
        exact ih

theorem find?_insert_self (t : Table κ α) (key : κ) (value : α) :
    (t.insert key value).find? key = some value := by
  rw [insert, find?_modify_self, find?_addIfVacant_self]
  rfl

theorem find?_insert_ne (t : Table κ α) {key other : κ} (value : α) (hne : other ≠ key) :
    (t.insert key value).find? other = t.find? other := by
  rw [insert, find?_modify_ne _ _ hne, find?_addIfVacant_ne _ _ hne]

/-- The number of keys grows exactly when a vacant key is added. -/
theorem size_addIfVacant (t : Table κ α) (key : κ) (value : α) :
    (t.addIfVacant key value).size = t.size + if (t.find? key).isSome then 0 else 1 := by
  rw [addIfVacant]
  split
  · rename_i h
    rw [if_pos (mem_keys_iff.1 h)]
    rfl
  · rename_i h
    rw [find?_eq_none_iff.2 h]
    simp [size]

/-! ## The bindings

A table has no more in it than its view says, the order of the keys apart. -/

theorem find?_eq_some_iff {t : Table κ α} {key : κ} {value : α} :
    t.find? key = some value ↔ (key, value) ∈ t.entries := by
  obtain ⟨entries, nodup⟩ := t
  simp only [find?]
  induction entries with
  | nil => simp
  | cons e rest ih =>
    rw [List.map_cons, List.nodup_cons] at nodup
    rw [List.find?_cons, List.mem_cons]
    by_cases h : e.1 = key
    · have hrest : (key, value) ∉ rest := fun hmem =>
        nodup.1 (h ▸ List.mem_map_of_mem (f := Prod.fst) hmem)
      simp only [decide_eq_true h, Option.map_some, Option.some.injEq, hrest, or_false]
      exact ⟨fun hv => Prod.ext h.symm hv.symm, fun he => (congrArg Prod.snd he).symm⟩
    · have hne : (key, value) ≠ e := fun he => h (congrArg Prod.fst he).symm
      simp only [decide_eq_false h, hne, false_or]
      exact ih nodup.2

theorem mem_values_iff {t : Table κ α} {value : α} :
    value ∈ t.values ↔ ∃ key, t.find? key = some value := by
  simp only [values, List.mem_map, find?_eq_some_iff, Prod.exists, exists_eq_right]

omit [DecidableEq κ] in
theorem nodup_entries (t : Table κ α) : t.entries.Nodup :=
  List.Pairwise.of_map Prod.fst (fun _ _ hne he => hne (congrArg Prod.fst he)) t.nodup

/-- Two tables with the same view hold the same bindings. -/
theorem entries_perm {t u : Table κ α} (h : ∀ key, t.find? key = u.find? key) :
    t.entries.Perm u.entries := by
  refine (List.perm_ext_iff_of_nodup t.nodup_entries u.nodup_entries).2 ?_
  rintro ⟨key, value⟩
  rw [← find?_eq_some_iff, ← find?_eq_some_iff, h key]

theorem values_perm {t u : Table κ α} (h : ∀ key, t.find? key = u.find? key) :
    t.values.Perm u.values :=
  (entries_perm h).map _

theorem size_eq {t u : Table κ α} (h : ∀ key, t.find? key = u.find? key) : t.size = u.size :=
  (entries_perm h).length_eq

/-- Two tables with the same keys are of the same size. -/
theorem size_eq_of_isSome {t u : Table κ α}
    (h : ∀ key, (t.find? key).isSome = (u.find? key).isSome) : t.size = u.size := by
  have hkeys : t.keys.Perm u.keys :=
    (List.perm_ext_iff_of_nodup t.nodup u.nodup).2 fun key => by
      change key ∈ t.keys ↔ key ∈ u.keys
      rw [mem_keys_iff, mem_keys_iff, h key]
  have hlength := hkeys.length_eq
  rwa [keys, keys, List.length_map, List.length_map] at hlength

@[simp] theorem size_modify (t : Table κ α) (key : κ) (change : α → α) :
    (t.modify key change).size = t.size :=
  List.length_map ..

theorem size_insert (t : Table κ α) (key : κ) (value : α) :
    (t.insert key value).size = t.size + if (t.find? key).isSome then 0 else 1 := by
  rw [insert, size_modify, size_addIfVacant]

end Table

end AnonymousTypes
