import AnonymousTypes.Identity
import AnonymousTypes.Shape.Key

/-!
# Identity maps

What one output leaves behind for the next: the identity of every shape that was
visible in it, and the counters to continue from. A later compilation that starts
from scratch can then keep the names and go on numbering.

The entries are sorted by the canonical text of their keys and no key occurs
twice, so a map has one representation only: maps with the same entries and
counters are equal.
-/

namespace AnonymousTypes

/-- Identities of shapes, and the counters to continue from. -/
structure IdentityMap where
  /-- the entries, sorted by canonical text -/
  entries : List (ShapeKey × Identity)
  /-- the next unused indices -/
  numbering : Numbering
  /-- the entries are strictly sorted -/
  sorted : entries.Pairwise fun a b => a.1 < b.1

namespace ShapeKey

theorem lt_trans {a b c : ShapeKey} (hab : a < b) (hbc : b < c) : a < c :=
  String.lt_trans hab hbc

/-- Of two different keys one is smaller. -/
theorem lt_of_not_lt {a b : ShapeKey} (hlt : ¬ a < b) (hne : a ≠ b) : b < a := by
  by_cases h : b < a
  · exact h
  · exact absurd (canonical_inj.1 (String.le_antisymm h hlt)) hne

end ShapeKey

namespace IdentityMap

/-- No key is bound twice. -/
theorem nodup_keys (m : IdentityMap) : (m.entries.map Prod.fst).Nodup := by
  refine List.Pairwise.map Prod.fst (fun a b hlt heq => ?_) m.sorted
  rw [heq] at hlt
  exact String.lt_irrefl _ hlt

/-- The same if there may be no map. -/
theorem nodup_recorded (previous : Option IdentityMap) :
    (((previous.map (·.entries)).getD []).map Prod.fst).Nodup := by
  cases previous with
  | none => exact List.nodup_nil
  | some map => exact map.nodup_keys

theorem nodup_entries (m : IdentityMap) : m.entries.Nodup :=
  List.Pairwise.of_map Prod.fst (fun _ _ hne he => hne (congrArg Prod.fst he)) m.nodup_keys

/-- The map without entries, with all counters at zero. -/
def empty : IdentityMap := ⟨[], .zero, .nil⟩

/-- Bind a key in a sorted list of entries, in place of what it was bound to. -/
def insertEntry (key : ShapeKey) (identity : Identity) :
    List (ShapeKey × Identity) → List (ShapeKey × Identity)
  | [] => [(key, identity)]
  | e :: es =>
    if key < e.1 then (key, identity) :: e :: es
    else if key = e.1 then (key, identity) :: es
    else e :: insertEntry key identity es

theorem mem_insertEntry {key : ShapeKey} {identity : Identity}
    {es : List (ShapeKey × Identity)} {e : ShapeKey × Identity}
    (h : e ∈ insertEntry key identity es) : e = (key, identity) ∨ e ∈ es := by
  induction es with
  | nil => exact .inl (List.mem_singleton.1 h)
  | cons d ds ih =>
    rw [insertEntry] at h
    split at h
    · exact List.mem_cons.1 h
    · split at h
      · rcases List.mem_cons.1 h with h | h
        · exact .inl h
        · exact .inr (List.mem_cons_of_mem _ h)
      · rcases List.mem_cons.1 h with h | h
        · exact .inr (h ▸ List.mem_cons_self ..)
        · exact (ih h).imp_right (List.mem_cons_of_mem _)

theorem insertEntry_sorted (key : ShapeKey) (identity : Identity)
    {es : List (ShapeKey × Identity)} (h : es.Pairwise fun a b => a.1 < b.1) :
    (insertEntry key identity es).Pairwise fun a b => a.1 < b.1 := by
  induction es with
  | nil => exact List.pairwise_singleton ..
  | cons d ds ih =>
    obtain ⟨hd, hds⟩ := List.pairwise_cons.1 h
    rw [insertEntry]
    split
    · rename_i hlt
      refine List.pairwise_cons.2 ⟨fun e he => ?_, h⟩
      rcases List.mem_cons.1 he with rfl | he
      · exact hlt
      · exact ShapeKey.lt_trans hlt (hd e he)
    · rename_i hlt
      split
      · rename_i heq
        exact List.pairwise_cons.2 ⟨fun e he => heq ▸ hd e he, hds⟩
      · rename_i hne
        refine List.pairwise_cons.2 ⟨fun e he => ?_, ih hds⟩
        rcases mem_insertEntry he with rfl | he
        · exact ShapeKey.lt_of_not_lt hlt hne
        · exact hd e he

/-- Bind a key, in place of what it was bound to. The counters stay as they are. -/
def insert (m : IdentityMap) (key : ShapeKey) (identity : Identity) : IdentityMap where
  entries := insertEntry key identity m.entries
  numbering := m.numbering
  sorted := insertEntry_sorted key identity m.sorted

/-- The identity bound to a key. -/
def get? (m : IdentityMap) (key : ShapeKey) : Option Identity := m.entries.lookup key

theorem lookup_insertEntry_self (key : ShapeKey) (identity : Identity)
    (es : List (ShapeKey × Identity)) :
    (insertEntry key identity es).lookup key = some identity := by
  induction es with
  | nil => simp [insertEntry]
  | cons e es ih =>
    rw [insertEntry]
    split
    · simp
    · split
      · simp
      · rename_i hne
        rw [List.lookup_cons, beq_eq_false_iff_ne.2 hne]
        exact ih

theorem lookup_insertEntry_ne {key other : ShapeKey} (identity : Identity)
    (es : List (ShapeKey × Identity)) (hne : other ≠ key) :
    (insertEntry key identity es).lookup other = es.lookup other := by
  induction es with
  | nil => rw [insertEntry, List.lookup_cons, beq_eq_false_iff_ne.2 hne]
  | cons e es ih =>
    rw [insertEntry]
    split
    · rw [List.lookup_cons, beq_eq_false_iff_ne.2 hne]
    · split
      · rename_i heq
        rw [List.lookup_cons, List.lookup_cons, beq_eq_false_iff_ne.2 hne, ← heq,
          beq_eq_false_iff_ne.2 hne]
      · rw [List.lookup_cons, List.lookup_cons, ih]

/-- A key that was just bound has its new identity. -/
@[simp] theorem get?_insert_self (m : IdentityMap) (key : ShapeKey) (identity : Identity) :
    (m.insert key identity).get? key = some identity :=
  lookup_insertEntry_self ..

/-- Binding a key leaves the others alone. -/
theorem get?_insert_ne (m : IdentityMap) {key other : ShapeKey} (identity : Identity)
    (hne : other ≠ key) : (m.insert key identity).get? other = m.get? other :=
  lookup_insertEntry_ne identity m.entries hne

theorem get?_eq_some_iff {m : IdentityMap} {key : ShapeKey} {identity : Identity} :
    m.get? key = some identity ↔ (key, identity) ∈ m.entries := by
  have hnodup := m.nodup_keys
  rw [get?]
  generalize m.entries = es at hnodup
  induction es with
  | nil => simp
  | cons e es ih =>
    rw [List.map_cons, List.nodup_cons] at hnodup
    rw [List.lookup_cons, List.mem_cons]
    by_cases he : key = e.1
    · have hrest : (key, identity) ∉ es := fun hmem =>
        hnodup.1 (he ▸ List.mem_map_of_mem (f := Prod.fst) hmem)
      rw [beq_iff_eq.2 he]
      simp only [Option.some.injEq, hrest, or_false]
      exact ⟨fun hi => Prod.ext he hi.symm, fun hi => (congrArg Prod.snd hi).symm⟩
    · have hne : (key, identity) ≠ e := fun hi => he (congrArg Prod.fst hi)
      rw [beq_eq_false_iff_ne.2 he]
      simp only [hne, false_or]
      exact ih hnodup.2

theorem get?_eq_none_iff {m : IdentityMap} {key : ShapeKey} :
    m.get? key = none ↔ key ∉ m.entries.map Prod.fst := by
  rw [Option.eq_none_iff_forall_not_mem, List.mem_map]
  constructor
  · rintro hnone ⟨⟨_, identity⟩, hentry, rfl⟩
    exact hnone identity (get?_eq_some_iff.2 hentry)
  · exact fun hnot identity hkey => hnot ⟨_, get?_eq_some_iff.1 hkey, rfl⟩

/-- Bind keys one after another; of two entries with the same key the later wins. -/
def insertAll (m : IdentityMap) (entries : List (ShapeKey × Identity)) : IdentityMap :=
  entries.foldl (fun m e => m.insert e.1 e.2) m

theorem insertAll_cons (m : IdentityMap) (e : ShapeKey × Identity)
    (entries : List (ShapeKey × Identity)) :
    m.insertAll (e :: entries) = (m.insert e.1 e.2).insertAll entries := rfl

/-- After many keys were bound, each has the last identity given to it. -/
theorem get?_insertAll (m : IdentityMap) (entries : List (ShapeKey × Identity)) (key : ShapeKey) :
    (m.insertAll entries).get? key = (entries.reverse.lookup key).or (m.get? key) := by
  induction entries generalizing m with
  | nil => rfl
  | cons e rest ih =>
    rw [insertAll_cons, ih, List.reverse_cons, List.lookup_append, Option.or_assoc]
    congr 1
    by_cases he : key = e.1
    · rw [he, get?_insert_self, List.lookup_cons_self, Option.some_or]
    · rw [get?_insert_ne _ _ he, List.lookup_cons, beq_eq_false_iff_ne.2 he]
      rfl

theorem get?_insertAll_of_not_mem (m : IdentityMap) {entries : List (ShapeKey × Identity)}
    {key : ShapeKey} (hnot : ∀ identity, (key, identity) ∉ entries) :
    (m.insertAll entries).get? key = m.get? key := by
  induction entries generalizing m with
  | nil => rfl
  | cons e rest ih =>
    have hne : key ≠ e.1 := fun he => hnot e.2 (he ▸ List.mem_cons_self ..)
    rw [insertAll_cons, ih _ fun i hmem => hnot i (List.mem_cons_of_mem _ hmem),
      get?_insert_ne _ _ hne]

theorem get?_insertAll_of_mem (m : IdentityMap) {entries : List (ShapeKey × Identity)}
    (hnodup : (entries.map Prod.fst).Nodup) {key : ShapeKey} {identity : Identity}
    (hmem : (key, identity) ∈ entries) : (m.insertAll entries).get? key = some identity := by
  induction entries generalizing m with
  | nil => cases hmem
  | cons e rest ih =>
    obtain ⟨hnot, hnodup⟩ := List.nodup_cons.1 hnodup
    rw [insertAll_cons]
    rcases List.mem_cons.1 hmem with rfl | hmem
    · rw [get?_insertAll_of_not_mem _ fun i hmem => hnot (List.mem_map.2 ⟨_, hmem, rfl⟩),
        get?_insert_self]
    · exact ih _ hnodup hmem

theorem numbering_insertAll (m : IdentityMap) (entries : List (ShapeKey × Identity)) :
    (m.insertAll entries).numbering = m.numbering := by
  induction entries generalizing m with
  | nil => rfl
  | cons e rest ih => exact ih _

/-- Set the counters. -/
def withNumbering (m : IdentityMap) (numbering : Numbering) : IdentityMap :=
  { m with numbering }

/-- The number of entries. -/
def size (m : IdentityMap) : Nat := m.entries.length

/-- Whether there are no entries. -/
def isEmpty (m : IdentityMap) : Bool := m.entries.isEmpty

@[ext] theorem ext {a b : IdentityMap} (hentries : a.entries = b.entries)
    (hnumbering : a.numbering = b.numbering) : a = b := by
  cases a
  cases b
  subst hentries hnumbering
  rfl

/-- A map is what it binds, and its counters. -/
theorem ext_get? {a b : IdentityMap} (hget : ∀ key, a.get? key = b.get? key)
    (hnumbering : a.numbering = b.numbering) : a = b := by
  refine ext ?_ hnumbering
  refine ((List.perm_ext_iff_of_nodup a.nodup_entries b.nodup_entries).2 fun e => ?_).eq_of_pairwise
    ?_ a.sorted b.sorted
  · rw [← get?_eq_some_iff, ← get?_eq_some_iff, hget]
  · exact fun _ _ _ _ hlt hgt => absurd (ShapeKey.lt_trans hlt hgt) (String.lt_irrefl _)

instance : DecidableEq IdentityMap := fun a b =>
  decidable_of_iff (a.entries = b.entries ∧ a.numbering = b.numbering)
    ⟨fun h => ext h.1 h.2, fun h => h ▸ ⟨rfl, rfl⟩⟩

end IdentityMap

end AnonymousTypes
