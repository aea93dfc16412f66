import AnonymousTypes.Proofs.Lineage

/-!
# Fresh indices and recorded ones

A finalization that starts from scratch gives fresh indices to the shapes that the map of the
previous output does not have. They are the indices from the greater of two counters on, the one
that is passed in and the one of the map, without a gap (`Finalization.exists_namesFirst_iff`).
Whether the map has recorded some of these for other shapes is up to the map, and this alone
decides whether a fresh shape gets the index of a recorded one (`Finalization.collides_iff`).

The maps of the outputs of a lineage are ahead of what they record (`Lineage.isAhead`), so that
nothing collides with them. But binding a key in a map leaves its counters alone. A map which was
put together by hand need not be ahead, and then two shapes can get one name
(`Finalization.collides_with_inserted`).
-/

namespace AnonymousTypes

/-- The counter of a map is greater than all indices that the map has recorded. -/
def IdentityMap.IsAhead (map : IdentityMap) : Prop :=
  ∀ key i, map.get? key = some i → i.index.toNat < map.numbering.nextShape.toNat

/-- The output of a lineage is ahead of all that has been recorded. -/
theorem Lineage.isAhead {f : Finalization} {fs : List Finalization} (h : Lineage (f :: fs)) :
    f.result.map.IsAhead := by
  intro key i hkey
  rw [f.get?_map] at hkey
  rw [f.numbering_map]
  exact h.distinguishes.shapes.below hkey

/-- **All indices** from the first to the next counter are given to shapes that no earlier output
has recorded. -/
theorem Generation.Finished.exists_of_index {g g' : Generation}
    {known : ShapeKey → Option Identity} {start numbering : Numbering}
    {entries : List (ShapeKey × Identity)} {carried : List ShapeKey}
    (h : g.Finished known start entries carried numbering g') (hkeyed : g.shapes.Keyed)
    {index : UInt32} (hstart : start.nextShape.toNat ≤ index.toNat)
    (hnext : index.toNat < numbering.nextShape.toNat) :
    ∃ t ∈ g.unrecorded entries, g'.shapes.find? t.key =
      some { t with identity := some (g.shapeIdentity t.key index) } := by
  have hlength := h.nextShape_eq
  obtain ⟨t, ht, hrank⟩ := exists_countP_lt_eq
    (hkeyed.pairwise_filter (fun _ _ => Template.key_eq_of_shapeCompare) _)
    (show index.toNat - start.nextShape.toNat < (g.unrecorded entries).length by omega)
  obtain ⟨i, hi, hfind⟩ := h.shape t ht
  have hindex : i = index := UInt32.toNat_inj.1 (by rw [hi, unrecorded, hrank]; omega)
  exact ⟨t, ht, hindex ▸ hfind⟩

namespace Finalization

variable {f : Finalization} {g : Generation}

/-- A shape that the map of the previous output does not have is named by a finalization. -/
def NamesFirst (f : Finalization) (key : ShapeKey) (i : Identity) : Prop :=
  (f.previous.getD .empty).get? key = none ∧ f.visible .shape key = some i

/-- A fresh shape gets the index of another one that is recorded. -/
def Collides (f : Finalization) : Prop :=
  ∃ key i key' i', f.NamesFirst key i ∧ (f.previous.getD .empty).get? key' = some i' ∧
    key' ≠ key ∧ i'.index = i.index

/-- Where numbering starts from scratch: at the greater of two counters. -/
def firstFresh (f : Finalization) : Nat :=
  max f.given.nextShape.toNat (f.previous.getD .empty).numbering.nextShape.toNat

/-- From scratch, only the map is known. -/
theorem known_of_root (hroot : g.ancestors = []) (key : ShapeKey) :
    f.known g key = (f.previous.getD .empty).get? key := by
  rw [known, hroot]
  exact Option.none_or

theorem startNumbering_of_root (hroot : g.ancestors = []) :
    (f.before.startNumbering g f.given f.previous).nextShape.toNat = f.firstFresh := by
  have hpredecessor : f.before.predecessorNumbering g = none := by
    rw [Session.predecessorNumbering, hroot]
    rfl
  rw [Session.startNumbering_eq, hpredecessor, Option.getD_none, Numbering.join_zero,
    Numbering.toNat_nextShape_join, firstFresh]
  cases f.previous <;> rfl

/-- **From scratch**, what is visible has been recorded, or it is fresh. -/
theorem recorded_or_fresh (hg : f.before.generation? f.home = some g) (hroot : g.ancestors = [])
    {key : ShapeKey} {i : Identity} (hvisible : f.visible .shape key = some i) :
    (f.previous.getD .empty).get? key = some i ∨ (f.previous.getD .empty).get? key = none ∧
      f.firstFresh ≤ i.index.toNat ∧ i.index.toNat < f.result.numbering.nextShape.toNat := by
  obtain ⟨g', hspec⟩ := f.exists_spec hg
  rcases hspec.shapes.fresh hvisible with hold | ⟨hnone, -, hle, hlt⟩
  · exact .inl (known_of_root hroot key ▸ hold)
  · rw [startNumbering_of_root hroot] at hle
    exact .inr ⟨known_of_root hroot key ▸ hnone, hle, hlt⟩

theorem firstFresh_le (hg : f.before.generation? f.home = some g) (hroot : g.ancestors = []) :
    f.firstFresh ≤ f.result.numbering.nextShape.toNat := by
  obtain ⟨g', hspec⟩ := f.exists_spec hg
  rw [← startNumbering_of_root hroot]
  exact hspec.shapes.start_le

theorem exists_of_index (hg : f.before.generation? f.home = some g) {index : UInt32}
    (hstart : (f.before.startNumbering g f.given f.previous).nextShape.toNat ≤ index.toNat)
    (hnext : index.toNat < f.result.numbering.nextShape.toNat) :
    ∃ key i, f.NamesFirst key i ∧ i.index = index := by
  obtain ⟨carried, g', -, hready, hfinished, -, hvisible⟩ := f.exists_finished hg
  obtain ⟨t, ht, hfind⟩ := hfinished.exists_of_index (hready.keyed .shape) hstart hnext
  refine ⟨t.key, g.shapeIdentity t.key index, ⟨?_, ?_⟩, rfl⟩
  · rcases hkey : (f.previous.getD .empty).get? t.key with _ | i
    · rfl
    · have hrecorded := List.mem_map_of_mem (f := Prod.fst) (mem_entries_iff.2 hkey)
      exact absurd hrecorded (of_decide_eq_true (List.mem_filter.1 ht).2)
  · rw [hvisible .shape t.key]
    exact Option.or_eq_some_iff.2 (.inl (Option.bind_eq_some_iff.2 ⟨_, hfind, rfl⟩))

/-- **The fresh indices** are those from the first fresh one on and below the counter that is left
behind. -/
theorem exists_namesFirst_iff (hg : f.before.generation? f.home = some g)
    (hroot : g.ancestors = []) (index : UInt32) :
    (∃ key i, f.NamesFirst key i ∧ i.index = index) ↔
      f.firstFresh ≤ index.toNat ∧ index.toNat < f.result.numbering.nextShape.toNat := by
  constructor
  · rintro ⟨key, i, ⟨hnone, hvisible⟩, rfl⟩
    rcases recorded_or_fresh hg hroot hvisible with hold | ⟨-, hbounds⟩
    · rw [hnone] at hold
      cases hold
    · exact hbounds
  · rintro ⟨hle, hlt⟩
    rw [← startNumbering_of_root hroot] at hle
    exact exists_of_index hg hle hlt

/-- **Fresh indices and recorded ones.** Let a generation that continues nothing be finalized with
some counters and a map.

1. The shapes that the map does not have get indices from the greater one of the counters on and
   below the counter that is left behind. All of these are given to one of them.
2. So some shape gets an index that the map has recorded for another one, exactly if the map has
   recorded an index from this range.
3. This does not happen if all recorded indices are below the first fresh one, and then the new map
   is ahead of the indices that it records.
4. So it does not happen with the map of an output of a lineage. -/
theorem collides_iff (hg : f.before.generation? f.home = some g) (hroot : g.ancestors = []) :
    let map := f.previous.getD .empty
    let next := f.result.numbering.nextShape.toNat
    (∀ index : UInt32, (∃ key i, f.NamesFirst key i ∧ i.index = index) ↔
      f.firstFresh ≤ index.toNat ∧ index.toNat < next) ∧
    (f.Collides ↔
      ∃ key i, map.get? key = some i ∧ f.firstFresh ≤ i.index.toNat ∧ i.index.toNat < next) ∧
    ((∀ key i, map.get? key = some i → i.index.toNat < f.firstFresh) →
      ¬ f.Collides ∧ f.result.map.IsAhead) ∧
    ∀ e fs, Lineage (e :: fs) → f.previous = some e.result.map → ¬ f.Collides := by
  intro map next
  have hrange := exists_namesFirst_iff hg hroot
  have hcollides : f.Collides ↔ ∃ key i, map.get? key = some i ∧
      f.firstFresh ≤ i.index.toNat ∧ i.index.toNat < next := by
    constructor
    · rintro ⟨key, i, key', i', hfirst, hrecorded, -, hindex⟩
      exact ⟨key', i', hrecorded, (hrange i'.index).1 ⟨key, i, hfirst, hindex.symm⟩⟩
    · rintro ⟨key', i', hrecorded, hbounds⟩
      obtain ⟨key, i, hfirst, hindex⟩ := (hrange i'.index).2 hbounds
      refine ⟨key, i, key', i', hfirst, hrecorded, ?_, hindex.symm⟩
      rintro rfl
      cases hrecorded.symm.trans hfirst.1
  -- recorded indices that are below the range cannot lie in it
  have hapart : (∀ key i, map.get? key = some i → i.index.toNat < f.firstFresh) →
      ¬ f.Collides := by
    intro hbelow hbad
    obtain ⟨key, i, hrecorded, hle, -⟩ := hcollides.1 hbad
    exact absurd (hbelow key i hrecorded) (Nat.not_lt.2 hle)
  refine ⟨hrange, hcollides, fun hbelow => ⟨hapart hbelow, fun key i hkey => ?_⟩,
    fun e fs hlineage hprevious => hapart fun key i hkey => ?_⟩
  · rw [f.get?_map] at hkey
    rw [f.numbering_map]
    rcases recorded_or_fresh hg hroot hkey with hold | ⟨-, -, hlt⟩
    · exact Nat.lt_of_lt_of_le (hbelow key i hold) (firstFresh_le hg hroot)
    · exact hlt
  · have hmap : map = e.result.map := congrArg (·.getD .empty) hprevious
    rw [hmap] at hkey
    refine Nat.lt_of_lt_of_le (hlineage.isAhead key i hkey) ?_
    rw [← hmap]
    exact Nat.le_max_right ..

/-- Two shapes get the indices 3 and 4, because the counter that is passed in says so. The map has
recorded the index 5, which is not below the counter, but none of the two collides with it. -/
theorem no_collision_behind_recorded : ∃ (f : Finalization) (key : ShapeKey) (i : Identity),
    (f.previous.getD .empty).get? key = some i ∧ f.given.nextShape ≤ i.index ∧ ¬ f.Collides ∧
    ∃ key' i', f.NamesFirst key' i' ∧ i'.index = 4 := by
  obtain ⟨first, second, recorded, hnext⟩ : ∃ first second recorded : ShapeKey,
      ((Step.finalize 0 ⟨3, 0⟩ (some (IdentityMap.empty.insert recorded ⟨"kept", 5⟩))).run
        (Session.empty.after [⟨_, .root {}⟩, ⟨_, .request .shape 0 first none⟩,
          ⟨_, .request .shape 0 second none⟩])).1.toOption.map (·.numbering.nextShape) = some 5 :=
    ⟨⟨["a"], by decide⟩, ⟨["b"], by decide⟩, ⟨["c"], by decide⟩, by decide +kernel⟩
  generalize hs : Session.empty.after [⟨_, .root {}⟩, ⟨_, .request .shape 0 first none⟩,
    ⟨_, .request .shape 0 second none⟩] = s at hnext
  rcases hrun : (Step.finalize 0 ⟨3, 0⟩
    (some (IdentityMap.empty.insert recorded ⟨"kept", 5⟩))).run s with ⟨_ | result, s'⟩
  · rw [hrun] at hnext
    cases hnext
  · rw [hrun] at hnext
    have hreachable : s.Reachable := hs ▸ Session.leadsTo_after ..
    let f : Finalization := ⟨s, 0, ⟨3, 0⟩, _, result, s', hreachable, hrun⟩
    have hgeneration : (s.generation? 0).map (·.ancestors) = some [] := hs ▸ rfl
    obtain ⟨g, hg, hroot⟩ := Option.map_eq_some_iff.1 hgeneration
    obtain ⟨hrange, hcollides, -⟩ := collides_iff (f := f) hg hroot
    have hnext : f.result.numbering.nextShape = 5 := Option.some.inj hnext
    have hstart : f.firstFresh = 3 := rfl
    rw [hstart, hnext] at hrange hcollides
    refine ⟨f, recorded, ⟨"kept", 5⟩, IdentityMap.get?_insert_self ..,
      show (3 : UInt32) ≤ 5 from by decide, ?_, (hrange 4).2 (by decide)⟩
    rw [hcollides]
    rintro ⟨key, i, hkey, -, hlt⟩
    by_cases hsame : key = recorded
    · subst hsame
      obtain rfl := Option.some.inj ((IdentityMap.get?_insert_self ..).symm.trans hkey)
      exact absurd hlt (by decide)
    · cases (IdentityMap.get?_insert_ne _ _ hsame).symm.trans hkey

/-- **Inserting is not enough.** A map records a shape by hand, under the first name that there
is. A root has another shape, which gets the same name and the same index. -/
theorem collides_with_inserted : ∃ (f : Finalization) (g : Generation) (key key' : ShapeKey)
    (i : Identity), f.before.generation? f.home = some g ∧ g.ancestors = [] ∧
    f.previous = some (IdentityMap.empty.insert key' i) ∧ key' ≠ key ∧ f.NamesFirst key i ∧
    f.Collides := by
  obtain ⟨key, key', i, hne, hok, hnamed⟩ : ∃ (key key' : ShapeKey) (i : Identity), key' ≠ key ∧
      let x := (Step.finalize 0 .zero (some (IdentityMap.empty.insert key' i))).run
        (Lineage.oneShape key)
      x.1.toOption.isSome ∧ x.2.lookupIdentity .shape 0 key = some i :=
    ⟨⟨["y"], by decide⟩, ⟨["x"], by decide⟩, ⟨"<module>f__Shape0", 0⟩, by decide,
      by decide +kernel⟩
  have hreachable : (Lineage.oneShape key).Reachable := Session.leadsTo_after ..
  obtain ⟨f, hbefore, hhome, hprevious, hrun⟩ := exists_of_isSome hreachable hok
  obtain ⟨g, hg, hroot⟩ : ∃ g, f.before.generation? f.home = some g ∧ g.ancestors = [] := by
    rw [hbefore, hhome]
    exact Option.map_eq_some_iff.1 rfl
  have hrecorded : (f.previous.getD .empty).get? key' = some i := by
    rw [hprevious]
    exact IdentityMap.get?_insert_self ..
  have hfirst : f.NamesFirst key i := by
    refine ⟨?_, ?_⟩
    · rw [hprevious]
      exact IdentityMap.get?_insert_ne _ _ hne.symm
    · rw [visible, hhome]
      rw [hrun] at hnamed
      exact hnamed
  exact ⟨f, g, key, key', i, hg, hroot, hprevious, hne, hfirst, key, i, key', i, hfirst, hrecorded,
    hne, rfl⟩

end Finalization

end AnonymousTypes
