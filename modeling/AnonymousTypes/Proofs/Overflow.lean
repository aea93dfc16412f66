import AnonymousTypes.Proofs.Conflict
import AnonymousTypes.Proofs.Determinism

/-!
# The last index

An index is used before the counter is moved past it. So the last index can be used, but then
the counter cannot be moved, and finalization ends in a fault with the index already in use.
Up to there the templates have their indices as they always do, one each and without a gap, and
those that are behind have none (`Cache.RunsOut`). If this happens to the shapes, no delegate
has been numbered; if it happens to the delegates, all shapes have their names.

`finalize_overflow_exact` says when it happens: when the counter would not fit behind the
templates that need an index.
-/

namespace AnonymousTypes

variable {family : Family}

namespace Cache

/-- `c` is what becomes of a cache when the templates `fresh` are numbered from an index on, in
the order of their ranks, and the indices do not suffice. -/
structure RunsOut (c : Cache family) (identityOf : family.Key → UInt32 → Identity)
    (fresh : List (Template family)) (rank : Template family → Nat) (start : UInt32) : Prop where
  named : ∀ t ∈ fresh, ∀ index : UInt32, index.toNat = start.toNat + rank t →
    c.find? t.key = some { t with identity := some (identityOf t.key index) }
  late : ∀ t ∈ fresh, UInt32.size ≤ start.toNat + rank t →
    c.find? t.key = some t ∧ t.identity = none
  /-- every index that is left is used, and used once -/
  used : ∀ index : UInt32, start ≤ index → ∃ t ∈ fresh,
    c.find? t.key = some { t with identity := some (identityOf t.key index) } ∧
    ∀ u ∈ fresh, c.find? u.key = some { u with identity := some (identityOf u.key index) } → u = t

/-- **Numbering that runs out** of indices has used all that there were. -/
theorem Numbered.runsOut {c c' : Cache family} {identityOf : family.Key → UInt32 → Identity}
    {cmp : Template family → Template family → Ordering} [Std.TransCmp cmp] {start : UInt32}
    (hcmp : ∀ a b, cmp a b = .eq → a.key = b.key)
    (h : c.Numbered identityOf (c.unnamedKeys fun a b => (cmp a b).isLE) start c')
    (hindex : ∀ key index, (identityOf key index).index = index) (hkeyed : c.Keyed)
    {fresh : List (Template family)}
    (hperm : (c.templates.filter fun t => !t.isNamed).Perm fresh)
    (hover : UInt32.size ≤ start.toNat + fresh.length) :
    c'.RunsOut identityOf fresh (fun t => fresh.countP fun u => cmp u t = .lt) start := by
  have hnamed : ∀ t ∈ fresh, ∀ index : UInt32,
      index.toNat = start.toNat + (fresh.countP fun u => cmp u t = .lt) →
        c'.find? t.key = some { t with identity := some (identityOf t.key index) } := by
    intro t ht
    obtain ⟨hfind, hkey⟩ := hkeyed.getElem?_unnamedKeys hcmp hperm ht
    exact h.named hkey hfind
  have hlate : ∀ t ∈ fresh, UInt32.size ≤ start.toNat + (fresh.countP fun u => cmp u t = .lt) →
      c'.find? t.key = some t ∧ t.identity = none := by
    intro t ht hle
    obtain ⟨hfind, hkey⟩ := hkeyed.getElem?_unnamedKeys hcmp hperm ht
    refine ⟨(h.late hkey hle).trans hfind, ?_⟩
    simpa [Template.isNamed] using (List.mem_filter.1 (hperm.mem_iff.2 ht)).2
  -- the index of a template tells its rank
  have hrank : ∀ t ∈ fresh, ∀ index : UInt32,
      c'.find? t.key = some { t with identity := some (identityOf t.key index) } →
        index.toNat = start.toNat + fresh.countP fun u => cmp u t = .lt := by
    intro t ht index hfind
    by_cases hle : UInt32.size ≤ start.toNat + fresh.countP fun u => cmp u t = .lt
    · obtain ⟨hfind', hunnamed⟩ := hlate t ht hle
      have hidentity := congrArg Template.identity (Option.some.inj (hfind'.symm.trans hfind))
      cases hunnamed.symm.trans hidentity
    · have htoNat := UInt32.toNat_ofNat_of_lt' (Nat.lt_of_not_le hle)
      have hfind' := hnamed t ht _ htoNat
      have hidentity := congrArg Template.identity (Option.some.inj (hfind'.symm.trans hfind))
      have hsame := congrArg Identity.index (Option.some.inj hidentity)
      rw [hindex, hindex] at hsame
      rw [← hsame]
      exact htoNat
  refine ⟨hnamed, hlate, fun index hle => ?_⟩
  have hlt : index.toNat < UInt32.size := index.toNat_lt
  rw [UInt32.le_iff_toNat_le] at hle
  obtain ⟨t, ht, hr⟩ := exists_countP_lt_eq (r := index.toNat - start.toNat)
    ((hkeyed.pairwise_filter hcmp _).perm hperm fun hab hba => hab (Std.OrientedCmp.eq_symm hba))
    (by omega)
  refine ⟨t, ht, hnamed t ht index (by omega), fun u hu hfind => ?_⟩
  have hu' := hrank u hu index hfind
  have hkey := hcmp u t (eq_of_countP_lt_eq hu ht (by omega))
  have hfound := (hkeyed.getElem?_unnamedKeys hcmp hperm hu).1
  rw [hkey, (hkeyed.getElem?_unnamedKeys hcmp hperm ht).1] at hfound
  exact (Option.some.inj hfound).symm

end Cache

namespace Generation

variable {g : Generation} {h : Handle} {known : ShapeKey → Option Identity} {start : Numbering}
  {entries : List (ShapeKey × Identity)} (hready : g.Ready h)
  (hclear : ∀ key t, g.shapes.find? key = some t → known key = none)
  (hnodup : (entries.map Prod.fst).Nodup)
  (hagrees : ∀ {key identity existing}, (key, identity) ∈ entries →
    known key = some existing → existing = identity)

include hready hclear hnodup hagrees

/-- **There are not enough indices for the shapes.** No delegate is numbered. -/
theorem finish_of_shapes_overflow
    (hover : UInt32.size ≤ start.nextShape.toNat + (g.unrecorded entries).length) :
    ∃ g', g.finish known start entries = (.error (.fault .counterExhausted), g') ∧
      g'.delegates = g.delegates ∧
      g'.shapes.RunsOut g.shapeIdentity (g.unrecorded entries)
        (fun t => (g.unrecorded entries).countP fun u => u.Precedes t) start.nextShape := by
  obtain ⟨carried, shapes, hcarry, hlength⟩ :=
    exists_carry_length hready hclear hnodup hagrees Template.shapeLe
  have hkeyed := hready.keyed_of_carry hcarry
  have hperm := unnamed_perm_unrecorded hready hclear hkeyed
    (Cache.carries_of_ok hready.isSealed hnodup hcarry)
  have hnumbered := shapes.numbered_nameAll g.shapeIdentity
    (hkeyed.nodup_unnamedKeys Template.shapeLe) start.nextShape
  obtain ⟨shapes', hshapes⟩ := shapes.nameAll_exhausted g.shapeIdentity (hlength ▸ hover)
  rw [hshapes] at hnumbered
  refine ⟨_, finish_of_shapes_error hcarry hshapes, rfl, ?_⟩
  simp only [← Template.countP_shapeCompare]
  exact Cache.Numbered.runsOut (fun _ _ => Template.key_eq_of_shapeCompare) hnumbered
    (fun _ _ => rfl) hkeyed hperm hover

/-- **There are not enough indices for the delegates.** All shapes have been numbered. -/
theorem finish_of_delegates_overflow
    (hfits : start.nextShape.toNat + (g.unrecorded entries).length < UInt32.size)
    (hover : UInt32.size ≤ start.nextDelegate.toNat + g.delegates.templates.length) :
    ∃ g', g.finish known start entries = (.error (.fault .counterExhausted), g') ∧
      (∀ t ∈ g.unrecorded entries, ∃ index : UInt32,
        index.toNat = start.nextShape.toNat +
          ((g.unrecorded entries).countP fun u => u.Precedes t) ∧
        g'.shapes.find? t.key =
          some { t with identity := some (g.shapeIdentity t.key index) }) ∧
      g'.delegates.RunsOut delegateIdentity g.delegates.templates
        (fun t => g.delegates.templates.countP fun u =>
          Text.Utf8.encode (DelegateKey.typeName u.key) <
            Text.Utf8.encode (DelegateKey.typeName t.key)) start.nextDelegate := by
  obtain ⟨carried, shapes, hcarry, hlength⟩ :=
    exists_carry_length hready hclear hnodup hagrees Template.shapeLe
  have hkeyed := hready.keyed_of_carry hcarry
  have hperm := unnamed_perm_unrecorded hready hclear hkeyed
    (Cache.carries_of_ok hready.isSealed hnodup hcarry)
  obtain ⟨nextShape, shapes', hshapes⟩ := shapes.exists_nameAll g.shapeIdentity
    (hlength ▸ hfits)
  have hkeyed' : g.delegates.Keyed := hready.keyed .delegate
  have hperm' := List.Perm.of_eq hready.filter_delegates
  have hnumbered := g.delegates.numbered_nameAll delegateIdentity
    (hkeyed'.nodup_unnamedKeys Template.delegateLe) start.nextDelegate
  obtain ⟨delegates, hdelegates⟩ := g.delegates.nameAll_exhausted delegateIdentity
    (length_unnamed_delegates hready Template.delegateLe ▸ hover)
  rw [hdelegates] at hnumbered
  refine ⟨_, finish_of_delegates_error hcarry hshapes hdelegates, ?_, ?_⟩
  · simp only [← Template.countP_shapeCompare]
    exact (Cache.rank_of_ok
      (fun _ _ => Template.key_eq_of_shapeCompare) hkeyed hshapes hperm).2
  · simp only [← Template.countP_delegateCompare]
    exact Cache.Numbered.runsOut (fun _ _ => Template.key_eq_of_delegateCompare) hnumbered
      (fun _ _ => rfl) hkeyed' hperm' hover

end Generation

namespace Session

variable {s : Session} {h : Handle} {g : Generation} {given : Numbering}
  {previous : Option IdentityMap}

/-- **Indices that do not suffice** are used up, and the generation is lost. -/
theorem Coherent.finalize_overflow (hs : s.Coherent) (hg : s.generation? h = some g)
    (hopen : g.isFinalizing = false) (hagrees : s.Agrees g previous)
    (hnot : ¬ s.Suffices g given previous) :
    let start := s.startNumbering g given previous
    let shapes := g.unrecorded ((previous.map (·.entries)).getD [])
    let delegates := g.delegates.templates
    let shapeRank := fun t => shapes.countP fun u => u.Precedes t
    let delegateRank := fun t => delegates.countP fun u =>
      Text.Utf8.encode (DelegateKey.typeName u.key) < Text.Utf8.encode (DelegateKey.typeName t.key)
    ∃ g', (Step.finalize h given previous).run s =
        (.error (.fault .counterExhausted), s.put h g') ∧ (s.put h g').Lost h g g' ∧
      (UInt32.size ≤ start.nextShape.toNat + shapes.length → g'.delegates = g.delegates ∧
        g'.shapes.RunsOut g.shapeIdentity shapes shapeRank start.nextShape) ∧
      (start.nextShape.toNat + shapes.length < UInt32.size →
        (∀ t ∈ shapes, ∃ index : UInt32, index.toNat = start.nextShape.toNat + shapeRank t ∧
          g'.shapes.find? t.key =
            some { t with identity := some (g.shapeIdentity t.key index) }) ∧
        g'.delegates.RunsOut Generation.delegateIdentity delegates delegateRank
          start.nextDelegate) := by
  intro start shapes delegates shapeRank delegateRank
  have hready := hs.ready hg hopen
  have hclear := hs.clear hg .shape
  have hnodup := IdentityMap.nodup_recorded previous
  by_cases hfits : start.nextShape.toNat + shapes.length < UInt32.size
  · have hover := Nat.le_of_not_lt fun hlt => hnot ⟨hfits, hlt⟩
    obtain ⟨g', hfinish, hnamed, hout⟩ :=
      Generation.finish_of_delegates_overflow hready hclear hnodup hagrees hfits hover
    obtain ⟨hrun, hlost⟩ := hs.finalize_lost hg hopen hfinish
    exact ⟨g', hrun, hlost, fun hle => absurd hfits (Nat.not_lt.2 hle), fun _ => ⟨hnamed, hout⟩⟩
  · obtain ⟨g', hfinish, hdelegates, hout⟩ :=
      Generation.finish_of_shapes_overflow hready hclear hnodup hagrees (Nat.le_of_not_lt hfits)
    obtain ⟨hrun, hlost⟩ := hs.finalize_lost hg hopen hfinish
    exact ⟨g', hrun, hlost, fun _ => ⟨hdelegates, hout⟩, fun hlt => absurd hlt hfits⟩

/-- **When indices run out.** Let a generation be there after some steps `xs`, none of which was
to finalize it, and let it inherit no shape under another identity than the map of the previous
output has recorded. Let `n` be the largest of the counters that are passed in, that the
generation before it left behind, and that the map has.

Finalization succeeds exactly if both counters fit behind the templates that need an index, and
leaves them there. Otherwise it ends in the fault of a counter that overflows, and the
generation is lost: it is neither finalized nor sealed, nothing has been handed over, it can
never be continued, and further attempts are refused. In the counter that overflows, every
index from its start to the last one is used for one template, in the order of numbering, and
the templates behind have none. -/
theorem finalize_overflow_exact {xs : List (Σ α, Step α)} {h : Handle} {g : Generation}
    (hg : (Session.empty.after xs).generation? h = some g)
    (hnot : ¬ Session.empty.Attempted h xs) (given : Numbering) (previous : Option IdentityMap)
    (hnone : ∀ key existing attempted,
      ¬ (Session.empty.after xs).Conflict g previous key existing attempted) :
    let s := Session.empty.after xs
    let x := (Step.finalize h given previous).run s
    let n := (given.join ((s.predecessorNumbering g).getD .zero)).join
      ((previous.map (·.numbering)).getD .zero)
    let recorded := ((previous.map (·.entries)).getD []).map Prod.fst
    let shapes := g.shapes.templates.filter fun t => t.key ∉ recorded
    let delegates := g.delegates.templates
    let shapeRank := fun t => shapes.countP fun u => u.Precedes t
    let delegateRank := fun t => delegates.countP fun u =>
      Text.Utf8.encode (DelegateKey.typeName u.key) < Text.Utf8.encode (DelegateKey.typeName t.key)
    ((∃ result, x.1 = .ok result) ↔ n.nextShape.toNat + shapes.length < UInt32.size ∧
      n.nextDelegate.toNat + delegates.length < UInt32.size) ∧
    (∀ result, x.1 = .ok result →
      result.numbering.nextShape.toNat = n.nextShape.toNat + shapes.length ∧
      result.numbering.nextDelegate.toNat = n.nextDelegate.toNat + delegates.length) ∧
    ∀ e, x.1 = .error e → e = .fault .counterExhausted ∧
      ∃ g', x.2 = s.put h g' ∧ x.2.Lost h g g' ∧
      (UInt32.size ≤ n.nextShape.toNat + shapes.length → g'.delegates = g.delegates ∧
        g'.shapes.RunsOut g.shapeIdentity shapes shapeRank n.nextShape) ∧
      (n.nextShape.toNat + shapes.length < UInt32.size →
        (∀ t ∈ shapes, ∃ index : UInt32, index.toNat = n.nextShape.toNat + shapeRank t ∧
          g'.shapes.find? t.key =
            some { t with identity := some (g.shapeIdentity t.key index) }) ∧
        g'.delegates.RunsOut Generation.delegateIdentity delegates delegateRank
          n.nextDelegate) := by
  intro s x n recorded shapes delegates shapeRank delegateRank
  have hs : s.Coherent := (leadsTo_after .empty xs).coherent coherent_empty
  have hopen : g.isFinalizing = false := (isFinalizing_eq_false_iff hg).2 hnot
  have hagrees : s.Agrees g previous := agrees_iff.2 hnone
  have hstart : s.startNumbering g given previous = n := startNumbering_eq ..
  by_cases hsuffices : s.Suffices g given previous
  · -- enough indices: what is left behind is read off from the run that succeeds
    obtain ⟨result, s', hrun⟩ := hs.exists_finalized hg hopen hagrees hsuffices
    obtain ⟨carried, g', -, -, hfinished, -⟩ := hs.finished hg hrun
    have hx : x.1 = .ok result := congrArg Prod.fst hrun
    rw [Suffices, hstart] at hsuffices
    rw [hstart] at hfinished
    refine ⟨⟨fun _ => hsuffices, fun _ => ⟨result, hx⟩⟩, ?_, ?_⟩
    · intro result' hx'
      obtain rfl := Except.ok.inj (hx.symm.trans hx')
      exact ⟨hfinished.nextShape_eq, hfinished.nextDelegate_eq⟩
    · intro e he
      cases hx.symm.trans he
  · -- too few: the run ends in the overflow, and nothing else can be the outcome
    obtain ⟨g', hrun, hlost, hshapes, hdelegates⟩ :=
      hs.finalize_overflow hg hopen hagrees hsuffices
    have hx : x = (.error (.fault .counterExhausted), s.put h g') := hrun
    rw [Suffices, hstart] at hsuffices
    rw [hstart] at hshapes hdelegates
    rw [hx]
    refine ⟨⟨?_, fun hfits => absurd hfits hsuffices⟩, ?_, ?_⟩
    · rintro ⟨result, hok⟩
      cases hok
    · intro result hok
      cases hok
    · intro e he
      cases he
      exact ⟨rfl, g', rfl, hlost, hshapes, hdelegates⟩

/-- A root that is asked for two shapes can be finalized with two indices and the counter behind
them. If only the last index is left, one of the shapes gets it, and the root is lost. -/
theorem finalize_overflow_at_last_index : ∃ (early late : ShapeKey) (g : Generation),
    let xs : List (Σ α, Step α) := ⟨_, .root {}⟩ :: twoShapes early late
    let s := Session.empty.after xs
    let last : UInt32 := 0xFFFFFFFF
    s.generation? 0 = some g ∧ ¬ Session.empty.Attempted 0 xs ∧
    (∀ key existing attempted, ¬ s.Conflict g none key existing attempted) ∧
    (∃ result, ((Step.finalize 0 ⟨last - 2, 0⟩ none).run s).1 = .ok result ∧
      result.numbering.nextShape = last) ∧
    let x := (Step.finalize 0 ⟨last, 0⟩ none).run s
    x.1 = .error (.fault .counterExhausted) ∧
    (∃ (g' : Generation) (t : Template .shape), x.2.generation? 0 = some g' ∧
      g'.shapes.find? t.key = some { t with identity := some (g.shapeIdentity t.key last) }) ∧
    ∀ config, ((Step.derive 0 config).run x.2).1 =
      .error (.rejected (.unfinalizedPredecessor g.id)) := by
  obtain ⟨early, late, hfacts, hnot⟩ : ∃ early late : ShapeKey,
      let xs : List (Σ α, Step α) := ⟨_, .root {}⟩ :: twoShapes early late
      ((Session.empty.after xs).generation? 0).map
        (fun g => (g.ancestors, g.shapes.templates.length, g.delegates.templates.length)) =
          some ([], 2, 0) ∧
      ¬ Session.empty.Attempted 0 xs :=
    ⟨⟨["a"], by decide⟩, ⟨["b"], by decide⟩, by decide +kernel⟩
  obtain ⟨g, hg, hfacts⟩ := Option.map_eq_some_iff.1 hfacts
  simp only [Prod.mk.injEq] at hfacts
  obtain ⟨hancestors, hshapes, hdelegates⟩ := hfacts
  have hnone : ∀ key existing attempted,
      ¬ (Session.empty.after (⟨_, .root {}⟩ :: twoShapes early late)).Conflict g none key existing
        attempted := fun _ _ _ hconflict => nomatch hconflict.recorded
  have hpredecessor : (Session.empty.after (⟨_, .root {}⟩ :: twoShapes early
      late)).predecessorNumbering g = none := by
    rw [predecessorNumbering, hancestors]
    rfl
  have hfresh : g.shapes.templates.filter (fun t => t.key ∉ (([] : List (ShapeKey × Identity)).map
      Prod.fst)) = g.shapes.templates := List.filter_eq_self.2 fun t _ => by simp
  refine ⟨early, late, g, hg, hnot, hnone, ?_, ?_⟩
  · obtain ⟨hok, hnumbering, -⟩ := finalize_overflow_exact hg hnot ⟨0xFFFFFFFF - 2, 0⟩ none hnone
    simp only [hpredecessor, Option.map_none, Option.getD_none, Numbering.join_zero, hfresh,
      hshapes, hdelegates] at hok hnumbering
    obtain ⟨result, hresult⟩ := hok.2 (by decide)
    exact ⟨result, hresult, UInt32.toNat_inj.1 (hnumbering result hresult).1⟩
  · obtain ⟨hok, -, hfails⟩ := finalize_overflow_exact hg hnot ⟨0xFFFFFFFF, 0⟩ none hnone
    simp only [hpredecessor, Option.map_none, Option.getD_none, Numbering.join_zero, hfresh,
      hshapes, hdelegates] at hok hfails
    rcases hanswer : ((Step.finalize 0 ⟨0xFFFFFFFF, 0⟩ none).run
      (Session.empty.after (⟨_, .root {}⟩ :: twoShapes early late))).1 with e | result
    · obtain ⟨rfl, g', -, hlost, hout, -⟩ := hfails e hanswer
      obtain ⟨t, -, hnamed, -⟩ := (hout (by decide)).2.used 0xFFFFFFFF (UInt32.le_refl _)
      refine ⟨hanswer, ⟨g', t, hlost.generation_eq, hnamed⟩, fun config => ?_⟩
      rw [hlost.derive .refl]
    · exact absurd (hok.1 ⟨result, hanswer⟩) (by decide)

end Session

end AnonymousTypes
