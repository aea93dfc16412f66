import AnonymousTypes.Proofs.Attempts
import AnonymousTypes.Proofs.Exhaustion
import AnonymousTypes.Proofs.Lineage

/-!
# Identities that conflict

Carrying identities forward goes through the map of the previous output in the order of the
canonical texts, and works on the templates while it checks. It stops at the first shape that
the generation inherits under another identity than the recorded one (`FirstConflict`). What it
did for the shapes before stays done (`exists_of_carry_error`), so
`Coherent.leaves_of_conflict` says exactly which shapes have been adopted by then.

No other attempt is rejected (`finalize_rejections_exact`): an attempt without a conflict
succeeds or runs out of indices.
-/

namespace AnonymousTypes

namespace Cache

/-! ## Counters -/

/-- `c'` is what becomes of `c` when some requests are answered one after another. -/
structure Counts {family : Family} (c : Cache family) (answered : Nat) (c' : Cache family) :
    Prop where
  tally_eq : c'.tally = c.tally + answered
  discarded_eq : c'.discarded = c.discarded
  created_eq : c'.created + c.size = c.created + c'.size

variable {c c' c'' : Cache .shape} {known : ShapeKey → Option Identity}
  {entries : List (ShapeKey × Identity)} {carried : List ShapeKey}

theorem Counts.trans {n m : Nat} (h : c.Counts n c') (h' : c'.Counts m c'') :
    c.Counts (n + m) c'' where
  tally_eq := by rw [h'.tally_eq, h.tally_eq, Nat.add_assoc]
  discarded_eq := h'.discarded_eq.trans h.discarded_eq
  created_eq := by
    have hfirst := h.created_eq
    have hsecond := h'.created_eq
    omega

/-- Adopting a shape is one request. -/
theorem counts_adopt (hopen : c.isSealed = false) (key : ShapeKey) (identity : Identity) :
    c.Counts 1 (c.adopt key identity) := by
  have hsize : (c.adopt key identity).size = (c.request none key none).2.size :=
    Table.size_modify ..
  have hrequest := c.request_none hopen key
  refine ⟨?_, ?_, ?_⟩
  · change (c.request none key none).2.tally = _
    rw [hrequest]
    split
    · simp only [countHit, tally]
      omega
    · exact tally_create c key
  · change (c.request none key none).2.discarded = _
    rw [hrequest]
    rcases hkey : c.find? key with _ | t
    · simp [create, hkey]
    · rfl
  · rw [hsize]
    change (c.request none key none).2.created + _ = _
    rw [hrequest]
    split
    · rfl
    · exact created_create c key

/-- Carrying makes one request for each of the keys that it answers. -/
theorem counts_carry (hopen : c.isSealed = false)
    (h : c.carry known entries = (.ok carried, c')) : c.Counts carried.length c' := by
  induction entries generalizing c carried with
  | nil =>
    cases h
    exact ⟨rfl, rfl, rfl⟩
  | cons e rest ih =>
    obtain ⟨key, identity⟩ := e
    obtain ⟨-, heq⟩ | ⟨-, heq⟩ | ⟨_, -, -, heq⟩ :=
      carry_cases c known key identity rest <;> rw [heq] at h
    · obtain ⟨hanswer, rfl⟩ := Prod.mk.inj h
      obtain ⟨carried', hrest, rfl⟩ := map_eq_ok_iff.1 hanswer
      rw [List.length_cons, Nat.add_comm]
      exact (counts_adopt hopen key identity).trans
        (ih (isSealed_adopt hopen ..) (Prod.ext hrest rfl))
    · exact ih hopen h
    · cases h

/-! ## Where carrying stops -/

/-- **Carrying that fails** has come to an entry that conflicts with what is known, and has
carried the entries before it. -/
theorem exists_of_carry_error {e : Failure} (h : c.carry known entries = (.error e, c')) :
    ∃ pre key attempted post existing carried, entries = pre ++ (key, attempted) :: post ∧
      c.carry known pre = (.ok carried, c') ∧ known key = some existing ∧
      existing ≠ attempted ∧
      e = .rejected (.identityConflict .shape key.canonical existing attempted) := by
  induction entries generalizing c with
  | nil => cases h
  | cons entry rest ih =>
    obtain ⟨key, identity⟩ := entry
    obtain ⟨hknown, heq⟩ | ⟨hknown, heq⟩ | ⟨existing, hknown, hne, heq⟩ :=
      carry_cases c known key identity rest <;> rw [heq] at h
    · obtain ⟨hanswer, rfl⟩ := Prod.mk.inj h
      rcases hrest : ((c.adopt key identity).carry known rest).1 with e' | carried
      · rw [hrest] at hanswer
        cases hanswer
        obtain ⟨pre, key', attempted, post, existing, carried, rfl, hpre, hconflict⟩ :=
          ih (Prod.ext hrest rfl)
        refine ⟨(key, identity) :: pre, key', attempted, post, existing, key :: carried, rfl, ?_,
          hconflict⟩
        rw [carry_adopt hknown, hpre]
        rfl
      · rw [hrest] at hanswer
        cases hanswer
    · obtain ⟨pre, key', attempted, post, existing', carried, rfl, hpre, hconflict⟩ := ih h
      refine ⟨(key, identity) :: pre, key', attempted, post, existing', carried, rfl, ?_,
        hconflict⟩
      rw [carry_skip hknown, hpre]
    · cases h
      exact ⟨[], key, identity, rest, existing, [], rfl, rfl, hknown, hne, rfl⟩

end Cache

namespace Session

open Text.Utf8 (encode encode_lt_iff)

/-! ## Conflicts -/

variable {s : Session} {h : Handle} {g g' : Generation} {given : Numbering}
  {previous : Option IdentityMap}

/-- The map of the previous output has recorded an identity for a shape that the generation
inherits under another one. -/
structure Conflict (s : Session) (g : Generation) (previous : Option IdentityMap)
    (key : ShapeKey) (existing attempted : Identity) : Prop where
  recorded : (previous.getD .empty).get? key = some attempted
  inherited : s.inheritedIdentity .shape g.ancestors key = some existing
  differs : existing ≠ attempted

/-- A conflict that comes before all others, in the order of the bytes of canonical texts. -/
structure FirstConflict (s : Session) (g : Generation) (previous : Option IdentityMap)
    (key : ShapeKey) (existing attempted : Identity) : Prop
    extends s.Conflict g previous key existing attempted where
  first : ∀ {other existing' attempted'}, s.Conflict g previous other existing' attempted' →
    other ≠ key → encode key.canonical < encode other.canonical

/-- An identity that is carried forward before a given key is reached: the map has recorded it,
and no generation that this one continues has named the shape. -/
structure CarriedBefore (s : Session) (g : Generation) (previous : Option IdentityMap)
    (key other : ShapeKey) (identity : Identity) : Prop where
  recorded : (previous.getD .empty).get? other = some identity
  before : encode other.canonical < encode key.canonical
  unnamed : ∀ a ∈ g.ancestors, s.identity? (⟨a, other⟩ : TemplateRef .shape) = none

/-- `g'` is what is left of a generation `g` after a conflict about a key. -/
structure LeftBy (s : Session) (g : Generation) (previous : Option IdentityMap)
    (key : ShapeKey) (g' : Generation) : Prop where
  carried : ∀ {other identity}, s.CarriedBefore g previous key other identity →
    g'.shapes.find? other =
      some { (g.shapes.find? other).getD (.ofKey other g.id) with identity := some identity }
  kept : ∀ {other}, (∀ identity, ¬ s.CarriedBefore g previous key other identity) →
    g'.shapes.find? other = g.shapes.find? other ∧
      ∀ t, g'.shapes.find? other = some t → t.identity = none
  delegates_eq : g'.delegates = g.delegates
  unnumbered : ∀ t ∈ g'.delegates.templates, t.identity = none
  /-- each identity that was carried forward counts as a request -/
  counts : ∃ keys : List ShapeKey, keys.Nodup ∧
    (∀ other, other ∈ keys ↔ ∃ identity, s.CarriedBefore g previous key other identity) ∧
    g.shapes.Counts keys.length g'.shapes

/-- Nothing is inherited for a key exactly if no earlier generation has named it. -/
theorem Coherent.inheritedIdentity_eq_none_iff (hs : s.Coherent) (hg : s.generation? h = some g)
    {family : Family} {key : family.Key} :
    s.inheritedIdentity family g.ancestors key = none ↔
      ∀ a ∈ g.ancestors, s.identity? (⟨a, key⟩ : TemplateRef family) = none := by
  rw [Session.inheritedIdentity_eq_none_iff]
  constructor
  · intro hnone a ha
    obtain ⟨pre, post, hsplit⟩ := List.append_of_mem ha
    rcases hidentity : s.identity? (⟨a, key⟩ : TemplateRef family) with _ | identity
    · rfl
    · rw [hs.inherited_of_named hg hsplit hidentity] at hnone
      cases hnone
  · intro hall
    rcases hinherited : s.inherited family key g.ancestors with _ | r
    · rfl
    · obtain ⟨hmem, rfl, -⟩ := exists_of_inherited hinherited
      have hsome := isSome_identity?_of_inherited hinherited
      rw [hall r.home hmem] at hsome
      cases hsome

/-- What the map has recorded agrees with what is inherited if there is no conflict. -/
theorem agrees_iff : s.Agrees g previous ↔
    ∀ key existing attempted, ¬ s.Conflict g previous key existing attempted := by
  constructor
  · rintro hagrees key existing attempted ⟨hrecorded, hinherited, hdiffers⟩
    exact hdiffers (hagrees (Finalization.mem_entries_iff.2 hrecorded) hinherited)
  · intro hnone key identity existing hentry hknown
    refine Classical.byContradiction fun hne => hnone key existing identity ?_
    exact ⟨Finalization.mem_entries_iff.1 hentry, hknown, hne⟩

theorem not_agrees_iff : ¬ s.Agrees g previous ↔
    ∃ key existing attempted, s.Conflict g previous key existing attempted := by
  rw [agrees_iff]
  simp only [Classical.not_forall, Classical.not_not]

section

variable {pre post : List (ShapeKey × Identity)} {key : ShapeKey} {existing attempted : Identity}
  {carried : List ShapeKey} {shapes : Cache .shape}
  (hsplit : (previous.map (·.entries)).getD [] = pre ++ (key, attempted) :: post)

include hsplit

theorem get?_of_split {other : ShapeKey} {identity : Identity} :
    (previous.getD .empty).get? other = some identity ↔
      (other, identity) ∈ pre ∨ (other, identity) = (key, attempted) ∨
        (other, identity) ∈ post := by
  rw [← Finalization.mem_entries_iff, hsplit, List.mem_append, List.mem_cons]

/-- The entries of the map are sorted by the bytes of canonical texts. -/
theorem encode_lt_of_split {other : ShapeKey} {identity : Identity} :
    ((other, identity) ∈ pre → encode other.canonical < encode key.canonical) ∧
      ((other, identity) ∈ post → encode key.canonical < encode other.canonical) := by
  have hsorted : (pre ++ (key, attempted) :: post).Pairwise fun a b => a.1 < b.1 := by
    rw [← hsplit]
    cases previous with
    | none => exact .nil
    | some map => exact map.sorted
  rw [List.pairwise_append, List.pairwise_cons] at hsorted
  obtain ⟨-, ⟨hpost, -⟩, hpre⟩ := hsorted
  constructor
  · intro hmem
    have hlt : other < key := hpre (other, identity) hmem (key, attempted) (List.mem_cons_self ..)
    exact encode_lt_iff.2 hlt
  · intro hmem
    have hlt : key < other := hpost (other, identity) hmem
    exact encode_lt_iff.2 hlt

theorem nodup_of_split : (pre.map Prod.fst).Nodup := by
  have hnodup := IdentityMap.nodup_recorded previous
  rw [hsplit, List.map_append] at hnodup
  exact (List.nodup_append.1 hnodup).1

/-- What is carried before a key is reached are the entries before it that are not inherited. -/
theorem Coherent.carriedBefore_iff (hs : s.Coherent) (hg : s.generation? h = some g)
    {other : ShapeKey} {identity : Identity} :
    s.CarriedBefore g previous key other identity ↔
      (other, identity) ∈ pre ∧ s.inheritedIdentity .shape g.ancestors other = none := by
  rw [hs.inheritedIdentity_eq_none_iff hg]
  constructor
  · rintro ⟨hrecorded, hlt, hunnamed⟩
    refine ⟨?_, hunnamed⟩
    rcases (get?_of_split hsplit).1 hrecorded with hmem | heq | hmem
    · exact hmem
    · rw [(Prod.mk.inj heq).1] at hlt
      exact absurd hlt (List.lt_irrefl _)
    · exact absurd ((encode_lt_of_split hsplit).2 hmem) (List.lt_asymm hlt)
  · rintro ⟨hmem, hunnamed⟩
    exact ⟨(get?_of_split hsplit).2 (.inl hmem), (encode_lt_of_split hsplit).1 hmem, hunnamed⟩

/-- The entries before the one at which carrying stops do not conflict. -/
theorem firstConflict_of_carries
    (hcarries : g.shapes.Carries (s.inheritedIdentity .shape g.ancestors) pre carried shapes)
    (hknown : s.inheritedIdentity .shape g.ancestors key = some existing)
    (hne : existing ≠ attempted) : s.FirstConflict g previous key existing attempted := by
  refine ⟨⟨(get?_of_split hsplit).2 (.inr (.inl rfl)), hknown, hne⟩, ?_⟩
  intro other existing' attempted' hother hdifferent
  rcases (get?_of_split hsplit).1 hother.recorded with hmem | heq | hmem
  · exact absurd (hcarries.agrees hmem hother.inherited) hother.differs
  · exact absurd (Prod.mk.inj heq).1 hdifferent
  · exact (encode_lt_of_split hsplit).2 hmem

/-- What has been carried by then stays. -/
theorem Coherent.leftBy_of_carry (hs : s.Coherent) (hg : s.generation? h = some g)
    (hready : g.Ready h)
    (hpre : g.shapes.carry (s.inheritedIdentity .shape g.ancestors) pre = (.ok carried, shapes)) :
    s.LeftBy g previous key { g.begun with shapes } := by
  have hcarries := Cache.carries_of_ok hready.isSealed (nodup_of_split hsplit) hpre
  have howner : g.shapes.owner = g.id := (hs hg).owner .shape
  refine ⟨?_, ?_, rfl, ?_, carried, ?_, ?_, Cache.counts_carry hready.isSealed hpre⟩
  · intro other identity hother
    obtain ⟨hmem, hnone⟩ := (hs.carriedBefore_iff hsplit hg).1 hother
    rw [← howner]
    exact hcarries.adopted hmem hnone
  · intro other hother
    have hkept : shapes.find? other = g.shapes.find? other :=
      hcarries.kept fun identity hmem hnone =>
        hother identity ((hs.carriedBefore_iff hsplit hg).2 ⟨hmem, hnone⟩)
    exact ⟨hkept, fun t ht => hready.unnamed .shape other t (hkept.symm.trans ht)⟩
  · have hkeyed : g.delegates.Keyed := hready.keyed .delegate
    exact fun t ht => hready.unnamed .delegate t.key t (hkeyed.find?_of_mem ht)
  · rw [hcarries.carried_eq]
    exact (nodup_of_split hsplit).sublist (List.filter_sublist.map _)
  · intro other
    simp only [hs.carriedBefore_iff hsplit hg, hcarries.carried_eq, List.mem_map,
      List.mem_filter, Option.isNone_iff_eq_none, Prod.exists, exists_and_right, exists_eq_right]

end

/-- **A conflict** stops finalization at the first one that there is. -/
theorem Coherent.finish_of_conflict (hs : s.Coherent) (hg : s.generation? h = some g)
    (hopen : g.isFinalizing = false) (hnot : ¬ s.Agrees g previous) (given : Numbering) :
    ∃ key existing attempted g', s.FirstConflict g previous key existing attempted ∧
      s.LeftBy g previous key g' ∧ s.finish g given previous =
        (.error (.rejected (.identityConflict .shape key.canonical existing attempted)), g') := by
  have hready := hs.ready hg hopen
  rcases hcarry : g.shapes.carry (s.inheritedIdentity .shape g.ancestors)
    ((previous.map (·.entries)).getD []) with ⟨e | carried, shapes⟩
  · obtain ⟨pre, key, attempted, post, existing, carried, hsplit, hpre, hknown, hne, rfl⟩ :=
      Cache.exists_of_carry_error hcarry
    have hcarries := Cache.carries_of_ok hready.isSealed (nodup_of_split hsplit) hpre
    exact ⟨key, existing, attempted, _, firstConflict_of_carries hsplit hcarries hknown hne,
      hs.leftBy_of_carry hsplit hg hready hpre, Generation.finish_of_carry_error hcarry⟩
  · have hcarries :=
      Cache.carries_of_ok hready.isSealed (IdentityMap.nodup_recorded previous) hcarry
    exact (hnot fun hentry hknown => hcarries.agrees hentry hknown).elim

/-- Without a conflict, finalization succeeds or runs out of indices. -/
theorem Coherent.not_rejected_of_agrees (hs : s.Coherent) (hg : s.generation? h = some g)
    (hopen : g.isFinalizing = false) (hagrees : s.Agrees g previous) (given : Numbering)
    (cause : Rejection) :
    ((Step.finalize h given previous).run s).1 ≠ .error (.rejected cause) := by
  intro hrejected
  by_cases hsuffices : s.Suffices g given previous
  · obtain ⟨result, s', hok⟩ := hs.exists_finalized hg hopen hagrees hsuffices
    rw [hok] at hrejected
    cases hrejected
  · rw [hs.finalize_exhausted hg hopen hagrees hsuffices] at hrejected
    cases hrejected

/-- **Which attempts are rejected, and what they leave.** Let a generation be there after some
steps `xs`.

1. If one of the steps was to finalize it, whatever came of that, finalization is refused and
   changes nothing.
2. Otherwise it is rejected exactly if there is a conflict, and the rejection names the first
   one, in the order of the bytes of the canonical texts. The generation is lost: it is neither
   finalized nor sealed, nothing has been handed over, and it can never be continued. For every
   identity that the map recorded for a shape with a smaller text, which no generation that
   this one continues has named, it has a template that carries this identity. Its other
   templates are the same as before, and they are unnamed. -/
theorem finalize_rejections_exact {xs : List (Σ α, Step α)} {h : Handle} {g : Generation}
    (hg : (Session.empty.after xs).generation? h = some g) (given : Numbering)
    (previous : Option IdentityMap) :
    let s := Session.empty.after xs
    let x := (Step.finalize h given previous).run s
    (Session.empty.Attempted h xs → x = (.error (.rejected (.alreadyFinalized g.id)), s)) ∧
    (¬ Session.empty.Attempted h xs →
      ((∃ cause, x.1 = .error (.rejected cause)) ↔
        ∃ key existing attempted, s.Conflict g previous key existing attempted) ∧
      ∀ cause, x.1 = .error (.rejected cause) →
        ∃ key existing attempted g', s.FirstConflict g previous key existing attempted ∧
          cause = .identityConflict .shape key.canonical existing attempted ∧
          x.2 = s.put h g' ∧ x.2.Lost h g g' ∧ s.LeftBy g previous key g') := by
  intro s x
  have hs : s.Coherent := (leadsTo_after .empty xs).coherent coherent_empty
  refine ⟨fun hattempted => finalize_attempted hg hattempted given previous, fun hnot => ?_⟩
  have hopen : g.isFinalizing = false := (isFinalizing_eq_false_iff hg).2 hnot
  -- not begun before: then only a conflict can be the cause
  by_cases hagrees : s.Agrees g previous
  · have hrejected := hs.not_rejected_of_agrees hg hopen hagrees given
    refine ⟨⟨?_, fun hconflict => (not_agrees_iff.2 hconflict hagrees).elim⟩, ?_⟩
    · rintro ⟨cause, hcause⟩
      exact absurd hcause (hrejected cause)
    · exact fun cause hcause => absurd hcause (hrejected cause)
  · obtain ⟨key, existing, attempted, g', hfirst, hleft, hfinish⟩ :=
      hs.finish_of_conflict hg hopen hagrees given
    obtain ⟨hrun, hlost⟩ := hs.finalize_lost hg hopen hfinish
    have hx : x = (.error (.rejected (.identityConflict .shape key.canonical existing attempted)),
      s.put h g') := hrun
    rw [hx]
    refine ⟨⟨fun _ => not_agrees_iff.1 hagrees, fun _ => ⟨_, rfl⟩⟩, fun cause hcause => ?_⟩
    cases hcause
    exact ⟨key, existing, attempted, g', hfirst, rfl, rfl, hlost, hleft⟩

/-- A root names a shape, and a generation that continues it is asked for another one. -/
def inheritedName (shared own : ShapeKey) : List (Σ α, Step α) :=
  [⟨_, .root {}⟩, ⟨_, .request .shape 0 shared none⟩, ⟨_, .finalize 0 .zero none⟩,
    ⟨_, .derive 0 {}⟩, ⟨_, .request .shape 1 own none⟩]

/-- A map that has another name for the inherited shape is refused, after the shape with the
smallest text has been carried forward and before the one with the largest has. -/
theorem finalize_rejected_at_inherited_name : ∃ (shared before after own : ShapeKey)
    (previous : IdentityMap) (carried existing attempted : Identity) (g : Generation),
    let s := Session.empty.after (inheritedName shared own)
    previous.entries = [(before, carried), (shared, attempted), (after, attempted)] ∧
    s.generation? 1 = some g ∧ ¬ Session.empty.Attempted 1 (inheritedName shared own) ∧
    s.inheritedIdentity .shape g.ancestors shared = some existing ∧
    let x := (Step.finalize 1 .zero (some previous)).run s
    x.1 = .error (.rejected (.identityConflict .shape shared.canonical existing attempted)) ∧
    ∃ g', x.2.generation? 1 = some g' ∧
      (g'.shapes.find? before).bind (·.identity) = some carried ∧
      g'.shapes.find? after = none ∧ (g'.shapes.find? own).isSome ∧
      ∀ config, ((Step.derive 1 config).run x.2).1 =
        .error (.rejected (.unfinalizedPredecessor ⟨1⟩)) := by
  obtain ⟨shared, before, after, own, previous, carried, existing, attempted, hentries, hnot,
      hchain, hinherited, hdiffers, hrest, hbefore, hafter, hrecorded, hown, hnone⟩ :
      ∃ (shared before after own : ShapeKey) (previous : IdentityMap)
        (carried existing attempted : Identity),
        let s := Session.empty.after (inheritedName shared own)
        previous.entries = [(before, carried), (shared, attempted), (after, attempted)] ∧
        ¬ Session.empty.Attempted 1 (inheritedName shared own) ∧
        (s.generation? 1).map (·.ancestors) = some [0] ∧
        s.inheritedIdentity .shape [0] shared = some existing ∧ existing ≠ attempted ∧
        (∀ e ∈ previous.entries, e.1 ≠ shared → s.inheritedIdentity .shape [0] e.1 = none) ∧
        before < shared ∧ shared < after ∧ previous.get? own = none ∧
        (s.own? .shape 1 own).isSome ∧ s.own? .shape 1 after = none :=
    ⟨⟨["b"], by decide⟩, ⟨["a"], by decide⟩, ⟨["c"], by decide⟩, ⟨["d"], by decide⟩,
      ⟨[(⟨["a"], by decide⟩, ⟨"x", 5⟩), (⟨["b"], by decide⟩, ⟨"y", 6⟩),
        (⟨["c"], by decide⟩, ⟨"y", 6⟩)], .zero, by decide⟩,
      ⟨"x", 5⟩, ⟨shapeTypeName 0 none (OutputConfig.fragment {}), 0⟩, ⟨"y", 6⟩,
      by decide +kernel⟩
  have hs := (leadsTo_after .empty (inheritedName shared own)).coherent coherent_empty
  obtain ⟨g, hg, hancestors⟩ := Option.map_eq_some_iff.1 hchain
  rw [← hancestors] at hinherited hrest
  obtain ⟨-, hfirst⟩ := finalize_rejections_exact hg .zero (some previous)
  obtain ⟨hiff, hleaves⟩ := hfirst hnot
  have hget : previous.get? shared = some attempted :=
    IdentityMap.get?_eq_some_iff.2 (by simp [hentries])
  obtain ⟨cause, hcause⟩ := hiff.2 ⟨shared, existing, attempted, hget, hinherited, hdiffers⟩
  obtain ⟨key, existing', attempted', g', hconflict, rfl, -, hlost, hleft⟩ := hleaves cause hcause
  obtain rfl : key = shared := by
    refine Classical.byContradiction fun hne => ?_
    have hunknown := hrest _ (IdentityMap.get?_eq_some_iff.1 hconflict.recorded) hne
    exact nomatch hunknown.symm.trans hconflict.inherited
  obtain rfl := Option.some.inj (hinherited.symm.trans hconflict.inherited)
  obtain rfl := Option.some.inj (hget.symm.trans hconflict.recorded)
  have hid : g.id = ⟨1⟩ := by
    rw [Generation.id, hancestors]
    rfl
  refine ⟨key, before, after, own, previous, carried, existing, attempted, g, hentries, hg, hnot,
    hinherited, hcause, g', hlost.generation_eq, ?_, ?_, ?_, fun config => ?_⟩
  · have hne : before ≠ key := fun he => String.lt_irrefl _ (he ▸ hbefore)
    have hentry : (before, carried) ∈ previous.entries := by simp [hentries]
    have hunknown := hrest (before, carried) hentry hne
    rw [hleft.carried ⟨IdentityMap.get?_eq_some_iff.2 hentry, encode_lt_iff.2 hbefore,
      (hs.inheritedIdentity_eq_none_iff hg).1 hunknown⟩]
    rfl
  · rw [own?_of_generation hg] at hnone
    refine (hleft.kept fun identity hcarried => ?_).1.trans hnone
    exact String.lt_asymm hafter (encode_lt_iff.1 hcarried.before)
  · rw [own?_of_generation hg] at hown
    have hkept : g'.shapes.find? own = g.shapes.find? own :=
      (hleft.kept fun identity hcarried => nomatch hrecorded.symm.trans hcarried.recorded).1
    rw [hkept]
    exact hown
  · rw [hlost.derive .refl, hid]

end Session

end AnonymousTypes
