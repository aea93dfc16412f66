import AnonymousTypes.Proofs.Apart
import AnonymousTypes.Proofs.ByteOrder
import AnonymousTypes.Proofs.Simulation

/-!
# Finalization is deterministic

`Reachable.deterministic_naming` says which names finalization gives, as a function of the
templates and the locations that the generation has collected, and of the counters and the
map that it is given. Nothing else counts. In particular it does not matter in which order
the requests were made, how often, and what else was done in the meantime.
-/

namespace AnonymousTypes

namespace Session

variable {s : Session} {h : Handle} {g g' : Generation}

/-! ## Finalization that succeeds -/

/-- The counters to continue from are the largest of three. -/
theorem startNumbering_eq (s : Session) (g : Generation) (given : Numbering)
    (previous : Option IdentityMap) :
    s.startNumbering g given previous =
      (given.join ((s.predecessorNumbering g).getD .zero)).join
        ((previous.map (·.numbering)).getD .zero) := by
  rw [startNumbering.eq_def]
  rcases s.predecessorNumbering g with _ | numbering
  · cases previous with
    | none => simp only [Option.map_none, Option.getD_none, Numbering.join_zero]
    | some map => simp only [Option.map_some, Option.getD_none, Option.getD_some,
        Numbering.join_zero]
  · cases previous with
    | none => simp only [Option.map_none, Option.getD_none, Option.getD_some, Numbering.join_zero]
    | some map => rfl

/-- Finalization that succeeds ends in a finished generation. All of `Generation.Finished` can be
used of the answer of a run from here on. -/
theorem Coherent.finished (hs : s.Coherent) (hg : s.generation? h = some g) {given : Numbering}
    {previous : Option IdentityMap} {result : Finalized} {s' : Session}
    (hrun : Run.finalize h given previous s = (.ok result, s')) :
    ∃ carried g', s' = s.put h g' ∧ g.Ready h ∧
      g.Finished (s.inheritedIdentity .shape g.ancestors) (s.startNumbering g given previous)
        ((previous.map (·.entries)).getD []) carried result.numbering g' ∧
      result = s'.report h g' previous carried result.numbering := by
  rcases hbegun : g.isFinalizing
  · have hready := hs.ready hg hbegun
    rw [Run.finalize_eq hg hready] at hrun
    obtain ⟨hanswer, rfl⟩ := Prod.mk.inj hrun
    rcases hfinish : s.finish g given previous with ⟨_ | ⟨carried, numbering⟩, g'⟩
    · rw [hfinish] at hanswer
      cases hanswer
    · rw [hfinish] at hanswer
      obtain rfl := Except.ok.inj hanswer
      exact ⟨carried, g', rfl, hready, Generation.finished_of_finish hready (hs.clear hg .shape)
        (IdentityMap.nodup_recorded previous) hfinish, rfl⟩
  · rw [Run.finalize_again hg hbegun] at hrun
    cases hrun

/-- **Deterministic naming.** Let a generation of a reachable session be not finalized yet, and
let `n` be the largest of the counters that are passed in, that the generation before it left
behind, and that the map of the previous output has.

1. If finalization succeeds, the shapes of the generation are those that it had and those
   that the map has and that it does not inherit. A shape that is in the map gets the
   identity that it has there. Each of the others gets the first index that the counter
   leaves for it when they are numbered in the order of their earliest locations, then of
   the bytes of their canonical texts, and the name that belongs to this index. The delegates
   are numbered in the byte order of their names. The counters are moved by the numbers of
   templates that were numbered.
2. Two lists of steps may differ in the order and in the repetition of the requests that
   they make to the generation. After both of them, finalization has the same answer, with
   the same counters and the same map, or fails in the same way, and it leaves the same
   identities behind and hands over the same definitions. -/
theorem Reachable.deterministic_naming (hs : s.Reachable) (hg : s.generation? h = some g)
    (hopen : g.finalized = none) (given : Numbering) (previous : Option IdentityMap) :
    let n := (given.join ((s.predecessorNumbering g).getD .zero)).join
      ((previous.map (·.numbering)).getD .zero)
    let entries := (previous.map (·.entries)).getD []
    let fresh := g.shapes.templates.filter fun t => t.key ∉ entries.map Prod.fst
    (∀ result s', (Step.finalize h given previous).run s = (.ok result, s') →
      ∃ g', s'.generation? h = some g' ∧ g'.finalized = some result.numbering ∧
      (∀ key, (g'.shapes.find? key).isSome ↔ (g.shapes.find? key).isSome ∨
        key ∈ entries.map Prod.fst ∧ s.inherited .shape key g.ancestors = none) ∧
      (∀ key identity t, (key, identity) ∈ entries → g'.shapes.find? key = some t →
        t.identity = some identity) ∧
      (∀ t ∈ fresh, ∃ index : UInt32,
        index.toNat = n.nextShape.toNat + (fresh.countP fun u => u.Precedes t) ∧
        g'.shapes.find? t.key = some { t with
          identity := some ⟨shapeTypeName index g.config.slot g.config.fragment, index⟩ }) ∧
      (∀ key, (g'.delegates.find? key).isSome ↔ (g.delegates.find? key).isSome) ∧
      (∀ t ∈ g.delegates.templates, ∃ index : UInt32,
        index.toNat = n.nextDelegate.toNat +
          (g.delegates.templates.countP fun u => Text.Utf8.encode (DelegateKey.typeName u.key) <
            Text.Utf8.encode (DelegateKey.typeName t.key)) ∧
        g'.delegates.find? t.key = some { t with
          identity := some ⟨DelegateKey.typeName t.key, index⟩ }) ∧
      result.numbering.nextShape.toNat = n.nextShape.toNat + fresh.length ∧
      result.numbering.nextDelegate.toNat =
        n.nextDelegate.toNat + g.delegates.templates.length) ∧
    ∀ xs ys : List (Σ α, Step α), (∀ x ∈ xs, x.2.finalizes? ≠ some h) →
      others h ys = others h xs → (∀ q, q ∈ asked h ys ↔ q ∈ asked h xs) →
      let x := (Step.finalize h given previous).run (s.after xs)
      let y := (Step.finalize h given previous).run (s.after ys)
      y.1 = x.1 ∧ ∀ zs : List (Σ α, Step α),
        (∀ family (r : TemplateRef family),
          (y.2.after zs).identity? r = (x.2.after zs).identity? r) ∧
        (∀ k, ((y.2.after zs).generation? k).map Generation.frame =
          ((x.2.after zs).generation? k).map Generation.frame) ∧
        ∀ z : Σ α, Step α, (z.2.run (y.2.after zs)).1 = (z.2.run (x.2.after zs)).1 := by
  intro n entries fresh
  have hcoherent := hs.coherent
  refine ⟨?_, ?_⟩
  · intro result s' hrun
    obtain ⟨carried, g', rfl, hready, hfinished, -⟩ := hcoherent.finished hg hrun
    rw [startNumbering_eq] at hfinished
    have hclear : ∀ key t, g.shapes.find? key = some t →
        s.inheritedIdentity .shape g.ancestors key = none :=
      fun key t ht => inheritedIdentity_eq_none_iff.2 ((hcoherent hg).clear ht)
    refine ⟨g', generation?_put_self (Option.isSome_of_eq_some hg) g', hfinished.finalized_eq,
      fun key => ?_, ?_, fun t ht => ?_, fun key => ?_, fun t ht => ?_, hfinished.nextShape_eq,
      hfinished.nextDelegate_eq⟩
    · rw [hfinished.isSome_shape_iff (hready.keyed .shape) hclear key,
        inheritedIdentity_eq_none_iff]
    · exact fun key identity t => hfinished.identity_of_recorded hclear
    · rw [← Template.countP_shapeCompare]
      exact hfinished.shape t ht
    · exact hfinished.isSome_delegate_iff (hready.keyed .delegate) key
    · rw [← Template.countP_delegateCompare]
      exact hfinished.delegate t ht
  · intro xs ys hfinalizes hothers hasked
    -- a step that finalizes is not a request, so it would be among the others
    have hfinalizes' : ∀ x ∈ ys, x.2.finalizes? ≠ some h := by
      intro x hmem hx
      have hother : x ∈ others h ys := List.mem_filter.2 ⟨hmem, by simp [Step.asks?_eq_none hx]⟩
      rw [hothers] at hother
      exact hfinalizes x (List.mem_filter.1 hother).1 hx
    obtain ⟨gx, hx, hframe, hserves⟩ := hcoherent.after_eq hg hopen hfinalizes
    obtain ⟨gy, hy, hframe', hserves'⟩ := hcoherent.after_eq hg hopen hfinalizes'
    rw [hothers] at hy
    -- the caches have served the same set of requests
    have hgalike : gx.Alike gy := by
      refine ⟨hframe'.trans hframe.symm, fun family => (hserves family).alike ?_⟩
      exact (hserves' family).congr fun r => and_congr_left fun _ => hasked _
    have halike : (s.after xs).Alike (s.after ys) := by
      rw [hx, hy]
      exact (Alike.refl _).put hgalike
    have hcoherent' := (leadsTo_after s xs).coherent hcoherent
    obtain ⟨hanswer, hafter⟩ := (Step.finalize h given previous).blind hcoherent' halike
    refine ⟨hanswer, fun zs => ?_⟩
    have hcoherent'' := ((Step.finalize h given previous).change hcoherent').coherent hcoherent'
    have hzs := hafter.after hcoherent'' zs
    refine ⟨fun family => hzs.identity?_eq, hzs.frame_eq, fun z => ?_⟩
    exact (z.2.blind ((leadsTo_after _ zs).coherent hcoherent'') hzs).1

/-- A root that is asked for two shapes, for the later one first. -/
def twoShapes (early late : ShapeKey) : List (Σ α, Step α) :=
  [⟨_, .request .shape 0 late (some (.ofOffsets 0 7 9))⟩,
    ⟨_, .request .shape 0 early (some (.ofOffsets 0 3 5))⟩]

/-- The shape that is used first gets the first index, although its text is the later one. Asking
in the other order, and again, makes no difference. -/
theorem deterministic_naming_reordered : ∃ (s : Session) (g : Generation) (early late : ShapeKey)
    (result : Finalized) (x y : Session), s.Reachable ∧ s.generation? 0 = some g ∧
    g.finalized = none ∧ late < early ∧
    (Step.finalize 0 .zero none).run (s.after (twoShapes early late)) = (.ok result, x) ∧
    (Step.finalize 0 .zero none).run
      (s.after ((twoShapes early late).reverse ++ twoShapes early late)) = (.ok result, y) ∧
    (∀ z ∈ [x, y],
      z.identity? (⟨0, early⟩ : TemplateRef .shape) = some ⟨"<module>f__Shape0", 0⟩ ∧
      z.identity? (⟨0, late⟩ : TemplateRef .shape) = some ⟨"<module>f__Shape1", 1⟩) ∧
    result.numbering.nextShape.toNat = 2 := by
  obtain ⟨s, early, late, hs, hg, htexts, hranks, hok⟩ : ∃ (s : Session) (early late : ShapeKey),
      s.Reachable ∧ s.generation? 0 = some (.new 0 {} []) ∧ late < early ∧
      ((s.after (twoShapes early late)).generation? 0).map (fun g =>
          (g.finalized, g.ancestors, g.config, g.shapes.templates.map fun t =>
            (t.key, g.shapes.templates.countP fun u => u.Precedes t))) =
        some (none, [], {}, [(late, 1), (early, 0)]) ∧
      ((Step.finalize 0 .zero none).run (s.after (twoShapes early late))).1.toOption.isSome :=
    ⟨Session.empty.after [⟨_, .root {}⟩], ⟨["b"], by decide⟩, ⟨["a"], by decide⟩,
      leadsTo_after .., rfl, by decide +kernel⟩
  have hs' : (s.after (twoShapes early late)).Reachable := hs.of_leadsTo (leadsTo_after ..)
  obtain ⟨g', hg', hfacts⟩ := Option.map_eq_some_iff.1 hranks
  simp only [Prod.mk.injEq] at hfacts
  obtain ⟨hopen', hancestors, hconfig, hranks⟩ := hfacts
  rcases hrun : (Step.finalize 0 .zero none).run (s.after (twoShapes early late)) with
    ⟨_ | result, x⟩
  · rw [hrun] at hok
    cases hok
  have hfinalizes : ∀ x ∈ twoShapes early late, x.2.finalizes? ≠ some 0 := by
    simp [twoShapes, Step.finalizes?]
  have hothers : others 0 ((twoShapes early late).reverse ++ twoShapes early late) =
      others 0 (twoShapes early late) := by
    simp [twoShapes, others, Step.asks?]
  have hasked : ∀ q, q ∈ asked 0 ((twoShapes early late).reverse ++ twoShapes early late) ↔
      q ∈ asked 0 (twoShapes early late) := by
    intro q
    simpa [twoShapes, asked, Step.asks?] using Or.inr
  obtain ⟨hanswer, hlater⟩ :=
    (hs.deterministic_naming hg rfl .zero none).2 _ _ hfinalizes hothers hasked
  rcases hrun' : (Step.finalize 0 .zero none).run
    (s.after ((twoShapes early late).reverse ++ twoShapes early late)) with ⟨answer, y⟩
  rw [hrun, hrun'] at hanswer hlater
  obtain rfl : answer = .ok result := hanswer
  obtain ⟨g'', hg'', -, -, -, hnamed, -, -, hnext, -⟩ :=
    (hs'.deterministic_naming hg' hopen' .zero none).1 result x hrun
  have hpredecessor : (s.after (twoShapes early late)).predecessorNumbering g' = none := by
    rw [predecessorNumbering, hancestors]
    rfl
  -- nothing is recorded, so all shapes are numbered, and they are numbered from zero
  simp only [hpredecessor, Option.map_none, Option.getD_none, Numbering.join_zero, List.map_nil,
    List.not_mem_nil, not_false_eq_true, decide_true, List.filter_true] at hnamed hnext
  have hidentity : ∀ key rank, (key, rank) ∈ [(late, 1), (early, 0)] →
      ∃ index : UInt32, index.toNat = rank ∧ x.identity? (⟨0, key⟩ : TemplateRef .shape) =
        some ⟨shapeTypeName index none ({} : OutputConfig).fragment, index⟩ := by
    intro key rank hmem
    rw [← hranks] at hmem
    obtain ⟨t, ht, heq⟩ := List.mem_map.1 hmem
    obtain ⟨rfl, rfl⟩ := Prod.mk.inj heq
    obtain ⟨index, hindex, hfind⟩ := hnamed t ht
    rw [hconfig] at hfind
    exact ⟨index, hindex.trans (Nat.zero_add _),
      Option.bind_eq_some_iff.2 ⟨_, (own?_of_generation hg'' ..).trans hfind, rfl⟩⟩
  obtain ⟨first, hfirst, hearly⟩ := hidentity early 0 (by simp)
  obtain ⟨second, hsecond, hlate⟩ := hidentity late 1 (by simp)
  obtain rfl : first = 0 := UInt32.toNat_inj.1 hfirst
  obtain rfl : second = 1 := UInt32.toNat_inj.1 hsecond
  refine ⟨s, _, early, late, result, x, y, hs, hg, rfl, htexts, hrun, hrun', fun z hz => ?_, ?_⟩
  · have hsame : ∀ key, z.identity? (⟨0, key⟩ : TemplateRef .shape) =
        x.identity? (⟨0, key⟩ : TemplateRef .shape) := by
      intro key
      rcases List.mem_pair.1 hz with rfl | rfl
      · rfl
      · exact (hlater []).1 .shape _
    rw [hsame, hsame, hearly, hlate]
    exact ⟨by decide +kernel, by decide +kernel⟩
  · have hlength : g'.shapes.templates.length = 2 := by
      have hlength := congrArg List.length hranks
      rwa [List.length_map] at hlength
    exact hnext.trans (congrArg (0 + ·) hlength)

end Session

end AnonymousTypes
