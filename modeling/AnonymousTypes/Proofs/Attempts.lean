import AnonymousTypes.Proofs.Auditing

/-!
# A generation has one attempt

Finalization is attempted once. Whether a generation has had its attempt can be told from the
steps that were done (`Coherent.isFinalizing_after`), whatever came of them, and a second
attempt is refused (`finalize_attempted`).

An attempt that fails leaves the generation as it is but for the templates
(`Generation.Failed`). It will never be sealed, nothing is handed over, and as it is never
finalized, no other generation can continue it (`Lost`).
-/

namespace AnonymousTypes

variable {α : Type}

namespace Session

/-- One of the steps finalizes the generation at a handle. What is finalized there before a
generation is started is none. -/
def Attempted (h : Handle) : Session → List (Σ α, Step α) → Prop
  | _, [] => False
  | s, x :: xs =>
    (s.generation? h).isSome ∧ x.2.finalizes? = some h ∨ Attempted h (x.2.run s).2 xs

instance decidableAttempted (h : Handle) :
    (s : Session) → (xs : List (Σ α, Step α)) → Decidable (s.Attempted h xs)
  | _, [] => inferInstanceAs (Decidable False)
  | s, x :: xs =>
    have := decidableAttempted h (x.2.run s).2 xs
    inferInstanceAs (Decidable (_ ∧ _ ∨ _))

variable {s s' : Session} {h : Handle} {g g' : Generation} {given : Numbering}
  {previous : Option IdentityMap}

namespace Coherent

/-- **A step** begins finalization if it is to finalize the generation, and not otherwise. -/
theorem isFinalizing_run (hs : s.Coherent) (hg : s.generation? h = some g) {x : Step α}
    (hg' : (x.run s).2.generation? h = some g') :
    g'.isFinalizing = true ↔ g.isFinalizing = true ∨ x.finalizes? = some h := by
  constructor
  · intro hbegun
    by_cases hx : x.finalizes? = some h
    · exact .inr hx
    rcases hopen : g.isFinalizing
    · -- whatever else a step does, it leaves the frame alone
      have hspares : ∀ y ∈ [(⟨α, x⟩ : Σ α, Step α)], y.2.finalizes? ≠ some h := by
        simpa using hx
      obtain ⟨g'', hafter, hframe, -⟩ := hs.after_eq hg (hs.ready hg hopen).finalized hspares
      change (x.run s).2 = _ at hafter
      rw [hafter, generation?_put] at hg'
      obtain ⟨_, -, rfl⟩ := Option.map_eq_some_iff.1 hg'
      rw [Generation.isFinalizing_of_frame hframe, hopen] at hbegun
      cases hbegun
    · exact .inl rfl
  · rintro (hbegun | hx)
    · obtain ⟨g'', hg'', -, -, hstays⟩ := ((x.change hs).follows hs).generation hg
      obtain rfl := Option.some.inj (hg'.symm.trans hg'')
      exact (hstays hbegun).1
    · exact hs.isFinalizing_of_finalizes hg hx hg'

/-- **A generation has had its attempt** if it had before, or if one of the steps was it. -/
theorem isFinalizing_after (hs : s.Coherent) {xs : List (Σ α, Step α)}
    (hg' : (s.after xs).generation? h = some g') :
    g'.isFinalizing = true ↔
      (∃ g, s.generation? h = some g ∧ g.isFinalizing = true) ∨ s.Attempted h xs := by
  induction xs generalizing s with
  | nil =>
    change s.generation? h = some g' at hg'
    simp [hg', Attempted]
  | cons x xs ih =>
    have hchange := x.2.change hs
    rw [ih (hchange.coherent hs) hg', Attempted, ← or_assoc]
    refine or_congr_left ?_
    rcases hg : s.generation? h with _ | g
    · -- a generation that is started here has not been attempted
      simp only [Option.isSome_none, Bool.false_eq_true, false_and, or_false, reduceCtorEq,
        exists_false, iff_false, not_exists, not_and]
      intro g₁ hg₁ hbegun
      obtain ⟨config, ancestors, rfl⟩ := hchange.new_of_started hg hg₁
      cases hbegun
    · obtain ⟨g₁, hg₁, -⟩ := (hchange.follows hs).generation hg
      simp only [hg₁, Option.some.injEq, exists_eq_left', Option.isSome_some, true_and]
      exact hs.isFinalizing_run hg hg₁

end Coherent

/-- From the empty session on, only the steps count. -/
theorem isFinalizing_iff_attempted {xs : List (Σ α, Step α)}
    (hg : (Session.empty.after xs).generation? h = some g) :
    g.isFinalizing = true ↔ Session.empty.Attempted h xs := by
  rw [coherent_empty.isFinalizing_after hg]
  have hnone : ∀ g, Session.empty.generation? h ≠ some g := fun g hg => by cases hg
  simp only [hnone, false_and, exists_false, false_or]

theorem isFinalizing_eq_false_iff {xs : List (Σ α, Step α)}
    (hg : (Session.empty.after xs).generation? h = some g) :
    g.isFinalizing = false ↔ ¬ Session.empty.Attempted h xs := by
  rw [← isFinalizing_iff_attempted hg, Bool.not_eq_true]

/-- **A second attempt** is refused and changes nothing, whatever came of the first one: it may
have succeeded, met a conflict or run out of indices. -/
theorem finalize_attempted {xs : List (Σ α, Step α)}
    (hg : (Session.empty.after xs).generation? h = some g)
    (hattempted : Session.empty.Attempted h xs) (given : Numbering)
    (previous : Option IdentityMap) :
    (Step.finalize h given previous).run (Session.empty.after xs) =
      (.error (.rejected (.alreadyFinalized g.id)), Session.empty.after xs) :=
  Run.finalize_again hg ((isFinalizing_iff_attempted hg).2 hattempted) given previous

end Session

/-! ## Attempts that fail -/

/-- `g'` is what an attempt that fails makes of `g`: the templates apart, all that changes is
that the attempt has been made. -/
structure Generation.Failed (g g' : Generation) : Prop where
  frame_eq : g'.frame = g.begun.frame
  audited_eq : ∀ family, (g'.cache family).audited = (g.cache family).audited

/-- An attempt that fails hands nothing over and seals nothing. -/
theorem Generation.failed_of_finish {g g' : Generation} {h : Handle} (hready : g.Ready h)
    {known : ShapeKey → Option Identity} {start : Numbering}
    {entries : List (ShapeKey × Identity)} {e : Failure}
    (hfinish : g.finish known start entries = (.error e, g')) : g.Failed g' := by
  have hframe : g'.frame = g.begun.frame := by
    rw [finish] at hfinish
    split at hfinish
    · cases hfinish
      rfl
    · split at hfinish
      · cases hfinish
        rfl
      · split at hfinish <;> cases hfinish
        rfl
  refine ⟨hframe, fun family => ?_⟩
  have hfinishes : g.Finishes (fun _ _ => True) (g.finish known start entries).2 :=
    finishes_finish hready (fun _ _ => trivial) start entries
  rw [hfinish] at hfinishes
  obtain ⟨c, hnames, hcache⟩ := hfinishes.cache_eq family
  rw [show g'.cache family = _ from hcache, Cache.audited_closeIf, hnames.audited_eq]

namespace Session

variable {s s' : Session} {h : Handle} {g g' : Generation} {given : Numbering}
  {previous : Option IdentityMap}

/-- The attempt at the generation `g` has failed in a session, and has left `g'` behind. It is
open and not finalized, and stays so; nothing more was handed over. Nothing can continue it,
and it gets no other attempt. -/
structure Lost (s : Session) (h : Handle) (g g' : Generation) : Prop where
  generation_eq : s.generation? h = some g'
  config_eq : g'.config = g.config
  ancestors_eq : g'.ancestors = g.ancestors
  handedOff_eq : g'.handedOff = g.handedOff
  audited_eq : ∀ family, (g'.cache family).audited = (g.cache family).audited
  unfinalized : ∀ {later}, s.LeadsTo later → ∃ g'', later.generation? h = some g'' ∧
    g''.finalized = none ∧ ∀ family, (g''.cache family).isSealed = false
  derive : ∀ {later}, s.LeadsTo later → ∀ config,
    (Step.derive h config).run later = (.error (.rejected (.unfinalizedPredecessor g.id)), later)
  finalize : ∀ {later}, s.LeadsTo later → ∀ given previous,
    (Step.finalize h given previous).run later =
      (.error (.rejected (.alreadyFinalized g.id)), later)

/-- **An attempt that failed** cannot be made good. The generation stays marked as begun, so it
is never finalized and therefore never continued. -/
theorem lost_of_failed (hg : s.generation? h = some g) (hready : g.Ready h)
    (hput : (s.put h g').Coherent) (hfailed : g.Failed g') :
    (s.put h g').Lost h g g' := by
  have hg' : (s.put h g').generation? h = some g' :=
    generation?_put_self (Option.isSome_of_eq_some hg) g'
  have hancestors : g'.ancestors = g.ancestors :=
    Generation.ancestors_of_frame (g := g.begun) hfailed.frame_eq
  have hlater : ∀ {later}, (s.put h g').LeadsTo later → ∃ g'',
      later.generation? h = some g'' ∧ g''.id = g.id ∧ g''.isFinalizing = true ∧
        g''.finalized = none ∧ ∀ family, (g''.cache family).isSealed = false := by
    intro later hleads
    obtain ⟨g'', hg'', -, hancestors', hstays⟩ := (hleads.follows hput).generation hg'
    obtain ⟨hbegun, hfinal⟩ := hstays (Generation.isFinalizing_of_frame hfailed.frame_eq)
    have hopen : g''.finalized = none :=
      hfinal.trans ((Generation.finalized_of_frame hfailed.frame_eq).trans hready.finalized)
    refine ⟨g'', hg'', ?_, hbegun, hopen, fun family => ?_⟩
    · rw [Generation.id, Generation.id, hancestors', hancestors]
    · rw [((hleads.coherent hput) hg'').isSealed, hopen]
      rfl
  refine ⟨hg', Generation.config_of_frame (g := g.begun) hfailed.frame_eq, hancestors,
    Generation.handedOff_of_frame (g := g.begun) hfailed.frame_eq, hfailed.audited_eq, ?_, ?_, ?_⟩
  · intro later hleads
    obtain ⟨g'', hg'', -, -, hopen⟩ := hlater hleads
    exact ⟨g'', hg'', hopen⟩
  · intro later hleads config
    obtain ⟨g'', hg'', hid, -, hopen, -⟩ := hlater hleads
    rw [← hid]
    exact Run.continueFrom_unfinalized hg'' hopen config
  · intro later hleads given previous
    obtain ⟨g'', hg'', hid, hbegun, -⟩ := hlater hleads
    rw [← hid]
    exact Run.finalize_again hg'' hbegun given previous

/-- Finalization that fails ends in the session with what it has made of the generation. -/
theorem Coherent.finalize_lost (hs : s.Coherent) (hg : s.generation? h = some g)
    (hopen : g.isFinalizing = false) {e : Failure}
    (hfinish : s.finish g given previous = (.error e, g')) :
    (Step.finalize h given previous).run s = (.error e, s.put h g') ∧
      (s.put h g').Lost h g g' := by
  have hready := hs.ready hg hopen
  have hput := hs.put_finish hg hready given previous
  rw [hfinish] at hput
  refine ⟨?_, lost_of_failed hg hready hput (Generation.failed_of_finish hready hfinish)⟩
  rw [Step.run, Run.finalize_eq hg hready, hfinish]
  rfl

end Session

end AnonymousTypes
