import AnonymousTypes.Proofs.Determinism

/-!
# What a cache knows about locations

Until it is sealed, a cache remembers where it was asked from. It does so for every request that
reaches it, whether it holds the template or inherits it, and nothing else adds to these
locations or takes any away (`Coherent.mem_audited_after`). Finalization keeps them
(`Coherent.finalize_keeps`), so behind the seal they say which locations were there before
(`audited_of_finalized`).
-/

namespace AnonymousTypes

variable {family : Family} {α : Type}

namespace Session

/-- The requests that steps make of the generation at a handle. What is asked there before a
generation is started reaches none. -/
def reaching (h : Handle) : Session → List (Σ α, Step α) → List AnyRequest
  | _, [] => []
  | s, x :: xs =>
    (if (s.generation? h).isSome then asked h [x] else []) ++ reaching h (x.2.run s).2 xs

/-- A request that came to the cache of a family was made from this location. -/
def Carried (s : Session) (h : Handle) (xs : List (Σ α, Step α)) (family : Family)
    (location : Location) : Prop :=
  ∃ r : Request family, ⟨family, r⟩ ∈ reaching h s xs ∧ r.location = some location

instance (s : Session) (h : Handle) (xs : List (Σ α, Step α)) (family : Family)
    (location : Location) : Decidable (s.Carried h xs family location) :=
  decidable_of_iff
    (location ∈ (AnyRequest.only family (reaching h s xs)).filterMap (·.location))
    (by simp only [List.mem_filterMap, AnyRequest.mem_only, Carried])

section

variable {s : Session} {h : Handle} {x : Σ α, Step α} {xs : List (Σ α, Step α)}

theorem mem_reaching_cons {q : AnyRequest} : q ∈ reaching h s (x :: xs) ↔
    (s.generation? h).isSome ∧ q ∈ asked h [x] ∨ q ∈ reaching h (x.2.run s).2 xs := by
  rw [reaching, List.mem_append]
  refine or_congr_left ?_
  split
  · rename_i hsome
    simp only [hsome, true_and]
  · rename_i hnone
    simp only [hnone, Bool.false_eq_true, false_and, List.not_mem_nil]

/-- The first step carries a location, or one after it does. -/
theorem carried_cons {location : Location} : s.Carried h (x :: xs) family location ↔
    (s.generation? h).isSome ∧
        (∃ r : Request family, ⟨family, r⟩ ∈ asked h [x] ∧ r.location = some location) ∨
      (x.2.run s).2.Carried h xs family location := by
  simp only [Carried, mem_reaching_cons, or_and_right, exists_or, and_assoc, exists_and_left]

end

variable {s s' : Session} {h : Handle} {g g' : Generation} {given : Numbering}
  {previous : Option IdentityMap} {result : Finalized}

/-- A generation that is there after a step, and not before, is a new one. -/
theorem Change.new_of_started {home? : Option Handle} (hchange : s.Change home? s')
    (hnone : s.generation? h = none) (hg : s'.generation? h = some g) :
    ∃ config ancestors, g = .new h config ancestors := by
  cases hchange with
  | nothing =>
    rw [hnone] at hg
    cases hg
  | started config ancestors =>
    by_cases hlast : h = s.generations.length
    · subst hlast
      rw [generation?_push_last] at hg
      exact ⟨config, ancestors, (Option.some.inj hg).symm⟩
    · have hlength := lt_length hg
      rw [push, List.length_append, List.length_singleton] at hlength
      have hlt : h < s.generations.length :=
        Nat.lt_of_le_of_ne (Nat.le_of_lt_succ hlength) hlast
      rw [generation?_push_of_lt _ _ hlt, hnone] at hg
      cases hg
  | changed hhome hg₀ hlater =>
    rename_i k g₀ g₁
    have hne : h ≠ k := fun he => by
      rw [he, hg₀] at hnone
      cases hnone
    rw [generation?_put_ne _ _ hne, hnone] at hg
    cases hg

/-- Finalization that is begun stays so. -/
theorem Follows.open_of_open (hfollows : s.Follows s') (hg : s.generation? h = some g)
    (hg' : s'.generation? h = some g') (hopen : g'.isFinalizing = false) :
    g.isFinalizing = false := by
  obtain ⟨_, hg'', -, -, hbegun⟩ := hfollows.generation hg
  obtain rfl := Option.some.inj (hg'.symm.trans hg'')
  rcases h : g.isFinalizing
  · rfl
  · rw [(hbegun h).1] at hopen
    cases hopen

namespace Coherent

/-- A step that finalizes a generation leaves it with finalization begun. -/
theorem isFinalizing_of_finalizes (hs : s.Coherent) (hg : s.generation? h = some g)
    {x : Step α} (hx : x.finalizes? = some h) (hg' : (x.run s).2.generation? h = some g') :
    g'.isFinalizing = true := by
  cases x with
  | finalize _ given previous =>
    obtain rfl := Option.some.inj hx
    rw [Step.run] at hg'
    rcases hbegun : g.isFinalizing
    · have hready := hs.ready hg hbegun
      rw [Run.finalize_eq hg hready, generation?_put_self (Option.isSome_of_eq_some hg)] at hg'
      obtain rfl := Option.some.inj hg'
      exact (finishes_of_ready hready given previous).isFinalizing
    · rw [Run.finalize_again hg hbegun, hg] at hg'
      obtain rfl := Option.some.inj hg'
      exact hbegun
  | root | derive | request | requestAll | requestSignature | construct | constructFields =>
    cases hx

/-- **A step** adds the locations of the requests that it makes. -/
theorem mem_audited_run (hs : s.Coherent) (hg : s.generation? h = some g) {x : Step α}
    (hg' : (x.run s).2.generation? h = some g') (hopen : g'.isFinalizing = false)
    (family : Family) (location : Location) :
    location ∈ (g'.cache family).audited ↔ location ∈ (g.cache family).audited ∨
      ∃ r : Request family, ⟨family, r⟩ ∈ asked h [⟨α, x⟩] ∧ r.location = some location := by
  have hfinal : g.finalized = none :=
    (hs.ready hg (((x.change hs).follows hs).open_of_open hg hg' hopen)).finalized
  have hspares : ∀ y ∈ [(⟨α, x⟩ : Σ α, Step α)], y.2.finalizes? ≠ some h := by
    intro y hy hx
    obtain rfl := List.mem_singleton.1 hy
    rw [hs.isFinalizing_of_finalizes hg hx hg'] at hopen
    cases hopen
  obtain ⟨g'', hafter, -, hserves⟩ := hs.after_eq hg hfinal hspares
  obtain rfl : g' = g'' := by
    change (x.run s).2 = _ at hafter
    rw [hafter, generation?_put] at hg'
    obtain ⟨_, -, hput⟩ := Option.map_eq_some_iff.1 hg'
    exact hput.symm
  -- the cache is not sealed, so all requests are granted
  have hgrants : ∀ r, (g.cache family).Grants (s.offer family g) r := fun r =>
    Cache.grants_of_open (by rw [(hs hg).isSealed, hfinal]; rfl)
  rw [(hserves family).absorbs.audited]
  simp only [hgrants, and_true]

/-- **The locations that a cache knows**, as long as finalization has not begun. -/
theorem mem_audited_after (hs : s.Coherent) {xs : List (Σ α, Step α)}
    (hg' : (s.after xs).generation? h = some g') (hopen : g'.isFinalizing = false)
    (family : Family) (location : Location) :
    location ∈ (g'.cache family).audited ↔
      (∃ g, s.generation? h = some g ∧ location ∈ (g.cache family).audited) ∨
        s.Carried h xs family location := by
  induction xs generalizing s with
  | nil =>
    change s.generation? h = some g' at hg'
    simp [hg', Carried, reaching]
  | cons x xs ih =>
    have hs' := (x.2.change hs).coherent hs
    rw [ih hs' hg', carried_cons, ← or_assoc]
    refine or_congr_left ?_
    rcases hg : s.generation? h with _ | g
    · -- a generation that is started here has not been asked for anything
      simp only [Option.isSome_none, Bool.false_eq_true, false_and, or_false, reduceCtorEq,
        exists_false, iff_false, not_exists, not_and]
      intro g₁ hg₁ hmem
      obtain ⟨config, ancestors, rfl⟩ := (x.2.change hs).new_of_started hg hg₁
      cases family <;> cases hmem
    · obtain ⟨g₁, hg₁, -⟩ := ((x.2.change hs).follows hs).generation hg
      have hopen₁ := ((leadsTo_after _ xs).follows hs').open_of_open hg₁ hg' hopen
      simp only [hg₁, Option.some.injEq, exists_eq_left', Option.isSome_some, true_and]
      exact hs.mem_audited_run hg hg₁ hopen₁ family location

/-- **Finalization keeps** the locations: it asks for shapes from nowhere and names what is
there, and neither of these is an audit. -/
theorem finalize_keeps (hs : s.Coherent) (hg : s.generation? h = some g)
    (hrun : Run.finalize h given previous s = (.ok result, s')) :
    g.isFinalizing = false ∧ ∃ g', s'.generation? h = some g' ∧
      g'.finalized = some result.numbering ∧
      ∀ family, (g'.cache family).audited = (g.cache family).audited := by
  obtain ⟨carried, g', rfl, hready, hfinished, -⟩ := hs.finished hg hrun
  have hsome := Option.isSome_of_eq_some hg
  have hg' := generation?_put_self hsome g'
  have hput : s.put h (s.finish g given previous).2 = s.put h g' :=
    congrArg Prod.snd ((Run.finalize_eq hg hready given previous).symm.trans hrun)
  obtain rfl : (s.finish g given previous).2 = g' := by
    rw [← hput, generation?_put_self hsome] at hg'
    exact Option.some.inj hg'
  refine ⟨hready.isFinalizing, _, hg', hfinished.finalized_eq, fun family => ?_⟩
  obtain ⟨c, hnames, hcache⟩ := (finishes_of_ready hready given previous).cache_eq family
  rw [show (s.finish g given previous).2.cache family = _ from hcache, Cache.audited_closeIf,
    hnames.audited_eq]

end Coherent

/-- **Behind the seal** a cache knows the locations of the requests that came to it before. -/
theorem audited_of_finalized {xs : List (Σ α, Step α)}
    (hrun : Run.finalize h given previous (Session.empty.after xs) = (.ok result, s)) :
    ∃ g, s.generation? h = some g ∧ g.finalized = some result.numbering ∧
      ∀ family location, location ∈ (g.cache family).audited ↔
        Session.empty.Carried h xs family location := by
  have hbefore := (leadsTo_after .empty xs).coherent coherent_empty
  rcases hg : (Session.empty.after xs).generation? h with _ | g
  · rw [Run.finalize_missing hg] at hrun
    cases hrun
  · obtain ⟨hopen, g', hg', hfinal, haudited⟩ := hbefore.finalize_keeps hg hrun
    refine ⟨g', hg', hfinal, fun family location => ?_⟩
    rw [haudited, coherent_empty.mem_audited_after hg hopen]
    -- nothing was there to begin with
    have hnone : ∀ g, Session.empty.generation? h ≠ some g := fun g hg => by cases hg
    simp only [hnone, false_and, exists_false, false_or]

end Session

end AnonymousTypes
