import AnonymousTypes.Proofs.Conflict
import AnonymousTypes.Proofs.Freezing
import AnonymousTypes.Proofs.Locating

/-!
# What caches count

A cache counts the templates that it creates, and of the other requests that it answers those
that found a template and those that lost a race for one. Together these are the requests that
were answered with a template, each of them once, whether a step made them or finalization did
while it carried identities forward (`accounting`). A request that fails is not counted and
leaves no trace at all. In a race this is said of each of its steps (`Race.unchanged_of_error`):
what fails has only looked until then.

Requests that finalization makes cannot be seen in its answer. `Run.carryAnswers` goes through
the recorded identities as `Run.carryForward` does and collects what the requests are answered.
-/

namespace AnonymousTypes

variable {family : Family} {α : Type}

/-! ## Requests that carry identities forward -/

namespace Run

/-- The answers to the requests that carrying identities forward makes, as far as it comes. -/
def carryAnswers (h : Handle) :
    List (ShapeKey × Identity) → Session → List (Except Failure (TemplateRef .shape))
  | [], _ => []
  | (key, identity) :: rest, s =>
    match s.offered .shape h key with
    | some template =>
      match assign template identity s with
      | (.ok _, s) => carryAnswers h rest s
      | (.error _, _) => []
    | none =>
      match request .shape h key none s with
      | (.ok template, s) =>
        .ok template :: match assign template identity s with
          | (.ok _, s) => carryAnswers h rest s
          | (.error _, _) => []
      | (.error e, _) => [.error e]

end Run

namespace Cache

/-- `c'` is what becomes of `c` when so many requests are answered with a template. -/
structure Accounts (c : Cache family) (answered : Nat) (c' : Cache family) : Prop where
  tally_eq : c'.tally = c.tally + answered
  created_eq : c'.created + c.size = c.created + c'.size

variable {c c' c'' : Cache family}

namespace Accounts

theorem refl (c : Cache family) : c.Accounts 0 c := ⟨rfl, rfl⟩

theorem trans {n m : Nat} (h : c.Accounts n c') (h' : c'.Accounts m c'') :
    c.Accounts (n + m) c'' where
  tally_eq := by rw [h'.tally_eq, h.tally_eq, Nat.add_assoc]
  created_eq := by
    have hfirst := h.created_eq
    have hsecond := h'.created_eq
    omega

theorem close {n : Nat} (h : c.Accounts n c') : c.Accounts n c'.close :=
  ⟨h.tally_eq, h.created_eq⟩

end Accounts

theorem Counts.accounts {n : Nat} (h : c.Counts n c') : c.Accounts n c' :=
  ⟨h.tally_eq, h.created_eq⟩

theorem Handles.accounts {offer : family.Key → Option (TemplateRef family)}
    {requests : List (Request family)} (h : c.Handles offer requests c') :
    c.Accounts (requests.countP fun r => (c.outcome offer r).isOk) c' :=
  ⟨h.tally_eq, h.created_eq⟩

/-- Naming is not counted. -/
theorem accounts_nameAll (c : Cache family) (identityOf : family.Key → UInt32 → Identity)
    (keys : List family.Key) (index : UInt32) :
    c.Accounts 0 (c.nameAll identityOf keys index).2 := by
  have hname : ∀ (c : Cache family) key identity, c.Accounts 0 (c.name key identity) :=
    fun c key identity => ⟨rfl, congrArg (c.created + ·) (Table.size_modify ..).symm⟩
  induction keys generalizing c index with
  | nil => exact .refl c
  | cons key rest ih =>
    rw [nameAll]
    split
    · exact hname ..
    · exact (hname ..).trans (ih ..)

end Cache

namespace Run

variable {s : Session} {h : Handle} {g : Generation}

/-- **Carrying** is counted as the requests that it makes. -/
theorem accounts_carryAnswers (hs : (s.generation? h).isSome)
    {entries : List (ShapeKey × Identity)} (hnodup : (entries.map Prod.fst).Nodup)
    (hnot : h ∉ g.ancestors) (hhome : g.shapes.home = h) (hopen : g.shapes.isSealed = false)
    (hunnamed : ∀ e ∈ entries, ∀ t, g.shapes.find? e.1 = some t → t.identity = none) :
    g.shapes.Accounts ((carryAnswers h entries (s.put h g)).countP (·.isOk))
      (g.shapes.carry (s.inheritedIdentity .shape g.ancestors) entries).2 := by
  induction entries generalizing g with
  | nil => exact .refl _
  | cons e rest ih =>
    obtain ⟨key, identity⟩ := e
    rw [List.map_cons, List.nodup_cons] at hnodup
    have hne : ∀ e ∈ rest, e.1 ≠ key := fun e he hk => hnodup.1 (List.mem_map.2 ⟨e, he, hk⟩)
    rw [carryAnswers]
    rcases hinherited : s.inherited .shape key g.ancestors with _ | r
    · have hrest := Cache.unnamed_adopt hopen identity hne fun e he =>
        hunnamed e (List.mem_cons_of_mem _ he)
      have hcarried := ih (g := g.withCache .shape (g.shapes.adopt key identity)) hnodup.2 hnot
        ((Cache.home_of_frame (Cache.frame_adopt hopen ..)).trans hhome)
        (Cache.isSealed_adopt hopen ..) hrest
      obtain ⟨s', hrequest, hassign⟩ := request_assign_put hs hnot hhome hopen hinherited
        (hunnamed _ (List.mem_cons_self ..)) identity
      have hadopted := (Cache.counts_adopt hopen key identity).accounts.trans hcarried
      rw [Cache.carry_adopt (Session.inheritedIdentity_eq_none_iff.2 hinherited)]
      simp only [(offered_put hs hnot key).trans hinherited, hrequest, hassign]
      rw [List.countP_cons_of_pos (by rfl), Nat.add_comm]
      exact hadopted
    · obtain ⟨existing, hknown, hput⟩ := exists_identity_of_inherited hnot hinherited
      simp only [(offered_put hs hnot key).trans hinherited, assign_named hput]
      by_cases hagree : existing = identity
      · rw [Cache.carry_skip (hagree ▸ hknown)]
        simp only [if_pos hagree]
        exact ih hnodup.2 hnot hhome hopen fun e he => hunnamed e (List.mem_cons_of_mem _ he)
      · rw [Cache.carry_conflict hknown hagree]
        simp only [if_neg hagree]
        exact .refl _

end Run

/-- **Finalization** is counted as what it carries, and naming delegates is not counted. -/
theorem Generation.accounts_finish {g : Generation} {known : ShapeKey → Option Identity}
    {entries : List (ShapeKey × Identity)} {n : Nat}
    (hcarry : g.shapes.Accounts n (g.shapes.carry known entries).2) (start : Numbering) :
    g.shapes.Accounts n (g.finish known start entries).2.shapes ∧
      g.delegates.Accounts 0 (g.finish known start entries).2.delegates := by
  have hall : ∀ {family} {c c' : Cache family} {identityOf keys index answer},
      c.nameAll identityOf keys index = (answer, c') → c.Accounts 0 c' := by
    intro family c c' identityOf keys index answer hname
    have haccounts := c.accounts_nameAll identityOf keys index
    rwa [hname] at haccounts
  have hcases := g.finish_cases known start entries
  generalize g.finish known start entries = out at hcases ⊢
  cases hcases with
  | conflict hcarried =>
    rw [hcarried] at hcarry
    exact ⟨hcarry, .refl _⟩
  | outOfShapes hcarried hshapes =>
    rw [hcarried] at hcarry
    exact ⟨hcarry.trans (hall hshapes), .refl _⟩
  | outOfDelegates hcarried hshapes hdelegates =>
    rw [hcarried] at hcarry
    exact ⟨hcarry.trans (hall hshapes), hall hdelegates⟩
  | done hcarried hshapes hdelegates =>
    rw [hcarried] at hcarry
    exact ⟨(hcarry.trans (hall hshapes)).close, (hall hdelegates).close⟩

/-! ## What steps are answered -/

namespace Session

/-- The answers to the requests that a step makes of a generation for itself: those by which
finalization, if it is begun, carries identities forward. -/
def carryAnswers (s : Session) (h : Handle) : Step α → List (Except Failure (TemplateRef .shape))
  | .finalize k _ previous =>
    match s.generation? k with
    | some g =>
      if k = h ∧ g.isFinalizing = false then
        Run.carryAnswers h ((previous.map (·.entries)).getD []) (s.update h Generation.begun)
      else []
    | none => []
  | _ => []

/-- The answers to all requests that come to a cache of a generation in a step. Those of a race
are answered as they are alone (`Run.requestAll_eq`). -/
def answers (s : Session) (h : Handle) :
    (family : Family) → Step α → List (Except Failure (TemplateRef family))
  | .shape, x => (AnyRequest.only .shape (asked h [⟨α, x⟩])).map (s.alone h) ++ s.carryAnswers h x
  | .delegate, x => (AnyRequest.only .delegate (asked h [⟨α, x⟩])).map (s.alone h)

variable {s s' : Session} {h : Handle} {g g' : Generation} {x : Step α}

/-- A step that does not finalize the generation makes no requests for itself. -/
theorem answers_eq (hx : x.finalizes? ≠ some h) :
    s.answers h family x = (AnyRequest.only family (asked h [⟨α, x⟩])).map (s.alone h) := by
  cases family with
  | delegate => rfl
  | shape =>
    rw [answers]
    cases x with
    | finalize k given previous =>
      have hne : k ≠ h := fun he => hx (congrArg some he)
      rw [carryAnswers]
      split <;> simp [hne]
    | _ => exact List.append_nil _

namespace Coherent

/-- A step that neither asks a generation nor finalizes it leaves it where it is. -/
theorem generation?_of_spares (hs : s.Coherent) (hg : s.generation? h = some g)
    (hspares : x.Spares h) : (x.run s).2.generation? h = some g := by
  rcases hbegun : g.isFinalizing
  · exact Step.generation?_run hs hg (hs.ready hg hbegun).finalized hspares
  · exact Step.generation?_run_of_begun hs hg hbegun hspares.2

/-- **Finalization** counts what it carries: each recorded shape that nobody else has named is
asked for once, at no location. What is only named is not counted. -/
theorem accounts_finalize (hs : s.Coherent) (hg : s.generation? h = some g) (given : Numbering)
    (previous : Option IdentityMap) :
    ∃ g', (Run.finalize h given previous s).2.generation? h = some g' ∧ ∀ family,
      (g.cache family).Accounts
        ((s.answers h family (.finalize h given previous)).countP (·.isOk)) (g'.cache family) := by
  rcases hbegun : g.isFinalizing
  · have hready := hs.ready hg hbegun
    rw [Run.finalize_eq hg hready]
    refine ⟨_, generation?_put_self (Option.isSome_of_eq_some hg) _, fun family => ?_⟩
    have hcarry := Run.accounts_carryAnswers (g := g.begun) (Option.isSome_of_eq_some hg)
      (IdentityMap.nodup_recorded previous) hready.not_mem hready.home hready.isSealed
      fun e _ => hready.unnamed .shape e.1
    rw [← update_eq_put hg Generation.begun] at hcarry
    obtain ⟨hshapes, hdelegates⟩ :=
      Generation.accounts_finish (g := g) hcarry (s.startNumbering g given previous)
    cases family with
    | shape =>
      simp only [answers, carryAnswers, hg, hbegun, and_self, if_true]
      exact hshapes
    | delegate => exact hdelegates
  · rw [Run.finalize_again hg hbegun]
    refine ⟨g, hg, fun family => ?_⟩
    cases family with
    | shape =>
      simp only [answers, carryAnswers, hg, hbegun, Bool.true_eq_false, and_false, if_false]
      exact .refl _
    | delegate => exact .refl _

/-- **A step** counts the requests that are answered with a template. -/
theorem accounts_run (hs : s.Coherent) (hg : s.generation? h = some g) (x : Step α) :
    ∃ g', (x.run s).2.generation? h = some g' ∧ ∀ family,
      (g.cache family).Accounts ((s.answers h family x).countP (·.isOk)) (g'.cache family) := by
  by_cases hfinalizes : x.finalizes? = some h
  · cases x with
    | finalize k given previous =>
      obtain rfl := Option.some.inj hfinalizes
      exact hs.accounts_finalize hg given previous
    | root | derive | request | requestAll | requestSignature | construct | constructFields =>
      cases hfinalizes
  · simp only [answers_eq hfinalizes]
    by_cases hasks : ∀ a, x.asks? = some a → a.home ≠ h
    · refine ⟨g, hs.generation?_of_spares hg ⟨hfinalizes, hasks⟩, fun family => ?_⟩
      rw [asked_cons (x := ⟨α, x⟩) hasks]
      exact .refl _
    · simp only [not_forall, not_not] at hasks
      obtain ⟨a, ha, rfl⟩ := hasks
      obtain ⟨c, hrun, hhandles⟩ := Step.handles_of_asks ha hg
      have hself := generation?_put_self (Option.isSome_of_eq_some hg) (g.withCache a.family c)
      rw [hrun]
      refine ⟨_, hself, fun family => ?_⟩
      rw [asked_cons_of_asks (x := ⟨α, x⟩) ha]
      rw [show asked a.home ([] : List (Σ α, Step α)) = [] from rfl, List.append_nil]
      by_cases hne : family = a.family
      · subst hne
        rw [AnyRequest.only_map_self, List.countP_map, Generation.cache_withCache_self]
        simp only [Function.comp_def, alone_eq hg]
        exact hhandles.accounts
      · rw [AnyRequest.only_map_ne (Ne.symm hne), Generation.cache_withCache_ne _ _ hne]
        exact .refl _

end Coherent

theorem answers_missing (hg : s.generation? h = none) (family : Family) (x : Step α) :
    (s.answers h family x).countP (·.isOk) = 0 := by
  have hcarry : s.carryAnswers h x = [] := by
    cases x with
    | finalize k given previous =>
      rw [carryAnswers]
      split
      · rename_i g hk
        refine if_neg fun hthis => ?_
        rw [hthis.1, hg] at hk
        cases hk
      · rfl
    | _ => rfl
  have hasked : ((AnyRequest.only family (asked h [⟨α, x⟩])).map (s.alone h)).countP (·.isOk) =
      0 := by
    rw [List.countP_map, List.countP_eq_zero]
    intro r _
    rw [Function.comp, isOk_alone_missing hg]
    exact Bool.false_ne_true
  cases family with
  | shape => rw [answers, hcarry, List.append_nil, hasked]
  | delegate => exact hasked

end Session

/-! ## Steps and races

In a step that makes several requests these take turns. Workers need not do so. -/

/-- What may happen to a session. -/
inductive Event where
  /-- a step is taken -/
  | step {α : Type} (x : Step α)
  /-- requests race for a cache, and take their steps in some order until all are answered -/
  | race (family : Family) (h : Handle) (requests : List (Request family)) (schedule : List Nat)
    (hturns : ∀ i < requests.length, Stage.maxSteps ≤ schedule.count i)

namespace Session

/-- A race for a cache of a generation. -/
def race (s : Session) (g : Generation) (requests : List (Request family))
    (schedule : List Nat) : Race family :=
  (Race.ofRequests (g.cache family) requests).run (s.offer family g) schedule

/-- The session after an event. -/
def happen (s : Session) : Event → Session
  | .step x => (x.run s).2
  | .race family h requests schedule _ =>
    match s.generation? h with
    | some g => s.put h (g.withCache family (s.race g requests schedule).cache)
    | none => s

/-- How many of the requests that come to a cache of a generation are answered with a template. -/
def answeredIn (s : Session) (h : Handle) (family : Family) : Event → Nat
  | .step x => (s.answers h family x).countP (·.isOk)
  | .race other k requests schedule _ =>
    match s.generation? k with
    | some g =>
      if k = h ∧ other = family then
        ((s.race g requests schedule).outcomes.filterMap id).countP (·.isOk)
      else 0
    | none => 0

/-- The session after several events. -/
def afterAll (s : Session) (xs : List Event) : Session := xs.foldl happen s

/-- How many requests are answered with a template in all of them. -/
def answeredCount (h : Handle) (family : Family) : Session → List Event → Nat
  | _, [] => 0
  | s, x :: xs => s.answeredIn h family x + answeredCount h family (s.happen x) xs

variable {s s' : Session} {h : Handle} {g g' : Generation}

/-- **A race** handles the requests, if every thread gets its turns: the outcomes are those of
the requests alone, in the order of the threads, and the counters say how many were granted. -/
theorem handles_race (s : Session) (g : Generation) {requests : List (Request family)}
    {schedule : List Nat} (hturns : ∀ i < requests.length, Stage.maxSteps ≤ schedule.count i) :
    (s.race g requests schedule).outcomes.filterMap id =
        requests.map ((g.cache family).outcome (s.offer family g)) ∧
      (g.cache family).Handles (s.offer family g) requests (s.race g requests schedule).cache := by
  refine Cache.handles_ofRequests _ _ (Race.finished_run fun i hi => hturns i ?_)
  rwa [Race.ofRequests, List.length_map] at hi

namespace Coherent

/-- **An event** starts a generation, or changes one, or does nothing. -/
theorem change (hs : s.Coherent) (x : Event) : ∃ home?, s.Change home? (s.happen x) := by
  cases x with
  | step x => exact ⟨_, x.change hs⟩
  | race family h requests schedule hturns =>
    rw [happen]
    rcases hg : s.generation? h with _ | g
    · exact ⟨none, .nothing⟩
    · obtain ⟨-, hhandles⟩ := s.handles_race g hturns
      exact ⟨some h, .changed rfl hg (Generation.later_of_serves
        (fun family => (hs hg).sealed_eq family) (fun _ => id) hhandles.serves)⟩

theorem happen (hs : s.Coherent) (x : Event) : (s.happen x).Coherent := by
  obtain ⟨_, hchange⟩ := hs.change x
  exact hchange.coherent hs

theorem afterAll (hs : s.Coherent) (xs : List Event) : (s.afterAll xs).Coherent := by
  induction xs generalizing s with
  | nil => exact hs
  | cons x xs ih => exact ih (hs.happen x)

/-- **An event** counts the requests that are answered with a template. -/
theorem accounts_happen (hs : s.Coherent) (hg : s.generation? h = some g) (x : Event) :
    ∃ g', (s.happen x).generation? h = some g' ∧ ∀ family,
      (g.cache family).Accounts (s.answeredIn h family x) (g'.cache family) := by
  cases x with
  | step x => exact hs.accounts_run hg x
  | race family k requests schedule hturns =>
    simp only [Session.happen, answeredIn]
    rcases hk : s.generation? k with _ | g₀
    · exact ⟨g, hg, fun _ => .refl _⟩
    dsimp only
    by_cases he : k = h
    · subst he
      obtain rfl := Option.some.inj (hg.symm.trans hk)
      obtain ⟨houtcomes, hhandles⟩ := s.handles_race g hturns
      refine ⟨_, generation?_put_self (Option.isSome_of_eq_some hg) _, fun other => ?_⟩
      by_cases hsame : family = other
      · subst hsame
        rw [if_pos ⟨rfl, rfl⟩, houtcomes, List.countP_map, Generation.cache_withCache_self]
        exact hhandles.accounts
      · rw [if_neg fun h => hsame h.2, Generation.cache_withCache_ne _ _ (Ne.symm hsame)]
        exact .refl _
    · refine ⟨g, (generation?_put_ne s _ (Ne.symm he)).trans hg, fun other => ?_⟩
      rw [if_neg fun h => he h.1]
      exact .refl _

end Coherent

/-- Nothing is answered before the generation is started. -/
theorem answeredIn_missing (hg : s.generation? h = none) (family : Family) (x : Event) :
    s.answeredIn h family x = 0 := by
  cases x with
  | step x => exact answers_missing hg family x
  | race other k requests schedule hturns =>
    rw [answeredIn]
    split
    · rename_i g hk
      refine if_neg fun hthis => ?_
      rw [hthis.1, hg] at hk
      cases hk
    · rfl

/-- A cache of a generation, if it has been started, has counted its templates and `n` answers. -/
structure Tallied (s : Session) (h : Handle) (family : Family) (n : Nat) : Prop where
  generation : ∀ {g}, s.generation? h = some g →
    (g.cache family).created = (g.cache family).size ∧ (g.cache family).tally = n
  missing : s.generation? h = none → n = 0

/-- **An event** adds to the count what is answered. -/
theorem Tallied.happen {n : Nat} (htally : s.Tallied h family n) (hs : s.Coherent) (x : Event) :
    (s.happen x).Tallied h family (n + s.answeredIn h family x) := by
  rcases hg : s.generation? h with _ | g
  · -- a generation that is started here is still empty
    rw [htally.missing hg, answeredIn_missing hg]
    refine ⟨fun {g'} hg' => ?_, fun _ => rfl⟩
    obtain ⟨_, hchange⟩ := hs.change x
    obtain ⟨config, ancestors, rfl⟩ := hchange.new_of_started hg hg'
    cases family <;> exact ⟨rfl, rfl⟩
  · obtain ⟨g', hg', haccounts⟩ := hs.accounts_happen hg x
    obtain ⟨hcreated, htotal⟩ := htally.generation hg
    refine ⟨fun {g''} hg'' => ?_, fun hnone => by cases hnone.symm.trans hg'⟩
    obtain rfl := Option.some.inj (hg'.symm.trans hg'')
    have hsize := (haccounts family).created_eq
    exact ⟨by omega, htotal ▸ (haccounts family).tally_eq⟩

/-- **All events** together add what is answered. By induction on the events, with the sum of
what was answered so far carried along. -/
theorem Tallied.afterAll {n : Nat} (htally : s.Tallied h family n) (hs : s.Coherent)
    (xs : List Event) :
    (s.afterAll xs).Tallied h family (n + answeredCount h family s xs) := by
  induction xs generalizing s n with
  | nil => exact htally
  | cons x xs ih =>
    rw [answeredCount, ← Nat.add_assoc]
    exact ih (htally.happen hs x) (hs.happen x)

end Session

/-! ## Requests that fail -/

namespace Stage

/-- Whether a request may still fail, or has failed. -/
def mayFail : Stage family → Bool
  | .start | .found | .missed | .inherited _ | .unanswered => true
  | .done outcome => !outcome.isOk
  | _ => false

variable {offered : Option (TemplateRef family)} {r : Request family} {stage : Stage family}
  {c : Cache family}

/-- **A step** after which a request may still fail has only looked. -/
theorem advance_of_mayFail (h : (stage.advance offered r c).1.mayFail = true) :
    stage.mayFail = true ∧ (stage.advance offered r c).2 = c := by
  cases stage with
  | start | missed | unanswered =>
    refine ⟨rfl, ?_⟩
    rw [advance.eq_def]
    dsimp only
    split <;> rfl
  | found | inherited template =>
    refine ⟨rfl, ?_⟩
    rcases haudit : c.audit r.location with fault | c'
    · simp only [advance, haudit]
    · simp only [advance, haudit] at h
      cases h
  | done outcome => exact ⟨h, rfl⟩
  | foundAudited | foundCounted | inheritedAudited | unsealed | recorded | bound => cases h

/-- **Several steps** after which it may still fail have only looked, too. -/
theorem run_of_mayFail {n : Nat} (h : (Stage.run offered r n stage c).1.mayFail = true) :
    stage.mayFail = true ∧ (Stage.run offered r n stage c).2 = c := by
  induction n generalizing stage c with
  | zero => exact ⟨h, rfl⟩
  | succ n ih =>
    obtain ⟨hnext, hrest⟩ := ih h
    obtain ⟨hstage, hsame⟩ := advance_of_mayFail hnext
    exact ⟨hstage, hrest.trans hsame⟩

end Stage

/-- A request on its own that fails leaves the cache as it is. -/
theorem Cache.request_of_error {c : Cache family} {inherited : Option (TemplateRef family)}
    {r : Request family} {e : Failure}
    (he : (c.request inherited r.key r.location).1 = .error e) :
    (c.request inherited r.key r.location).2 = c := by
  have hrun := Stage.run_start inherited r c
  have hfail : (Stage.run inherited r Stage.maxSteps .start c).1.mayFail = true := by
    rw [hrun, he]
    rfl
  have hsame := (Stage.run_of_mayFail hfail).2
  rwa [hrun] at hsame

namespace Race

variable {offer : family.Key → Option (TemplateRef family)} {race : Race family} {i : Nat}
  {r : Request family} {stage : Stage family}

/-- **A step of a race** after which a request may still fail has not changed the cache if it
was taken by this request. -/
theorem step_of_mayFail {position : Nat}
    (h : (race.step offer position).runners[i]? = some (r, stage)) (hstage : stage.mayFail = true) :
    (∃ stage₀, race.runners[i]? = some (r, stage₀) ∧ stage₀.mayFail = true) ∧
      (position = i → (race.step offer position).cache = race.cache) := by
  rcases hrunner : race.runners[position]? with _ | ⟨r', stage'⟩
  · have hsame : race.step offer position = race := by rw [Race.step, hrunner]
    rw [hsame] at h
    exact ⟨⟨stage, h, hstage⟩, fun _ => congrArg Race.cache hsame⟩
  · have hstep : race.step offer position =
        ⟨(stage'.advance (offer r'.key) r' race.cache).2, race.runners.set position
          (r', (stage'.advance (offer r'.key) r' race.cache).1)⟩ := by rw [Race.step, hrunner]
    rw [hstep] at h ⊢
    by_cases hi : position = i
    · subst hi
      rw [List.getElem?_set_self (List.getElem?_eq_some_iff.1 hrunner).1] at h
      obtain ⟨rfl, rfl⟩ := Prod.mk.inj (Option.some.inj h)
      obtain ⟨hbefore, hsame⟩ := Stage.advance_of_mayFail hstage
      exact ⟨⟨stage', hrunner, hbefore⟩, fun _ => hsame⟩
    · rw [List.getElem?_set_ne hi] at h
      exact ⟨⟨stage, h, hstage⟩, fun hthis => absurd hthis hi⟩

theorem run_of_mayFail {schedule : List Nat}
    (h : (race.run offer schedule).runners[i]? = some (r, stage)) (hstage : stage.mayFail = true) :
    ∃ stage₀, race.runners[i]? = some (r, stage₀) ∧ stage₀.mayFail = true := by
  induction schedule generalizing race with
  | nil => exact ⟨stage, h, hstage⟩
  | cons position schedule ih =>
    obtain ⟨stage₁, h₁, hstage₁⟩ := ih h
    exact (step_of_mayFail h₁ hstage₁).1

/-- **A request that fails in a race** has changed the cache in none of its steps, whatever the
others did in between. -/
theorem unchanged_of_error {schedule pre post : List Nat} {e : Failure}
    (h : (race.run offer schedule).runners[i]? = some (r, .done (.error e)))
    (hsplit : schedule = pre ++ i :: post) :
    ((race.run offer pre).step offer i).cache = (race.run offer pre).cache := by
  rw [hsplit, Race.run, List.foldl_append, List.foldl_cons] at h
  obtain ⟨stage, hstage, hfail⟩ := run_of_mayFail h rfl
  exact (step_of_mayFail hstage hfail).2 rfl

/-- A race leaves a cache with as many templates created as it holds, at any time. -/
theorem created_eq_size {c : Cache family} (hcreated : c.created = c.size)
    (requests : List (Request family)) (schedule : List Nat) :
    ((ofRequests c requests).run offer schedule).cache.created =
      ((ofRequests c requests).run offer schedule).cache.size := by
  have htotal := ((sound_ofRequests offer c requests).run schedule).created_eq
  omega

end Race

namespace Session

variable {s s' : Session} {h : Handle} {g : Generation}

/-- A request that fails leaves the session as it is. -/
theorem request_of_error {key : family.Key} {location : Option Location} {e : Failure}
    (he : (Run.request family h key location s).1 = .error e) :
    (Run.request family h key location s).2 = s := by
  rcases hg : s.generation? h with _ | g
  · rw [Run.request_missing hg]
  · have hrequest := Run.request_eq hg (⟨key, location⟩ : Request family)
    dsimp only at hrequest
    rw [hrequest] at he ⊢
    rw [Cache.request_of_error (r := ⟨key, location⟩) he, Generation.withCache_cache, put_self hg]

/-- A construction that comes too late leaves the session as it is. -/
theorem construct_of_late {key : ShapeKey} {arguments : List TypeId} {location : Option Location}
    {e : Failure} (he : (Run.construct h key arguments location s).1 = .error e)
    (hlate : e.isLate = true) : (Run.construct h key arguments location s).2 = s := by
  rw [Run.construct_eq] at he ⊢
  rcases hrequest : (Run.request .shape h key location s).1 with e' | template
  · exact request_of_error hrequest
  · -- the arguments did not fit, which is not a matter of time
    rw [hrequest] at he
    simp only [Except.bind, TemplateRef.apply] at he
    split at he <;> cases he
    cases hlate

/-- Finalization never comes too late for its own requests. -/
theorem Coherent.not_late_of_finalize (hs : s.Coherent) {given : Numbering}
    {previous : Option IdentityMap} {e : Failure}
    (he : (Run.finalize h given previous s).1 = .error e) : e.isLate = false := by
  rcases hg : s.generation? h with _ | g
  · rw [Run.finalize_missing hg] at he
    cases he
    rfl
  rcases hbegun : g.isFinalizing
  · by_cases hagrees : s.Agrees g previous
    · by_cases hsuffices : s.Suffices g given previous
      · obtain ⟨result, s', hok⟩ := hs.exists_finalized hg hbegun hagrees hsuffices
        cases (congrArg Prod.fst hok).symm.trans he
      · cases (hs.finalize_exhausted hg hbegun hagrees hsuffices).symm.trans he
        rfl
    · obtain ⟨key, existing, attempted, g', -, -, hfinish⟩ :=
        hs.finish_of_conflict hg hbegun hagrees given
      rw [Run.finalize_eq hg (hs.ready hg hbegun), hfinish] at he
      cases he
      rfl
  · rw [Run.finalize_again hg hbegun] at he
    cases he
    rfl

/-- **A step that comes too late** leaves the session as it is. -/
theorem Coherent.run_of_late (hs : s.Coherent) {x : Step α} {e : Failure}
    (he : (x.run s).1 = .error e) (hlate : e.isLate = true) : (x.run s).2 = s := by
  cases x with
  | root => cases he
  | derive k config =>
    rcases hg : s.generation? k with _ | g
    · rw [Step.run, Run.continueFrom_missing hg]
    rcases hfinal : g.finalized with _ | numbering
    · rw [Step.run, Run.continueFrom_unfinalized hg hfinal]
    · rw [Step.run, Run.continueFrom_finalized hg hfinal] at he
      cases he
  | request family k key location => exact request_of_error he
  -- races answer with the outcomes of their requests, so they do not fail themselves
  | requestAll family k requests =>
    rcases hg : s.generation? k with _ | g
    · rw [Step.run, Run.requestAll_missing hg]
    · obtain ⟨c, heq, -⟩ := Run.requestAll_eq hg requests
      rw [Step.run, heq] at he
      cases he
  | requestSignature k params returnsVoid location =>
    rcases hpredefined : (DelegateKey.ofParameters params returnsVoid).isPredefined
    · rw [Step.run, Run.requestSignature_eq hpredefined] at he ⊢
      rcases hrequest : (Run.request .delegate k (.ofParameters params returnsVoid) location s).1
        with e' | template
      · exact request_of_error hrequest
      · rw [hrequest] at he
        cases he
    · rw [Step.run, Run.requestSignature_predefined hpredefined]
  | construct k key arguments location => exact construct_of_late he hlate
  | constructFields k symbols list =>
    rcases hg : s.generation? k with _ | g
    · rw [Step.run, Run.constructFields_missing hg]
    rcases hkey : list.shapeKey symbols with fault | key
    · rw [Step.run, Run.constructFields_fault hg hkey]
    · rw [Step.run, Run.constructFields_eq hg hkey] at he ⊢
      exact construct_of_late he hlate
  | finalize k given previous =>
    rw [hs.not_late_of_finalize he] at hlate
    cases hlate

/-! ## The counters -/

/-- **What caches count, and what failing requests leave.** Let a generation be there after some
steps and races, and look at one of its caches.

1. It has created as many templates as it holds. Each of them is for the key at which it stands,
   and belongs to this generation.
2. The numbers of templates that it created, of those that it found and of those that it dropped
   because others were faster add up to the number of requests that were answered with a
   template, in steps, in races, or by finalization while it carried identities forward.
3. A step that is refused because a cache is sealed, or faults because its location is late,
   leaves the session exactly as it is.
4. Let further requests race for it, and take their steps in any order. At any time it has created
   as many templates as it holds. When all of them are answered, those that were answered with a
   template are counted, each of them once. Those that failed have not changed it in any of
   their steps.
5. A construction leaves behind what the request for its shape does, whatever it answers. -/
theorem accounting {xs : List Event} {h : Handle} {g : Generation}
    (hg : (Session.empty.afterAll xs).generation? h = some g) (family : Family) :
    let s := Session.empty.afterAll xs
    let c := g.cache family
    (c.created = c.size ∧ ∀ key t, c.find? key = some t → t.key = key ∧ t.owner = g.id) ∧
    c.created + c.hits + c.discarded = answeredCount h family .empty xs ∧
    (∀ α (x : Step α) e, (x.run s).1 = .error e → e.isLate = true → (x.run s).2 = s) ∧
    (∀ (requests : List (Request family)) (schedule : List Nat),
      let after := (Race.ofRequests c requests).run (s.offer family g)
      (after schedule).cache.created = (after schedule).cache.size ∧
      ((after schedule).Finished → (after schedule).cache.tally =
        c.tally + requests.countP fun r => (s.alone h r).isOk) ∧
      ∀ i r e, (after schedule).runners[i]? = some (r, .done (.error e)) →
        ∀ pre post, schedule = pre ++ i :: post →
          ((after pre).step (s.offer family g) i).cache = (after pre).cache) ∧
    ∀ key arguments location, ((Step.construct h key arguments location).run s).2 =
      ((Step.request .shape h key location).run s).2 := by
  intro s c
  have hs : s.Coherent := coherent_empty.afterAll xs
  have hempty : Session.empty.Tallied h family 0 := ⟨fun hg => (by cases hg), fun _ => rfl⟩
  obtain ⟨hcreated, htally⟩ := (hempty.afterAll coherent_empty xs).generation hg
  have halone : ∀ r : Request family, s.alone h r = c.outcome (s.offer family g) r := alone_eq hg
  have hcount : c.tally = answeredCount h family .empty xs := htally.trans (Nat.zero_add _)
  refine ⟨⟨hcreated, fun key t ht => (hs hg).key ht⟩, ?_, fun _ _ _ he => hs.run_of_late he,
    fun requests schedule => ⟨Race.created_eq_size hcreated requests schedule, ?_, ?_⟩, ?_⟩
  · rw [← hcount, Cache.tally, Nat.add_right_comm]
  · simp only [halone]
    exact fun hfinished => (Cache.handles_ofRequests _ _ hfinished).2.tally_eq
  · exact fun i r e herror pre post => Race.unchanged_of_error herror
  · intro key arguments location
    rw [Step.run, Step.run, Run.construct_eq]

/-- Two workers race for a shape, and the second one is the first to bind it, while a third one
inherits another. Then a construction finds the shape and does not fit it, and finalization carries
a third shape forward. -/
def busy (shared own : ShapeKey) (location : Location) (previous : IdentityMap) : List Event :=
  [.step (.root {}), .step (.request .shape 0 shared none), .step (.finalize 0 .zero none),
    .step (.derive 0 {}),
    .race .shape 1 [⟨own, some location⟩, ⟨own, some location⟩, ⟨shared, none⟩]
      ([0, 0, 0] ++ List.replicate Stage.maxSteps 1 ++ Race.inTurns 3)
      (show ∀ i < 3, _ ≤ List.count i _ by decide),
    .step (.construct 1 own [] none), .step (.finalize 1 .zero (some previous))]

/-- All of them are counted, and a request that comes too late is not. -/
theorem accounting_of_busy : ∃ (xs : List Event) (g : Generation) (key : ShapeKey)
    (location : Location), (Session.empty.afterAll xs).generation? 1 = some g ∧
    (g.shapes.created, g.shapes.hits, g.shapes.discarded) = (2, 2, 1) ∧
    answeredCount 1 .shape .empty xs = 5 ∧
    (Step.request .shape 1 key (some location)).run (Session.empty.afterAll xs) =
      (.error (.fault (.lateUse .shape location)), Session.empty.afterAll xs) := by
  obtain ⟨xs, key, location, hcounters, hlate⟩ :
      ∃ (xs : List Event) (key : ShapeKey) (location : Location),
        ((Session.empty.afterAll xs).generation? 1).map (fun g =>
          (g.shapes.created, g.shapes.hits, g.shapes.discarded)) = some (2, 2, 1) ∧
        ((Step.request .shape 1 key (some location)).run (Session.empty.afterAll xs)).1 =
          .error (.fault (.lateUse .shape location)) :=
    ⟨busy ⟨["x"], by decide⟩ ⟨["y"], by decide⟩ (.ofOffsets 0 3 5)
        ⟨[(⟨["x"], by decide⟩, ⟨shapeTypeName 0 none (OutputConfig.fragment {}), 0⟩),
          (⟨["z"], by decide⟩, ⟨"z", 5⟩)], .zero, by decide⟩,
      ⟨["y"], by decide⟩, .ofOffsets 0 7 9, by decide +kernel⟩
  obtain ⟨g, hg, hcounters⟩ := Option.map_eq_some_iff.1 hcounters
  obtain ⟨-, hcount, hunchanged, -⟩ := accounting hg .shape
  refine ⟨xs, g, key, location, hg, hcounters, hcount.symm.trans ?_,
    Prod.ext hlate (hunchanged _ _ _ hlate rfl)⟩
  simp only [Prod.mk.injEq] at hcounters
  obtain ⟨hcreated, hhits, hdiscarded⟩ := hcounters
  change g.shapes.created + g.shapes.hits + g.shapes.discarded = 5
  rw [hcreated, hhits, hdiscarded]

end Session

end AnonymousTypes
