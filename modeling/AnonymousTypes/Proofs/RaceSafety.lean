import AnonymousTypes.Proofs.Coherence

/-!
# Races are safe

Requests of both families may race for one generation, in any interleaving of their steps
(`Races`). Whatever the interleaving, every request has the outcome that it has if nobody
else asks (`Session.alone`), and so it has when the requests are made one after another, in
whatever order (`Session.askEach`). The caches end up alike, too: both ways of asking
handle the requests (`Cache.Handles`), and that leaves no choice.
-/

namespace AnonymousTypes

/-- A request to a generation, for a template of either family. -/
abbrev AnyRequest : Type := (family : Family) × Request family

namespace AnyRequest

variable {family : Family}

/-- The requests for one family. -/
def only (family : Family) (requests : List AnyRequest) : List (Request family) :=
  requests.filterMap fun q => if h : q.1 = family then some (h ▸ q.2) else none

@[simp] theorem only_cons_self (r : Request family) (rest : List AnyRequest) :
    only family (⟨family, r⟩ :: rest) = r :: only family rest := by
  rw [only, List.filterMap_cons, dif_pos rfl]
  rfl

theorem only_cons_ne {other : Family} (hne : other ≠ family) (r : Request other)
    (rest : List AnyRequest) : only family (⟨other, r⟩ :: rest) = only family rest := by
  rw [only, List.filterMap_cons, dif_neg hne]
  rfl

theorem only_map_self (requests : List (Request family)) :
    only family (requests.map (Sigma.mk family)) = requests := by
  induction requests with
  | nil => rfl
  | cons r rest ih => rw [List.map_cons, only_cons_self, ih]

theorem only_map_ne {other : Family} (hne : other ≠ family) (requests : List (Request other)) :
    only family (requests.map (Sigma.mk other)) = [] := by
  induction requests with
  | nil => rfl
  | cons r rest ih => rw [List.map_cons, only_cons_ne hne, ih]

/-- Requests for a family are those of its kind among all of them. -/
theorem mem_only {r : Request family} {requests : List AnyRequest} :
    r ∈ only family requests ↔ ⟨family, r⟩ ∈ requests := by
  induction requests with
  | nil => simp [only]
  | cons q rest ih =>
    obtain ⟨other, r'⟩ := q
    by_cases hne : other = family
    · subst hne
      simp [ih]
    · rw [only_cons_ne hne, ih]
      simp [Ne.symm hne]

/-- The order in which requests of both families come is an order for each of them. -/
theorem only_perm {requests requests' : List AnyRequest} (h : requests.Perm requests') :
    (only family requests).Perm (only family requests') :=
  h.filterMap _

end AnyRequest

/-! ## Both caches at once -/

/-- Races for the two caches of a generation. -/
abbrev Races : Type := (family : Family) → Race family

namespace Races

/-- The races in which no request has taken a step. -/
def ofRequests (g : Generation) (requests : List AnyRequest) : Races :=
  fun family => .ofRequests (g.cache family) (AnyRequest.only family requests)

/-- Advance one request: the one at a position among those for a family. -/
def step (offer : (family : Family) → family.Key → Option (TemplateRef family))
    (races : Races) (turn : Family × Nat) : Races :=
  fun family =>
    if turn.1 = family then (races family).step (offer family) turn.2 else races family

/-- Advance requests in the given order. -/
def run (offer : (family : Family) → family.Key → Option (TemplateRef family))
    (races : Races) (schedule : List (Family × Nat)) : Races :=
  schedule.foldl (step offer) races

/-- The turns of one family. -/
def turns (family : Family) (schedule : List (Family × Nat)) : List Nat :=
  (schedule.filter fun turn => turn.1 = family).map Prod.snd

variable {offer : (family : Family) → family.Key → Option (TemplateRef family)}

/-- The caches have nothing to do with each other, so each of them sees its own race. -/
theorem run_apply (races : Races) (schedule : List (Family × Nat)) (family : Family) :
    races.run offer schedule family =
      (races family).run (offer family) (turns family schedule) := by
  induction schedule generalizing races with
  | nil => rfl
  | cons turn rest ih =>
    rw [run, List.foldl_cons, ← run, ih]
    by_cases h : turn.1 = family
    · rw [turns, turns, List.filter_cons_of_pos (by simpa using h), List.map_cons]
      rw [step, if_pos h]
      rfl
    · rw [turns, turns, List.filter_cons_of_neg (by simpa using h), step, if_neg h]

/-- Requests for one family that take their steps in turn come to an end. -/
theorem finished_inTurns {family : Family} (g : Generation) (requests : List (Request family))
    (other : Family) :
    ((ofRequests g (requests.map (Sigma.mk family))).run offer
      ((Race.inTurns requests.length).map (Prod.mk family)) other).Finished := by
  rw [run_apply, ofRequests]
  by_cases hne : family = other
  · subst hne
    have hturns : turns family ((Race.inTurns requests.length).map (Prod.mk family)) =
        Race.inTurns requests.length := by
      simp [turns, List.filter_map, Function.comp_def]
    rw [hturns, AnyRequest.only_map_self]
    exact Race.finished_inTurns _ _
  · intro r stage hmem
    have hnone := List.mem_map_of_mem (f := Prod.fst) hmem
    rw [Race.requests_run, Race.requests_ofRequests, AnyRequest.only_map_ne hne] at hnone
    cases hnone

end Races

namespace Session

variable {s : Session} {h : Handle} {g : Generation}

/-- The outcome of a request to a generation if nobody else makes any. -/
def alone (s : Session) (h : Handle) {family : Family} (r : Request family) :
    Except Failure (TemplateRef family) :=
  ((Step.request family h r.key r.location).run s).1

/-- Ask a generation for templates one after another. Answers the outcomes in order. -/
def askEach (h : Handle) : List AnyRequest → Session →
    List ((family : Family) × Except Failure (TemplateRef family)) × Session
  | [], s => ([], s)
  | q :: rest, s =>
    let (outcome, s) := (Step.request q.1 h q.2.key q.2.location).run s
    let (outcomes, s) := askEach h rest s
    (⟨q.1, outcome⟩ :: outcomes, s)

/-- Alone means: in the cache as it is, with the offer of the ancestors as it is. No other
request comes into it. -/
theorem alone_eq {family : Family} (hg : s.generation? h = some g) (r : Request family) :
    s.alone h r = (g.cache family).outcome (s.offer family g) r :=
  congrArg Prod.fst (Run.request_eq hg r)

/-- What is offered to a generation does not depend on the generation's own caches. -/
theorem offer_put (s : Session) (family : Family) {g g' : Generation} (hnot : h ∉ g.ancestors)
    (hancestors : g'.ancestors = g.ancestors) :
    (s.put h g').offer family g' = s.offer family g := by
  funext key
  rw [offer, offer, hancestors, inherited_put s g' hnot]

/-- **Requests one after another** are handled; every one has the outcome that it has alone. -/
theorem askEach_eq (hg : s.generation? h = some g) (hnot : h ∉ g.ancestors)
    (requests : List AnyRequest) :
    ∃ g', askEach h requests s =
        (requests.map fun q => ⟨q.1, (g.cache q.1).outcome (s.offer q.1 g) q.2⟩, s.put h g') ∧
      g'.frame = g.frame ∧ ∀ family, (g.cache family).Handles (s.offer family g)
        (AnyRequest.only family requests) (g'.cache family) := by
  induction requests generalizing s g with
  | nil => exact ⟨g, by rw [put_self hg]; rfl, rfl, fun family => .nil _⟩
  | cons q rest ih =>
    obtain ⟨family, r⟩ := q
    have hhandles : (g.cache family).Handles (s.offer family g) [r]
        ((g.cache family).request (s.offer family g r.key) r.key r.location).2 :=
      Cache.handles_request ..
    have hrequest := Run.request_eq hg r
    generalize ((g.cache family).request (s.offer family g r.key) r.key r.location).2 = c at *
    have hself := generation?_put_self (Option.isSome_of_eq_some hg) (g.withCache family c)
    have hframe := Generation.frame_withCache g family c
    have hancestors := Generation.ancestors_of_frame hframe
    obtain ⟨g', hask, hframe', hrest⟩ := ih hself (hancestors ▸ hnot)
    -- the earlier generations offer the same to the requests that are left
    have hoffer : ∀ other, (s.put h (g.withCache family c)).offer other (g.withCache family c) =
        s.offer other g := fun other => offer_put s other hnot hancestors
    simp only [hoffer] at hask hrest
    refine ⟨g', ?_, hframe'.trans hframe, ?_⟩
    · rw [askEach, Step.run, hrequest]
      simp only [hask, put_put, List.map_cons]
      refine Prod.ext (congrArg (List.cons _) (List.map_congr_left ?_)) rfl
      rintro ⟨other, r'⟩ -
      by_cases hne : other = family
      · subst hne
        simp only [Generation.cache_withCache_self, hhandles.serves.outcome_eq]
      · simp only [Generation.cache_withCache_ne _ _ hne]
    · intro other
      by_cases hne : other = family
      · subst hne
        have hthis := hrest other
        rw [Generation.cache_withCache_self] at hthis
        rw [AnyRequest.only_cons_self]
        exact hhandles.append hthis
      · have hthis := hrest other
        rw [Generation.cache_withCache_ne _ _ hne] at hthis
        rwa [AnyRequest.only_cons_ne (Ne.symm hne)]

/-- **Race safety.** In every reachable session, any number of requests to one generation may
take their steps in any order in which all of them come to an end. Then every request has the
outcome that it has alone, and so it has when they are made one after another, in any order;
those that are granted for one key get one template; and the caches have the same templates
with the same owners and earliest locations, the same audited locations and the same counts
as after any of these orders. -/
theorem Reachable.race_safe (hs : s.Reachable) (hg : s.generation? h = some g)
    (requests : List AnyRequest) (schedule : List (Family × Nat))
    (hfinished : ∀ family, ((Races.ofRequests g requests).run
      (fun family => s.offer family g) schedule family).Finished) :
    let races := (Races.ofRequests g requests).run (fun family => s.offer family g) schedule
    (∀ family, (races family).outcomes =
      (AnyRequest.only family requests).map fun r => some (s.alone h r)) ∧
    (∀ family (r r' : Request family) template template', r.key = r'.key →
      s.alone h r = .ok template → s.alone h r' = .ok template' → template = template') ∧
    ∀ ordered : List AnyRequest, ordered.Perm requests →
      (askEach h ordered s).1 = ordered.map (fun q => ⟨q.1, s.alone h q.2⟩) ∧
      ∃ g', (askEach h ordered s).2.generation? h = some g' ∧ ∀ family,
        (g'.cache family).Alike (races family).cache ∧
        (races family).cache.created = (g'.cache family).created ∧
        (races family).cache.hits + (races family).cache.discarded =
          (g'.cache family).hits + (g'.cache family).discarded := by
  intro races
  have halone : ∀ {family : Family} (r : Request family),
      s.alone h r = (g.cache family).outcome (s.offer family g) r := fun r => alone_eq hg r
  -- the two caches are raced for apart, each with its own turns
  have hraces : ∀ family, races family =
      (Race.ofRequests (g.cache family) (AnyRequest.only family requests)).run
        (s.offer family g) (Races.turns family schedule) :=
    fun family => Races.run_apply _ schedule family
  have hsound : ∀ family, Race.Sound (s.offer family g) (g.cache family) (races family) := by
    intro family
    rw [hraces]
    exact (Race.sound_ofRequests ..).run _
  have hrequests : ∀ family,
      (races family).runners.map Prod.fst = AnyRequest.only family requests := by
    intro family
    rw [hraces, Race.requests_run, Race.ofRequests, List.map_map]
    exact List.map_id _
  refine ⟨fun family => ?_, ?_, ?_⟩
  · rw [(hsound family).outcomes_eq (hfinished family), ← hrequests, List.map_map]
    exact List.map_congr_left fun runner _ => congrArg some (halone runner.1).symm
  · intro family r r' template template' hkey hr hr'
    rw [halone] at hr hr'
    exact Cache.eq_of_outcome hkey hr hr'
  · intro ordered hperm
    obtain ⟨g', hask, -, hhandles⟩ := askEach_eq hg (hs.coherent.not_mem hg) ordered
    refine ⟨?_, g', ?_, fun family => ?_⟩
    · rw [hask]
      exact List.map_congr_left fun q _ => by rw [halone]
    · rw [hask]
      exact generation?_put_self (Option.isSome_of_eq_some hg) g'
    · -- the race and the order handle the same requests, up to a permutation
      have hrace := Cache.handles_race (hsound family) (hfinished family)
      rw [hrequests] at hrace
      have hperm' : (AnyRequest.only family ordered).Perm (AnyRequest.only family requests) :=
        AnyRequest.only_perm hperm
      exact ⟨(hhandles family).alike_of_perm hrace hperm',
        (hhandles family).created_eq_of_perm hrace hperm',
        (hhandles family).found_eq_of_perm hrace hperm'⟩

/-- Two requests in step with each other, the one from the later location ahead: both of them
miss the key, so the other one comes too late to bind it, but its location is noted. They get the
same template as in the other order, and it has the same earliest location. -/
theorem race_safe_in_step : ∃ (s ordered : Session) (g : Generation) (key : ShapeKey)
    (early late : Location) (races : Races) (template : TemplateRef .shape) (t : Template .shape),
    let r : Request .shape := ⟨key, some late⟩
    let r' : Request .shape := ⟨key, some early⟩
    s.Reachable ∧ s.generation? 0 = some g ∧ early.orderKey < late.orderKey ∧
    races = (Races.ofRequests g [⟨.shape, r⟩, ⟨.shape, r'⟩]).run
      (fun family => s.offer family g) ((Race.inTurns 2).map (Prod.mk .shape)) ∧
    (∀ family, (races family).Finished) ∧
    (races .shape).cache.discarded = 1 ∧
    (races .shape).outcomes = [some (.ok template), some (.ok template)] ∧
    askEach 0 [⟨.shape, r'⟩, ⟨.shape, r⟩] s =
      ([⟨.shape, .ok template⟩, ⟨.shape, .ok template⟩], ordered) ∧
    (races .shape).cache.find? key = some t ∧ ordered.own? .shape 0 key = some t ∧
    t.earliest? = some early.orderKey := by
  obtain ⟨s, key, early, late, hs, hg, hlater, hdiscarded, hearliest⟩ :
      ∃ (s : Session) (key : ShapeKey) (early late : Location),
      let races := (Races.ofRequests (.new 0 {} [])
        [⟨.shape, ⟨key, some late⟩⟩, ⟨.shape, ⟨key, some early⟩⟩]).run
        (fun family => s.offer family (.new 0 {} [])) ((Race.inTurns 2).map (Prod.mk .shape))
      s.Reachable ∧ s.generation? 0 = some (.new 0 {} []) ∧ early.orderKey < late.orderKey ∧
      (races .shape).cache.discarded = 1 ∧
      ((races .shape).cache.find? key).map (·.earliest?) = some (some early.orderKey) :=
    ⟨Session.empty.after [⟨_, .root {}⟩], ⟨["a"], by decide⟩, .ofOffsets 0 3 5, .ofOffsets 0 7 9,
      leadsTo_after .., rfl, by decide +kernel⟩
  obtain ⟨t, ht, hearliest⟩ := Option.map_eq_some_iff.1 hearliest
  have halone : ∀ r : Request .shape, s.alone 0 r = .ok ⟨0, r.key⟩ := fun r =>
    (alone_eq hg r).trans (Cache.outcome_eq_ok_iff.2 (.inr (.inr ⟨rfl, rfl, rfl, rfl⟩)))
  have hfinished : ∀ family, ((Races.ofRequests (.new 0 {} [])
      [⟨.shape, ⟨key, some late⟩⟩, ⟨.shape, ⟨key, some early⟩⟩]).run
        (fun family => s.offer family (.new 0 {} []))
        ((Race.inTurns 2).map (Prod.mk .shape)) family).Finished :=
    Races.finished_inTurns _ [(⟨key, some late⟩ : Request .shape), ⟨key, some early⟩]
  obtain ⟨houtcomes, -, hordered⟩ := hs.race_safe hg _ _ hfinished
  obtain ⟨hanswers, g', hg', hcaches⟩ := hordered _ (.swap ..)
  refine ⟨s, _, _, key, early, late, _, ⟨0, key⟩, t, hs, hg, hlater, rfl, hfinished, hdiscarded, ?_,
    Prod.ext ?_ rfl, ht, ?_, hearliest⟩
  · refine (houtcomes .shape).trans ?_
    simp only [AnyRequest.only_cons_self, List.map_cons, halone]
    rfl
  · refine hanswers.trans ?_
    simp only [List.map_cons, List.map_nil, halone]
  · rw [own?_of_generation hg', ← (hcaches .shape).1.find?_eq]
    exact ht

end Session

end AnonymousTypes
