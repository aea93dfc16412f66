import AnonymousTypes.Cache

/-!
# Racing requests

Several workers may ask one cache at the same time. Nobody waits for anybody: a
request proceeds in atomic steps, and between any two of them the steps of other
requests may happen. A request that finds its key vacant prepares a template
without holding anything; if the key is taken when it comes to bind it, it drops
its own template and answers with the one that is there.

A `Stage` says how far a request has come, and `Stage.advance` takes the next
step. A *race* is a list of requests, each at some stage, over one cache; a step
of a race advances one of them. Run on its own, a request does what
`Cache.request` says (`Stage.run_start`).
-/

namespace AnonymousTypes

/-- What a worker asks for. -/
structure Request (family : Family) where
  key : family.Key
  location : Option Location

/-- How far a request has come. -/
inductive Stage (family : Family) where
  /-- next: look the key up in the cache -/
  | start
  /-- the cache holds the key; next: audit -/
  | found
  /-- audited; next: count the hit -/
  | foundAudited
  /-- counted; next: note the location -/
  | foundCounted
  /-- the cache does not hold the key; next: ask the earlier generations -/
  | missed
  /-- an earlier generation answers; next: audit -/
  | inherited (template : TemplateRef family)
  /-- audited; next: count the hit -/
  | inheritedAudited (template : TemplateRef family)
  /-- nobody answers; next: check the seal -/
  | unanswered
  /-- not sealed; next: record the location -/
  | unsealed
  /-- recorded; next: bind the key, unless it is taken -/
  | recorded
  /-- bound; next: note the location -/
  | bound
  /-- answered -/
  | done (outcome : Except Failure (TemplateRef family))

variable {family : Family}

/-- The next step of a request; `offered` is what the earlier generations offer
for its key. -/
def Stage.advance (offered : Option (TemplateRef family)) (r : Request family)
    (stage : Stage family) (c : Cache family) : Stage family × Cache family :=
  match stage with
  | .start =>
    match c.find? r.key with
    | some _ => (.found, c)
    | none => (.missed, c)
  | .found =>
    match c.audit r.location with
    | .error fault => (.done (.error (.fault fault)), c)
    | .ok c => (.foundAudited, c)
  | .foundAudited => (.foundCounted, c.countHit)
  | .foundCounted => (.done (.ok ⟨c.home, r.key⟩), c.noteUse r.key r.location)
  | .missed =>
    match offered with
    | some template => (.inherited template, c)
    | none => (.unanswered, c)
  | .inherited template =>
    match c.audit r.location with
    | .error fault => (.done (.error (.fault fault)), c)
    | .ok c => (.inheritedAudited template, c)
  | .inheritedAudited template => (.done (.ok template), c.countHit)
  | .unanswered =>
    if c.isSealed then (.done (.error (Cache.sealedFailure r.key)), c) else (.unsealed, c)
  | .unsealed => (.recorded, c.record r.location)
  | .recorded => (.bound, c.create r.key)
  | .bound => (.done (.ok ⟨c.home, r.key⟩), c.noteUse r.key r.location)
  | .done outcome => (.done outcome, c)

/-- The largest number of steps that a request takes. -/
def Stage.maxSteps : Nat := 6

/-- So many steps of one request, with nothing in between. -/
def Stage.run (offered : Option (TemplateRef family)) (r : Request family) :
    Nat → Stage family → Cache family → Stage family × Cache family
  | 0, stage, c => (stage, c)
  | n + 1, stage, c =>
    let (stage, c) := stage.advance offered r c
    run offered r n stage c

/-- **A request on its own** gets the answer of `Cache.request` and leaves the cache
that it leaves. -/
theorem Stage.run_start (offered : Option (TemplateRef family)) (r : Request family)
    (c : Cache family) :
    Stage.run offered r Stage.maxSteps .start c =
      (.done (c.request offered r.key r.location).1, (c.request offered r.key r.location).2) := by
  rcases hfind : c.find? r.key with _ | t
  · rcases offered with _ | template
    · rcases hs : c.isSealed <;>
        simp [Stage.run, Stage.maxSteps, Stage.advance, Cache.request, hfind, hs,
          Cache.home_create, Cache.home_record]
    · rcases ha : c.audit r.location <;>
        simp [Stage.run, Stage.maxSteps, Stage.advance, Cache.request, hfind, ha]
  · rcases ha : c.audit r.location with fault | c'
    · simp [Stage.run, Stage.maxSteps, Stage.advance, Cache.request, hfind, ha]
    · have hhome : c'.countHit.home = c'.home := rfl
      simp [Stage.run, Stage.maxSteps, Stage.advance, Cache.request, hfind, ha, hhome]

/-- A race: requests at their stages, over one cache. -/
structure Race (family : Family) where
  cache : Cache family
  runners : List (Request family × Stage family)

namespace Race

/-- The race in which no request has taken a step. -/
def ofRequests (c : Cache family) (requests : List (Request family)) : Race family :=
  ⟨c, requests.map fun r => (r, .start)⟩

/-- Advance the request at a position; nothing happens beyond the last. -/
def step (offered : family.Key → Option (TemplateRef family)) (race : Race family)
    (position : Nat) : Race family :=
  match race.runners[position]? with
  | none => race
  | some (r, stage) =>
    let (stage, cache) := stage.advance (offered r.key) r race.cache
    ⟨cache, race.runners.set position (r, stage)⟩

/-- Advance requests in the given order. -/
def run (offered : family.Key → Option (TemplateRef family)) (race : Race family)
    (schedule : List Nat) : Race family :=
  schedule.foldl (step offered) race

/-- The schedule that lets all requests take one step after another in turn, until
all of them are answered. -/
def inTurns (count : Nat) : List Nat :=
  (List.replicate Stage.maxSteps (List.range count)).flatten

/-- The answers so far. -/
def outcomes (race : Race family) : List (Option (Except Failure (TemplateRef family))) :=
  race.runners.map fun runner =>
    match runner.2 with
    | .done outcome => some outcome
    | _ => none

end Race

end AnonymousTypes
