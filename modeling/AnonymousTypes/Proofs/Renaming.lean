import AnonymousTypes.Proofs.Finishing

/-!
# Handles can be renamed

A handle is a position in the session, so it depends on what else has been started. A
generation stores its own handle and those of the generations that it continues, but all it
does with them is to hand them out: give the generation other handles, and whatever it does it
does as before, up to these handles (`Cache.request_rename`, `Race.run_rename`,
`Generation.finish_rename`).
-/

namespace AnonymousTypes

variable {family : Family} (σ : Handle → Handle)

/-- The reference with its handle renamed. -/
def TemplateRef.rename (r : TemplateRef family) : TemplateRef family := ⟨σ r.home, r.key⟩

namespace Cache

/-- The cache with its handle renamed. -/
def rename (c : Cache family) : Cache family := { c with home := σ c.home }

/-- Templates do not mention handles, so they are found as before. -/
@[simp] theorem find?_rename (c : Cache family) (key : family.Key) :
    (c.rename σ).find? key = c.find? key := rfl

/-! ## Requests -/

@[simp] theorem countHit_rename (c : Cache family) :
    (c.rename σ).countHit = c.countHit.rename σ := rfl

/-- The audit holds locations and no handles. -/
@[simp] theorem record_rename (c : Cache family) (location : Option Location) :
    (c.rename σ).record location = (c.record location).rename σ := by
  cases location <;> rfl

@[simp] theorem noteUse_rename (c : Cache family) (key : family.Key)
    (location : Option Location) :
    (c.rename σ).noteUse key location = (c.noteUse key location).rename σ := by
  cases location <;> rfl

/-- A new template is owned by the generation, by its name and not by its handle. -/
@[simp] theorem create_rename (c : Cache family) (key : family.Key) :
    (c.rename σ).create key = (c.create key).rename σ := by
  rw [create, create, find?_rename]
  split <;> rfl

/-- Auditing does the same whatever the handles are: it accepts the same locations and fails with
the same error. -/
@[simp] theorem audit_rename (c : Cache family) (location : Option Location) :
    (c.rename σ).audit location = (c.audit location).map (rename σ) := by
  rcases location with _ | location
  · rfl
  · rcases hsealed : c.isSealed
    · simp [audit, rename, hsealed, Except.map, record]
    · by_cases hmem : location ∈ c.audited
      · simp [audit, rename, hsealed, hmem, Except.map]
      · simp [audit, rename, hsealed, hmem, Except.map]

/-- **A request** is answered by the renamed template. The offer of the ancestors is renamed
along with the cache: an answer that is passed on is one of theirs. -/
theorem request_rename (c : Cache family) (offered : Option (TemplateRef family))
    (key : family.Key) (location : Option Location) :
    (c.rename σ).request (offered.map (·.rename σ)) key location =
      ((c.request offered key location).1.map (·.rename σ),
        (c.request offered key location).2.rename σ) := by
  rcases hkey : c.find? key with _ | t
  · rcases offered with _ | r
    · -- nobody has the key, so the seal decides
      have hsealed : (c.rename σ).isSealed = c.isSealed := rfl
      simp only [request, find?_rename, hkey, Option.map_none, hsealed, record_rename,
        create_rename, noteUse_rename]
      split <;> rfl
    · simp only [request, find?_rename, hkey, Option.map_some, audit_rename]
      rcases c.audit location with fault | c' <;> rfl
  · simp only [request, find?_rename, hkey, audit_rename]
    rcases c.audit location with fault | c'
    · rfl
    · simp only [Except.map, countHit_rename, noteUse_rename]
      rfl

end Cache

/-! ## Races -/

/-- The stage with its handles renamed. -/
def Stage.rename : Stage family → Stage family
  | .inherited template => .inherited (template.rename σ)
  | .inheritedAudited template => .inheritedAudited (template.rename σ)
  | .done outcome => .done (outcome.map (·.rename σ))
  | stage => stage

/-- One turn of a thread in a race. Only the answers in a stage carry a handle, the stages before
it do not. -/
theorem Stage.advance_rename (offered : Option (TemplateRef family)) (r : Request family)
    (stage : Stage family) (c : Cache family) :
    (stage.rename σ).advance (offered.map (·.rename σ)) r (c.rename σ) =
      ((stage.advance offered r c).1.rename σ, (stage.advance offered r c).2.rename σ) := by
  cases stage with
  | start =>
    simp only [rename, advance, Cache.find?_rename]
    split <;> rfl
  | found | inherited =>
    simp only [rename, advance, Cache.audit_rename]
    rcases c.audit r.location with fault | c' <;> rfl
  | missed => cases offered <;> rfl
  | unanswered =>
    have hsealed : (c.rename σ).isSealed = c.isSealed := rfl
    simp only [rename, advance, hsealed]
    split <;> rfl
  | unsealed =>
    simp only [rename, advance, Cache.record_rename]
  | recorded =>
    simp only [rename, advance, Cache.create_rename]
  | bound | foundCounted =>
    simp only [rename, advance, Cache.noteUse_rename]
    rfl
  | foundAudited | inheritedAudited | done => rfl

namespace Race

/-- The race with its handles renamed. -/
def rename (race : Race family) : Race family :=
  ⟨race.cache.rename σ, race.runners.map fun runner => (runner.1, runner.2.rename σ)⟩

/-- A step of a race is the turn of one thread. -/
theorem step_rename (offered : family.Key → Option (TemplateRef family)) (race : Race family)
    (position : Nat) :
    (race.rename σ).step (fun key => (offered key).map (·.rename σ)) position =
      (race.step offered position).rename σ := by
  rw [step, step, rename, List.getElem?_map]
  rcases race.runners[position]? with _ | ⟨r, stage⟩
  · rfl
  · simp only [Option.map_some, Stage.advance_rename]
    rw [rename, List.map_set]

/-- **A race** takes its course, whatever the handles are. -/
theorem run_rename (offered : family.Key → Option (TemplateRef family)) (race : Race family)
    (schedule : List Nat) :
    (race.rename σ).run (fun key => (offered key).map (·.rename σ)) schedule =
      (race.run offered schedule).rename σ := by
  induction schedule generalizing race with
  | nil => rfl
  | cons position rest ih =>
    rw [run, run, List.foldl_cons, List.foldl_cons, step_rename]
    exact ih _

/-- No thread has an answer at the start, so there only the cache is renamed. -/
theorem ofRequests_rename (c : Cache family) (requests : List (Request family)) :
    ofRequests (c.rename σ) requests = (ofRequests c requests).rename σ := by
  rw [ofRequests, ofRequests, rename, List.map_map]
  rfl

end Race

/-! ## Finalization -/

namespace Cache

theorem name_rename (c : Cache family) (key : family.Key) (identity : Identity) :
    (c.rename σ).name key identity = (c.name key identity).rename σ := rfl

/-- Adopting a recorded identity goes through a request whose answer is thrown away. -/
theorem adopt_rename (c : Cache .shape) (key : ShapeKey) (identity : Identity) :
    (c.rename σ).adopt key identity = (c.adopt key identity).rename σ := by
  have hrequest : ((c.rename σ).request none key none).2 = (c.request none key none).2.rename σ :=
    congrArg Prod.snd (request_rename σ c none key none)
  rw [adopt, hrequest, name_rename, ← adopt]

/-- Carrying forward compares identities, which have no handle in them. -/
theorem carry_rename (c : Cache .shape) (known : ShapeKey → Option Identity)
    (entries : List (ShapeKey × Identity)) :
    (c.rename σ).carry known entries =
      ((c.carry known entries).1, (c.carry known entries).2.rename σ) := by
  induction entries generalizing c with
  | nil => rfl
  | cons e rest ih =>
    obtain ⟨key, identity⟩ := e
    rw [carry, carry, adopt_rename, ih, ih]
    split
    · split <;> rfl
    · rfl

/-- Naming goes by keys and indices. -/
theorem nameAll_rename (c : Cache family) (identityOf : family.Key → UInt32 → Identity)
    (keys : List family.Key) (index : UInt32) :
    (c.rename σ).nameAll identityOf keys index =
      ((c.nameAll identityOf keys index).1, (c.nameAll identityOf keys index).2.rename σ) := by
  induction keys generalizing c index with
  | nil => rfl
  | cons key rest ih =>
    rw [nameAll, nameAll, name_rename]
    split
    · rfl
    · exact ih ..

end Cache

namespace Generation

/-- The generation with its own handle and those that it continues renamed. -/
def rename (g : Generation) : Generation :=
  { g with
    ancestors := g.ancestors.map σ
    shapes := g.shapes.rename σ
    delegates := g.delegates.rename σ }

@[simp] theorem cache_rename (g : Generation) (family : Family) :
    (g.rename σ).cache family = (g.cache family).rename σ := by
  cases family <;> rfl

/-- Renaming commutes with everything that is done to one cache; with the equations for the
caches this carries a step over. -/
@[simp] theorem withCache_rename (g : Generation) (family : Family) (c : Cache family) :
    (g.rename σ).withCache family (c.rename σ) = (g.withCache family c).rename σ := by
  cases family <;> rfl

/-- The name of a generation in messages counts its ancestors and does not depend on their
handles. -/
@[simp] theorem id_rename (g : Generation) : (g.rename σ).id = g.id :=
  congrArg GenerationId.mk (List.length_map ..)

/-- A generation that was just started, seen under other handles. -/
theorem new_rename (h : Handle) (config : OutputConfig) (ancestors : List Handle) :
    (new h config ancestors).rename σ = new (σ h) config (ancestors.map σ) := by
  rw [new, new, List.length_map]
  rfl

/-- **Finalization** names and hands over the same, whatever the handles are. Where it stops, and
with which error, is decided by identities and indices alone. -/
theorem finish_rename (g : Generation) (known : ShapeKey → Option Identity) (start : Numbering)
    (entries : List (ShapeKey × Identity)) :
    (g.rename σ).finish known start entries =
      ((g.finish known start entries).1, (g.finish known start entries).2.rename σ) := by
  have hcarry' : ∀ {answer shapes}, g.shapes.carry known entries = (answer, shapes) →
      (g.shapes.rename σ).carry known entries = (answer, shapes.rename σ) :=
    fun hcarry => by rw [Cache.carry_rename, hcarry]
  have hname' : ∀ {family} {c c' : Cache family} {identityOf keys index answer},
      c.nameAll identityOf keys index = (answer, c') →
      (c.rename σ).nameAll identityOf keys index = (answer, c'.rename σ) :=
    fun hname => by rw [Cache.nameAll_rename, hname]
  -- where finalization stops does not depend on the handles
  have hcases := g.finish_cases known start entries
  generalize g.finish known start entries = out at hcases ⊢
  cases hcases with
  | conflict hcarry => exact finish_of_carry_error (hcarry' hcarry)
  | outOfShapes hcarry hshapes =>
    exact finish_of_shapes_error (hcarry' hcarry) (hname' hshapes)
  | outOfDelegates hcarry hshapes hdelegates =>
    exact finish_of_delegates_error (hcarry' hcarry) (hname' hshapes) (hname' hdelegates)
  | done hcarry hshapes hdelegates =>
    exact finish_of_ok (g := g.rename σ) (hcarry' hcarry) (hname' hshapes) (hname' hdelegates)

end Generation

end AnonymousTypes
