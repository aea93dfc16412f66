import AnonymousTypes.Proofs.Serving

/-!
# Races end as if nobody had raced

A request takes several steps, and between any two of them the steps of other requests
may happen. `Race.Sound` is what every step of a race keeps (`Sound.advance`, put together
from one lemma for each stage): the cache has absorbed what the requests have done so far,
and what a request knows at its stage is still true (`Stage.Valid`).

At the end of a race every request has the outcome that it has on its own in the cache
as it was before the race (`Sound.outcomes_eq`), and the cache has served the requests
that were granted (`Sound.serves`). A single request is a race of one
(`Cache.handles_request`), so this also says what requests do one after another.
-/

namespace AnonymousTypes

variable {family : Family}

namespace Cache

/-! ## Counters -/

/-- The number of requests that were answered. -/
def tally (c : Cache family) : Nat := c.created + c.discarded + c.hits

@[simp] theorem tally_record (c : Cache family) (location : Option Location) :
    (c.record location).tally = c.tally := by
  cases location <;> rfl

@[simp] theorem tally_noteUse (c : Cache family) (key : family.Key)
    (location : Option Location) : (c.noteUse key location).tally = c.tally := by
  cases location <;> rfl

@[simp] theorem tally_create (c : Cache family) (key : family.Key) :
    (c.create key).tally = c.tally + 1 := by
  rw [create]
  split
  · simp only [tally]
    omega
  · simp only [tally]
    omega

theorem tally_of_audit {c c' : Cache family} {location : Option Location}
    (h : c.audit location = .ok c') : c'.tally = c.tally := by
  rcases audit_eq_ok h with rfl | ⟨rfl, -⟩
  · exact tally_record ..
  · rfl

/-- A cache that differs in nothing that was created. -/
structure SameMade (c c' : Cache family) : Prop where
  created_eq : c'.created = c.created
  size_eq : c'.size = c.size

/-- Recording a location makes no template. -/
theorem sameMade_record (c : Cache family) (location : Option Location) :
    c.SameMade (c.record location) := by
  cases location <;> exact ⟨rfl, rfl⟩

theorem sameMade_of_audit {c c' : Cache family} {location : Option Location}
    (h : c.audit location = .ok c') : c.SameMade c' := by
  rcases audit_eq_ok h with rfl | ⟨rfl, -⟩
  · exact sameMade_record ..
  · exact ⟨rfl, rfl⟩

theorem sameMade_noteUse (c : Cache family) (key : family.Key) (location : Option Location) :
    c.SameMade (c.noteUse key location) := by
  cases location with
  | none => exact ⟨rfl, rfl⟩
  | some location => exact ⟨rfl, Table.size_modify ..⟩

/-- Templates that are created are counted. -/
theorem created_create (c : Cache family) (key : family.Key) :
    (c.create key).created + c.size = c.created + (c.create key).size := by
  rw [create]
  split
  · rfl
  · rename_i hnone
    have hsize : (c.entries.addIfVacant key (.ofKey key c.owner)).size = c.entries.size + 1 := by
      rw [Table.size_addIfVacant, if_neg]
      rw [Cache.find?] at hnone
      simp [hnone]
    simp only [size, hsize]
    omega

end Cache

namespace Stage

/-! ## What has happened at a stage -/

/-- Whether the location has been recorded, or passed the audit. -/
def isRecorded : Stage family → Bool
  | .foundAudited | .foundCounted | .inheritedAudited _ | .recorded | .bound => true
  | .done outcome => outcome.isOk
  | _ => false

/-- Whether the key is bound, if it is bound here. -/
def isBound : Stage family → Bool
  | .bound => true
  | .done outcome => outcome.isOk
  | _ => false

/-- Whether the location has been noted. -/
def isNoted : Stage family → Bool
  | .done outcome => outcome.isOk
  | _ => false

/-- Whether the request has been counted. -/
def isCounted : Stage family → Bool
  | .foundCounted | .bound => true
  | .done outcome => outcome.isOk
  | _ => false

/-- What is known about a request at a stage, given the cache `c₀` before the race and
the cache `c` now. -/
def Valid (offer : family.Key → Option (TemplateRef family)) (c₀ c : Cache family)
    (r : Request family) : Stage family → Prop
  | .start => True
  | .found => (c.find? r.key).isSome
  | .foundAudited | .foundCounted =>
    (c.find? r.key).isSome ∧ c₀.outcome offer r = .ok ⟨c₀.home, r.key⟩
  | .missed => c₀.find? r.key = none
  | .inherited template => c₀.find? r.key = none ∧ offer r.key = some template
  | .inheritedAudited template =>
    c₀.find? r.key = none ∧ offer r.key = some template ∧ c₀.outcome offer r = .ok template
  | .unanswered => c₀.find? r.key = none ∧ offer r.key = none
  | .unsealed | .recorded =>
    c₀.find? r.key = none ∧ offer r.key = none ∧ c₀.isSealed = false
  | .bound =>
    c₀.find? r.key = none ∧ offer r.key = none ∧ c₀.isSealed = false ∧ (c.find? r.key).isSome
  | .done outcome =>
    c₀.outcome offer r = outcome ∧
      (outcome.isOk → (c.find? r.key).isSome ∨ (offer r.key).isSome)

variable {offer : family.Key → Option (TemplateRef family)} {c₀ c c' : Cache family}
  {r : Request family} {stage : Stage family}

/-- What is known stays true while keys are added. -/
theorem Valid.mono (h : stage.Valid offer c₀ c r)
    (hkeys : ∀ key, (c.find? key).isSome → (c'.find? key).isSome) :
    stage.Valid offer c₀ c' r := by
  cases stage with
  | found => exact hkeys _ h
  | foundAudited => exact ⟨hkeys _ h.1, h.2⟩
  | foundCounted => exact ⟨hkeys _ h.1, h.2⟩
  | bound => exact ⟨h.1, h.2.1, h.2.2.1, hkeys _ h.2.2.2⟩
  | done outcome => exact ⟨h.1, fun hok => (h.2 hok).imp_left (hkeys _)⟩
  | _ => exact h

/-- A request whose location has been recorded is going to be granted. -/
theorem Valid.grants (h : stage.Valid offer c₀ c r) (hrecorded : stage.isRecorded) :
    c₀.Grants offer r := by
  cases stage with
  | foundAudited => exact ⟨_, h.2⟩
  | foundCounted => exact ⟨_, h.2⟩
  | inheritedAudited template => exact ⟨_, h.2.2⟩
  | recorded => exact Cache.grants_of_open h.2.2
  | bound => exact Cache.grants_of_open h.2.2.1
  | done outcome =>
    rcases outcome with failure | template
    · cases hrecorded
    · exact ⟨template, h.1⟩
  | _ => cases hrecorded

/-- A request binds its key only after its location was recorded. -/
theorem isRecorded_of_isBound (h : stage.isBound) : stage.isRecorded := by
  cases stage with
  | bound => rfl
  | done outcome => exact h
  | _ => cases h

end Stage

namespace Race

/-! ## Requests in a race -/

/-- The requests that have come to a stage of some kind. -/
def At (runners : List (Request family × Stage family)) (kind : Stage family → Bool)
    (r : Request family) : Prop :=
  ∃ stage, (r, stage) ∈ runners ∧ kind stage

variable {pre post : List (Request family × Stage family)} {r : Request family}
  {stage stage' : Stage family} {kind : Stage family → Bool}

/-- A step that does not change the kind of the stage. -/
theorem at_same (h : kind stage' = kind stage) (r' : Request family) :
    At (pre ++ (r, stage) :: post) kind r' ↔ At (pre ++ (r, stage') :: post) kind r' := by
  simp only [At, List.mem_append, List.mem_cons, Prod.mk.injEq]
  constructor
  · rintro ⟨s, hs | ⟨rfl, rfl⟩ | hs, hk⟩
    · exact ⟨s, .inl hs, hk⟩
    · exact ⟨stage', .inr (.inl ⟨rfl, rfl⟩), h ▸ hk⟩
    · exact ⟨s, .inr (.inr hs), hk⟩
  · rintro ⟨s, hs | ⟨rfl, rfl⟩ | hs, hk⟩
    · exact ⟨s, .inl hs, hk⟩
    · exact ⟨stage, .inr (.inl ⟨rfl, rfl⟩), h ▸ hk⟩
    · exact ⟨s, .inr (.inr hs), hk⟩

/-- A step to a stage of the kind adds the request. -/
theorem at_adding (hold : kind stage = false) (hnew : kind stage' = true)
    (r' : Request family) :
    adding (At (pre ++ (r, stage) :: post) kind) r r' ↔
      At (pre ++ (r, stage') :: post) kind r' := by
  simp only [adding, At, List.mem_append, List.mem_cons, Prod.mk.injEq]
  constructor
  · rintro (⟨s, hs | ⟨rfl, rfl⟩ | hs, hk⟩ | rfl)
    · exact ⟨s, .inl hs, hk⟩
    · rw [hold] at hk
      cases hk
    · exact ⟨s, .inr (.inr hs), hk⟩
    · exact ⟨stage', .inr (.inl ⟨rfl, rfl⟩), hnew⟩
  · rintro ⟨s, hs | ⟨rfl, rfl⟩ | hs, hk⟩
    · exact .inl ⟨s, .inl hs, hk⟩
    · exact .inr rfl
    · exact .inl ⟨s, .inr (.inr hs), hk⟩

/-- As `at_same`, among the requests that the earlier generations leave unanswered. -/
theorem bound_same {offer : family.Key → Option (TemplateRef family)}
    (h : kind stage' = kind stage) (r' : Request family) :
    At (pre ++ (r, stage) :: post) kind r' ∧ offer r'.key = none ↔
      At (pre ++ (r, stage') :: post) kind r' ∧ offer r'.key = none :=
  and_congr_left' (at_same h r')

/-- As `at_adding`, among the requests that the earlier generations leave unanswered. -/
theorem bound_adding {offer : family.Key → Option (TemplateRef family)}
    (hold : kind stage = false) (hnew : kind stage' = true) (hoffer : offer r.key = none)
    (r' : Request family) :
    adding (fun r' => At (pre ++ (r, stage) :: post) kind r' ∧ offer r'.key = none) r r' ↔
      At (pre ++ (r, stage') :: post) kind r' ∧ offer r'.key = none := by
  rw [← at_adding hold hnew, adding, adding, or_and_right]
  refine or_congr_right ⟨?_, And.left⟩
  rintro rfl
  exact ⟨rfl, hoffer⟩

/-- A request that they answer does not count. -/
theorem bound_offered {offer : family.Key → Option (TemplateRef family)}
    (hold : kind stage = false) (hnew : kind stage' = true) (hoffer : offer r.key ≠ none)
    (r' : Request family) :
    At (pre ++ (r, stage) :: post) kind r' ∧ offer r'.key = none ↔
      At (pre ++ (r, stage') :: post) kind r' ∧ offer r'.key = none := by
  rw [← at_adding hold hnew, adding, or_and_right, iff_self_or]
  rintro ⟨rfl, h⟩
  exact absurd h hoffer

/-! ## What every step keeps -/

/-- The race stands where it can stand if it started from the cache `c₀`. -/
structure Sound (offer : family.Key → Option (TemplateRef family)) (c₀ : Cache family)
    (race : Race family) : Prop where
  absorbs : c₀.Absorbs (At race.runners Stage.isRecorded)
    (fun r => At race.runners Stage.isBound r ∧ offer r.key = none)
    (At race.runners Stage.isNoted) race.cache
  valid : ∀ r stage, (r, stage) ∈ race.runners → stage.Valid offer c₀ race.cache r
  tally_eq : race.cache.tally =
    c₀.tally + race.runners.countP fun runner => runner.2.isCounted
  created_eq : race.cache.created + c₀.size = c₀.created + race.cache.size

variable {offer : family.Key → Option (TemplateRef family)} {c₀ c c' : Cache family}

/-- **A race that starts** is sound: no request has done anything, and the cache is what it was. -/
theorem sound_ofRequests (offer : family.Key → Option (TemplateRef family))
    (c₀ : Cache family) (requests : List (Request family)) :
    Sound offer c₀ (ofRequests c₀ requests) := by
  have hat : ∀ {kind : Stage family → Bool}, kind .start = false →
      ∀ r, False ↔ At (ofRequests c₀ requests).runners kind r := by
    intro kind hstart r
    refine ⟨False.elim, ?_⟩
    rintro ⟨stage, hmem, hk⟩
    obtain ⟨r', -, he⟩ := List.mem_map.1 hmem
    obtain rfl := (Prod.mk.inj he).2
    rw [hstart] at hk
    cases hk
  refine ⟨(Cache.Absorbs.refl c₀).congr (hat rfl) (fun r => ?_) (hat rfl), ?_, ?_, rfl⟩
  · exact ⟨False.elim, fun h => (hat rfl r).2 h.1⟩
  · intro r stage hmem
    obtain ⟨r', -, he⟩ := List.mem_map.1 hmem
    obtain rfl := (Prod.mk.inj he).2
    trivial
  · rw [ofRequests, List.countP_eq_zero.2]
    · rfl
    · intro x hx
      obtain ⟨r', -, rfl⟩ := List.mem_map.1 hx
      exact Bool.false_ne_true

/-- The race after one request has taken its next step; the others are on both sides of it. -/
def advanced (offer : family.Key → Option (TemplateRef family)) (c : Cache family)
    (pre : List (Request family × Stage family)) (r : Request family) (stage : Stage family)
    (post : List (Request family × Stage family)) : Race family :=
  ⟨(stage.advance (offer r.key) r c).2, pre ++ (r, (stage.advance (offer r.key) r c).1) :: post⟩

namespace Sound

/-- What the request knows whose turn it is. -/
theorem valid_self (h : Sound offer c₀ ⟨c, pre ++ (r, stage) :: post⟩) :
    stage.Valid offer c₀ c r :=
  h.valid r stage (List.mem_append_right _ (List.mem_cons_self ..))

/-- One request goes on to a new stage, and the cache changes with it. -/
theorem replace (h : Sound offer c₀ ⟨c, pre ++ (r, stage) :: post⟩)
    (habsorbs : c₀.Absorbs (At (pre ++ (r, stage') :: post) Stage.isRecorded)
      (fun r' => At (pre ++ (r, stage') :: post) Stage.isBound r' ∧ offer r'.key = none)
      (At (pre ++ (r, stage') :: post) Stage.isNoted) c')
    (hkeys : ∀ key, (c.find? key).isSome → (c'.find? key).isSome)
    (hvalid : stage'.Valid offer c₀ c' r)
    (htally : c'.tally + stage.isCounted.toNat = c.tally + stage'.isCounted.toNat)
    (hcreated : c'.created + c.size = c.created + c'.size) :
    Sound offer c₀ ⟨c', pre ++ (r, stage') :: post⟩ := by
  refine ⟨habsorbs, ?_, ?_, ?_⟩
  · intro r' s hmem
    rcases List.mem_append.1 hmem with hpre | hrest
    · exact (h.valid r' s (List.mem_append_left _ hpre)).mono hkeys
    · rcases List.mem_cons.1 hrest with he | hpost
      · obtain ⟨rfl, rfl⟩ := Prod.mk.inj he
        exact hvalid
      · exact (h.valid r' s (List.mem_append_right _ (List.mem_cons_of_mem _ hpost))).mono hkeys
  · have htotal := h.tally_eq
    simp only [List.countP_append, List.countP_cons] at htotal ⊢
    rcases hc : stage.isCounted <;> rcases hc' : stage'.isCounted <;>
      simp only [hc, hc', Bool.toNat_true, Bool.toNat_false, if_true, if_false,
        Bool.false_eq_true] at htally htotal ⊢ <;> omega
  · have htotal := h.created_eq
    simp only at htotal ⊢
    omega

/-- A step by which nothing is recorded, bound or noted. -/
theorem keep (h : Sound offer c₀ ⟨c, pre ++ (r, stage) :: post⟩)
    (hview : c₀.Absorbs (At (pre ++ (r, stage) :: post) Stage.isRecorded)
      (fun r' => At (pre ++ (r, stage) :: post) Stage.isBound r' ∧ offer r'.key = none)
      (At (pre ++ (r, stage) :: post) Stage.isNoted) c')
    (hrecorded : stage'.isRecorded = stage.isRecorded) (hbound : stage'.isBound = stage.isBound)
    (hnoted : stage'.isNoted = stage.isNoted)
    (hkeys : ∀ key, (c.find? key).isSome → (c'.find? key).isSome)
    (hvalid : stage'.Valid offer c₀ c' r)
    (htally : c'.tally + stage.isCounted.toNat = c.tally + stage'.isCounted.toNat)
    (hcreated : c'.created + c.size = c.created + c'.size) :
    Sound offer c₀ ⟨c', pre ++ (r, stage') :: post⟩ :=
  h.replace (hview.congr (at_same hrecorded) (bound_same hbound)
    (at_same hnoted)) hkeys hvalid htally hcreated

/-- A step that only looks. -/
theorem look (h : Sound offer c₀ ⟨c, pre ++ (r, stage) :: post⟩)
    (hrecorded : stage'.isRecorded = stage.isRecorded) (hbound : stage'.isBound = stage.isBound)
    (hnoted : stage'.isNoted = stage.isNoted) (hcounted : stage'.isCounted = stage.isCounted)
    (hvalid : stage'.Valid offer c₀ c r) : Sound offer c₀ ⟨c, pre ++ (r, stage') :: post⟩ :=
  h.keep h.absorbs hrecorded hbound hnoted (fun _ => id) hvalid (by rw [hcounted]) rfl

/-- The requests whose location has been recorded are going to be granted. -/
theorem grants {race : Race family} (h : Sound offer c₀ race) {r : Request family}
    (hr : At race.runners Stage.isRecorded r) : c₀.Grants offer r := by
  obtain ⟨stage, hmem, hrecorded⟩ := hr
  exact (h.valid r stage hmem).grants hrecorded

/-- **The others do not change the outcome of a request.** Answered now or before the race, it is
the same, since what the others bind and record they would be granted anyway. -/
theorem outcome_eq {race : Race family} (h : Sound offer c₀ race) (r : Request family) :
    race.cache.outcome offer r = c₀.outcome offer r := by
  refine h.absorbs.outcome_eq (fun _ => h.grants) ?_ r
  rintro r ⟨⟨stage, hmem, hbound⟩, hoffer⟩
  exact ⟨h.grants ⟨stage, hmem, Stage.isRecorded_of_isBound hbound⟩, hoffer⟩

/-- A key that the earlier generations offer stays vacant. -/
theorem find?_eq_none {race : Race family} (h : Sound offer c₀ race) {key : family.Key}
    {template : TemplateRef family} (hkey : c₀.find? key = none)
    (hoffer : offer key = some template) : race.cache.find? key = none :=
  h.absorbs.vacant hkey fun r hr hk => by
    rw [← hk, hr.2] at hoffer
    cases hoffer

/-- The location of a request passes the audit. -/
theorem audit (h : Sound offer c₀ ⟨c, pre ++ (r, stage) :: post⟩)
    (haudit : c.audit r.location = .ok c') (hrecorded : stage.isRecorded = false)
    (hrecorded' : stage'.isRecorded = true) (hbound : stage'.isBound = stage.isBound)
    (hnoted : stage'.isNoted = stage.isNoted) (hcounted : stage'.isCounted = stage.isCounted)
    (hvalid : stage'.Valid offer c₀ c r) : Sound offer c₀ ⟨c', pre ++ (r, stage') :: post⟩ := by
  have hkeys : ∀ key, (c.find? key).isSome → (c'.find? key).isSome := fun key hkey => by
    rw [Cache.find?_of_audit haudit]
    exact hkey
  obtain ⟨hcreated, hsize⟩ := Cache.sameMade_of_audit haudit
  refine h.replace ?_ hkeys (hvalid.mono hkeys) ?_ ?_
  · exact (h.absorbs.audit haudit).congr (at_adding hrecorded hrecorded')
      (bound_same hbound) (at_same hnoted)
  · rw [hcounted, Cache.tally_of_audit haudit]
  · rw [hcreated, hsize]

/-- A request fails before it has left any trace. -/
theorem fail (h : Sound offer c₀ ⟨c, pre ++ (r, stage) :: post⟩) {failure : Failure}
    (hfailure : c.outcome offer r = .error failure) (hrecorded : stage.isRecorded = false)
    (hbound : stage.isBound = false) (hnoted : stage.isNoted = false)
    (hcounted : stage.isCounted = false) :
    Sound offer c₀ ⟨c, pre ++ (r, .done (.error failure)) :: post⟩ :=
  h.look hrecorded.symm hbound.symm hnoted.symm hcounted.symm
    ⟨(h.outcome_eq r).symm.trans hfailure, fun hok => by cases hok⟩

/-- A request notes its location, which is the last that it does. -/
theorem note (h : Sound offer c₀ ⟨c, pre ++ (r, stage) :: post⟩)
    (habsorbs : c₀.Absorbs
      (At (pre ++ (r, .done (.ok ⟨c.home, r.key⟩)) :: post) Stage.isRecorded)
      (fun r' => At (pre ++ (r, .done (.ok ⟨c.home, r.key⟩)) :: post) Stage.isBound r' ∧
        offer r'.key = none)
      (At (pre ++ (r, .done (.ok ⟨c.home, r.key⟩)) :: post) Stage.isNoted)
      (c.noteUse r.key r.location))
    (hkey : (c.find? r.key).isSome) (hok : c₀.outcome offer r = .ok ⟨c₀.home, r.key⟩)
    (hcounted : stage.isCounted = true) :
    Sound offer c₀ ⟨c.noteUse r.key r.location,
      pre ++ (r, .done (.ok ⟨c.home, r.key⟩)) :: post⟩ := by
  have hkeys : ∀ key, (c.find? key).isSome → ((c.noteUse r.key r.location).find? key).isSome :=
    fun key hkey => (Cache.isSome_noteUse ..).trans hkey
  have hhome : c.home = c₀.home := Cache.home_of_frame h.absorbs.frame_eq
  obtain ⟨hcreated, hsize⟩ := Cache.sameMade_noteUse c r.key r.location
  refine h.replace habsorbs hkeys ⟨hhome ▸ hok, fun _ => .inl (hkeys _ hkey)⟩ ?_ ?_
  · rw [Cache.tally_noteUse, hcounted]
    rfl
  · rw [hcreated, hsize]

/-! ### The key is looked up -/

/-- The look-up decides between a hit and a miss once and for all: a hit is never lost, and after
a miss the key is bound only if it is still vacant then. -/
theorem advance_start (h : Sound offer c₀ ⟨c, pre ++ (r, .start) :: post⟩) :
    Sound offer c₀ (advanced offer c pre r .start post) := by
  rw [advanced, Stage.advance]
  rcases hkey : c.find? r.key with _ | t
  · refine h.look rfl rfl rfl rfl ?_
    -- keys are never given up, so the key was vacant before the race
    rcases hkey₀ : c₀.find? r.key with _ | t
    · exact hkey₀
    · have hsome := h.absorbs.isSome_of_isSome (Option.isSome_of_eq_some hkey₀)
      rw [hkey] at hsome
      cases hsome
  · exact h.look rfl rfl rfl rfl (Option.isSome_of_eq_some hkey)

/-- What the earlier generations offer does not change in a race, so asking them can wait. -/
theorem advance_missed (h : Sound offer c₀ ⟨c, pre ++ (r, .missed) :: post⟩) :
    Sound offer c₀ (advanced offer c pre r .missed post) := by
  have hkey₀ : c₀.find? r.key = none := h.valid_self
  rw [advanced]
  rcases hoffer : offer r.key with _ | template
  · exact h.look rfl rfl rfl rfl ⟨hkey₀, hoffer⟩
  · exact h.look rfl rfl rfl rfl ⟨hkey₀, hoffer⟩

/-! ### The cache holds the key -/

/-- The audit comes after the look-up, and at a sealed cache it can still fail. -/
theorem advance_found (h : Sound offer c₀ ⟨c, pre ++ (r, .found) :: post⟩) :
    Sound offer c₀ (advanced offer c pre r .found post) := by
  have hsome : (c.find? r.key).isSome := h.valid_self
  obtain ⟨t, hkey⟩ := Option.isSome_iff_exists.1 hsome
  rw [advanced, Stage.advance]
  rcases haudit : c.audit r.location with fault | c'
  · have hfault : c.outcome offer r = .error (.fault fault) := by
      simp [Cache.outcome, Cache.request, hkey, haudit]
    exact h.fail hfault rfl rfl rfl rfl
  · have hok : c.outcome offer r = .ok ⟨c.home, r.key⟩ := by
      simp [Cache.outcome, Cache.request, hkey, haudit, Cache.home_of_audit haudit]
    rw [h.outcome_eq r, Cache.home_of_frame h.absorbs.frame_eq] at hok
    exact h.audit haudit rfl rfl rfl rfl rfl ⟨hsome, hok⟩

/-- The hit is counted before the use is noted. -/
theorem advance_foundAudited (h : Sound offer c₀ ⟨c, pre ++ (r, .foundAudited) :: post⟩) :
    Sound offer c₀ (advanced offer c pre r .foundAudited post) :=
  h.keep h.absorbs.countHit rfl rfl rfl (fun _ => id) h.valid_self rfl rfl

/-- The key is bound already, so it does no harm to count the request among the binding ones, as
the end of the race wants it. -/
theorem advance_foundCounted (h : Sound offer c₀ ⟨c, pre ++ (r, .foundCounted) :: post⟩) :
    Sound offer c₀ (advanced offer c pre r .foundCounted post) := by
  obtain ⟨hkey, hok⟩ := h.valid_self
  have hnoted := h.absorbs.noteUse r
  refine h.note ?_ hkey hok rfl
  by_cases hoffer : offer r.key = none
  · exact (hnoted.bind_present ((Cache.isSome_noteUse ..).trans hkey)).congr (at_same rfl)
      (bound_adding rfl rfl hoffer) (at_adding rfl rfl)
  · exact hnoted.congr (at_same rfl) (bound_offered rfl rfl hoffer) (at_adding rfl rfl)

/-! ### An earlier generation answers -/

/-- Nobody binds a key that is inherited, so the request has the outcome that it has now. -/
theorem advance_inherited {template : TemplateRef family}
    (h : Sound offer c₀ ⟨c, pre ++ (r, .inherited template) :: post⟩) :
    Sound offer c₀ (advanced offer c pre r (.inherited template) post) := by
  obtain ⟨hkey₀, hoffer⟩ := h.valid_self
  have hkey : c.find? r.key = none := h.find?_eq_none hkey₀ hoffer
  rw [advanced, Stage.advance]
  rcases haudit : c.audit r.location with fault | c'
  · have hfault : c.outcome offer r = .error (.fault fault) := by
      simp [Cache.outcome, Cache.request, hkey, hoffer, haudit]
    exact h.fail hfault rfl rfl rfl rfl
  · have hok : c.outcome offer r = .ok template := by
      simp [Cache.outcome, Cache.request, hkey, hoffer, haudit]
    exact h.audit haudit rfl rfl rfl rfl rfl ⟨hkey₀, hoffer, h.outcome_eq r ▸ hok⟩

/-- The location goes nowhere: inherited templates are not changed. -/
theorem advance_inheritedAudited {template : TemplateRef family}
    (h : Sound offer c₀ ⟨c, pre ++ (r, .inheritedAudited template) :: post⟩) :
    Sound offer c₀ (advanced offer c pre r (.inheritedAudited template) post) := by
  obtain ⟨hkey₀, hoffer, hok⟩ := h.valid_self
  have hkey : c.find? r.key = none := h.find?_eq_none hkey₀ hoffer
  have hdone : (Stage.done (.ok template)).Valid offer c₀ c.countHit r :=
    ⟨hok, fun _ => .inr (Option.isSome_of_eq_some hoffer)⟩
  refine h.replace ?_ (fun _ => id) hdone rfl rfl
  exact (h.absorbs.countHit.note_absent hkey).congr (at_same rfl)
    (bound_offered rfl rfl (by rw [hoffer]; exact Option.some_ne_none _)) (at_adding rfl rfl)

/-! ### Nobody answers, and the key is bound -/

/-- The seal is not set in a race, so it can be read at any time. -/
theorem advance_unanswered (h : Sound offer c₀ ⟨c, pre ++ (r, .unanswered) :: post⟩) :
    Sound offer c₀ (advanced offer c pre r .unanswered post) := by
  obtain ⟨hkey₀, hoffer⟩ := h.valid_self
  have hsealed : c.isSealed = c₀.isSealed := Cache.isSealed_of_frame h.absorbs.frame_eq
  rw [advanced, Stage.advance]
  rcases hs : c.isSealed
  · exact h.look rfl rfl rfl rfl ⟨hkey₀, hoffer, hsealed.symm.trans hs⟩
  · have hout := Cache.outcome_of_sealed hkey₀ hoffer (hsealed.symm.trans hs)
    exact h.fail ((h.outcome_eq r).trans hout) rfl rfl rfl rfl

/-- The location is recorded before the key is bound. In between, others may find it recorded
without a template for it, which none of them can tell. -/
theorem advance_unsealed (h : Sound offer c₀ ⟨c, pre ++ (r, .unsealed) :: post⟩) :
    Sound offer c₀ (advanced offer c pre r .unsealed post) := by
  obtain ⟨hcreated, hsize⟩ := Cache.sameMade_record c r.location
  rw [advanced, Stage.advance]
  refine h.replace ?_ (fun key hkey => ?_) h.valid_self ?_ ?_
  · exact (h.absorbs.record r).congr (at_adding rfl rfl) (bound_same rfl) (at_same rfl)
  · rw [Cache.find?_record]
    exact hkey
  · rw [Cache.tally_record]
    rfl
  · rw [hcreated, hsize]

/-- **The winner of a race** makes the template, the others come too late. Nothing was noted at
the key while it was vacant: a request that has noted its location has found the key bound. -/
theorem advance_recorded (h : Sound offer c₀ ⟨c, pre ++ (r, .recorded) :: post⟩) :
    Sound offer c₀ (advanced offer c pre r .recorded post) := by
  obtain ⟨hkey₀, hoffer, hopen⟩ := h.valid_self
  have hself : ((c.create r.key).find? r.key).isSome := by
    rw [Cache.find?_create_self]
    rfl
  refine h.replace ?_ (fun key hkey => Cache.isSome_create hkey _)
    ⟨hkey₀, hoffer, hopen, hself⟩ (Cache.tally_create ..) (Cache.created_create ..)
  refine (h.absorbs.create ?_).congr (at_same rfl) (bound_adding rfl rfl hoffer) (at_same rfl)
  rintro hkey r' ⟨s, hmem, hnoted⟩ hk
  cases s with
  | done outcome =>
    have hbound := (h.valid r' _ hmem).2 hnoted
    rw [hk, hkey, hoffer] at hbound
    rcases hbound with hb | hb <;> cases hb
  | _ => cases hnoted

/-- Whoever made the template, this request notes its own location. -/
theorem advance_bound (h : Sound offer c₀ ⟨c, pre ++ (r, .bound) :: post⟩) :
    Sound offer c₀ (advanced offer c pre r .bound post) := by
  obtain ⟨hkey₀, hoffer, hopen, hkey⟩ := h.valid_self
  have hok : c₀.outcome offer r = .ok ⟨c₀.home, r.key⟩ :=
    Cache.outcome_eq_ok_iff.2 (.inr (.inr ⟨hkey₀, hoffer, hopen, rfl⟩))
  exact h.note ((h.absorbs.noteUse r).congr (at_same rfl) (bound_same rfl)
    (at_adding rfl rfl)) hkey hok rfl

/-! ### Any step, and any number of them -/

/-- **Every step keeps the race sound.** There is one case for each stage, and none of them looks
at the stages of the others. -/
theorem advance (h : Sound offer c₀ ⟨c, pre ++ (r, stage) :: post⟩) :
    Sound offer c₀ (advanced offer c pre r stage post) := by
  cases stage with
  | start => exact h.advance_start
  | found => exact h.advance_found
  | foundAudited => exact h.advance_foundAudited
  | foundCounted => exact h.advance_foundCounted
  | missed => exact h.advance_missed
  | inherited template => exact h.advance_inherited
  | inheritedAudited template => exact h.advance_inheritedAudited
  | unanswered => exact h.advance_unanswered
  | unsealed => exact h.advance_unsealed
  | recorded => exact h.advance_recorded
  | bound => exact h.advance_bound
  | done outcome => exact h

/-- A step is the next one of some request; a position where there is none does nothing. -/
theorem step {race : Race family} (h : Sound offer c₀ race) (position : Nat) :
    Sound offer c₀ (race.step offer position) := by
  obtain ⟨c, runners⟩ := race
  rw [Race.step]
  rcases hrunner : runners[position]? with _ | ⟨r, stage⟩
  · exact h
  · obtain ⟨hlt, hget⟩ := List.getElem?_eq_some_iff.1 hrunner
    have hsplit : runners =
        runners.take position ++ (r, stage) :: runners.drop (position + 1) := by
      rw [← hget, List.getElem_cons_drop, List.take_append_drop]
    rw [hsplit] at h
    simp only [List.set_eq_take_append_cons_drop, if_pos hlt]
    exact h.advance

/-- So every interleaving keeps the race sound, finished or not. -/
theorem run {race : Race family} (h : Sound offer c₀ race) (schedule : List Nat) :
    Sound offer c₀ (race.run offer schedule) := by
  induction schedule generalizing race with
  | nil => exact h
  | cons position schedule ih => exact ih (h.step position)

end Sound

/-- Requests keep their places. -/
theorem requests_step (offer : family.Key → Option (TemplateRef family)) (race : Race family)
    (position : Nat) :
    (race.step offer position).runners.map Prod.fst = race.runners.map Prod.fst := by
  rw [Race.step]
  rcases hrunner : race.runners[position]? with _ | ⟨r, stage⟩
  · rfl
  · obtain ⟨hlt, hget⟩ := List.getElem?_eq_some_iff.1 hrunner
    simp only [List.map_set]
    refine List.ext_getElem (by simp) fun i hi hi' => ?_
    rw [List.getElem_set]
    split
    · rename_i he
      subst he
      rw [List.getElem_map, hget]
    · rfl

/-- A race may reorder the steps, but not the requests. -/
theorem requests_run (offer : family.Key → Option (TemplateRef family)) (race : Race family)
    (schedule : List Nat) :
    (race.run offer schedule).runners.map Prod.fst = race.runners.map Prod.fst := by
  induction schedule generalizing race with
  | nil => rfl
  | cons position schedule ih => exact (ih _).trans (requests_step offer race position)

/-- At the start there is one runner for each request. -/
theorem requests_ofRequests (c : Cache family) (requests : List (Request family)) :
    (ofRequests c requests).runners.map Prod.fst = requests := by
  rw [ofRequests, List.map_map]
  exact List.map_id _

/-! ## The end of a race -/

/-- All requests are answered. -/
def Finished (race : Race family) : Prop :=
  ∀ r stage, (r, stage) ∈ race.runners → ∃ outcome, stage = .done outcome

namespace Sound

variable {race : Race family}

/-- **The outcome of a request** in a race is the one that it has on its own. -/
theorem outcomes_eq (h : Sound offer c₀ race) (hfinished : race.Finished) :
    race.outcomes = race.runners.map fun runner => some (c₀.outcome offer runner.1) := by
  refine List.map_congr_left ?_
  rintro ⟨r, stage⟩ hmem
  obtain ⟨outcome, rfl⟩ := hfinished r stage hmem
  exact congrArg some (h.valid r _ hmem).1.symm

/-- At the end a request has come to a stage of some kind if it was granted. -/
theorem at_iff (h : Sound offer c₀ race) (hfinished : race.Finished)
    {kind : Stage family → Bool} (hkind : ∀ outcome, kind (.done outcome) = outcome.isOk)
    (r : Request family) :
    At race.runners kind r ↔ r ∈ race.runners.map Prod.fst ∧ c₀.Grants offer r := by
  constructor
  · rintro ⟨stage, hmem, hk⟩
    obtain ⟨outcome, rfl⟩ := hfinished r stage hmem
    rw [hkind] at hk
    exact ⟨List.mem_map_of_mem (f := Prod.fst) hmem, (h.valid r _ hmem).grants hk⟩
  · rintro ⟨hmem, template, hgrant⟩
    obtain ⟨⟨r, stage⟩, hrunner, rfl⟩ := List.mem_map.1 hmem
    obtain ⟨outcome, rfl⟩ := hfinished r stage hrunner
    refine ⟨_, hrunner, ?_⟩
    rw [hkind, ← (h.valid r _ hrunner).1, hgrant]
    rfl

/-- **The cache after a race** has served the requests that are granted. -/
theorem serves (h : Sound offer c₀ race) (hfinished : race.Finished) :
    c₀.Serves offer (fun r => r ∈ race.runners.map Prod.fst ∧ c₀.Grants offer r)
      race.cache where
  grants _ hr := hr.2
  absorbs := h.absorbs.congr (h.at_iff hfinished fun _ => rfl)
    (fun r => and_congr_left' (h.at_iff hfinished (fun _ => rfl) r))
    (h.at_iff hfinished fun _ => rfl)

/-- Every request that is granted is counted once, as created, as discarded or as a hit, and the
others are not counted. -/
theorem tally_of_finished (h : Sound offer c₀ race) (hfinished : race.Finished) :
    race.cache.tally = c₀.tally +
      (race.runners.map Prod.fst).countP fun r => (c₀.outcome offer r).isOk := by
  rw [h.tally_eq, List.countP_map]
  congr 1
  refine List.countP_congr ?_
  rintro ⟨r, stage⟩ hmem
  obtain ⟨outcome, rfl⟩ := hfinished r stage hmem
  rw [Function.comp, (h.valid r _ hmem).1]
  rfl

end Sound

end Race

/-! ## Races that are known to end -/

namespace Stage

/-- A bound on the number of steps that are left. -/
def left : Stage family → Nat
  | .start => 6
  | .missed => 5
  | .unanswered => 4
  | .found | .unsealed => 3
  | .foundAudited | .inherited _ | .recorded => 2
  | .foundCounted | .inheritedAudited _ | .bound => 1
  | .done _ => 0

theorem left_advance (offered : Option (TemplateRef family)) (r : Request family)
    (stage : Stage family) (c : Cache family) :
    (stage.advance offered r c).1.left ≤ stage.left - 1 := by
  cases stage with
  | start | found | missed | unanswered =>
    simp only [advance]
    split <;> simp [left]
  | inherited template =>
    simp only [advance]
    split <;> simp [left]
  | _ => simp [advance, left]

theorem eq_done_of_left {stage : Stage family} (h : stage.left = 0) :
    ∃ outcome, stage = .done outcome := by
  cases stage with
  | done outcome => exact ⟨outcome, rfl⟩
  | _ => cases h

end Stage

namespace Race

variable {offer : family.Key → Option (TemplateRef family)}

/-- A step brings the request at its position nearer to the end, and no other request. -/
theorem left_step {race : Race family} {position i : Nat} {r : Request family}
    {stage : Stage family}
    (h : (race.step offer position).runners[i]? = some (r, stage)) :
    ∃ stage₀, race.runners[i]? = some (r, stage₀) ∧
      stage.left ≤ stage₀.left - if position = i then 1 else 0 := by
  rw [Race.step] at h
  rcases hrunner : race.runners[position]? with _ | ⟨r', stage'⟩
  · rw [hrunner] at h
    refine ⟨stage, h, ?_⟩
    by_cases hi : position = i
    · subst hi
      rw [hrunner] at h
      cases h
    · rw [if_neg hi]
      exact Nat.le_refl _
  · simp only [hrunner] at h
    obtain ⟨hlt, -⟩ := List.getElem?_eq_some_iff.1 hrunner
    by_cases hi : position = i
    · subst hi
      rw [List.getElem?_set_self hlt] at h
      obtain ⟨rfl, rfl⟩ := Prod.mk.inj (Option.some.inj h)
      exact ⟨stage', hrunner, by rw [if_pos rfl]; exact Stage.left_advance ..⟩
    · rw [List.getElem?_set_ne hi] at h
      exact ⟨stage, h, by rw [if_neg hi]; exact Nat.le_refl _⟩

theorem left_run {race : Race family} {schedule : List Nat} {i : Nat} {r : Request family}
    {stage : Stage family}
    (h : (race.run offer schedule).runners[i]? = some (r, stage)) :
    ∃ stage₀, race.runners[i]? = some (r, stage₀) ∧
      stage.left ≤ stage₀.left - schedule.count i := by
  induction schedule generalizing race with
  | nil => exact ⟨stage, h, Nat.le_refl _⟩
  | cons position schedule ih =>
    obtain ⟨stage₁, h₁, hle₁⟩ := ih h
    obtain ⟨stage₀, h₀, hle₀⟩ := left_step h₁
    refine ⟨stage₀, h₀, ?_⟩
    rw [List.count_cons]
    simp only [beq_iff_eq]
    split at hle₀ <;> split <;> omega

/-- A race ends when everybody has had enough turns. -/
theorem finished_run {race : Race family} {schedule : List Nat}
    (h : ∀ i, i < race.runners.length → Stage.maxSteps ≤ schedule.count i) :
    (race.run offer schedule).Finished := by
  intro r stage hmem
  obtain ⟨i, hi, hget⟩ := List.getElem_of_mem hmem
  obtain ⟨stage₀, h₀, hle⟩ := left_run (List.getElem?_eq_some_iff.2 ⟨hi, hget⟩)
  obtain ⟨hi₀, -⟩ := List.getElem?_eq_some_iff.1 h₀
  have hturns := h i hi₀
  have hbound : stage₀.left ≤ Stage.maxSteps := by
    cases stage₀ <;> simp [Stage.left, Stage.maxSteps]
  exact Stage.eq_done_of_left (by omega)

theorem finished_inTurns (c : Cache family) (requests : List (Request family)) :
    ((ofRequests c requests).run offer (inTurns requests.length)).Finished := by
  refine finished_run fun i hi => ?_
  rw [ofRequests, List.length_map] at hi
  have hcount : (List.range requests.length).count i = 1 := by
    rw [List.count_range, if_pos hi]
  simp [inTurns, hcount, Stage.maxSteps]

/-- A race of one runner: its turns are the steps of the request. -/
theorem run_replicate (c : Cache family) (r : Request family) (n : Nat) (stage : Stage family) :
    Race.run offer ⟨c, [(r, stage)]⟩ (List.replicate n 0) =
      ⟨(Stage.run (offer r.key) r n stage c).2,
        [(r, (Stage.run (offer r.key) r n stage c).1)]⟩ := by
  induction n generalizing c stage with
  | zero => rfl
  | succ n ih => exact ih _ _

end Race

namespace Cache

variable {offer : family.Key → Option (TemplateRef family)}

theorem sound_request (c : Cache family) (r : Request family) :
    Race.Sound offer c
      ⟨(c.request (offer r.key) r.key r.location).2, [(r, .done (c.outcome offer r))]⟩ := by
  have hsound := (Race.sound_ofRequests offer c [r]).run (List.replicate Stage.maxSteps 0)
  rwa [Race.ofRequests, List.map_singleton, Race.run_replicate, Stage.run_start] at hsound

theorem finished_request (c c' : Cache family) (r : Request family) :
    Race.Finished ⟨c', [(r, .done (c.outcome offer r))]⟩ := by
  intro r' stage hmem
  obtain ⟨rfl, rfl⟩ := Prod.mk.inj (List.mem_singleton.1 hmem)
  exact ⟨_, rfl⟩

/-! ## Requests that are handled -/

/-- `c'` is what becomes of `c` when the requests are made and answered, in whatever order
and however their steps are interleaved. -/
structure Handles (offer : family.Key → Option (TemplateRef family)) (c : Cache family)
    (requests : List (Request family)) (c' : Cache family) : Prop where
  serves : c.Serves offer (fun r => r ∈ requests ∧ c.Grants offer r) c'
  tally_eq : c'.tally = c.tally + requests.countP fun r => (c.outcome offer r).isOk
  created_eq : c'.created + c.size = c.created + c'.size

namespace Handles

variable {c c' c'' : Cache family} {requests requests' : List (Request family)}

theorem nil (c : Cache family) : c.Handles offer [] c where
  serves := (Serves.refl c).congr fun r => by simp
  tally_eq := rfl
  created_eq := rfl

theorem append (h : c.Handles offer requests c') (h' : c'.Handles offer requests' c'') :
    c.Handles offer (requests ++ requests') c'' where
  serves := (h.serves.trans h'.serves).congr fun r => by
    rw [h.serves.grants_iff, List.mem_append, or_and_right]
  tally_eq := by
    simp only [h'.tally_eq, h.tally_eq, h.serves.outcome_eq, List.countP_append, Nat.add_assoc]
  created_eq := by
    have hfirst := h.created_eq
    have hsecond := h'.created_eq
    omega

/-- **The order does not matter**, and neither does the interleaving. -/
theorem alike_of_perm (h : c.Handles offer requests c') (h' : c.Handles offer requests' c'')
    (hperm : requests.Perm requests') : c'.Alike c'' := by
  refine h.serves.alike (h'.serves.congr fun r => ?_)
  rw [hperm.mem_iff]

theorem created_eq_of_perm (h : c.Handles offer requests c')
    (h' : c.Handles offer requests' c'') (hperm : requests.Perm requests') :
    c''.created = c'.created := by
  have hsize := (h.alike_of_perm h' hperm).size_eq
  have hcreated := h.created_eq
  have hcreated' := h'.created_eq
  omega

theorem found_eq_of_perm (h : c.Handles offer requests c')
    (h' : c.Handles offer requests' c'') (hperm : requests.Perm requests') :
    c''.hits + c''.discarded = c'.hits + c'.discarded := by
  have hcreated := h.created_eq_of_perm h' hperm
  have htally : c''.tally = c'.tally := by rw [h.tally_eq, h'.tally_eq, hperm.countP_eq]
  rw [tally, tally] at htally
  omega

end Handles

/-- **A race** that has come to its end has handled the requests. -/
theorem handles_race {c : Cache family} {race : Race family} (h : Race.Sound offer c race)
    (hfinished : race.Finished) : c.Handles offer (race.runners.map Prod.fst) race.cache :=
  ⟨h.serves hfinished, h.tally_of_finished hfinished, h.created_eq⟩

/-- So does a request on its own, which is a race of one. -/
theorem handles_request (c : Cache family) (r : Request family) :
    c.Handles offer [r] (c.request (offer r.key) r.key r.location).2 :=
  handles_race (c.sound_request r) (c.finished_request _ r)

/-- However requests take their steps, they are answered, each as on its own. -/
theorem handles_ofRequests (c : Cache family) (requests : List (Request family))
    {schedule : List Nat} (hfinished : ((Race.ofRequests c requests).run offer schedule).Finished) :
    ((Race.ofRequests c requests).run offer schedule).outcomes.filterMap id =
        requests.map (c.outcome offer) ∧
      c.Handles offer requests ((Race.ofRequests c requests).run offer schedule).cache := by
  have hsound := (Race.sound_ofRequests offer c requests).run schedule
  have hrequests := (Race.requests_run offer (Race.ofRequests c requests) schedule).trans
    (Race.requests_ofRequests ..)
  constructor
  · refine (congrArg (List.filterMap id) (hsound.outcomes_eq hfinished)).trans ?_
    refine Eq.trans ?_ (congrArg (List.map _) hrequests)
    rw [List.filterMap_map, List.map_map]
    exact congrFun List.filterMap_eq_map _
  · have hhandles := handles_race hsound hfinished
    rwa [hrequests] at hhandles

end Cache

end AnonymousTypes
