import AnonymousTypes.Definition
import AnonymousTypes.Failure
import AnonymousTypes.Table

/-!
# Caches

A generation keeps one cache per family. It binds a key to the one `Template`
that stands for the type with that key, creating it on first demand. A request
may carry the location it was made from; the template remembers the earliest one,
because finalization names types in the order in which the source mentions them.

Three things make a request more than a lookup.

* **Inheritance.** A key may be answered by a template of an earlier generation.
  Whether it is, the session finds out (`AnonymousTypes.Session`); here it is an
  argument. Inherited templates are shared and never changed.
* **Sealing.** Once sealed, a cache accepts no new key.
* **Audit.** Before sealing, a cache collects the locations of all requests. After
  sealing, a request that can be answered must come from one of these locations;
  another one means that something was bound too late, which is a fault.

`Cache.request` is put together from small steps: `audit`, `countHit`, `record`,
`create` and `noteUse`. Each of them is atomic, so `AnonymousTypes.Cache.Race` can
interleave the steps of several requests.
-/

namespace AnonymousTypes

/-- A generation of a session, by its position there. -/
abbrev Handle : Type := Nat

/-- Stands for the earliest location of a template that was never requested from
one. Every order key compares at most equal to it. -/
def noLocation : UInt64 := 0xFFFFFFFFFFFFFFFF

/-- The type with one key, as long as the compilation works on it. -/
structure Template (family : Family) where
  /-- what the type is -/
  key : family.Key
  /-- the generation that created the template -/
  owner : GenerationId
  /-- the order key of the earliest location it was requested from; delegates have it
  only because templates are of one type, and nothing reads it for them -/
  earliest : UInt64
  /-- name and index, once finalization has assigned them -/
  identity : Option Identity

namespace Template

variable {family : Family}

/-- A template that was neither used nor named yet. -/
def ofKey (key : family.Key) (owner : GenerationId) : Template family :=
  ⟨key, owner, noLocation, none⟩

/-- The order key of the earliest location, if there is any. -/
def earliest? (t : Template family) : Option UInt64 :=
  if t.earliest = noLocation then none else some t.earliest

/-- Whether finalization has assigned an identity. -/
def isNamed (t : Template family) : Bool := t.identity.isSome

/-- Take a location into account. -/
def noteUse (t : Template family) (location : Location) : Template family :=
  { t with earliest := min t.earliest location.orderKey }

end Template

/-- A template of a session: the generation whose cache holds it, and its key. A
key is bound once and for all, so this pair is as good as the template itself. -/
structure TemplateRef (family : Family) where
  home : Handle
  key : family.Key
  deriving DecidableEq

/-- The templates of one family that a generation has created. -/
structure Cache (family : Family) where
  /-- the generation, by its position in the session -/
  home : Handle
  /-- the generation, by its position in the chain -/
  owner : GenerationId
  /-- whether finalization seals the cache -/
  seals : Bool
  /-- the templates -/
  entries : Table family.Key (Template family)
  /-- the locations of the requests made before sealing, each of them once -/
  audited : List Location
  /-- whether new keys are refused -/
  isSealed : Bool
  /-- the number of templates created -/
  created : Nat
  /-- the number of requests that found the key taken when they came to bind it -/
  discarded : Nat
  /-- the number of requests answered by an existing template -/
  hits : Nat

namespace Cache

variable {family : Family}

/-- The cache of a new generation. -/
def new (home : Handle) (owner : GenerationId) (seals : Bool) : Cache family where
  home
  owner
  seals
  entries := .empty
  audited := []
  isSealed := false
  created := 0
  discarded := 0
  hits := 0

/-- The template that the cache itself holds for a key. -/
def find? (c : Cache family) (key : family.Key) : Option (Template family) :=
  c.entries.find? key

/-- The templates of the cache. -/
def templates (c : Cache family) : List (Template family) := c.entries.values

/-- The number of templates. -/
def size (c : Cache family) : Nat := c.entries.size

/-! ## The steps of a request -/

/-- Remember the location of a request, if it has one. -/
def record (c : Cache family) : Option Location → Cache family
  | none => c
  | some location => { c with audited := c.audited.insert location }

/-- Check or remember the location of a request that can be answered. -/
def audit (c : Cache family) : Option Location → Except Fault (Cache family)
  | none => .ok c
  | some location =>
    if c.isSealed then
      if location ∈ c.audited then .ok c else .error (.lateUse family location)
    else .ok (c.record (some location))

/-- Count a request that an existing template answers. -/
def countHit (c : Cache family) : Cache family := { c with hits := c.hits + 1 }

/-- Take the location of a request into account at the template of its key. -/
def noteUse (c : Cache family) (key : family.Key) : Option Location → Cache family
  | none => c
  | some location => { c with entries := c.entries.modify key (·.noteUse location) }

/-- Bind a key to a new template, unless the key has been bound in the meantime. -/
def create (c : Cache family) (key : family.Key) : Cache family :=
  match c.find? key with
  | some _ => { c with discarded := c.discarded + 1 }
  | none =>
    { c with
      entries := c.entries.addIfVacant key (.ofKey key c.owner)
      created := c.created + 1 }

theorem home_record (c : Cache family) (location : Option Location) :
    (c.record location).home = c.home := by
  cases location <;> rfl

theorem home_create (c : Cache family) (key : family.Key) : (c.create key).home = c.home := by
  rw [create]
  split <;> rfl

theorem home_of_audit {c c' : Cache family} {location : Option Location}
    (h : c.audit location = .ok c') : c'.home = c.home := by
  rcases location with _ | location
  · cases h
    rfl
  · rw [audit] at h
    split at h
    · split at h <;> cases h
      rfl
    · cases h
      rfl

/-- The failure of a request for a new key in a sealed cache. -/
def sealedFailure (key : family.Key) : Failure :=
  .rejected (.insertAfterSeal family (family.keyText key))

/-- Ask for the template of a key; `inherited` is the template that the earlier
generations offer for it. The answer is the cache's own template if there is one,
else the inherited one, else a new one. A request that fails changes nothing. -/
def request (c : Cache family) (inherited : Option (TemplateRef family)) (key : family.Key)
    (location : Option Location) : Except Failure (TemplateRef family) × Cache family :=
  match c.find? key, inherited with
  | some _, _ =>
    match c.audit location with
    | .error fault => (.error (.fault fault), c)
    | .ok c => (.ok ⟨c.home, key⟩, c.countHit.noteUse key location)
  | none, some template =>
    match c.audit location with
    | .error fault => (.error (.fault fault), c)
    | .ok c => (.ok template, c.countHit)
  | none, none =>
    if c.isSealed then (.error (sealedFailure key), c)
    else (.ok ⟨c.home, key⟩, ((c.record location).create key).noteUse key location)

/-! ## The other operations -/

/-- Refuse new keys from now on, if the cache is one that seals. -/
def close (c : Cache family) : Cache family := { c with isSealed := c.isSealed || c.seals }

/-- Change the template of a key. -/
def modify (c : Cache family) (key : family.Key)
    (change : Template family → Template family) : Cache family :=
  { c with entries := c.entries.modify key change }

/-! ## What the steps do to the view

The steps of a request leave the `frame` of a cache alone; what they do to the
templates is seen through `Cache.find?`. -/

/-- What no request changes about a cache. -/
structure Frame where
  home : Handle
  owner : GenerationId
  seals : Bool
  isSealed : Bool

/-- The part of the cache that no request changes. -/
def frame (c : Cache family) : Frame := ⟨c.home, c.owner, c.seals, c.isSealed⟩

theorem home_of_frame {c c' : Cache family} (h : c'.frame = c.frame) : c'.home = c.home :=
  congrArg Frame.home h

theorem owner_of_frame {c c' : Cache family} (h : c'.frame = c.frame) : c'.owner = c.owner :=
  congrArg Frame.owner h

theorem seals_of_frame {c c' : Cache family} (h : c'.frame = c.frame) : c'.seals = c.seals :=
  congrArg Frame.seals h

theorem isSealed_of_frame {c c' : Cache family} (h : c'.frame = c.frame) :
    c'.isSealed = c.isSealed :=
  congrArg Frame.isSealed h

@[simp] theorem frame_record (c : Cache family) (location : Option Location) :
    (c.record location).frame = c.frame := by
  cases location <;> rfl

@[simp] theorem frame_countHit (c : Cache family) : c.countHit.frame = c.frame := rfl

@[simp] theorem frame_noteUse (c : Cache family) (key : family.Key)
    (location : Option Location) : (c.noteUse key location).frame = c.frame := by
  cases location <;> rfl

@[simp] theorem frame_create (c : Cache family) (key : family.Key) :
    (c.create key).frame = c.frame := by
  rw [create]
  split <;> rfl

@[simp] theorem find?_record (c : Cache family) (location : Option Location)
    (key : family.Key) : (c.record location).find? key = c.find? key := by
  cases location <;> rfl

@[simp] theorem find?_countHit (c : Cache family) (key : family.Key) :
    c.countHit.find? key = c.find? key := rfl

@[simp] theorem find?_noteUse_none (c : Cache family) (key other : family.Key) :
    (c.noteUse key none).find? other = c.find? other := rfl

theorem find?_noteUse_self (c : Cache family) (key : family.Key) (location : Location) :
    (c.noteUse key (some location)).find? key = (c.find? key).map (·.noteUse location) :=
  Table.find?_modify_self ..

theorem find?_noteUse_ne (c : Cache family) {key other : family.Key}
    (location : Option Location) (hne : other ≠ key) :
    (c.noteUse key location).find? other = c.find? other := by
  cases location with
  | none => rfl
  | some location => exact Table.find?_modify_ne _ _ hne

theorem isSome_noteUse (c : Cache family) (key : family.Key) (location : Option Location)
    (other : family.Key) :
    ((c.noteUse key location).find? other).isSome = (c.find? other).isSome := by
  rcases location with _ | location
  · rfl
  · by_cases h : other = key
    · rw [h, find?_noteUse_self, Option.isSome_map]
    · rw [find?_noteUse_ne _ _ h]

/-- A key that is bound keeps its template; a vacant one gets a new template. -/
theorem find?_create_self (c : Cache family) (key : family.Key) :
    (c.create key).find? key = some ((c.find? key).getD (.ofKey key c.owner)) := by
  rw [create]
  split
  · rename_i t ht
    rw [ht]
    exact ht
  · rename_i hnone
    exact Table.find?_addIfVacant_self ..

theorem find?_create_ne (c : Cache family) {key other : family.Key} (hne : other ≠ key) :
    (c.create key).find? other = c.find? other := by
  rw [create]
  split
  · rfl
  · exact Table.find?_addIfVacant_ne _ _ hne

/-- What is bound stays bound. -/
theorem isSome_create {c : Cache family} {other : family.Key} (h : (c.find? other).isSome)
    (key : family.Key) : ((c.create key).find? other).isSome := by
  by_cases hk : other = key
  · rw [hk, find?_create_self]
    rfl
  · rw [find?_create_ne _ hk]
    exact h

/-- A key that is bound is not bound again. -/
theorem find?_create_of_isSome {c : Cache family} {key : family.Key}
    (h : (c.find? key).isSome) (other : family.Key) :
    (c.create key).find? other = c.find? other := by
  obtain ⟨t, ht⟩ := Option.isSome_iff_exists.1 h
  rw [create, ht]
  rfl

@[simp] theorem audited_create (c : Cache family) (key : family.Key) :
    (c.create key).audited = c.audited := by
  rw [create]
  split <;> rfl

@[simp] theorem audited_noteUse (c : Cache family) (key : family.Key)
    (location : Option Location) : (c.noteUse key location).audited = c.audited := by
  cases location <;> rfl

theorem mem_audited_record (c : Cache family) (location : Option Location) (l : Location) :
    l ∈ (c.record location).audited ↔ l ∈ c.audited ∨ location = some l := by
  rcases location with _ | location
  · simp [record]
  · simp [record, or_comm, eq_comm]

/-- A location passes the audit in one of two ways: it is recorded, or the cache is
sealed and knows the location already. -/
theorem audit_eq_ok {c c' : Cache family} {location : Option Location}
    (h : c.audit location = .ok c') :
    c' = c.record location ∨ c' = c ∧ ∃ l ∈ c.audited, location = some l := by
  rcases location with _ | location
  · cases h
    exact .inl rfl
  · rw [audit] at h
    split at h
    · split at h
      · rename_i hmem
        cases h
        exact .inr ⟨rfl, location, hmem, rfl⟩
      · cases h
    · cases h
      exact .inl rfl

theorem frame_of_audit {c c' : Cache family} {location : Option Location}
    (h : c.audit location = .ok c') : c'.frame = c.frame := by
  rcases audit_eq_ok h with rfl | ⟨rfl, -⟩
  · exact frame_record ..
  · rfl

theorem find?_of_audit {c c' : Cache family} {location : Option Location}
    (h : c.audit location = .ok c') (key : family.Key) : c'.find? key = c.find? key := by
  rcases audit_eq_ok h with rfl | ⟨rfl, -⟩
  · exact find?_record ..
  · rfl

/-- After the audit the cache knows the location, whether it is sealed or not. -/
theorem mem_audited_of_audit {c c' : Cache family} {location : Option Location}
    (h : c.audit location = .ok c') (l : Location) :
    l ∈ c'.audited ↔ l ∈ c.audited ∨ location = some l := by
  rcases audit_eq_ok h with rfl | ⟨rfl, l', hmem, rfl⟩
  · exact mem_audited_record ..
  · refine ⟨.inl, ?_⟩
    rintro (hl | hl)
    · exact hl
    · exact Option.some.inj hl ▸ hmem

theorem find?_modify_self (c : Cache family) (key : family.Key)
    (change : Template family → Template family) :
    (c.modify key change).find? key = (c.find? key).map change :=
  Table.find?_modify_self ..

theorem find?_modify_ne (c : Cache family) {key other : family.Key}
    (change : Template family → Template family) (hne : other ≠ key) :
    (c.modify key change).find? other = c.find? other :=
  Table.find?_modify_ne _ _ hne

/-- The templates of a cache are those that it finds. -/
theorem mem_templates_iff {c : Cache family} {t : Template family} :
    t ∈ c.templates ↔ ∃ key, c.find? key = some t :=
  Table.mem_values_iff

end Cache

end AnonymousTypes
