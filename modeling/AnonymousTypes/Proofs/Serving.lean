import Mathlib.Logic.Basic
import AnonymousTypes.Cache.Race

/-!
# What requests do to a cache

Several requests leave a cache in a state that does not depend on their order. What
is left of them is said by `Cache.Absorbs`, for three sets of requests: those whose
location has been recorded, those whose key has been bound, and those whose location
has been noted at the template. The steps of a request enlarge these sets one at a
time (`Absorbs.record`, `Absorbs.create`, `Absorbs.noteUse`), so the relation also
describes a cache in the middle of a race.

When all requests are answered the three sets are those of the requests that were
*granted*, and the relation is `Cache.Serves`. It determines the view of the cache
(`Serves.find?_eq`) and it composes (`Serves.trans`). Whether a request is granted,
and by which template, can be told from the cache as it was before all of them
(`Absorbs.outcome_eq`).
-/

namespace AnonymousTypes

variable {family : Family}

/-- A request added to a set of requests. -/
def adding (asked : Request family → Prop) (r : Request family) : Request family → Prop :=
  fun r' => asked r' ∨ r' = r

/-! ## The earliest location -/

/-- Of the order key `before` and those of the locations from which the requests ask for
the key, `after` is the least. -/
def IsEarliest (asked : Request family → Prop) (key : family.Key) (before after : UInt64) :
    Prop :=
  ∀ x, x ≤ after ↔ x ≤ before ∧
    ∀ r, asked r → r.key = key → ∀ location, r.location = some location →
      x ≤ location.orderKey

namespace IsEarliest

variable {asked asked' : Request family → Prop} {key : family.Key} {a b c : UInt64}

theorem refl (h : ∀ r, asked r → r.key ≠ key) : IsEarliest asked key a a :=
  fun _ => ⟨fun hx => ⟨hx, fun r hr hk => absurd hk (h r hr)⟩, And.left⟩

theorem unique (hb : IsEarliest asked key a b) (hc : IsEarliest asked key a c) : b = c := by
  refine UInt64.le_antisymm ?_ ?_
  · exact (hc b).2 ((hb b).1 (UInt64.le_refl b))
  · exact (hb c).2 ((hc c).1 (UInt64.le_refl c))

theorem trans (hab : IsEarliest asked key a b) (hbc : IsEarliest asked' key b c) :
    IsEarliest (fun r => asked r ∨ asked' r) key a c := by
  intro x
  rw [hbc x, hab x]
  constructor
  · rintro ⟨⟨hx, h⟩, h'⟩
    exact ⟨hx, fun r hr => hr.elim (h r) (h' r)⟩
  · rintro ⟨hx, h⟩
    exact ⟨⟨hx, fun r hr => h r (.inl hr)⟩, fun r hr => h r (.inr hr)⟩

/-- Only the requests for the key count. -/
theorem congr (h : IsEarliest asked key a b) (hiff : ∀ r, r.key = key → (asked r ↔ asked' r)) :
    IsEarliest asked' key a b := by
  intro x
  rw [h x]
  refine and_congr_right fun _ => forall_congr' fun r => ?_
  exact ⟨fun hr hasked hk => hr ((hiff r hk).2 hasked) hk,
    fun hr hasked hk => hr ((hiff r hk).1 hasked) hk⟩

/-- If no request comes from an earlier location, it stays. -/
theorem eq_of_not_earlier (h : IsEarliest asked key a b)
    (hall : ∀ r, asked r → r.key = key → ∀ location, r.location = some location →
      a ≤ location.orderKey) : b = a :=
  h.unique fun _ => ⟨fun hx => ⟨hx, fun r hr hk location hl =>
    UInt64.le_trans hx (hall r hr hk location hl)⟩, And.left⟩

/-- A request for another key has no say. -/
theorem skip {r : Request family} (h : IsEarliest asked key a b) (hne : r.key ≠ key) :
    IsEarliest (adding asked r) key a b :=
  h.trans (refl fun r' (hr' : r' = r) => hr' ▸ hne)

/-- A request for the key counts with its location. -/
theorem note {r : Request family} {location : Location} (h : IsEarliest asked r.key a b)
    (hloc : r.location = some location) :
    IsEarliest (adding asked r) r.key a (min b location.orderKey) := by
  refine h.trans fun x => ?_
  rw [Std.le_min_iff]
  refine and_congr_right fun _ => ⟨?_, fun h => h r rfl rfl location hloc⟩
  rintro hx r' rfl - l hl
  obtain rfl := Option.some.inj (hloc.symm.trans hl)
  exact hx

/-- A request without a location has no say. -/
theorem unlocated {r : Request family} (h : IsEarliest asked key a b)
    (hloc : r.location = none) : IsEarliest (adding asked r) key a b := by
  refine h.trans fun x => ⟨fun hx => ⟨hx, ?_⟩, And.left⟩
  rintro r' rfl - l hl
  rw [hloc] at hl
  cases hl

end IsEarliest

namespace Cache

/-! ## Absorbed requests -/

/-- `c'` is what becomes of `c` when the locations of some requests are recorded, the
keys of some are bound, and the locations of some are noted. -/
structure Absorbs (c : Cache family) (recorded bound noted : Request family → Prop)
    (c' : Cache family) : Prop where
  frame_eq : c'.frame = c.frame
  audited : ∀ location, location ∈ c'.audited ↔
    location ∈ c.audited ∨ ∃ r, recorded r ∧ r.location = some location
  /-- a template stays, and may be used from an earlier location -/
  held : ∀ {key t}, c.find? key = some t →
    ∃ e, IsEarliest noted key t.earliest e ∧ c'.find? key = some { t with earliest := e }
  /-- a vacant key that is bound gets a new template -/
  made : ∀ {key}, c.find? key = none → (∃ r, bound r ∧ r.key = key) →
    ∃ e, IsEarliest noted key noLocation e ∧
      c'.find? key = some { Template.ofKey key c.owner with earliest := e }
  vacant : ∀ {key}, c.find? key = none → (∀ r, bound r → r.key ≠ key) → c'.find? key = none

namespace Absorbs

variable {c c' : Cache family} {recorded bound noted : Request family → Prop}

theorem refl (c : Cache family) :
    c.Absorbs (fun _ => False) (fun _ => False) (fun _ => False) c where
  frame_eq := rfl
  audited _ := by simp
  held {_ t} ht := ⟨t.earliest, .refl fun _ h => h.elim, ht⟩
  made _ h := by simp at h
  vacant h _ := h

/-- Only the members of the three sets count. -/
theorem congr (h : c.Absorbs recorded bound noted c')
    {recorded' bound' noted' : Request family → Prop} (hr : ∀ r, recorded r ↔ recorded' r)
    (hb : ∀ r, bound r ↔ bound' r) (hn : ∀ r, noted r ↔ noted' r) :
    c.Absorbs recorded' bound' noted' c' := by
  obtain rfl := funext fun r => propext (hr r)
  obtain rfl := funext fun r => propext (hb r)
  obtain rfl := funext fun r => propext (hn r)
  exact h

/-- What a cache holds it keeps. -/
theorem isSome_of_isSome (h : c.Absorbs recorded bound noted c') {key : family.Key}
    (hkey : (c.find? key).isSome) : (c'.find? key).isSome := by
  obtain ⟨t, ht⟩ := Option.isSome_iff_exists.1 hkey
  obtain ⟨e, -, he⟩ := h.held ht
  rw [he]
  rfl

/-- A key is there because it was there, or because a request bound it. -/
theorem eq_none_or_bound (h : c.Absorbs recorded bound noted c') {key : family.Key}
    (hkey : (c'.find? key).isSome) :
    (c.find? key).isSome ∨ c.find? key = none ∧ ∃ r, bound r ∧ r.key = key := by
  rcases hc : c.find? key with _ | t
  · refine .inr ⟨rfl, Classical.byContradiction fun hno => ?_⟩
    rw [h.vacant hc fun r hr hk => hno ⟨r, hr, hk⟩] at hkey
    cases hkey
  · exact .inl rfl

/-- A key that is there is bound already, so counting one more request among the binding ones
changes nothing. -/
theorem bind_present (h : c.Absorbs recorded bound noted c') {r : Request family}
    (hkey : (c'.find? r.key).isSome) : c.Absorbs recorded (adding bound r) noted c' where
  frame_eq := h.frame_eq
  audited := h.audited
  held := h.held
  made {key} hnone hex := by
    refine h.made hnone ?_
    obtain ⟨r', hr' | rfl, rfl⟩ := hex
    · exact ⟨r', hr', rfl⟩
    · rcases h.eq_none_or_bound hkey with hsome | ⟨-, hb⟩
      · rw [hnone] at hsome
        cases hsome
      · exact hb
  vacant hnone hall := h.vacant hnone fun r' hr' => hall r' (.inl hr')

/-- A request for a key that is not there has no location to be noted. -/
theorem note_absent (h : c.Absorbs recorded bound noted c') {r : Request family}
    (hkey : c'.find? r.key = none) : c.Absorbs recorded bound (adding noted r) c' where
  frame_eq := h.frame_eq
  audited := h.audited
  held {key t} ht := by
    obtain ⟨e, he, hfind⟩ := h.held ht
    refine ⟨e, he.skip ?_, hfind⟩
    rintro rfl
    rw [hkey] at hfind
    cases hfind
  made {key} hnone hex := by
    obtain ⟨e, he, hfind⟩ := h.made hnone hex
    refine ⟨e, he.skip ?_, hfind⟩
    rintro rfl
    rw [hkey] at hfind
    cases hfind
  vacant := h.vacant

/-- Another cache with the same view, with different counters for instance. -/
theorem of_view (h : c.Absorbs recorded bound noted c') {d : Cache family}
    (hframe : d.frame = c'.frame) (hfind : ∀ key, d.find? key = c'.find? key)
    (haud : ∀ l, l ∈ d.audited ↔ l ∈ c'.audited) : c.Absorbs recorded bound noted d where
  frame_eq := hframe.trans h.frame_eq
  audited l := (haud l).trans (h.audited l)
  held ht := by
    simp only [hfind]
    exact h.held ht
  made hnone hex := by
    simp only [hfind]
    exact h.made hnone hex
  vacant hnone hall := by
    rw [hfind]
    exact h.vacant hnone hall

theorem countHit (h : c.Absorbs recorded bound noted c') :
    c.Absorbs recorded bound noted c'.countHit :=
  h.of_view rfl (fun _ => rfl) fun _ => .rfl

theorem record (h : c.Absorbs recorded bound noted c') (r : Request family) :
    c.Absorbs (adding recorded r) bound noted (c'.record r.location) where
  frame_eq := (frame_record ..).trans h.frame_eq
  audited l := by
    rw [mem_audited_record, h.audited]
    constructor
    · rintro ((hl | ⟨r', hr', hl⟩) | hl)
      · exact .inl hl
      · exact .inr ⟨r', .inl hr', hl⟩
      · exact .inr ⟨r, .inr rfl, hl⟩
    · rintro (hl | ⟨r', hr' | rfl, hl⟩)
      · exact .inl (.inl hl)
      · exact .inl (.inr ⟨r', hr', hl⟩)
      · exact .inr hl
  held ht := by
    simp only [find?_record]
    exact h.held ht
  made hnone hex := by
    simp only [find?_record]
    exact h.made hnone hex
  vacant hnone hall := by
    rw [find?_record]
    exact h.vacant hnone hall

/-- A location that passes the audit is recorded afterwards, whether the cache is sealed
or not. -/
theorem audit (h : c.Absorbs recorded bound noted c') {r : Request family} {d : Cache family}
    (hd : c'.audit r.location = .ok d) : c.Absorbs (adding recorded r) bound noted d := by
  refine (h.record r).of_view ?_ (fun key => ?_) fun l => ?_
  · rw [frame_record, frame_of_audit hd]
  · rw [find?_record, find?_of_audit hd]
  · rw [mem_audited_record, mem_audited_of_audit hd]

/-- Binding a key. Nothing may have been noted for it while it was vacant. -/
theorem create (h : c.Absorbs recorded bound noted c') {r : Request family}
    (hnoted : c'.find? r.key = none → ∀ r', noted r' → r'.key ≠ r.key) :
    c.Absorbs recorded (adding bound r) noted (c'.create r.key) := by
  rcases hkey : c'.find? r.key with _ | t
  · -- keys are never given up, so the key was vacant from the beginning
    have hnone : c.find? r.key = none := by
      rcases hc : c.find? r.key with _ | t
      · rfl
      · have hsome := h.isSome_of_isSome (Option.isSome_of_eq_some hc)
        rw [hkey] at hsome
        cases hsome
    have hself : (c'.create r.key).find? r.key = some (.ofKey r.key c.owner) := by
      rw [find?_create_self, hkey, Option.getD_none, owner_of_frame h.frame_eq]
    refine ⟨(frame_create ..).trans h.frame_eq, ?_, ?_, ?_, ?_⟩
    · intro l
      rw [audited_create]
      exact h.audited l
    · intro key t ht
      have hne : key ≠ r.key := by
        rintro rfl
        rw [hnone] at ht
        cases ht
      rw [find?_create_ne _ hne]
      exact h.held ht
    · intro key hc hex
      by_cases hk : key = r.key
      · subst hk
        exact ⟨noLocation, .refl (hnoted hkey), hself⟩
      · rw [find?_create_ne _ hk]
        refine h.made hc ?_
        obtain ⟨r', hr' | rfl, rfl⟩ := hex
        · exact ⟨r', hr', rfl⟩
        · exact absurd rfl hk
    · intro key hc hall
      have hne : key ≠ r.key := fun hk => hall r (.inr rfl) hk.symm
      rw [find?_create_ne _ hne]
      exact h.vacant hc fun r' hr' => hall r' (.inl hr')
  · have hpresent := Option.isSome_of_eq_some hkey
    exact (h.bind_present hpresent).of_view (frame_create ..) (find?_create_of_isSome hpresent)
      fun l => by rw [audited_create]

/-- Noting a location at the template of its key. -/
theorem noteUse (h : c.Absorbs recorded bound noted c') (r : Request family) :
    c.Absorbs recorded bound (adding noted r) (c'.noteUse r.key r.location) := by
  -- what happens to the template of a key, given what the notes so far have made of it
  have hnote : ∀ {key : family.Key} {t : Template family} {e : UInt64},
      IsEarliest noted key t.earliest e → c'.find? key = some { t with earliest := e } →
      ∃ e', IsEarliest (adding noted r) key t.earliest e' ∧
        (c'.noteUse r.key r.location).find? key = some { t with earliest := e' } := by
    intro key t e he hfind
    by_cases hk : key = r.key
    · subst hk
      rcases hloc : r.location with _ | location
      · exact ⟨e, he.unlocated hloc, hfind⟩
      · refine ⟨min e location.orderKey, he.note hloc, ?_⟩
        rw [find?_noteUse_self, hfind]
        rfl
    · refine ⟨e, he.skip (Ne.symm hk), ?_⟩
      rw [find?_noteUse_ne _ _ hk]
      exact hfind
  refine ⟨(frame_noteUse ..).trans h.frame_eq, ?_, ?_, ?_, ?_⟩
  · intro l
    rw [audited_noteUse]
    exact h.audited l
  · intro key t ht
    obtain ⟨e, he, hfind⟩ := h.held ht
    exact hnote he hfind
  · intro key hc hex
    obtain ⟨e, he, hfind⟩ := h.made hc hex
    exact hnote (t := .ofKey key c.owner) he hfind
  · intro key hc hall
    have hnone := h.vacant hc hall
    by_cases hk : key = r.key
    · subst hk
      rcases r.location with _ | location
      · exact hnone
      · rw [find?_noteUse_self, hnone]
        rfl
    · rw [find?_noteUse_ne _ _ hk]
      exact hnone

end Absorbs

/-! ## Outcomes -/

/-- The outcome of a request; `offer` is what the earlier generations offer for a key. -/
def outcome (c : Cache family) (offer : family.Key → Option (TemplateRef family))
    (r : Request family) : Except Failure (TemplateRef family) :=
  (c.request (offer r.key) r.key r.location).1

/-- Whether the cache answers a request with a template. -/
def Grants (c : Cache family) (offer : family.Key → Option (TemplateRef family))
    (r : Request family) : Prop :=
  ∃ template, c.outcome offer r = .ok template

/-- Whether a location passes the audit. -/
def Admits (c : Cache family) (location : Option Location) : Prop :=
  c.isSealed = false ∨ ∀ l, location = some l → l ∈ c.audited

theorem audit_of_admits {c : Cache family} {location : Option Location}
    (h : c.Admits location) : ∃ c', c.audit location = .ok c' := by
  rcases location with _ | location
  · exact ⟨c, rfl⟩
  · rw [audit]
    split
    · rename_i hsealed
      rcases h with h | h
      · rw [h] at hsealed
        cases hsealed
      · exact ⟨c, if_pos (h location rfl)⟩
    · exact ⟨_, rfl⟩

/-- The only thing that can go wrong in the audit. -/
theorem audit_of_not_admits {c : Cache family} {location : Option Location}
    (h : ¬ c.Admits location) :
    ∃ l, location = some l ∧ c.audit location = .error (.lateUse family l) := by
  rcases location with _ | location
  · exact absurd (.inr fun l hl => by cases hl) h
  · have hsealed : c.isSealed = true := by
      rcases hs : c.isSealed
      · exact absurd (.inl hs) h
      · rfl
    have hmem : location ∉ c.audited := fun hmem =>
      h (.inr fun l hl => Option.some.inj hl ▸ hmem)
    exact ⟨location, rfl, by rw [audit, if_pos hsealed, if_neg hmem]⟩

variable {offer : family.Key → Option (TemplateRef family)} {r : Request family}

/-- **The outcome of a request.** Who answers is decided by the templates alone; the audit
can only turn the answer into a fault, and the seal refuses what nobody answers. -/
theorem outcome_eq_ok_iff {c : Cache family} {template : TemplateRef family} :
    c.outcome offer r = .ok template ↔
      (c.find? r.key).isSome ∧ c.Admits r.location ∧ ⟨c.home, r.key⟩ = template ∨
      c.find? r.key = none ∧ offer r.key = some template ∧ c.Admits r.location ∨
      c.find? r.key = none ∧ offer r.key = none ∧ c.isSealed = false ∧
        ⟨c.home, r.key⟩ = template := by
  rcases hkey : c.find? r.key with _ | t
  · rcases hoffer : offer r.key with _ | offered
    · rcases hsealed : c.isSealed <;> simp [outcome, request, hkey, hoffer, hsealed]
    · by_cases hadm : c.Admits r.location
      · obtain ⟨c', hc'⟩ := audit_of_admits hadm
        simp [outcome, request, hkey, hoffer, hc', hadm]
      · obtain ⟨l, -, hl⟩ := audit_of_not_admits hadm
        simp [outcome, request, hkey, hoffer, hl, hadm]
  · by_cases hadm : c.Admits r.location
    · obtain ⟨c', hc'⟩ := audit_of_admits hadm
      simp [outcome, request, hkey, hc', hadm, home_of_audit hc']
    · obtain ⟨l, -, hl⟩ := audit_of_not_admits hadm
      simp [outcome, request, hkey, hl, hadm]

/-- A request for a new key fails if the cache is sealed. -/
theorem outcome_of_sealed {c : Cache family} (hkey : c.find? r.key = none)
    (hoffer : offer r.key = none) (hsealed : c.isSealed = true) :
    c.outcome offer r = .error (sealedFailure r.key) := by
  simp [outcome, request, hkey, hoffer, hsealed]

/-- A request that somebody could answer fails if its location does not pass the audit. -/
theorem outcome_of_not_admits {c : Cache family}
    (hanswer : (c.find? r.key).isSome ∨ (offer r.key).isSome)
    (hadm : ¬ c.Admits r.location) :
    ∃ l, r.location = some l ∧ c.outcome offer r = .error (.fault (.lateUse family l)) := by
  obtain ⟨l, hl, haudit⟩ := audit_of_not_admits hadm
  refine ⟨l, hl, ?_⟩
  rcases hkey : c.find? r.key with _ | t
  · rw [hkey] at hanswer
    obtain ⟨offered, hoffer⟩ := Option.isSome_iff_exists.1 (hanswer.resolve_left Bool.false_ne_true)
    simp [outcome, request, hkey, hoffer, haudit]
  · simp [outcome, request, hkey, haudit]

theorem Grants.admits {c : Cache family} (h : c.Grants offer r) : c.Admits r.location := by
  obtain ⟨template, h⟩ := h
  rcases outcome_eq_ok_iff.1 h with ⟨-, hadm, -⟩ | ⟨-, -, hadm⟩ | ⟨-, -, hopen, -⟩
  · exact hadm
  · exact hadm
  · exact .inl hopen

/-- In a cache that is not sealed every request is granted. -/
theorem grants_of_open {c : Cache family} (hopen : c.isSealed = false) : c.Grants offer r := by
  have hadm : c.Admits r.location := .inl hopen
  rcases hkey : c.find? r.key with _ | t
  · rcases hoffer : offer r.key with _ | template
    · exact ⟨_, outcome_eq_ok_iff.2 (.inr (.inr ⟨hkey, hoffer, hopen, rfl⟩))⟩
    · exact ⟨_, outcome_eq_ok_iff.2 (.inr (.inl ⟨hkey, hoffer, hadm⟩))⟩
  · exact ⟨_, outcome_eq_ok_iff.2 (.inl ⟨Option.isSome_of_eq_some hkey, hadm, rfl⟩)⟩

/-- What the cache holds itself is granted, unless the audit stops it. -/
theorem grants_iff_admits {c : Cache family} (hkey : (c.find? r.key).isSome) :
    c.Grants offer r ↔ c.Admits r.location :=
  ⟨Grants.admits, fun hadm => ⟨_, outcome_eq_ok_iff.2 (.inl ⟨hkey, hadm, rfl⟩)⟩⟩

namespace Absorbs

variable {c c' : Cache family} {recorded bound noted : Request family → Prop}

theorem admits_iff (h : c.Absorbs recorded bound noted c')
    (hrecorded : ∀ r, recorded r → c.Grants offer r) {location : Option Location} :
    c'.Admits location ↔ c.Admits location := by
  rw [Admits, Admits, isSealed_of_frame h.frame_eq]
  refine or_congr_right' fun hsealed => ?_
  constructor
  · intro hall l hl
    rcases (h.audited l).1 (hall l hl) with hmem | ⟨r, hr, hloc⟩
    · exact hmem
    · exact (hrecorded r hr).admits.resolve_left hsealed l hloc
  · exact fun hall l hl => (h.audited l).2 (.inl (hall l hl))

/-- A key stays vacant if it is offered by the earlier generations, or if the cache is
sealed. -/
theorem find?_eq_none (h : c.Absorbs recorded bound noted c')
    (hbound : ∀ r, bound r → c.Grants offer r ∧ offer r.key = none) {key : family.Key}
    (hnone : c.find? key = none) (hkey : (offer key).isSome ∨ c.isSealed = true) :
    c'.find? key = none := by
  refine h.vacant hnone ?_
  rintro r hr rfl
  obtain ⟨⟨template, hgrant⟩, hoffer⟩ := hbound r hr
  rw [hoffer] at hkey
  have hsealed := hkey.resolve_left Bool.false_ne_true
  rw [outcome_of_sealed hnone hoffer hsealed] at hgrant
  cases hgrant

/-- **A request has the same outcome before and after others.** -/
theorem outcome_eq (h : c.Absorbs recorded bound noted c')
    (hrecorded : ∀ r, recorded r → c.Grants offer r)
    (hbound : ∀ r, bound r → c.Grants offer r ∧ offer r.key = none) (r : Request family) :
    c'.outcome offer r = c.outcome offer r := by
  have hhome : c'.home = c.home := home_of_frame h.frame_eq
  have hadmits : c'.Admits r.location ↔ c.Admits r.location := h.admits_iff hrecorded
  -- if somebody has the key, the audit decides, and otherwise the seal; both stay as they were
  by_cases hanswer : (c.find? r.key).isSome ∨ (offer r.key).isSome
  · by_cases hadm : c.Admits r.location
    · rcases hkey : c.find? r.key with _ | t
      · obtain ⟨template, hoffer⟩ :=
          Option.isSome_iff_exists.1 (hanswer.resolve_left (by rw [hkey]; exact Bool.false_ne_true))
        have hkey' := h.find?_eq_none hbound hkey (.inl (Option.isSome_of_eq_some hoffer))
        rw [outcome_eq_ok_iff.2 (.inr (.inl ⟨hkey, hoffer, hadm⟩)),
          outcome_eq_ok_iff.2 (.inr (.inl ⟨hkey', hoffer, hadmits.2 hadm⟩))]
      · have hsome := Option.isSome_of_eq_some hkey
        have hsome' := h.isSome_of_isSome hsome
        rw [outcome_eq_ok_iff.2 (.inl ⟨hsome, hadm, rfl⟩),
          outcome_eq_ok_iff.2 (.inl ⟨hsome', hadmits.2 hadm, rfl⟩), hhome]
    · have hanswer' : (c'.find? r.key).isSome ∨ (offer r.key).isSome :=
        hanswer.imp_left h.isSome_of_isSome
      obtain ⟨l, hl, hout⟩ := outcome_of_not_admits hanswer hadm
      obtain ⟨l', hl', hout'⟩ := outcome_of_not_admits hanswer' (mt hadmits.1 hadm)
      rw [hout, hout', Option.some.inj (hl.symm.trans hl')]
  · obtain ⟨hkey, hoffer⟩ : c.find? r.key = none ∧ offer r.key = none := by
      simpa only [not_or, Option.not_isSome_iff_eq_none] using hanswer
    rcases hsealed : c.isSealed
    · have hsealed' : c'.isSealed = false := (isSealed_of_frame h.frame_eq).trans hsealed
      have hout : c'.outcome offer r = .ok ⟨c'.home, r.key⟩ := by
        rcases hkey' : c'.find? r.key with _ | t
        · exact outcome_eq_ok_iff.2 (.inr (.inr ⟨hkey', hoffer, hsealed', rfl⟩))
        · exact outcome_eq_ok_iff.2 (.inl ⟨Option.isSome_of_eq_some hkey', .inl hsealed', rfl⟩)
      rw [hout, hhome, outcome_eq_ok_iff.2 (.inr (.inr ⟨hkey, hoffer, hsealed, rfl⟩))]
    · have hsealed' : c'.isSealed = true := (isSealed_of_frame h.frame_eq).trans hsealed
      rw [outcome_of_sealed hkey hoffer hsealed,
        outcome_of_sealed (h.find?_eq_none hbound hkey (.inr hsealed)) hoffer hsealed']

/-- The three sets determine the view, so two caches that have absorbed the same cannot be told
apart by lookup. -/
theorem find?_eq {d : Cache family} (h : c.Absorbs recorded bound noted c')
    (hd : c.Absorbs recorded bound noted d) (key : family.Key) : c'.find? key = d.find? key := by
  rcases hc : c.find? key with _ | t
  · by_cases hex : ∃ r, bound r ∧ r.key = key
    · obtain ⟨e, he, hfind⟩ := h.made hc hex
      obtain ⟨e', he', hfind'⟩ := hd.made hc hex
      rw [hfind, hfind', he.unique he']
    · have hall : ∀ r, bound r → r.key ≠ key := fun r hr hk => hex ⟨r, hr, hk⟩
      rw [h.vacant hc hall, hd.vacant hc hall]
  · obtain ⟨e, he, hfind⟩ := h.held hc
    obtain ⟨e', he', hfind'⟩ := hd.held hc
    rw [hfind, hfind', he.unique he']

end Absorbs

/-! ## Served requests -/

/-- `c'` is what becomes of `c` when all of the given requests are granted and nothing else
happens. -/
structure Serves (offer : family.Key → Option (TemplateRef family)) (c : Cache family)
    (granted : Request family → Prop) (c' : Cache family) : Prop where
  grants : ∀ r, granted r → c.Grants offer r
  absorbs : c.Absorbs granted (fun r => granted r ∧ offer r.key = none) granted c'

namespace Serves

variable {c c' c'' : Cache family} {granted granted' : Request family → Prop}

theorem refl (c : Cache family) : c.Serves offer (fun _ => False) c :=
  ⟨fun _ h => h.elim, (Absorbs.refl c).congr (fun _ => .rfl) (by simp) fun _ => .rfl⟩

theorem congr (h : c.Serves offer granted c') (hiff : ∀ r, granted r ↔ granted' r) :
    c.Serves offer granted' c' := by
  obtain rfl := funext fun r => propext (hiff r)
  exact h

theorem outcome_eq (h : c.Serves offer granted c') (r : Request family) :
    c'.outcome offer r = c.outcome offer r :=
  h.absorbs.outcome_eq h.grants (fun r hr => ⟨h.grants r hr.1, hr.2⟩) r

theorem grants_iff (h : c.Serves offer granted c') (r : Request family) :
    c'.Grants offer r ↔ c.Grants offer r := by
  rw [Grants, Grants, h.outcome_eq r]

/-- **Serving some requests and then others** serves all of them. -/
theorem trans (h : c.Serves offer granted c') (h' : c'.Serves offer granted' c'') :
    c.Serves offer (fun r => granted r ∨ granted' r) c'' where
  grants r hr := hr.elim (h.grants r) fun hr => (h.grants_iff r).1 (h'.grants r hr)
  absorbs := by
    refine ⟨h'.absorbs.frame_eq.trans h.absorbs.frame_eq, ?_, ?_, ?_, ?_⟩
    · intro l
      rw [h'.absorbs.audited, h.absorbs.audited, or_assoc, ← exists_or]
      simp only [or_and_right]
    · intro key t ht
      obtain ⟨e, he, hfind⟩ := h.absorbs.held ht
      obtain ⟨e', he', hfind'⟩ := h'.absorbs.held hfind
      exact ⟨e', he.trans he', hfind'⟩
    · intro key hnone hex
      by_cases hfirst : ∃ r, (granted r ∧ offer r.key = none) ∧ r.key = key
      · obtain ⟨e, he, hfind⟩ := h.absorbs.made hnone hfirst
        obtain ⟨e', he', hfind'⟩ := h'.absorbs.held hfind
        exact ⟨e', he.trans he', hfind'⟩
      · have hvacant := h.absorbs.vacant hnone fun r hr hk => hfirst ⟨r, hr, hk⟩
        obtain ⟨r, ⟨hr, hoffer⟩, rfl⟩ := hex
        have hr' := hr.resolve_left fun hr => hfirst ⟨r, ⟨hr, hoffer⟩, rfl⟩
        obtain ⟨e, he, hfind⟩ := h'.absorbs.made hvacant ⟨r, ⟨hr', hoffer⟩, rfl⟩
        refine ⟨e, ?_, owner_of_frame h.absorbs.frame_eq ▸ hfind⟩
        exact (IsEarliest.refl fun r' hg hk => hfirst ⟨r', ⟨hg, hk ▸ hoffer⟩, hk⟩).trans he
    · intro key hnone hall
      refine h'.absorbs.vacant (h.absorbs.vacant hnone ?_) ?_
      · exact fun r hr => hall r ⟨.inl hr.1, hr.2⟩
      · exact fun r hr => hall r ⟨.inr hr.1, hr.2⟩

/-- The granted requests determine the view. The order in which they were served does not come
into it. -/
theorem find?_eq (h : c.Serves offer granted c') (h' : c.Serves offer granted c'')
    (key : family.Key) : c'.find? key = c''.find? key :=
  h.absorbs.find?_eq h'.absorbs key

theorem mem_audited_iff (h : c.Serves offer granted c') (h' : c.Serves offer granted c'')
    (location : Location) : location ∈ c'.audited ↔ location ∈ c''.audited :=
  (h.absorbs.audited location).trans (h'.absorbs.audited location).symm

end Serves

/-! ## Caches that are alike -/

/-- Two caches that can be told apart only by the order of their templates and by their
counters. -/
structure Alike (c c' : Cache family) : Prop where
  frame_eq : c'.frame = c.frame
  find?_eq : ∀ key, c'.find? key = c.find? key
  audited_iff : ∀ location, location ∈ c'.audited ↔ location ∈ c.audited

namespace Alike

variable {c c' c'' : Cache family}

theorem refl (c : Cache family) : c.Alike c := ⟨rfl, fun _ => rfl, fun _ => .rfl⟩

theorem size_eq (h : c.Alike c') : c'.size = c.size := Table.size_eq h.find?_eq

end Alike

/-- The granted requests determine the cache, as far as it matters. -/
theorem Serves.alike {c c' c'' : Cache family} {granted : Request family → Prop}
    (h : c.Serves offer granted c') (h' : c.Serves offer granted c'') : c'.Alike c'' where
  frame_eq := h'.absorbs.frame_eq.trans h.absorbs.frame_eq.symm
  find?_eq := h'.find?_eq h
  audited_iff := h'.mem_audited_iff h

/-- What is granted for a key is always the same template. -/
theorem eq_of_outcome {c : Cache family} {r r' : Request family}
    {template template' : TemplateRef family} (hkey : r.key = r'.key)
    (h : c.outcome offer r = .ok template) (h' : c.outcome offer r' = .ok template') :
    template = template' := by
  rw [outcome_eq_ok_iff, hkey] at h
  rw [outcome_eq_ok_iff] at h'
  rcases h with ⟨hsome, -, he⟩ | ⟨hnone, hoffer, -⟩ | ⟨hnone, hoffer, -, he⟩
  · rcases h' with ⟨-, -, he'⟩ | ⟨hnone', -⟩ | ⟨hnone', -⟩
    · exact he.symm.trans he'
    · rw [hnone'] at hsome
      cases hsome
    · rw [hnone'] at hsome
      cases hsome
  · rcases h' with ⟨hsome', -⟩ | ⟨-, hoffer', -⟩ | ⟨-, hoffer', -⟩
    · rw [hnone] at hsome'
      cases hsome'
    · exact Option.some.inj (hoffer.symm.trans hoffer')
    · rw [hoffer] at hoffer'
      cases hoffer'
  · rcases h' with ⟨hsome', -⟩ | ⟨-, hoffer', -⟩ | ⟨-, -, -, he'⟩
    · rw [hnone] at hsome'
      cases hsome'
    · rw [hoffer] at hoffer'
      cases hoffer'
    · exact he.symm.trans he'

end Cache

end AnonymousTypes
