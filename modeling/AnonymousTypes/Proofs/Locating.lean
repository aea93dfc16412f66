import AnonymousTypes.Proofs.Auditing
import AnonymousTypes.Proofs.Chains

/-!
# Where a template is used first

A template remembers the least of the order keys of the locations from which it was asked for.
It counts the requests that its own generation answered, all of them and no others, whether they
came before or after finalization and whether they created the template, found it or lost a race
for it (`earliest?_of_answered`). Requests to other generations never count, not even those to
generations that inherit the template.

The least key is kept in a word that stands for "none" when it is `noLocation`, and one position
has just this order key (`orderKey_eq_noLocation_iff`): the last offset in the last file. A
template that was only asked for from there cannot be told from one that was never asked for from
anywhere (`earliest?_at_last_position`).

What carries the induction is `Cache.Notes`. It is not enough to say what the templates remember:
a key that is still vacant must not have been asked for either, unless it is inherited, because
its template will start with nothing.
-/

namespace AnonymousTypes

variable {family : Family} {α : Type}

/-! ## The requests that were answered -/

namespace Session

/-- The requests that are answered among those that steps make of the generation at a handle.
Those of one step are answered as they are alone, also in a race. -/
def answered (h : Handle) : Session → List (Σ α, Step α) → List AnyRequest
  | _, [] => []
  | s, x :: xs =>
    (asked h [x]).filter (fun q => (s.alone h q.2).isOk) ++ answered h (x.2.run s).2 xs

/-- The order keys of the locations from which requests for a key were answered. -/
def useKeys (h : Handle) (key : family.Key) (s : Session) (xs : List (Σ α, Step α)) :
    List UInt64 :=
  (AnyRequest.only family (answered h s xs)).filterMap fun r =>
    if r.key = key then r.location.map (·.orderKey) else none

theorem mem_useKeys {h : Handle} {key : family.Key} {s : Session} {xs : List (Σ α, Step α)}
    {k : UInt64} : k ∈ useKeys h key s xs ↔ ∃ r : Request family, ⟨family, r⟩ ∈ answered h s xs ∧
      r.key = key ∧ ∃ location, r.location = some location ∧ location.orderKey = k := by
  rw [useKeys, List.mem_filterMap]
  refine exists_congr fun r => and_congr AnyRequest.mem_only ?_
  by_cases hkey : r.key = key
  · rw [if_pos hkey, Option.map_eq_some_iff]
    exact (and_iff_right hkey).symm
  · simp [hkey]

/-- A request is answered alone exactly if the cache grants it. -/
theorem isOk_alone_iff {s : Session} {h : Handle} {g : Generation} (hg : s.generation? h = some g)
    (r : Request family) :
    (s.alone h r).isOk = true ↔ (g.cache family).Grants (s.offer family g) r := by
  rw [alone_eq hg, Cache.Grants]
  rcases (g.cache family).outcome (s.offer family g) r with _ | template
  · simp [Except.isOk, Except.toBool]
  · simp [Except.isOk, Except.toBool]

/-- What is asked before a generation is started is not answered. -/
theorem isOk_alone_missing {s : Session} {h : Handle} (hg : s.generation? h = none)
    (r : Request family) : (s.alone h r).isOk = false := by
  rw [alone, Step.run, Run.request_missing hg]
  rfl

end Session

/-! ## What a cache has noted -/

/-- The templates of a cache remember where requests came from: those that were answered. A key
without a template was only asked for if it is inherited. -/
structure Cache.Notes (c : Cache family) (offer : family.Key → Option (TemplateRef family))
    (answered : Request family → Prop) : Prop where
  held : ∀ {key t}, c.find? key = some t → IsEarliest answered key noLocation t.earliest
  vacant : ∀ {r}, answered r → c.find? r.key = none → (offer r.key).isSome

namespace Cache.Notes

variable {c c' : Cache family} {offer : family.Key → Option (TemplateRef family)}
  {answered granted : Request family → Prop}

theorem congr {answered' : Request family → Prop} (h : c.Notes offer answered)
    (hiff : ∀ r, answered r ↔ answered' r) : c.Notes offer answered' := by
  obtain rfl := funext fun r => propext (hiff r)
  exact h

/-- An empty cache has noted nothing. -/
theorem empty (hempty : ∀ key, c.find? key = none) : c.Notes offer fun _ => False where
  held {key _} ht := by
    rw [hempty] at ht
    cases ht
  vacant hr := hr.elim

/-- Only the templates count. -/
theorem of_find? (h : c.Notes offer answered) (hfind : ∀ key, c'.find? key = c.find? key) :
    c'.Notes offer answered where
  held ht := h.held (hfind _ ▸ ht)
  vacant hr hnone := h.vacant hr (hfind _ ▸ hnone)

/-- **Nothing has been noted** of a key without a template, unless it is inherited. -/
theorem unnoted (h : c.Notes offer answered) {key : family.Key} (hnone : c.find? key = none)
    (hoffer : offer key = none) : ∀ r, answered r → r.key ≠ key := by
  rintro r hr rfl
  have hsome := h.vacant hr hnone
  rw [hoffer] at hsome
  cases hsome

/-- **Requests** that are served are noted as well, each at the template of its key. -/
theorem serves (h : c.Notes offer answered) (hserves : c.Serves offer granted c') :
    c'.Notes offer (fun r => answered r ∨ granted r) where
  held {key t'} ht' := by
    rcases hkey : c.find? key with _ | t
    · rcases hserves.absorbs.eq_none_or_bound (Option.isSome_of_eq_some ht') with
        hsome | ⟨-, hbound⟩
      · rw [hkey] at hsome
        cases hsome
      · obtain ⟨e, he, hfind⟩ := hserves.absorbs.made hkey hbound
        obtain rfl := Option.some.inj (ht'.symm.trans hfind)
        obtain ⟨r, ⟨-, hoffer⟩, rfl⟩ := hbound
        exact (IsEarliest.refl (h.unnoted hkey hoffer)).trans he
    · obtain ⟨e, he, hfind⟩ := hserves.absorbs.held hkey
      obtain rfl := Option.some.inj (ht'.symm.trans hfind)
      exact (h.held hkey).trans he
  vacant {r} hr hnone := by
    have hbefore : c.find? r.key = none := by
      rcases hkey : c.find? r.key with _ | t
      · rfl
      · have hsome := hserves.absorbs.isSome_of_isSome (Option.isSome_of_eq_some hkey)
        rw [hnone] at hsome
        cases hsome
    rcases hr with hr | hr
    · exact h.vacant hr hbefore
    · rcases hoffer : offer r.key with _ | template
      · obtain ⟨e, -, hfind⟩ := hserves.absorbs.made hbefore ⟨r, ⟨hr, hoffer⟩, rfl⟩
        rw [hnone] at hfind
        cases hfind
      · rfl

/-- **Naming** templates and adopting some that are not inherited leaves the notes alone. -/
theorem names (h : c.Notes offer answered) {adopted : family.Key → Prop}
    (hnames : c.Names adopted c') (hadopted : ∀ key, adopted key → offer key = none) :
    c'.Notes offer answered where
  held {key t'} ht' := by
    rcases hkey : c.find? key with _ | t
    · obtain ⟨hfree, identity, rfl⟩ := hnames.made hkey ht'
      exact .refl (h.unnoted hkey (hadopted key hfree))
    · obtain ⟨identity, hfind⟩ := hnames.held hkey
      have hsame : t'.earliest = t.earliest := by rw [Option.some.inj (ht'.symm.trans hfind)]
      exact hsame ▸ h.held hkey
  vacant {r} hr hnone := by
    refine h.vacant hr ?_
    rcases hkey : c.find? r.key with _ | t
    · rfl
    · obtain ⟨identity, hfind⟩ := hnames.held hkey
      rw [hnone] at hfind
      cases hfind

end Cache.Notes

/-! ## Steps -/

namespace Session

/-- The generation at a handle, if there is one yet, has noted the requests that were answered. -/
structure Notes (s : Session) (h : Handle) (answered : Request family → Prop) : Prop where
  generation : ∀ {g}, s.generation? h = some g →
    (g.cache family).Notes (s.offer family g) answered
  missing : s.generation? h = none → ∀ r, ¬ answered r

variable {s s' : Session} {h : Handle} {g g' : Generation} {before : Request family → Prop}

namespace Coherent

/-- What a step does to a generation: it serves the requests that are answered, or finalizes. -/
theorem serves_or_finishes (hs : s.Coherent) (hg : s.generation? h = some g) (x : Step α) :
    ∃ g', (x.run s).2.generation? h = some g' ∧
      ((∀ family, (g.cache family).Serves (s.offer family g)
          (fun r => ⟨family, r⟩ ∈ asked h [⟨α, x⟩] ∧
            (g.cache family).Grants (s.offer family g) r) (g'.cache family)) ∨
        asked h [⟨α, x⟩] = [] ∧ g.Finishes (Free s g) g') := by
  rcases hbegun : g.isFinalizing
  · have hready := hs.ready hg hbegun
    by_cases hx : x.finalizes? = some h
    · have hasked : asked h [⟨α, x⟩] = [] := by
        simp [asked, Step.asks?_eq_none hx]
      cases x with
      | finalize _ given previous =>
        obtain rfl := Option.some.inj hx
        refine ⟨(s.finish g given previous).2, ?_, .inr ⟨hasked, finishes_of_ready hready ..⟩⟩
        rw [Step.run, Run.finalize_eq hg hready]
        exact generation?_put_self (Option.isSome_of_eq_some hg) _
      | root | derive | request | requestAll | requestSignature | construct | constructFields =>
        cases hx
    · have hspares : ∀ y ∈ [(⟨α, x⟩ : Σ α, Step α)], y.2.finalizes? ≠ some h := by
        simpa using hx
      obtain ⟨g', hafter, -, hserves⟩ := hs.after_eq hg hready.finalized hspares
      refine ⟨g', ?_, .inl hserves⟩
      obtain ⟨g₁, hg₁, -⟩ := ((x.change hs).follows hs).generation hg
      change (x.run s).2 = _ at hafter
      rw [hafter, generation?_put] at hg₁ ⊢
      obtain ⟨_, hother, -⟩ := Option.map_eq_some_iff.1 hg₁
      rw [hother]
      rfl
  · obtain ⟨g', hg', -, hserves⟩ := Step.serves_of_begun hs hg hbegun x
    exact ⟨g', hg', .inl hserves⟩

end Coherent

theorem Notes.congr {after : Request family → Prop} (hnotes : s.Notes h before)
    (hiff : ∀ r, before r ↔ after r) : s.Notes h after := by
  obtain rfl := funext fun r => propext (hiff r)
  exact hnotes

theorem mem_answered_step (hg : s.generation? h = some g) {x : Step α} (r : Request family) :
    ⟨family, r⟩ ∈ answered h s [⟨α, x⟩] ↔
      ⟨family, r⟩ ∈ asked h [⟨α, x⟩] ∧ (g.cache family).Grants (s.offer family g) r := by
  rw [answered, answered, List.append_nil, List.mem_filter, isOk_alone_iff hg]

theorem notMem_answered_step (hg : s.generation? h = none) {x : Step α} (r : Request family) :
    ⟨family, r⟩ ∉ answered h s [⟨α, x⟩] := by
  rw [answered, answered, List.append_nil, List.mem_filter, isOk_alone_missing hg]
  exact fun hr => nomatch hr.2

/-- **A step** adds the requests that it makes and that are answered. -/
theorem Notes.run (hnotes : s.Notes h before) (hs : s.Coherent) (x : Step α) :
    (x.run s).2.Notes h fun r => before r ∨ ⟨family, r⟩ ∈ answered h s [⟨α, x⟩] := by
  have hfollows := (x.change hs).follows hs
  rcases hg : s.generation? h with _ | g
  · -- a generation that is started here has no templates and was not asked for any
    have hnothing : ∀ r : Request family,
        ¬ (before r ∨ ⟨family, r⟩ ∈ answered h s [⟨α, x⟩]) := fun r =>
      not_or.2 ⟨hnotes.missing hg r, notMem_answered_step hg r⟩
    refine ⟨fun {g'} hg' => ?_, fun _ => hnothing⟩
    obtain ⟨config, ancestors, rfl⟩ := (x.change hs).new_of_started hg hg'
    have hempty : ∀ key, ((Generation.new h config ancestors).cache family).find? key = none := by
      cases family <;> exact fun _ => rfl
    exact (Cache.Notes.empty hempty).congr fun r => (iff_false_intro (hnothing r)).symm
  · obtain ⟨g', hg', hcases⟩ := hs.serves_or_finishes hg x
    obtain ⟨g₁, hg₁, -, hancestors, -⟩ := hfollows.generation hg
    obtain rfl := Option.some.inj (hg'.symm.trans hg₁)
    have hoffer : (x.run s).2.offer family g' = s.offer family g := by
      funext key
      rw [offer, hancestors]
      exact hfollows.inherited hg family key
    refine ⟨fun {g''} hg'' => ?_, fun hnone => by cases hnone.symm.trans hg'⟩
    obtain rfl := Option.some.inj (hg'.symm.trans hg'')
    rw [hoffer]
    rcases hcases with hserves | ⟨hasked, hfinishes⟩
    · refine ((hnotes.generation hg).serves (hserves family)).congr fun r => ?_
      rw [mem_answered_step hg]
    · obtain ⟨c, hnames, hcache⟩ := hfinishes.cache_eq family
      have hfind : ∀ key, (g'.cache family).find? key = c.find? key := fun key => by
        rw [hcache, Cache.find?_closeIf]
      refine (((hnotes.generation hg).names hnames fun key hfree => hfree).of_find? hfind).congr
        fun r => ?_
      simp [mem_answered_step hg, hasked]

/-- **All steps** together add the requests that are answered. -/
theorem Notes.after (hnotes : s.Notes h before) (hs : s.Coherent) (xs : List (Σ α, Step α)) :
    (s.after xs).Notes h fun r => before r ∨ ⟨family, r⟩ ∈ answered h s xs := by
  induction xs generalizing s before with
  | nil => exact hnotes.congr fun r => by simp [answered]
  | cons x xs ih =>
    have hrest := ih (hnotes.run hs x.2) ((x.2.change hs).coherent hs)
    exact hrest.congr fun r => by simp [answered, or_assoc]

end Session

/-! ## The earliest location -/

theorem le_noLocation (k : UInt64) : k ≤ noLocation :=
  UInt64.le_iff_toNat_le.2 (Nat.le_of_lt_succ k.toNat_lt)

/-- Only the last offset in the last file has the order key that stands for "none". -/
theorem Location.orderKey_eq_noLocation_iff (location : Location) :
    location.orderKey = noLocation ↔
      location.file.ordinal = 0xFFFFFFFF ∧ location.span.start = 0xFFFFFFFF := by
  have hfile := location.file.ordinal.toNat_lt
  have hstart := location.span.start.toNat_lt
  rw [← UInt64.toNat_inj, ← UInt32.toNat_inj, ← UInt32.toNat_inj, toNat_orderKey]
  change _ = 18446744073709551615 ↔ _ = 4294967295 ∧ _ = 4294967295
  omega

/-- The least of some keys, or what stands for "none". -/
theorem IsEarliest.eq_getD_min? {answered : Request family → Prop} {key : family.Key} {e : UInt64}
    {ks : List UInt64} (h : IsEarliest answered key noLocation e)
    (hmem : ∀ k, k ∈ ks ↔ ∃ r, answered r ∧ r.key = key ∧
      ∃ location, r.location = some location ∧ location.orderKey = k) :
    e = ks.min?.getD noLocation := by
  have hle : ∀ x, x ≤ e ↔ ∀ k ∈ ks, x ≤ k := by
    intro x
    rw [h x, and_iff_right (le_noLocation x)]
    simp only [hmem]
    constructor
    · rintro hall _ ⟨r, hr, hkey, location, hlocation, rfl⟩
      exact hall r hr hkey location hlocation
    · exact fun hall r hr hkey location hlocation =>
        hall _ ⟨r, hr, hkey, location, hlocation, rfl⟩
  rcases hmin : ks.min? with _ | m
  · obtain rfl := List.min?_eq_none_iff.1 hmin
    exact UInt64.le_antisymm (le_noLocation e) ((hle noLocation).2 fun _ hk => nomatch hk)
  · obtain ⟨hm, hleast⟩ := List.min?_eq_some_iff.1 hmin
    exact UInt64.le_antisymm ((hle e).1 (UInt64.le_refl e) m hm) ((hle m).2 hleast)

namespace Session

/-- **The location of a template.** After any steps, a template has the least order key of the
locations from which requests for its key were answered by its generation, except that the
greatest order key counts as none. So it has the least one of them exactly if that is not the
greatest there is, which is the one of the last offset in the last file. -/
theorem earliest?_of_answered {xs : List (Σ α, Step α)} {h : Handle}
    {key : Family.shape.Key} {t : Template .shape}
    (ht : (Session.empty.after xs).own? .shape h key = some t) :
    let keys := useKeys h key .empty xs
    t.earliest? = keys.min?.filter (· ≠ noLocation) ∧
    (t.earliest? = keys.min? ↔ keys.min? ≠ some noLocation) ∧
    ∀ location : Location, location.orderKey = noLocation ↔
      location.file.ordinal = 0xFFFFFFFF ∧ location.span.start = 0xFFFFFFFF := by
  intro keys
  have hempty : Session.empty.Notes h fun _ : Request .shape => False :=
    ⟨fun hg => (by cases hg), fun _ _ => id⟩
  have hnotes := hempty.after coherent_empty xs
  obtain ⟨g, hg, hfind⟩ := Option.bind_eq_some_iff.1 ht
  have hword : t.earliest = keys.min?.getD noLocation :=
    ((hnotes.generation hg).held hfind).eq_getD_min? fun k => by
      simp only [keys, mem_useKeys, false_or]
  have hearliest : t.earliest? = keys.min?.filter (· ≠ noLocation) := by
    rw [Template.earliest?, hword]
    rcases keys.min? with _ | m
    · rfl
    · by_cases hm : m = noLocation <;> simp [hm, Option.filter]
  refine ⟨hearliest, ?_, Location.orderKey_eq_noLocation_iff⟩
  rw [hearliest]
  rcases keys.min? with _ | m
  · simp
  · by_cases hm : m = noLocation <;> simp [hm]

/-- A generation without bodies is finalized and continued. Later requests still count if they
are made to the generation itself, and not if they are made to the one that continues it. -/
theorem earliest?_of_late_request : ∃ (xs : List (Σ α, Step α)) (key : Family.shape.Key)
    (t : Template .shape) (late inherited : Location),
    (Session.empty.after xs).own? .shape 0 key = some t ∧ t.isNamed ∧
    ⟨_, .request .shape 0 key (some late)⟩ ∈ xs ∧ ⟨_, .request .shape 1 key (some inherited)⟩ ∈ xs ∧
    inherited.orderKey < late.orderKey ∧ t.earliest? = some late.orderKey := by
  obtain ⟨xs, key, late, inherited, hlate, hinherited, hlt, hnamed, hkeys⟩ :
      ∃ (xs : List (Σ α, Step α)) (key : Family.shape.Key) (late inherited : Location),
        ⟨_, .request .shape 0 key (some late)⟩ ∈ xs ∧
        ⟨_, .request .shape 1 key (some inherited)⟩ ∈ xs ∧ inherited.orderKey < late.orderKey ∧
        ((Session.empty.after xs).own? .shape 0 key).map (·.isNamed) = some true ∧
        (useKeys 0 key .empty xs).min?.filter (· ≠ noLocation) = some late.orderKey :=
    ⟨[⟨_, .root { mode := .metadataOnly }⟩,
        ⟨_, .request .shape 0 ⟨["a"], by decide⟩ (some (.ofOffsets 0 7 9))⟩,
        ⟨_, .finalize 0 .zero none⟩, ⟨_, .derive 0 {}⟩,
        ⟨_, .request .shape 1 ⟨["a"], by decide⟩ (some (.ofOffsets 0 1 2))⟩,
        ⟨_, .request .shape 0 ⟨["a"], by decide⟩ (some (.ofOffsets 0 3 5))⟩],
      ⟨["a"], by decide⟩, .ofOffsets 0 3 5, .ofOffsets 0 1 2, by simp, by simp, by decide,
      by decide +kernel, by decide +kernel⟩
  obtain ⟨t, ht, hnamed⟩ := Option.map_eq_some_iff.1 hnamed
  exact ⟨xs, key, t, late, inherited, ht, hnamed, hlate, hinherited, hlt,
    (earliest?_of_answered ht).1.trans hkeys⟩

/-- **The last position is lost.** A shape is asked for from the last offset in the last file,
and this is answered, but the shape has no location. -/
theorem earliest?_at_last_position : ∃ (xs : List (Σ α, Step α)) (key : Family.shape.Key)
    (t : Template .shape), (Session.empty.after xs).own? .shape 0 key = some t ∧
    (useKeys 0 key .empty xs).min? = some 0xFFFFFFFFFFFFFFFF ∧ t.earliest? = none := by
  obtain ⟨xs, key, hkeys, hnone⟩ : ∃ (xs : List (Σ α, Step α)) (key : Family.shape.Key),
      (useKeys 0 key .empty xs).min? = some 0xFFFFFFFFFFFFFFFF ∧
      ((Session.empty.after xs).own? .shape 0 key).map (·.earliest?) = some none :=
    ⟨[⟨_, .root {}⟩, ⟨_, .request .shape 0 ⟨["x"], by decide⟩
        (some (.ofOffsets 0xFFFFFFFF 0xFFFFFFFF 0xFFFFFFFF))⟩], ⟨["x"], by decide⟩,
      by decide +kernel, by decide +kernel⟩
  obtain ⟨t, ht, hnone⟩ := Option.map_eq_some_iff.1 hnone
  exact ⟨xs, key, t, ht, hkeys, hnone⟩

end Session

end AnonymousTypes
