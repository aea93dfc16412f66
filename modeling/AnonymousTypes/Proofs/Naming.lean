import AnonymousTypes.Proofs.Finishing
import AnonymousTypes.Proofs.Spelling

/-!
# Which names are given

Finalization that succeeds leaves no choice about the names. `Cache.Carries` and
`Cache.Numbered` say what its two parts do to every template, and `Generation.Finished` puts
them together: a shape that an earlier output recorded gets the recorded identity, and every
other one is numbered by its rank among those (`Finished.shape`). Delegates are numbered by
the rank of their names (`Finished.delegate`).
-/

namespace AnonymousTypes

variable {family : Family}

namespace Template

/-- The order in which shapes are named. -/
def shapeCompare (a b : Template .shape) : Ordering :=
  (compare a.earliest? b.earliest?).then (compare a.key.canonical b.key.canonical)

/-- The order in which delegates are numbered. -/
def delegateCompare (a b : Template .delegate) : Ordering :=
  compare a.key.typeName b.key.typeName

instance : Std.TransCmp shapeCompare :=
  inferInstanceAs (Std.TransCmp (compareLex (compareOn earliest?)
    (compareOn fun t : Template .shape => ShapeKey.canonical t.key)))

instance : Std.TransCmp delegateCompare :=
  inferInstanceAs (Std.TransCmp (compareOn fun t : Template .delegate =>
    DelegateKey.typeName t.key))

theorem key_eq_of_shapeCompare {a b : Template .shape} (h : shapeCompare a b = .eq) :
    a.key = b.key :=
  ShapeKey.canonical_inj.1 (Std.LawfulEqOrd.eq_of_compare (Ordering.then_eq_eq.1 h).2)

theorem key_eq_of_delegateCompare {a b : Template .delegate} (h : delegateCompare a b = .eq) :
    a.key = b.key :=
  DelegateKey.typeName_inj.1 (Std.LawfulEqOrd.eq_of_compare h)

end Template

namespace Cache

/-! ## Carrying -/

/-- `c'` is what becomes of `c` when recorded identities are carried forward, all of them. -/
structure Carries (c : Cache .shape) (known : ShapeKey → Option Identity)
    (entries : List (ShapeKey × Identity)) (carried : List ShapeKey) (c' : Cache .shape) :
    Prop where
  frame_eq : c'.frame = c.frame
  carried_eq : carried = (entries.filter fun e => (known e.1).isNone).map Prod.fst
  /-- what is known already agrees with the record -/
  agrees : ∀ {key identity existing}, (key, identity) ∈ entries → known key = some existing →
    existing = identity
  adopted : ∀ {key identity}, (key, identity) ∈ entries → known key = none →
    c'.find? key = some { (c.find? key).getD (.ofKey key c.owner) with identity := some identity }
  kept : ∀ {key}, (∀ identity, (key, identity) ∈ entries → known key ≠ none) →
    c'.find? key = c.find? key

/-- An identity is carried forward, and then the others are. -/
theorem Carries.adopt {c c' : Cache .shape} (hopen : c.isSealed = false)
    {known : ShapeKey → Option Identity} {key : ShapeKey} {identity : Identity}
    {rest : List (ShapeKey × Identity)} (hrest : ∀ i, (key, i) ∉ rest)
    (hknown : known key = none) {carried : List ShapeKey}
    (h : (c.adopt key identity).Carries known rest carried c') :
    c.Carries known ((key, identity) :: rest) (key :: carried) c' := by
  have hframe := frame_adopt hopen key identity
  have hkept : c'.find? key = (c.adopt key identity).find? key :=
    h.kept fun i hmem => absurd hmem (hrest i)
  refine ⟨h.frame_eq.trans hframe, ?_, ?_, ?_, ?_⟩
  · simp only [List.filter_cons, hknown, Option.isNone_none, if_true, List.map_cons,
      ← h.carried_eq]
  · intro other i existing hmem hexisting
    rcases List.mem_cons.1 hmem with he | hmem
    · obtain ⟨rfl, rfl⟩ := Prod.mk.inj he
      rw [hknown] at hexisting
      cases hexisting
    · exact h.agrees hmem hexisting
  · intro other i hmem hother
    rcases List.mem_cons.1 hmem with he | hmem
    · obtain ⟨rfl, rfl⟩ := Prod.mk.inj he
      rw [hkept, find?_adopt_self hopen]
    · have hne : other ≠ key := fun he => hrest i (he ▸ hmem)
      rw [h.adopted hmem hother, find?_adopt_ne hopen identity hne, owner_of_frame hframe]
  · intro other hnot
    have hne : other ≠ key := fun he => hnot identity (he ▸ List.mem_cons_self ..) (he ▸ hknown)
    rw [h.kept fun i hmem => hnot i (List.mem_cons_of_mem _ hmem),
      find?_adopt_ne hopen identity hne]

/-- An identity that is known already is passed over. -/
theorem Carries.skip {c c' : Cache .shape} {known : ShapeKey → Option Identity} {key : ShapeKey}
    {identity : Identity} {rest : List (ShapeKey × Identity)} (hknown : known key = some identity)
    {carried : List ShapeKey} (h : c.Carries known rest carried c') :
    c.Carries known ((key, identity) :: rest) carried c' := by
  refine ⟨h.frame_eq, ?_, ?_, ?_, ?_⟩
  · simp only [List.filter_cons, hknown, Option.isNone_some, Bool.false_eq_true, if_false,
      ← h.carried_eq]
  · intro other i existing hmem hexisting
    rcases List.mem_cons.1 hmem with he | hmem
    · obtain ⟨rfl, rfl⟩ := Prod.mk.inj he
      exact Option.some.inj (hexisting.symm.trans hknown)
    · exact h.agrees hmem hexisting
  · intro other i hmem hother
    rcases List.mem_cons.1 hmem with he | hmem
    · obtain ⟨rfl, rfl⟩ := Prod.mk.inj he
      rw [hknown] at hother
      cases hother
    · exact h.adopted hmem hother
  · exact fun hnot => h.kept fun i hmem => hnot i (List.mem_cons_of_mem _ hmem)

theorem carries_of_ok {c c' : Cache .shape} (hopen : c.isSealed = false)
    {known : ShapeKey → Option Identity} {entries : List (ShapeKey × Identity)}
    (hnodup : (entries.map Prod.fst).Nodup) {carried : List ShapeKey}
    (h : c.carry known entries = (.ok carried, c')) : c.Carries known entries carried c' := by
  induction entries generalizing c carried with
  | nil =>
    cases h
    exact ⟨rfl, rfl, fun h => (nomatch h), fun h => (nomatch h), fun _ => rfl⟩
  | cons e rest ih =>
    obtain ⟨key, identity⟩ := e
    rw [List.map_cons, List.nodup_cons] at hnodup
    have hrest : ∀ i, (key, i) ∉ rest := fun i hmem => hnodup.1 (List.mem_map.2 ⟨_, hmem, rfl⟩)
    obtain ⟨hknown, heq⟩ | ⟨hknown, heq⟩ | ⟨_, -, -, heq⟩ :=
      carry_cases c known key identity rest <;> rw [heq] at h
    · obtain ⟨hanswer, rfl⟩ := Prod.mk.inj h
      obtain ⟨carried', hok, rfl⟩ := map_eq_ok_iff.1 hanswer
      exact .adopt hopen hrest hknown
        (ih (isSealed_adopt hopen key identity) hnodup.2 (Prod.ext hok rfl))
    · exact .skip hknown (ih hopen hnodup.2 h)
    · cases h

/-! ## Numbering -/

theorem toNat_of_nextIndex {index next : UInt32} (h : nextIndex index = .ok next) :
    next.toNat = index.toNat + 1 := by
  rw [nextIndex] at h
  split at h
  · rename_i hlt
    cases h
    rw [UInt32.toNat_add]
    exact Nat.mod_eq_of_lt hlt
  · cases h

/-- There is no index after the last. -/
theorem le_of_nextIndex_error {index : UInt32} {fault : Fault}
    (h : nextIndex index = .error fault) : UInt32.size ≤ index.toNat + 1 := by
  rw [nextIndex] at h
  split at h
  · cases h
  · rename_i hlt
    exact Nat.le_of_not_lt hlt

/-- `c'` is what becomes of `c` when the templates of some keys are numbered from an index on,
for as long as there are indices. -/
structure Numbered (c : Cache family) (identityOf : family.Key → UInt32 → Identity)
    (keys : List family.Key) (index : UInt32) (c' : Cache family) : Prop where
  named : ∀ {r key t}, keys[r]? = some key → c.find? key = some t → ∀ i : UInt32,
    i.toNat = index.toNat + r →
      c'.find? key = some { t with identity := some (identityOf key i) }
  /-- what comes after the last index is not numbered -/
  late : ∀ {r key}, keys[r]? = some key → UInt32.size ≤ index.toNat + r →
    c'.find? key = c.find? key
  kept : ∀ {key}, key ∉ keys → c'.find? key = c.find? key

/-- **Numbering** goes on until there are no keys or no indices left. -/
theorem numbered_nameAll (c : Cache family) (identityOf : family.Key → UInt32 → Identity)
    {keys : List family.Key} (hnodup : keys.Nodup) (index : UInt32) :
    c.Numbered identityOf keys index (c.nameAll identityOf keys index).2 := by
  induction keys generalizing c index with
  | nil => exact ⟨fun hr => (nomatch hr), fun hr => (nomatch hr), fun _ => rfl⟩
  | cons key rest ih =>
    obtain ⟨hnot, hnodup⟩ := List.nodup_cons.1 hnodup
    have hkept : ∀ other, other ≠ key →
        (c.name key (identityOf key index)).find? other = c.find? other :=
      fun other hne => find?_name_ne c _ hne
    have hne : ∀ {r other}, rest[r]? = some other → other ≠ key := fun hr he =>
      hnot (he ▸ List.mem_of_getElem? hr)
    have hindex := index.toNat_lt_size
    rw [nameAll]
    rcases hnext : nextIndex index with fault | second
    · -- the index is the last one: this key gets it, and the keys behind get none
      have hlast := le_of_nextIndex_error hnext
      refine ⟨?_, ?_, fun hother => hkept _ fun he => hother (he ▸ List.mem_cons_self ..)⟩
      · intro r other t hr ht i hi
        rcases r with _ | r
        · obtain rfl := Option.some.inj hr
          obtain rfl : i = index := UInt32.toNat_inj.1 hi
          exact find?_name_self ht _
        · have hlt := i.toNat_lt_size
          omega
      · intro r other hr hlate
        rcases r with _ | r
        · omega
        · exact hkept other (hne hr)
    · -- the rest is numbered from the next index, and does not come back to this key
      have hih := ih (c.name key (identityOf key index)) hnodup second
      have hsecond := toNat_of_nextIndex hnext
      refine ⟨?_, ?_, ?_⟩
      · intro r other t hr ht i hi
        rcases r with _ | r
        · obtain rfl := Option.some.inj hr
          obtain rfl : i = index := UInt32.toNat_inj.1 hi
          exact (hih.kept hnot).trans (find?_name_self ht _)
        · exact hih.named hr ((hkept other (hne hr)).trans ht) i (by omega)
      · intro r other hr hlate
        rcases r with _ | r
        · omega
        · exact (hih.late hr (by omega)).trans (hkept other (hne hr))
      · intro other hother
        rw [List.mem_cons, not_or] at hother
        exact (hih.kept hother.2).trans (hkept other hother.1)

/-- The counter moves by the number of keys. -/
theorem toNat_of_nameAll {c c' : Cache family} {identityOf : family.Key → UInt32 → Identity}
    {keys : List family.Key} {index next : UInt32}
    (h : c.nameAll identityOf keys index = (.ok next, c')) :
    next.toNat = index.toNat + keys.length := by
  induction keys generalizing c index with
  | nil =>
    cases h
    rfl
  | cons key rest ih =>
    rw [nameAll] at h
    rcases hnext : nextIndex index with fault | second
    · rw [hnext] at h
      cases h
    · rw [hnext] at h
      rw [ih h, toNat_of_nextIndex hnext, List.length_cons]
      omega

/-- The order of numbering tells any of the templates apart. -/
theorem Keyed.pairwise_filter {c : Cache family} (hkeyed : c.Keyed)
    {cmp : Template family → Template family → Ordering}
    (hcmp : ∀ a b, cmp a b = .eq → a.key = b.key) (p : Template family → Bool) :
    (c.templates.filter p).Pairwise fun a b => cmp a b ≠ .eq :=
  (List.pairwise_map.1 (hkeyed.nodup_keys.sublist (List.filter_sublist.map _))).imp
    fun hne he => hne (hcmp _ _ he)

/-- The rank of a template among the unnamed ones is the position of its key. -/
theorem Keyed.getElem?_unnamedKeys {c : Cache family} (hkeyed : c.Keyed)
    {cmp : Template family → Template family → Ordering} [Std.TransCmp cmp]
    (hcmp : ∀ a b, cmp a b = .eq → a.key = b.key) {unnamed : List (Template family)}
    (hperm : (c.templates.filter fun t => !t.isNamed).Perm unnamed) {t : Template family}
    (ht : t ∈ unnamed) :
    c.find? t.key = some t ∧ (c.unnamedKeys fun a b => (cmp a b).isLE)[
      unnamed.countP fun u => cmp u t = .lt]? = some t.key := by
  have hsorted := sortList_perm (fun a b => (cmp a b).isLE) (c.templates.filter fun t => !t.isNamed)
  have hmem := hperm.mem_iff.2 ht
  obtain ⟨r, hr⟩ := List.getElem?_of_mem (hsorted.mem_iff.2 hmem)
  have hrank := countP_lt_of_getElem? (sortList_isLT (hkeyed.pairwise_filter hcmp _)) hr
  rw [(hsorted.trans hperm).countP_eq] at hrank
  refine ⟨hkeyed.find?_of_mem (List.mem_filter.1 hmem).1, ?_⟩
  rw [hrank, unnamedKeys, List.getElem?_map, hr]
  rfl

/-- As many templates are numbered as are unnamed. -/
theorem length_unnamedKeys {c : Cache family} (le : Template family → Template family → Bool)
    {unnamed : List (Template family)}
    (hperm : (c.templates.filter fun t => !t.isNamed).Perm unnamed) :
    (c.unnamedKeys le).length = unnamed.length := by
  rw [unnamedKeys, List.length_map, ((sortList_perm le _).trans hperm).length_eq]

/-- **The rank of a template** among the unnamed ones decides its index. -/
theorem rank_of_ok {c c' : Cache family} {identityOf : family.Key → UInt32 → Identity}
    {index next : UInt32} {cmp : Template family → Template family → Ordering}
    [Std.TransCmp cmp] (hcmp : ∀ a b, cmp a b = .eq → a.key = b.key) (hkeyed : c.Keyed)
    (h : c.nameAll identityOf (c.unnamedKeys fun a b => (cmp a b).isLE) index = (.ok next, c'))
    {unnamed : List (Template family)}
    (hperm : (c.templates.filter fun t => !t.isNamed).Perm unnamed) :
    next.toNat = index.toNat + unnamed.length ∧
    ∀ t ∈ unnamed, ∃ i : UInt32,
      i.toNat = index.toNat + (unnamed.countP fun u => cmp u t = .lt) ∧
      c'.find? t.key = some { t with identity := some (identityOf t.key i) } := by
  have hnumbered := c.numbered_nameAll identityOf
    (hkeyed.nodup_unnamedKeys fun a b => (cmp a b).isLE) index
  rw [h] at hnumbered
  have hnext := toNat_of_nameAll h
  rw [length_unnamedKeys _ hperm] at hnext
  refine ⟨hnext, fun t ht => ?_⟩
  obtain ⟨hfind, hkey⟩ := hkeyed.getElem?_unnamedKeys hcmp hperm ht
  have hrank : (unnamed.countP fun u => cmp u t = .lt) < unnamed.length := countP_lt_length ht
  have hlt := next.toNat_lt_size
  have hi := UInt32.toNat_ofNat_of_lt' (n := index.toNat + unnamed.countP fun u => cmp u t = .lt)
    (by omega)
  exact ⟨_, hi, hnumbered.named hkey hfind _ hi⟩

end Cache

namespace Generation

/-- The shapes that no earlier output has recorded. -/
def unrecorded (g : Generation) (entries : List (ShapeKey × Identity)) :
    List (Template .shape) :=
  g.shapes.templates.filter fun t => t.key ∉ entries.map Prod.fst

/-- `g'` is what becomes of `g` when finalization succeeds. -/
structure Finished (g : Generation) (known : ShapeKey → Option Identity) (start : Numbering)
    (entries : List (ShapeKey × Identity)) (carried : List ShapeKey) (numbering : Numbering)
    (g' : Generation) : Prop where
  finalized_eq : g'.finalized = some numbering
  handedOff_eq : g'.handedOff = g.handedOff ++ [g'.definitions carried]
  carried_eq : carried = (entries.filter fun e => (known e.1).isNone).map Prod.fst
  agrees : ∀ {key identity existing}, (key, identity) ∈ entries → known key = some existing →
    existing = identity
  recorded : ∀ {key identity}, (key, identity) ∈ entries → known key = none →
    g'.shapes.find? key = some
      { (g.shapes.find? key).getD (.ofKey key g.shapes.owner) with identity := some identity }
  shape : ∀ t ∈ g.unrecorded entries, ∃ i : UInt32,
    i.toNat = start.nextShape.toNat +
      ((g.unrecorded entries).countP fun u => Template.shapeCompare u t = .lt) ∧
    g'.shapes.find? t.key = some { t with identity := some (g.shapeIdentity t.key i) }
  noShape : ∀ {key}, g.shapes.find? key = none →
    (∀ identity, (key, identity) ∈ entries → known key ≠ none) → g'.shapes.find? key = none
  delegate : ∀ t ∈ g.delegates.templates, ∃ i : UInt32,
    i.toNat = start.nextDelegate.toNat +
      (g.delegates.templates.countP fun u => Template.delegateCompare u t = .lt) ∧
    g'.delegates.find? t.key = some { t with identity := some (delegateIdentity t.key i) }
  noDelegate : ∀ {key}, g.delegates.find? key = none → g'.delegates.find? key = none
  nextShape_eq : numbering.nextShape.toNat = start.nextShape.toNat + (g.unrecorded entries).length
  nextDelegate_eq : numbering.nextDelegate.toNat =
    start.nextDelegate.toNat + g.delegates.templates.length

namespace Finished

variable {g g' : Generation} {known : ShapeKey → Option Identity} {start numbering : Numbering}
  {entries : List (ShapeKey × Identity)} {carried : List ShapeKey}

/-- The shapes are those that were there and those that are adopted. -/
theorem isSome_shape_iff (h : g.Finished known start entries carried numbering g')
    (hkeyed : g.shapes.Keyed) (hclear : ∀ key t, g.shapes.find? key = some t → known key = none)
    (key : ShapeKey) : (g'.shapes.find? key).isSome ↔
      (g.shapes.find? key).isSome ∨ key ∈ entries.map Prod.fst ∧ known key = none := by
  have hadopted : key ∈ entries.map Prod.fst → known key = none →
      (g'.shapes.find? key).isSome := by
    intro hmem hknown
    obtain ⟨⟨_, identity⟩, hentry, rfl⟩ := List.mem_map.1 hmem
    exact Option.isSome_of_eq_some (h.recorded hentry hknown)
  constructor
  · intro hsome
    rcases hkey : g.shapes.find? key with _ | t
    · refine .inr (Classical.byContradiction fun hnot => ?_)
      rw [h.noShape hkey fun identity hentry hknown =>
        hnot ⟨List.mem_map_of_mem (f := Prod.fst) hentry, hknown⟩] at hsome
      cases hsome
    · exact .inl rfl
  · rintro (hsome | ⟨hmem, hknown⟩)
    · obtain ⟨t, ht⟩ := Option.isSome_iff_exists.1 hsome
      by_cases hmem : key ∈ entries.map Prod.fst
      · exact hadopted hmem (hclear key t ht)
      · obtain rfl := hkeyed key t ht
        obtain ⟨i, -, hfind⟩ := h.shape t
          (List.mem_filter.2 ⟨Cache.mem_templates_iff.2 ⟨_, ht⟩, decide_eq_true hmem⟩)
        exact Option.isSome_of_eq_some hfind
    · exact hadopted hmem hknown

/-- The generation has no shape that it inherits. -/
theorem known_eq_none (h : g.Finished known start entries carried numbering g')
    (hclear : ∀ key t, g.shapes.find? key = some t → known key = none) {key : ShapeKey}
    (hsome : (g'.shapes.find? key).isSome) : known key = none := by
  rcases hknown : known key with _ | existing
  · rfl
  · have hnone : g.shapes.find? key = none := by
      rcases hkey : g.shapes.find? key with _ | t₀
      · rfl
      · rw [hclear key t₀ hkey] at hknown
        cases hknown
    rw [h.noShape hnone fun _ _ hnone => by rw [hknown] at hnone; cases hnone] at hsome
    cases hsome

/-- A shape that is recorded has the recorded identity. -/
theorem identity_of_recorded (h : g.Finished known start entries carried numbering g')
    (hclear : ∀ key t, g.shapes.find? key = some t → known key = none) {key : ShapeKey}
    {identity : Identity} {t : Template .shape} (hentry : (key, identity) ∈ entries)
    (ht : g'.shapes.find? key = some t) : t.identity = some identity := by
  rw [h.recorded hentry (h.known_eq_none hclear (Option.isSome_of_eq_some ht))] at ht
  rw [← Option.some.inj ht]

/-- A shape has a recorded identity or is numbered by its rank. -/
theorem shape_cases (h : g.Finished known start entries carried numbering g')
    (hkeyed : g.shapes.Keyed) (hclear : ∀ key t, g.shapes.find? key = some t → known key = none)
    {key : ShapeKey} {t : Template .shape} (ht : g'.shapes.find? key = some t) :
    (∃ identity, (key, identity) ∈ entries ∧ t.identity = some identity) ∨
    key ∉ entries.map Prod.fst ∧ ∃ u ∈ g.unrecorded entries, u.key = key ∧ ∃ i : UInt32,
      i.toNat = start.nextShape.toNat +
        ((g.unrecorded entries).countP fun v => Template.shapeCompare v u = .lt) ∧
      t.identity = some (g.shapeIdentity key i) := by
  by_cases hmem : key ∈ entries.map Prod.fst
  · obtain ⟨⟨_, identity⟩, hentry, rfl⟩ := List.mem_map.1 hmem
    exact .inl ⟨identity, hentry, h.identity_of_recorded hclear hentry ht⟩
  · have hsome := (h.isSome_shape_iff hkeyed hclear key).1 (Option.isSome_of_eq_some ht)
    obtain ⟨u, hu⟩ := Option.isSome_iff_exists.1 (hsome.resolve_right fun hr => hmem hr.1)
    obtain rfl := hkeyed key u hu
    have hfresh : u ∈ g.unrecorded entries :=
      List.mem_filter.2 ⟨Cache.mem_templates_iff.2 ⟨_, hu⟩, decide_eq_true hmem⟩
    obtain ⟨i, hi, hfind⟩ := h.shape u hfresh
    rw [ht] at hfind
    exact .inr ⟨hmem, u, hfresh, rfl, i, hi, by rw [Option.some.inj hfind]⟩

/-- No delegate is added. -/
theorem isSome_delegate_iff (h : g.Finished known start entries carried numbering g')
    (hkeyed : g.delegates.Keyed) (key : DelegateKey) :
    (g'.delegates.find? key).isSome ↔ (g.delegates.find? key).isSome := by
  rcases hkey : g.delegates.find? key with _ | t
  · rw [h.noDelegate hkey]
  · obtain rfl := hkeyed key t hkey
    obtain ⟨i, -, hfind⟩ := h.delegate t (Cache.mem_templates_iff.2 ⟨_, hkey⟩)
    rw [hfind]
    exact ⟨fun _ => rfl, fun _ => rfl⟩

/-- A delegate is numbered by its rank among all delegates of the cache, since none of them is
named before. -/
theorem delegate_cases (h : g.Finished known start entries carried numbering g')
    (hkeyed : g.delegates.Keyed) {key : DelegateKey} {t : Template .delegate}
    (ht : g'.delegates.find? key = some t) :
    ∃ u ∈ g.delegates.templates, u.key = key ∧ ∃ i : UInt32,
      i.toNat = start.nextDelegate.toNat +
        (g.delegates.templates.countP fun v => Template.delegateCompare v u = .lt) ∧
      t.identity = some (delegateIdentity key i) := by
  obtain ⟨u, hu⟩ := Option.isSome_iff_exists.1
    ((h.isSome_delegate_iff hkeyed key).1 (Option.isSome_of_eq_some ht))
  obtain rfl := hkeyed key u hu
  have hmem : u ∈ g.delegates.templates := Cache.mem_templates_iff.2 ⟨_, hu⟩
  obtain ⟨i, hi, hfind⟩ := h.delegate u hmem
  rw [ht] at hfind
  exact ⟨u, hmem, rfl, i, hi, by rw [Option.some.inj hfind]⟩

end Finished

/-- Carrying leaves every template at its key. -/
theorem Ready.keyed_of_carry {g : Generation} {h : Handle} (hready : g.Ready h)
    {known : ShapeKey → Option Identity} {entries : List (ShapeKey × Identity)}
    {answer : Except Failure (List ShapeKey)} {shapes : Cache .shape}
    (hcarry : g.shapes.carry known entries = (answer, shapes)) : shapes.Keyed := by
  have hkeyed := (hready.keyed .shape).carry hready.isSealed known entries
  rwa [show g.cache .shape = g.shapes from rfl, hcarry] at hkeyed

/-- No delegate is named before finalization. -/
theorem Ready.filter_delegates {g : Generation} {h : Handle} (hready : g.Ready h) :
    g.delegates.templates.filter (fun t => !t.isNamed) = g.delegates.templates := by
  have hkeyed : g.delegates.Keyed := hready.keyed .delegate
  refine List.filter_eq_self.2 fun t ht => ?_
  rw [Template.isNamed, hready.unnamed .delegate t.key t (hkeyed.find?_of_mem ht)]
  rfl

/-- What is unnamed after carrying are the shapes that nobody has recorded. -/
theorem unnamed_perm_unrecorded {g : Generation} {h : Handle} (hready : g.Ready h)
    {known : ShapeKey → Option Identity}
    (hclear : ∀ key t, g.shapes.find? key = some t → known key = none)
    {entries : List (ShapeKey × Identity)} {carried : List ShapeKey} {c : Cache .shape}
    (hkeyed : c.Keyed) (hcarries : g.shapes.Carries known entries carried c) :
    (c.templates.filter fun t => !t.isNamed).Perm (g.unrecorded entries) := by
  have hnodup : ∀ {c : Cache .shape}, c.Keyed → c.templates.Nodup := fun hkeyed =>
    List.Pairwise.of_map _ (fun _ _ hne he => hne (congrArg Template.key he)) hkeyed.nodup_keys
  have hkeyed₀ : g.shapes.Keyed := hready.keyed .shape
  refine (List.perm_ext_iff_of_nodup ((hnodup hkeyed).filter _) ((hnodup hkeyed₀).filter _)).2 ?_
  intro t
  rw [List.mem_filter, List.mem_filter]
  constructor
  · rintro ⟨hmem, hunnamed⟩
    have ht := hkeyed.find?_of_mem hmem
    have hnot : ∀ identity, (t.key, identity) ∈ entries → known t.key ≠ none := by
      intro identity hentry hnone
      rw [hcarries.adopted hentry hnone] at ht
      rw [← Option.some.inj ht] at hunnamed
      cases hunnamed
    rw [hcarries.kept hnot] at ht
    refine ⟨Cache.mem_templates_iff.2 ⟨_, ht⟩, decide_eq_true fun hentry => ?_⟩
    obtain ⟨⟨key, identity⟩, hentry, rfl⟩ := List.mem_map.1 hentry
    exact hnot identity hentry (hclear _ t ht)
  · rintro ⟨hmem, hnot⟩
    have ht := hkeyed₀.find?_of_mem hmem
    have hkept : c.find? t.key = g.shapes.find? t.key := hcarries.kept fun identity hentry _ =>
      of_decide_eq_true hnot (List.mem_map.2 ⟨_, hentry, rfl⟩)
    refine ⟨Cache.mem_templates_iff.2 ⟨_, hkept.trans ht⟩, ?_⟩
    rw [Template.isNamed, hready.unnamed .shape t.key t ht]
    rfl

/-- **Finalization that succeeds** does this and nothing else. Each field is read off from the
part of the work that brings it about; the ranks come from the sorted order of the unnamed keys. -/
theorem finished_of_finish {g g' : Generation} {h : Handle} (hready : g.Ready h)
    {known : ShapeKey → Option Identity}
    (hclear : ∀ key t, g.shapes.find? key = some t → known key = none) {start : Numbering}
    {entries : List (ShapeKey × Identity)} (hnodup : (entries.map Prod.fst).Nodup)
    {carried : List ShapeKey} {numbering : Numbering}
    (hfinish : g.finish known start entries = (.ok (carried, numbering), g')) :
    g.Finished known start entries carried numbering g' := by
  obtain ⟨shapes, shapes', delegates, hcarry, hshapes, hdelegates, rfl⟩ :=
    exists_of_finish_eq_ok hfinish
  have hcarries := Cache.carries_of_ok hready.isSealed hnodup hcarry
  have hkeyed := hready.keyed_of_carry hcarry
  have hkeyed' : g.delegates.Keyed := hready.keyed .delegate
  have hnumbered := shapes.numbered_nameAll g.shapeIdentity
    (hkeyed.nodup_unnamedKeys Template.shapeLe) start.nextShape
  have hnumbered' := g.delegates.numbered_nameAll delegateIdentity
    (hkeyed'.nodup_unnamedKeys Template.delegateLe) start.nextDelegate
  rw [hshapes] at hnumbered
  rw [hdelegates] at hnumbered'
  have hperm := unnamed_perm_unrecorded hready hclear hkeyed hcarries
  obtain ⟨hnext, hrank⟩ :=
    Cache.rank_of_ok (fun _ _ => Template.key_eq_of_shapeCompare) hkeyed hshapes hperm
  obtain ⟨hnext', hrank'⟩ :=
    Cache.rank_of_ok (fun _ _ => Template.key_eq_of_delegateCompare) hkeyed' hdelegates
      (by rw [hready.filter_delegates])
  refine ⟨rfl, rfl, hcarries.carried_eq, hcarries.agrees, ?_, ?_, ?_, hrank', ?_, hnext, hnext'⟩
  · intro key identity hentry hnone
    have hadopted := hcarries.adopted hentry hnone
    -- an adopted shape is named already, so it is not numbered as well
    refine (hnumbered.kept fun hmem => ?_).trans hadopted
    obtain ⟨t, ht, hunnamed⟩ := hkeyed.mem_unnamedKeys.1 hmem
    rw [hadopted] at ht
    rw [← Option.some.inj ht] at hunnamed
    cases hunnamed
  · exact hrank
  · intro key hkey hnot
    have hnone : shapes.find? key = none := (hcarries.kept hnot).trans hkey
    refine (hnumbered.kept fun hmem => ?_).trans hnone
    obtain ⟨t, ht, -⟩ := hkeyed.mem_unnamedKeys.1 hmem
    rw [hnone] at ht
    cases ht
  · intro key hkey
    refine (hnumbered'.kept fun hmem => ?_).trans hkey
    obtain ⟨t, ht, -⟩ := hkeyed'.mem_unnamedKeys.1 hmem
    rw [hkey] at ht
    cases ht

end Generation

end AnonymousTypes
