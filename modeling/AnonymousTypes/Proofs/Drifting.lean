import AnonymousTypes.Proofs.Freezing
import AnonymousTypes.Proofs.Locating

/-!
# Locations that move behind the seal

Shapes are named in the order of their earliest locations. Requests are still noted behind the
seal, so the order could be another one afterwards. The audit is there to prevent this, but it
only knows the locations, not what was asked for from them. A request for one shape passes it
from a location from which only other shapes had been asked for, and if this location is earlier
than those of the shape, then the location of the shape moves (`Session.Strayed`).

Nothing else moves a location (`order_behind_seal`). This is so because every request that came
to the cache before finalization was answered (`mem_answered_of_reaching`), hence noted, and
every request that is answered behind the seal comes from a location that the audit knows
(`Coherent.audited_of_answered`).
-/

namespace AnonymousTypes

variable {family : Family} {α : Type}

namespace Session

/-- The location carried requests to the cache of a family, but none for this key. -/
def CarriedForOthers (s : Session) (h : Handle) (xs : List (Σ α, Step α)) (key : family.Key)
    (location : Location) : Prop :=
  s.Carried h xs family location ∧
    ∀ r : Request family, ⟨family, r⟩ ∈ reaching h s xs → r.location = some location → r.key ≠ key

/-- Among the steps `ys` after `s` a request for a shape is answered that comes from an earlier
location than the shape has in `s`; and before, in the steps `xs`, only requests for other shapes
had come from there. -/
def Strayed (s : Session) (h : Handle) (xs ys : List (Σ α, Step α)) (key : Family.shape.Key) :
    Prop :=
  ∃ r : Request .shape, ⟨.shape, r⟩ ∈ answered h s ys ∧ r.key = key ∧
    ∃ location, r.location = some location ∧
      Session.empty.CarriedForOthers h xs key location ∧
      ∀ t, s.own? .shape h key = some t → location.orderKey < t.earliest

variable {s s' : Session} {h : Handle} {g g' : Generation}

/-! ## Requests that were noted before the seal -/

/-- As long as finalization has not begun, whatever reaches a generation is answered. -/
theorem mem_answered_of_reaching (hs : s.Coherent) {xs : List (Σ α, Step α)}
    (hg' : (s.after xs).generation? h = some g') (hopen : g'.isFinalizing = false)
    {r : Request family} (hr : ⟨family, r⟩ ∈ reaching h s xs) :
    ⟨family, r⟩ ∈ answered h s xs := by
  induction xs generalizing s with
  | nil => cases hr
  | cons x xs ih =>
    have hs' := (x.2.change hs).coherent hs
    rw [answered, List.mem_append]
    rcases mem_reaching_cons.1 hr with ⟨hsome, hasked⟩ | hrest
    · obtain ⟨g, hg⟩ := Option.isSome_iff_exists.1 hsome
      have hfollows := (leadsTo_after s (x :: xs)).follows hs
      have hready := hs.ready hg (hfollows.open_of_open hg hg' hopen)
      have hunsealed : (g.cache family).isSealed = false := by
        rw [(hs hg).isSealed, hready.finalized]
        rfl
      exact .inl (List.mem_filter.2 ⟨hasked,
        (isOk_alone_iff hg r).2 (Cache.grants_of_open hunsealed)⟩)
    · exact .inr (ih hs' hg' hrest)

/-- A template that finalization leaves behind has taken every request for it into account. -/
theorem earliest_le_of_reaching {xs : List (Σ α, Step α)} {given : Numbering}
    {previous : Option IdentityMap} {result : Finalized} {key : family.Key} {t : Template family}
    (hrun : (Step.finalize h given previous).run (Session.empty.after xs) = (.ok result, s))
    (ht : s.own? family h key = some t) {r : Request family}
    (hr : ⟨family, r⟩ ∈ reaching h .empty xs) (hkey : r.key = key) {location : Location}
    (hlocation : r.location = some location) : t.earliest ≤ location.orderKey := by
  have hbefore := (leadsTo_after .empty xs).coherent coherent_empty
  rcases hg : (Session.empty.after xs).generation? h with _ | g
  · rw [Step.run, Run.finalize_missing hg] at hrun
    cases hrun
  · have hopen := (hbefore.finalize_keeps hg hrun).1
    have hanswered := mem_answered_of_reaching coherent_empty hg hopen hr
    have hempty : Session.empty.Notes h fun _ : Request family => False :=
      ⟨fun hg => (by cases hg), fun _ _ => id⟩
    have hnotes := (hempty.after coherent_empty xs).run hbefore (.finalize h given previous)
    rw [hrun] at hnotes
    obtain ⟨g', hg', hfind⟩ := Option.bind_eq_some_iff.1 ht
    have hleast := ((hnotes.generation hg').held hfind t.earliest).1 (UInt64.le_refl _)
    exact hleast.2 r (.inl (.inr hanswered)) hkey location hlocation

/-! ## Requests that are answered behind the seal -/

namespace Coherent

/-- **What is answered behind the seal** comes from a location that the cache knows. -/
theorem audited_of_answered (hs : s.Coherent) (hg : s.generation? h = some g)
    (hsealed : ∀ family, (g.cache family).isSealed = true) {ys : List (Σ α, Step α)}
    {r : Request family} (hr : ⟨family, r⟩ ∈ answered h s ys) {location : Location}
    (hlocation : r.location = some location) : location ∈ (g.cache family).audited := by
  induction ys generalizing s g with
  | nil => cases hr
  | cons y ys ih =>
    rcases List.mem_append.1 hr with hthis | hrest
    · have hgrants := (isOk_alone_iff hg r).1 (List.mem_filter.1 hthis).2
      rcases hgrants.admits with hopen | hall
      · rw [hsealed family] at hopen
        cases hopen
      · exact hall location hlocation
    · obtain ⟨g', hg', hfrozen⟩ := hs.frozen_run hg hsealed y.2
      have hsealed' := fun family => (hfrozen.isSealed_eq family).trans (hsealed family)
      have hmem := ih ((y.2.change hs).coherent hs) hg' hsealed' hrest
      exact ((hfrozen.cache family).audited_iff location).1 hmem

/-- Once finalization has begun, **a template** only takes the requests that are answered into
account. -/
theorem noted_after (hs : s.Coherent) (hg : s.generation? h = some g)
    (hbegun : g.isFinalizing = true) {key : family.Key} {t : Template family}
    (ht : s.own? family h key = some t) (ys : List (Σ α, Step α)) :
    ∃ e, IsEarliest (fun r => ⟨family, r⟩ ∈ answered h s ys) key t.earliest e ∧
      (s.after ys).own? family h key = some { t with earliest := e } := by
  induction ys generalizing s g t with
  | nil => exact ⟨t.earliest, .refl fun _ hr => (nomatch hr), ht⟩
  | cons y ys ih =>
    obtain ⟨g', hg', hframe, hserves⟩ := Step.serves_of_begun hs hg hbegun y.2
    rw [own?_of_generation hg] at ht
    obtain ⟨e, he, hfind⟩ := (hserves family).absorbs.held ht
    rw [← own?_of_generation hg'] at hfind
    have hbegun' := (Generation.isFinalizing_of_frame hframe).trans hbegun
    obtain ⟨e', he', hfind'⟩ := ih ((y.2.change hs).coherent hs) hg' hbegun' hfind
    refine ⟨e', (he.trans he').congr fun r _ => ?_, hfind'⟩
    rw [answered, List.mem_append, List.mem_filter, isOk_alone_iff hg]

end Coherent

/-! ## Where the location of a shape moves -/

section

variable {xs ys zs : List (Σ α, Step α)} {given : Numbering} {previous : Option IdentityMap}
  {result : Finalized}
  (hrun : (Step.finalize h given previous).run (Session.empty.after xs) = (.ok result, s))
  (hg : s.generation? h = some g) (hfull : g.config.mode = .full)

include hrun

theorem coherent_of_finalize : s.Coherent :=
  (leadsTo_of_run hrun).coherent ((leadsTo_after .empty xs).coherent coherent_empty)

include hg

theorem finalized_of_finalize : g.finalized = some result.numbering := by
  obtain ⟨g', hg', hfinal, -⟩ := audited_of_finalized hrun
  obtain rfl := Option.some.inj (hg.symm.trans hg')
  exact hfinal

include hfull

theorem sealed_of_finalize (family : Family) : (g.cache family).isSealed = true := by
  rw [(coherent_of_finalize hrun hg).isSealed, finalized_of_finalize hrun hg, OutputConfig.seals,
    hfull]
  rfl

/-- An earlier location passes the audit only if others were asked for from there. -/
theorem carriedForOthers_of_answered {key : family.Key} {t : Template family}
    (ht : (s.after ys).own? family h key = some t) {r : Request family}
    (hr : ⟨family, r⟩ ∈ answered h (s.after ys) zs) {location : Location}
    (hlocation : r.location = some location) (hlt : location.orderKey < t.earliest) :
    Session.empty.CarriedForOthers h xs key location := by
  have hs := coherent_of_finalize hrun
  have hsealed := sealed_of_finalize hrun hg hfull
  obtain ⟨g', hg', hfrozen⟩ := hs.frozen_after hg hsealed ys
  refine ⟨?_, fun q hq hfrom hkey => ?_⟩
  · obtain ⟨g₀, hg₀, -, hknown⟩ := audited_of_finalized hrun
    obtain rfl := Option.some.inj (hg.symm.trans hg₀)
    have hsealed' := fun family => (hfrozen.isSealed_eq family).trans (hsealed family)
    have hmem := ((leadsTo_after s ys).coherent hs).audited_of_answered hg' hsealed' hr hlocation
    exact (hknown family location).1 (((hfrozen.cache family).audited_iff location).1 hmem)
  · -- the template was there when finalization was done, and its location was not later then
    have hsome := Cache.isSome_eq_of_lasting ((hfrozen.cache family).lasting_eq key)
    rw [← own?_of_generation hg', ← own?_of_generation hg, ht] at hsome
    obtain ⟨t₀, ht₀⟩ := Option.isSome_iff_exists.1 hsome.symm
    have hbegun := (hs hg).finalizing (Option.isSome_of_eq_some (finalized_of_finalize hrun hg))
    obtain ⟨e, he, hafter⟩ := hs.noted_after hg hbegun ht₀ ys
    obtain rfl := Option.some.inj (ht.symm.trans hafter)
    have hle : e ≤ t₀.earliest := ((he e).1 (UInt64.le_refl e)).1
    have hnoted := earliest_le_of_reaching hrun ht₀ hq hkey hfrom
    exact UInt64.not_lt.2 (UInt64.le_trans hle hnoted) hlt

/-- **The location of a shape moves** exactly if a request strays to it. -/
theorem earliest_ne_iff_strayed (ys : List (Σ α, Step α)) {key : ShapeKey} {t : Template .shape}
    (ht : (s.after ys).own? .shape h key = some t) (zs : List (Σ α, Step α)) :
    ∃ e, ((s.after ys).after zs).own? .shape h key = some { t with earliest := e } ∧
      (e ≠ t.earliest ↔ (s.after ys).Strayed h xs zs key) := by
  have hs := coherent_of_finalize hrun
  have hfollows := (leadsTo_after s ys).follows hs
  obtain ⟨g', hg', -, -, hstays⟩ := hfollows.generation hg
  have hbegun := (hs hg).finalizing (Option.isSome_of_eq_some (finalized_of_finalize hrun hg))
  obtain ⟨e, he, hafter⟩ := ((leadsTo_after s ys).coherent hs).noted_after hg'
    (hstays hbegun).1 ht zs
  refine ⟨e, hafter, fun hne => ?_, ?_⟩
  · refine Classical.byContradiction fun hnot => hne (he.eq_of_not_earlier ?_)
    intro r hr hkey location hlocation
    refine UInt64.not_lt.1 fun hlt => hnot ⟨r, hr, hkey, location, hlocation, ?_, ?_⟩
    · exact carriedForOthers_of_answered hrun hg hfull ht hr hlocation hlt
    · exact fun t' ht' => Option.some.inj (ht.symm.trans ht') ▸ hlt
  · rintro ⟨r, hr, hkey, location, hlocation, -, hearlier⟩ rfl
    have hle := ((he _).1 (UInt64.le_refl _)).2 r hr hkey location hlocation
    exact UInt64.not_lt.2 hle (hearlier t ht)

/-- What has strayed since finalization shows in the location. -/
theorem strayed_iff {key : ShapeKey} {t t' : Template .shape} (ht : s.own? .shape h key = some t)
    (ht' : (s.after ys).own? .shape h key = some t') :
    s.Strayed h xs ys key ↔ t'.earliest ≠ t.earliest := by
  obtain ⟨e, hafter, hmoved⟩ := earliest_ne_iff_strayed hrun hg hfull [] ht ys
  obtain rfl := Option.some.inj (ht'.symm.trans hafter)
  exact hmoved.symm

end

end Session

/-! ## The order of the names -/

namespace Generation.Finished

variable {g g' : Generation} {known : ShapeKey → Option Identity} {start numbering : Numbering}
  {entries : List (ShapeKey × Identity)} {carried : List ShapeKey}
  (h : g.Finished known start entries carried numbering g') (hkeyed : g.shapes.Keyed)
  (hclear : ∀ key t, g.shapes.find? key = some t → known key = none)

include h hkeyed hclear

/-- A shape that nobody has recorded has its rank, and has kept its location. -/
theorem exists_rank_of_fresh {t : Template .shape} {i : Identity}
    (ht : g'.shapes.find? t.key = some t) (hi : t.identity = some i)
    (hfresh : t.key ∉ entries.map Prod.fst) :
    ∃ u ∈ g.unrecorded entries, t.earliest = u.earliest ∧ t.key = u.key ∧
      i.index.toNat = start.nextShape.toNat +
        (g.unrecorded entries).countP fun v => Template.shapeCompare v u = .lt := by
  rcases h.shape_cases hkeyed hclear ht with ⟨identity, hentry, -⟩ | ⟨-, u, hu, hkey, -⟩
  · exact absurd (List.mem_map_of_mem (f := Prod.fst) hentry) hfresh
  · obtain ⟨index, hindex, hfind⟩ := h.shape u hu
    rw [hkey, ht] at hfind
    have hsame := Option.some.inj hfind
    have hearliest := congrArg Template.earliest hsame
    have hidentity : some i = some (g.shapeIdentity t.key index) :=
      hi.symm.trans (congrArg Template.identity hsame)
    refine ⟨u, hu, hearliest, hkey.symm, ?_⟩
    rw [Option.some.inj hidentity]
    exact hindex

/-- **The indices** of these shapes have the order of their templates. -/
theorem index_lt_iff {a b : Template .shape} {i j : Identity}
    (ha : g'.shapes.find? a.key = some a) (hb : g'.shapes.find? b.key = some b)
    (hi : a.identity = some i) (hj : b.identity = some j)
    (hfresh : a.key ∉ entries.map Prod.fst) (hfresh' : b.key ∉ entries.map Prod.fst) :
    i.index < j.index ↔ a.Precedes b := by
  obtain ⟨u, hu, hearliest, hkey, hrank⟩ := h.exists_rank_of_fresh hkeyed hclear ha hi hfresh
  obtain ⟨v, hv, hearliest', hkey', hrank'⟩ := h.exists_rank_of_fresh hkeyed hclear hb hj hfresh'
  have hsame : a.Precedes b ↔ Template.shapeCompare u v = .lt := by
    rw [Template.shapeCompare_eq_lt_iff, Template.Precedes, Template.Precedes, hearliest,
      hearliest', hkey, hkey']
  rw [hsame, UInt32.lt_iff_toNat_lt]
  constructor
  · intro hlt
    rcases hcmp : Template.shapeCompare u v
    · rfl
    · have hab : some a = some b := by
        rw [← ha, ← hb, hkey, hkey', Template.key_eq_of_shapeCompare hcmp]
      obtain rfl := Option.some.inj hab
      obtain rfl := Option.some.inj (hi.symm.trans hj)
      exact absurd hlt (Nat.lt_irrefl _)
    · have hless := countP_lt_countP hv (Std.OrientedCmp.lt_of_gt hcmp)
      omega
  · intro hcmp
    have hless := countP_lt_countP hu hcmp
    omega

end Generation.Finished

namespace Session

variable {s : Session} {h : Handle} {g : Generation}

/-- The indices that finalization gave have the order of the templates that it left behind. -/
theorem index_lt_iff_of_finalize {xs : List (Σ α, Step α)} {given : Numbering}
    {previous : Option IdentityMap} {result : Finalized}
    (hrun : (Step.finalize h given previous).run (Session.empty.after xs) = (.ok result, s))
    {a b : Template .shape} {i j : Identity} (ha : s.own? .shape h a.key = some a)
    (hb : s.own? .shape h b.key = some b) (hi : a.identity = some i) (hj : b.identity = some j)
    (hfresh : a.key ∉ ((previous.map (·.entries)).getD []).map Prod.fst)
    (hfresh' : b.key ∉ ((previous.map (·.entries)).getD []).map Prod.fst) :
    i.index < j.index ↔ a.Precedes b := by
  have hbefore := (leadsTo_after .empty xs).coherent coherent_empty
  rcases hg : (Session.empty.after xs).generation? h with _ | g
  · rw [Step.run, Run.finalize_missing hg] at hrun
    cases hrun
  · obtain ⟨carried, g', rfl, hready, hfinished, -⟩ := hbefore.finished hg hrun
    have hself := generation?_put_self (Option.isSome_of_eq_some hg) g'
    rw [own?_of_generation hself] at ha hb
    refine hfinished.index_lt_iff (hready.keyed .shape) (fun key t ht => ?_) ha hb hi hj hfresh
      hfresh'
    exact inheritedIdentity_eq_none_iff.2 ((hbefore hg).clear ht)

/-- **The order of naming behind the seal.** Let a generation be finalized in full mode after
some steps `xs`, and let any steps `ys` follow, on whatever generations.

1. Its shapes are the same ones, with the same owners and the same identities.
2. Whatever steps come then, the earliest location of a shape moves exactly if a request for it
   is answered that comes from an earlier location, and before finalization this location had
   carried requests for other shapes, but none for this one. All other requests leave the
   earliest locations as they are.
3. Two shapes that were not in the map of the previous output, and to which no such request was
   answered since finalization, still come one before the other by earliest location and the
   bytes of the canonical text exactly if their indices do. -/
theorem order_behind_seal {xs : List (Σ α, Step α)} {given : Numbering}
    {previous : Option IdentityMap} {result : Finalized}
    (hrun : (Step.finalize h given previous).run (Session.empty.after xs) = (.ok result, s))
    (hg : s.generation? h = some g) (hfull : g.config.mode = .full) (ys : List (Σ α, Step α)) :
    let s' := s.after ys
    let recorded := ((previous.map (·.entries)).getD []).map Prod.fst
    (∀ key : ShapeKey,
      (s'.own? .shape h key).map (·.lasting) = (s.own? .shape h key).map (·.lasting)) ∧
    (∀ (zs : List (Σ α, Step α)) (key : ShapeKey) t, s'.own? .shape h key = some t →
      ∃ e, (s'.after zs).own? .shape h key = some { t with earliest := e } ∧
        (e ≠ t.earliest ↔ s'.Strayed h xs zs key)) ∧
    ∀ (a b : Template .shape) i j, s'.own? .shape h a.key = some a →
      s'.own? .shape h b.key = some b → a.identity = some i → b.identity = some j →
      a.key ∉ recorded → b.key ∉ recorded →
      ¬ s.Strayed h xs ys a.key → ¬ s.Strayed h xs ys b.key →
      (a.Precedes b ↔ i.index < j.index) := by
  intro s' recorded
  have hs := coherent_of_finalize hrun
  obtain ⟨g', hg', hfrozen⟩ := hs.frozen_after hg (sealed_of_finalize hrun hg hfull) ys
  have hlasting : ∀ key : ShapeKey,
      (s'.own? .shape h key).map (·.lasting) = (s.own? .shape h key).map (·.lasting) := by
    intro key
    rw [own?_of_generation hg', own?_of_generation hg]
    exact (hfrozen.cache .shape).lasting_eq key
  -- a shape to which nothing has strayed is still the one that finalization left behind
  have hstill : ∀ t : Template .shape, s'.own? .shape h t.key = some t →
      ¬ s.Strayed h xs ys t.key → s.own? .shape h t.key = some t := by
    intro t ht hstrayed
    have hsome := Cache.isSome_eq_of_lasting (hlasting t.key)
    rw [ht] at hsome
    obtain ⟨t₀, ht₀⟩ := Option.isSome_iff_exists.1 hsome.symm
    obtain ⟨e, hafter, hmoved⟩ :=
      earliest_ne_iff_strayed hrun hg hfull [] ht₀ ys
    obtain rfl : t = { t₀ with earliest := e } := Option.some.inj (ht.symm.trans hafter)
    obtain rfl : e = t₀.earliest := Classical.byContradiction fun hne => hstrayed (hmoved.1 hne)
    exact ht₀
  refine ⟨hlasting, fun zs key t ht => earliest_ne_iff_strayed hrun hg hfull ys ht zs, ?_⟩
  intro a b i j ha hb hi hj hfresh hfresh' hstrayed hstrayed'
  exact (index_lt_iff_of_finalize hrun (hstill a ha hstrayed) (hstill b hb hstrayed') hi hj hfresh
    hfresh').symm

/-- A root is asked for three shapes, for the first one from the last location. -/
def threeShapes (x y z : ShapeKey) (early middle late : Location) : List (Σ α, Step α) :=
  [⟨_, .root {}⟩, ⟨_, .request .shape 0 x (some late)⟩, ⟨_, .request .shape 0 y (some early)⟩,
    ⟨_, .request .shape 0 z (some middle)⟩]

/-- Once it is finalized, it is asked for the first shape from where the second one came from.
The other two have kept their order. -/
theorem order_behind_seal_borrowed : ∃ (xs ys : List (Σ α, Step α)) (result : Finalized)
    (s : Session) (x : ShapeKey) (a b : Template .shape) (i j : Identity),
    (Step.finalize 0 .zero none).run (Session.empty.after xs) = (.ok result, s) ∧
    s.Strayed 0 xs ys x ∧ ¬ s.Strayed 0 xs ys a.key ∧ ¬ s.Strayed 0 xs ys b.key ∧
    (s.after ys).own? .shape 0 a.key = some a ∧ (s.after ys).own? .shape 0 b.key = some b ∧
    a.identity = some i ∧ b.identity = some j ∧ a.Precedes b ∧ i.index < j.index := by
  obtain ⟨xs, ys, x, y, z, hok, hmode, t, ht, t', ht', hmoved, a₀, ha₀, a, ha, hkept, b₀, hb₀, b,
      hb, hkept', ⟨hkey, hkey'⟩, i, hi, j, hj, hprecedes⟩ :
      ∃ (xs ys : List (Σ α, Step α)) (x y z : ShapeKey),
        let finalized := (Step.finalize 0 .zero none).run (Session.empty.after xs)
        let later := finalized.2.after ys
        finalized.1.toOption.isSome ∧
        (finalized.2.generation? 0).map (·.config.mode) = some .full ∧
        ∃ t ∈ finalized.2.own? .shape 0 x, ∃ t' ∈ later.own? .shape 0 x,
          t'.earliest ≠ t.earliest ∧
        ∃ a₀ ∈ finalized.2.own? .shape 0 y, ∃ a ∈ later.own? .shape 0 y,
          a.earliest = a₀.earliest ∧
        ∃ b₀ ∈ finalized.2.own? .shape 0 z, ∃ b ∈ later.own? .shape 0 z,
          b.earliest = b₀.earliest ∧ (a.key = y ∧ b.key = z) ∧
        ∃ i ∈ a.identity, ∃ j ∈ b.identity, a.Precedes b :=
    ⟨threeShapes ⟨["x"], by decide⟩ ⟨["y"], by decide⟩ ⟨["z"], by decide⟩ (.ofOffsets 0 3 4)
        (.ofOffsets 0 5 6) (.ofOffsets 0 7 8),
      [⟨_, .request .shape 0 ⟨["x"], by decide⟩ (some (.ofOffsets 0 3 4))⟩], ⟨["x"], by decide⟩,
      ⟨["y"], by decide⟩, ⟨["z"], by decide⟩, by decide +kernel⟩
  subst hkey hkey'
  rcases hrun : (Step.finalize 0 .zero none).run (Session.empty.after xs) with ⟨_ | result, s⟩
  · rw [hrun] at hok
    cases hok
  · rw [hrun] at hmode ht ht' ha₀ ha hb₀ hb
    obtain ⟨g, hg, hfull⟩ := Option.map_eq_some_iff.1 hmode
    have hx : s.Strayed 0 xs ys x := (strayed_iff hrun hg hfull ht ht').2 hmoved
    have hy : ¬ s.Strayed 0 xs ys a.key := fun hstrayed =>
      (strayed_iff hrun hg hfull ha₀ ha).1 hstrayed hkept
    have hz : ¬ s.Strayed 0 xs ys b.key := fun hstrayed =>
      (strayed_iff hrun hg hfull hb₀ hb).1 hstrayed hkept'
    obtain ⟨-, -, horder⟩ := order_behind_seal hrun hg hfull ys
    exact ⟨xs, ys, result, s, x, a, b, i, j, hrun, hx, hy, hz, ha, hb, hi, hj, hprecedes,
      (horder a b i j ha hb hi hj (fun h => nomatch h) (fun h => nomatch h) hy hz).1 hprecedes⟩

/-- **The order changes.** A shape has a later index than another and a later location, but a
request that is answered behind the seal moves it before the other one. -/
theorem location_moves_behind_seal : ∃ (xs : List (Σ α, Step α)) (result : Finalized)
    (s : Session) (x y : ShapeKey) (location : Location),
    (Step.finalize 0 .zero none).run (Session.empty.after xs) = (.ok result, s) ∧
    (s.generation? 0).map (·.config.mode) = some .full ∧
    let later := (Step.request .shape 0 x (some location)).run s
    later.1 = .ok ⟨0, x⟩ ∧ ∃ (t t' u : Template .shape) (i j : Identity),
      s.own? .shape 0 x = some t ∧ later.2.own? .shape 0 x = some t' ∧
      t'.earliest? ≠ t.earliest? ∧ later.2.own? .shape 0 y = some u ∧
      t'.identity = some i ∧ u.identity = some j ∧ j.index < i.index ∧ t'.Precedes u := by
  obtain ⟨xs, x, y, location, hok, hmode, hanswer, t, ht, t', ht', hmoved, u, hu, i, hi, j, hj,
      hlt, hprecedes⟩ :
      ∃ (xs : List (Σ α, Step α)) (x y : ShapeKey) (location : Location),
        let finalized := (Step.finalize 0 .zero none).run (Session.empty.after xs)
        let later := (Step.request .shape 0 x (some location)).run finalized.2
        finalized.1.toOption.isSome ∧
        (finalized.2.generation? 0).map (·.config.mode) = some .full ∧
        later.1.toOption = some ⟨0, x⟩ ∧
        ∃ t ∈ finalized.2.own? .shape 0 x, ∃ t' ∈ later.2.own? .shape 0 x,
          t'.earliest? ≠ t.earliest? ∧ ∃ u ∈ later.2.own? .shape 0 y,
            ∃ i ∈ t'.identity, ∃ j ∈ u.identity, j.index < i.index ∧ t'.Precedes u :=
    ⟨threeShapes ⟨["x"], by decide⟩ ⟨["y"], by decide⟩ ⟨["z"], by decide⟩ (.ofOffsets 0 3 4)
        (.ofOffsets 0 5 6) (.ofOffsets 0 7 8), ⟨["x"], by decide⟩, ⟨["y"], by decide⟩,
      .ofOffsets 0 3 4, by decide +kernel⟩
  rcases hrun : (Step.finalize 0 .zero none).run (Session.empty.after xs) with ⟨_ | result, s⟩
  · rw [hrun] at hok
    cases hok
  · rw [hrun] at hmode hanswer ht ht' hu
    refine ⟨xs, result, s, x, y, location, hrun, hmode, ?_, t, t', u, i, j, ht, ht', hmoved, hu,
      hi, hj, hlt, hprecedes⟩
    rcases hlater : ((Step.request .shape 0 x (some location)).run s).1 with _ | template
    · rw [hlater] at hanswer
      cases hanswer
    · rw [hlater] at hanswer
      exact congrArg Except.ok (Option.some.inj hanswer)

end Session

end AnonymousTypes
