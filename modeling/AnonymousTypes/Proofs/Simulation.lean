import AnonymousTypes.Proofs.Coherence
import AnonymousTypes.Proofs.Likeness

/-!
# Like sessions

Sessions are alike if their generations are, one by one (`Session.Alike`). Nothing that is
asked of a session can tell it from one that is like it: every step has the same answer in
both and leads to like sessions again (`Step.blind`).
-/

namespace AnonymousTypes

variable {family : Family} {α : Type}

namespace Cache.Alike

variable {c c' : Cache family} {offer : family.Key → Option (TemplateRef family)}

/-- What one cache absorbs the other absorbs just as well. -/
theorem absorbs (h : c.Alike c') {recorded bound noted : Request family → Prop}
    {d : Cache family} (hd : c.Absorbs recorded bound noted d) :
    c'.Absorbs recorded bound noted d where
  frame_eq := hd.frame_eq.trans h.frame_eq.symm
  audited location := (hd.audited location).trans (or_congr_left (h.audited_iff location).symm)
  held ht := hd.held ((h.find?_eq _).symm.trans ht)
  made hnone hex := by
    rw [owner_of_frame h.frame_eq]
    exact hd.made ((h.find?_eq _).symm.trans hnone) hex
  vacant hnone := hd.vacant ((h.find?_eq _).symm.trans hnone)

/-- **Likeness cannot be asked for**: like caches answer every request alike. The order of the
templates and the counters, which they may differ in, are read by no request. -/
theorem outcome_eq (h : c.Alike c') (offer : family.Key → Option (TemplateRef family))
    (r : Request family) : c'.outcome offer r = c.outcome offer r :=
  ((h.absorbs (Absorbs.refl c)).outcome_eq (fun _ hr => hr.elim) (fun _ hr => hr.elim) r).symm

/-- Like caches that serve the same requests stay alike. -/
theorem serves (h : c.Alike c') {requests : List (Request family)} {d d' : Cache family}
    (hd : c.Serves offer (fun r => r ∈ requests ∧ c.Grants offer r) d)
    (hd' : c'.Serves offer (fun r => r ∈ requests ∧ c'.Grants offer r) d') : d.Alike d' := by
  have hgrants : ∀ r, c'.Grants offer r ↔ c.Grants offer r := fun r => by
    rw [Grants, Grants, h.outcome_eq]
  have hserves : c'.Serves offer (fun r => r ∈ requests ∧ c'.Grants offer r) d := by
    refine ⟨fun r hr => hr.2, ?_⟩
    simp only [hgrants]
    exact h.absorbs hd.absorbs
  exact hserves.alike hd'

end Cache.Alike

namespace Generation.Alike

variable {g g' : Generation}

theorem refl (g : Generation) : g.Alike g := ⟨rfl, fun _ => .refl _⟩

theorem id_eq (h : g.Alike g') : g'.id = g.id := by
  rw [id, id, ancestors_of_frame h.frame_eq]

/-- Likeness is kept when the caches of one family are replaced by like ones; this is what a
request does to both generations. -/
theorem withCache (h : g.Alike g') {c c' : Cache family} (hc : c.Alike c') :
    (g.withCache family c).Alike (g'.withCache family c') where
  frame_eq := by rw [frame_withCache, frame_withCache, h.frame_eq]
  cache other := by
    by_cases hne : other = family
    · subst hne
      rwa [cache_withCache_self, cache_withCache_self]
    · rw [cache_withCache_ne _ _ hne, cache_withCache_ne _ _ hne]
      exact h.cache other

/-- Finalization can be started in both generations or in neither. -/
theorem ready {h : Handle} (halike : g.Alike g') (hready : g.Ready h) : g'.Ready h where
  isFinalizing := (isFinalizing_of_frame halike.frame_eq).trans hready.isFinalizing
  finalized := (finalized_of_frame halike.frame_eq).trans hready.finalized
  home := (Cache.home_of_frame (halike.cache .shape).frame_eq).trans hready.home
  not_mem := (ancestors_of_frame halike.frame_eq).symm ▸ hready.not_mem
  isSealed := (halike.cache .shape).isSealed_eq.trans hready.isSealed
  keyed family := (halike.cache family).keyed (hready.keyed family)
  unnamed family key t ht :=
    hready.unnamed family key t (((halike.cache family).find?_eq key).symm.trans ht)

end Generation.Alike

namespace Session

/-- Two sessions whose generations are alike, one by one. -/
structure Alike (s s' : Session) : Prop where
  length_eq : s'.generations.length = s.generations.length
  generation : ∀ {h g}, s.generation? h = some g → ∃ g', s'.generation? h = some g' ∧ g.Alike g'

variable {s s' : Session} {h : Handle} {g g' : Generation}

namespace Alike

theorem refl (s : Session) : s.Alike s := ⟨rfl, fun {_ g} hg => ⟨g, hg, .refl g⟩⟩

/-- The same handles are in use in both sessions. -/
theorem generation?_eq_none (halike : s.Alike s') (hg : s.generation? h = none) :
    s'.generation? h = none := by
  rw [generation?, List.getElem?_eq_none_iff, halike.length_eq]
  exact List.getElem?_eq_none_iff.1 hg

theorem frame_eq (halike : s.Alike s') (h : Handle) :
    (s'.generation? h).map Generation.frame = (s.generation? h).map Generation.frame := by
  rcases hg : s.generation? h with _ | g
  · rw [halike.generation?_eq_none hg]
  · obtain ⟨g', hg', hgalike⟩ := halike.generation hg
    rw [hg', Option.map_some, Option.map_some, hgalike.frame_eq]

/-- A step that changes one generation keeps the sessions alike as soon as it keeps the
generation alike. -/
theorem put (halike : s.Alike s') (hg : g.Alike g') : (s.put h g).Alike (s'.put h g') where
  length_eq := by rw [length_put, length_put, halike.length_eq]
  generation {k gk} hk := by
    by_cases hkh : k = h
    · subst hkh
      rw [generation?_put] at hk
      obtain ⟨g₀, hg₀, rfl⟩ := Option.map_eq_some_iff.1 hk
      obtain ⟨g₀', hg₀', -⟩ := halike.generation hg₀
      exact ⟨g', generation?_put_self (Option.isSome_of_eq_some hg₀') g', hg⟩
    · rw [generation?_put_ne _ _ hkh] at hk ⊢
      exact halike.generation hk

/-- Starting a generation of the same kind in both sessions keeps them alike, and it gets the
same handle. -/
theorem push (halike : s.Alike s') (new : Generation) : (s.push new).Alike (s'.push new) where
  length_eq := by
    simp only [Session.push, List.length_append, List.length_singleton, halike.length_eq]
  generation {k gk} hk := by
    have hlength := halike.length_eq
    by_cases hlast : k = s.generations.length
    · subst hlast
      rw [generation?_push_last] at hk
      obtain rfl := Option.some.inj hk
      exact ⟨new, hlength ▸ generation?_push_last s' new, .refl new⟩
    · have hlt : k < s.generations.length := by
        have hlt := lt_length hk
        rw [Session.push, List.length_append, List.length_singleton] at hlt
        exact Nat.lt_of_le_of_ne (Nat.le_of_lt_succ hlt) hlast
      rw [generation?_push_of_lt _ _ hlt] at hk
      rw [generation?_push_of_lt _ _ (hlength ▸ hlt)]
      exact halike.generation hk

/-! ## What is seen of others -/

theorem own?_eq (halike : s.Alike s') (family : Family) (h : Handle) (key : family.Key) :
    s'.own? family h key = s.own? family h key := by
  rcases hg : s.generation? h with _ | g
  · rw [own?, own?, hg, halike.generation?_eq_none hg]
  · obtain ⟨g', hg', hgalike⟩ := halike.generation hg
    rw [own?_of_generation hg, own?_of_generation hg', (hgalike.cache family).find?_eq]

theorem identity?_eq (halike : s.Alike s') (r : TemplateRef family) :
    s'.identity? r = s.identity? r := by
  rw [identity?, identity?, template?, template?, halike.own?_eq]

theorem inherited_eq (halike : s.Alike s') (family : Family) (key : family.Key)
    (handles : List Handle) :
    s'.inherited family key handles = s.inherited family key handles :=
  inherited_congr fun a _ => halike.own?_eq family a key

/-- So the ancestors make the same offers in both, and a request that a generation cannot answer
for itself is answered alike too. -/
theorem offer_eq (halike : s.Alike s') (hg : g.Alike g') (family : Family) :
    s'.offer family g' = s.offer family g := by
  funext key
  rw [offer, offer, Generation.ancestors_of_frame hg.frame_eq, halike.inherited_eq]

/-- Likewise for the identities that carrying forward compares the recorded ones with. -/
theorem inheritedIdentity_eq (halike : s.Alike s') (family : Family) (handles : List Handle) :
    s'.inheritedIdentity family handles = s.inheritedIdentity family handles := by
  funext key
  rw [inheritedIdentity, inheritedIdentity, halike.inherited_eq]
  exact Option.bind_congr fun r _ => halike.identity?_eq r

/-- Finalization continues from the same counters in both: those of the predecessor are part of
what like generations share. -/
theorem startNumbering_eq (halike : s.Alike s') (hg : g.Alike g') (given : Numbering)
    (previous : Option IdentityMap) :
    s'.startNumbering g' given previous = s.startNumbering g given previous := by
  have hfinalized : ∀ a, (s'.generation? a).bind (·.finalized) =
      (s.generation? a).bind (·.finalized) := by
    intro a
    rcases ha : s.generation? a with _ | ga
    · rw [halike.generation?_eq_none ha]
    · obtain ⟨ga', ha', hgalike⟩ := halike.generation ha
      rw [ha', Option.bind_some, Option.bind_some, Generation.finalized_of_frame hgalike.frame_eq]
  have hpredecessor : s'.predecessorNumbering g' = s.predecessorNumbering g := by
    rw [predecessorNumbering, predecessorNumbering, Generation.ancestors_of_frame hg.frame_eq,
      Option.bind_assoc, Option.bind_assoc]
    exact Option.bind_congr fun a _ => hfinalized a
  simp only [startNumbering, hpredecessor]

/-! ## Finalization -/

/-- Finalization of like generations in like sessions. All that it reads of the session are the
inherited identities and the counters, which are the same. -/
theorem finish (halike : s.Alike s') (hg : g.Alike g') (hready : g.Ready h) (given : Numbering)
    (previous : Option IdentityMap) :
    (s'.finish g' given previous).1 = (s.finish g given previous).1 ∧
      (s.finish g given previous).2.Alike (s'.finish g' given previous).2 := by
  rw [Session.finish, Session.finish, halike.inheritedIdentity_eq,
    Generation.ancestors_of_frame hg.frame_eq, halike.startNumbering_eq hg]
  exact hg.finish hready ..

/-- The output map is collected from the named shapes, in whatever order these stand in a cache:
a later entry overrides an earlier one only for its own key, and keys do not repeat. -/
theorem identityMap_eq (halike : s.Alike s') (hs : s.Coherent) (m : IdentityMap)
    (handles : List Handle) : s'.identityMap m handles = s.identityMap m handles := by
  induction handles generalizing m with
  | nil => rfl
  | cons a rest ih =>
    rw [identityMap, identityMap, List.foldl_cons, List.foldl_cons, ← identityMap, ← identityMap]
    rcases ha : s.generation? a with _ | ga
    · rw [halike.generation?_eq_none ha]
      exact ih m
    · obtain ⟨ga', ha', hgalike⟩ := halike.generation ha
      have hinsert : m.insertAll ga'.shapes.identities = m.insertAll ga.shapes.identities :=
        (hgalike.cache .shape).insertAll_identities (hs.keyed ha .shape) m
      rw [ha', Option.map_some, Option.map_some, hinsert]
      exact ih _

/-- What a successful finalization reports is the same in like sessions. -/
theorem report_eq (halike : s.Alike s') (hs : s.Coherent) (hg : s.generation? h = some g)
    (hgalike : g.Alike g') (previous : Option IdentityMap) (carried : List ShapeKey)
    (numbering : Numbering) :
    s'.report h g' previous carried numbering = s.report h g previous carried numbering := by
  rw [report, report, Generation.ancestors_of_frame hgalike.frame_eq, halike.identityMap_eq hs,
    hgalike.definitions (hs.keyed hg)]

end Alike

end Session

namespace Run

/-- A run that cannot tell like sessions apart. -/
def Blind (m : Run α) : Prop :=
  ∀ ⦃s s'⦄, s.Coherent → s.Alike s' → (m s').1 = (m s).1 ∧ (m s).2.Alike (m s').2

/-- A new session root is at the end of both sessions. -/
theorem blind_root (config : OutputConfig) : (root config).Blind := by
  intro s s' _ halike
  rw [root, root, halike.length_eq]
  exact ⟨rfl, halike.push _⟩

/-- Deriving asks a generation only whether it is finalized, and whom it continues. -/
theorem blind_continueFrom (h : Handle) (config : OutputConfig) :
    (continueFrom h config).Blind := by
  intro s s' _ halike
  rcases hg : s.generation? h with _ | g
  · rw [continueFrom_missing hg, continueFrom_missing (halike.generation?_eq_none hg)]
    exact ⟨rfl, halike⟩
  · obtain ⟨g', hg', hgalike⟩ := halike.generation hg
    have hsame := Generation.finalized_of_frame hgalike.frame_eq
    rcases hfinal : g.finalized with _ | numbering
    · rw [continueFrom_unfinalized hg hfinal, continueFrom_unfinalized hg' (hsame.trans hfinal),
        hgalike.id_eq]
      exact ⟨rfl, halike⟩
    · rw [continueFrom_finalized hg hfinal, continueFrom_finalized hg' (hsame.trans hfinal),
        halike.length_eq, Generation.ancestors_of_frame hgalike.frame_eq]
      exact ⟨rfl, halike.push _⟩

/-- A request reads the template of its key and the offer of the ancestors, and adds a template
where the other session adds one. -/
theorem blind_request (h : Handle) (key : family.Key) (location : Option Location) :
    (request family h key location).Blind := by
  intro s s' _ halike
  rcases hg : s.generation? h with _ | g
  · rw [request_missing hg, request_missing (halike.generation?_eq_none hg)]
    exact ⟨rfl, halike⟩
  · obtain ⟨g', hg', hgalike⟩ := halike.generation hg
    have hcache := hgalike.cache family
    have hoffer := halike.offer_eq hgalike family
    rw [request_eq hg ⟨key, location⟩, request_eq hg' ⟨key, location⟩, hoffer, hcache.outcome_eq]
    exact ⟨rfl, halike.put (hgalike.withCache (hcache.serves
      ((g.cache family).handles_request ⟨key, location⟩).serves
      ((g'.cache family).handles_request ⟨key, location⟩).serves))⟩

/-- Requests that race leave like caches too: what a race serves is fixed by its requests, and
not by the schedule (`requestAll_eq`). -/
theorem blind_requestAll (h : Handle) (requests : List (Request family)) :
    (requestAll h requests).Blind := by
  intro s s' _ halike
  rcases hg : s.generation? h with _ | g
  · rw [requestAll_missing hg, requestAll_missing (halike.generation?_eq_none hg)]
    exact ⟨rfl, halike⟩
  · obtain ⟨g', hg', hgalike⟩ := halike.generation hg
    have hcache := hgalike.cache family
    obtain ⟨c, heq, hserves⟩ := requestAll_eq hg requests
    obtain ⟨c', heq', hserves'⟩ := requestAll_eq hg' requests
    rw [halike.offer_eq hgalike] at heq' hserves'
    rw [heq, heq', funext (hcache.outcome_eq _)]
    exact ⟨rfl, halike.put (hgalike.withCache (hcache.serves hserves hserves'))⟩

/-- A signature that is predefined asks nothing; the others are requests. -/
theorem blind_requestSignature (h : Handle) (params : List Passing) (returnsVoid : Bool)
    (location : Option Location) : (requestSignature h params returnsVoid location).Blind := by
  intro s s' hs halike
  rcases hpredefined : (DelegateKey.ofParameters params returnsVoid).isPredefined
  · have hblind : (request .delegate h (.ofParameters params returnsVoid) location).Blind :=
      blind_request ..
    obtain ⟨hanswer, hafter⟩ := hblind hs halike
    rw [requestSignature_eq hpredefined, requestSignature_eq hpredefined, hanswer]
    exact ⟨rfl, hafter⟩
  · rw [requestSignature_predefined hpredefined, requestSignature_predefined hpredefined]
    exact ⟨rfl, halike⟩

/-- The arguments are looked at only after the request, which is the same in both. -/
theorem blind_construct (h : Handle) (key : ShapeKey) (arguments : List TypeId)
    (location : Option Location) : (construct h key arguments location).Blind := by
  intro s s' hs halike
  have hblind : (request .shape h key location).Blind := blind_request ..
  obtain ⟨hanswer, hafter⟩ := hblind hs halike
  rw [construct_eq, construct_eq, hanswer]
  exact ⟨rfl, hafter⟩

/-- The key of a field list is computed outside of the session. -/
theorem blind_constructFields (h : Handle) (symbols : SymbolTable) (list : FieldList) :
    (constructFields h symbols list).Blind := by
  intro s s' hs halike
  rcases hg : s.generation? h with _ | g
  · rw [constructFields_missing hg, constructFields_missing (halike.generation?_eq_none hg)]
    exact ⟨rfl, halike⟩
  · obtain ⟨g', hg', hgalike⟩ := halike.generation hg
    rcases hkey : list.shapeKey symbols with fault | key
    · rw [constructFields_fault hg hkey, constructFields_fault hg' hkey]
      exact ⟨rfl, halike⟩
    · rw [constructFields_eq hg hkey, constructFields_eq hg' hkey]
      exact blind_construct h key list.types (some list.location) hs halike

/-- Finalization sorts what it names, and so does not depend on the order of the tables. This is
the only step that reads whole tables. -/
theorem blind_finalize (h : Handle) (given : Numbering) (previous : Option IdentityMap) :
    (finalize h given previous).Blind := by
  intro s s' hs halike
  rcases hg : s.generation? h with _ | g
  · rw [finalize_missing hg, finalize_missing (halike.generation?_eq_none hg)]
    exact ⟨rfl, halike⟩
  · obtain ⟨g', hg', hgalike⟩ := halike.generation hg
    rcases hbegun : g.isFinalizing
    · have hready := hs.ready hg hbegun
      obtain ⟨hanswer, hfinish⟩ := halike.finish hgalike hready given previous
      have hafter : (s.put h (s.finish g given previous).2).Alike
          (s'.put h (s'.finish g' given previous).2) := halike.put hfinish
      have hself := Session.generation?_put_self (Option.isSome_of_eq_some hg)
        (s.finish g given previous).2
      rw [finalize_eq hg hready, finalize_eq hg' (hgalike.ready hready), hanswer]
      -- the reports are written after the fact, about sessions that are alike again
      refine ⟨congrArg (Except.map · _) (funext fun out => ?_), hafter⟩
      exact hafter.report_eq (hs.put_finish hg hready given previous) hself hfinish ..
    · have hbegun' := (Generation.isFinalizing_of_frame hgalike.frame_eq).trans hbegun
      rw [finalize_again hg hbegun, finalize_again hg' hbegun', hgalike.id_eq]
      exact ⟨rfl, halike⟩

end Run

/-- **No step can tell like sessions apart**: it is answered alike and leads to like sessions.
This is why the order in which requests arrived, as long as the same ones were granted, is
nowhere seen again. -/
theorem Step.blind (x : Step α) : x.run.Blind := by
  cases x with
  | root config => exact Run.blind_root config
  | derive h config => exact Run.blind_continueFrom h config
  | request family h key location => exact Run.blind_request h key location
  | requestAll family h requests => exact Run.blind_requestAll h requests
  | requestSignature h params returnsVoid location =>
    exact Run.blind_requestSignature h params returnsVoid location
  | construct h key arguments location => exact Run.blind_construct h key arguments location
  | constructFields h symbols list => exact Run.blind_constructFields h symbols list
  | finalize h given previous => exact Run.blind_finalize h given previous

namespace Session

/-- **Like sessions stay alike whatever is done.** By induction on the steps, each of which is
blind. -/
theorem Alike.after {s s' : Session} (halike : s.Alike s') (hs : s.Coherent)
    (xs : List (Σ α, Step α)) : (s.after xs).Alike (s'.after xs) := by
  induction xs generalizing s s' with
  | nil => exact halike
  | cons x rest ih => exact ih (x.2.blind hs halike).2 ((x.2.change hs).coherent hs)

end Session

end AnonymousTypes
