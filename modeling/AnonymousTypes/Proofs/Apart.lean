import AnonymousTypes.Proofs.RaceSafety

/-!
# Steps that spare a generation

As long as a generation is not finalized nobody continues it, so nobody looks into its
caches. A step that neither asks such a generation for templates nor finalizes it does the
same whatever the caches hold, and leaves them as they are (`Step.run_put`,
`Session.after_put`).

So the requests to one generation can be told apart from whatever else is done in the
meantime (`Coherent.after_eq`): the other steps alone lead to the same session up to the
caches of this generation, and these have served the requests.
-/

namespace AnonymousTypes

variable {family : Family} {α : Type}

/-- The generation that a step is to finalize. -/
def Step.finalizes? : Step α → Option Handle
  | .finalize h _ _ => some h
  | _ => none

/-- A step spares a generation if it neither asks it for templates nor finalizes it. -/
def Step.Spares (x : Step α) (h : Handle) : Prop :=
  x.finalizes? ≠ some h ∧ ∀ a, x.asks? = some a → a.home ≠ h

/-- Finalization makes requests too, when it carries forward. They are counted as part of the
finalization and not as what the step asks for. -/
theorem Step.asks?_eq_none {x : Step α} {h : Handle} (hx : x.finalizes? = some h) :
    x.asks? = none := by
  cases x with
  | finalize => rfl
  | root | derive | request | requestAll | requestSignature | construct | constructFields =>
    cases hx

namespace Session

variable {s : Session} {h k : Handle} {g g' gk : Generation}

/-- A generation is offered the same whatever becomes of one that it does not continue. -/
theorem offer_put_ne (s : Session) (family : Family) (g' : Generation) (hnot : h ∉ gk.ancestors) :
    (s.put h g').offer family gk = s.offer family gk :=
  funext fun _ => inherited_put s g' hnot

/-- It inherits the same identities too: the handles that are asked do not contain the one that
is replaced, and the template that answers is owned by one of those that are asked. -/
theorem inheritedIdentity_put (s : Session) (family : Family) (g' : Generation)
    {handles : List Handle} (hnot : h ∉ handles) :
    (s.put h g').inheritedIdentity family handles = s.inheritedIdentity family handles := by
  funext key
  rw [inheritedIdentity, inheritedIdentity, inherited_put s g' hnot]
  rcases hr : s.inherited family key handles with _ | r
  · rfl
  · have hne : r.home ≠ h := fun he => hnot (he ▸ (exists_of_inherited hr).1)
    rw [Option.bind_some, Option.bind_some, identity?, template?, own?_put_ne _ _ hne]
    rfl

/-- So finalization of another generation names and hands over the same. -/
theorem finish_put (s : Session) (g' : Generation) (hnot : h ∉ gk.ancestors) (given : Numbering)
    (previous : Option IdentityMap) :
    (s.put h g').finish gk given previous = s.finish gk given previous := by
  rw [finish, finish, inheritedIdentity_put s .shape g' hnot, startNumbering_put s g' hnot]

/-- The output map is collected from the generation that is finalized and from those that it
continues, and from no other. -/
theorem report_put (s : Session) (g' : Generation) (hne : k ≠ h) (hnot : h ∉ gk.ancestors)
    (previous : Option IdentityMap) (carried : List ShapeKey) (numbering : Numbering) :
    (s.put h g').report k gk previous carried numbering =
      s.report k gk previous carried numbering := by
  have hmap : (s.put h g').identityMap (previous.getD .empty) (k :: gk.ancestors) =
      s.identityMap (previous.getD .empty) (k :: gk.ancestors) := by
    refine identityMap_congr _ fun a ha => ?_
    have hah : a ≠ h := by
      rcases List.mem_cons.1 ha with rfl | ha
      · exact hne
      · exact fun he => hnot (he ▸ ha)
    rw [generation?_put_ne _ _ hah]
  rw [report, report, hmap]

end Session

namespace Run

variable {s : Session} {h k : Handle} {g g' : Generation}

/-! ## Steps one by one -/

/-- A root is started at the end, where it disturbs nothing. -/
theorem root_put (hg : s.generation? h = some g) (g' : Generation) (config : OutputConfig) :
    root config (s.put h g') = ((root config s).1, (root config s).2.put h g') := by
  rw [root, root, Session.length_put, Session.push_put (Session.lt_length hg)]

/-- Deriving from a generation that is not finalized is refused, whatever its caches hold. This
is why nobody looks into them. -/
theorem continueFrom_put (hg : s.generation? h = some g) (hopen : g.finalized = none)
    (hframe : g'.frame = g.frame) (k : Handle) (config : OutputConfig) :
    continueFrom k config (s.put h g') =
      ((continueFrom k config s).1, (continueFrom k config s).2.put h g') := by
  by_cases hne : k = h
  · subst hne
    have hself := Session.generation?_put_self (Option.isSome_of_eq_some hg) g'
    have hid : g'.id = g.id := by
      rw [Generation.id, Generation.id, Generation.ancestors_of_frame hframe]
    rw [continueFrom_unfinalized hg hopen, continueFrom_unfinalized hself
      ((Generation.finalized_of_frame hframe).trans hopen), hid]
  · have hsame := Session.generation?_put_ne s g' hne
    rcases hk : s.generation? k with _ | gk
    · rw [continueFrom_missing hk, continueFrom_missing (hsame.trans hk)]
    · rcases hfinal : gk.finalized with _ | numbering
      · rw [continueFrom_unfinalized hk hfinal, continueFrom_unfinalized (hsame.trans hk) hfinal]
      · rw [continueFrom_finalized hk hfinal, continueFrom_finalized (hsame.trans hk) hfinal,
          Session.length_put, Session.push_put (Session.lt_length hg)]

section

variable (g') (hne : k ≠ h) (hnot : ∀ gk, s.generation? k = some gk → h ∉ gk.ancestors)
include hne hnot

/-- A request to another generation: the one that is replaced is not among those that make offers
to it. -/
theorem request_put_ne (key : family.Key) (location : Option Location) :
    request family k key location (s.put h g') =
      ((request family k key location s).1, (request family k key location s).2.put h g') := by
  have hsame := Session.generation?_put_ne s g' hne
  rcases hk : s.generation? k with _ | gk
  · rw [request_missing hk, request_missing (hsame.trans hk)]
  · rw [request_eq hk ⟨key, location⟩, request_eq (hsame.trans hk) ⟨key, location⟩,
      Session.offer_put_ne s family g' (hnot gk hk), Session.put_comm _ (Ne.symm hne)]

theorem requestAll_put_ne (requests : List (Request family)) :
    requestAll k requests (s.put h g') =
      ((requestAll k requests s).1, (requestAll k requests s).2.put h g') := by
  have hsame := Session.generation?_put_ne s g' hne
  rcases hk : s.generation? k with _ | gk
  · rw [requestAll_missing hk, requestAll_missing (hsame.trans hk)]
  · rw [requestAll_eq_race hk, requestAll_eq_race (hsame.trans hk),
      Session.offer_put_ne s family g' (hnot gk hk), Session.put_comm _ (Ne.symm hne)]

/-- Finalization of another generation. Coherence says that it is ready, so its outcome is that
of `Generation.finish`. -/
theorem finalize_put_ne (hs : s.Coherent) (given : Numbering) (previous : Option IdentityMap) :
    finalize k given previous (s.put h g') =
      ((finalize k given previous s).1, (finalize k given previous s).2.put h g') := by
  have hsame := Session.generation?_put_ne s g' hne
  rcases hk : s.generation? k with _ | gk
  · rw [finalize_missing hk, finalize_missing (hsame.trans hk)]
  · rcases hbegun : gk.isFinalizing
    · have hready := hs.ready hk hbegun
      have hafter := (Session.Coherent.later_finish (s := s) hready given previous).ancestors_eq
      rw [finalize_eq hk hready, finalize_eq (hsame.trans hk) hready,
        Session.finish_put s g' (hnot gk hk), Session.put_comm _ (Ne.symm hne)]
      refine Prod.ext (congrArg (Except.map · _) (funext fun out => ?_)) rfl
      exact Session.report_put _ g' hne (by rw [hafter]; exact hnot gk hk) ..
    · rw [finalize_again hk hbegun, finalize_again (hsame.trans hk) hbegun]

end

end Run

variable {s : Session} {h : Handle} {g g' : Generation}

/-- **A step that spares a generation** does the same whatever the caches of the generation
hold, and leaves them as they are. -/
theorem Step.run_put (hs : s.Coherent) (hg : s.generation? h = some g)
    (hopen : g.finalized = none) (hframe : g'.frame = g.frame) {x : Step α}
    (hspares : x.Spares h) : x.run (s.put h g') = ((x.run s).1, (x.run s).2.put h g') := by
  have hnot : ∀ k gk, s.generation? k = some gk → h ∉ gk.ancestors :=
    fun k gk hk => hs.not_mem_of_unfinalized hg hopen hk
  obtain ⟨hfinalizes, hasks⟩ := hspares
  cases x with
  | root config => exact Run.root_put hg g' config
  | derive k config => exact Run.continueFrom_put hg hopen hframe k config
  | request family k key location =>
    exact Run.request_put_ne g' (hasks _ rfl) (hnot k) key location
  | requestAll family k requests =>
    exact Run.requestAll_put_ne g' (hasks _ rfl) (hnot k) requests
  | requestSignature k params returnsVoid location =>
    rcases hpredefined : (DelegateKey.ofParameters params returnsVoid).isPredefined
    · have hne : k ≠ h := hasks ⟨.delegate, k, [⟨.ofParameters params returnsVoid, location⟩]⟩
        (by simp [asks?, hpredefined])
      rw [Step.run, Run.requestSignature_eq hpredefined, Run.requestSignature_eq hpredefined,
        Run.request_put_ne g' hne (hnot k)]
    · rw [Step.run, Run.requestSignature_predefined hpredefined,
        Run.requestSignature_predefined hpredefined]
  | construct k key arguments location =>
    have hne : k ≠ h := hasks _ rfl
    rw [Step.run, Run.construct_eq, Run.construct_eq, Run.request_put_ne g' hne (hnot k)]
  | constructFields k symbols list =>
    rw [Step.run]
    rcases hkey : list.shapeKey symbols with fault | key
    · -- nothing is asked for, so this may be the generation itself
      by_cases hne : k = h
      · subst hne
        have hself := Session.generation?_put_self (Option.isSome_of_eq_some hg) g'
        rw [Run.constructFields_fault hg hkey, Run.constructFields_fault hself hkey]
      · have hsame := Session.generation?_put_ne s g' hne
        rcases hk : s.generation? k with _ | gk
        · rw [Run.constructFields_missing hk, Run.constructFields_missing (hsame.trans hk)]
        · rw [Run.constructFields_fault hk hkey, Run.constructFields_fault (hsame.trans hk) hkey]
    · have hne : k ≠ h := hasks ⟨.shape, k, [⟨key, some list.location⟩]⟩ (by simp [asks?, hkey])
      have hsame := Session.generation?_put_ne s g' hne
      rcases hk : s.generation? k with _ | gk
      · rw [Run.constructFields_missing hk, Run.constructFields_missing (hsame.trans hk)]
      · rw [Run.constructFields_eq hk hkey, Run.constructFields_eq (hsame.trans hk) hkey,
          Run.construct_eq, Run.construct_eq, Run.request_put_ne g' hne (hnot k)]
  | finalize k given previous =>
    have hne : k ≠ h := fun he => hfinalizes (congrArg some he)
    exact Run.finalize_put_ne g' hne (hnot k) hs given previous

/-- A step that spares a generation leaves it where it is. -/
theorem Step.generation?_run (hs : s.Coherent) (hg : s.generation? h = some g)
    (hopen : g.finalized = none) {x : Step α} (hspares : x.Spares h) :
    (x.run s).2.generation? h = some g := by
  have hput := congrArg Prod.snd (Step.run_put hs hg hopen rfl hspares)
  rw [Session.put_self hg] at hput
  obtain ⟨g₁, hg₁, -⟩ := ((x.change hs).follows hs).generation hg
  rw [hput]
  exact Session.generation?_put_self (Option.isSome_of_eq_some hg₁) g

namespace Session

/-! ## Many steps -/

/-- The steps that do not ask a generation for templates. -/
def others (h : Handle) (xs : List (Σ α, Step α)) : List (Σ α, Step α) :=
  xs.filter fun x => x.2.asks?.map (·.home) ≠ some h

/-- The requests that steps make to a generation. -/
def asked (h : Handle) (xs : List (Σ α, Step α)) : List AnyRequest :=
  (xs.filterMap (·.2.asks?)).flatMap fun a =>
    if a.home = h then a.requests.map (Sigma.mk a.family) else []

section

variable {x : Σ α, Step α} {a : Asks}

theorem others_cons_of_asks (hx : x.2.asks? = some a) (rest : List (Σ α, Step α)) :
    others a.home (x :: rest) = others a.home rest :=
  List.filter_cons_of_neg (by simp [hx])

theorem others_cons (hx : ∀ a, x.2.asks? = some a → a.home ≠ h) (rest : List (Σ α, Step α)) :
    others h (x :: rest) = x :: others h rest :=
  List.filter_cons_of_pos (by simpa using hx)

theorem asked_cons_of_asks (hx : x.2.asks? = some a) (rest : List (Σ α, Step α)) :
    asked a.home (x :: rest) = a.requests.map (Sigma.mk a.family) ++ asked a.home rest := by
  rw [asked, List.filterMap_cons, hx, List.flatMap_cons, if_pos rfl, ← asked]

theorem asked_cons (hx : ∀ a, x.2.asks? = some a → a.home ≠ h) (rest : List (Σ α, Step α)) :
    asked h (x :: rest) = asked h rest := by
  rw [asked, List.filterMap_cons]
  rcases hasks : x.2.asks? with _ | a
  · rfl
  · rw [List.flatMap_cons, if_neg (hx a hasks), List.nil_append, ← asked]

/-- If the generation is not finalized in the meantime, all the other steps spare it. -/
theorem spares_of_mem_others {xs : List (Σ α, Step α)}
    (hfinalizes : ∀ x ∈ xs, x.2.finalizes? ≠ some h) (hx : x ∈ others h xs) : x.2.Spares h := by
  obtain ⟨hmem, hasks⟩ := List.mem_filter.1 hx
  exact ⟨hfinalizes x hmem, by simpa using hasks⟩

end

/-- **A run that spares a generation** does the same whatever the caches of the generation hold.
The generation stays open along the run, which is what the induction needs at each step. -/
theorem after_put (hs : s.Coherent) (hg : s.generation? h = some g) (hopen : g.finalized = none)
    (hframe : g'.frame = g.frame) {xs : List (Σ α, Step α)} (hspare : ∀ x ∈ xs, x.2.Spares h) :
    (s.put h g').after xs = (s.after xs).put h g' := by
  induction xs generalizing s with
  | nil => rfl
  | cons x rest ih =>
    obtain ⟨hx, hrest⟩ := List.forall_mem_cons.1 hspare
    rw [after, after, Step.run_put hs hg hopen hframe hx]
    exact ih ((x.2.change hs).coherent hs) (Step.generation?_run hs hg hopen hx) hrest

/-- **The requests to a generation** can be told apart from what else is done in the meantime. By
induction on the steps: one that asks the generation is moved behind all the others, past which
it commutes (`after_put`); the others go through as they are. -/
theorem Coherent.after_eq (hs : s.Coherent) (hg : s.generation? h = some g)
    (hopen : g.finalized = none) {xs : List (Σ α, Step α)}
    (hfinalizes : ∀ x ∈ xs, x.2.finalizes? ≠ some h) :
    ∃ g', s.after xs = (s.after (others h xs)).put h g' ∧ g'.frame = g.frame ∧
      ∀ family, (g.cache family).Serves (s.offer family g)
        (fun r => ⟨family, r⟩ ∈ asked h xs ∧ (g.cache family).Grants (s.offer family g) r)
        (g'.cache family) := by
  induction xs generalizing s g with
  | nil =>
    refine ⟨g, (put_self hg).symm, rfl, fun family => (Cache.Serves.refl _).congr fun r => ?_⟩
    simp [asked]
  | cons x rest ih =>
    obtain ⟨hfinal, hrest⟩ := List.forall_mem_cons.1 hfinalizes
    by_cases hx : ∀ a, x.2.asks? = some a → a.home ≠ h
    · -- nothing is asked of the generation, and it is offered the same as before
      have hspares : x.2.Spares h := ⟨hfinal, hx⟩
      obtain ⟨g', hafter, hframe, hserves⟩ := ih ((x.2.change hs).coherent hs)
        (Step.generation?_run hs hg hopen hspares) hopen hrest
      have hoffer : ∀ family, (x.2.run s).2.offer family g = s.offer family g :=
        fun family => funext fun key => ((x.2.change hs).follows hs).inherited hg family key
      rw [others_cons hx, asked_cons hx]
      simp only [hoffer] at hserves
      exact ⟨g', hafter, hframe, hserves⟩
    · simp only [not_forall, not_not] at hx
      obtain ⟨a, hasks, rfl⟩ := hx
      obtain ⟨c, hrun, hserved⟩ := Step.run_of_asks hasks hg
      have hself := generation?_put_self (Option.isSome_of_eq_some hg) (g.withCache a.family c)
      have hframe := Generation.frame_withCache g a.family c
      have hopen' := (Generation.finalized_of_frame hframe).trans hopen
      have hcoherent := (x.2.change hs).coherent hs
      rw [hrun] at hcoherent
      obtain ⟨g', hafter, hframe', hserves⟩ := ih hcoherent hself hopen' hrest
      -- the steps of the others do not see what was asked, so it can be put in after them
      rw [after_put hs hg hopen hframe fun x => spares_of_mem_others hrest, put_put] at hafter
      refine ⟨g', ?_, hframe'.trans hframe, fun family => ?_⟩
      · rw [others_cons_of_asks hasks, after, hrun, hafter]
      · have hthis := hserves family
        rw [offer_put s family (hs.not_mem hg) (Generation.ancestors_of_frame hframe)] at hthis
        rw [asked_cons_of_asks hasks]
        by_cases hne : family = a.family
        · subst hne
          rw [Generation.cache_withCache_self] at hthis
          refine (hserved.trans hthis).congr fun r => ?_
          simp only [hserved.grants_iff, List.mem_append, List.mem_map, Sigma.mk.injEq, true_and,
            heq_eq_eq, exists_eq_right, or_and_right]
        · rw [Generation.cache_withCache_ne _ _ hne] at hthis
          refine hthis.congr fun r => ?_
          simp only [List.mem_append, List.mem_map, Sigma.mk.injEq, Ne.symm hne, false_and,
            and_false, exists_false, false_or]

end Session

end AnonymousTypes
