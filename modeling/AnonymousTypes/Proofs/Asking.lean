import AnonymousTypes.Proofs.Inheriting
import AnonymousTypes.Proofs.Racing
import AnonymousTypes.Session.Step

/-!
# What steps ask of a generation

Several kinds of steps ask for templates: single requests, races, constructions and call
sites. `Step.asks?` says which requests a step makes and of which generation. All such
steps do the same to the session (`Step.run_of_asks`): one cache of one generation serves
the requests, and nothing else happens.
-/

namespace AnonymousTypes

variable {family : Family} {α : Type}

namespace Session

/-- What a generation inherits, for all keys. -/
def offer (s : Session) (family : Family) (g : Generation) :
    family.Key → Option (TemplateRef family) :=
  fun key => s.inherited family key g.ancestors

end Session

namespace Run

variable {s : Session} {h : Handle} {g : Generation}

/-- Every step looks its generation up first and changes nothing by that. The equations below
have this look-up behind them. -/
theorem generation_eq (hg : s.generation? h = some g) : generation h s = (.ok g, s) := by
  rw [generation, hg]

theorem generation_missing (hg : s.generation? h = none) :
    generation h s = (.error (.fault (.unknownGeneration h)), s) := by
  rw [generation, hg]

/-! ## Steps that continue -/

/-- Deriving from a handle that was never given out. -/
theorem continueFrom_missing (hg : s.generation? h = none) (config : OutputConfig) :
    continueFrom h config s = (.error (.fault (.unknownGeneration h)), s) :=
  bind_of_error (generation_missing hg)

/-- **An open generation** cannot be continued. -/
theorem continueFrom_unfinalized (hg : s.generation? h = some g) (hopen : g.finalized = none)
    (config : OutputConfig) :
    continueFrom h config s = (.error (.rejected (.unfinalizedPredecessor g.id)), s) := by
  rw [continueFrom, bind_of_ok (generation_eq hg), hopen]
  rfl

/-- **A finalized generation** is continued by a new one at the end of the session. The ancestors
of the new one are the generation and its ancestors, nearest first. -/
theorem continueFrom_finalized (hg : s.generation? h = some g) {numbering : Numbering}
    (hfinal : g.finalized = some numbering) (config : OutputConfig) :
    continueFrom h config s = (.ok s.generations.length,
      s.push (.new s.generations.length config (h :: g.ancestors))) := by
  rw [continueFrom, bind_of_ok (generation_eq hg), hfinal]

/-! ## Steps that ask -/

theorem request_missing (hg : s.generation? h = none) (key : family.Key)
    (location : Option Location) :
    request family h key location s = (.error (.fault (.unknownGeneration h)), s) :=
  bind_of_error (generation_missing hg)

theorem requestAll_missing (hg : s.generation? h = none) (requests : List (Request family)) :
    requestAll h requests s = (.error (.fault (.unknownGeneration h)), s) :=
  bind_of_error (generation_missing hg)

theorem constructFields_missing (hg : s.generation? h = none) (symbols : SymbolTable)
    (list : FieldList) :
    constructFields h symbols list s = (.error (.fault (.unknownGeneration h)), s) :=
  bind_of_error (generation_missing hg)

/-- **A request** is a request to one cache of the generation, with the offer of its ancestors;
the cache is put back and nothing else is touched. -/
theorem request_eq (hg : s.generation? h = some g) (r : Request family) :
    request family h r.key r.location s =
      ((g.cache family).outcome (s.offer family g) r,
        s.put h (g.withCache family
          ((g.cache family).request (s.offer family g r.key) r.key r.location).2)) :=
  (bind_of_ok (generation_eq hg)).trans (Prod.ext rfl (Session.update_eq_put hg _))

/-- **Requests that race** run in the order of turns that the session takes. No later result
depends on that order. -/
theorem requestAll_eq_race (hg : s.generation? h = some g) (requests : List (Request family)) :
    requestAll h requests s =
      (.ok (((Race.ofRequests (g.cache family) requests).run (s.offer family g)
          (Race.inTurns requests.length)).outcomes.filterMap id),
        s.put h (g.withCache family ((Race.ofRequests (g.cache family) requests).run
          (s.offer family g) (Race.inTurns requests.length)).cache)) :=
  (bind_of_ok (generation_eq hg)).trans (Prod.ext rfl (Session.update_eq_put hg _))

/-- All requests of a race are answered, each as on its own. -/
theorem requestAll_handles (hg : s.generation? h = some g) (requests : List (Request family)) :
    ∃ c, requestAll h requests s =
        (.ok (requests.map ((g.cache family).outcome (s.offer family g))),
          s.put h (g.withCache family c)) ∧
      (g.cache family).Handles (s.offer family g) requests c := by
  have hfinished : ((Race.ofRequests (g.cache family) requests).run (s.offer family g)
      (Race.inTurns requests.length)).Finished := Race.finished_inTurns _ _
  obtain ⟨houtcomes, hhandles⟩ := Cache.handles_ofRequests _ _ hfinished
  exact ⟨_, (requestAll_eq_race hg requests).trans
    (Prod.ext (congrArg Except.ok houtcomes) rfl), hhandles⟩

/-- What racing requests leave in the cache, without what is counted. -/
theorem requestAll_eq (hg : s.generation? h = some g) (requests : List (Request family)) :
    ∃ c, requestAll h requests s =
        (.ok (requests.map ((g.cache family).outcome (s.offer family g))),
          s.put h (g.withCache family c)) ∧
      (g.cache family).Serves (s.offer family g)
        (fun r => r ∈ requests ∧ (g.cache family).Grants (s.offer family g) r) c := by
  obtain ⟨c, hrun, hhandles⟩ := requestAll_handles hg requests
  exact ⟨c, hrun, hhandles.serves⟩

/-- A signature with a predefined delegate does not reach the session. -/
theorem requestSignature_predefined {params : List Passing} {returnsVoid : Bool}
    (hpredefined : (DelegateKey.ofParameters params returnsVoid).isPredefined = true)
    (location : Option Location) :
    requestSignature h params returnsVoid location s = (.ok none, s) := by
  rw [requestSignature, if_pos hpredefined]
  rfl

/-- Any other signature is a request for the delegate of its key. -/
theorem requestSignature_eq {params : List Passing} {returnsVoid : Bool}
    (hpredefined : (DelegateKey.ofParameters params returnsVoid).isPredefined = false)
    (location : Option Location) :
    requestSignature h params returnsVoid location s =
      ((request .delegate h (DelegateKey.ofParameters params returnsVoid) location s).1.map some,
        (request .delegate h (DelegateKey.ofParameters params returnsVoid) location s).2) := by
  rw [requestSignature, if_neg (by rw [hpredefined]; exact Bool.false_ne_true), bind_apply]
  rcases request .delegate h (DelegateKey.ofParameters params returnsVoid) location s with
    ⟨_ | template, s'⟩
  · rfl
  · rfl

/-- Applying a template comes after the request. So a construction with the wrong number of
arguments has asked for its shape all the same. -/
theorem construct_eq (h : Handle) (key : ShapeKey) (arguments : List TypeId)
    (location : Option Location) (s : Session) :
    construct h key arguments location s =
      ((request .shape h key location s).1.bind fun template =>
          (template.apply arguments).mapError .rejected,
        (request .shape h key location s).2) := by
  rw [construct, bind_apply]
  rcases request .shape h key location s with ⟨_ | template, s'⟩
  · rfl
  · simp only [Except.bind]
    rcases template.apply arguments with _ | applied
    · rfl
    · rfl

/-- A call site asks for the shape of its field list, at the location of the list. -/
theorem constructFields_eq (hg : s.generation? h = some g) {symbols : SymbolTable}
    {list : FieldList} {key : ShapeKey} (hkey : list.shapeKey symbols = .ok key) :
    constructFields h symbols list s = construct h key list.types (some list.location) s :=
  (bind_of_ok (generation_eq hg)).trans (bind_of_ok (a := key) (by rw [hkey]; rfl))

/-- Without a shape nothing is asked for. -/
theorem constructFields_fault (hg : s.generation? h = some g) {symbols : SymbolTable}
    {list : FieldList} {fault : Fault} (hkey : list.shapeKey symbols = .error fault) :
    constructFields h symbols list s = (.error (.fault fault), s) :=
  (bind_of_ok (generation_eq hg)).trans (bind_of_error (by rw [hkey]; rfl))

end Run

/-! ## The requests of a step -/

/-- Requests to one cache of a generation. -/
structure Asks where
  family : Family
  home : Handle
  requests : List (Request family)

/-- The requests that a step makes, if it comes to make any. -/
def Step.asks? : Step α → Option Asks
  | .request family h key location => some ⟨family, h, [⟨key, location⟩]⟩
  | .requestAll family h requests => some ⟨family, h, requests⟩
  | .requestSignature h params returnsVoid location =>
    let key := DelegateKey.ofParameters params returnsVoid
    if key.isPredefined then none else some ⟨.delegate, h, [⟨key, location⟩]⟩
  | .construct h key _ location => some ⟨.shape, h, [⟨key, location⟩]⟩
  | .constructFields h symbols list =>
    match list.shapeKey symbols with
    | .ok key => some ⟨.shape, h, [⟨key, some list.location⟩]⟩
    | .error _ => none
  | _ => none

/-- The generation that a step is addressed to. A root is started without any. -/
def Step.home? : Step α → Option Handle
  | .root _ => none
  | .derive h _ => some h
  | .request _ h _ _ => some h
  | .requestAll _ h _ => some h
  | .requestSignature h _ _ _ => some h
  | .construct h _ _ _ => some h
  | .constructFields h _ _ => some h
  | .finalize h _ _ => some h

/-- What a step asks for, it asks of the generation that it is addressed to. -/
theorem Step.home?_of_asks {x : Step α} {a : Asks} (hx : x.asks? = some a) :
    x.home? = some a.home := by
  cases x with
  | root | derive | finalize => cases hx
  | request | requestAll | construct =>
    cases hx
    rfl
  | requestSignature h params returnsVoid location =>
    rw [asks?] at hx
    split at hx
    · cases hx
    · cases hx
      rfl
  | constructFields h symbols list =>
    rw [asks?] at hx
    split at hx
    · cases hx
      rfl
    · cases hx

/-- The session after requests to a generation: one of its caches has served those that
are granted. -/
def Session.Served (s : Session) (a : Asks) (g : Generation) (s' : Session) : Prop :=
  ∃ c, s' = s.put a.home (g.withCache a.family c) ∧
    (g.cache a.family).Serves (s.offer a.family g)
      (fun r => r ∈ a.requests ∧ (g.cache a.family).Grants (s.offer a.family g) r) c

/-- The same, with what is counted about the requests. -/
def Session.Handled (s : Session) (a : Asks) (g : Generation) (s' : Session) : Prop :=
  ∃ c, s' = s.put a.home (g.withCache a.family c) ∧
    (g.cache a.family).Handles (s.offer a.family g) a.requests c

/-- Without the counters, requests that were handled are requests that were served. -/
theorem Session.Handled.served {s s' : Session} {a : Asks} {g : Generation}
    (h : s.Handled a g s') : s.Served a g s' := by
  obtain ⟨c, hs', hhandles⟩ := h
  exact ⟨c, hs', hhandles.serves⟩

/-- A single request is handled like a race of one. -/
theorem Run.handled_request {s : Session} {h : Handle} {g : Generation}
    (hg : s.generation? h = some g) (r : Request family) :
    s.Handled ⟨family, h, [r]⟩ g (request family h r.key r.location s).2 :=
  ⟨_, congrArg Prod.snd (request_eq hg r), (g.cache family).handles_request r⟩

theorem Run.served_request {s : Session} {h : Handle} {g : Generation}
    (hg : s.generation? h = some g) (r : Request family) :
    s.Served ⟨family, h, [r]⟩ g (request family h r.key r.location s).2 :=
  (handled_request hg r).served

namespace Step

variable {s : Session} {g : Generation} {x : Step α} {a : Asks}

/-- **A step that asks** has its requests handled and does nothing else. There is one case for
each kind of step; each is brought to a request or a race by its equation above. -/
theorem handles_of_asks (hx : x.asks? = some a) (hg : s.generation? a.home = some g) :
    s.Handled a g (x.run s).2 := by
  cases x with
  | root | derive | finalize => cases hx
  | request family h key location =>
    cases hx
    exact Run.handled_request hg ⟨key, location⟩
  | requestAll family h requests =>
    cases hx
    obtain ⟨c, heq, hhandles⟩ := Run.requestAll_handles hg requests
    exact ⟨c, congrArg Prod.snd heq, hhandles⟩
  | requestSignature h params returnsVoid location =>
    rcases hpredefined : (DelegateKey.ofParameters params returnsVoid).isPredefined
    · simp only [asks?, hpredefined, Bool.false_eq_true, if_false] at hx
      cases hx
      rw [Step.run, Run.requestSignature_eq hpredefined]
      exact Run.handled_request hg ⟨_, location⟩
    · simp only [asks?, hpredefined, if_true] at hx
      cases hx
  | construct h key arguments location =>
    cases hx
    rw [Step.run, Run.construct_eq]
    exact Run.handled_request hg (⟨key, location⟩ : Request .shape)
  | constructFields h symbols list =>
    rcases hkey : list.shapeKey symbols with fault | key
    · simp only [asks?, hkey] at hx
      cases hx
    · simp only [asks?, hkey] at hx
      cases hx
      rw [Step.run, Run.constructFields_eq hg hkey, Run.construct_eq]
      exact Run.handled_request hg (⟨key, some list.location⟩ : Request .shape)

/-- So the requests that are granted are served. -/
theorem run_of_asks (hx : x.asks? = some a) (hg : s.generation? a.home = some g) :
    s.Served a g (x.run s).2 := (handles_of_asks hx hg).served

/-- Nothing happens if there is no generation to ask. -/
theorem run_of_asks_missing (hx : x.asks? = some a) (hg : s.generation? a.home = none) :
    (x.run s).2 = s := by
  cases x with
  | root | derive | finalize => cases hx
  | request family h key location =>
    cases hx
    rw [Step.run, Run.request_missing hg]
  | requestAll family h requests =>
    cases hx
    rw [Step.run, Run.requestAll_missing hg]
  | requestSignature h params returnsVoid location =>
    rcases hpredefined : (DelegateKey.ofParameters params returnsVoid).isPredefined
    · simp only [asks?, hpredefined, Bool.false_eq_true, if_false] at hx
      cases hx
      rw [Step.run, Run.requestSignature_eq hpredefined, Run.request_missing hg]
    · simp only [asks?, hpredefined, if_true] at hx
      cases hx
  | construct h key arguments location =>
    cases hx
    rw [Step.run, Run.construct_eq, Run.request_missing hg]
  | constructFields h symbols list =>
    rcases hkey : list.shapeKey symbols with fault | key
    · simp only [asks?, hkey] at hx
      cases hx
    · simp only [asks?, hkey] at hx
      cases hx
      rw [Step.run, Run.constructFields_missing hg]

end Step

end AnonymousTypes
