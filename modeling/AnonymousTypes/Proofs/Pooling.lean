import Mathlib.Data.List.Dedup
import Mathlib.Data.List.Perm.Subperm
import AnonymousTypes.Proofs.Interning
import AnonymousTypes.Types.Shared

/-!
# Ids stand for forms

A form has one id, an id stands for one form, and the ids in use are those below the size of the
pool, whoever interns and however the steps of several workers are interleaved
(`SharedPool.dense_bijection`).

The two tables and the counter of a pool all speak of one list, that of the forms in the order in
which they got their ids (`SharedPool.Binds`). A pool for one worker is this list. So everything
that is said here about the list holds for it too.
-/

namespace AnonymousTypes

namespace TypeId

theorem index_injective : Function.Injective index :=
  fun ⟨_⟩ ⟨_⟩ h => congrArg mk (UInt32.toNat_inj.1 h)

theorem index_ofNat {i : Nat} (h : i < UInt32.size) : (mk (UInt32.ofNat i)).index = i :=
  UInt32.toNat_ofNat_of_lt' h

end TypeId

/-- Intern forms one after the other. -/
def TypePool.internAll (pool : TypePool) (forms : List TypeForm) : TypePool :=
  forms.foldl (fun pool form => (pool.intern form).2) pool

/-- Nothing is taken out of a pool, and nothing is moved in it. -/
theorem TypePool.prefix_intern (pool : TypePool) (form : TypeForm) :
    pool.forms <+: (pool.intern form).2.forms := by
  rw [intern]
  split
  · exact List.prefix_rfl
  · exact List.prefix_append ..

theorem TypePool.prefix_internAll (pool : TypePool) (forms : List TypeForm) :
    pool.forms <+: (pool.internAll forms).forms := by
  induction forms generalizing pool with
  | nil => exact List.prefix_rfl
  | cons form forms ih => exact (pool.prefix_intern form).trans (ih (pool.intern form).2)

/-- **A known id** keeps its form, whatever is interned. -/
theorem TypePool.form?_internAll {pool : TypePool} {id : TypeId} {form : TypeForm}
    (h : pool.form? id = some form) (forms : List TypeForm) :
    (pool.internAll forms).form? id = some form := by
  obtain ⟨more, hmore⟩ := pool.prefix_internAll forms
  rw [form?] at h ⊢
  rw [← hmore, List.getElem?_append_left (List.getElem?_eq_some_iff.1 h).1, h]

theorem TypePool.mem_forms_intern (pool : TypePool) {form other : TypeForm}
    (h : other ∈ (pool.intern form).2.forms) : other ∈ pool.forms ∨ other = form := by
  rw [intern] at h
  split at h
  · exact .inl h
  · exact (List.mem_append.1 h).imp_right List.mem_singleton.1

namespace SharedPool

variable {pool : SharedPool} {known : List TypeForm} {form : TypeForm} {id : TypeId}

/-- The forms are bound, in their order, to the ids from zero on. -/
structure Binds (pool : SharedPool) (known : List TypeForm) : Prop where
  ids : Locates pool.find? TypeId.index known
  forms : ∀ id, pool.form? id = known[id.index]?
  size : pool.size = known.length
  next : pool.next = UInt32.ofNat known.length
  bounded : known.length ≤ UInt32.size

namespace Binds

theorem empty : Binds ⟨.empty, .empty, 0⟩ [] :=
  ⟨fun _ _ => by simp [find?], fun _ => rfl, rfl, rfl, Nat.zero_le _⟩

variable (h : pool.Binds known)

include h

theorem places : ∀ i < known.length, ∃ id : TypeId, id.index = i :=
  fun i hi => ⟨⟨UInt32.ofNat i⟩, TypeId.index_ofNat (Nat.lt_of_lt_of_le hi h.bounded)⟩

/-- The forms are those that have an id. -/
theorem mem_iff : form ∈ known ↔ (pool.find? form).isSome := h.ids.mem_iff h.places

/-- No form is bound to two ids. -/
theorem nodup : known.Nodup := h.ids.nodup h.places

/-- **Ids and forms** are bound to each other. -/
theorem find?_eq_some_iff : pool.find? form = some id ↔ pool.form? id = some form := by
  rw [h.ids, h.forms]

theorem isSome_form?_iff : (pool.form? id).isSome ↔ id.index < pool.size := by
  rw [h.forms, h.size, isSome_getElem?]

/-- **The next id** has no form yet: it stands for the place behind all known ones. -/
theorem index_next (hroom : known.length < UInt32.size) :
    (TypeId.mk pool.next).index = known.length := by
  rw [h.next, TypeId.index_ofNat hroom]

theorem add (hnone : pool.find? form = none) (hroom : known.length < UInt32.size) :
    (pool.add form).Binds (known ++ [form]) := by
  have hnext := h.index_next hroom
  refine ⟨?_, ?_, ?_, ?_, ?_⟩
  · exact h.ids.concat TypeId.index_injective hnext hnone (Table.find?_insert_self ..)
      fun _ hne => Table.find?_insert_ne _ _ hne
  · intro id
    by_cases he : id = ⟨pool.next⟩
    · rw [he, hnext, List.getElem?_concat_length]
      exact Table.find?_insert_self ..
    · have hne : id.index ≠ known.length := fun hi =>
        he (TypeId.index_injective (hi.trans hnext.symm))
      refine (Table.find?_insert_ne _ _ fun hraw => he (congrArg TypeId.mk hraw)).trans ?_
      refine (h.forms id).trans (Option.ext fun _ => ?_)
      rw [getElem?_concat_eq_some_iff]
      exact ⟨.inl, fun hi => hi.resolve_right fun hlast => hne hlast.1⟩
  · have hfree : pool.forms.find? pool.next = none := by
      refine (h.forms ⟨pool.next⟩).trans ?_
      rw [hnext, List.getElem?_eq_none (Nat.le_refl _)]
    have hsize : (pool.add form).size = pool.size + 1 := by
      refine (Table.size_insert ..).trans ?_
      rw [hfree]
      rfl
    rw [hsize, h.size, List.length_append, List.length_singleton]
  · rw [SharedPool.add, h.next, List.length_append, List.length_singleton, UInt32.ofNat_add]
    rfl
  · rw [List.length_append]
    exact hroom

/-- Forms added one after the other, to a pool that has none of them. -/
theorem foldl_add {forms : List TypeForm} (hnodup : (known ++ forms).Nodup)
    (hroom : (known ++ forms).length ≤ UInt32.size) :
    (forms.foldl SharedPool.add pool).Binds (known ++ forms) := by
  induction forms generalizing pool known with
  | nil => rwa [List.append_nil]
  | cons form forms ih =>
    rw [List.append_cons] at hnodup hroom ⊢
    have hnew := List.nodup_append.1 (List.nodup_append.1 hnodup).1
    have hnone : pool.find? form = none := by
      rw [← Option.not_isSome_iff_eq_none, ← h.mem_iff]
      exact fun hmem => hnew.2.2 form hmem form (List.mem_singleton_self form) rfl
    refine ih (h.add hnone ?_) hnodup hroom
    simp only [List.length_append, List.length_singleton] at hroom
    omega

end Binds

theorem binds_new : new.Binds TypeForm.primitives := by
  have hforms : (TypeForm.primitives.foldl SharedPool.add ⟨.empty, .empty, 0⟩).Binds
      ([] ++ TypeForm.primitives) := Binds.empty.foldl_add (by decide) (by decide)
  exact hforms

/-- **A known form** keeps its id, and nothing is added. -/
theorem enter_of_some (h : pool.find? form = some id) : pool.enter form = (.ok id, pool) := by
  rw [find?] at h
  rw [enter, h]

/-- **A new form** gets the next id. -/
theorem enter_of_none (h : pool.find? form = none) :
    pool.enter form = (.ok ⟨pool.next⟩, pool.add form) := by
  rw [find?] at h
  rw [enter, h]

/-! ## Workers -/

variable {forms : List TypeForm}

/-- The forms are not more than there are ids. -/
def HasRoom (forms : List TypeForm) : Prop := forms.dedup.length ≤ UInt32.size

instance (forms : List TypeForm) : Decidable (HasRoom forms) :=
  inferInstanceAs (Decidable (_ ≤ _))

/-- **There is an id** for a new form if there is one for each that may come. -/
theorem Binds.length_lt (h : pool.Binds known) (hsub : known ⊆ forms)
    (hroom : HasRoom forms) (hmem : form ∈ forms) (hnew : form ∉ known) :
    known.length < UInt32.size := by
  have hsub' : form :: known ⊆ forms.dedup := fun other hother =>
    List.mem_dedup.2 (List.cons_subset.2 ⟨hmem, hsub⟩ hother)
  have hnodup : (form :: known).Nodup := List.nodup_cons.2 ⟨hnew, h.nodup⟩
  exact Nat.le_trans (List.subperm_of_subset hnodup hsub').length_le hroom

/-- The pool knows none but the given forms. -/
def KnowsSomeOf (forms : List TypeForm) (pool : SharedPool) : Prop :=
  ∃ known, pool.Binds known ∧ known ⊆ forms

theorem knowsSomeOf_new : new.KnowsSomeOf (TypeForm.primitives ++ forms) :=
  ⟨_, binds_new, List.subset_append_left ..⟩

/-- **Workers** may rely on the pool as long as there are ids. -/
theorem lawful (hroom : HasRoom forms) :
    registry.Lawful (KnowsSomeOf forms) (· ∈ forms) where
  known _ hfind := enter_of_some hfind
  new {pool form} h hmem hnone := by
    obtain ⟨known, hknown, hsub⟩ := h
    have hnew : form ∉ known := by
      rw [hknown.mem_iff, show pool.find? form = none from hnone]
      exact Bool.false_ne_true
    have hlt := hknown.length_lt hsub hroom hmem hnew
    have hsub' : known ++ [form] ⊆ forms :=
      List.append_subset.2 ⟨hsub, fun _ hother => List.mem_singleton.1 hother ▸ hmem⟩
    exact ⟨_, _, enter_of_none hnone, ⟨_, hknown.add hnone hlt, hsub'⟩,
      Table.find?_insert_self .., fun _ hne => Table.find?_insert_ne _ _ hne⟩
  injective h hfind hfind' := by
    obtain ⟨known, hknown, -⟩ := h
    have hform := hknown.find?_eq_some_iff.1 hfind
    exact Option.some.inj (hform.symm.trans (hknown.find?_eq_some_iff.1 hfind'))

/-- **A known id** keeps its form, whatever workers intern, as long as there are ids. -/
theorem Binds.form?_run (h : pool.Binds known) (hroom : HasRoom (known ++ forms))
    (schedule : List Nat) {form : TypeForm} (hform : pool.form? id = some form) :
    ((Registry.Calls.ofKeys pool forms).run registry schedule).store.form? id = some form := by
  have hstart : Registry.Calls.Sound registry (KnowsSomeOf (known ++ forms)) (· ∈ known ++ forms)
      pool (.ofKeys pool forms) :=
    Registry.Calls.sound_ofKeys ⟨known, h, List.subset_append_left ..⟩
      fun _ => List.mem_append_right _
  obtain ⟨hsound, hkeeps⟩ := hstart.run (lawful hroom) schedule
  obtain ⟨known', hknown', -⟩ := hsound.inOrder
  exact hknown'.find?_eq_some_iff.1 (hkeeps (h.find?_eq_some_iff.2 hform))

/-! ## One pool for one worker -/

/-- **Entering** a form does the same to both pools. -/
theorem Binds.enter {seq : TypePool} (h : pool.Binds seq.forms)
    (hroom : form ∉ seq.forms → seq.forms.length < UInt32.size) :
    (pool.enter form).1 = .ok (seq.intern form).1 ∧
      (pool.enter form).2.Binds (seq.intern form).2.forms := by
  by_cases hmem : form ∈ seq.forms
  · obtain ⟨id, hfind⟩ := Option.isSome_iff_exists.1 (h.mem_iff.1 hmem)
    obtain ⟨hlt, hget⟩ := List.getElem?_eq_some_iff.1 ((h.ids form id).1 hfind)
    have hindex : seq.forms.idxOf form = id.index :=
      (congrArg (List.idxOf · _) hget.symm).trans (seq.nodup.idxOf_getElem id.index hlt)
    have hid : (⟨UInt32.ofNat (seq.forms.idxOf form)⟩ : TypeId) = id := by
      rw [hindex]
      exact TypeId.index_injective (TypeId.index_ofNat (Nat.lt_of_lt_of_le hlt h.bounded))
    rw [enter_of_some hfind, TypePool.intern, dif_pos hmem, hid]
    exact ⟨rfl, h⟩
  · have hnone : pool.find? form = none := by
      rwa [← Option.not_isSome_iff_eq_none, ← h.mem_iff]
    rw [enter_of_none hnone, TypePool.intern, dif_neg hmem, h.next]
    exact ⟨rfl, h.add hnone (hroom hmem)⟩

/-- **Forms interned** one after the other, by calls that do not overlap and by the pool of a
single worker, get the same ids. -/
theorem binds_internAll (hroom : HasRoom forms) {seq : TypePool}
    (h : pool.Binds seq.forms) (hsub : seq.forms ⊆ forms) {order : List TypeForm}
    (horder : ∀ form ∈ order, form ∈ forms) :
    (registry.internAll pool order).Binds (seq.internAll order).forms := by
  induction order generalizing pool seq with
  | nil => exact h
  | cons form order ih =>
    obtain ⟨hmem, horder⟩ := List.forall_mem_cons.1 horder
    have hstep : registry.internAll pool (form :: order) =
        registry.internAll (pool.enter form).2 order := by
      rw [Registry.internAll, List.foldl_cons,
        (lawful hroom).intern_eq_enter ⟨_, h, hsub⟩]
      rfl
    have hsub' : (seq.intern form).2.forms ⊆ forms := fun other hother =>
      (seq.mem_forms_intern hother).elim (hsub ·) fun he => he ▸ hmem
    rw [hstep]
    exact ih (h.enter (h.length_lt hsub hroom hmem)).2 hsub' horder

/-- **Forms and ids.** Let workers intern forms, each at its own pace, and let there be no more
forms than ids.

1. The calls stay those that were made, and a call that has had its turns is answered.
2. The answer is an id. Its form is that of the call, now and after any further steps.
3. Two answers are the same id exactly if the forms are the same.
4. The primitive forms have the first ids, in their order.
5. The ids that have a form are those below the size.
6. A form has an id exactly if the id has this form. So no id is bound to two forms and no form to
   two ids.
7. Interned one after the other by a single worker, the forms get the same ids if the order is
   right. -/
theorem dense_bijection (hroom : HasRoom (TypeForm.primitives ++ forms))
    (schedule : List Nat) :
    let calls := (Registry.Calls.ofKeys new forms).run registry schedule
    (calls.callers.map Prod.fst = forms ∧
      ∀ i form, forms[i]? = some form → Registry.maxSteps ≤ schedule.count i →
        ∃ answer, calls.callers[i]? = some (form, .done answer)) ∧
    (∀ form answer, (form, .done answer) ∈ calls.callers →
      ∃ id, answer = .ok id ∧ ∀ more, (calls.run registry more).store.form? id = some form) ∧
    (∀ form form' a b, (form, .done (.ok a)) ∈ calls.callers →
      (form', .done (.ok b)) ∈ calls.callers → (a = b ↔ form = form')) ∧
    (∀ i form, TypeForm.primitives[i]? = some form →
      calls.store.form? ⟨UInt32.ofNat i⟩ = some form) ∧
    (∀ id, (calls.store.form? id).isSome ↔ id.index < calls.store.size) ∧
    (∀ form id, calls.store.find? form = some id ↔ calls.store.form? id = some form) ∧
    ∃ order, (∀ id, calls.store.form? id = (TypePool.new.internAll order).form? id) ∧
      calls.store.size = (TypePool.new.internAll order).size := by
  intro calls
  have hlawful := lawful hroom
  have hstart : Registry.Calls.Sound registry (KnowsSomeOf (TypeForm.primitives ++ forms))
      (· ∈ TypeForm.primitives ++ forms) new (.ofKeys new forms) :=
    Registry.Calls.sound_ofKeys knowsSomeOf_new fun _ => List.mem_append_right _
  have hsound := (hstart.run hlawful schedule).1
  change Registry.Calls.Sound _ _ _ _ calls at hsound
  -- one after the other in this order, the workers would have got the same
  obtain ⟨order, horder, hstore⟩ := hstart.exists_order hlawful schedule
  change calls.store = registry.internAll new order at hstore
  have hnew : new.Binds TypePool.new.forms := binds_new
  have hseq := binds_internAll hroom hnew (List.subset_append_left ..) horder
  rw [← hstore] at hseq
  refine ⟨Registry.Calls.run_ofKeys schedule, ?_, ?_, ?_, ?_, ?_, order, ?_, ?_⟩
  · intro form answer hmem
    obtain ⟨id, rfl, hfind⟩ := hsound.find?_of_answered hlawful hmem
    refine ⟨id, rfl, fun more => ?_⟩
    obtain ⟨known, hknown, -⟩ := (hsound.run hlawful more).1.inOrder
    exact hknown.find?_eq_some_iff.1 (hfind more)
  · intro form form' a b ha hb
    exact hsound.answer_eq_iff hlawful ha hb
  · intro i form hform
    obtain ⟨hlt, hget⟩ := List.getElem?_eq_some_iff.1 hform
    have hsize : TypeForm.primitives.length < UInt32.size := by decide
    have hfirst := (TypePool.new.internAll order).primitives_first
    rw [hseq.forms, TypeId.index_ofNat (Nat.lt_trans hlt hsize), ← hget]
    exact List.prefix_iff_getElem?.1 hfirst i hlt
  · exact fun id => hseq.isSome_form?_iff
  · exact fun form id => hseq.find?_eq_some_iff
  · exact hseq.forms
  · exact hseq.size

/-- Two workers are about to enter the same form, and a third one a form that refers to it, before
it has an id. -/
theorem dense_bijection_of_contention :
    HasRoom (TypeForm.primitives ++ [.list .int, .list .int, .pointer ⟨7⟩]) ∧
      let calls := (Registry.Calls.ofKeys new
        [TypeForm.list .int, .list .int, .pointer ⟨7⟩]).run registry [0, 1, 2, 1, 0, 2]
      ∃ a b, calls.callers[0]? = some (.list .int, .done (.ok a)) ∧
        calls.callers[1]? = some (.list .int, .done (.ok a)) ∧
        calls.callers[2]? = some (.pointer ⟨7⟩, .done (.ok b)) ∧ a ≠ b ∧
        calls.store.form? a = some (.list .int) := by
  have hroom : HasRoom (TypeForm.primitives ++ [.list .int, .list .int, .pointer ⟨7⟩]) := by
    decide +kernel
  obtain ⟨⟨-, hdone⟩, hanswer, hsame, -⟩ := dense_bijection hroom [0, 1, 2, 1, 0, 2]
  obtain ⟨_, h₀⟩ := hdone 0 _ rfl (by decide)
  obtain ⟨_, h₁⟩ := hdone 1 _ rfl (by decide)
  obtain ⟨_, h₂⟩ := hdone 2 _ rfl (by decide)
  obtain ⟨a, rfl, hform⟩ := hanswer _ _ (List.mem_of_getElem? h₀)
  obtain ⟨a', rfl, -⟩ := hanswer _ _ (List.mem_of_getElem? h₁)
  obtain ⟨b, rfl, -⟩ := hanswer _ _ (List.mem_of_getElem? h₂)
  have hsame₁ := hsame _ _ _ _ (List.mem_of_getElem? h₀) (List.mem_of_getElem? h₁)
  have hsame₂ := hsame _ _ _ _ (List.mem_of_getElem? h₀) (List.mem_of_getElem? h₂)
  obtain rfl : a = a' := hsame₁.2 rfl
  exact ⟨hroom, a, b, h₀, h₁, h₂, fun he => absurd (hsame₂.1 he) (by decide), hform []⟩

end SharedPool

end AnonymousTypes
