import Mathlib.Data.List.Nodup
import AnonymousTypes.Interning

/-!
# Interning from several workers

A call may enter its value long after it has looked for it, so nothing it has seen by then can be
relied on. What can be is that a store only grows: a number once given stays. `Registry.Lawful`
says what entering must do for this, and `Calls.Sound` is what every step of every call keeps
(`Sound.step`), hence all steps in any order (`Sound.run`). A call that is answered has the number
under which its value is found ever after (`Sound.find?_of_answered`).

In the end the steps of several workers come to the same as calls that wait for each other, in the
order in which the values were entered (`Sound.exists_order`).
-/

namespace AnonymousTypes

/-! ## Lists and lookups

Values that are numbered as they come stand in a list at the places that their numbers say. -/

/-- A lookup and the places of the values in a list say the same. -/
def Locates {κ ι : Type} (find? : κ → Option ι) (place : ι → Nat) (values : List κ) : Prop :=
  ∀ key number, find? key = some number ↔ values[place number]? = some key

theorem getElem?_concat_eq_some_iff {α : Type} {l : List α} {a b : α} {i : Nat} :
    (l ++ [a])[i]? = some b ↔ l[i]? = some b ∨ i = l.length ∧ a = b := by
  rcases Nat.lt_trichotomy i l.length with h | rfl | h
  · rw [List.getElem?_append_left h]
    exact ⟨.inl, fun hi => hi.resolve_right fun he => absurd he.1 (Nat.ne_of_lt h)⟩
  · simp
  · rw [List.getElem?_eq_none (by simp; omega), List.getElem?_eq_none (Nat.le_of_lt h)]
    simp [Nat.ne_of_gt h]

namespace Locates

variable {κ ι : Type} {find? : κ → Option ι} {place : ι → Nat} {values : List κ} {key : κ}
  (h : Locates find? place values)

include h

section

variable (hplaces : ∀ i < values.length, ∃ number, place number = i)

include hplaces

/-- The values are those that are found. -/
theorem mem_iff : key ∈ values ↔ (find? key).isSome := by
  rw [List.mem_iff_getElem?, Option.isSome_iff_exists]
  constructor
  · rintro ⟨i, hi⟩
    obtain ⟨number, rfl⟩ := hplaces i (List.getElem?_eq_some_iff.1 hi).1
    exact ⟨number, (h key number).2 hi⟩
  · rintro ⟨number, hnumber⟩
    exact ⟨_, (h key number).1 hnumber⟩

/-- No value has two places. -/
theorem nodup : values.Nodup := by
  rw [List.nodup_iff_getElem?_ne_getElem?]
  intro i j hij hj he
  obtain ⟨number, rfl⟩ := hplaces i (Nat.lt_trans hij hj)
  obtain ⟨number', rfl⟩ := hplaces j hj
  have hget' := List.getElem?_eq_getElem hj
  have hfind := (h _ number).2 (he.trans hget')
  rw [(h _ number').2 hget', Option.some.injEq] at hfind
  exact Nat.ne_of_lt hij (congrArg place hfind.symm)

end

/-- **A new value** is put behind the others, at the place of the number that it gets. -/
theorem concat {find?' : κ → Option ι} {number : ι} (hplace : Function.Injective place)
    (hlast : place number = values.length) (hnone : find? key = none)
    (hself : find?' key = some number)
    (hothers : ∀ other, other ≠ key → find?' other = find? other) :
    Locates find?' place (values ++ [key]) := by
  intro other number'
  rw [getElem?_concat_eq_some_iff, ← h]
  by_cases he : other = key
  · rw [he, hself, hnone, Option.some.injEq]
    constructor
    · rintro rfl
      exact .inr ⟨hlast, rfl⟩
    · rintro (hfind | ⟨hlast', -⟩)
      · cases hfind
      · exact hplace (hlast.trans hlast'.symm)
  · rw [hothers other he]
    exact ⟨.inl, fun hfind => hfind.resolve_right fun hlast' => he hlast'.2.symm⟩

end Locates

namespace Registry

/-! ## Lawful registries -/

variable {σ κ ι : Type} {R : Registry σ κ ι}

/-- A registry that keeps one number for each value, as long as its store is in order and the
values that are entered are admitted. -/
structure Lawful (R : Registry σ κ ι) (inOrder : σ → Prop) (admitted : κ → Prop) : Prop where
  known : ∀ {store key number}, inOrder store → R.find? store key = some number →
    R.enter store key = (.ok number, store)
  new : ∀ {store key}, inOrder store → admitted key → R.find? store key = none →
    ∃ number store', R.enter store key = (.ok number, store') ∧ inOrder store' ∧
      R.find? store' key = some number ∧
      ∀ other, other ≠ key → R.find? store' other = R.find? store other
  injective : ∀ {store key key' number}, inOrder store → R.find? store key = some number →
    R.find? store key' = some number → key = key'

/-- A call that was answered. -/
def Stage.isDone : Stage ι → Bool
  | .done _ => true
  | _ => false

/-- What is known about a call at a stage. -/
def Stage.Valid (R : Registry σ κ ι) (store : σ) (key : κ) : Stage ι → Prop
  | .done answer => ∃ number, answer = .ok number ∧ R.find? store key = some number
  | _ => True

/-- What one store has a number for has the same number in the other. -/
def Keeps (R : Registry σ κ ι) (store store' : σ) : Prop :=
  ∀ {key number}, R.find? store key = some number → R.find? store' key = some number

variable {inOrder : σ → Prop} {admitted : κ → Prop} {store store' : σ} {key : κ}
  {stage : Stage ι}

theorem Stage.Valid.mono (h : stage.Valid R store key) (hkeeps : R.Keeps store store') :
    stage.Valid R store' key := by
  cases stage with
  | start | missed => trivial
  | done answer =>
    obtain ⟨number, hanswer, hfind⟩ := h
    exact ⟨number, hanswer, hkeeps hfind⟩

/-- What a step of a call does: the store is kept in order, what it has stays, and the only value
that it may have now and had not before is that of a call that is answered. -/
structure Advances (R : Registry σ κ ι) (inOrder : σ → Prop) (key : κ) (stage : Stage ι)
    (store : σ) (stage' : Stage ι) (store' : σ) : Prop where
  inOrder : inOrder store'
  keeps : R.Keeps store store'
  valid : stage'.Valid R store' key
  known : ∀ other, (R.find? store' other).isSome →
    (R.find? store other).isSome ∨ other = key ∧ stage'.isDone = true
  done : stage.isDone = true → stage'.isDone = true

namespace Lawful

variable (hR : R.Lawful inOrder admitted)

include hR

/-- **Entering** a value, whether it is there or not. -/
theorem enter (hstore : inOrder store) (hkey : admitted key) :
    ∃ number store', R.enter store key = (.ok number, store') ∧ inOrder store' ∧
      R.find? store' key = some number ∧ R.Keeps store store' ∧
      ∀ other, other ≠ key → R.find? store' other = R.find? store other := by
  rcases hfind : R.find? store key with _ | number
  · obtain ⟨number, store', henter, hstore', hnumber, hothers⟩ := hR.new hstore hkey hfind
    refine ⟨number, store', henter, hstore', hnumber, fun {other i} hother => ?_, hothers⟩
    have hne : other ≠ key := fun he => by
      rw [he, hfind] at hother
      cases hother
    exact (hothers other hne).trans hother
  · exact ⟨number, store, hR.known hstore hfind, hstore, hfind, id, fun _ _ => rfl⟩

/-- Nothing happens between the two steps of a call on its own. -/
theorem intern_eq_enter (hstore : inOrder store) : R.intern store key = R.enter store key := by
  rw [intern]
  split
  · exact (hR.known hstore ‹_›).symm
  · rfl

/-- **A step of a call.** -/
theorem advances (hstore : inOrder store) (hkey : admitted key) (hvalid : stage.Valid R store key) :
    R.Advances inOrder key stage store (R.advance key stage store).1
      (R.advance key stage store).2 := by
  cases stage with
  | start =>
    rw [advance]
    rcases hfind : R.find? store key with _ | number
    · exact ⟨hstore, id, trivial, fun _ => .inl, id⟩
    · exact ⟨hstore, id, ⟨number, rfl, hfind⟩, fun _ => .inl, fun _ => rfl⟩
  | missed =>
    obtain ⟨number, store', henter, hstore', hfind, hkeeps, hothers⟩ := hR.enter hstore hkey
    rw [advance, henter]
    refine ⟨hstore', hkeeps, ⟨number, rfl, hfind⟩, fun other hother => ?_, fun _ => rfl⟩
    by_cases he : other = key
    · exact .inr ⟨he, rfl⟩
    · exact .inl (hothers other he ▸ hother)
  | done answer => exact ⟨hstore, id, hvalid, fun _ => .inl, id⟩

end Lawful

namespace Calls

/-- The calls stand where they can stand if the store was `store₀` before the first of them. -/
structure Sound (R : Registry σ κ ι) (inOrder : σ → Prop) (admitted : κ → Prop) (store₀ : σ)
    (calls : Calls σ κ ι) : Prop where
  inOrder : inOrder calls.store
  admitted : ∀ key stage, (key, stage) ∈ calls.callers → admitted key
  keeps : R.Keeps store₀ calls.store
  valid : ∀ key stage, (key, stage) ∈ calls.callers → stage.Valid R calls.store key
  known : ∀ key, (R.find? calls.store key).isSome →
    (R.find? store₀ key).isSome ∨ ∃ stage, (key, stage) ∈ calls.callers ∧ stage.isDone = true

variable {store₀ : σ} {calls : Calls σ κ ι}

theorem sound_ofKeys (hstore : inOrder store₀) {keys : List κ}
    (hkeys : ∀ key ∈ keys, admitted key) :
    Sound R inOrder admitted store₀ (ofKeys store₀ keys) := by
  have hcallers : ∀ key (stage : Stage ι), (key, stage) ∈ (ofKeys store₀ keys).callers →
      key ∈ keys ∧ stage = .start := by
    intro key stage hmem
    obtain ⟨key', hkey', he⟩ := List.mem_map.1 hmem
    obtain ⟨rfl, rfl⟩ := Prod.mk.inj he
    exact ⟨hkey', rfl⟩
  refine ⟨hstore, fun key stage hmem => hkeys key (hcallers key stage hmem).1, id,
    fun key stage hmem => ?_, fun _ => .inl⟩
  rw [(hcallers key stage hmem).2]
  trivial

theorem mem_answered : key ∈ calls.answered ↔ ∃ answer, (key, .done answer) ∈ calls.callers := by
  simp only [answered, List.mem_filterMap, Prod.exists]
  constructor
  · rintro ⟨key', _ | _ | answer, hmem, he⟩
    · cases he
    · cases he
    · exact ⟨answer, Option.some.inj he ▸ hmem⟩
  · rintro ⟨answer, hmem⟩
    exact ⟨key, _, hmem, rfl⟩

/-- Only a call that has missed its value may change the store. -/
theorem store_step (calls : Calls σ κ ι) (position : Nat) :
    (calls.step R position).store = calls.store ∨ ∃ key, (key, .missed) ∈ calls.callers ∧
      (calls.step R position).store = (R.enter calls.store key).2 := by
  rw [step]
  rcases hcaller : calls.callers[position]? with _ | ⟨key, _ | _ | answer⟩
  · exact .inl rfl
  · refine .inl ?_
    dsimp only [advance]
    split <;> rfl
  · exact .inr ⟨key, List.mem_of_getElem? hcaller, rfl⟩
  · exact .inl rfl

namespace Sound

/-- **The values that are found** are those that were there before and those of the calls that are
answered. -/
theorem isSome_find?_iff (h : Sound R inOrder admitted store₀ calls) :
    (R.find? calls.store key).isSome ↔ (R.find? store₀ key).isSome ∨ key ∈ calls.answered := by
  simp only [mem_answered]
  constructor
  · intro hfind
    refine (h.known key hfind).imp_right ?_
    rintro ⟨_ | _ | answer, hmem, hdone⟩
    · cases hdone
    · cases hdone
    · exact ⟨answer, hmem⟩
  · rintro (hfind | ⟨answer, hmem⟩)
    · obtain ⟨number, hnumber⟩ := Option.isSome_iff_exists.1 hfind
      exact Option.isSome_iff_exists.2 ⟨number, h.keeps hnumber⟩
    · obtain ⟨number, -, hnumber⟩ := h.valid key _ hmem
      exact Option.isSome_iff_exists.2 ⟨number, hnumber⟩

variable (hR : R.Lawful inOrder admitted) (h : Sound R inOrder admitted store₀ calls)

include hR h

/-- **Any call may take its next step.** The store stays in order, and what was found in it is
still found. -/
theorem step (position : Nat) : Sound R inOrder admitted store₀ (calls.step R position) ∧
      R.Keeps calls.store (calls.step R position).store := by
  obtain ⟨store, callers⟩ := calls
  rw [Calls.step]
  rcases hcaller : callers[position]? with _ | ⟨key, stage⟩
  · exact ⟨h, id⟩
  · have hmem := List.mem_of_getElem? hcaller
    obtain ⟨hinOrder, hkeeps, hvalid, hknown, hdone⟩ :=
      hR.advances h.inOrder (h.admitted key stage hmem) (h.valid key stage hmem)
    dsimp only
    generalize (R.advance key stage store).1 = stage' at *
    generalize (R.advance key stage store).2 = store' at *
    have hlt := (List.getElem?_eq_some_iff.1 hcaller).1
    have hset : ∀ {c}, c ∈ callers.set position (key, stage') → c ∈ callers ∨ c = (key, stage') :=
      List.mem_or_eq_of_mem_set
    refine ⟨⟨hinOrder, ?_, fun hfind => hkeeps (h.keeps hfind), ?_, ?_⟩, hkeeps⟩
    · intro other stage₁ hother
      rcases hset hother with hother | he
      · exact h.admitted other stage₁ hother
      · exact (Prod.mk.inj he).1 ▸ h.admitted key stage hmem
    · intro other stage₁ hother
      rcases hset hother with hother | he
      · exact (h.valid other stage₁ hother).mono hkeeps
      · obtain ⟨rfl, rfl⟩ := Prod.mk.inj he
        exact hvalid
    · -- a new entry was made by the call that took the step, and old ones by others before
      intro other hother
      rcases hknown other hother with hbefore | ⟨rfl, hstage'⟩
      · refine (h.known other hbefore).imp_right ?_
        rintro ⟨stage₁, hstage₁, hisDone⟩
        obtain ⟨i, hi⟩ := List.getElem?_of_mem hstage₁
        by_cases he : position = i
        · subst he
          obtain ⟨rfl, rfl⟩ := Prod.mk.inj (Option.some.inj (hcaller.symm.trans hi))
          exact ⟨stage', List.mem_set hlt .., hdone hisDone⟩
        · exact ⟨stage₁, List.mem_of_getElem? ((List.getElem?_set_ne he).trans hi), hisDone⟩
      · exact .inr ⟨stage', List.mem_set hlt .., hstage'⟩

/-- **In any order** they may take them, so nothing below depends on the schedule. -/
theorem run (schedule : List Nat) : Sound R inOrder admitted store₀ (calls.run R schedule) ∧
      R.Keeps calls.store (calls.run R schedule).store := by
  induction schedule generalizing calls with
  | nil => exact ⟨h, id⟩
  | cons position schedule ih =>
    obtain ⟨hstep, hkeeps⟩ := h.step hR position
    obtain ⟨hrun, hkeeps'⟩ := ih hstep
    exact ⟨hrun, fun hfind => hkeeps' (hkeeps hfind)⟩

/-- **An answer** is the number under which the value is found from then on. -/
theorem find?_of_answered {answer : Except Fault ι}
    (hmem : (key, .done answer) ∈ calls.callers) :
    ∃ number, answer = .ok number ∧
      ∀ schedule, R.find? (calls.run R schedule).store key = some number := by
  obtain ⟨number, hanswer, hfind⟩ := h.valid key _ hmem
  exact ⟨number, hanswer, fun schedule => (h.run hR schedule).2 hfind⟩

/-- **Answers** are equal exactly if the values are: the number that was answered is still found
for its value, and numbers are not shared. -/
theorem answer_eq_iff {key' : κ} {a b : ι} (ha : (key, .done (.ok a)) ∈ calls.callers)
    (hb : (key', .done (.ok b)) ∈ calls.callers) : a = b ↔ key = key' := by
  obtain ⟨_, hanswera, hfinda⟩ := h.valid key _ ha
  obtain ⟨_, hanswerb, hfindb⟩ := h.valid key' _ hb
  rw [← Except.ok.inj hanswera] at hfinda
  rw [← Except.ok.inj hanswerb] at hfindb
  constructor
  · rintro rfl
    exact hR.injective h.inOrder hfinda hfindb
  · rintro rfl
    exact Option.some.inj (hfinda.symm.trans hfindb)

/-- **One after the other**, calls come to the same store. -/
theorem exists_order (schedule : List Nat) : ∃ order, (∀ key ∈ order, admitted key) ∧
      (calls.run R schedule).store = R.internAll calls.store order := by
  induction schedule generalizing calls with
  | nil => exact ⟨[], by simp, rfl⟩
  | cons position schedule ih =>
    obtain ⟨order, horder, hrun⟩ := ih (h.step hR position).1
    change (calls.run R (position :: schedule)).store = _ at hrun
    rcases store_step (R := R) calls position with hstep | ⟨key, hmem, hstep⟩
    · exact ⟨order, horder, hrun.trans (by rw [hstep])⟩
    · refine ⟨key :: order, List.forall_mem_cons.2 ⟨h.admitted key _ hmem, horder⟩, ?_⟩
      rw [hrun, hstep, ← hR.intern_eq_enter h.inOrder]
      rfl

end Sound

end Calls

/-! ## Calls that are answered -/

/-- The largest number of steps that a call takes. -/
def maxSteps : Nat := 2

/-- How many steps are left for a call at most. -/
def Stage.left : Stage ι → Nat
  | .start => 2
  | .missed => 1
  | .done _ => 0

theorem Stage.eq_done_of_left {stage : Stage ι} (h : stage.left = 0) :
    ∃ answer, stage = .done answer := by
  cases stage with
  | done answer => exact ⟨answer, rfl⟩
  | _ => cases h

theorem left_advance (key : κ) (stage : Stage ι) (store : σ) :
    (R.advance key stage store).1.left ≤ stage.left - 1 := by
  cases stage with
  | start =>
    rw [advance]
    split <;> simp [Stage.left]
  | missed | done answer => exact Nat.le_refl 0

namespace Calls

variable {store₀ : σ} {calls : Calls σ κ ι}

theorem keys_step (position : Nat) :
    (calls.step R position).callers.map Prod.fst = calls.callers.map Prod.fst := by
  rw [step]
  rcases hcaller : calls.callers[position]? with _ | ⟨key, stage⟩
  · rfl
  · have hlt := (List.getElem?_eq_some_iff.1 hcaller).1
    refine List.ext_getElem? fun i => ?_
    dsimp only
    rw [List.map_set, List.getElem?_set]
    split
    · rename_i hi
      rw [← hi, if_pos (by simpa using hlt), List.getElem?_map, hcaller]
      rfl
    · rfl

/-- The calls stay the same calls. -/
theorem keys_run (schedule : List Nat) :
    (calls.run R schedule).callers.map Prod.fst = calls.callers.map Prod.fst := by
  induction schedule generalizing calls with
  | nil => rfl
  | cons position schedule ih => exact ih.trans (keys_step position)

theorem left_step (position : Nat) {i : Nat} (h : calls.callers[i]? = some (key, stage)) :
    ∃ stage', (calls.step R position).callers[i]? = some (key, stage') ∧
      stage'.left ≤ stage.left - if position = i then 1 else 0 := by
  rw [step]
  rcases hcaller : calls.callers[position]? with _ | ⟨key', stage'⟩
  · have hne : position ≠ i := fun he => by
      rw [he, h] at hcaller
      cases hcaller
    exact ⟨stage, h, by rw [if_neg hne]; exact Nat.le_refl _⟩
  · by_cases hi : position = i
    · subst hi
      obtain ⟨rfl, rfl⟩ := Prod.mk.inj (Option.some.inj (hcaller.symm.trans h))
      refine ⟨_, List.getElem?_set_self (List.getElem?_eq_some_iff.1 h).1, ?_⟩
      rw [if_pos rfl]
      exact left_advance ..
    · refine ⟨stage, (List.getElem?_set_ne hi).trans h, ?_⟩
      rw [if_neg hi]
      exact Nat.le_refl _

/-- A call comes nearer to its end whenever it has a turn. -/
theorem left_run (schedule : List Nat) {i : Nat} (h : calls.callers[i]? = some (key, stage)) :
    ∃ stage', (calls.run R schedule).callers[i]? = some (key, stage') ∧
      stage'.left ≤ stage.left - schedule.count i := by
  induction schedule generalizing calls stage with
  | nil => exact ⟨stage, h, Nat.le_refl _⟩
  | cons position schedule ih =>
    obtain ⟨stage₁, h₁, hle₁⟩ := left_step (R := R) position h
    obtain ⟨stage₂, h₂, hle₂⟩ := ih h₁
    refine ⟨stage₂, h₂, ?_⟩
    rw [List.count_cons]
    simp only [beq_iff_eq]
    split at hle₁ <;> split <;> omega

/-- **The calls** stay those that were made, and a call that has had its turns is answered. -/
theorem run_ofKeys {keys : List κ} (schedule : List Nat) :
    ((ofKeys store₀ keys).run R schedule).callers.map Prod.fst = keys ∧
      ∀ i key, keys[i]? = some key → maxSteps ≤ schedule.count i →
        ∃ answer, ((ofKeys store₀ keys).run R schedule).callers[i]? = some (key, .done answer) := by
  refine ⟨(keys_run schedule).trans (by simp [ofKeys, Function.comp_def]), ?_⟩
  intro i key hkey hturns
  have hstart : (ofKeys store₀ keys : Calls σ κ ι).callers[i]? = some (key, .start) := by
    rw [ofKeys, List.getElem?_map, hkey]
    rfl
  obtain ⟨stage, hstage, hle⟩ := left_run (R := R) schedule hstart
  have hleft : stage.left ≤ maxSteps - schedule.count i := hle
  obtain ⟨answer, rfl⟩ := Stage.eq_done_of_left (show stage.left = 0 by omega)
  exact ⟨answer, hstage⟩

end Calls

end Registry

end AnonymousTypes
