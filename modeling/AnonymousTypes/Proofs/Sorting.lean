import Mathlib.Data.List.Sort
import AnonymousTypes.Sorted

/-!
# Sorting by a comparison

That sorting permutes a list and leaves it sorted is known of the library's insertion sort, and
`sortList` is that sort (`sortList_eq_insertionSort`). What is added here is about comparisons. A
comparison may call different elements equal, so it sorts in one way only those lists whose
elements it tells apart (`sortList_eq_of_perm`). Of such a list, the element at a position is the
one with so many elements below it (`countP_lt_of_getElem?`), which is how the results about
numbering speak of order without speaking of sorted lists.
-/

namespace AnonymousTypes

variable {α : Type}

theorem sortList_eq_insertionSort (le : α → α → Bool) (xs : List α) :
    sortList le xs = xs.insertionSort fun a b => le a b := by
  induction xs with
  | nil => rfl
  | cons x xs ih =>
    rw [List.insertionSort_cons, ← ih, List.orderedInsert_eq_take_drop]
    simp only [decide_not, Bool.decide_eq_true]
    rfl

/-- Sorting neither adds nor drops elements. -/
theorem sortList_perm (le : α → α → Bool) (xs : List α) : (sortList le xs).Perm xs :=
  sortList_eq_insertionSort le xs ▸ List.perm_insertionSort ..

section

variable {cmp : α → α → Ordering} [Std.TransCmp cmp] {xs ys : List α}

/-- The result of sorting by a comparison is sorted, because a comparison is total and
transitive. -/
theorem sortList_isLE (xs : List α) :
    (sortList (fun a b => (cmp a b).isLE) xs).Pairwise fun a b => (cmp a b).isLE := by
  have : Std.Total fun a b => (cmp a b).isLE = true := ⟨fun a b => by
    rcases h : cmp a b
    · exact .inl rfl
    · exact .inl rfl
    · exact .inr (Ordering.isLE_of_eq_lt (Std.OrientedCmp.lt_of_gt h))⟩
  have : IsTrans α fun a b => (cmp a b).isLE = true := ⟨fun _ _ _ => Std.TransCmp.isLE_trans⟩
  rw [sortList_eq_insertionSort]
  exact List.pairwise_insertionSort ..

/-- Sorting strictly, when no two elements compare equal. Then the rank of an element is its
position. -/
theorem sortList_isLT (hdistinct : xs.Pairwise fun a b => cmp a b ≠ .eq) :
    (sortList (fun a b => (cmp a b).isLE) xs).Pairwise fun a b => cmp a b = .lt := by
  have hne := hdistinct.perm (sortList_perm (fun a b => (cmp a b).isLE) xs).symm
    fun hab hba => hab (Std.OrientedCmp.eq_symm hba)
  refine ((sortList_isLE xs).and hne).imp ?_
  intro a b hab
  rcases h : cmp a b
  · rfl
  · exact absurd h hab.2
  · rw [h] at hab
    cases hab.1

/-- The order in which the elements are given does not matter. -/
theorem sortList_eq_of_perm (hinj : ∀ a ∈ xs, ∀ b ∈ xs, cmp a b = .eq → a = b)
    (hperm : xs.Perm ys) :
    sortList (fun a b => (cmp a b).isLE) xs = sortList (fun a b => (cmp a b).isLE) ys := by
  have hxs := sortList_perm (fun a b => (cmp a b).isLE) xs
  have hys := sortList_perm (fun a b => (cmp a b).isLE) ys
  refine ((hxs.trans hperm).trans hys.symm).eq_of_pairwise ?_ (sortList_isLE xs) (sortList_isLE ys)
  intro a b ha hb hab hba
  exact hinj a (hxs.mem_iff.1 ha) b (hperm.mem_iff.2 (hys.mem_iff.1 hb))
    (Std.OrientedCmp.isLE_antisymm hab hba)

/-- The position of an element in a sorted list is the number of smaller ones. -/
theorem countP_lt_of_getElem? {x : α} {r : Nat} (hsorted : xs.Pairwise fun a b => cmp a b = .lt)
    (hr : xs[r]? = some x) : (xs.countP fun y => cmp y x = .lt) = r := by
  induction xs generalizing r with
  | nil => cases hr
  | cons y ys ih =>
    obtain ⟨hy, hys⟩ := List.pairwise_cons.1 hsorted
    rcases r with _ | r
    · obtain rfl := Option.some.inj hr
      have hself : cmp y y = .eq := Std.ReflCmp.compare_self
      rw [List.countP_cons_of_neg (by simp [hself])]
      refine List.countP_eq_zero.2 fun z hz hlt => ?_
      have hgt := Std.OrientedCmp.gt_of_lt (hy z hz)
      rw [decide_eq_true_eq, hgt] at hlt
      cases hlt
    · have hx : ys[r]? = some x := hr
      rw [List.countP_cons_of_pos (by simpa using hy x (List.mem_of_getElem? hx)), ih hys hx]

/-- A smaller element has fewer elements below it, as it is itself below the larger one. -/
theorem countP_lt_countP {x y : α} (hx : x ∈ xs) (hxy : cmp x y = .lt) :
    (xs.countP fun z => cmp z x = .lt) < xs.countP fun z => cmp z y = .lt := by
  have hle : ∀ zs : List α, (zs.countP fun z => cmp z x = .lt) ≤ zs.countP fun z => cmp z y = .lt :=
    fun zs => List.countP_mono_left fun z _ hz => decide_eq_true
      (Std.TransCmp.lt_trans (of_decide_eq_true hz) hxy)
  have hself : cmp x x = .eq := Std.ReflCmp.compare_self
  obtain ⟨pre, post, rfl⟩ := List.append_of_mem hx
  rw [List.countP_append, List.countP_append, List.countP_cons_of_neg (by simp [hself]),
    List.countP_cons_of_pos (by simpa using hxy)]
  have hpre := hle pre
  have hpost := hle post
  omega

/-- Every number that is small enough is the number of elements below some element. -/
theorem exists_countP_lt_eq (hdistinct : xs.Pairwise fun a b => cmp a b ≠ .eq) {r : Nat}
    (hr : r < xs.length) : ∃ x ∈ xs, (xs.countP fun y => cmp y x = .lt) = r := by
  have hperm := sortList_perm (fun a b => (cmp a b).isLE) xs
  have hx := List.getElem?_eq_getElem (hperm.length_eq ▸ hr)
  have hrank := countP_lt_of_getElem? (sortList_isLT hdistinct) hx
  rw [hperm.countP_eq] at hrank
  exact ⟨_, hperm.mem_iff.1 (List.mem_of_getElem? hx), hrank⟩

/-- Elements with as many below them are not told apart. -/
theorem eq_of_countP_lt_eq {x y : α} (hx : x ∈ xs) (hy : y ∈ xs)
    (heq : (xs.countP fun z => cmp z x = .lt) = xs.countP fun z => cmp z y = .lt) :
    cmp x y = .eq := by
  rcases h : cmp x y
  · have hlt := countP_lt_countP hx h
    omega
  · rfl
  · have hlt := countP_lt_countP hy (Std.OrientedCmp.lt_of_gt h)
    omega

/-- No element is below itself. -/
theorem countP_lt_length {x : α} (hx : x ∈ xs) :
    (xs.countP fun z => cmp z x = .lt) < xs.length := by
  have hself : cmp x x = .eq := Std.ReflCmp.compare_self
  refine Nat.lt_of_le_of_ne List.countP_le_length fun hall => ?_
  have hlt := List.countP_eq_length.1 hall x hx
  simp [hself] at hlt

end

end AnonymousTypes
