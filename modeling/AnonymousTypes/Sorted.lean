/-!
# Sorting

Sorting a list by inserting its elements one after another, the last one first. The
sort is stable: elements of which each may stand before the other keep their order.

This is the insertion sort of the library (`sortList_eq_insertionSort`), from which
it has its properties. It is put together from functions of the core library only,
for the definitions that run, and it recurs on the list only, so sorted lists can
be computed inside proofs.
-/

namespace AnonymousTypes

variable {α : Type}

/-- The elements of a list in increasing order. Each is inserted before the first one that
it may stand before. -/
def sortList (le : α → α → Bool) : List α → List α :=
  List.foldr (fun x ys => ys.takeWhile (fun y => !le x y) ++ x :: ys.dropWhile fun y => !le x y) []

end AnonymousTypes
