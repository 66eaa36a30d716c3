import Mathlib.Data.List.Dedup
import Mathlib.Data.List.Sort

/-!
# `sorted(set(xs))` and `sort(key=...)`

Two lists sort to the same list exactly when they have the same members. A sort by a key keeps the order of the items of one key.
-/

namespace Lib

variable {α : Type} [LinearOrder α]

/-- `sorted(set(xs))`. -/
def sortedSet (xs : List α) : List α := xs.dedup.insertionSort (· ≤ ·)

@[simp] theorem mem_sortedSet {x : α} {xs : List α} : x ∈ sortedSet xs ↔ x ∈ xs := by
  rw [sortedSet, List.mem_insertionSort, List.mem_dedup]

theorem sortedLT_sortedSet (xs : List α) : (sortedSet xs).SortedLT := by
  have hnodup : (sortedSet xs).Nodup := (List.perm_insertionSort _ _).nodup_iff.2 xs.nodup_dedup
  exact List.sortedLE_insertionSort.sortedLT_of_nodup hnodup

theorem sortedSet_eq_iff {xs ys : List α} : sortedSet xs = sortedSet ys ↔ ∀ x, x ∈ xs ↔ x ∈ ys := by
  constructor
  · intro h x
    rw [← mem_sortedSet, h, mem_sortedSet]
  · intro h
    refine (sortedLT_sortedSet xs).eq_of_mem_iff (sortedLT_sortedSet ys) fun x => ?_
    rw [mem_sortedSet, mem_sortedSet, h x]

/-! ## By a key -/

section

variable {β : Type} (key : β → α)

/-- `l.sort(key=key)`. -/
def sortKey (l : List β) : List β := l.insertionSort fun a b => key a ≤ key b

theorem sortKey_perm (l : List β) : (sortKey key l).Perm l := List.perm_insertionSort _ _

theorem pairwise_sortKey (l : List β) : (sortKey key l).Pairwise fun a b => key a ≤ key b := by
  have htotal : Std.Total fun a b : β => key a ≤ key b := ⟨fun a b => le_total (key a) (key b)⟩
  have htrans : IsTrans β fun a b => key a ≤ key b := ⟨fun _ _ _ => le_trans⟩
  exact List.pairwise_insertionSort _ l

theorem filter_orderedInsert (k : α) (a : β) (l : List β) :
    (l.orderedInsert (fun a b => key a ≤ key b) a).filter (key · = k) = (a :: l).filter (key · = k) := by
  induction l with
  | nil => rfl
  | cons b l ih =>
    rw [List.orderedInsert_cons]
    split_ifs with h
    · rfl
    · -- one of the two has another key
      by_cases hb : key b = k
      · have ha : ¬key a = k := fun ha => h (by rw [ha, hb])
        rw [List.filter_cons_of_pos (by simpa using hb), ih, List.filter_cons_of_neg (by simpa using ha),
          List.filter_cons_of_neg (by simpa using ha), List.filter_cons_of_pos (by simpa using hb)]
      · rw [List.filter_cons_of_neg (by simpa using hb), ih, List.filter_cons, List.filter_cons, List.filter_cons_of_neg (by simpa using hb)]

/-- **The sort is stable.** -/
theorem filter_sortKey (k : α) (l : List β) : (sortKey key l).filter (key · = k) = l.filter (key · = k) := by
  induction l with
  | nil => rfl
  | cons a l ih =>
    have hcons : sortKey key (a :: l) = (sortKey key l).orderedInsert (fun a b => key a ≤ key b) a := List.insertionSort_cons _ _ _
    rw [hcons, filter_orderedInsert, List.filter_cons, List.filter_cons, ih]

end

end Lib
