import Mathlib.Data.List.Basic

/-!
# Lists cut at an item

Where an item is first found, what stands between two positions, and the pieces of a list between the places of an item. A text
is written as `x ++ c :: y`, with `c ∉ x` where the first place is meant. `terminate c` puts pieces together again, each with its
`c`, and `wordsBy p` are the pieces that are not empty.
-/

namespace Lib

variable {α : Type}

/-- `l[i:j]`, between the ends of `a` and `b`. -/
theorem drop_take_append (a b c : List α) : ((a ++ (b ++ c)).take (a.length + b.length)).drop a.length = b := by
  rw [List.drop_take, List.drop_left, Nat.add_sub_cancel_left, List.take_left]

/-! ## Pieces that a `c` ends -/

/-- Every piece with its `c`. -/
def terminate (c : α) (l : List (List α)) : List α := l.flatMap (· ++ [c])

theorem terminate_cons (c : α) (x : List α) (l : List (List α)) : terminate c (x :: l) = x ++ c :: terminate c l := by
  simp [terminate]

theorem terminate_append (c : α) (l m : List (List α)) : terminate c (l ++ m) = terminate c l ++ terminate c m :=
  List.flatMap_append

theorem mem_terminate {c d : α} {l : List (List α)} (h : d ∈ terminate c l) : d = c ∨ ∃ x ∈ l, d ∈ x := by
  obtain ⟨x, hx, hd⟩ := List.mem_flatMap.1 h
  rcases List.mem_append.1 hd with hd | hd
  · exact Or.inr ⟨x, hx, hd⟩
  · exact Or.inl (List.mem_singleton.1 hd)

theorem intercalate_cons (c : α) (x : List α) : ∀ ls : List (List α), [c].intercalate (x :: ls) = x ++ ls.flatMap (c :: ·)
  | [] => by simp
  | y :: ls => by
    rw [List.intercalate_cons_of_ne_nil (List.cons_ne_nil y ls), intercalate_cons c y ls]
    simp

theorem map_intercalate {β : Type} (f : α → β) (c : α) (l : List (List α)) :
    ([c].intercalate l).map f = [f c].intercalate (l.map (List.map f)) := by
  cases l with
  | nil => rfl
  | cons x l =>
    rw [intercalate_cons, List.map_cons, intercalate_cons, List.map_append, List.map_flatMap, List.flatMap_map]
    rfl

/-- Only the last `c` is too many. -/
theorem terminate_eq_intercalate (c : α) : ∀ {l : List (List α)}, l ≠ [] → terminate c l = [c].intercalate l ++ [c]
  | [x], _ => by simp [terminate]
  | x :: y :: l, _ => by
    rw [terminate_cons, terminate_eq_intercalate c (List.cons_ne_nil y l), List.intercalate_cons_of_ne_nil (List.cons_ne_nil y l)]
    simp

/-- A map that cuts a text at `c` works on each piece. -/
theorem map_terminate {β : Type} {f : List α → List β} {c : α} {c' : β} (hnil : f [] = [])
    (hcut : ∀ x y, f (x ++ c :: y) = f x ++ c' :: f y) : ∀ l, f (terminate c l) = terminate c' (l.map f)
  | [] => hnil
  | x :: l => by rw [terminate_cons, hcut, map_terminate hnil hcut l, List.map_cons, terminate_cons]

/-! ## Words -/

/-- The pieces between the places of `p`, apart from the empty ones. -/
def wordsBy [DecidableEq α] (p : α → Bool) (l : List α) : List (List α) := (l.splitOnP p).filter (· ≠ [])

section

variable [DecidableEq α] {p : α → Bool}

theorem wordsBy_append {c : α} (hc : p c = true) (x y : List α) : wordsBy p (x ++ c :: y) = wordsBy p x ++ wordsBy p y := by
  rw [wordsBy, List.splitOnP_append_cons x y hc, List.filter_append]
  rfl

theorem wordsBy_word {x : List α} (hne : x ≠ []) (h : ∀ c ∈ x, p c = false) : wordsBy p x = [x] := by
  rw [wordsBy, List.splitOnP_eq_singleton h]
  simp [hne]

theorem wordsBy_nil : wordsBy p [] = [] := by simp [wordsBy]

theorem wordsBy_cons {c : α} (hc : p c = true) (x : List α) : wordsBy p (c :: x) = wordsBy p x := by
  have happend := wordsBy_append hc [] x
  rwa [wordsBy_nil] at happend

/-- Words, each with a place of `p` behind it. -/
theorem wordsBy_terminate {c : α} (hc : p c = true) (rest : List α) : ∀ {ws : List (List α)},
    (∀ w ∈ ws, w ≠ [] ∧ ∀ d ∈ w, p d = false) → wordsBy p (terminate c ws ++ rest) = ws ++ wordsBy p rest
  | [], _ => rfl
  | w :: ws, h => by
    obtain ⟨hne, hw⟩ := h w List.mem_cons_self
    rw [terminate_cons, List.append_assoc, List.cons_append, wordsBy_append hc, wordsBy_word hne hw,
      wordsBy_terminate hc rest fun v hv => h v (List.mem_cons_of_mem w hv)]
    rfl

theorem wordsBy_replicate {c : α} (hc : p c = true) (x : List α) : ∀ n : Nat, wordsBy p (List.replicate n c ++ x) = wordsBy p x
  | 0 => rfl
  | n + 1 => by rw [List.replicate_succ, List.cons_append, wordsBy_cons hc, wordsBy_replicate hc x n]

/-- A word is not empty, and has no place of `p`. -/
theorem mem_wordsBy {x w : List α} (h : w ∈ wordsBy p x) : w ≠ [] ∧ ∀ c ∈ w, p c = false := by
  rw [wordsBy, List.mem_filter] at h
  refine ⟨by simpa using h.2, ?_⟩
  have hpiece := h.1
  clear h
  induction x generalizing w with
  | nil =>
    rw [List.splitOnP_nil, List.mem_singleton] at hpiece
    simp [hpiece]
  | cons d x ih =>
    rw [List.splitOnP_cons_eq_if_modifyHead] at hpiece
    split_ifs at hpiece with hd
    · rcases List.mem_cons.1 hpiece with rfl | hpiece
      · simp
      · exact ih hpiece
    · cases hx : x.splitOnP p with
      | nil => exact absurd hx (List.splitOnP_ne_nil _ _)
      | cons v rest =>
        rw [hx, List.modifyHead_cons] at hpiece
        rcases List.mem_cons.1 hpiece with rfl | hpiece
        · rw [List.forall_mem_cons]
          exact ⟨by simpa using hd, ih (hx ▸ List.mem_cons_self)⟩
        · exact ih (hx ▸ List.mem_cons_of_mem v hpiece)

end

variable [DecidableEq α]

theorem findIdx?_of_notMem {x : List α} {c : α} (h : c ∉ x) : x.findIdx? (· = c) = none := by
  rw [List.findIdx?_eq_none_iff]
  intro d hd
  simpa using fun hdc : d = c => h (hdc ▸ hd)

theorem findIdx?_append_cons {x : List α} {c : α} (h : c ∉ x) (y : List α) : (x ++ c :: y).findIdx? (· = c) = some x.length := by
  simp [List.findIdx?_append, findIdx?_of_notMem h, List.findIdx?_cons]

/-- `l.partition(c)`, without the separator. -/
def cutAt (c : α) (l : List α) : List α × List α := (l.takeWhile (· ≠ c), (l.dropWhile (· ≠ c)).drop 1)

theorem cutAt_append {x : List α} {c : α} (h : c ∉ x) (y : List α) : cutAt c (x ++ c :: y) = (x, y) := by
  have hall : ∀ d ∈ x, decide (d ≠ c) = true := fun d hd => decide_eq_true fun hdc => h (hdc ▸ hd)
  rw [cutAt, List.takeWhile_append_of_pos hall, List.dropWhile_append_of_pos hall]
  simp

theorem splitOn_append_cons (c : α) (x y : List α) : (x ++ c :: y).splitOn c = x.splitOn c ++ y.splitOn c := by
  simp only [List.splitOn_eq_splitOnP]
  exact List.splitOnP_append_cons x y (by simp)

theorem splitOn_of_notMem {c : α} {x : List α} (h : c ∉ x) : x.splitOn c = [x] := by
  rw [List.splitOn_eq_splitOnP]
  refine List.splitOnP_eq_singleton fun d hd => ?_
  rw [beq_eq_false_iff_ne]
  rintro rfl
  exact h hd

/-- Pieces without a `c`, and the text behind the last one. -/
theorem splitOn_terminate_append {c : α} {y : List α} (hy : c ∉ y) : ∀ {l : List (List α)}, (∀ x ∈ l, c ∉ x) →
    (terminate c l ++ y).splitOn c = l ++ [y]
  | [], _ => splitOn_of_notMem hy
  | x :: l, h => by
    rw [terminate_cons, List.append_assoc, List.cons_append, splitOn_append_cons, splitOn_of_notMem (h x List.mem_cons_self)]
    exact congrArg (x :: ·) (splitOn_terminate_append hy fun y hy => h y (List.mem_cons_of_mem x hy))

/-- Nothing is behind it. -/
theorem splitOn_terminate {c : α} {l : List (List α)} (h : ∀ x ∈ l, c ∉ x) : (terminate c l).splitOn c = l ++ [[]] := by
  have happend := splitOn_terminate_append (List.not_mem_nil (a := c)) h
  rwa [List.append_nil] at happend

theorem splitOn_ne_nil (c : α) (x : List α) : x.splitOn c ≠ [] := by
  rw [List.splitOn_eq_splitOnP]
  exact List.splitOnP_ne_nil _ _

theorem splitOn_cons_of_ne {c d : α} (h : d ≠ c) (x : List α) : (d :: x).splitOn c = (x.splitOn c).modifyHead (d :: ·) := by
  rw [List.splitOn_eq_splitOnP, List.splitOn_eq_splitOnP, List.splitOnP_cons_eq_if_modifyHead, if_neg (by simpa using h)]

theorem splitOn_cons_self (c : α) (x : List α) : (c :: x).splitOn c = [] :: x.splitOn c := by
  have hcut := splitOn_append_cons c [] x
  simpa using hcut

theorem length_splitOn (c : α) : ∀ x : List α, (x.splitOn c).length = x.count c + 1
  | [] => rfl
  | d :: x => by
    by_cases h : d = c
    · rw [h, splitOn_cons_self, List.length_cons, length_splitOn c x, List.count_cons_self]
    · rw [splitOn_cons_of_ne h, List.length_modifyHead, length_splitOn c x, List.count_cons_of_ne h]

/-- The last piece ends like the list. -/
theorem exists_last_splitOn {c d : α} (h : d ≠ c) : ∀ x : List α, ∃ init w, (x ++ [d]).splitOn c = init ++ [w ++ [d]]
  | [] => ⟨[], [], splitOn_of_notMem (by simpa using Ne.symm h)⟩
  | e :: x => by
    obtain ⟨init, w, hx⟩ := exists_last_splitOn h x
    by_cases he : e = c
    · exact ⟨[] :: init, w, by rw [he, List.cons_append, splitOn_cons_self, hx]; rfl⟩
    · rw [List.cons_append, splitOn_cons_of_ne he, hx]
      cases init with
      | nil => exact ⟨[], e :: w, rfl⟩
      | cons v init => exact ⟨(e :: v) :: init, w, rfl⟩

end Lib
