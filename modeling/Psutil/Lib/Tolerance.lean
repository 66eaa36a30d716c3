import Mathlib.Data.List.Pairwise

/-!
# Sets under an equality that need not be transitive

A `Tolerance` is an equality test that is reflexive and symmetric. A set holds no two elements that are equal by it,
so which elements a set of a list has depends on the order of the list; `ofList` keeps the first of them.
-/

namespace Lib

structure Tolerance (α : Type) where
  eq : α → α → Bool
  refl : ∀ a, eq a a = true
  symm : ∀ a b, eq a b = true → eq b a = true

namespace Tolerance

variable {α : Type} (E : Tolerance α)

def mem (a : α) (s : List α) : Bool := s.any (E.eq a)

def add (s : List α) (a : α) : List α := if E.mem a s then s else s ++ [a]

def ofList (l : List α) : List α := l.foldl E.add []

def diff (s t : List α) : List α := s.filter fun a => !E.mem a t

/-- No two elements are equal. -/
def Distinct (s : List α) : Prop := s.Pairwise fun a b => E.eq a b = false

variable {E} {s t base l : List α} {a b : α}

theorem distinct_add (h : E.Distinct s) (a : α) : E.Distinct (E.add s a) := by
  unfold add
  split
  · exact h
  · rename_i hmem
    refine List.pairwise_append.2 ⟨h, List.pairwise_singleton _ _, fun b hb c hc => ?_⟩
    rw [List.mem_singleton.1 hc, ← Bool.not_eq_true]
    exact fun heq => hmem (List.any_eq_true.2 ⟨b, hb, E.symm _ _ heq⟩)

theorem distinct_foldl (h : E.Distinct s) (l : List α) : E.Distinct (l.foldl E.add s) := by
  induction l generalizing s with
  | nil => exact h
  | cons a l ih => exact ih (distinct_add h a)

theorem distinct_ofList (E : Tolerance α) (l : List α) : E.Distinct (E.ofList l) := distinct_foldl .nil l

theorem Distinct.nodup (h : E.Distinct s) : s.Nodup := by
  refine h.imp fun {a b} hab heq => ?_
  rw [heq, E.refl] at hab
  cases hab

theorem Distinct.eq (h : E.Distinct s) (ha : a ∈ s) (hb : b ∈ s) (heq : E.eq a b = true) : a = b := by
  by_contra hne
  have hsymm : Std.Symm fun a b => E.eq a b = false :=
    ⟨fun a b hab => Bool.not_eq_true _ ▸ fun hba => Bool.false_ne_true (hab ▸ E.symm _ _ hba)⟩
  have hab := h.forall ha hb hne
  rw [heq] at hab
  cases hab

/-! ## Inside one set, equality is identity -/

theorem mem_iff (hd : E.Distinct base) (ha : a ∈ base) (ht : t ⊆ base) : E.mem a t = true ↔ a ∈ t := by
  rw [mem, List.any_eq_true]
  constructor
  · rintro ⟨b, hb, heq⟩
    rwa [hd.eq ha (ht hb) heq]
  · exact fun h => ⟨a, h, E.refl a⟩

theorem mem_diff (hd : E.Distinct base) (hs : s ⊆ base) (ht : t ⊆ base) : a ∈ E.diff s t ↔ a ∈ s ∧ a ∉ t := by
  rw [diff, List.mem_filter, Bool.not_eq_true', ← Bool.not_eq_true]
  exact and_congr_right fun ha => not_congr (mem_iff hd (hs ha) ht)

theorem add_eq (hd : E.Distinct base) (hs : s ⊆ base) (ha : a ∈ base) (hno : a ∉ s) : E.add s a = s ++ [a] :=
  if_neg fun h => hno ((mem_iff hd ha hs).1 h)

/-! ## The set of a list -/

theorem mem_add : b ∈ E.add s a → b ∈ s ∨ b = a := by
  unfold add
  split
  · exact Or.inl
  · simp

theorem mem_of_mem_foldl : b ∈ l.foldl E.add s → b ∈ s ∨ b ∈ l := by
  induction l generalizing s with
  | nil => exact Or.inl
  | cons a l ih =>
    intro h
    rcases ih h with hb | hb
    · rcases mem_add hb with hb | rfl
      · exact Or.inl hb
      · exact Or.inr List.mem_cons_self
    · exact Or.inr (List.mem_cons_of_mem _ hb)

theorem mem_of_mem_ofList (h : a ∈ E.ofList l) : a ∈ l := (mem_of_mem_foldl h).resolve_left List.not_mem_nil

theorem subset_foldl : ∀ b ∈ s, b ∈ l.foldl E.add s := by
  induction l generalizing s with
  | nil => exact fun b hb => hb
  | cons a l ih =>
    intro b hb
    refine ih b ?_
    unfold add
    split
    · exact hb
    · exact List.mem_append_left _ hb

/-- Every element of the list is equal to one of the set. -/
theorem exists_mem_foldl (ha : a ∈ l) : ∃ b ∈ l.foldl E.add s, E.eq a b = true := by
  induction l generalizing s with
  | nil => cases ha
  | cons c l ih =>
    show ∃ b ∈ l.foldl E.add (E.add s c), E.eq a b = true
    rcases List.mem_cons.1 ha with rfl | ha
    · by_cases hmem : E.mem a s = true
      · obtain ⟨b, hb, heq⟩ := List.any_eq_true.1 hmem
        exact ⟨b, subset_foldl b (by rwa [add, if_pos hmem]), heq⟩
      · exact ⟨a, subset_foldl a (by rw [add, if_neg hmem]; exact List.mem_append_right _ List.mem_cons_self), E.refl a⟩
    · exact ih ha

theorem exists_mem_ofList (ha : a ∈ l) : ∃ b ∈ E.ofList l, E.eq a b = true := exists_mem_foldl ha

end Tolerance

end Lib
