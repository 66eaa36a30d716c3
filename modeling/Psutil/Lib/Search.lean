import Mathlib.Algebra.BigOperators.Group.Finset.Basic
import Mathlib.Logic.Relation
import Mathlib.Tactic.Linarith

/-!
# Search with a stack

A search pops a node and skips it if it has expanded it before; otherwise it reports the successors of the node and
pushes them. The test is made when a node is popped, so a node may be reported by several others, and the start by
any that leads back to it. `search_reaches`: what is reported are the successors of the nodes that can be reached from
the start, each of which is expanded once.
-/

namespace Lib

variable {α : Type}

/-- `seen` are the nodes expanded so far, `ret` is what has been reported; the head of `stack` is its top. -/
def search [DecidableEq α] (succ : α → List α) : Nat → List α → List α → List α → Option (List α)
  | 0, _, _, _ => none
  | _ + 1, _, [], ret => some ret
  | fuel + 1, seen, a :: stack, ret =>
    if a ∈ seen then search succ fuel seen stack ret
    else search succ fuel (a :: seen) ((succ a).reverse ++ stack) (ret ++ succ a)

/-- A path from one node to another. -/
def Reaches (succ : α → List α) : α → α → Prop := Relation.ReflTransGen fun a b => b ∈ succ a

/-- What holds at every turn of the loop. -/
structure Searched (succ : α → List α) (start : α) (seen stack ret : List α) : Prop where
  nodup : seen.Nodup
  reached : ∀ a, a ∈ seen ∨ a ∈ stack → Reaches succ start a
  closed : ∀ a ∈ seen, ∀ b ∈ succ a, b ∈ seen ∨ b ∈ stack
  start : start ∈ seen ∨ start ∈ stack
  ret : ret = seen.reverse.flatMap succ

namespace Searched

variable {succ : α → List α} {start a : α} {seen stack ret : List α}

theorem init (succ : α → List α) (start : α) : Searched succ start [] [start] [] where
  nodup := .nil
  reached a h := by
    obtain rfl : a = start := by simpa using h
    exact .refl
  closed a h := absurd h List.not_mem_nil
  start := Or.inr List.mem_cons_self
  ret := rfl

/-- A node that has been expanded is dropped. -/
theorem skip (h : Searched succ start seen (a :: stack) ret) (ha : a ∈ seen) : Searched succ start seen stack ret := by
  have hdrop : ∀ b, b ∈ seen ∨ b ∈ a :: stack → b ∈ seen ∨ b ∈ stack := by
    rintro b (hb | hb)
    · exact Or.inl hb
    · rcases List.mem_cons.1 hb with rfl | hb
      · exact Or.inl ha
      · exact Or.inr hb
  exact ⟨h.nodup, fun b hb => h.reached b (hb.imp_right (List.mem_cons_of_mem a)),
    fun b hb c hc => hdrop c (h.closed b hb c hc), hdrop start h.start, h.ret⟩

theorem expand (h : Searched succ start seen (a :: stack) ret) (ha : a ∉ seen) :
    Searched succ start (a :: seen) ((succ a).reverse ++ stack) (ret ++ succ a) := by
  have hreach : Reaches succ start a := h.reached a (Or.inr List.mem_cons_self)
  have hkeep : ∀ b, b ∈ seen ∨ b ∈ a :: stack → b ∈ a :: seen ∨ b ∈ (succ a).reverse ++ stack := by
    rintro b (hb | hb)
    · exact Or.inl (List.mem_cons_of_mem a hb)
    · rcases List.mem_cons.1 hb with rfl | hb
      · exact Or.inl List.mem_cons_self
      · exact Or.inr (List.mem_append_right _ hb)
  refine ⟨List.nodup_cons.2 ⟨ha, h.nodup⟩, ?_, ?_, hkeep start h.start, ?_⟩
  · rintro b (hb | hb)
    · rcases List.mem_cons.1 hb with rfl | hb
      · exact hreach
      · exact h.reached b (Or.inl hb)
    · rcases List.mem_append.1 hb with hb | hb
      · exact hreach.tail (List.mem_reverse.1 hb)
      · exact h.reached b (Or.inr (List.mem_cons_of_mem a hb))
  · intro b hb c hc
    rcases List.mem_cons.1 hb with rfl | hb
    · exact Or.inr (List.mem_append_left _ (List.mem_reverse.2 hc))
    · exact hkeep c (h.closed b hb c hc)
  · simp [h.ret]

/-- With an empty stack everything that can be reached has been expanded. -/
theorem mem_seen (h : Searched succ start seen [] ret) : a ∈ seen ↔ Reaches succ start a := by
  refine ⟨fun ha => h.reached a (Or.inl ha), fun ha => ?_⟩
  induction ha with
  | refl => exact h.start.resolve_right List.not_mem_nil
  | tail _ hbc ih => exact (h.closed _ ih _ hbc).resolve_right List.not_mem_nil

theorem search [DecidableEq α] (fuel : Nat) : ∀ {seen stack ret l : List α}, Searched succ start seen stack ret →
    search succ fuel seen stack ret = some l →
    ∃ E : List α, l = E.flatMap succ ∧ E.Nodup ∧ ∀ a, a ∈ E ↔ Reaches succ start a := by
  induction fuel with
  | zero => intro seen stack ret l _ hl; cases hl
  | succ fuel ih =>
    intro seen stack ret l h hl
    cases stack with
    | nil =>
      cases hl
      exact ⟨seen.reverse, h.ret, List.nodup_reverse.2 h.nodup, fun a => List.mem_reverse.trans h.mem_seen⟩
    | cons a stack =>
      unfold Lib.search at hl
      split at hl
      · rename_i ha
        exact ih (h.skip ha) hl
      · rename_i ha
        exact ih (h.expand ha) hl

end Searched

variable [DecidableEq α]

/-- What is still to be pushed, if all nodes are in `U`. -/
def unseen (succ : α → List α) (U : Finset α) (seen : List α) : Nat := ∑ a ∈ U.filter (· ∉ seen), (succ a).length

theorem unseen_cons {succ : α → List α} {U : Finset α} {seen : List α} {a : α} (ha : a ∈ U) (hno : a ∉ seen) :
    unseen succ U seen = (succ a).length + unseen succ U (a :: seen) := by
  have hmem : a ∈ U.filter (· ∉ seen) := Finset.mem_filter.2 ⟨ha, hno⟩
  have herase : U.filter (· ∉ a :: seen) = (U.filter (· ∉ seen)).erase a := by
    ext b
    simp only [Finset.mem_filter, Finset.mem_erase, List.mem_cons, not_or]
    tauto
  rw [unseen, unseen, herase]
  exact (Finset.add_sum_erase _ (fun b => (succ b).length) hmem).symm

/-- Each turn pops one node, and what a node pushes it pushes once. -/
theorem search_isSome {succ : α → List α} {U : Finset α} (hU : ∀ a ∈ U, ∀ b ∈ succ a, b ∈ U) (fuel : Nat) :
    ∀ {seen stack ret : List α}, (∀ a ∈ stack, a ∈ U) → stack.length + unseen succ U seen < fuel →
    ∃ l, search succ fuel seen stack ret = some l := by
  induction fuel with
  | zero => intro seen stack ret _ hf; omega
  | succ fuel ih =>
    intro seen stack ret hstack hf
    cases stack with
    | nil => exact ⟨ret, rfl⟩
    | cons a stack =>
      have ha : a ∈ U := hstack a List.mem_cons_self
      have hrest : ∀ b ∈ stack, b ∈ U := fun b hb => hstack b (List.mem_cons_of_mem a hb)
      rw [List.length_cons] at hf
      unfold search
      split
      · exact ih hrest (by omega)
      · rename_i hno
        refine ih (fun b hb => ?_) ?_
        · rcases List.mem_append.1 hb with hb | hb
          · exact hU a ha b (List.mem_reverse.1 hb)
          · exact hrest b hb
        · rw [unseen_cons ha hno] at hf
          rw [List.length_append, List.length_reverse]
          omega

/-- **The search ends, and reports the successors of all nodes that can be reached.** -/
theorem search_reaches {succ : α → List α} {start : α} {U : Finset α} (hstart : start ∈ U)
    (hU : ∀ a ∈ U, ∀ b ∈ succ a, b ∈ U) : ∃ n, ∀ fuel, n < fuel → ∃ E : List α,
      search succ fuel [] [start] [] = some (E.flatMap succ) ∧ E.Nodup ∧ ∀ a, a ∈ E ↔ Reaches succ start a := by
  refine ⟨1 + unseen succ U [], fun fuel hf => ?_⟩
  have hstack : ∀ a ∈ [start], a ∈ U := by simpa using hstart
  obtain ⟨l, hl⟩ := @search_isSome α _ succ U hU fuel [] [start] [] hstack hf
  obtain ⟨E, rfl, hnd, hE⟩ := (Searched.init succ start).search fuel hl
  exact ⟨E, hl, hnd, hE⟩

end Lib
