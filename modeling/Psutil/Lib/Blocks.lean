import Psutil.Lib.Ledger

/-!
# Blocks of memory

The blocks that a function asks its allocator for, with the sizes asked for, the newest first, and the ledger of those it
got. A block is named by the number of requests before it. `Holds` says which block, if any, the function still has;
`Holds.counts` is "every other one was freed exactly once".
-/

namespace Lib

open Ledger

structure Blocks where
  requests : List Nat
  log : List (Op Nat)
  deriving DecidableEq

namespace Blocks

def empty : Blocks := ⟨[], []⟩

/-- `malloc(size)`; without memory it is `NULL`. -/
def alloc (h : Blocks) (size : Nat) (memory : Bool) : Blocks × Option Nat :=
  if memory then (⟨size :: h.requests, .acquire h.requests.length :: h.log⟩, some h.requests.length)
  else (⟨size :: h.requests, h.log⟩, none)

/-- `free(p)`. -/
def free (h : Blocks) : Option Nat → Blocks
  | none => h
  | some b => { h with log := .release b :: h.log }

@[simp] theorem requests_alloc (h : Blocks) (size : Nat) (memory : Bool) : (h.alloc size memory).1.requests = size :: h.requests := by
  cases memory <;> rfl

@[simp] theorem requests_free (h : Blocks) (p : Option Nat) : (h.free p).requests = h.requests := by cases p <;> rfl

/-- Every block that was acquired was freed once. -/
def FreedOnce (h : Blocks) : Prop := ∀ b, .acquire b ∈ h.log → h.log.count (.acquire b) = 1 ∧ h.log.count (.release b) = 1

/-- The block behind `p` is the only one that is held. -/
structure Holds (h : Blocks) (p : Option Nat) : Prop where
  owns : Owns h.log (fun b => p = some b) fun b => h.requests.length ≤ b
  kept : ∀ b, .abandon b ∉ h.log

namespace Holds

variable {h : Blocks} {p : Option Nat}

theorem empty : Holds Blocks.empty none := ⟨⟨trivial, by simp [Blocks.empty], fun _ _ => rfl⟩, by simp [Blocks.empty]⟩

theorem alloc (hh : Holds h none) (size : Nat) (memory : Bool) : Holds (h.alloc size memory).1 (h.alloc size memory).2 := by
  cases memory with
  | false => exact ⟨hh.owns.weaken (fun _ => Iff.rfl) fun b hb => Nat.le_of_succ_le hb, hh.kept⟩
  | true =>
    refine ⟨(hh.owns.acquire h.requests.length (Nat.le_refl _)).weaken (fun b => ?_) fun b hb => ?_, fun b hb => ?_⟩
    · simp [Blocks.alloc, eq_comm]
    · have hlt : h.requests.length < b := hb
      exact ⟨Nat.le_of_lt hlt, Nat.ne_of_gt hlt⟩
    · exact hh.kept b (by simpa [Blocks.alloc] using hb)

theorem free (hh : Holds h p) : Holds (h.free p) none := by
  cases p with
  | none => exact hh
  | some b =>
    refine ⟨(hh.owns.release b rfl).weaken (fun b' => ?_) fun _ => id, fun b' hb => ?_⟩
    · simp [eq_comm]
    · exact hh.kept b' (by simpa [Blocks.free] using hb)

/-- **What was acquired** was acquired once, and freed once unless it is still held. -/
theorem counts (hh : Holds h p) {b : Nat} (hb : .acquire b ∈ h.log) :
    h.log.count (.acquire b) = 1 ∧ h.log.count (.release b) = if p = some b then 0 else 1 := by
  have hkept : h.log.count (.abandon b) = 0 := List.count_eq_zero.2 (hh.kept b)
  split_ifs with hp
  · have hcounts := hh.owns.legal.counts b
    rw [(hh.owns.live b).2 hp] at hcounts
    exact ⟨hcounts.1, hcounts.2.1⟩
  · have hsettled := hh.owns.legal.settled hb fun hlive => hp ((hh.owns.live b).1 hlive)
    omega

theorem freedOnce (hh : Holds h none) : h.FreedOnce := fun b hb => by simpa using hh.counts hb

end Holds

/-! ## Several blocks -/

def freeAll (h : Blocks) (bs : List Nat) : Blocks := bs.foldl (fun h b => h.free (some b)) h

@[simp] theorem requests_freeAll (h : Blocks) (bs : List Nat) : (h.freeAll bs).requests = h.requests := by
  induction bs generalizing h with
  | nil => rfl
  | cons b bs ih => exact (ih _).trans (requests_free h (some b))

/-- The blocks that are held are those of a list. -/
structure HoldsAll (h : Blocks) (own : List Nat) : Prop where
  owns : Owns h.log (fun b => b ∈ own) fun b => h.requests.length ≤ b
  kept : ∀ b, .abandon b ∉ h.log

namespace HoldsAll

variable {h : Blocks} {own : List Nat}

theorem empty : HoldsAll Blocks.empty [] := ⟨⟨trivial, by simp [Blocks.empty], fun _ _ => rfl⟩, by simp [Blocks.empty]⟩

theorem congr (hh : HoldsAll h own) {own' : List Nat} (hsame : ∀ b, b ∈ own ↔ b ∈ own') : HoldsAll h own' :=
  ⟨hh.owns.weaken hsame fun _ => id, hh.kept⟩

theorem refused (hh : HoldsAll h own) (size : Nat) : HoldsAll (h.alloc size false).1 own :=
  ⟨hh.owns.weaken (fun _ => Iff.rfl) fun _ hb => Nat.le_of_succ_le hb, hh.kept⟩

theorem alloc (hh : HoldsAll h own) (size : Nat) : HoldsAll (h.alloc size true).1 (h.requests.length :: own) := by
  refine ⟨(hh.owns.acquire h.requests.length (Nat.le_refl _)).weaken (fun b => ?_) fun b hb => ?_, fun b hb => ?_⟩
  · rw [List.mem_cons, or_comm]
  · have hlt : h.requests.length < b := hb
    exact ⟨Nat.le_of_lt hlt, Nat.ne_of_gt hlt⟩
  · exact hh.kept b (by simpa [Blocks.alloc] using hb)

/-- A new block is none of those that are held. -/
theorem lt_requests (hh : HoldsAll h own) {b : Nat} (hb : b ∈ own) : b < h.requests.length :=
  Nat.lt_of_not_le fun hle => hh.owns.not_new hb hle

theorem free (hh : HoldsAll h own) {b : Nat} (hb : b ∈ own) : HoldsAll (h.free (some b)) (own.filter (· ≠ b)) := by
  refine ⟨(hh.owns.release b hb).weaken (fun b' => ?_) fun _ => id, fun b' hb' => ?_⟩
  · simp
  · exact hh.kept b' (by simpa [Blocks.free] using hb')

theorem freeAll (hh : HoldsAll h own) {bs : List Nat} (hnodup : bs.Nodup) (hbs : ∀ b ∈ bs, b ∈ own) :
    HoldsAll (h.freeAll bs) (own.filter (· ∉ bs)) := by
  induction bs generalizing h own with
  | nil => exact hh.congr fun b => by simp
  | cons b bs ih =>
    rw [List.nodup_cons] at hnodup
    refine (ih (hh.free (hbs b List.mem_cons_self)) hnodup.2 fun b' hb' => ?_).congr fun b' => ?_
    · exact List.mem_filter.2 ⟨hbs b' (List.mem_cons_of_mem b hb'), by simpa using ne_of_mem_of_not_mem hb' hnodup.1⟩
    · simp only [List.mem_filter, List.mem_cons, decide_eq_true_eq, not_or, and_assoc]

/-- **What was acquired** was acquired once, and freed once unless it is still held. -/
theorem counts (hh : HoldsAll h own) {b : Nat} (hb : .acquire b ∈ h.log) :
    h.log.count (.acquire b) = 1 ∧ h.log.count (.release b) = if b ∈ own then 0 else 1 := by
  have hkept : h.log.count (.abandon b) = 0 := List.count_eq_zero.2 (hh.kept b)
  split_ifs with hown
  · have hcounts := hh.owns.legal.counts b
    rw [(hh.owns.live b).2 hown] at hcounts
    exact ⟨hcounts.1, hcounts.2.1⟩
  · have hsettled := hh.owns.legal.settled hb fun hlive => hown ((hh.owns.live b).1 hlive)
    omega

theorem freedOnce (hh : HoldsAll h []) : h.FreedOnce := fun b hb => by simpa using hh.counts hb

end HoldsAll

/-! ## Several threads -/

/-- Each thread holds one block or none, and no two threads hold one block. -/
structure HoldsEach (h : Blocks) (held : Nat → Option Nat) : Prop where
  owns : Owns h.log (fun b => ∃ t, held t = some b) fun b => h.requests.length ≤ b
  apart : ∀ t u b, held t = some b → held u = some b → t = u
  kept : ∀ b, .abandon b ∉ h.log

namespace HoldsEach

variable {h : Blocks} {held : Nat → Option Nat} {t : Nat}

theorem empty : HoldsEach Blocks.empty fun _ => none where
  owns := ⟨trivial, by simp [Blocks.empty], fun _ _ => rfl⟩
  apart _ _ _ hb := by cases hb
  kept := by simp [Blocks.empty]

theorem refused (hh : HoldsEach h held) (size : Nat) : HoldsEach (h.alloc size false).1 held :=
  ⟨hh.owns.weaken (fun _ => Iff.rfl) fun _ hb => Nat.le_of_succ_le hb, hh.apart, hh.kept⟩

theorem lt_requests (hh : HoldsEach h held) {b : Nat} (hb : held t = some b) : b < h.requests.length :=
  Nat.lt_of_not_le fun hle => hh.owns.not_new ⟨t, hb⟩ hle

theorem alloc (hh : HoldsEach h held) (ht : held t = none) (size : Nat) :
    HoldsEach (h.alloc size true).1 (Function.update held t (some h.requests.length)) := by
  refine ⟨(hh.owns.acquire h.requests.length (Nat.le_refl _)).weaken (fun b => ?_) fun b hb => ?_, fun u v b hu hv => ?_, fun b hb => ?_⟩
  · constructor
    · rintro (⟨u, hu⟩ | rfl)
      · refine ⟨u, ?_⟩
        rwa [Function.update_of_ne]
        rintro rfl
        rw [ht] at hu
        cases hu
      · exact ⟨t, Function.update_self ..⟩
    · rintro ⟨u, hu⟩
      rcases eq_or_ne u t with rfl | hne
      · rw [Function.update_self] at hu
        exact Or.inr (Option.some.inj hu).symm
      · rw [Function.update_of_ne hne] at hu
        exact Or.inl ⟨u, hu⟩
  · have hlt : h.requests.length < b := hb
    exact ⟨Nat.le_of_lt hlt, Nat.ne_of_gt hlt⟩
  · -- the new block is none of the others
    rcases eq_or_ne u t with hut | hut <;> rcases eq_or_ne v t with hvt | hvt
    · rw [hut, hvt]
    · rw [hut, Function.update_self] at hu
      rw [Function.update_of_ne hvt] at hv
      exact absurd (Option.some.inj hu) (Nat.ne_of_gt (hh.lt_requests hv))
    · rw [hvt, Function.update_self] at hv
      rw [Function.update_of_ne hut] at hu
      exact absurd (Option.some.inj hv) (Nat.ne_of_gt (hh.lt_requests hu))
    · rw [Function.update_of_ne hut] at hu
      rw [Function.update_of_ne hvt] at hv
      exact hh.apart u v b hu hv
  · exact hh.kept b (by simpa [Blocks.alloc] using hb)

theorem free (hh : HoldsEach h held) {b : Nat} (ht : held t = some b) : HoldsEach (h.free (some b)) (Function.update held t none) := by
  have hother : ∀ u b', Function.update held t none u = some b' → u ≠ t ∧ held u = some b' := by
    intro u b' hu
    rcases eq_or_ne u t with rfl | hne
    · rw [Function.update_self] at hu
      cases hu
    · rw [Function.update_of_ne hne] at hu
      exact ⟨hne, hu⟩
  refine ⟨(hh.owns.release b ⟨t, ht⟩).weaken (fun b' => ?_) fun _ => id, fun u v b' hu hv => ?_, fun b' hb' => ?_⟩
  · constructor
    · rintro ⟨⟨u, hu⟩, hne⟩
      refine ⟨u, ?_⟩
      rwa [Function.update_of_ne]
      rintro rfl
      rw [ht] at hu
      exact hne (Option.some.inj hu).symm
    · rintro ⟨u, hu⟩
      obtain ⟨hne, hu⟩ := hother u b' hu
      refine ⟨⟨u, hu⟩, ?_⟩
      rintro rfl
      exact hne (hh.apart u t b' hu ht)
  · exact hh.apart u v b' (hother u b' hu).2 (hother v b' hv).2
  · exact hh.kept b' (by simpa [Blocks.free] using hb')

/-- **What was acquired** was acquired once, and freed once unless a thread holds it. -/
theorem counts (hh : HoldsEach h held) {b : Nat} (hb : .acquire b ∈ h.log) :
    h.log.count (.acquire b) = 1 ∧
      ((∃ t, held t = some b) ∧ h.log.count (.release b) = 0 ∨ (∀ t, held t ≠ some b) ∧ h.log.count (.release b) = 1) := by
  by_cases hheld : ∃ t, held t = some b
  · have hcounts := hh.owns.legal.counts b
    rw [(hh.owns.live b).2 hheld] at hcounts
    exact ⟨hcounts.1, Or.inl ⟨hheld, hcounts.2.1⟩⟩
  · have hkept : h.log.count (.abandon b) = 0 := List.count_eq_zero.2 (hh.kept b)
    have hsettled := hh.owns.legal.settled hb fun hlive => hheld ((hh.owns.live b).1 hlive)
    exact ⟨hsettled.1, Or.inr ⟨not_exists.1 hheld, by omega⟩⟩

end HoldsEach

end Blocks

end Lib
