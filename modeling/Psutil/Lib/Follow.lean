import Mathlib.Data.Fintype.EquivFin
import Mathlib.Data.Set.Finite.Basic
import Mathlib.Logic.Relation
import Mathlib.Order.WellFounded

/-!
# Following a partial function

`follow next` collects `next a`, `next (next a)` and so on until there is no next element. In a finite world it ends
exactly if no cycle can be reached (`follow_ends_iff`), and then it meets nothing twice (`follow_nodup`).
-/

namespace Lib

open Relation

variable {α : Type}

def follow (next : α → Option α) : Nat → α → Option (List α)
  | 0, _ => none
  | fuel + 1, a => match next a with
    | none => some []
    | some b => (follow next fuel b).map (b :: ·)

/-- One step. -/
def Next (next : α → Option α) (a b : α) : Prop := next a = some b

variable {next : α → Option α} {a b : α}

/-- What is met comes after the start. -/
theorem transGen_of_mem_follow (fuel : Nat) : ∀ {a : α} {l : List α}, follow next fuel a = some l → ∀ b ∈ l,
    TransGen (Next next) a b := by
  induction fuel with
  | zero => intro a l h; cases h
  | succ fuel ih =>
    intro a l h b hb
    unfold follow at h
    split at h
    · cases h
      cases hb
    · rename_i c hc
      obtain ⟨l', hl', rfl⟩ := Option.map_eq_some_iff.1 h
      rcases List.mem_cons.1 hb with rfl | hb
      · exact .single hc
      · exact .head hc (ih hl' b hb)

/-- A walk that ends does not come back. -/
theorem not_cycle_of_follow (fuel : Nat) : ∀ {a q : α} {l : List α}, follow next fuel a = some l →
    ReflTransGen (Next next) a q → ¬TransGen (Next next) q q := by
  induction fuel with
  | zero => intro a q l h; cases h
  | succ fuel ih =>
    intro a q l h haq hcycle
    -- on a cycle there is a next element, from which the cycle can be reached as well
    have hnext : ∃ b, Next next a b ∧ ReflTransGen (Next next) b q := by
      rcases haq.cases_head with rfl | hb
      · exact TransGen.head'_iff.1 hcycle
      · exact hb
    obtain ⟨b, hab, hbq⟩ := hnext
    unfold follow at h
    rw [show next a = some b from hab] at h
    obtain ⟨l', hl', -⟩ := Option.map_eq_some_iff.1 h
    exact ih hl' hbq hcycle

theorem follow_nodup (fuel : Nat) : ∀ {a : α} {l : List α}, follow next fuel a = some l → l.Nodup ∧ a ∉ l := by
  induction fuel with
  | zero => intro a l h; cases h
  | succ fuel ih =>
    intro a l h
    have hno : a ∉ l := fun ha => not_cycle_of_follow _ h .refl (transGen_of_mem_follow _ h a ha)
    unfold follow at h
    split at h
    · cases h
      exact ⟨.nil, hno⟩
    · rename_i b hb
      obtain ⟨l', hl', rfl⟩ := Option.map_eq_some_iff.1 h
      obtain ⟨hnd, hb'⟩ := ih hl'
      exact ⟨List.nodup_cons.2 ⟨hb', hnd⟩, hno⟩

/-- With no way ahead the walk ends. -/
theorem follow_ends_of_acc (h : Acc (flip (Next next)) a) : ∃ n, ∀ fuel, n < fuel → ∃ l, follow next fuel a = some l := by
  induction h with
  | intro a _ ih =>
    cases hb : next a with
    | none =>
      refine ⟨0, fun fuel hf => ⟨[], ?_⟩⟩
      obtain ⟨m, rfl⟩ := Nat.exists_eq_succ_of_ne_zero (show fuel ≠ 0 by omega)
      simp [follow, hb]
    | some b =>
      obtain ⟨n, hn⟩ := ih b hb
      refine ⟨n + 1, fun fuel hf => ?_⟩
      obtain ⟨m, rfl⟩ := Nat.exists_eq_succ_of_ne_zero (show fuel ≠ 0 by omega)
      obtain ⟨l, hl⟩ := hn m (by omega)
      exact ⟨b :: l, by simp [follow, hb, hl]⟩

/-- In a finite world a relation without a cycle that can be reached has no infinite walk. -/
theorem acc_of_no_cycle {R : α → α → Prop} {U : Set α} (hU : U.Finite) (ha : a ∈ U) (hclosed : ∀ b ∈ U, ∀ c, R b c → c ∈ U)
    (h : ∀ q ∈ U, ¬TransGen R q q) : Acc (flip R) a := by
  have := hU.to_subtype
  let S : U → U → Prop := fun b c => TransGen R c b
  have htrans : IsTrans U S := ⟨fun _ _ _ hbc hcd => hcd.trans hbc⟩
  have hirrefl : Std.Irrefl S := ⟨fun b hb => h b b.2 hb⟩
  have hwf : WellFounded S := Finite.wellFounded_of_trans_of_irrefl S
  have hacc : ∀ b : U, Acc (flip R) b := by
    intro b
    induction b using hwf.induction with
    | _ b ih => exact ⟨_, fun c hc => ih ⟨c, hclosed b b.2 c hc⟩ (.single hc)⟩
  exact hacc ⟨a, ha⟩

/-- **A walk ends exactly when no cycle can be reached.** -/
theorem follow_ends_iff {U : Set α} (hU : U.Finite) (ha : a ∈ U) (hclosed : ∀ b ∈ U, ∀ c, Next next b c → c ∈ U) :
    (∃ n, ∀ fuel, n < fuel → ∃ l, follow next fuel a = some l) ↔
      ¬∃ q, ReflTransGen (Next next) a q ∧ TransGen (Next next) q q := by
  constructor
  · rintro ⟨n, hn⟩ ⟨q, haq, hq⟩
    obtain ⟨l, hl⟩ := hn (n + 1) (by omega)
    exact not_cycle_of_follow _ hl haq hq
  · intro h
    have hsub : {q | ReflTransGen (Next next) a q} ⊆ U := by
      intro q hq
      induction hq with
      | refl => exact ha
      | tail _ hbc ih => exact hclosed _ ih _ hbc
    exact follow_ends_of_acc (acc_of_no_cycle (hU.subset hsub) .refl (fun b hb c hc => hb.tail hc)
      fun q hq hcycle => h ⟨q, hq, hcycle⟩)

/-- A function that no step makes larger is constant on a cycle. -/
theorem transGen_const {β : Type} [PartialOrder β] {R : α → α → Prop} {f : α → β} (hf : ∀ a b, R a b → f b ≤ f a)
    (h : TransGen R a b) (hle : f a ≤ f b) : TransGen (fun a b => R a b ∧ f a = f b) a b := by
  have hmono : ∀ {c}, TransGen R a c → f c ≤ f a := by
    intro c hc
    induction hc with
    | single hac => exact hf _ _ hac
    | tail _ hcd ih => exact (hf _ _ hcd).trans ih
  induction h with
  | single hab => exact .single ⟨hab, le_antisymm hle (hf _ _ hab)⟩
  | tail hac hcb ih =>
    have hca := hmono hac
    exact .tail (ih (hle.trans (hf _ _ hcb))) ⟨hcb, le_antisymm (hca.trans hle) (hf _ _ hcb)⟩

end Lib
