import Mathlib.Data.List.Count

/-!
# Ledgers of owned resources

What a program without garbage collection does to its resources, the newest entry first: the owner acquires one, uses it,
and gives it back once, or abandons it to a peer that may still use it. A ledger is legal if nobody uses a resource after
it was given back and the owner does not use one it has abandoned. `Legal.settled` is what "closed exactly once, or
deliberately leaked" says.
-/

namespace Lib.Ledger

inductive Status where
  | fresh | live | released | abandoned
  deriving DecidableEq, Repr

inductive Op (ρ : Type) where
  | acquire (r : ρ)
  | use (r : ρ)
  /-- A use by a peer. -/
  | peer (r : ρ)
  | release (r : ρ)
  | abandon (r : ρ)
  deriving DecidableEq, Repr

namespace Op

variable {ρ : Type}

def res : Op ρ → ρ
  | acquire r | use r | peer r | release r | abandon r => r

def next (op : Op ρ) (st : Status) : Status :=
  match op with
  | acquire _ => .live
  | use _ | peer _ => st
  | release _ => .released
  | abandon _ => .abandoned

def Allowed (op : Op ρ) (st : Status) : Prop :=
  match op with
  | acquire _ => st = .fresh
  | use _ | release _ | abandon _ => st = .live
  | peer _ => st = .live ∨ st = .abandoned

end Op

variable {ρ : Type} [DecidableEq ρ]

def status : List (Op ρ) → ρ → Status
  | [], _ => .fresh
  | op :: log, r => if op.res = r then op.next (status log r) else status log r

def Legal : List (Op ρ) → Prop
  | [] => True
  | op :: log => op.Allowed (status log op.res) ∧ Legal log

variable {log : List (Op ρ)} {r : ρ}

@[simp] theorem status_nil : status [] r = .fresh := rfl

@[simp] theorem status_use (r' : ρ) : status (.use r' :: log) r = status log r := by simp [status, Op.next]

@[simp] theorem status_peer (r' : ρ) : status (.peer r' :: log) r = status log r := by simp [status, Op.next]

theorem status_self (op : Op ρ) : status (op :: log) op.res = op.next (status log op.res) := if_pos rfl

theorem status_of_ne {op : Op ρ} (h : op.res ≠ r) : status (op :: log) r = status log r := if_neg h

theorem status_acquire_of_ne {r' : ρ} (h : r' ≠ r) : status (.acquire r' :: log) r = status log r := status_of_ne h

@[simp] theorem legal_nil : Legal ([] : List (Op ρ)) := trivial

theorem Legal.of_append : ∀ {newer : List (Op ρ)}, Legal (newer ++ log) → Legal log
  | [], h => h
  | _ :: _, h => of_append h.2

/-- Uses by peers change nothing, and are legal as long as nothing that they use was given back. -/
theorem Legal.peers (h : Legal log) : ∀ {ops : List (Op ρ)},
    (∀ op ∈ ops, ∃ r, op = .peer r ∧ (status log r = .live ∨ status log r = .abandoned)) →
    Legal (ops ++ log) ∧ ∀ r, status (ops ++ log) r = status log r
  | [], _ => ⟨h, fun _ => rfl⟩
  | op :: ops, hops => by
    obtain ⟨ih, hsame⟩ := h.peers fun op' hop' => hops op' (List.mem_cons_of_mem _ hop')
    obtain ⟨r, rfl, hr⟩ := hops op List.mem_cons_self
    refine ⟨⟨?_, ih⟩, ?_⟩
    · rw [← hsame r] at hr
      exact hr
    · intro r'
      rw [List.cons_append, status_peer]
      exact hsame r'

/-- How often `r` was acquired and how often it was settled, by its status. -/
theorem Legal.counts : ∀ {log : List (Op ρ)}, Legal log → ∀ r,
    match status log r with
    | .fresh => log.count (.acquire r) = 0 ∧ log.count (.release r) = 0 ∧ log.count (.abandon r) = 0
    | .live => log.count (.acquire r) = 1 ∧ log.count (.release r) = 0 ∧ log.count (.abandon r) = 0
    | .released => log.count (.acquire r) = 1 ∧ log.count (.release r) = 1 ∧ log.count (.abandon r) = 0
    | .abandoned => log.count (.acquire r) = 1 ∧ log.count (.release r) = 0 ∧ log.count (.abandon r) = 1
  | [], _, r => by simp
  | op :: log, h, r => by
    obtain ⟨hop, hlog⟩ := h
    have ih := hlog.counts r
    by_cases hr : op.res = r
    · subst hr
      rw [status_self]
      cases op <;> simp only [Op.Allowed, Op.res] at hop <;> simp only [Op.res] at ih ⊢
      case acquire r =>
        rw [hop] at ih
        simpa [Op.next] using ih
      case use r => simpa [Op.next] using ih
      case peer r => simpa [Op.next] using ih
      case release r =>
        rw [hop] at ih
        simpa [Op.next] using ih
      case abandon r =>
        rw [hop] at ih
        simpa [Op.next] using ih
    · rw [status_of_ne hr]
      have hne : ∀ op' : Op ρ, op'.res = r → (op :: log).count op' = log.count op' := by
        rintro op' rfl
        exact List.count_cons_of_ne fun h => hr (congrArg _ h)
      rw [hne _ rfl, hne _ rfl, hne _ rfl]
      exact ih

/-- **A resource that is not held any more** was given back exactly once, or abandoned. -/
theorem Legal.settled (h : Legal log) (hr : .acquire r ∈ log) (hlive : status log r ≠ .live) :
    log.count (.acquire r) = 1 ∧ log.count (.release r) + log.count (.abandon r) = 1 := by
  have hcounts := h.counts r
  have hpos := List.count_pos_iff.2 hr
  cases hst : status log r <;> rw [hst] at hcounts hlive <;> dsimp only at hcounts
  case live => exact absurd rfl hlive
  all_goals omega

/-- What is abandoned stays so. -/
theorem Legal.keeps_abandoned : ∀ {newer : List (Op ρ)}, Legal (newer ++ log) → status log r = .abandoned →
    status (newer ++ log) r = .abandoned
  | [], _, hr => hr
  | op :: newer, h, hr => by
    obtain ⟨hop, hlog⟩ := h
    have ih := keeps_abandoned hlog hr
    by_cases heq : op.res = r
    · subst heq
      change op.Allowed (status (newer ++ log) op.res) at hop
      rw [ih] at hop
      cases op with
      | peer r => rwa [List.cons_append, status_peer]
      | acquire r | use r | release r | abandon r => simp [Op.Allowed] at hop
    · rwa [List.cons_append, status_of_ne heq]

/-- A resource is never settled twice. -/
theorem Legal.settled_le (h : Legal log) (r : ρ) : log.count (.release r) + log.count (.abandon r) ≤ 1 := by
  have hcounts := h.counts r
  split at hcounts <;> omega

theorem status_of_last : ∀ {newer : List (Op ρ)} {op : Op ρ}, Legal (newer ++ op :: log) →
    (op.next (status log op.res) = .released ∨ op.next (status log op.res) = .abandoned) →
    status (newer ++ op :: log) op.res = op.next (status log op.res) ∧
      ∀ op' ∈ newer, op'.res = op.res → op' = .peer op.res ∧ op.next (status log op.res) = .abandoned
  | [], op, _, _ => ⟨status_self op, by simp⟩
  | op₁ :: newer, op, h, hset => by
    obtain ⟨hop, hlog⟩ := h
    obtain ⟨ih, hnewer⟩ := status_of_last hlog hset
    by_cases hr : op₁.res = op.res
    · -- after it was settled only a peer may use it
      have hpeer : op₁ = .peer op.res ∧ op.next (status log op.res) = .abandoned := by
        change op₁.Allowed (status (newer ++ op :: log) op₁.res) at hop
        rw [hr, ih] at hop
        cases op₁ with
        | peer r =>
          obtain rfl : r = op.res := hr
          exact ⟨rfl, hset.resolve_left fun h => by simp [h, Op.Allowed] at hop⟩
        | acquire r | use r | release r | abandon r => rcases hset with hset | hset <;> simp [hset, Op.Allowed] at hop
      refine ⟨?_, ?_⟩
      · rw [List.cons_append, hpeer.1, status_peer]
        exact ih
      · intro op' hop' hres
        rcases List.mem_cons.1 hop' with rfl | hop'
        · exact hpeer
        · exact hnewer op' hop' hres
    · refine ⟨?_, ?_⟩
      · rw [List.cons_append, status_of_ne hr]
        exact ih
      · intro op' hop' hres
        rcases List.mem_cons.1 hop' with rfl | hop'
        · exact absurd hres hr
        · exact hnewer op' hop' hres

/-- **The owner does not touch** what it has abandoned. -/
theorem Legal.after_abandon {newer : List (Op ρ)} (h : Legal (newer ++ .abandon r :: log)) {op : Op ρ} (hop : op ∈ newer)
    (hres : op.res = r) : op = .peer r :=
  ((status_of_last h (Or.inr rfl)).2 op hop hres).1

/-- **Nobody touches** what was given back. -/
theorem Legal.after_release {newer : List (Op ρ)} (h : Legal (newer ++ .release r :: log)) {op : Op ρ} (hop : op ∈ newer) :
    op.res ≠ r := by
  intro hres
  cases ((status_of_last h (Or.inl rfl)).2 op hop hres).2

/-! ## What the owner holds -/

/-- A legal ledger, by which the owner holds `own`, and nothing of `new` was ever acquired. -/
structure Owns (log : List (Op ρ)) (own new : ρ → Prop) : Prop where
  legal : Legal log
  live : ∀ r, status log r = .live ↔ own r
  fresh : ∀ r, new r → status log r = .fresh

namespace Owns

variable {own new : ρ → Prop}

theorem not_new (h : Owns log own new) (hr : own r) : ¬new r := by
  intro hnew
  have hlive := (h.live r).2 hr
  rw [h.fresh r hnew] at hlive
  cases hlive

theorem weaken (h : Owns log own new) {own' new' : ρ → Prop} (hown : ∀ r, own r ↔ own' r) (hnew : ∀ r, new' r → new r) :
    Owns log own' new' :=
  ⟨h.legal, fun r => (h.live r).trans (hown r), fun r hr => h.fresh r (hnew r hr)⟩

theorem acquire (h : Owns log own new) (r : ρ) (hr : new r) : Owns (.acquire r :: log) (fun x => own x ∨ x = r) fun x => new x ∧ x ≠ r := by
  refine ⟨⟨h.fresh r hr, h.legal⟩, ?_, ?_⟩
  · intro x
    by_cases hx : r = x
    · subst hx
      simp [status, Op.res, Op.next]
    · rw [status_acquire_of_ne hx, h.live x]
      simp [Ne.symm hx]
  · intro x hx
    rw [status_acquire_of_ne (Ne.symm hx.2)]
    exact h.fresh x hx.1

theorem use (h : Owns log own new) (r : ρ) (hr : own r) : Owns (.use r :: log) own new := by
  refine ⟨⟨(h.live r).2 hr, h.legal⟩, ?_, ?_⟩
  · simpa only [status_use] using h.live
  · simpa only [status_use] using h.fresh

/-- A resource is settled. -/
theorem settle (h : Owns log own new) {op : Op ρ} (hop : op = .release op.res ∨ op = .abandon op.res) (hr : own op.res) :
    Owns (op :: log) (fun x => own x ∧ x ≠ op.res) new := by
  have hlive := (h.live op.res).2 hr
  have hallowed : op.Allowed (status log op.res) := by
    rcases hop with hop | hop <;> rw [hop] <;> exact hlive
  have hnext : op.next .live ≠ .live := by
    rcases hop with hop | hop <;> rw [hop] <;> simp [Op.next]
  refine ⟨⟨hallowed, h.legal⟩, ?_, ?_⟩
  · intro x
    by_cases hx : op.res = x
    · subst hx
      simp [status, hlive, hnext]
    · rw [status_of_ne hx, h.live x]
      simp [Ne.symm hx]
  · intro x hx
    have hne : op.res ≠ x := by
      rintro rfl
      exact h.not_new hr hx
    rw [status_of_ne hne]
    exact h.fresh x hx

theorem release (h : Owns log own new) (r : ρ) (hr : own r) : Owns (.release r :: log) (fun x => own x ∧ x ≠ r) new :=
  h.settle (Or.inl rfl) hr

theorem abandon (h : Owns log own new) (r : ρ) (hr : own r) : Owns (.abandon r :: log) (fun x => own x ∧ x ≠ r) new :=
  h.settle (Or.inr rfl) hr

end Owns

end Lib.Ledger
