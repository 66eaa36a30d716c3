import Psutil.Nowrap.WrapNumbers
import Psutil.Lib.Unwrap

/-!
# What one call of `_WrapNumbers.run` does

The three dictionaries are tied together by `NameState.Inv` (every `remkey` listed in
`reminder_keys[name][key]` belongs to `key` and has an entry in `reminders[name]`, and a non-zero
reminder is listed), which is what keeps the `del` of `_remove_dead_reminders` from ever missing.
`run_spec` then reads a call off through `WrapNumbers.watch`: for each key and field the pair (last
raw value, reminder) moves exactly as `Lib.Unwrap.observe` says, whatever the other names do.
-/

namespace Psutil

open Lib Unwrap

variable {κ : Type} [DecidableEq κ]

theorem getItem_of_get? {ν : Type} {d : Dict κ ν} {k : κ} {v : ν} (h : d.get? k = some v) :
    getItem d k = .ok v := by simp [getItem, h]

theorem getIndex_of_lt {t : List Int} {i : Nat} (h : i < t.length) :
    getIndex t i = .ok (t.getD i 0) := by simp [getIndex, h]

/-- A loop of `del`s over distinct keys that are all present. -/
theorem delItems_spec {ν : Type} : ∀ {ks : List κ} {d : Dict κ ν}, ks.Nodup → (∀ k ∈ ks, k ∈ d) →
    ∃ d', ks.foldlM delItem d = .ok d' ∧ ∀ k, d'.get? k = if k ∈ ks then none else d.get? k
  | [], d, _, _ => ⟨d, rfl, by simp⟩
  | k :: ks, d, hnd, hmem => by
    obtain ⟨hk, hnd⟩ := List.nodup_cons.1 hnd
    have hks : ∀ k' ∈ ks, k' ∈ d.erase k := fun k' hk' =>
      Dict.mem_erase.2 ⟨fun e => hk (e ▸ hk'), hmem k' (List.mem_cons_of_mem _ hk')⟩
    obtain ⟨d', hd', hget⟩ := delItems_spec hnd hks
    have hkd : k ∈ d := hmem k List.mem_cons_self
    refine ⟨d', by rw [List.foldlM_cons, delItem, if_pos hkd]; exact hd', fun k' => ?_⟩
    rw [hget, Dict.get?_erase]
    by_cases e : k' = k <;> simp [e]

namespace NameState

/-- The reminder of a field; a missing entry of the `defaultdict` counts as 0. -/
def carried (st : NameState κ) (r : κ × Nat) : Int := (st.reminders.get? r).getD 0

structure Inv (st : NameState κ) : Prop where
  listed : ∀ k remkeys, st.reminderKeys.get? k = some remkeys →
    remkeys.Nodup ∧ ∀ r ∈ remkeys, r.1 = k ∧ r ∈ st.reminders
  nonzero : ∀ r, st.carried r ≠ 0 → ∃ remkeys, st.reminderKeys.get? r.1 = some remkeys ∧ r ∈ remkeys

theorem inv_empty : Inv (⟨∅, ∅⟩ : NameState κ) :=
  ⟨by simp, by simp [carried]⟩

theorem Inv.carried_eq_zero {st : NameState κ} (h : st.Inv) {r : κ × Nat} (hr : r.1 ∉ st.reminderKeys) :
    st.carried r = 0 := by
  by_contra hne
  obtain ⟨remkeys, hg, -⟩ := h.nonzero r hne
  exact hr (Dict.mem_of_get? hg)

/-- The list of a key that has none is empty. -/
theorem Inv.listed_getD {st : NameState κ} (h : st.Inv) (k : κ) :
    ((st.reminderKeys.get? k).getD []).Nodup ∧ ∀ r ∈ (st.reminderKeys.get? k).getD [], r.1 = k ∧ r ∈ st.reminders := by
  cases hg : st.reminderKeys.get? k with
  | none => simp
  | some remkeys => simpa using h.listed k remkeys hg

theorem Inv.mem_getD {st : NameState κ} (h : st.Inv) {r : κ × Nat} (hr : st.carried r ≠ 0) :
    r ∈ (st.reminderKeys.get? r.1).getD [] := by
  obtain ⟨remkeys, hg, hm⟩ := h.nonzero r hr
  rwa [hg, Option.getD_some]

/-! ## Forgetting a key -/

/-- The reminders of the key are gone, the others are what they were: one that is not listed was never more than 0. -/
theorem carried_forget {st : NameState κ} (h : st.Inv) (g : κ) {rems : Dict (κ × Nat) Int}
    (hgone : ∀ r ∈ (st.reminderKeys.get? g).getD [], rems.get? r = none)
    (hkeep : ∀ r ∉ (st.reminderKeys.get? g).getD [], rems.get? r = st.reminders.get? r) (r : κ × Nat) :
    (rems.get? r).getD 0 = if r.1 = g then 0 else st.carried r := by
  by_cases hr : r ∈ (st.reminderKeys.get? g).getD []
  · rw [hgone r hr, if_pos ((h.listed_getD g).2 r hr).1]
    rfl
  · rw [hkeep r hr]
    by_cases e : r.1 = g
    · have h0 : st.carried r = 0 := by
        by_contra hne
        have hm := h.mem_getD hne
        rw [e] at hm
        exact hr hm
      rw [if_pos e]
      exact h0
    · rw [if_neg e]
      rfl

/-- What is left is listed as it was. -/
theorem Inv.forget {st : NameState κ} (h : st.Inv) (g : κ) {rems : Dict (κ × Nat) Int} {keys : Dict κ (List (κ × Nat))}
    (hgone : ∀ r ∈ (st.reminderKeys.get? g).getD [], rems.get? r = none)
    (hkeep : ∀ r ∉ (st.reminderKeys.get? g).getD [], rems.get? r = st.reminders.get? r)
    (hkeys : ∀ k, keys.get? k = if k = g then none else st.reminderKeys.get? k) : NameState.Inv ⟨rems, keys⟩ := by
  have hrem := h.listed_getD g
  constructor
  · intro k rks hk
    rw [hkeys] at hk
    by_cases e : k = g
    · simp [e] at hk
    · rw [if_neg e] at hk
      refine ⟨(h.listed k rks hk).1, fun r hr => ?_⟩
      obtain ⟨hrk, hrm⟩ := (h.listed k rks hk).2 r hr
      refine ⟨hrk, Dict.mem_iff_get?.2 ?_⟩
      rw [hkeep r fun hm => e (hrk ▸ (hrem.2 r hm).1)]
      exact Dict.mem_iff_get?.1 hrm
  · intro r hr
    rw [carried, carried_forget h g hgone hkeep] at hr
    by_cases e : r.1 = g
    · exact absurd (if_pos e) hr
    · obtain ⟨rks, hk, hm⟩ := h.nonzero r (by rwa [if_neg e] at hr)
      exact ⟨rks, by rw [hkeys, if_neg e, hk], hm⟩

theorem forgetKey_spec {st : NameState κ} (h : st.Inv) (g : κ) :
    ∃ st', st.forgetKey g = .ok st' ∧ st'.Inv ∧
      (∀ k, k ∈ st'.reminderKeys ↔ k ≠ g ∧ k ∈ st.reminderKeys) ∧
      ∀ r, st'.carried r = if r.1 = g then 0 else st.carried r := by
  let remkeys := (st.reminderKeys.get? g).getD []
  have hrem : remkeys.Nodup ∧ ∀ r ∈ remkeys, r.1 = g ∧ r ∈ st.reminders := h.listed_getD g
  obtain ⟨rems, hrems, hget⟩ := delItems_spec hrem.1 fun r hr => (hrem.2 r hr).2
  have hkeys : ∀ k, ((st.reminderKeys.set g remkeys).erase g).get? k =
      if k = g then none else st.reminderKeys.get? k := by
    intro k
    rw [Dict.get?_erase, Dict.get?_set]
    by_cases e : k = g <;> simp [e]
  have hgone : ∀ r ∈ remkeys, rems.get? r = none := fun r hr => by rw [hget, if_pos hr]
  have hkeep : ∀ r ∉ remkeys, rems.get? r = st.reminders.get? r := fun r hr => by rw [hget, if_neg hr]
  refine ⟨⟨rems, (st.reminderKeys.set g remkeys).erase g⟩, ?_, h.forget g hgone hkeep hkeys, ?_, carried_forget h g hgone hkeep⟩
  · have hdel : delItem (st.reminderKeys.set g remkeys) g = .ok ((st.reminderKeys.set g remkeys).erase g) := by
      simp [delItem]
    unfold forgetKey
    simp only [remkeys] at hrems hdel ⊢
    rw [hrems]
    simp only [bind, Except.bind, hdel]
    rfl
  · intro k
    rw [Dict.mem_iff_get?, hkeys, Dict.mem_iff_get?]
    by_cases e : k = g <;> simp [e]

theorem forgetKeys_spec : ∀ (gs : List κ) {st : NameState κ}, st.Inv →
    ∃ st', gs.foldlM forgetKey st = .ok st' ∧ st'.Inv ∧
      (∀ k, k ∈ st'.reminderKeys ↔ k ∉ gs ∧ k ∈ st.reminderKeys) ∧
      ∀ r, st'.carried r = if r.1 ∈ gs then 0 else st.carried r
  | [], st, h => ⟨st, rfl, h, by simp, by simp⟩
  | g :: gs, st, h => by
    obtain ⟨st₁, he₁, h₁, hk₁, hc₁⟩ := forgetKey_spec h g
    obtain ⟨st₂, he₂, h₂, hk₂, hc₂⟩ := forgetKeys_spec gs h₁
    refine ⟨st₂, by rw [List.foldlM_cons, he₁]; exact he₂, h₂, ?_, ?_⟩
    · intro k
      rw [hk₂, hk₁, List.mem_cons, not_or]; tauto
    · intro r
      rw [hc₂, hc₁]
      by_cases e : r.1 = g <;> simp [e]

/-! ## Reading and adding -/

theorem carried_readReminder (st : NameState κ) (r r' : κ × Nat) :
    (st.readReminder r).2.carried r' = st.carried r' := by
  unfold readReminder
  split
  · rfl
  · rename_i hn
    simp only [carried, Dict.get?_set]
    by_cases e : r' = r
    · subst e; simp [hn]
    · simp [e]

theorem readReminder_fst (st : NameState κ) (r : κ × Nat) : (st.readReminder r).1 = st.carried r := by
  unfold readReminder carried
  split <;> rename_i h <;> simp [h]

theorem reminderKeys_readReminder (st : NameState κ) (r : κ × Nat) :
    (st.readReminder r).2.reminderKeys = st.reminderKeys := by
  unfold readReminder; split <;> rfl

theorem mem_readReminder {st : NameState κ} {r r' : κ × Nat} (h : r' ∈ st.reminders) :
    r' ∈ (st.readReminder r).2.reminders := by
  unfold readReminder
  split
  · exact h
  · exact Dict.mem_set.2 (Or.inr h)

theorem Inv.readReminder {st : NameState κ} (h : st.Inv) (r : κ × Nat) : (st.readReminder r).2.Inv where
  listed k remkeys hk := by
    rw [reminderKeys_readReminder] at hk
    obtain ⟨hnd, hl⟩ := h.listed k remkeys hk
    exact ⟨hnd, fun r' hr' => ⟨(hl r' hr').1, mem_readReminder (hl r' hr').2⟩⟩
  nonzero r' hr' := by
    rw [carried_readReminder] at hr'
    rw [reminderKeys_readReminder]
    exact h.nonzero r' hr'

theorem carried_addReminder (st : NameState κ) (r r' : κ × Nat) (v : Int) :
    (st.addReminder r v).carried r' = if r' = r then st.carried r + v else st.carried r' := by
  have hc := carried_readReminder st r r'
  simp only [addReminder, carried, Dict.get?_set] at hc ⊢
  by_cases e : r' = r
  · simp [e, readReminder_fst, carried]
  · simp [e, hc]

theorem mem_reminderKeys_addReminder {st : NameState κ} {r : κ × Nat} {v : Int} {k : κ} :
    k ∈ (st.addReminder r v).reminderKeys ↔ k = r.1 ∨ k ∈ st.reminderKeys := by
  simp only [addReminder, Dict.mem_set, reminderKeys_readReminder]

/-- `remkeys.add(r)`, of a set that is kept as a list. -/
theorem mem_insertLast {r x : κ × Nat} {remkeys : List (κ × Nat)} :
    (x ∈ if r ∈ remkeys then remkeys else remkeys ++ [r]) ↔ x = r ∨ x ∈ remkeys := by
  split_ifs with hr
  · exact ⟨Or.inr, fun h => h.elim (fun hx => hx ▸ hr) id⟩
  · rw [List.mem_append, List.mem_singleton, or_comm]

theorem nodup_insertLast {r : κ × Nat} {remkeys : List (κ × Nat)} (h : remkeys.Nodup) :
    (if r ∈ remkeys then remkeys else remkeys ++ [r]).Nodup := by
  split_ifs with hr
  · exact h
  · rw [← List.concat_eq_append]
    exact h.concat hr

theorem Inv.addReminder {st : NameState κ} (h : st.Inv) (r : κ × Nat) (v : Int) :
    (st.addReminder r v).Inv := by
  set remkeys := (st.reminderKeys.get? r.1).getD [] with hrem
  have hold : remkeys.Nodup ∧ ∀ r' ∈ remkeys, r'.1 = r.1 ∧ r' ∈ st.reminders := h.listed_getD r.1
  have hkeys : ∀ k, (st.addReminder r v).reminderKeys.get? k =
      if k = r.1 then some (if r ∈ remkeys then remkeys else remkeys ++ [r]) else st.reminderKeys.get? k := by
    intro k
    simp only [NameState.addReminder, Dict.get?_set, reminderKeys_readReminder, hrem]
  have hmem : ∀ r', r' ∈ st.reminders ∨ r' = r → r' ∈ (st.addReminder r v).reminders := by
    rintro r' (hr' | rfl)
    · exact Dict.mem_set.2 (Or.inr (mem_readReminder hr'))
    · exact Dict.mem_set.2 (Or.inl rfl)
  constructor
  · intro k rks hk
    rw [hkeys] at hk
    by_cases e : k = r.1
    · rw [if_pos e, Option.some.injEq] at hk
      subst hk
      refine ⟨nodup_insertLast hold.1, fun r' hr' => ?_⟩
      rcases mem_insertLast.1 hr' with rfl | hr'
      · exact ⟨e.symm, hmem _ (Or.inr rfl)⟩
      · exact ⟨e ▸ (hold.2 r' hr').1, hmem r' (Or.inl (hold.2 r' hr').2)⟩
    · rw [if_neg e] at hk
      obtain ⟨hnd, hl⟩ := h.listed k rks hk
      exact ⟨hnd, fun r' hr' => ⟨(hl r' hr').1, hmem r' (Or.inl (hl r' hr').2)⟩⟩
  · intro r' hr'
    by_cases e : r'.1 = r.1
    · refine ⟨_, by rw [hkeys, if_pos e], mem_insertLast.2 ?_⟩
      by_cases er : r' = r
      · exact Or.inl er
      · rw [carried_addReminder, if_neg er] at hr'
        have hm' := h.mem_getD hr'
        rw [e, ← hrem] at hm'
        exact Or.inr hm'
    · rw [carried_addReminder, if_neg (fun er => e (congrArg Prod.fst er))] at hr'
      obtain ⟨rks, hk, hm⟩ := h.nonzero r' hr'
      exact ⟨rks, by rw [hkeys, if_neg e, hk], hm⟩

end NameState

/-! ## The two loops -/

/-- The reminder of field `i` after a raw tuple `u` followed the raw tuple `t`. -/
def carryAfter (u t : List Int) (c : Int) (i : Nat) : Int :=
  if u.getD i 0 < t.getD i 0 then c + t.getD i 0 else c

theorem eq_length_of_range {n a : Nat} {done rest : List Nat} (h : List.range n = done ++ a :: rest) :
    a = done.length ∧ a < n := by
  have hg := congrArg (·[done.length]?) h
  have hl := congrArg List.length h
  simp only [List.length_range, List.length_append, List.length_cons] at hl
  rw [List.getElem?_append_right le_rfl, List.getElem?_range (by omega)] at hg
  simp only [Nat.sub_self, List.getElem?_cons_zero, Option.some.injEq] at hg
  omega

/-- The state of the inner loop after fields `0, …, m - 1`. -/
structure BitsDone (key : κ) (u t : List Int) (st : NameState κ) (m : Nat) (acc : List Int × NameState κ) :
    Prop where
  bits : acc.1 = (u.take m).mapIdx fun i x => x + carryAfter u t (st.carried (key, i)) i
  inv : acc.2.Inv
  keys : ∀ k ∈ acc.2.reminderKeys, k = key ∨ k ∈ st.reminderKeys
  carried : ∀ r, acc.2.carried r =
    if r.1 = key ∧ r.2 < m then carryAfter u t (st.carried r) r.2 else st.carried r

/-- What is carried for a field once it is compared. -/
theorem BitsDone.carried_wrap {key : κ} {u t : List Int} {st : NameState κ} {m : Nat} {acc : List Int × NameState κ}
    (h : BitsDone key u t st m acc) (r : κ × Nat) :
    (if u.getD m 0 < t.getD m 0 then acc.2.addReminder (key, m) (t.getD m 0) else acc.2).carried r =
      if r.1 = key ∧ r.2 < m + 1 then carryAfter u t (st.carried r) r.2 else st.carried r := by
  have hm₀ : acc.2.carried (key, m) = st.carried (key, m) := by simp [h.carried]
  by_cases hr : r = (key, m)
  · subst hr
    by_cases hw : u.getD m 0 < t.getD m 0
    · rw [if_pos hw, NameState.carried_addReminder, if_pos rfl, hm₀, if_pos ⟨rfl, m.lt_succ_self⟩, carryAfter, if_pos hw]
    · rw [if_neg hw, hm₀, if_pos ⟨rfl, m.lt_succ_self⟩, carryAfter, if_neg hw]
  · have hne : (r.1 = key ∧ r.2 < m + 1) ↔ (r.1 = key ∧ r.2 < m) := by
      refine and_congr_right fun hk => ⟨fun hlt => ?_, fun hlt => by omega⟩
      have : r.2 ≠ m := fun e => hr (Prod.ext hk e)
      omega
    simp only [hne, ← h.carried]
    by_cases hw : u.getD m 0 < t.getD m 0
    · rw [if_pos hw, NameState.carried_addReminder, if_neg hr]
    · rw [if_neg hw]

theorem runBit_spec {key : κ} {u t : List Int} {st : NameState κ} {m : Nat} {acc : List Int × NameState κ}
    (hlen : u.length = t.length) (hm : m < u.length) (h : BitsDone key u t st m acc) :
    ∃ acc', runBit key u t acc m = .ok acc' ∧ BitsDone key u t st (m + 1) acc' := by
  have hc₁ := h.carried_wrap
  set st₁ := if u.getD m 0 < t.getD m 0 then acc.2.addReminder (key, m) (t.getD m 0) else acc.2 with hst₁
  have hval : (st₁.readReminder (key, m)).1 = carryAfter u t (st.carried (key, m)) m := by
    rw [NameState.readReminder_fst, hc₁]; simp
  refine ⟨(acc.1 ++ [u.getD m 0 + carryAfter u t (st.carried (key, m)) m],
    (st₁.readReminder (key, m)).2), ?_, ?_, ?_, ?_, ?_⟩
  · unfold runBit
    rw [getIndex_of_lt hm, getIndex_of_lt (hlen ▸ hm)]
    simp only [bind, Except.bind, ← hst₁, ← hval]
    rfl
  · have htake : u.take (m + 1) = u.take m ++ [u.getD m 0] := by
      rw [List.take_add_one, List.getD_eq_getElem?_getD, List.getElem?_eq_getElem hm]; rfl
    have hl : (u.take m).length = m := by simp; omega
    rw [htake, List.mapIdx_concat, hl, ← h.bits]
  · have hinv : st₁.Inv := by rw [hst₁]; split; exacts [h.inv.addReminder _ _, h.inv]
    exact hinv.readReminder _
  · intro k hk
    rw [NameState.reminderKeys_readReminder, hst₁] at hk
    split at hk
    · rcases NameState.mem_reminderKeys_addReminder.1 hk with rfl | hk
      · exact Or.inl rfl
      · exact h.keys k hk
    · exact h.keys k hk
  · intro r
    rw [NameState.carried_readReminder, hc₁]

/-- The inner loop: every field of a key that was there before is unwrapped. -/
theorem runBits_spec {st : NameState κ} (h : st.Inv) (key : κ) {u t : List Int} (hlen : u.length = t.length) :
    ∃ st', (List.range u.length).foldlM (runBit key u t) ([], st) =
        .ok (u.mapIdx fun i x => x + st'.carried (key, i), st') ∧ st'.Inv ∧
      (∀ k ∈ st'.reminderKeys, k = key ∨ k ∈ st.reminderKeys) ∧
      ∀ r, st'.carried r = if r.1 = key then carryAfter u t (st.carried r) r.2 else st.carried r := by
  have hloop : ∃ acc, (List.range u.length).foldlM (runBit key u t) ([], st) = .ok acc ∧
      BitsDone key u t st (List.range u.length).length acc :=
    foldlM_ok (fun done => BitsDone key u t st done.length)
      (fun done a rest acc hl hacc => by
        obtain ⟨rfl, ha⟩ := eq_length_of_range hl
        simpa using runBit_spec hlen ha hacc)
      ⟨by simp, h, fun k hk => Or.inr hk, by simp⟩
  obtain ⟨⟨bits, st'⟩, hrun, hdone⟩ := hloop
  rw [List.length_range] at hdone
  have hcar : ∀ r, st'.carried r = if r.1 = key then carryAfter u t (st.carried r) r.2 else st.carried r := by
    intro r
    rw [hdone.carried]
    by_cases hr : r.2 < u.length
    · simp [hr]
    · -- past the last field both tuples read 0, so nothing is added there
      have hu : u.getD r.2 0 = 0 := by simp [List.getD_eq_getElem?_getD, not_lt.1 hr]
      have ht : t.getD r.2 0 = 0 := by simp [List.getD_eq_getElem?_getD, hlen ▸ not_lt.1 hr]
      simp [hr, carryAfter, ht, -List.getD_eq_getElem?_getD, hu]
  refine ⟨st', ?_, hdone.inv, hdone.keys, hcar⟩
  have hbits : bits = u.mapIdx fun i x => x + st'.carried (key, i) := by
    refine hdone.bits.trans ?_
    rw [List.take_length]
    refine congrArg (List.mapIdx · u) (funext fun i => funext fun x => ?_)
    simp [hcar]
  rw [hrun, hbits]

/-- The reminder of `r` after the outer loop met the raw tuple `u?` of its key. -/
def carryKey (old : Dict κ (List Int)) (st : NameState κ) (u? : Option (List Int)) (r : κ × Nat) : Int :=
  match old.get? r.1, u? with
  | some t, some u => carryAfter u t (st.carried r) r.2
  | _, _ => st.carried r

/-- What the outer loop puts in `new_dict[key]` for the raw tuple `u`. -/
def tupleOut (old : Dict κ (List Int)) (st : NameState κ) (key : κ) (u : List Int) : List Int :=
  match old.get? key with
  | none => u
  | some t => u.mapIdx fun i x => x + carryAfter u t (st.carried (key, i)) i

/-- The state of the outer loop after the items `done`. -/
structure KeysDone (old : Dict κ (List Int)) (st : NameState κ) (done : List (κ × List Int))
    (acc : Dict κ (List Int) × NameState κ) : Prop where
  out : ∀ k, acc.1.get? k = (done.lookup k).map (tupleOut old st k)
  inv : acc.2.Inv
  keys : ∀ k ∈ acc.2.reminderKeys, k ∈ done.map Prod.fst ∨ k ∈ st.reminderKeys
  carried : ∀ r, acc.2.carried r = carryKey old st (done.lookup r.1) r

theorem lookup_concat {ν : Type} (done : List (κ × ν)) {k k' : κ} (v : ν) (hk : k ∉ done.map Prod.fst) :
    (done ++ [(k, v)]).lookup k' = if k' = k then some v else done.lookup k' := by
  rw [List.lookup_append, Dict.lookup_cons]
  by_cases e : k' = k
  · subst e; simp [Dict.lookup_eq_none_iff'.2 hk]
  · simp [e]

theorem runKey_spec {old : Dict κ (List Int)} {st : NameState κ} {done : List (κ × List Int)}
    {acc : Dict κ (List Int) × NameState κ} {key : κ} {u : List Int} (hk : key ∉ done.map Prod.fst)
    (hlen : ∀ t, old.get? key = some t → u.length = t.length) (h : KeysDone old st done acc) :
    ∃ acc', runKey old acc (key, u) = .ok acc' ∧ KeysDone old st (done ++ [(key, u)]) acc' := by
  have hc₀ : ∀ i, acc.2.carried (key, i) = st.carried (key, i) := fun i => by
    simp [h.carried, carryKey, Dict.lookup_eq_none_iff'.2 hk]
  cases ho : old.get? key with
  | none =>
    refine ⟨(acc.1.set key u, acc.2), by simp [runKey, ho], ?_, h.inv, ?_, ?_⟩
    · intro k
      rw [Dict.get?_set, lookup_concat done u hk, h.out]
      by_cases e : k = key <;> simp [e, tupleOut, ho]
    · intro k hk'
      rcases h.keys k hk' with hm | hm
      · exact Or.inl (by simpa using Or.inl hm)
      · exact Or.inr hm
    · intro r
      rw [lookup_concat done u hk, h.carried]
      by_cases e : r.1 = key <;> simp [carryKey, e, ho]
  | some t =>
    obtain ⟨st', hrun, hinv, hkeys, hcar⟩ := runBits_spec h.inv key (hlen t ho)
    refine ⟨(acc.1.set key (u.mapIdx fun i x => x + st'.carried (key, i)), st'), ?_, ?_, hinv, ?_, ?_⟩
    · simp only [runKey, ho, hrun, bind, Except.bind]; rfl
    · intro k
      rw [Dict.get?_set, lookup_concat done u hk, h.out]
      by_cases e : k = key
      · simp [e, tupleOut, ho, hcar, hc₀]
      · simp [e]
    · intro k hk'
      rcases hkeys k hk' with rfl | hm
      · simp
      · rcases h.keys k hm with hm | hm
        · exact Or.inl (by simpa using Or.inl hm)
        · exact Or.inr hm
    · intro r
      rw [lookup_concat done u hk, hcar]
      by_cases e : r.1 = key
      · obtain ⟨k, i⟩ := r
        obtain rfl : k = key := e
        simp [carryKey, ho, hc₀]
      · simp only [e, if_false, h.carried]

/-- The outer loop. -/
theorem runKeys_spec (old input : Dict κ (List Int)) {st : NameState κ} (h : st.Inv)
    (hlen : ∀ k t u, old.get? k = some t → input.get? k = some u → u.length = t.length) :
    ∃ out st', input.items.foldlM (runKey old) (∅, st) = .ok (out, st') ∧ st'.Inv ∧
      (∀ k ∈ st'.reminderKeys, k ∈ input ∨ k ∈ st.reminderKeys) ∧
      (∀ r, st'.carried r = carryKey old st (input.get? r.1) r) ∧
      ∀ k, out.get? k = (input.get? k).map (tupleOut old st k) := by
  have hloop : ∃ acc, input.items.foldlM (runKey old) (∅, st) = .ok acc ∧ KeysDone old st input.items acc :=
    foldlM_ok (KeysDone old st)
      (fun done a rest acc hl hacc => by
        obtain ⟨key, u⟩ := a
        have hnd := input.nodup
        rw [hl, List.map_append, List.map_cons] at hnd
        have hk : key ∉ done.map Prod.fst := fun hm =>
          (List.nodup_append.1 hnd).2.2 key hm key List.mem_cons_self rfl
        have hu : input.get? key = some u := Dict.mem_items.1 (by simp [hl])
        exact runKey_spec hk (fun t ht => hlen key t u ht hu) hacc)
      ⟨by simp, h, fun k hk => Or.inr hk, fun r => by simp [carryKey]⟩
  obtain ⟨⟨out, st'⟩, hrun, hdone⟩ := hloop
  exact ⟨out, st', hrun, hdone.inv, hdone.keys, hdone.carried, hdone.out⟩

/-! ## The object -/

namespace WrapNumbers

/-- The three dictionaries agree on `name`: absent from all of them, or present in all with the inner
invariant, reminders only for keys of the last input, and tuples of the lengths `len`. -/
def Entry (len : κ → Nat) (self : WrapNumbers κ) (name : String) : Prop :=
  match self.cache.get? name, self.reminders.get? name, self.reminderKeys.get? name with
  | none, none, none => True
  | some old, some rems, some keys =>
    (NameState.mk rems keys).Inv ∧ (∀ k ∈ keys, k ∈ old) ∧ ∀ k t, old.get? k = some t → t.length = len k
  | _, _, _ => False

/-- The invariant of the object; `len` is the tuple length of each key of each name. -/
def WF (len : String → κ → Nat) (self : WrapNumbers κ) : Prop := ∀ name, self.Entry (len name) name

/-- Everything the object remembers under one name. -/
def SameName (self self' : WrapNumbers κ) (name : String) : Prop :=
  self'.cache.get? name = self.cache.get? name ∧ self'.reminders.get? name = self.reminders.get? name ∧
    self'.reminderKeys.get? name = self.reminderKeys.get? name

theorem Entry.of_same {len : κ → Nat} {self self' : WrapNumbers κ} {name : String}
    (h : self.Entry len name) (hs : self.SameName self' name) : self'.Entry len name := by
  obtain ⟨h₁, h₂, h₃⟩ := hs
  simpa only [Entry, h₁, h₂, h₃] using h

/-- The reminder of a field under a name. -/
def carried (self : WrapNumbers κ) (name : String) (r : κ × Nat) : Int :=
  ((self.reminders.get? name).bind (·.get? r)).getD 0

/-- What the object knows of field `i` of `key`: the last raw value and the reminder. -/
def watch (self : WrapNumbers κ) (name : String) (key : κ) (i : Nat) : Option (Seen Int) :=
  ((self.cache.get? name).bind (·.get? key)).map fun t => ⟨t.getD i 0, self.carried name (key, i)⟩

theorem watch_of_same {self self' : WrapNumbers κ} {name : String} (hs : self.SameName self' name)
    (key : κ) (i : Nat) : self'.watch name key i = self.watch name key i := by
  obtain ⟨h₁, h₂, -⟩ := hs
  simp only [watch, carried, h₁, h₂]

theorem wf_init (len : String → κ → Nat) : WF len (init : WrapNumbers κ) := fun _ => trivial

end WrapNumbers

theorem mapIdx_eq_self {u : List Int} {f : Nat → Int → Int} (h : ∀ i x, f i x = x) : u.mapIdx f = u := by
  apply List.ext_getElem <;> simp [h]

/-- One reading of field `i` of `key` in an input dictionary. -/
def readingOf (input : Dict κ (List Int)) (key : κ) (i : Nat) : Option Int :=
  (input.get? key).map (·.getD i 0)

/-- The effect of `run` on the object and its result, all names and keys considered. -/
structure RunOk (len : String → κ → Nat) (wn : WrapNumbers κ) (input : Dict κ (List Int)) (name : String)
    (out : Dict κ (List Int)) (wn' : WrapNumbers κ) : Prop where
  wf : wn'.WF len
  same : ∀ name', name' ≠ name → wn.SameName wn' name'
  cache : wn'.cache.get? name = some input
  watch : ∀ key i, wn'.watch name key i = observe (wn.watch name key i) (readingOf input key i)
  out : ∀ key, out.get? key =
    (input.get? key).map fun u => u.mapIdx fun i x => x + wn'.carried name (key, i)

namespace WrapNumbers

omit [DecidableEq κ] in
theorem sameName_set {self : WrapNumbers κ} {name name' : String} (hne : name' ≠ name)
    (c : Dict κ (List Int)) (r : Dict (κ × Nat) Int) (k : Dict κ (List (κ × Nat))) :
    self.SameName ⟨self.cache.set name c, self.reminders.set name r, self.reminderKeys.set name k⟩ name' :=
  ⟨Dict.get?_set_ne _ _ hne, Dict.get?_set_ne _ _ hne, Dict.get?_set_ne _ _ hne⟩

theorem run_first_eq {len : String → κ → Nat} {self : WrapNumbers κ} (h : self.WF len) (input : Dict κ (List Int)) {name : String}
    (hc : self.cache.get? name = none) : self.run input name = .ok (input, ⟨self.cache.set name input, self.reminders.set name ∅,
      self.reminderKeys.set name ∅⟩) := by
  have he := h name
  obtain ⟨hr, hk⟩ : self.reminders.get? name = none ∧ self.reminderKeys.get? name = none := by
    unfold Entry at he
    rw [hc] at he
    revert he
    cases self.reminders.get? name <;> cases self.reminderKeys.get? name <;> simp
  have h₁ := Dict.get?_eq_none.1 hc
  have h₂ := Dict.get?_eq_none.1 hr
  have h₃ := Dict.get?_eq_none.1 hk
  have hadd : self.addDict input name =
      .ok ⟨self.cache.set name input, self.reminders.set name ∅, self.reminderKeys.set name ∅⟩ := by
    simp [addDict, h₁, h₂, h₃]
  unfold run
  rw [if_pos h₁, hadd]
  rfl

/-- The first call for a name: the input is stored and returned as it is. -/
theorem run_first {len : String → κ → Nat} {self : WrapNumbers κ} (h : self.WF len)
    {input : Dict κ (List Int)} {name : String} (hin : ∀ k u, input.get? k = some u → u.length = len name k)
    (hc : self.cache.get? name = none) :
    ∃ self', self.run input name = .ok (input, self') ∧ RunOk len self input name input self' := by
  have hcar : ∀ r, (⟨self.cache.set name input, self.reminders.set name ∅,
      self.reminderKeys.set name ∅⟩ : WrapNumbers κ).carried name r = 0 := by
    simp [carried]
  refine ⟨⟨self.cache.set name input, self.reminders.set name ∅, self.reminderKeys.set name ∅⟩, run_first_eq h input hc,
    ?_, fun name' hne => sameName_set hne _ _ _, by simp, ?_, ?_⟩
  · intro name'
    by_cases e : name' = name
    · subst e
      simp only [Entry, Dict.get?_set_self]
      exact ⟨NameState.inv_empty, by simp, hin⟩
    · exact (h name').of_same (sameName_set e _ _ _)
  · intro key i
    have hw : self.watch name key i = none := by simp [watch, hc]
    rw [hw]
    unfold watch readingOf
    rw [hcar]
    cases hg : input.get? key <;> simp [observe, hg]
  · intro key
    simp only [hcar]
    cases input.get? key <;> simp [mapIdx_eq_self]

/-- A name that is in the cache is in the other two dictionaries. -/
theorem Entry.of_cache {len : κ → Nat} {self : WrapNumbers κ} {name : String} {old : Dict κ (List Int)}
    (h : self.Entry len name) (hc : self.cache.get? name = some old) :
    ∃ rems keys, self.reminders.get? name = some rems ∧ self.reminderKeys.get? name = some keys ∧
      (NameState.mk rems keys).Inv ∧ (∀ k ∈ keys, k ∈ old) ∧ ∀ k t, old.get? k = some t → t.length = len k := by
  unfold Entry at h
  rw [hc] at h
  revert h
  cases self.reminders.get? name <;> cases self.reminderKeys.get? name <;> simp

/-- The two loops of a later call: dead keys are forgotten, then every key is unwrapped against the last input. -/
theorem later_spec {old input : Dict κ (List Int)} {st : NameState κ} (h : st.Inv) (halive : ∀ k ∈ st.reminderKeys, k ∈ old)
    (hlen : ∀ k t u, old.get? k = some t → input.get? k = some u → u.length = t.length) :
    ∃ st₁ out st₂, (goneKeys old input).foldlM NameState.forgetKey st = .ok st₁ ∧
      input.items.foldlM (runKey old) (∅, st₁) = .ok (out, st₂) ∧ st₂.Inv ∧ (∀ k ∈ st₂.reminderKeys, k ∈ input) ∧
      (∀ k u i, input.get? k = some u → st₂.carried (k, i) =
        ((old.get? k).map fun t => carryAfter u t (st.carried (k, i)) i).getD 0) ∧
      ∀ k, out.get? k = (input.get? k).map fun u => u.mapIdx fun i x => x + st₂.carried (k, i) := by
  obtain ⟨st₁, hf, hinv₁, hkeys₁, hcar₁⟩ := NameState.forgetKeys_spec (goneKeys old input) h
  obtain ⟨out, st₂, hrun, hinv₂, hkeys₂, hcar₂, hout⟩ := runKeys_spec old input hinv₁ hlen
  have hgone : ∀ k, k ∈ goneKeys old input ↔ k ∈ old ∧ k ∉ input := fun k => by
    simp [goneKeys, Dict.mem_def]
  -- a key of the input is not forgotten
  have hkept : ∀ k u i, input.get? k = some u → st₁.carried (k, i) = st.carried (k, i) := fun k u i hu => by
    have hng : k ∉ goneKeys old input := fun hm => ((hgone k).1 hm).2 (Dict.mem_of_get? hu)
    rw [hcar₁, if_neg hng]
  -- a key that was not there before has no reminders
  have hnew : ∀ k i, old.get? k = none → st.carried (k, i) = 0 := fun k i ho =>
    h.carried_eq_zero (r := (k, i)) fun hm => Dict.get?_eq_none.1 ho (halive _ hm)
  refine ⟨st₁, out, st₂, hf, hrun, hinv₂, ?_, ?_, ?_⟩
  · intro k hk
    rcases hkeys₂ k hk with hm | hm
    · exact hm
    · obtain ⟨hng, hko⟩ := (hkeys₁ k).1 hm
      by_contra hni
      exact hng ((hgone k).2 ⟨halive k hko, hni⟩)
  · intro k u i hu
    cases ho : old.get? k with
    | none => simp [hcar₂, carryKey, ho, hkept k u i hu, hnew k i ho]
    | some t => simp [hcar₂, carryKey, ho, hu, hkept k u i hu]
  · intro k
    rw [hout]
    apply Option.map_congr
    intro u hu
    cases ho : old.get? k with
    | none => simp [tupleOut, ho, hcar₂, carryKey, hkept k u _ hu, hnew k _ ho, mapIdx_eq_self]
    | some t => simp [tupleOut, ho, hcar₂, carryKey, hu]

/-- A later call for a name: `run` does the two loops and puts their results back. -/
theorem run_eq {self : WrapNumbers κ} {old input out : Dict κ (List Int)} {name : String} {rems : Dict (κ × Nat) Int}
    {keys : Dict κ (List (κ × Nat))} {st₁ st₂ : NameState κ} (hc : self.cache.get? name = some old)
    (hr : self.reminders.get? name = some rems) (hk : self.reminderKeys.get? name = some keys)
    (hf : (goneKeys old input).foldlM NameState.forgetKey ⟨rems, keys⟩ = .ok st₁)
    (hrun : input.items.foldlM (runKey old) (∅, st₁) = .ok (out, st₂)) :
    self.run input name = .ok (out, ⟨self.cache.set name input, (self.reminders.set name st₁.reminders).set name st₂.reminders,
      (self.reminderKeys.set name st₁.reminderKeys).set name st₂.reminderKeys⟩) := by
  unfold run removeDeadReminders nameState
  rw [if_neg (not_not.2 (Dict.mem_of_get? hc))]
  simp only [getItem_of_get? hc, getItem_of_get? hr, getItem_of_get? hk, bind, Except.bind, pure,
    Except.pure, hf, putNameState]
  simp only [getItem, Dict.get?_set_self, hrun]

theorem run_later {len : String → κ → Nat} {self : WrapNumbers κ} (h : self.WF len)
    {input : Dict κ (List Int)} {name : String} (hin : ∀ k u, input.get? k = some u → u.length = len name k)
    {old : Dict κ (List Int)} (hc : self.cache.get? name = some old) :
    ∃ out self', self.run input name = .ok (out, self') ∧ RunOk len self input name out self' := by
  obtain ⟨rems, keys, hr, hk, hinv, halive, hlens⟩ := (h name).of_cache hc
  obtain ⟨st₁, out, st₂, hf, hrun, hinv₂, hkeys₂, hcar, hout⟩ := later_spec hinv halive
    fun k t u ht hu => (hin k u hu).trans (hlens k t ht).symm
  set self' : WrapNumbers κ := ⟨self.cache.set name input, (self.reminders.set name st₁.reminders).set name st₂.reminders,
    (self.reminderKeys.set name st₁.reminderKeys).set name st₂.reminderKeys⟩ with hself'
  have hcar' : ∀ r, self'.carried name r = st₂.carried r := by simp [hself', carried, NameState.carried]
  refine ⟨out, self', run_eq hc hr hk hf hrun, ?_, ?_, by simp [hself'], ?_, ?_⟩
  · intro name'
    by_cases e : name' = name
    · subst e
      simp only [Entry, hself', Dict.get?_set_self]
      exact ⟨hinv₂, hkeys₂, hin⟩
    · refine (h name').of_same ⟨?_, ?_, ?_⟩ <;> simp [hself', Dict.get?_set_ne _ _ e]
  · intro name' hne
    refine ⟨?_, ?_, ?_⟩ <;> simp [hself', Dict.get?_set_ne _ _ hne]
  · intro key i
    have hw : self.watch name key i =
        (old.get? key).map fun t => ⟨t.getD i 0, (NameState.mk rems keys).carried (key, i)⟩ := by
      simp [watch, hc, carried, hr, NameState.carried]
    have hw' : self'.watch name key i = (input.get? key).map fun u => ⟨u.getD i 0, st₂.carried (key, i)⟩ := by
      simp only [watch, hcar']
      simp [hself']
    rw [hw, hw', readingOf]
    cases hi : input.get? key with
    | none => simp [observe]
    | some u =>
      rw [Option.map_some, Option.map_some, hcar key u i hi]
      cases old.get? key <;> rfl
  · intro key
    simp only [hout, hcar']

/-- **`run` raises nothing, keeps the invariant and unwraps**: every key moves by `observe`, the
result is the raw tuple plus the reminders, and no other name is touched. -/
theorem run_spec {len : String → κ → Nat} {self : WrapNumbers κ} (h : self.WF len)
    {input : Dict κ (List Int)} {name : String} (hin : ∀ k u, input.get? k = some u → u.length = len name k) :
    ∃ out self', self.run input name = .ok (out, self') ∧ RunOk len self input name out self' := by
  cases hc : self.cache.get? name with
  | none =>
    obtain ⟨self', hrun, hok⟩ := run_first h hin hc
    exact ⟨input, self', hrun, hok⟩
  | some old => exact run_later h hin hc

omit [DecidableEq κ] in
theorem sameName_cacheClear {self : WrapNumbers κ} {name name' : String} (hne : name' ≠ name) :
    self.SameName (self.cacheClear (some name)) name' := by
  refine ⟨?_, ?_, ?_⟩ <;> simp [cacheClear, Dict.get?_erase, hne]

theorem cacheClear_wf {len : String → κ → Nat} {self : WrapNumbers κ} (h : self.WF len)
    (name : Option String) : (self.cacheClear name).WF len := by
  cases name with
  | none => exact wf_init len
  | some name =>
    intro name'
    by_cases e : name' = name
    · subst e; simp [cacheClear, Entry, Dict.get?_erase]
    · exact (h name').of_same (sameName_cacheClear e)

end WrapNumbers

end Psutil
