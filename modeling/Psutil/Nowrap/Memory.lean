import Psutil.Nowrap.History

/-!
# The memory of `_WrapNumbers`

Which reminders the object holds. The read in `bits.append(input_value + self.reminders[name][remkey])` creates an
entry for every field of a key that stays, but only the entries of fields that wrapped are listed in `reminder_keys`,
where `_remove_dead_reminders` looks for them. `memory_bounded_iff`: what is held belongs to the last input exactly
as long as every key that goes away has all its entries listed.
-/

namespace Psutil

open Lib

variable {κ : Type} [DecidableEq κ]

namespace NameState

/-- `r in self.reminder_keys[name][r[0]]`. -/
def Listed (st : NameState κ) (r : κ × Nat) : Prop := r ∈ (st.reminderKeys.get? r.1).getD []

/-! ## The entries after each loop -/

theorem mem_readReminder_iff {st : NameState κ} {r r' : κ × Nat} :
    r' ∈ (st.readReminder r).2.reminders ↔ r' = r ∨ r' ∈ st.reminders := by
  unfold readReminder
  split
  · rename_i v hv
    have hr : r ∈ st.reminders := Dict.mem_of_get? hv
    exact ⟨Or.inr, fun h => h.elim (fun e => e ▸ hr) id⟩
  · exact Dict.mem_set

theorem mem_addReminder_iff {st : NameState κ} {r r' : κ × Nat} {v : Int} :
    r' ∈ (st.addReminder r v).reminders ↔ r' = r ∨ r' ∈ st.reminders := by
  simp only [addReminder, Dict.mem_set, mem_readReminder_iff, or_self_left]

/-- Forgetting a key deletes the entries listed under it. -/
theorem forgetKey_mem {st st' : NameState κ} (h : st.Inv) {g : κ} (hf : st.forgetKey g = .ok st') :
    (∀ r, r ∈ st'.reminders ↔ r ∈ st.reminders ∧ ¬(r.1 = g ∧ st.Listed r)) ∧
      ∀ k, st'.reminderKeys.get? k = if k = g then none else st.reminderKeys.get? k := by
  obtain ⟨hnd, hrem⟩ := h.listed_getD g
  obtain ⟨rems, hrems, hget⟩ := delItems_spec hnd fun r hr => (hrem r hr).2
  have hdel : delItem (st.reminderKeys.set g ((st.reminderKeys.get? g).getD [])) g =
      .ok ((st.reminderKeys.set g ((st.reminderKeys.get? g).getD [])).erase g) := by
    simp [delItem]
  unfold forgetKey at hf
  simp only [hrems, bind, Except.bind, hdel] at hf
  cases hf
  constructor
  · intro r
    have hl : (r.1 = g ∧ st.Listed r) ↔ r ∈ (st.reminderKeys.get? g).getD [] := by
      constructor
      · rintro ⟨rfl, hr⟩
        exact hr
      · intro hr
        obtain ⟨rfl, -⟩ := hrem r hr
        exact ⟨rfl, hr⟩
    rw [Dict.mem_iff_get?, hget, hl, Dict.mem_iff_get?]
    by_cases hr : r ∈ (st.reminderKeys.get? g).getD [] <;> simp [hr]
  · intro k
    rw [Dict.get?_erase, Dict.get?_set]
    by_cases hk : k = g <;> simp [hk]

theorem forgetKeys_mem : ∀ (gs : List κ) {st st' : NameState κ}, st.Inv → gs.foldlM forgetKey st = .ok st' →
    ∀ r, r ∈ st'.reminders ↔ r ∈ st.reminders ∧ ¬(r.1 ∈ gs ∧ st.Listed r)
  | [], st, st', _, hf, r => by
    cases hf
    simp
  | g :: gs, st, st', h, hf, r => by
    obtain ⟨st₁, he₁, h₁, -⟩ := forgetKey_spec h g
    rw [List.foldlM_cons, he₁] at hf
    obtain ⟨hm₁, hk₁⟩ := forgetKey_mem h he₁
    have hl : st₁.Listed r ↔ r.1 ≠ g ∧ st.Listed r := by
      rw [Listed, hk₁, Listed]
      by_cases e : r.1 = g <;> simp [e]
    rw [forgetKeys_mem gs h₁ hf, hm₁, hl, List.mem_cons]
    tauto

end NameState

open NameState

theorem runBit_mem {key : κ} {u t : List Int} {acc acc' : List Int × NameState κ} {i : Nat}
    (h : runBit key u t acc i = .ok acc') (r : κ × Nat) :
    r ∈ acc'.2.reminders ↔ r = (key, i) ∨ r ∈ acc.2.reminders := by
  unfold runBit at h
  cases hu : getIndex u i with
  | error e => rw [hu] at h; cases h
  | ok x => cases ht : getIndex t i with
    | error e => rw [hu, ht] at h; cases h
    | ok y =>
      simp only [hu, ht, bind, Except.bind, pure, Except.pure, Except.ok.injEq] at h
      rw [← h, mem_readReminder_iff]
      split
      · rw [mem_addReminder_iff, or_self_left]
      · rfl

theorem runBits_mem {key : κ} {u t : List Int} : ∀ (is : List Nat) {acc acc' : List Int × NameState κ},
    is.foldlM (runBit key u t) acc = .ok acc' → ∀ r, r ∈ acc'.2.reminders ↔ (r.1 = key ∧ r.2 ∈ is) ∨ r ∈ acc.2.reminders
  | [], acc, acc', h, r => by
    cases h
    simp
  | i :: is, acc, acc', h, r => by
    rw [List.foldlM_cons] at h
    cases hb : runBit key u t acc i with
    | error e => rw [hb] at h; cases h
    | ok acc₁ =>
      rw [hb] at h
      rw [runBits_mem is h, runBit_mem hb, List.mem_cons, Prod.ext_iff]
      tauto

/-- The body of the outer loop makes an entry for every field of a key that was there before. -/
theorem runKey_mem {old : Dict κ (List Int)} {acc acc' : Dict κ (List Int) × NameState κ} {item : κ × List Int}
    (h : runKey old acc item = .ok acc') (r : κ × Nat) :
    r ∈ acc'.2.reminders ↔ (r.1 ∈ old ∧ r.1 = item.1 ∧ r.2 < item.2.length) ∨ r ∈ acc.2.reminders := by
  unfold runKey at h
  split at h
  · rename_i ho
    cases h
    constructor
    · exact Or.inr
    · rintro (⟨hro, hri, -⟩ | hr)
      · exact absurd (hri ▸ hro) (Dict.get?_eq_none.1 ho)
      · exact hr
  · rename_i t ho
    cases hb : (List.range item.2.length).foldlM (runBit item.1 item.2 t) ([], acc.2) with
    | error e => rw [hb] at h; cases h
    | ok acc₁ =>
      rw [hb] at h
      cases h
      rw [runBits_mem _ hb, List.mem_range]
      have hio : item.1 ∈ old := Dict.mem_of_get? ho
      constructor
      · rintro (⟨hri, hlt⟩ | hr)
        · exact Or.inl ⟨hri ▸ hio, hri, hlt⟩
        · exact Or.inr hr
      · rintro (⟨-, hri, hlt⟩ | hr)
        · exact Or.inl ⟨hri, hlt⟩
        · exact Or.inr hr

theorem runKeys_mem {old : Dict κ (List Int)} : ∀ (items : List (κ × List Int)) {acc acc' : Dict κ (List Int) × NameState κ},
    items.foldlM (runKey old) acc = .ok acc' →
    ∀ r, r ∈ acc'.2.reminders ↔ (r.1 ∈ old ∧ ∃ u, (r.1, u) ∈ items ∧ r.2 < u.length) ∨ r ∈ acc.2.reminders
  | [], acc, acc', h, r => by
    cases h
    simp
  | (k, u) :: items, acc, acc', h, r => by
    rw [List.foldlM_cons] at h
    cases hb : runKey old acc (k, u) with
    | error e => rw [hb] at h; cases h
    | ok acc₁ =>
      rw [hb] at h
      rw [runKeys_mem items h, runKey_mem hb]
      simp only [List.mem_cons, Prod.mk.injEq]
      constructor
      · rintro (⟨hro, v, hv, hlt⟩ | ⟨hro, hrk, hlt⟩ | hr)
        · exact Or.inl ⟨hro, v, Or.inr hv, hlt⟩
        · exact Or.inl ⟨hro, u, Or.inl ⟨hrk, rfl⟩, hlt⟩
        · exact Or.inr hr
      · rintro (⟨hro, v, ⟨hrk, rfl⟩ | hv, hlt⟩ | hr)
        · exact Or.inr (Or.inl ⟨hro, hrk, hlt⟩)
        · exact Or.inl ⟨hro, v, hv, hlt⟩
        · exact Or.inr (Or.inr hr)

/-! ## What a call does -/

namespace WrapNumbers

/-- `r in self.reminders[name]`. -/
def Remembers (self : WrapNumbers κ) (name : String) (r : κ × Nat) : Prop :=
  ∃ rems, self.reminders.get? name = some rems ∧ r ∈ rems

/-- `r in self.reminder_keys[name][r[0]]`. -/
def Lists (self : WrapNumbers κ) (name : String) (r : κ × Nat) : Prop :=
  ∃ keys, self.reminderKeys.get? name = some keys ∧ r ∈ (keys.get? r.1).getD []

omit [DecidableEq κ] in
theorem remembers_of_same {self self' : WrapNumbers κ} {name : String} (hs : self.SameName self' name) (r : κ × Nat) :
    self'.Remembers name r ↔ self.Remembers name r := by
  simp only [Remembers, hs.2.1]

/-- A first call remembers nothing. -/
theorem not_remembers_first {len : String → κ → Nat} {self self' : WrapNumbers κ} (h : self.WF len) {input out : Dict κ (List Int)}
    {name : String} (hc : self.cache.get? name = none) (hrun : self.run input name = .ok (out, self')) (r : κ × Nat) :
    ¬self'.Remembers name r := by
  rw [run_first_eq h input hc] at hrun
  cases hrun
  rintro ⟨rems, hrems, hr⟩
  rw [Dict.get?_set_self, Option.some.injEq] at hrems
  subst hrems
  exact Dict.not_mem_empty r hr

/-- **A later call** remembers the fields of the keys that stay, and of the keys that go away what is not listed. -/
theorem remembers_later {len : String → κ → Nat} {self self' : WrapNumbers κ} (h : self.WF len) {old input out : Dict κ (List Int)}
    {name : String} (hin : ∀ k u, input.get? k = some u → u.length = len name k) (hc : self.cache.get? name = some old)
    (hrun : self.run input name = .ok (out, self')) (r : κ × Nat) :
    self'.Remembers name r ↔ (r.1 ∈ old ∧ ∃ u, input.get? r.1 = some u ∧ r.2 < u.length) ∨
      (self.Remembers name r ∧ ¬(r.1 ∉ input ∧ self.Lists name r)) := by
  obtain ⟨rems, keys, hr, hk, hinv, halive, hlens⟩ := (h name).of_cache hc
  obtain ⟨st₁, out', st₂, hf, hkeys, -⟩ := later_spec hinv halive fun k t u ht hu => (hin k u hu).trans (hlens k t ht).symm
  rw [run_eq hc hr hk hf hkeys] at hrun
  cases hrun
  have hold : self.Remembers name r ↔ r ∈ rems := by simp [Remembers, hr]
  have hlist : self.Lists name r ↔ NameState.Listed ⟨rems, keys⟩ r := by simp [Lists, hk, NameState.Listed]
  have hnew : Remembers ⟨self.cache.set name input, (self.reminders.set name st₁.reminders).set name st₂.reminders,
      (self.reminderKeys.set name st₁.reminderKeys).set name st₂.reminderKeys⟩ name r ↔ r ∈ st₂.reminders := by
    simp [Remembers]
  rw [hnew, hold, hlist, runKeys_mem _ hkeys, NameState.forgetKeys_mem _ hinv hf]
  simp only [Dict.mem_items]
  -- what is listed is a key of the last input, so it goes away exactly if it is not in this one
  have hgone : (r.1 ∈ goneKeys old input ∧ NameState.Listed ⟨rems, keys⟩ r) ↔
      (r.1 ∉ input ∧ NameState.Listed ⟨rems, keys⟩ r) := by
    apply and_congr_left
    intro hl
    have hmem : r.1 ∈ old := by
      by_contra hno
      have hnone : keys.get? r.1 = none := Dict.get?_eq_none.2 fun hm => hno (halive _ hm)
      simp [NameState.Listed, hnone] at hl
    simp [goneKeys, ← Dict.mem_def, hmem]
  rw [hgone]

end WrapNumbers

/-! ## What is held -/

open WrapNumbers

/-- `(key, i)` for every field of an input. -/
def fieldsOf (input : Dict κ (List Int)) : List (κ × Nat) := input.items.flatMap fun p => (List.range p.2.length).map (p.1, ·)

omit [DecidableEq κ] in
theorem mem_fieldsOf {input : Dict κ (List Int)} {r : κ × Nat} :
    r ∈ fieldsOf input ↔ ∃ u, (r.1, u) ∈ input.items ∧ r.2 < u.length := by
  simp only [fieldsOf, List.mem_flatMap, List.mem_map, List.mem_range]
  constructor
  · rintro ⟨⟨k, u⟩, hm, i, hi, rfl⟩
    exact ⟨u, hm, hi⟩
  · rintro ⟨u, hm, hi⟩
    exact ⟨(r.1, u), hm, r.2, hi, rfl⟩

/-- The entries of the two inner dictionaries, and of the sets of the second one. -/
def NameState.size (st : NameState κ) : Nat :=
  st.reminders.keys.length + st.reminderKeys.keys.length + (st.reminderKeys.items.flatMap Prod.snd).length

/-- The dictionaries of a name hold nothing but what belongs to the last of its inputs. -/
structure Bounded (ins : List (Dict κ (List Int))) (name : String) (wn : WrapNumbers κ) : Prop where
  reminders : ∀ rems, wn.reminders.get? name = some rems → ∀ r ∈ rems, ∃ input, ins.getLast? = some input ∧ r.1 ∈ input
  reminderKeys : ∀ keys, wn.reminderKeys.get? name = some keys → ∀ k ∈ keys, ∃ input, ins.getLast? = some input ∧ k ∈ input
  size : ∀ rems keys, wn.reminders.get? name = some rems → wn.reminderKeys.get? name = some keys →
    ∃ input, ins.getLast? = some input ∧ NameState.size ⟨rems, keys⟩ ≤ 2 * (fieldsOf input).length + input.keys.length

/-- A key that goes away has all its entries listed in `reminder_keys`. -/
def DropsListed (l : Line (WrapNumbers κ) (WrapOp κ) (Except Exc (Option (Dict κ (List Int))))) : Prop :=
  match l.ev with
  | .run input name => ∀ r, l.pre.Remembers name r → r.1 ∉ input → l.pre.Lists name r
  | .cacheClear _ => True

/-- What is remembered are fields of the cached input. -/
def Tight (len : String → κ → Nat) (wn : WrapNumbers κ) : Prop :=
  ∀ name r, wn.Remembers name r → ∃ input, wn.cache.get? name = some input ∧ r.1 ∈ input ∧ r.2 < len name r.1

omit [DecidableEq κ] in
theorem tight_init (len : String → κ → Nat) : Tight len (.init : WrapNumbers κ) := by
  rintro name r ⟨rems, hrems, -⟩
  cases hrems

/-- A call that does not raise, whatever it does. -/
theorem WrapNumbers.WF.step {len : String → κ → Nat} {wn : WrapNumbers κ} (h : wn.WF len) {op : WrapOp κ} (hf : op.Fits len) :
    (wrapMachine.step wn op).1.WF len := by
  cases op with
  | run input name =>
    obtain ⟨out, wn', hrun, hok⟩ := run_spec h fun k u hu => hf.length_eq hu
    rw [step_run hrun]
    exact hok.wf
  | cacheClear name => exact cacheClear_wf h name

/-- **What one call keeps**, if the keys that go away are listed. -/
theorem Tight.step {len : String → κ → Nat} {wn : WrapNumbers κ} (ht : Tight len wn) (h : wn.WF len) {op : WrapOp κ}
    (hf : op.Fits len) (hd : DropsListed ⟨wn, op, (wrapMachine.step wn op).2⟩) : Tight len (wrapMachine.step wn op).1 := by
  intro name r hr
  cases op with
  | run input name' =>
    have hin : ∀ k u, input.get? k = some u → u.length = len name' k := fun k u hu => hf.length_eq hu
    obtain ⟨out, wn', hrun, hok⟩ := run_spec h hin
    rw [step_run hrun] at hr ⊢
    by_cases hn : name = name'
    · subst hn
      refine ⟨input, hok.cache, ?_⟩
      cases hc : wn.cache.get? name with
      | none => exact absurd hr (not_remembers_first h hc hrun r)
      | some old =>
        rcases (remembers_later h hin hc hrun r).1 hr with ⟨-, u, hu, hlt⟩ | ⟨hold, hnot⟩
        · exact ⟨Dict.mem_of_get? hu, hin _ u hu ▸ hlt⟩
        · have hmem : r.1 ∈ input := by
            by_contra hni
            exact hnot ⟨hni, hd r hold hni⟩
          obtain ⟨-, -, -, hlt⟩ := ht name r hold
          exact ⟨hmem, hlt⟩
    · obtain ⟨hcache, -⟩ := hok.same name hn
      rw [hcache]
      exact ht name r ((remembers_of_same (hok.same name hn) r).1 hr)
  | cacheClear n =>
    cases n with
    | none => exact absurd hr fun ⟨rems, hrems, _⟩ => by cases hrems
    | some name' =>
      by_cases hn : name = name'
      · subst hn
        obtain ⟨rems, hrems, -⟩ := hr
        simp [cacheClear, Dict.get?_erase] at hrems
      · have hsame : wn.SameName (wrapMachine.step wn (.cacheClear (some name'))).1 name := sameName_cacheClear hn
        rw [hsame.1]
        exact ht name r ((remembers_of_same hsame r).1 hr)

/-- A call after which nothing is held of the keys that went away had them all listed. -/
theorem dropsListed_of_bounded {len : String → κ → Nat} {wn : WrapNumbers κ} (h : wn.WF len) {op : WrapOp κ}
    (hf : op.Fits len) (hb : ∀ input name, op = .run input name → ∀ r, (wrapMachine.step wn op).1.Remembers name r → r.1 ∈ input)
    {o : Except Exc (Option (Dict κ (List Int)))} : DropsListed ⟨wn, op, o⟩ := by
  cases op with
  | run input name =>
    intro r hr hni
    have hin : ∀ k u, input.get? k = some u → u.length = len name k := fun k u hu => hf.length_eq hu
    obtain ⟨out, wn', hrun, -⟩ := run_spec h hin
    have hb' := hb input name rfl
    rw [step_run hrun] at hb'
    obtain ⟨old, hc⟩ : ∃ old, wn.cache.get? name = some old := by
      obtain ⟨rems, hrems, -⟩ := hr
      have he := h name
      unfold Entry at he
      rw [hrems] at he
      cases hc : wn.cache.get? name with
      | none => simp [hc] at he
      | some old => exact ⟨old, rfl⟩
    by_contra hnl
    exact hni (hb' r ((remembers_later h hin hc hrun r).2 (Or.inr ⟨hr, fun hl => hnl hl.2⟩)))
  | cacheClear n => trivial

/-- What is cached is the last of the inputs. -/
theorem cache_last {len : String → κ → Nat} {ops : List (WrapOp κ)} (hf : ∀ op ∈ ops, op.Fits len) :
    (wrapMachine.run .init ops).WF len ∧ ∀ name input, (wrapMachine.run .init ops).cache.get? name = some input →
      (inputsOf name ops).getLast? = some input := by
  induction ops using List.reverseRecOn with
  | nil => exact ⟨wf_init len, by simp [Machine.run, WrapNumbers.init]⟩
  | append_singleton ops op ih =>
    rw [List.forall_mem_append, List.forall_mem_singleton] at hf
    obtain ⟨hwf, hlast⟩ := ih hf.1
    rw [Machine.run_append]
    refine ⟨hwf.step hf.2, fun name input hc => ?_⟩
    rw [inputsOf_append]
    cases op with
    | run input' name' =>
      obtain ⟨out, wn', hrun, hok⟩ := run_spec hwf fun k u hu => hf.2.length_eq hu
      rw [Machine.run_cons, step_run hrun] at hc
      by_cases hn : name = name'
      · subst hn
        obtain rfl : input' = input := Option.some.inj (hok.cache.symm.trans hc)
        simp [inputsOf]
      · have hsame := hlast name input ((hok.same name hn).1.symm.trans hc)
        simpa [inputsOf, Ne.symm hn] using hsame
    | cacheClear n =>
      rw [Machine.run_cons, step_cacheClear] at hc
      have hsame : (wrapMachine.run .init ops).cache.get? name = some input := by
        cases n with
        | none => cases hc
        | some name' =>
          simp only [Machine.run, cacheClear, Dict.get?_erase] at hc
          split at hc
          · cases hc
          · exact hc
      simpa [inputsOf] using hlast name input hsame

/-! ## How much that is -/

/-- The sets of `reminder_keys` are disjoint parts of the reminders. -/
theorem NameState.Inv.nodup_listed {st : NameState κ} (h : st.Inv) : (st.reminderKeys.items.flatMap Prod.snd).Nodup := by
  have hlist : ∀ p ∈ st.reminderKeys.items, p.2.Nodup ∧ ∀ r ∈ p.2, r.1 = p.1 ∧ r ∈ st.reminders :=
    fun p hp => h.listed p.1 p.2 (Dict.mem_items.1 hp)
  rw [List.nodup_flatMap]
  constructor
  · exact fun p hp => (hlist p hp).1
  · have hkeys : st.reminderKeys.items.Pairwise fun p q => p.1 ≠ q.1 := List.pairwise_map.1 st.reminderKeys.nodup
    refine hkeys.imp_of_mem fun hp hq hne r hrp hrq => ?_
    exact hne (((hlist _ hp).2 r hrp).1.symm.trans ((hlist _ hq).2 r hrq).1)

theorem NameState.size_le {st : NameState κ} (h : st.Inv) {input : Dict κ (List Int)}
    (hr : ∀ r ∈ st.reminders, r ∈ fieldsOf input) (hk : ∀ k ∈ st.reminderKeys, k ∈ input) :
    st.size ≤ 2 * (fieldsOf input).length + input.keys.length := by
  have hrems : st.reminders.keys.length ≤ (fieldsOf input).length :=
    (List.subperm_of_subset st.reminders.nodup_keys hr).length_le
  have hkeys : st.reminderKeys.keys.length ≤ input.keys.length :=
    (List.subperm_of_subset st.reminderKeys.nodup_keys hk).length_le
  have hlisted : (st.reminderKeys.items.flatMap Prod.snd).length ≤ (fieldsOf input).length := by
    refine (List.subperm_of_subset h.nodup_listed fun r hm => ?_).length_le
    obtain ⟨p, hp, hrp⟩ := List.mem_flatMap.1 hm
    exact hr r ((h.listed p.1 p.2 (Dict.mem_items.1 hp)).2 r hrp).2
  unfold size
  omega

theorem Tight.bounded {len : String → κ → Nat} {wn : WrapNumbers κ} (ht : Tight len wn) (h : wn.WF len) {name : String}
    {ins : List (Dict κ (List Int))} (hlast : ∀ input, wn.cache.get? name = some input → ins.getLast? = some input) :
    Bounded ins name wn := by
  -- a name with reminders is in all three dictionaries
  have hthere : ∀ {rems keys}, wn.reminders.get? name = some rems ∨ wn.reminderKeys.get? name = some keys →
      ∃ old, wn.cache.get? name = some old := by
    intro rems keys hor
    have he := h name
    unfold Entry at he
    cases hc : wn.cache.get? name with
    | some old => exact ⟨old, rfl⟩
    | none =>
      rw [hc] at he
      rcases hor with hr | hk
      · simp [hr] at he
      · simp [hk] at he
  constructor
  · intro rems hr r hm
    obtain ⟨input, hc, hin, -⟩ := ht name r ⟨rems, hr, hm⟩
    exact ⟨input, hlast input hc, hin⟩
  · intro keys hk k hm
    obtain ⟨old, hc⟩ := @hthere ∅ _ (Or.inr hk)
    obtain ⟨_, keys', -, hk', -, halive, -⟩ := (h name).of_cache hc
    obtain rfl : keys' = keys := Option.some.inj (hk'.symm.trans hk)
    exact ⟨old, hlast old hc, halive k hm⟩
  · intro rems keys hr hk
    obtain ⟨old, hc⟩ := @hthere _ keys (Or.inl hr)
    obtain ⟨rems', keys', hr', hk', hinv, halive, hlens⟩ := (h name).of_cache hc
    obtain rfl : rems' = rems := Option.some.inj (hr'.symm.trans hr)
    obtain rfl : keys' = keys := Option.some.inj (hk'.symm.trans hk)
    refine ⟨old, hlast old hc, NameState.size_le hinv (fun r hm => ?_) halive⟩
    obtain ⟨input, hc', hin, hlt⟩ := ht name r ⟨_, hr, hm⟩
    obtain rfl : input = old := Option.some.inj (hc'.symm.trans hc)
    obtain ⟨u, hu⟩ := Dict.mem_iff_get?.1 hin
    exact mem_fieldsOf.2 ⟨u, Dict.mem_items.2 hu, hlens _ u hu ▸ hlt⟩

/-- **What is held belongs to the last input after every call, exactly when** every key that goes away has all its
entries listed. -/
theorem memory_bounded_iff {len : String → κ → Nat} {ops : List (WrapOp κ)} (hf : ∀ op ∈ ops, op.Fits len) :
    (∀ es₁ es₂, ops = es₁ ++ es₂ → ∀ name, Bounded (inputsOf name es₁) name (wrapMachine.run .init es₁)) ↔
      ∀ l ∈ wrapMachine.trace .init ops, DropsListed l := by
  constructor
  · intro hb l hl
    obtain ⟨es₁, es₂, hops, hpre, hout⟩ := (wrapMachine (κ := κ)).mem_trace.1 hl
    obtain ⟨pre, op, out⟩ := l
    obtain rfl : pre = wrapMachine.run .init es₁ := hpre
    rw [hops, List.forall_mem_append, List.forall_mem_cons] at hf
    have hops' : ops = (es₁ ++ [op]) ++ es₂ := by rw [hops, List.append_cons]
    refine dropsListed_of_bounded (cache_last hf.1).1 hf.2.1 ?_
    rintro input name rfl r ⟨rems, hr, hm⟩
    have hrun := hb _ _ hops' name
    rw [Machine.run_append] at hrun
    obtain ⟨input', hlast, hin⟩ := hrun.reminders rems hr r hm
    rw [inputsOf_append] at hlast
    obtain rfl : input = input' := by simpa [inputsOf] using hlast
    exact hin
  · rintro hd es₁ es₂ rfl name
    rw [List.forall_mem_append] at hf
    rw [Machine.trace_append] at hd
    have hC : ∀ l ∈ wrapMachine.trace .init es₁, l.ev.Fits len ∧ DropsListed l := by
      intro l hl
      obtain ⟨as, bs, has, -⟩ := (wrapMachine (κ := κ)).mem_trace.1 hl
      exact ⟨hf.1 l.ev (by simp [has]), hd l (List.mem_append_left _ hl)⟩
    have hstep : ∀ (wn : WrapNumbers κ) op, wn.WF len ∧ Tight len wn →
        op.Fits len ∧ DropsListed ⟨wn, op, (wrapMachine.step wn op).2⟩ →
        (wrapMachine.step wn op).1.WF len ∧ Tight len (wrapMachine.step wn op).1 := by
      intro wn op hs hC
      exact ⟨hs.1.step hC.1, hs.2.step hs.1 hC.1 hC.2⟩
    have hrun := wrapMachine.run_inv_of hstep ⟨wf_init len, tight_init len⟩ hC
    exact hrun.2.bounded hrun.1 ((cache_last hf.1).2 name)

/-- `disk1` is there in two calls and gone in the third one. -/
def changedDisk : List (WrapOp String) := [.run (Dict.update ∅ [("disk1", [1])]) "disk",
  .run (Dict.update ∅ [("disk1", [2])]) "disk", .run (Dict.update ∅ [("disk2", [1])]) "disk"]

/-- Its counter never wrapped, and its reminder stays. -/
theorem memory_keeps_gone_key : ¬∀ (len : String → String → Nat) (ops : List (WrapOp String)), (∀ op ∈ ops, op.Fits len) →
    ∀ es₁ es₂, ops = es₁ ++ es₂ → ∀ name, Bounded (inputsOf name es₁) name (wrapMachine.run .init es₁) := by
  intro h
  have hb := h (fun _ _ => 1) changedDisk (by decide) changedDisk [] rfl "disk"
  obtain ⟨input, hlast, hin⟩ := hb.reminders (Dict.update ∅ [(("disk1", 0), 0)]) rfl ("disk1", 0) (by decide)
  obtain rfl : Dict.update ∅ [("disk2", [1])] = input := Option.some.inj hlast
  exact absurd hin (by decide)

/-- It is forgotten when the counter wrapped before it went away. -/
theorem memory_bounded_wrapped :
    let ops : List (WrapOp String) := [.run (Dict.update ∅ [("disk1", [2])]) "disk",
      .run (Dict.update ∅ [("disk1", [1])]) "disk", .run (Dict.update ∅ [("disk2", [1])]) "disk"]
    ∀ es₁ es₂, ops = es₁ ++ es₂ → ∀ name, Bounded (inputsOf name es₁) name (wrapMachine.run .init es₁) := by
  intro ops
  have hiff := @memory_bounded_iff _ _ (fun _ _ => 1) ops (by decide)
  refine hiff.2 fun l hl => ?_
  simp only [ops, Machine.trace, List.mem_cons, List.not_mem_nil, or_false] at hl
  rcases hl with rfl | rfl | rfl
  · rintro r ⟨rems, hrems, -⟩
    cases hrems
  · rintro r ⟨rems, hrems, hr⟩
    obtain rfl : ∅ = rems := Option.some.inj hrems
    exact absurd hr (Dict.not_mem_empty r)
  · rintro r ⟨rems, hrems, hr⟩ -
    obtain rfl : Dict.update ∅ [(("disk1", 0), 2)] = rems := Option.some.inj hrems
    refine ⟨Dict.update ∅ [("disk1", [("disk1", 0)])], rfl, ?_⟩
    obtain rfl : r = ("disk1", 0) := by simpa [Dict.mem_update] using hr
    decide

end Psutil
