import Psutil.Lib.Search

/-!
# Walks through a forest with decisions

The walk pops a node, and decides for each of its children whether it is taken; a child that is taken is reported and
pushed. A decision may depend on how many have been made before, as one does that reads a clock. In a forest a child that
one walk has taken and another has not is met in no other place, so that the two report different nodes: `walk_eq_iff` says
that a walk reports what the walk with fixed decisions does exactly if it has decided as that one does each time.
-/

namespace Lib

variable {α : Type}

/-- `P` holds of the elements of the list, which are counted from a number. -/
def Along (P : Nat → α → Prop) : Nat → List α → Prop
  | _, [] => True
  | n, a :: l => P n a ∧ Along P (n + 1) l

theorem along_append {P : Nat → α → Prop} : ∀ {n : Nat} {l l' : List α},
    Along P n (l ++ l') ↔ Along P n l ∧ Along P (n + l.length) l'
  | n, [], l' => by simp [Along]
  | n, a :: l, l' => by
    have harith : n + 1 + l.length = n + (l.length + 1) := by omega
    simp only [List.cons_append, Along, along_append, List.length_cons, harith, and_assoc]

theorem along_of_forall {P : Nat → α → Prop} : ∀ {n : Nat} {l : List α}, (∀ i a, n ≤ i → i < n + l.length → P i a) → Along P n l
  | _, [], _ => trivial
  | n, a :: l, h => by
    rw [List.length_cons] at h
    exact ⟨h n a (by omega) (by omega), along_of_forall fun i b hi hi' => h i b (by omega) (by omega)⟩

/-! ## The children that are taken -/

def pick (dec : Nat → α → Bool) : Nat → List α → List α
  | _, [] => []
  | n, a :: l => if dec n a then a :: pick dec (n + 1) l else pick dec (n + 1) l

theorem mem_pick_cons {dec : Nat → α → Bool} {n : Nat} {a c : α} {l : List α} :
    c ∈ pick dec n (a :: l) ↔ c = a ∧ dec n a = true ∨ c ∈ pick dec (n + 1) l := by
  rw [pick]
  by_cases h : dec n a = true
  · simp [h]
  · simp [h]

theorem mem_of_mem_pick {dec : Nat → α → Bool} {c : α} : ∀ {n : Nat} {l : List α}, c ∈ pick dec n l → c ∈ l
  | _, [], h => h
  | n, a :: l, h => by
    rcases mem_pick_cons.1 h with ⟨rfl, -⟩ | h
    · exact List.mem_cons_self
    · exact List.mem_cons_of_mem a (mem_of_mem_pick h)

theorem length_pick_le (dec : Nat → α → Bool) : ∀ (n : Nat) (l : List α), (pick dec n l).length ≤ l.length
  | _, [] => Nat.le_refl _
  | n, a :: l => by
    have ih := length_pick_le dec (n + 1) l
    unfold pick
    split
    · simpa using ih
    · rw [List.length_cons]
      omega

theorem pick_congr {dec dec' : Nat → α → Bool} : ∀ {n : Nat} {l : List α},
    Along (fun i a => dec i a = dec' i a) n l → pick dec n l = pick dec' n l
  | _, [], _ => rfl
  | n, a :: l, h => by rw [pick, pick, h.1, pick_congr h.2]

/-- What is taken shows every decision. -/
theorem along_of_mem_pick_iff {dec dec' : Nat → α → Bool} : ∀ {n : Nat} {l : List α}, l.Nodup →
    (∀ c ∈ l, c ∈ pick dec n l ↔ c ∈ pick dec' n l) → Along (fun i a => dec i a = dec' i a) n l
  | _, [], _, _ => trivial
  | n, a :: l, hnd, h => by
    obtain ⟨ha, hl⟩ := List.nodup_cons.1 hnd
    have hfirst : ∀ d : Nat → α → Bool, a ∈ pick d n (a :: l) ↔ d n a = true := by
      intro d
      have hno : a ∉ pick d (n + 1) l := fun hmem => ha (mem_of_mem_pick hmem)
      rw [mem_pick_cons, or_iff_left hno, eq_self, true_and]
    have hrest : ∀ c ∈ l, ∀ d : Nat → α → Bool, c ∈ pick d n (a :: l) ↔ c ∈ pick d (n + 1) l := by
      intro c hc d
      have hne : c ≠ a := ne_of_mem_of_not_mem hc ha
      rw [mem_pick_cons, or_iff_right fun heq => hne heq.1]
    constructor
    · exact Bool.eq_iff_iff.2 ((hfirst dec).symm.trans ((h a List.mem_cons_self).trans (hfirst dec')))
    · refine along_of_mem_pick_iff hl fun c hc => ?_
      rw [← hrest c hc dec, ← hrest c hc dec']
      exact h c (List.mem_cons_of_mem a hc)

theorem pick_eq_iff {dec dec' : Nat → α → Bool} {n : Nat} {l : List α} (hl : l.Nodup) :
    pick dec n l = pick dec' n l ↔ Along (fun i a => dec i a = dec' i a) n l :=
  ⟨fun h => along_of_mem_pick_iff hl fun c _ => by rw [h], pick_congr⟩

theorem pick_const (keep : α → Bool) : ∀ (n : Nat) (l : List α), pick (fun _ => keep) n l = l.filter keep
  | _, [] => rfl
  | n, a :: l => by rw [pick, pick_const keep (n + 1) l, List.filter_cons]

/-! ## The walk -/

/-- Two nodes share no child. -/
structure Forest (kids : α → List α) : Prop where
  nodup : ∀ a, (kids a).Nodup
  unique : ∀ {a b c}, c ∈ kids a → c ∈ kids b → a = b

section

variable {kids : α → List α}

/-- What has been reported are children of nodes that have been expanded. -/
def Reported (kids : α → List α) (seen ret : List α) : Prop := ∀ c ∈ ret, ∃ a ∈ seen, c ∈ kids a

theorem Reported.notMem {seen ret : List α} {a c : α} (h : Reported kids seen ret) (hk : Forest kids) (ha : a ∉ seen)
    (hc : c ∈ kids a) : c ∉ ret := by
  intro hmem
  obtain ⟨b, hb, hcb⟩ := h c hmem
  exact ha (hk.unique hc hcb ▸ hb)

theorem Reported.expand {seen ret taken : List α} {a : α} (h : Reported kids seen ret) (htaken : ∀ c ∈ taken, c ∈ kids a) :
    Reported kids (a :: seen) (ret ++ taken) := by
  intro c hc
  rcases List.mem_append.1 hc with hc | hc
  · obtain ⟨b, hb, hcb⟩ := h c hc
    exact ⟨b, List.mem_cons_of_mem a hb, hcb⟩
  · exact ⟨a, List.mem_cons_self, htaken c hc⟩

end

variable [DecidableEq α]

/-- `n` decisions have been made; the result is what was reported, and the number of decisions at the end. -/
def walk (kids : α → List α) (dec : Nat → α → Bool) : Nat → Nat → List α → List α → List α → Option (List α × Nat)
  | 0, _, _, _, _ => none
  | _ + 1, n, _, [], ret => some (ret, n)
  | fuel + 1, n, seen, a :: stack, ret =>
    if a ∈ seen then walk kids dec fuel n seen stack ret
    else walk kids dec fuel (n + (kids a).length) (a :: seen) ((pick dec n (kids a)).reverse ++ stack)
      (ret ++ pick dec n (kids a))

/-- The nodes about which a decision is made, in the order of the decisions. -/
def asked (kids : α → List α) (keep : α → Bool) : Nat → List α → List α → List α
  | 0, _, _ => []
  | _ + 1, _, [] => []
  | fuel + 1, seen, a :: stack =>
    if a ∈ seen then asked kids keep fuel seen stack
    else kids a ++ asked kids keep fuel (a :: seen) (((kids a).filter keep).reverse ++ stack)

variable {kids : α → List α} {dec : Nat → α → Bool} {keep : α → Bool}

/-- Each turn pops one node, and what a node pushes it pushes once. -/
theorem walk_isSome {U : Finset α} (hU : ∀ a ∈ U, ∀ b ∈ kids a, b ∈ U) (fuel : Nat) :
    ∀ {n : Nat} {seen stack ret : List α}, (∀ a ∈ stack, a ∈ U) → stack.length + unseen kids U seen < fuel →
    ∃ answer, walk kids dec fuel n seen stack ret = some answer := by
  induction fuel with
  | zero => intro n seen stack ret _ hf; omega
  | succ fuel ih =>
    intro n seen stack ret hstack hf
    cases stack with
    | nil => exact ⟨(ret, n), rfl⟩
    | cons a stack =>
      have ha : a ∈ U := hstack a List.mem_cons_self
      have hrest : ∀ b ∈ stack, b ∈ U := fun b hb => hstack b (List.mem_cons_of_mem a hb)
      rw [List.length_cons] at hf
      unfold walk
      split
      · exact ih hrest (by omega)
      · rename_i hno
        have hlen := length_pick_le dec n (kids a)
        refine ih (fun b hb => ?_) ?_
        · rcases List.mem_append.1 hb with hb | hb
          · exact hU a ha b (mem_of_mem_pick (List.mem_reverse.1 hb))
          · exact hrest b hb
        · rw [unseen_cons ha hno] at hf
          rw [List.length_append, List.length_reverse]
          omega

/-- A node is the child of one node only, so no more are pushed than there are. -/
theorem unseen_le_length (hk : Forest kids) {V : List α} (hV : ∀ a, ∀ b ∈ kids a, b ∈ V) (U : Finset α) (seen : List α) :
    unseen kids U seen ≤ V.length := by
  have hcard : ∀ a, (kids a).length = (kids a).toFinset.card := fun a => (List.toFinset_card_of_nodup (hk.nodup a)).symm
  have hdisjoint : ∀ a ∈ U.filter (· ∉ seen), ∀ b ∈ U.filter (· ∉ seen), a ≠ b →
      Disjoint (kids a).toFinset (kids b).toFinset := by
    intro a _ b _ hne
    refine Finset.disjoint_left.2 fun c hc hc' => hne ?_
    exact hk.unique (List.mem_toFinset.1 hc) (List.mem_toFinset.1 hc')
  have hsub : (U.filter (· ∉ seen)).biUnion (fun a => (kids a).toFinset) ⊆ V.toFinset := by
    intro c hc
    obtain ⟨a, -, hca⟩ := Finset.mem_biUnion.1 hc
    exact List.mem_toFinset.2 (hV a c (List.mem_toFinset.1 hca))
  calc unseen kids U seen = ∑ a ∈ U.filter (· ∉ seen), (kids a).toFinset.card := Finset.sum_congr rfl fun a _ => hcard a
    _ = ((U.filter (· ∉ seen)).biUnion fun a => (kids a).toFinset).card := (Finset.card_biUnion hdisjoint).symm
    _ ≤ V.toFinset.card := Finset.card_le_card hsub
    _ ≤ V.length := List.toFinset_card_le V

/-- **The walk ends**, whatever is decided. -/
theorem walk_ends (hk : Forest kids) {V : List α} (hV : ∀ a, ∀ b ∈ kids a, b ∈ V) {fuel : Nat} (hfuel : V.length + 2 ≤ fuel)
    (dec : Nat → α → Bool) (n : Nat) (start : α) : ∃ answer, walk kids dec fuel n [] [start] [] = some answer := by
  have hU : ∀ a ∈ insert start V.toFinset, ∀ b ∈ kids a, b ∈ insert start V.toFinset :=
    fun a _ b hb => Finset.mem_insert_of_mem (List.mem_toFinset.2 (hV a b hb))
  have hle := unseen_le_length hk hV (insert start V.toFinset) []
  refine walk_isSome hU fuel (by simp) ?_
  rw [List.length_singleton]
  omega

/-- The children of a node that has been expanded are reported before, or never. -/
theorem mem_walk (hk : Forest kids) {a c : α} (hc : c ∈ kids a) (fuel : Nat) : ∀ {n m : Nat} {seen stack ret l : List α},
    walk kids dec fuel n seen stack ret = some (l, m) → a ∈ seen → (c ∈ l ↔ c ∈ ret) := by
  induction fuel with
  | zero => intro n m seen stack ret l h; cases h
  | succ fuel ih =>
    intro n m seen stack ret l h ha
    cases stack with
    | nil =>
      cases h
      rfl
    | cons b stack =>
      unfold walk at h
      split at h
      · exact ih h ha
      · rename_i hb
        have hno : c ∉ pick dec n (kids b) := fun hmem => hb (hk.unique hc (mem_of_mem_pick hmem) ▸ ha)
        rw [ih h (List.mem_cons_of_mem b ha), List.mem_append, or_iff_left hno]

/-- Fixed decisions are asked for one after the other. -/
theorem walk_const_asked (fuel : Nat) : ∀ {n m : Nat} {seen stack ret l : List α},
    walk kids (fun _ => keep) fuel n seen stack ret = some (l, m) → m = n + (asked kids keep fuel seen stack).length := by
  induction fuel with
  | zero => intro n m seen stack ret l h; cases h
  | succ fuel ih =>
    intro n m seen stack ret l h
    cases stack with
    | nil =>
      cases h
      rfl
    | cons a stack =>
      unfold walk at h
      unfold asked
      split at h
      · rename_i ha
        rw [if_pos ha]
        exact ih h
      · rename_i ha
        rw [pick_const] at h
        rw [if_neg ha, List.length_append, ← Nat.add_assoc]
        exact ih h

/-- **The walk reports what the fixed decisions report exactly if** it decides the same each time it is asked; it has then
been asked as often. -/
theorem walk_eq_iff (hk : Forest kids) (fuel : Nat) : ∀ {n m m' : Nat} {seen stack ret l l' : List α},
    walk kids dec fuel n seen stack ret = some (l, m) → walk kids (fun _ => keep) fuel n seen stack ret = some (l', m') →
    Reported kids seen ret →
    (l = l' ↔ Along (fun i a => dec i a = keep a) n (asked kids keep fuel seen stack)) ∧ (l = l' → m = m') := by
  induction fuel with
  | zero => intro n m m' seen stack ret l l' h; cases h
  | succ fuel ih =>
    intro n m m' seen stack ret l l' h h' hret
    cases stack with
    | nil =>
      cases h
      cases h'
      simp [asked, Along]
    | cons a stack =>
      unfold walk at h h'
      unfold asked
      by_cases ha : a ∈ seen
      · rw [if_pos ha] at h h' ⊢
        exact ih h h' hret
      rw [if_neg ha] at h h' ⊢
      rw [along_append, ← pick_eq_iff (hk.nodup a)]
      by_cases hp : pick dec n (kids a) = pick (fun _ => keep) n (kids a)
      · rw [hp] at h
        rw [← pick_const keep n, eq_true hp, true_and]
        exact ih h h' (hret.expand fun c hc => mem_of_mem_pick hc)
      · -- a child about which the two walks disagree is in one of the results only
        have hne : l ≠ l' := by
          rintro rfl
          refine hp (pick_congr (along_of_mem_pick_iff (hk.nodup a) fun c hc => ?_))
          have hnew := hret.notMem hk ha hc
          have hmem := mem_walk hk hc fuel h List.mem_cons_self
          have hmem' := mem_walk hk hc fuel h' List.mem_cons_self
          rw [List.mem_append, or_iff_right hnew] at hmem hmem'
          exact hmem.symm.trans hmem'
        simp [hne, hp]

end Lib
