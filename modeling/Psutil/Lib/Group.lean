import Mathlib.Algebra.BigOperators.Group.Finset.Piecewise
import Mathlib.Data.List.Induction
import Mathlib.Tactic.Abel
import Psutil.Lib.Dict

/-!
# Grouping by key

A loop that puts values of one key together in a dictionary. `keys_groupBy`: the keys, in order of first appearance.
`measure_get?_groupBy` and `sum_groupBy`: a measure that turns `op` into a sum has the sum of a group for the group, and
the sum of all for all groups.
-/

namespace Lib

variable {κ ν : Type} [DecidableEq κ] (op : ν → ν → ν)

/-- `d[k] = op(d[k], v)`, or `d[k] = v` for a new key. -/
def addTo (d : Dict κ ν) (p : κ × ν) : Dict κ ν :=
  d.set p.1 (match d.get? p.1 with
    | some v => op v p.2
    | none => p.2)

def groupBy (l : List (κ × ν)) : Dict κ ν := l.foldl (addTo op) ∅

theorem groupBy_append (l : List (κ × ν)) (p : κ × ν) : groupBy op (l ++ [p]) = addTo op (groupBy op l) p := by
  rw [groupBy, List.foldl_append]
  rfl

theorem keys_set (d : Dict κ ν) (k : κ) (v : ν) : (d.set k v).keys = if k ∈ d.keys then d.keys else d.keys ++ [k] :=
  Dict.keys_setItems k v d.items

theorem sum_set {M : Type} [AddCommMonoid M] (f : ν → M) (d : Dict κ ν) (k : κ) (v : ν) :
    ((d.set k v).items.map fun p => f p.2).sum + (d.get? k).elim 0 f = (d.items.map fun p => f p.2).sum + f v := by
  have hitems : ∀ l : List (κ × ν), ((Dict.setItems k v l).map fun p => f p.2).sum + (l.lookup k).elim 0 f =
      (l.map fun p => f p.2).sum + f v := by
    intro l
    induction l with
    | nil => simp [Dict.setItems]
    | cons p l ih =>
      rw [Dict.setItems, Dict.lookup_cons]
      by_cases hk : p.1 = k
      · rw [if_pos hk, if_pos hk.symm]
        simp only [List.map_cons, List.sum_cons, Option.elim_some]
        abel
      · rw [if_neg hk, if_neg (Ne.symm hk), List.map_cons, List.sum_cons, List.map_cons, List.sum_cons, add_assoc, ih, add_assoc]
  exact hitems d.items

/-- **Every key once**, in order of first appearance. -/
theorem keys_groupBy [BEq κ] [LawfulBEq κ] (l : List (κ × ν)) : (groupBy op l).keys = (l.map Prod.fst).eraseDups := by
  induction l using List.reverseRecOn with
  | nil => rfl
  | append_singleton l p ih =>
    rw [groupBy_append, addTo, keys_set, ih, List.map_append, List.eraseDups_append]
    simp only [List.mem_eraseDups]
    split_ifs with h
    · simp [List.removeAll, h]
    · simp [List.removeAll, h, List.eraseDups_cons]

section

variable {op} {valid : ν → Prop} (hop : ∀ v w, valid v → valid w → valid (op v w))

include hop

/-- What holds of the values, and is kept by `op`, holds of the groups. -/
theorem valid_get?_groupBy {l : List (κ × ν)} (hl : ∀ p ∈ l, valid p.2) : ∀ k v, (groupBy op l).get? k = some v → valid v := by
  induction l using List.reverseRecOn with
  | nil => simp [groupBy]
  | append_singleton l p ih =>
    have hp := hl p (by simp)
    have ih := ih fun q hq => hl q (by simp [hq])
    intro k v h
    rw [groupBy_append, addTo, Dict.get?_set] at h
    split_ifs at h with hk
    · obtain rfl := Option.some.inj h
      cases hget : (groupBy op l).get? p.1 with
      | none => exact hp
      | some w => exact hop w p.2 (ih p.1 w hget) hp
    · exact ih k v h

variable {M : Type} [AddCancelCommMonoid M] {f : ν → M} (hf : ∀ v w, valid v → valid w → f (op v w) = f v + f w)

include hf

/-- **The measure of a group** is the sum over its values. -/
theorem measure_get?_groupBy {l : List (κ × ν)} (hl : ∀ p ∈ l, valid p.2) (k : κ) :
    ((groupBy op l).get? k).elim 0 f = ((l.filter fun p => p.1 = k).map fun p => f p.2).sum := by
  induction l using List.reverseRecOn with
  | nil => rfl
  | append_singleton l p ih =>
    have hp := hl p (by simp)
    have hl' : ∀ q ∈ l, valid q.2 := fun q hq => hl q (by simp [hq])
    have ih := ih hl'
    rw [groupBy_append, addTo, Dict.get?_set, List.filter_append, List.map_append, List.sum_append, ← ih]
    by_cases hk : k = p.1
    · subst hk
      cases hget : (groupBy op l).get? p.1 with
      | none => simp
      | some v => simp [hf v p.2 (valid_get?_groupBy hop hl' p.1 v hget) hp]
    · simp [hk, Ne.symm hk]

/-- **The sum over the groups** is the sum over all values. -/
theorem sum_groupBy {l : List (κ × ν)} (hl : ∀ p ∈ l, valid p.2) :
    ((groupBy op l).items.map fun p => f p.2).sum = (l.map fun p => f p.2).sum := by
  induction l using List.reverseRecOn with
  | nil => rfl
  | append_singleton l p ih =>
    have hp := hl p (by simp)
    have hl' : ∀ q ∈ l, valid q.2 := fun q hq => hl q (by simp [hq])
    have hset := sum_set f (groupBy op l) p.1 (match (groupBy op l).get? p.1 with
      | some v => op v p.2
      | none => p.2)
    rw [ih hl'] at hset
    rw [groupBy_append, addTo, List.map_append, List.sum_append]
    cases hget : (groupBy op l).get? p.1 with
    | none =>
      rw [hget] at hset
      simpa using hset
    | some v =>
      rw [hget] at hset
      simp only [Option.elim_some, hf v p.2 (valid_get?_groupBy hop hl' p.1 v hget) hp] at hset
      rw [add_comm (f v), ← add_assoc] at hset
      simpa using add_right_cancel hset

end

/-! ## Lists of values -/

/-- `d[k].append(v)`, of a dictionary whose default is the empty list. -/
def collect (l : List (κ × ν)) : Dict κ (List ν) := groupBy (· ++ ·) (l.map fun p => (p.1, [p.2]))

theorem collect_append (l : List (κ × ν)) (p : κ × ν) : collect (l ++ [p]) =
    (collect l).set p.1 (((collect l).get? p.1).getD [] ++ [p.2]) := by
  rw [collect, List.map_append, List.map_singleton, groupBy_append, ← collect, addTo]
  cases (collect l).get? p.1 <;> rfl

theorem getD_collect (l : List (κ × ν)) (k : κ) : ((collect l).get? k).getD [] = (l.filter fun p => p.1 = k).map Prod.snd := by
  induction l using List.reverseRecOn with
  | nil => rfl
  | append_singleton l p ih =>
    rw [List.filter_append, List.map_append, ← ih, collect_append, Dict.get?_set]
    by_cases hk : k = p.1
    · rw [if_pos hk, ← hk]
      simp [hk]
    · rw [if_neg hk]
      simp [Ne.symm hk]

theorem mem_collect {l : List (κ × ν)} {k : κ} : k ∈ collect l ↔ ∃ p ∈ l, p.1 = k := by
  show k ∈ (collect l).keys ↔ _
  rw [collect, keys_groupBy, List.mem_eraseDups, List.map_map, List.mem_map]
  rfl

/-- A dictionary of lists has every value in its place. -/
theorem collect_inj : ∀ {l l' : List (κ × ν)}, l.map Prod.fst = l'.map Prod.fst → collect l = collect l' → l = l' := by
  suffices h : ∀ {l l' : List (κ × ν)}, l.map Prod.fst = l'.map Prod.fst →
      (∀ k, (l.filter fun p => p.1 = k).map Prod.snd = (l'.filter fun p => p.1 = k).map Prod.snd) → l = l' by
    intro l l' hkeys hcollect
    refine h hkeys fun k => ?_
    rw [← getD_collect, ← getD_collect, hcollect]
  intro l
  induction l with
  | nil =>
    intro l' hkeys _
    exact (List.map_eq_nil_iff.1 hkeys.symm).symm
  | cons p l ih =>
    intro l' hkeys hvalues
    cases l' with
    | nil => cases hkeys
    | cons p' l' =>
      obtain ⟨hkey, hkeys⟩ := List.cons.inj hkeys
      have hhead := hvalues p.1
      rw [List.filter_cons_of_pos (by simp), List.filter_cons_of_pos (by simp [hkey]), List.map_cons, List.map_cons, List.cons.injEq] at hhead
      rw [Prod.ext hkey hhead.1, ih hkeys fun k => ?_]
      by_cases hk : p.1 = k
      · exact hk ▸ hhead.2
      · have hrest := hvalues k
        rwa [List.filter_cons_of_neg (by simpa using hk), List.filter_cons_of_neg (by simpa [← hkey] using hk)] at hrest

theorem mapVal_collect {μ : Type} (f : ν → μ) (l : List (κ × ν)) :
    (collect l).mapVal (fun _ vs => vs.map f) = collect (l.map fun p => (p.1, f p.2)) := by
  induction l using List.reverseRecOn with
  | nil => rfl
  | append_singleton l p ih =>
    have hvalues : ((collect (l.map fun p => (p.1, f p.2))).get? p.1).getD [] = (((collect l).get? p.1).getD []).map f := by
      rw [← ih, Dict.get?_mapVal]
      cases (collect l).get? p.1 <;> rfl
    rw [collect_append, Dict.mapVal_set, ih, List.map_append (f := fun p : κ × ν => (p.1, f p.2)), List.map_singleton, collect_append, hvalues,
      List.map_append, List.map_singleton]

/-- What holds of all values in the dictionary holds of all values that were put there. -/
theorem forall_collect_iff {P : ν → Prop} (l : List (κ × ν)) : (∀ p ∈ (collect l).items, ∀ v ∈ p.2, P v) ↔ ∀ p ∈ l, P p.2 := by
  have hvalues : ∀ k v, v ∈ ((collect l).get? k).getD [] ↔ (k, v) ∈ l := by
    intro k v
    rw [getD_collect]
    simp
  constructor
  · intro h p hp
    have hmem := (hvalues p.1 p.2).2 hp
    cases hget : (collect l).get? p.1 with
    | none =>
      rw [hget] at hmem
      cases hmem
    | some vs =>
      rw [hget] at hmem
      exact h (p.1, vs) (Dict.mem_items.2 hget) p.2 hmem
  · intro h p hp v hv
    refine h (p.1, v) ((hvalues p.1 v).1 ?_)
    rwa [Dict.mem_items.1 hp]

/-! ## Sums over keys -/

/-- The values of the keys of a kind, summed over any set of keys of the kind that has them all. -/
theorem sum_filter_items {M : Type} [AddCommMonoid M] {sel : κ → Bool} {S : Finset κ} (hsel : ∀ k ∈ S, sel k = true) (d : Dict κ M)
    (hS : ∀ k ∈ d, sel k = true → k ∈ S) : ((d.items.filter fun p => sel p.1).map Prod.snd).sum = ∑ k ∈ S, (d.get? k).getD 0 := by
  obtain ⟨items, hnd⟩ := d
  induction items with
  | nil => simp [Dict.get?]
  | cons p items ih =>
    have htail := List.nodup_cons.1 hnd
    have hlater : (Dict.mk items htail.2).get? p.1 = none := Dict.get?_eq_none.2 htail.1
    have hhead : ∀ k, ((Dict.mk (p :: items) hnd).get? k).getD 0 = (if k = p.1 then p.2 else 0) + ((Dict.mk items htail.2).get? k).getD 0 := by
      intro k
      rw [Dict.get?_mk_cons]
      split_ifs with hk
      · simp [hk, hlater]
      · simp
    rw [Finset.sum_congr rfl fun k _ => hhead k, Finset.sum_add_distrib, Finset.sum_ite_eq',
      ← ih htail.2 fun k hk => hS k (List.mem_cons_of_mem _ hk)]
    cases hp : sel p.1 with
    | true => simp [hp, hS p.1 List.mem_cons_self hp]
    | false =>
      have hnot : p.1 ∉ S := fun h => by simp [hsel p.1 h] at hp
      simp [hp, hnot]

end Lib
