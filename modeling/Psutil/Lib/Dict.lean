import Mathlib.Data.List.Nodup

/-!
# Insertion-ordered dictionaries

A dictionary is the list of its items in insertion order with every key once. Assigning to a key
that is present keeps its place, a new key goes to the end. Reading is stated through `get?`: every
operation below has one equation saying what it does to `get?`, and a proof about dictionaries
rewrites with these and never unfolds an operation.
-/

namespace Lib

/-- Items in insertion order; `nodup` makes two values for one key impossible. -/
structure Dict (κ ν : Type) where
  items : List (κ × ν)
  nodup : (items.map Prod.fst).Nodup
  deriving DecidableEq, Repr

namespace Dict

variable {κ ν μ : Type}

@[ext] theorem ext {d d' : Dict κ ν} (h : d.items = d'.items) : d = d' := by
  cases d; cases d'; cases h; rfl

def keys (d : Dict κ ν) : List κ := d.items.map Prod.fst

def empty : Dict κ ν := ⟨[], List.nodup_nil⟩

instance : EmptyCollection (Dict κ ν) := ⟨empty⟩

instance : Inhabited (Dict κ ν) := ⟨∅⟩

instance : Membership κ (Dict κ ν) := ⟨fun d k => k ∈ d.keys⟩

theorem mem_def {k : κ} {d : Dict κ ν} : k ∈ d ↔ k ∈ d.keys := Iff.rfl

theorem nodup_keys (d : Dict κ ν) : d.keys.Nodup := d.nodup

/-- `not d`: a dictionary is falsy iff it is empty. -/
def isEmpty (d : Dict κ ν) : Bool := d.items.isEmpty

/-- Rewrite every value in place, as a loop that assigns to the keys it iterates over. -/
def mapVal (f : κ → ν → μ) (d : Dict κ ν) : Dict κ μ :=
  ⟨d.items.map fun p => (p.1, f p.1 p.2), by simpa [Function.comp_def] using d.nodup⟩

@[simp] theorem keys_mapVal (f : κ → ν → μ) (d : Dict κ ν) : (d.mapVal f).keys = d.keys := by
  simp [keys, mapVal, Function.comp_def]

@[simp] theorem mem_mapVal {f : κ → ν → μ} {d : Dict κ ν} {k : κ} : k ∈ d.mapVal f ↔ k ∈ d := by
  rw [mem_def, keys_mapVal, mem_def]

theorem mapVal_congr {f g : κ → ν → μ} {d : Dict κ ν} (h : ∀ p ∈ d.items, f p.1 p.2 = g p.1 p.2) :
    d.mapVal f = d.mapVal g := by
  cases d
  simp only [mapVal, mk.injEq]
  exact List.map_congr_left fun p hp => by rw [h p hp]

@[simp] theorem not_mem_empty (k : κ) : k ∉ (∅ : Dict κ ν) := List.not_mem_nil

theorem isEmpty_iff {d : Dict κ ν} : d.isEmpty = true ↔ ∀ k, k ∉ d := by
  unfold isEmpty
  rw [List.isEmpty_iff]
  refine ⟨fun h k => by simp [mem_def, keys, h], fun h => ?_⟩
  cases hd : d.items with
  | nil => rfl
  | cons p l => exact absurd (by simp [mem_def, keys, hd]) (h p.1)

theorem isEmpty_eq_false {d : Dict κ ν} {k : κ} (h : k ∈ d) : d.isEmpty = false := by
  cases he : d.isEmpty with
  | false => rfl
  | true => exact absurd h (isEmpty_iff.1 he k)

variable [DecidableEq κ]

instance (k : κ) (d : Dict κ ν) : Decidable (k ∈ d) := inferInstanceAs (Decidable (k ∈ d.keys))

def get? (d : Dict κ ν) (k : κ) : Option ν := d.items.lookup k

/-! ## Membership and `get?` -/

theorem lookup_cons (k k' : κ) (v : ν) (l : List (κ × ν)) :
    ((k', v) :: l).lookup k = if k = k' then some v else l.lookup k := by
  by_cases e : k = k'
  · simp [e]
  · have hb : (k == k') = false := by simpa using e
    simp [List.lookup_cons, hb, e]

theorem lookup_eq_none_iff' {l : List (κ × ν)} {k : κ} : l.lookup k = none ↔ k ∉ l.map Prod.fst := by
  simp only [List.lookup_eq_none_iff, List.mem_map, not_exists, not_and, bne_iff_ne, ne_eq]
  exact ⟨fun h p hp e => h p hp e.symm, fun h p hp e => h p hp e.symm⟩

theorem get?_eq_none {d : Dict κ ν} {k : κ} : d.get? k = none ↔ k ∉ d := lookup_eq_none_iff'

theorem mem_iff_get? {d : Dict κ ν} {k : κ} : k ∈ d ↔ ∃ v, d.get? k = some v := by
  rw [← Option.isSome_iff_exists, Option.isSome_iff_ne_none, ne_eq, get?_eq_none, not_not]

theorem mem_of_get? {d : Dict κ ν} {k : κ} {v : ν} (h : d.get? k = some v) : k ∈ d :=
  mem_iff_get?.2 ⟨v, h⟩

theorem lookup_of_mem {l : List (κ × ν)} (hl : (l.map Prod.fst).Nodup) {k : κ} {v : ν} :
    (k, v) ∈ l ↔ l.lookup k = some v := by
  induction l with
  | nil => simp
  | cons p l ih =>
    obtain ⟨k', v'⟩ := p
    obtain ⟨hk, hl⟩ := List.nodup_cons.1 hl
    by_cases e : k = k'
    · subst e
      have hno : (k, v) ∉ l := fun hm => hk (List.mem_map.2 ⟨_, hm, rfl⟩)
      simp [hno, eq_comm]
    · simp [lookup_cons, e, ih hl]

theorem mem_items {d : Dict κ ν} {k : κ} {v : ν} : (k, v) ∈ d.items ↔ d.get? k = some v :=
  lookup_of_mem d.nodup

@[simp] theorem get?_empty (k : κ) : (∅ : Dict κ ν).get? k = none := rfl

/-- Without its first item. -/
theorem get?_mk_cons {p : κ × ν} {l : List (κ × ν)} (h : ((p :: l).map Prod.fst).Nodup) (k : κ) :
    (mk (p :: l) h).get? k = if k = p.1 then some p.2 else (mk l (List.nodup_cons.1 h).2).get? k := lookup_cons k p.1 p.2 l

/-! ## Assignment -/

def setItems (k : κ) (v : ν) : List (κ × ν) → List (κ × ν)
  | [] => [(k, v)]
  | (k', v') :: rest => if k' = k then (k, v) :: rest else (k', v') :: setItems k v rest

theorem keys_setItems (k : κ) (v : ν) : ∀ l : List (κ × ν),
    (setItems k v l).map Prod.fst = if k ∈ l.map Prod.fst then l.map Prod.fst else l.map Prod.fst ++ [k]
  | [] => by simp [setItems]
  | (k', v') :: l => by
    by_cases e : k' = k
    · simp [setItems, e]
    · have ih := keys_setItems k v l
      have e' : k ≠ k' := Ne.symm e
      simp only [setItems, e, if_false, List.map_cons, ih, List.mem_cons, e', false_or]
      split <;> rfl

theorem lookup_setItems (k k₁ : κ) (v : ν) : ∀ l : List (κ × ν),
    (setItems k v l).lookup k₁ = if k₁ = k then some v else l.lookup k₁
  | [] => by simp [setItems, lookup_cons]
  | (k', v') :: l => by
    have ih := lookup_setItems k k₁ v l
    by_cases e : k' = k
    · subst e
      by_cases e₁ : k₁ = k' <;> simp [setItems, lookup_cons, e₁]
    · by_cases e₁ : k₁ = k'
      · subst e₁; simp [setItems, e]
      · simp [setItems, e, lookup_cons, e₁, ih]

/-- `d[k] = v`. -/
def set (d : Dict κ ν) (k : κ) (v : ν) : Dict κ ν where
  items := setItems k v d.items
  nodup := by
    rw [keys_setItems]
    split
    · exact d.nodup
    · rename_i hk
      exact List.nodup_append.2 ⟨d.nodup, by simp, fun a ha b hb => by
        rw [List.mem_singleton.1 hb]; rintro rfl; exact hk ha⟩

theorem get?_set (d : Dict κ ν) (k k₁ : κ) (v : ν) :
    (d.set k v).get? k₁ = if k₁ = k then some v else d.get? k₁ := lookup_setItems k k₁ v d.items

@[simp] theorem get?_set_self (d : Dict κ ν) (k : κ) (v : ν) : (d.set k v).get? k = some v := by
  simp [get?_set]

theorem get?_set_ne (d : Dict κ ν) {k k₁ : κ} (v : ν) (h : k₁ ≠ k) :
    (d.set k v).get? k₁ = d.get? k₁ := by simp [get?_set, h]

@[simp] theorem mem_set {d : Dict κ ν} {k k₁ : κ} {v : ν} : k₁ ∈ d.set k v ↔ k₁ = k ∨ k₁ ∈ d := by
  rw [mem_iff_get?, get?_set]
  by_cases e : k₁ = k <;> simp [e, ← mem_iff_get?]

theorem setItems_of_lookup {k : κ} {v : ν} : ∀ {l : List (κ × ν)}, l.lookup k = some v → setItems k v l = l
  | [], h => by cases h
  | (k', v') :: l, h => by
    rw [lookup_cons] at h
    by_cases e : k = k'
    · rw [if_pos e, Option.some.injEq] at h
      rw [setItems, if_pos e.symm, e, h]
    · rw [if_neg e] at h
      rw [setItems, if_neg (Ne.symm e), setItems_of_lookup h]

/-- An assignment of the value that is there changes nothing. -/
theorem set_eq_self {d : Dict κ ν} {k : κ} {v : ν} : d.set k v = d ↔ d.get? k = some v := by
  constructor
  · intro h
    rw [← h, get?_set_self]
  · exact fun h => ext (setItems_of_lookup h)

/-! ## Deletion -/

/-- `d.pop(k, None)`: drop the key if it is there. -/
def erase (d : Dict κ ν) (k : κ) : Dict κ ν where
  items := d.items.filter fun p => p.1 ≠ k
  nodup := d.nodup.sublist (List.filter_sublist.map _)

theorem lookup_filter (P : κ → Bool) (k : κ) : ∀ l : List (κ × ν),
    (l.filter fun p => P p.1).lookup k = if P k then l.lookup k else none
  | [] => by simp
  | (k', v') :: l => by
    have ih := lookup_filter P k l
    by_cases e : k = k'
    · subst e; cases hp : P k <;> simp [hp, ih]
    · cases hp : P k' <;> simp [hp, ih, lookup_cons, e]

theorem get?_erase (d : Dict κ ν) (k k₁ : κ) :
    (d.erase k).get? k₁ = if k₁ = k then none else d.get? k₁ := by
  have h := lookup_filter (fun x => decide (x ≠ k)) k₁ d.items
  by_cases e : k₁ = k <;> simpa [erase, get?, e] using h

@[simp] theorem mem_erase {d : Dict κ ν} {k k₁ : κ} : k₁ ∈ d.erase k ↔ k₁ ≠ k ∧ k₁ ∈ d := by
  rw [mem_iff_get?, get?_erase]
  by_cases e : k₁ = k <;> simp [e, ← mem_iff_get?]

/-! ## Values and bulk construction -/

theorem setItems_map (f : κ → ν → μ) (k : κ) (v : ν) : ∀ l : List (κ × ν),
    (setItems k v l).map (fun p => (p.1, f p.1 p.2)) = setItems k (f k v) (l.map fun p => (p.1, f p.1 p.2))
  | [] => rfl
  | (k', v') :: l => by
    have ih := setItems_map f k v l
    by_cases e : k' = k <;> simp [setItems, e, ih]

theorem mapVal_set (f : κ → ν → μ) (d : Dict κ ν) (k : κ) (v : ν) :
    (d.set k v).mapVal f = (d.mapVal f).set k (f k v) := ext (setItems_map f k v d.items)

theorem lookup_mapVal (f : κ → ν → μ) (k : κ) : ∀ l : List (κ × ν),
    (l.map fun p => (p.1, f p.1 p.2)).lookup k = (l.lookup k).map (f k)
  | [] => rfl
  | (k', v) :: l => by
    rw [List.map_cons, lookup_cons, lookup_cons, lookup_mapVal f k l]
    split_ifs with h
    · rw [h]
      rfl
    · rfl

theorem get?_mapVal (f : κ → ν → μ) (d : Dict κ ν) (k : κ) : (d.mapVal f).get? k = (d.get? k).map (f k) :=
  lookup_mapVal f k d.items

/-- A loop `for (k, v) in l: d[k] = v`. -/
def update (d : Dict κ ν) (l : List (κ × ν)) : Dict κ ν := l.foldl (fun d p => d.set p.1 p.2) d

theorem update_nil (d : Dict κ ν) : d.update [] = d := rfl

theorem update_cons (d : Dict κ ν) (p : κ × ν) (l : List (κ × ν)) :
    d.update (p :: l) = (d.set p.1 p.2).update l := rfl

theorem update_append (d : Dict κ ν) (l l' : List (κ × ν)) : d.update (l ++ l') = (d.update l).update l' :=
  List.foldl_append

theorem setItems_mapKey {κ' ν' : Type} [DecidableEq κ'] {f : κ → κ'} (hf : Function.Injective f) (g : ν → ν') (k : κ) (v : ν) :
    ∀ l : List (κ × ν), setItems (f k) (g v) (l.map fun p => (f p.1, g p.2)) = (setItems k v l).map fun p => (f p.1, g p.2)
  | [] => rfl
  | (k', v') :: l => by
    have ih := setItems_mapKey hf g k v l
    by_cases e : k' = k
    · simp [setItems, e]
    · simp [setItems, e, hf.eq_iff, ih]

/-- Other names for the keys, no two of them the same. -/
theorem items_update_map {κ' ν' : Type} [DecidableEq κ'] {f : κ → κ'} (hf : Function.Injective f) (g : ν → ν') (l : List (κ × ν)) :
    ((∅ : Dict κ' ν').update (l.map fun p => (f p.1, g p.2))).items = ((∅ : Dict κ ν).update l).items.map fun p => (f p.1, g p.2) := by
  suffices h : ∀ (d : Dict κ ν) (d' : Dict κ' ν'), d'.items = d.items.map (fun p => (f p.1, g p.2)) →
      (d'.update (l.map fun p => (f p.1, g p.2))).items = (d.update l).items.map fun p => (f p.1, g p.2) from h ∅ ∅ rfl
  induction l with
  | nil => exact fun _ _ h => h
  | cons p l ih =>
    intro d d' h
    refine ih (d.set p.1 p.2) (d'.set (f p.1) (g p.2)) ?_
    have hset := setItems_mapKey hf g p.1 p.2 d.items
    rwa [← h] at hset

theorem setItems_of_notMem {k : κ} {v : ν} : ∀ {l : List (κ × ν)}, k ∉ l.map Prod.fst → setItems k v l = l ++ [(k, v)]
  | [], _ => rfl
  | (k', v') :: l, h => by
    rw [List.map_cons, List.mem_cons, not_or] at h
    rw [setItems, if_neg (Ne.symm h.1), setItems_of_notMem h.2, List.cons_append]

/-- New keys come last, in their order. -/
theorem items_update {d : Dict κ ν} {l : List (κ × ν)} (hnd : (l.map Prod.fst).Nodup) (hnew : ∀ k ∈ l.map Prod.fst, k ∉ d) :
    (d.update l).items = d.items ++ l := by
  induction l generalizing d with
  | nil => simp [update_nil]
  | cons p l ih =>
    rw [List.map_cons, List.nodup_cons] at hnd
    have hset : (d.set p.1 p.2).items = d.items ++ [p] := setItems_of_notMem (hnew p.1 (by simp))
    have hnew' : ∀ k ∈ l.map Prod.fst, k ∉ d.set p.1 p.2 := by
      intro k hk hmem
      rcases mem_set.1 hmem with rfl | hd
      · exact hnd.1 hk
      · exact hnew k (by rw [List.map_cons]; exact List.mem_cons_of_mem _ hk) hd
    rw [update_cons, ih hnd.2 hnew', hset, List.append_assoc, List.singleton_append]

/-- A copy. -/
theorem update_empty_items (d : Dict κ ν) : (∅ : Dict κ ν).update d.items = d :=
  ext (items_update d.nodup fun k _ => not_mem_empty k)

theorem mem_update {d : Dict κ ν} {l : List (κ × ν)} {k : κ} :
    k ∈ d.update l ↔ k ∈ l.map Prod.fst ∨ k ∈ d := by
  induction l generalizing d with
  | nil => simp [update_nil]
  | cons p l ih =>
    rw [update_cons, ih, mem_set, List.map_cons, List.mem_cons]
    tauto

theorem mem_or_of_get?_update {d : Dict κ ν} {l : List (κ × ν)} {k : κ} {v : ν} (h : (d.update l).get? k = some v) :
    (k, v) ∈ l ∨ d.get? k = some v := by
  induction l generalizing d with
  | nil => exact Or.inr h
  | cons p l ih =>
    rw [update_cons] at h
    rcases ih h with hm | hd
    · exact Or.inl (List.mem_cons_of_mem _ hm)
    · rw [get?_set] at hd
      by_cases e : k = p.1
      · rw [if_pos e, Option.some.injEq] at hd
        exact Or.inl (by rw [e, ← hd]; exact List.mem_cons_self)
      · exact Or.inr (by rwa [if_neg e] at hd)

theorem get?_update (d : Dict κ ν) (l : List (κ × ν)) (k : κ) : (d.update l).get? k = (l.reverse.lookup k).or (d.get? k) := by
  induction l generalizing d with
  | nil => simp [update_nil]
  | cons p l ih =>
    rw [update_cons, ih, get?_set, List.reverse_cons, List.lookup_append, lookup_cons]
    by_cases e : k = p.1 <;> simp [e]

/-- A key stands once, so that the last of its items is the first. -/
theorem lookup_reverse (d : Dict κ ν) (k : κ) : d.items.reverse.lookup k = d.get? k := by
  have hnd : (d.items.reverse.map Prod.fst).Nodup := by
    rw [List.map_reverse]
    exact List.nodup_reverse.2 d.nodup
  ext v
  rw [← lookup_of_mem hnd, List.mem_reverse, mem_items]

/-- `d.update(d')`: the items of `d'` win. -/
theorem get?_update_items (d d' : Dict κ ν) (k : κ) : (d.update d'.items).get? k = (d'.get? k).or (d.get? k) := by
  rw [get?_update, lookup_reverse]

end Dict

end Lib
