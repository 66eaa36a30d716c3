import Mathlib.Data.List.Basic
import Mathlib.Data.Nat.Basic

/-!
# Regions of a 64-bit address space

Items that occupy an extent each, in the order of their addresses and apart from each other. `nextAddr` is the address at
which a walk over the items looks for the next one. The sum of a base and a size wraps around where the addresses end, and
`IsSpace.last` says that this is behind the last item.
-/

namespace Lib

structure Extent where
  base : UInt64
  size : UInt64

/-- One behind the last address. -/
def Extent.end_ (e : Extent) : Nat := e.base.toNat + e.size.toNat

variable {α : Type} (extent : α → Extent)

structure IsSpace (items : List α) : Prop where
  nonempty : ∀ r ∈ items, (extent r).size ≠ 0
  end_le : ∀ r ∈ items, (extent r).end_ ≤ UInt64.size
  disjoint : items.Pairwise fun r r' => (extent r).end_ ≤ (extent r').base.toNat

/-- The address behind `k` items. -/
def nextAddr (items : List α) : Nat → UInt64
  | 0 => 0
  | k + 1 => match items[k]? with
    | some r => (extent r).base + (extent r).size
    | none => 0

variable {extent} {items : List α}

theorem toNat_nextAddr {k : Nat} (hk : k < items.length) :
    (nextAddr extent items (k + 1)).toNat = (extent items[k]).end_ % UInt64.size := by
  simp only [nextAddr, List.getElem?_eq_getElem hk]
  exact UInt64.toNat_add ..

/-- Behind an item that ends with the addresses, the walk is at the first address again. -/
theorem nextAddr_eq_zero {k : Nat} (hk : k < items.length) (hend : (extent items[k]).end_ = UInt64.size) :
    nextAddr extent items (k + 1) = 0 :=
  UInt64.toNat_inj.1 (by rw [toNat_nextAddr hk, hend, Nat.mod_self]; rfl)

namespace IsSpace

theorem end_le_of_lt (h : IsSpace extent items) {j k : Nat} (hjk : j < k) (hk : k < items.length) :
    (extent items[j]).end_ ≤ (extent items[k]).base.toNat :=
  List.pairwise_iff_getElem.1 h.disjoint j k (by omega) hk hjk

theorem lt_end (h : IsSpace extent items) {r : α} (hr : r ∈ items) : (extent r).base.toNat < (extent r).end_ :=
  Nat.lt_add_of_pos_right (Nat.pos_of_ne_zero fun h0 => h.nonempty r hr (UInt64.toNat_inj.1 h0))

/-- An item that ends with the addresses is the last. -/
theorem last (h : IsSpace extent items) {k : Nat} (hk : k < items.length) (hend : (extent items[k]).end_ = UInt64.size) :
    k + 1 = items.length := by
  by_contra hne
  have hlt : k + 1 < items.length := by omega
  have hle := h.end_le_of_lt (Nat.lt_add_one k) hlt
  have := (extent items[k + 1]).base.toNat_lt_size
  omega

/-- The items before one end below the last address. -/
theorem end_lt_of_lt (h : IsSpace extent items) {k : Nat} (hk : k < items.length) :
    ∀ r ∈ items.take k, (extent r).end_ < UInt64.size := by
  intro r hr
  obtain ⟨j, hj, rfl⟩ := List.mem_take_iff_getElem.1 hr
  exact Nat.lt_of_le_of_lt (h.end_le_of_lt (by omega) hk) (UInt64.toNat_lt_size _)

/-- **The next address** lies between what is behind and what is ahead. -/
theorem nextAddr_spec (h : IsSpace extent items) {k : Nat} (hk : k ≤ items.length)
    (hends : ∀ r ∈ items.take k, (extent r).end_ < UInt64.size) :
    (∀ r ∈ items.take k, (extent r).end_ ≤ (nextAddr extent items k).toNat) ∧
      ∀ r, items[k]? = some r → (nextAddr extent items k).toNat ≤ (extent r).base.toNat := by
  cases k with
  | zero => exact ⟨by simp, fun _ _ => Nat.zero_le _⟩
  | succ k =>
    have hlast : (extent items[k]).end_ < UInt64.size := hends _ (List.mem_take_iff_getElem.2 ⟨k, by omega, rfl⟩)
    have hnext : (nextAddr extent items (k + 1)).toNat = (extent items[k]).end_ := by
      rw [toNat_nextAddr hk, Nat.mod_eq_of_lt hlast]
    rw [hnext]
    refine ⟨fun r hr => ?_, fun r hget => ?_⟩
    · obtain ⟨j, hj, rfl⟩ := List.mem_take_iff_getElem.1 hr
      rcases Nat.lt_or_eq_of_le (show j ≤ k by omega) with hjk | rfl
      · exact Nat.le_trans (h.end_le_of_lt hjk hk) (Nat.le_of_lt (h.lt_end (List.getElem_mem _)))
      · exact Nat.le_refl _
    · obtain ⟨hlt, rfl⟩ := List.getElem?_eq_some_iff.1 hget
      exact h.end_le_of_lt (Nat.lt_add_one k) hlt

/-- The first item that ends above the next address. -/
theorem find?_nextAddr (h : IsSpace extent items) {k : Nat} (hk : k < items.length) :
    items.find? (fun r => (nextAddr extent items k).toNat < (extent r).end_) = some items[k] := by
  obtain ⟨hbehind, hahead⟩ := h.nextAddr_spec (Nat.le_of_lt hk) (h.end_lt_of_lt hk)
  have hlt := Nat.lt_of_le_of_lt (hahead _ (List.getElem?_eq_getElem hk)) (h.lt_end (List.getElem_mem hk))
  refine List.find?_eq_some_iff_getElem.2 ⟨decide_eq_true hlt, k, hk, rfl, fun j hj => ?_⟩
  have hle := hbehind items[j] (List.mem_take_iff_getElem.2 ⟨j, by omega, rfl⟩)
  simpa using hle

/-- Behind the last item there is none. -/
theorem find?_nextAddr_length (h : IsSpace extent items) (hends : ∀ r ∈ items, (extent r).end_ < UInt64.size) :
    items.find? (fun r => (nextAddr extent items items.length).toNat < (extent r).end_) = none := by
  refine List.find?_eq_none.2 fun r hr => ?_
  have hbehind := (h.nextAddr_spec (Nat.le_refl _) (by rwa [List.take_length])).1 r (by rwa [List.take_length])
  simpa using hbehind

end IsSpace

end Lib
