import Psutil.Lib.Group
import Psutil.Linux.ProcFiles

/-!
# `Process.memory_maps(grouped=True)` (`__init__.py:1446`)

`groupMaps`, of `ProcFiles`, for the regions of any platform: the tuples have as many numbers as `pmmap_ext` and `pmmap_grouped`
have fields for them, `k` here. Without `grouped` the regions are returned as they are. The numbers of one path are added by
`map` over two lists.
-/

namespace Psutil

open Lib

/-- The sum of the `j`th numbers. -/
def column (j : Nat) (nums : List (List Int)) : Int := (nums.map (·.getD j 0)).sum

theorem groupMaps_eq (it : List Region) :
    groupMaps it = (groupBy (List.zipWith (· + ·)) (it.map fun r => (r.path, r.nums))).items := by
  rw [groupMaps, groupBy, List.foldl_map]
  refine congrArg Dict.items (List.foldl_ext _ _ _ fun d r _ => ?_)
  rw [addTo]
  cases d.get? r.path <;> rfl

/-- Lists of one length stay so, and their numbers are added. -/
theorem length_zipWith_add {k : Nat} (v w : List Int) (hv : v.length = k) (hw : w.length = k) : (v.zipWith (· + ·) w).length = k := by
  simp [hv, hw]

theorem getD_zipWith_add {k : Nat} (j : Nat) (v w : List Int) (hv : v.length = k) (hw : w.length = k) :
    (v.zipWith (· + ·) w).getD j 0 = v.getD j 0 + w.getD j 0 := by
  by_cases hj : j < k
  · simp [hv, hw, hj]
  · simp [hv, hw, Nat.le_of_not_lt hj]

/-- **An entry for every path**, in order of first appearance, with the sums over the regions of that path; so the sums over all
entries are those over all regions. -/
theorem groupMaps_conserves (k : Nat) (it : List Region) (hit : ∀ r ∈ it, r.nums.length = k) :
    (groupMaps it).map Prod.fst = (it.map Region.path).eraseDups ∧
    (∀ g ∈ groupMaps it, g.2.length = k ∧
      ∀ j < k, g.2.getD j 0 = column j ((it.filter fun r => r.path = g.1).map Region.nums)) ∧
    ∀ j < k, column j ((groupMaps it).map Prod.snd) = column j (it.map Region.nums) := by
  have hnums : ∀ p ∈ it.map (fun r => (r.path, r.nums)), p.2.length = k := by
    intro p hp
    obtain ⟨r, hr, rfl⟩ := List.mem_map.1 hp
    exact hit r hr
  have hlen := @length_zipWith_add k
  rw [groupMaps_eq]
  refine ⟨?_, fun g hg => ⟨?_, fun j _ => ?_⟩, fun j _ => ?_⟩
  · have hkeys := keys_groupBy (List.zipWith (· + ·)) (it.map fun r => (r.path, r.nums))
    rw [List.map_map] at hkeys
    exact hkeys
  · exact valid_get?_groupBy hlen hnums g.1 g.2 (Dict.mem_items.1 hg)
  · have hmeasure := measure_get?_groupBy (f := (·.getD j 0)) hlen (getD_zipWith_add j) hnums g.1
    rw [Dict.mem_items.1 hg, List.filter_map, List.map_map] at hmeasure
    rw [column, List.map_map]
    exact hmeasure
  · have hsum := sum_groupBy (f := (·.getD j 0)) hlen (getD_zipWith_add j) hnums
    rw [List.map_map] at hsum
    rw [column, column, List.map_map, List.map_map]
    exact hsum

/-- Three regions, two of them of one path. -/
theorem groupMaps_conserves_libc :
    (groupMaps [⟨[1], [], [65], [4, 1]⟩, ⟨[2], [], [66], [2, 0]⟩, ⟨[3], [], [65], [8, 3]⟩]).map Prod.fst = [[65], [66]] ∧
    column 0 ((groupMaps [⟨[1], [], [65], [4, 1]⟩, ⟨[2], [], [66], [2, 0]⟩, ⟨[3], [], [65], [8, 3]⟩]).map Prod.snd) = 14 := by
  have hconserves := groupMaps_conserves 2 [⟨[1], [], [65], [4, 1]⟩, ⟨[2], [], [66], [2, 0]⟩, ⟨[3], [], [65], [8, 3]⟩] (by decide)
  exact ⟨hconserves.1.trans (by decide), (hconserves.2.2 0 (by decide)).trans (by decide)⟩

end Psutil
