import Psutil.Lib.Cut
import Psutil.Lib.Dict

/-!
# `parse_environ_block` (`_common.py:339`)

| here | there |
| --- | --- |
| `find`, `slice` | `data.find(c, i, j)` and `data[i:j]` |
| `parseEnvironLoop`, `parseEnvironBlock` | the `while` loop and the function |

The characters are of any type with a NUL and a `=`: code points for Python, bytes where a string stands for its bytes. The
loop has fuel; `parseEnvironBlock_eq`: it ends on every text, with the assignments of the segments before the first empty one.
-/

namespace Psutil.Common

open Lib

/-- The two characters that a block is made with. -/
structure Delims (α : Type) where
  nul : α
  eq : α
  ne : nul ≠ eq

variable {α : Type} [DecidableEq α]

/-- `data.find(c, i, j)`, for `i` and `j` in the range of `data`. -/
def find (data : List α) (c : α) (i j : Nat) : Int :=
  match ((data.take j).drop i).findIdx? (· = c) with
  | some n => (i + n : Nat)
  | none => -1

/-- `data[i:j]`, for `i ≥ 0`; a negative `j` counts from the end. -/
def slice (data : List α) (i j : Int) : List α :=
  (data.take (if j < 0 then j + data.length else j).toNat).drop i.toNat

/-- `key.upper()` if there is an `upper`: on Windows only. -/
def upperCase (upper : Option (List α → List α)) (key : List α) : List α := (upper.map (· key)).getD key

/-- The `while` loop, or nothing if the fuel does not suffice. -/
def parseEnvironLoop (D : Delims α) (upper : Option (List α → List α)) (data : List α) :
    Nat → Nat → Dict (List α) (List α) → Option (Dict (List α) (List α))
  | 0, _, _ => none
  | fuel + 1, pos, ret =>
    let nextPos := find data D.nul pos data.length
    -- a NUL at the beginning or a double one means finish
    if nextPos ≤ pos then some ret
    else
      let equalPos := find data D.eq pos nextPos.toNat
      let key := slice data pos equalPos
      let value := slice data (equalPos + 1) nextPos
      let ret := if equalPos > pos then ret.set (upperCase upper key) value else ret
      parseEnvironLoop D upper data fuel (nextPos + 1).toNat ret

def parseEnvironBlock (D : Delims α) (upper : Option (List α → List α)) (data : List α) : Option (Dict (List α) (List α)) :=
  parseEnvironLoop D upper data (data.length + 1) 0 ∅

/-! ## What the block says -/

/-- The segments that a NUL ends, up to the first empty one. -/
def segments (D : Delims α) (data : List α) : List (List α) := (data.splitOn D.nul).dropLast.takeWhile (· ≠ [])

/-- What is before the first `=` and after it, unless that is missing or comes first. -/
def assignment (D : Delims α) (upper : Option (List α → List α)) (segment : List α) : Option (List α × List α) :=
  let key := segment.takeWhile (· ≠ D.eq)
  if D.eq ∉ segment ∨ key = [] then none
  else some (upperCase upper key, (segment.dropWhile (· ≠ D.eq)).drop 1)

/-- The assignments, in their order. -/
def assignments (D : Delims α) (upper : Option (List α → List α)) (data : List α) : List (List α × List α) :=
  (segments D data).filterMap (assignment D upper)

/-- The keys are not empty, have no `=` and no NUL; the values have no NUL. -/
structure IsEnviron (D : Delims α) (items : List (List α × List α)) : Prop where
  key : ∀ p ∈ items, p.1 ≠ [] ∧ D.eq ∉ p.1 ∧ D.nul ∉ p.1
  value : ∀ p ∈ items, D.nul ∉ p.2

/-- A dictionary as a block. -/
def block (D : Delims α) (items : List (List α × List α)) : List α := items.flatMap fun p => p.1 ++ D.eq :: (p.2 ++ [D.nul])

omit [DecidableEq α] in
/-- Every assignment with its NUL. -/
theorem block_eq_terminate (D : Delims α) (items : List (List α × List α)) :
    block D items = terminate D.nul (items.map fun p => p.1 ++ D.eq :: p.2) := by
  rw [block, terminate, List.flatMap_map]
  simp

section

variable (D : Delims α) (upper : Option (List α → List α))

theorem segments_of_notMem {s : List α} (h : D.nul ∉ s) : segments D s = [] := by
  rw [segments, splitOn_of_notMem h]
  rfl

theorem segments_append {s : List α} (h : D.nul ∉ s) (rest : List α) :
    segments D (s ++ D.nul :: rest) = if s = [] then [] else s :: segments D rest := by
  rw [segments, splitOn_append_cons, splitOn_of_notMem h, List.singleton_append, List.dropLast_cons_of_ne_nil (splitOn_ne_nil _ _)]
  by_cases hs : s = []
  · simp [hs]
  · rw [List.takeWhile_cons_of_pos (by simpa using hs), if_neg hs]
    rfl

theorem assignments_of_notMem {s : List α} (h : D.nul ∉ s) : assignments D upper s = [] := by
  rw [assignments, segments_of_notMem D h]
  rfl

/-- One segment after the other. -/
theorem assignments_append {s : List α} (h : D.nul ∉ s) (rest : List α) : assignments D upper (s ++ D.nul :: rest) =
    if s = [] then [] else (assignment D upper s).toList ++ assignments D upper rest := by
  rw [assignments, segments_append D h]
  split_ifs
  · rfl
  · rw [List.filterMap_cons]
    cases assignment D upper s <;> rfl

/-- Strings that are not empty, each with its NUL. -/
theorem assignments_terminate : ∀ {l : List (List α)}, (∀ s ∈ l, s ≠ [] ∧ D.nul ∉ s) →
    assignments D upper (terminate D.nul l) = l.filterMap (assignment D upper)
  | [], _ => assignments_of_notMem D upper (by simp [terminate])
  | s :: l, h => by
    obtain ⟨hne, hnul⟩ := h s List.mem_cons_self
    rw [terminate_cons, assignments_append D upper hnul, if_neg hne, assignments_terminate fun t ht => h t (List.mem_cons_of_mem s ht),
      List.filterMap_cons]
    cases assignment D upper s <;> rfl

/-- A segment with a `=` that is not its first character. -/
theorem assignment_append {key : List α} (hkey : key ≠ [] ∧ D.eq ∉ key) (value : List α) :
    assignment D upper (key ++ D.eq :: value) = some (upperCase upper key, value) := by
  have hall : ∀ c ∈ key, decide (c ≠ D.eq) = true := by
    intro c hc
    simpa using fun heq : c = D.eq => hkey.2 (heq ▸ hc)
  have htake : (key ++ D.eq :: value).takeWhile (· ≠ D.eq) = key := by
    rw [List.takeWhile_append_of_pos hall]
    simp
  have hdrop : (key ++ D.eq :: value).dropWhile (· ≠ D.eq) = D.eq :: value := by
    rw [List.dropWhile_append_of_pos hall]
    simp
  rw [assignment, htake, hdrop, if_neg (by simp [hkey.1])]
  rfl

theorem assignment_of_notMem {s : List α} (h : D.eq ∉ s) : assignment D upper s = none := by
  simp [assignment, h]

/-- No key is empty, unless it becomes so. -/
theorem key_ne_nil_of_assignment {s : List α} {p : List α × List α} (h : assignment D none s = some p) : p.1 ≠ [] := by
  rw [assignment] at h
  split_ifs at h with hnone
  rw [not_or] at hnone
  obtain rfl := Option.some.inj h
  exact hnone.2

theorem assignment_eq_first (value : List α) : assignment D upper (D.eq :: value) = none := by
  simp [assignment]

/-! ## The positions -/

/-- The character is found in the part that goes up to `j`. -/
theorem find_append {done s rest : List α} {c : α} (h : c ∉ s) {j : Nat} (hj : done.length + s.length < j) :
    find (done ++ (s ++ c :: rest)) c done.length j = (done.length + s.length : Nat) := by
  have hcut : ((done ++ (s ++ c :: rest)).take j).drop done.length = s ++ c :: rest.take (j - done.length - s.length - 1) := by
    have hsucc : j - done.length - s.length = j - done.length - s.length - 1 + 1 := by omega
    rw [List.drop_take, List.drop_left, List.take_append, List.take_of_length_le (by omega), hsucc, List.take_succ_cons]
    rfl
  rw [find, hcut, findIdx?_append_cons h]

/-- It is not found where it does not occur. -/
theorem find_of_notMem {done s rest : List α} {c : α} (h : c ∉ s) {j : Nat} (hj : j ≤ done.length + s.length) :
    find (done ++ (s ++ rest)) c done.length j = -1 := by
  have hcut : ((done ++ (s ++ rest)).take j).drop done.length = s.take (j - done.length) := by
    rw [List.drop_take, List.drop_left, List.take_append_of_le_length (by omega)]
  rw [find, hcut, findIdx?_of_notMem fun hc => h (List.mem_of_mem_take hc)]

omit [DecidableEq α] in
theorem slice_append (a b c : List α) {i j : Int} (hi : i = a.length) (hj : j = (a.length + b.length : Nat)) :
    slice (a ++ (b ++ c)) i j = b := by
  subst hi hj
  rw [slice, if_neg (by omega), Int.toNat_natCast, Int.toNat_natCast, drop_take_append]

/-! ## The loop -/

/-- A text without a `=`, or cut at its first one. -/
theorem equal_cases (s : List α) : D.eq ∉ s ∨ ∃ key value, D.eq ∉ key ∧ s = key ++ D.eq :: value := by
  by_cases h : D.eq ∈ s
  · obtain ⟨key, value, hs, hkey⟩ := List.eq_append_cons_of_mem h
    exact Or.inr ⟨key, value, hkey, hs⟩
  · exact Or.inl h

/-- What a round does with a segment that has a `=`. -/
theorem set_slices (key value done rest : List α) (ret : Dict (List α) (List α)) :
    ret.set (upperCase upper (slice (done ++ ((key ++ D.eq :: value) ++ D.nul :: rest)) done.length (done.length + key.length : Nat)))
      (slice (done ++ ((key ++ D.eq :: value) ++ D.nul :: rest)) ((done.length + key.length : Nat) + 1)
        (done.length + (key ++ D.eq :: value).length : Nat)) = ret.set (upperCase upper key) value := by
  have hkeyslice : slice (done ++ ((key ++ D.eq :: value) ++ D.nul :: rest)) done.length (done.length + key.length : Nat) = key := by
    rw [List.append_assoc]
    exact slice_append done key _ rfl rfl
  have hvalue : slice (done ++ ((key ++ D.eq :: value) ++ D.nul :: rest)) ((done.length + key.length : Nat) + 1)
      (done.length + (key ++ D.eq :: value).length : Nat) = value := by
    have hdata : done ++ ((key ++ D.eq :: value) ++ D.nul :: rest) = (done ++ (key ++ [D.eq])) ++ (value ++ D.nul :: rest) := by simp
    rw [hdata]
    exact slice_append _ value _ (by simp; omega) (by simp; omega)
  rw [hkeyslice, hvalue]

/-- One round: a segment that is not empty, and what it assigns. -/
theorem loop_step {s : List α} (hs : D.nul ∉ s) (hne : s ≠ []) (done rest : List α) (fuel : Nat) (ret : Dict (List α) (List α)) :
    parseEnvironLoop D upper (done ++ (s ++ D.nul :: rest)) (fuel + 1) done.length ret =
      parseEnvironLoop D upper (done ++ (s ++ D.nul :: rest)) fuel (done.length + s.length + 1)
        (ret.update (assignment D upper s).toList) := by
  have hpos : 0 < s.length := List.length_pos_of_ne_nil hne
  have hnext : find (done ++ (s ++ D.nul :: rest)) D.nul done.length (done ++ (s ++ D.nul :: rest)).length =
      (done.length + s.length : Nat) := find_append hs (by simp)
  have hpast : ((done.length + s.length : Nat) + 1 : Int).toNat = done.length + s.length + 1 := by omega
  rw [parseEnvironLoop, hnext, if_neg (by omega), Int.toNat_natCast, hpast]
  dsimp only
  congr 1
  rcases equal_cases D s with heq | ⟨key, value, hkey, rfl⟩
  · rw [find_of_notMem heq (Nat.le_refl _), if_neg (by omega), assignment_of_notMem D upper heq]
    rfl
  · have hequal : find (done ++ ((key ++ D.eq :: value) ++ D.nul :: rest)) D.eq done.length
        (done.length + (key ++ D.eq :: value).length) = (done.length + key.length : Nat) := by
      rw [List.append_assoc]
      exact find_append hkey (by simp)
    rw [hequal]
    by_cases hk : key = []
    · rw [hk, if_neg (by simp), List.nil_append, assignment_eq_first]
      rfl
    · have hkeylen : 0 < key.length := List.length_pos_of_ne_nil hk
      rw [if_pos (by omega), set_slices, assignment_append D upper ⟨hk, hkey⟩]
      rfl

/-- From the start of a segment on: the induction is on the fuel, which is more than what is left of the text. -/
theorem loop_eq : ∀ (fuel : Nat) (done rest : List α) (ret : Dict (List α) (List α)), rest.length < fuel →
    parseEnvironLoop D upper (done ++ rest) fuel done.length ret = some (ret.update (assignments D upper rest))
  | 0, _, _, _, h => absurd h (Nat.not_lt_zero _)
  | fuel + 1, done, rest, ret, h => by
    by_cases hnul : D.nul ∈ rest
    · obtain ⟨s, tail, rfl, hs⟩ := List.eq_append_cons_of_mem hnul
      rw [assignments_append D upper hs]
      by_cases hne : s = []
      · have hnext : find (done ++ (s ++ D.nul :: tail)) D.nul done.length (done ++ (s ++ D.nul :: tail)).length =
            (done.length + s.length : Nat) := find_append hs (by simp)
        rw [parseEnvironLoop, hnext, if_pos (by simp [hne]), if_pos hne]
        rfl
      · have hlen : (done ++ (s ++ [D.nul])).length = done.length + s.length + 1 := by simp; omega
        have hdata : done ++ (s ++ D.nul :: tail) = (done ++ (s ++ [D.nul])) ++ tail := by simp
        have hfuel : tail.length < fuel := by
          rw [List.length_append, List.length_cons] at h
          omega
        rw [loop_step D upper hs hne, ← hlen, hdata, loop_eq fuel _ tail _ hfuel, if_neg hne, Dict.update_append]
    · have hnext : find (done ++ rest) D.nul done.length (done ++ rest).length = -1 := by
        have hnone : find (done ++ (rest ++ [])) D.nul done.length (done ++ rest).length = -1 := find_of_notMem hnul (by simp)
        rwa [List.append_nil] at hnone
      rw [parseEnvironLoop, hnext, if_pos (by omega), assignments_of_notMem D upper hnul]
      rfl

/-- It ends on every text. -/
theorem parseEnvironBlock_assignments (data : List α) :
    parseEnvironBlock D upper data = some (Dict.update ∅ (assignments D upper data)) :=
  loop_eq D upper (data.length + 1) [] data ∅ (Nat.lt_succ_self _)

/-! ## The round trip -/

/-- What a block says, before a text without a NUL. -/
theorem assignments_block {items : List (List α × List α)} (h : IsEnviron D items) {tail : List α} (htail : D.nul ∉ tail) :
    assignments D upper (block D items ++ tail) = items.map fun p => (upperCase upper p.1, p.2) := by
  induction items with
  | nil => exact assignments_of_notMem D upper htail
  | cons p items ih =>
    obtain ⟨hne, heq, hnul⟩ := h.key p List.mem_cons_self
    have hitems : IsEnviron D items :=
      ⟨fun q hq => h.key q (List.mem_cons_of_mem _ hq), fun q hq => h.value q (List.mem_cons_of_mem _ hq)⟩
    have hsegment : D.nul ∉ p.1 ++ D.eq :: p.2 := by
      rw [List.mem_append, List.mem_cons]
      rintro (hkey | heq' | hvalue)
      · exact hnul hkey
      · exact D.ne heq'
      · exact h.value p List.mem_cons_self hvalue
    have hblock : block D (p :: items) ++ tail = (p.1 ++ D.eq :: p.2) ++ D.nul :: (block D items ++ tail) := by simp [block]
    rw [hblock, assignments_append D upper hsegment, if_neg (by simp), assignment_append D upper ⟨hne, heq⟩, ih hitems, List.map_cons]
    rfl

end

/-- `parse_environ_block` is its specification by segments, on every text; a dictionary that is written out comes back, with its
keys in upper case on Windows. -/
theorem parseEnvironBlock_eq (D : Delims α) (upper : Option (List α → List α)) :
    (∀ data : List α, parseEnvironBlock D upper data = some (Dict.update ∅ (assignments D upper data))) ∧
    ∀ d : Dict (List α) (List α), IsEnviron D d.items →
      parseEnvironBlock D upper (block D d.items) = some (Dict.update ∅ (d.items.map fun p => (upperCase upper p.1, p.2))) ∧
      ((∀ p ∈ d.items, upperCase upper p.1 = p.1) → parseEnvironBlock D upper (block D d.items) = some d) := by
  refine ⟨parseEnvironBlock_assignments D upper, fun d hd => ?_⟩
  have hblock : parseEnvironBlock D upper (block D d.items) =
      some (Dict.update ∅ (d.items.map fun p => (upperCase upper p.1, p.2))) := by
    have hassign := assignments_block D upper hd (List.not_mem_nil (a := D.nul))
    rw [List.append_nil] at hassign
    rw [parseEnvironBlock_assignments, hassign]
  refine ⟨hblock, fun hupper => ?_⟩
  have hsame : d.items.map (fun p => (upperCase upper p.1, p.2)) = d.items.map id :=
    List.map_congr_left fun p hp => by rw [hupper p hp]; rfl
  rw [hblock, hsame, List.map_id, Dict.update_empty_items]

/-- `{"a": "1", "b": ""}`, as code points. -/
def environExample : Dict (List Nat) (List Nat) := ⟨[([97], [49]), ([98], [])], by decide⟩

theorem parseEnvironBlock_eq_example :
    parseEnvironBlock ⟨0, 61, by decide⟩ none (block ⟨0, 61, by decide⟩ environExample.items) = some environExample :=
  ((parseEnvironBlock_eq ⟨0, 61, by decide⟩ none).2 environExample ⟨by decide, by decide⟩).2 fun _ _ => rfl

end Psutil.Common
