import Psutil.Common.C
import Mathlib.Data.List.TakeWhile

/-!
# C strings in buffers (`arch/all/str.c`)

| here | there |
| --- | --- |
| `strAppend` | `str_append`, without the warnings |
| `appendAll` | calls of `str_append` one after the other, whose results are not looked at |

A write that does not fit makes a buffer longer here, so that a length which stays says that all writes were inside. Pointers are not
`NULL`. `appendAll_holds`: whatever is appended, the buffer holds as much of it as fits.
-/

namespace Psutil

/-- What a `char *` points to, without its NUL. -/
structure CString where
  bytes : Bytes
  noNul : 0 ∉ bytes
  deriving DecidableEq

/-- `strnlen(buf, n)`. -/
def strnlen (buf : Bytes) (n : Nat) : Nat := ((buf.take n).takeWhile (· ≠ 0)).length

def strAppend (dst : Bytes) (src : CString) : Int × Bytes :=
  let dstSize := dst.length
  if dstSize = 0 then (-1, dst)
  else
    let dstLen := strnlen dst dstSize
    -- not null-terminated
    if dstLen ≥ dstSize then (-1, dst)
    else
      let srcLen := src.bytes.length
      let avail := dstSize - dstLen - 1
      if srcLen > avail then
        let dst := memcpy dst dstLen (src.bytes.take avail)
        (-1, memcpy dst (dstSize - 1) [0])
      else (0, memcpy dst dstLen (src.bytes ++ [0]))

def appendAll (dst : Bytes) (srcs : List CString) : Bytes := srcs.foldl (fun dst src => (strAppend dst src).2) dst

/-- The buffer holds a string, and has room for its NUL. -/
def Holds (buf s : Bytes) : Prop := 0 ∉ s ∧ ∃ rest, buf = s ++ 0 :: rest

section
variable {buf s : Bytes}

theorem Holds.length_lt (h : Holds buf s) : s.length < buf.length := by
  obtain ⟨-, rest, rfl⟩ := h
  simp

theorem takeWhile_append_zero (hs : 0 ∉ s) (rest : Bytes) : (s ++ 0 :: rest).takeWhile (· ≠ 0) = s := by
  rw [List.takeWhile_append_of_pos fun c hc => by simpa using ne_of_mem_of_not_mem hc hs]
  simp

/-- What a reader of the buffer finds. -/
theorem Holds.read (h : Holds buf s) : buf.takeWhile (· ≠ 0) = s := by
  obtain ⟨hs, rest, rfl⟩ := h
  exact takeWhile_append_zero hs rest

theorem Holds.strnlen (h : Holds buf s) : strnlen buf buf.length = s.length := by
  rw [Psutil.strnlen, List.take_length, h.read]

theorem memcpy_append (x y t : Bytes) : memcpy (x ++ y) x.length t = x ++ (t ++ y.drop t.length) := by
  rw [memcpy, List.take_left, List.drop_length_add_append]

/-- A string written behind another one, with its NUL. -/
theorem holds_memcpy {y t : Bytes} (hs : 0 ∉ s) (ht : 0 ∉ t) (hfits : t.length < y.length) :
    Holds (memcpy (s ++ y) s.length (t ++ [0])) (s ++ t) ∧ (memcpy (s ++ y) s.length (t ++ [0])).length = (s ++ y).length := by
  rw [memcpy_append]
  refine ⟨⟨fun hmem => (List.mem_append.1 hmem).elim hs ht, y.drop (t ++ [0]).length, by simp⟩, ?_⟩
  simp only [List.length_append, List.length_drop, List.length_cons, List.length_nil]
  omega

/-- A buffer that is filled, and terminated at its end. -/
theorem memcpy_filled {y t : Bytes} (hfits : t.length + 1 = y.length) :
    memcpy (memcpy (s ++ y) s.length t) ((s ++ y).length - 1) [0] = memcpy (s ++ y) s.length (t ++ [0]) := by
  have hlast : (s ++ y).length - 1 = (s ++ t).length := by
    simp only [List.length_append]
    omega
  have hone : (y.drop t.length).drop 1 = [] := by
    rw [List.drop_drop]
    exact List.drop_eq_nil_of_le hfits.ge
  have hall : y.drop (t ++ [0]).length = [] := List.drop_eq_nil_of_le (by rw [List.length_append]; exact hfits.ge)
  rw [memcpy_append, hlast, ← List.append_assoc, memcpy_append, memcpy_append, hall, List.length_singleton, hone]
  simp

/-- What `memmove` leaves when the string is cut to the room there is. -/
theorem holds_cut {y src : Bytes} (hs : 0 ∉ s) (hsrc : 0 ∉ src) (hpos : 0 < y.length) (hlong : y.length ≤ src.length) :
    Holds (memcpy (memcpy (s ++ y) s.length (src.take (y.length - 1))) ((s ++ y).length - 1) [0]) ((s ++ src).take ((s ++ y).length - 1)) ∧
      (memcpy (memcpy (s ++ y) s.length (src.take (y.length - 1))) ((s ++ y).length - 1) [0]).length = (s ++ y).length := by
  have hlen : (src.take (y.length - 1)).length = y.length - 1 := by
    rw [List.length_take]
    omega
  have hfull : (s ++ src).take ((s ++ y).length - 1) = s ++ src.take (y.length - 1) := by
    rw [List.length_append, Nat.add_sub_assoc hpos, List.take_length_add_append]
  rw [hfull, memcpy_filled (by omega)]
  exact holds_memcpy hs (fun hmem => hsrc (List.mem_of_mem_take hmem)) (by omega)

theorem holds_strAppend (h : Holds buf s) (src : CString) :
    Holds (strAppend buf src).2 ((s ++ src.bytes).take (buf.length - 1)) ∧ (strAppend buf src).2.length = buf.length ∧
      ((strAppend buf src).1 = 0 ↔ s.length + src.bytes.length < buf.length) := by
  have hlt := h.length_lt
  have hstrnlen := h.strnlen
  obtain ⟨hs, rest, rfl⟩ := h
  have hpos : (s ++ 0 :: rest).length ≠ 0 := by omega
  have havail : (s ++ 0 :: rest).length - s.length - 1 = (0 :: rest).length - 1 := by
    rw [List.length_append, Nat.add_sub_cancel_left]
  unfold strAppend
  simp only [hpos, if_false, hstrnlen, if_neg (Nat.not_le.2 hlt), havail]
  split_ifs with hlong
  · -- truncated
    have hcut := holds_cut (y := 0 :: rest) hs src.noNul (Nat.succ_pos _) (Nat.le_of_pred_lt hlong)
    refine ⟨hcut.1, hcut.2, (fun he => by cases he), fun hfits => ?_⟩
    simp only [List.length_append, List.length_cons] at hfits hlong
    omega
  · have hroom : src.bytes.length < (0 :: rest).length := Nat.lt_of_le_pred (Nat.succ_pos _) (Nat.not_lt.1 hlong)
    have hheld := holds_memcpy hs src.noNul hroom
    have hfits : s.length + src.bytes.length < (s ++ 0 :: rest).length := by
      rw [List.length_append]
      exact Nat.add_lt_add_left hroom _
    rw [List.take_of_length_le (by rw [List.length_append]; omega)]
    exact ⟨hheld.1, hheld.2, fun _ => hfits, fun _ => rfl⟩

theorem take_append_take (n : Nat) (x y : Bytes) : (x.take n ++ y).take n = (x ++ y).take n := by
  rcases Nat.le_total n x.length with h | h
  · rw [List.take_append_of_le_length (by rw [List.length_take]; omega), List.take_take, Nat.min_self, List.take_append_of_le_length h]
  · rw [List.take_of_length_le h]

/-- **A chain of appends holds as much as fits**, and writes nowhere else. -/
theorem appendAll_holds (srcs : List CString) : ∀ {buf s : Bytes}, Holds buf s →
    Holds (appendAll buf srcs) ((s ++ (srcs.map CString.bytes).flatten).take (buf.length - 1)) ∧ (appendAll buf srcs).length = buf.length := by
  induction srcs with
  | nil =>
    intro buf s h
    have hlt := h.length_lt
    rw [List.map_nil, List.flatten_nil, List.append_nil, List.take_of_length_le (by omega)]
    exact ⟨h, rfl⟩
  | cons src srcs ih =>
    intro buf s h
    obtain ⟨hone, hlen, -⟩ := holds_strAppend h src
    have hrest := ih hone
    rw [hlen, take_append_take, List.append_assoc] at hrest
    exact hrest

end

end Psutil
