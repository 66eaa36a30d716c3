import Mathlib.Data.List.TakeWhile
import Psutil.Common.C
import Psutil.Lib.Loop

/-!
# Strings of another process on SunOS

| here | there |
| --- | --- |
| `ReadState`, `readOfftBody`, `readOfft` | `read_offt` (`arch/sunos/environ.c:45`) |
| `SearchState`, `searchBody`, `readCstringOfft` | `read_cstring_offt` (`:75`) |

The descriptor is that of `/proc/PID/as`. Offsets and sizes are natural numbers: an address space ends far below the
largest `off_t`. `readCstringOfft_iff`: which strings are read right. A string that has no end is taken to be longer than
what is readable, by the last chunk of the search, and no failure of `pread` is noticed.
-/

namespace Psutil.Sunos

open Lib

/-- `STRING_SEARCH_BUF_SIZE`. -/
def stringSearchBufSize : Nat := 512

/-- `(size_t)-1`. -/
def sizeMax : Nat := 18446744073709551615

/-- An address space and how the system serves the calls on it. -/
structure AddressSpaceFile where
  mem : Bytes
  lseek : Except Errno Unit
  /-- The `k`-th `read` fails, or gets no more than this, and at least one byte if there are any. -/
  read : Nat → Except Errno Nat
  pread : Nat → Except Errno Nat
  /-- Whether `malloc` has a block. -/
  malloc : Bool
  /-- `errno` when no call has failed. -/
  errno : Errno

/-- What a call for `size` bytes at `pos` gets. -/
def transfer (mem : Bytes) (pos size most : Nat) : Bytes := ((mem.drop pos).take size).take (max 1 most)

/-! ## `read_offt` -/

structure ReadState where
  toRead : Nat
  stored : Nat
  buf : Bytes
  /-- The calls of `pread` so far. -/
  calls : Nat

structure ReadResult where
  ret : Nat
  buf : Bytes
  calls : Nat
  /-- The exception that is set. -/
  err : Option CErr

variable (fd : AddressSpaceFile)

/-- A failed `read_offt`, which is `-1` as a `size_t`. -/
def readFailed (s : ReadState) (buf : Bytes) (errno : Errno) : ReadResult :=
  ⟨sizeMax, buf, s.calls + 1, some (.exc (.osError errno))⟩

def readOfftBody (offset : Nat) (s : ReadState) : Round ReadState ReadResult :=
  if s.toRead = 0 then .done ⟨s.stored, s.buf, s.calls, none⟩
  else
    match fd.pread s.calls with
    | .error errno => .done (readFailed s s.buf errno)
    | .ok most =>
      let got := transfer fd.mem (offset + s.stored) s.toRead most
      let buf := memcpy s.buf s.stored got
      let r := toInt got.length
      if r < 0 then .done (readFailed s buf fd.errno)
      else if r = 0 then .done ⟨s.stored, buf, s.calls + 1, none⟩
      else .next ⟨s.toRead - r.toNat, s.stored + r.toNat, buf, s.calls + 1⟩

def readOfft (offset : Nat) (buf : Bytes) (bufSize fuel : Nat) : Option ReadResult :=
  loop (readOfftBody fd offset) fuel ⟨bufSize, 0, buf, 0⟩

/-! ## `read_cstring_offt` -/

/-- `fd` stands at `end_`. -/
structure SearchState where
  end_ : Nat
  i : Nat
  calls : Nat

def searchBody (s : SearchState) : Round SearchState (Except Errno SearchState) :=
  match fd.read s.calls with
  | .error errno => .done (.error errno)
  | .ok most =>
    let buf := transfer fd.mem s.end_ stringSearchBufSize most
    let r := buf.length
    if r = 0 then .done (.ok s)
    else
      -- the `for` loop; without a `\0` it runs to `r`
      let i := buf.findIdx (· = 0)
      if i < r then .done (.ok { s with i := i, calls := s.calls + 1 })
      else .next ⟨s.end_ + r, i, s.calls + 1⟩

structure Outcome where
  /-- The block that is returned, if it is not `NULL`. -/
  result : Option Bytes
  err : Option CErr
  /-- The calls of `pread`. -/
  preads : Nat

/-- A block of `malloc`, with what the heap holds. -/
def block (heap : Nat → UInt8) (size : Nat) : Bytes := (List.range size).map heap

def readCstringOfft (heap : Nat → UInt8) (offset fuel : Nat) : Option Outcome :=
  match fd.lseek with
  | .error errno => some ⟨none, some (.exc (.osError errno)), 0⟩
  | .ok () =>
    (loop (searchBody fd) fuel ⟨offset, 0, 0⟩).bind fun found =>
      match found with
      | .error errno => some ⟨none, some (.exc (.osError errno)), 0⟩
      | .ok s =>
        let len := s.end_ + s.i - offset
        let result := block heap (len + 1)
        if fd.malloc = false then some ⟨none, some .noMemory, 0⟩
        else if len ≠ 0 then
          (readOfft fd offset result len fuel).bind fun r =>
            -- both sides are of type `size_t`
            if r.ret < 0 then some ⟨none, r.err, r.calls⟩
            else some ⟨some (r.buf.set len 0), r.err, r.calls⟩
        else some ⟨some (result.set len 0), none, 0⟩

/-! ## The search -/

variable {fd}

/-- The calls that the search and the block need are served. -/
structure Served (fd : AddressSpaceFile) : Prop where
  lseek : fd.lseek = .ok ()
  read : ∀ k, ∃ most, fd.read k = .ok most
  malloc : fd.malloc = true

theorem transfer_eq (mem : Bytes) (pos size most : Nat) : transfer mem pos size most = (mem.drop pos).take (min (max 1 most) size) :=
  List.take_take

/-- What the search has seen of the data at `offset` after some rounds: `n` bytes, none of which ends the string. -/
structure Searching (data : Bytes) (offset : Nat) (s : SearchState) (n : Nat) : Prop where
  end_ : s.end_ = offset + n
  le : n ≤ data.length
  ne_zero : ∀ b ∈ data.take n, b ≠ 0
  i : s.i = 0 ↔ n = 0

/-- The string ends before the readable data do, or there are none. -/
def HasEnd (data : Bytes) : Prop := data = [] ∨ 0 ∈ data

/-- Where the search says that the string ends. -/
structure FoundAt (data : Bytes) (len : Nat) : Prop where
  at_end : HasEnd data → len = (data.takeWhile (· ≠ 0)).length
  past_end : ¬HasEnd data → data.length < len

/-- The first `\0` in a chunk behind bytes that are none. -/
theorem length_takeWhile_of_chunk {data : Bytes} {n m : Nat} (hle : n ≤ data.length) (hne : ∀ b ∈ data.take n, b ≠ 0)
    (hlt : ((data.drop n).take m).findIdx (· = 0) < ((data.drop n).take m).length) :
    0 ∈ data ∧ (data.takeWhile (· ≠ 0)).length = n + ((data.drop n).take m).findIdx (· = 0) := by
  have hzero := List.findIdx_getElem (w := hlt)
  have hmem : 0 ∈ (data.drop n).take m := by
    rw [← of_decide_eq_true hzero]
    exact List.getElem_mem _
  refine ⟨List.mem_of_mem_drop (List.mem_of_mem_take hmem), ?_⟩
  have hsplit : data.takeWhile (· ≠ 0) = data.take n ++ (data.drop n).takeWhile (· ≠ 0) := by
    conv_lhs => rw [← List.take_append_drop n data]
    exact List.takeWhile_append_of_pos fun b hb => decide_eq_true (hne b hb)
  have hnot : (data.drop n).findIdx (fun b => !decide (b ≠ 0)) = (data.drop n).findIdx (· = 0) := by simp
  rw [List.findIdx_take, List.length_take] at hlt
  rw [hsplit, List.length_append, List.length_take, List.takeWhile_eq_take_findIdx_not, List.length_take, hnot, List.findIdx_take]
  omega

/-- Nothing is left, and there was no `\0`. -/
theorem Searching.foundAt {data : Bytes} {offset : Nat} {s : SearchState} (hs : Searching data offset s data.length) :
    FoundAt data (s.end_ + s.i - offset) := by
  have hne := hs.ne_zero
  rw [List.take_length] at hne
  rw [hs.end_]
  refine ⟨fun hdata => ?_, fun hdata => ?_⟩
  · obtain rfl := hdata.resolve_right fun h0 => hne 0 h0 rfl
    simp [hs.i.2 rfl]
  · have hdata' : data.length ≠ 0 := fun h0 => hdata (Or.inl (List.eq_nil_of_length_eq_zero h0))
    have hi := mt hs.i.1 hdata'
    omega

/-- A chunk without a `\0`. -/
theorem Searching.next {data : Bytes} {offset n m : Nat} {s : SearchState} (hs : Searching data offset s n)
    (hchunk : (data.drop n).take m ≠ []) (hno : ∀ b ∈ (data.drop n).take m, b ≠ 0) (calls : Nat) :
    Searching data offset ⟨offset + n + ((data.drop n).take m).length, ((data.drop n).take m).length, calls⟩
      (n + ((data.drop n).take m).length) where
  end_ := Nat.add_assoc ..
  le := by
    have hle := hs.le
    rw [List.length_take, List.length_drop]
    omega
  ne_zero b hb := by
    rw [List.take_add, List.mem_append] at hb
    rcases hb with hb | hb
    · exact hs.ne_zero b hb
    · exact hno b (List.take_subset_take_left _ (List.length_take_le ..) hb)
  i := by
    have hpos := List.length_pos_iff.2 hchunk
    dsimp only
    omega

theorem search_round (h : Served fd) {offset n : Nat} {s : SearchState} (hs : Searching (fd.mem.drop offset) offset s n) :
    (searchBody fd s).Meets (fun s' => (∃ n', Searching (fd.mem.drop offset) offset s' n') ∧ s.end_ < s'.end_)
      fun found => ∃ s', found = .ok s' ∧ FoundAt (fd.mem.drop offset) (s'.end_ + s'.i - offset) := by
  obtain ⟨most, hread⟩ := h.read s.calls
  generalize hm : min (max 1 most) stringSearchBufSize = m
  have hpos : 0 < m := by
    rw [← hm, stringSearchBufSize]
    omega
  rw [searchBody, hread]
  simp only [transfer_eq, hm, hs.end_, ← List.drop_drop]
  generalize fd.mem.drop offset = data at *
  have hle := hs.le
  have hchunk : ((data.drop n).take m).length = min m (data.length - n) := by rw [List.length_take, List.length_drop]
  split_ifs with hr hfound
  · obtain rfl : n = data.length := by omega
    exact ⟨s, rfl, hs.foundAt⟩
  · obtain ⟨hmem, hlen⟩ := length_takeWhile_of_chunk hle hs.ne_zero hfound
    refine ⟨_, rfl, fun _ => ?_, fun hdata => absurd (Or.inr hmem) hdata⟩
    rw [hlen]
    dsimp only
    omega
  · have hend := Nat.le_antisymm List.findIdx_le_length (Nat.not_lt.1 hfound)
    have hall := List.findIdx_eq_length.1 hend
    rw [hend]
    exact ⟨⟨_, hs.next (fun hnil => hr (by rw [hnil]; rfl)) (fun b hb => of_decide_eq_false (hall b hb)) _⟩, by dsimp only; omega⟩

theorem search_yields (h : Served fd) (offset : Nat) : ∃ s, FoundAt (fd.mem.drop offset) (s.end_ + s.i - offset) ∧
    Yields (loop (searchBody fd) · ⟨offset, 0, 0⟩) (.ok s) := by
  obtain ⟨_, ⟨s, rfl, hfound⟩, hyields⟩ : ∃ found, (∃ s, found = .ok s ∧ FoundAt (fd.mem.drop offset) (s.end_ + s.i - offset)) ∧
      Yields (loop (searchBody fd) · ⟨offset, 0, 0⟩) found := by
    refine loop_yields (I := fun s => ∃ n, Searching (fd.mem.drop offset) offset s n)
      (μ := fun s => offset + (fd.mem.drop offset).length - s.end_) ?_ ⟨0, rfl, Nat.zero_le _, by simp, by simp⟩
    rintro s ⟨n, hs⟩
    refine (search_round h hs).imp ?_ fun _ => id
    rintro s' ⟨⟨n', hs'⟩, hlt⟩
    have hend := hs'.end_
    have hle := hs'.le
    exact ⟨⟨n', hs'⟩, by omega⟩
  exact ⟨s, hfound, hyields⟩

/-! ## The copy -/

/-- A block of which the first `top` bytes are those of the string. -/
def overlay (data init : Bytes) (top : Nat) : Bytes := data.take top ++ init.drop top

theorem memcpy_overlay {data init : Bytes} {stored top : Nat} (m : Nat) (hs : stored ≤ top) (ht : top ≤ data.length)
    (hb : data.length ≤ init.length) : memcpy (overlay data init top) stored ((data.drop stored).take m) =
      overlay data init (max top (stored + ((data.drop stored).take m).length)) := by
  have hlen : ((data.drop stored).take m).length = min m (data.length - stored) := by simp
  apply List.ext_getElem?
  intro i
  simp only [memcpy, overlay, List.getElem?_append, List.getElem?_take, List.getElem?_drop, List.length_take, List.length_drop,
    List.length_append, hlen]
  grind

/-- The data that a copy of `len` bytes is to get. -/
def wanted (fd : AddressSpaceFile) (offset len : Nat) : Bytes := (fd.mem.drop offset).take len

/-- The bytes that `pread` gets behind the first `stored` ones, of `len`. -/
def gotBytes (fd : AddressSpaceFile) (offset len stored most : Nat) : Nat :=
  (transfer fd.mem (offset + stored) (len - stored) most).length

/-- The copy of `len` bytes succeeds from its `k`-th call on: `top` bytes are stored by then, and `stored` of them counted.
A reply counts as the `int` that is left of it, and one that counts as zero is the last. -/
inductive Fills (fd : AddressSpaceFile) (offset len : Nat) : Nat → Nat → Nat → Prop where
  | all {k top : Nat} : Fills fd offset len k len top
  | next {k stored top most : Nat} (hlt : stored < len) (hok : fd.pread k = .ok most)
      (hpos : 0 < toInt (gotBytes fd offset len stored most))
      (hrest : Fills fd offset len (k + 1) (stored + (toInt (gotBytes fd offset len stored most)).toNat)
        (max top (stored + gotBytes fd offset len stored most))) : Fills fd offset len k stored top
  | last {k stored top most : Nat} (hlt : stored < len) (hok : fd.pread k = .ok most)
      (hzero : toInt (gotBytes fd offset len stored most) = 0)
      (htop : max top (stored + gotBytes fd offset len stored most) = len) : Fills fd offset len k stored top

theorem fills_iff {offset len k stored top most : Nat} (hlt : stored < len) (hok : fd.pread k = .ok most) :
    Fills fd offset len k stored top ↔
      (0 < toInt (gotBytes fd offset len stored most) ∧
        Fills fd offset len (k + 1) (stored + (toInt (gotBytes fd offset len stored most)).toNat)
          (max top (stored + gotBytes fd offset len stored most))) ∨
      (toInt (gotBytes fd offset len stored most) = 0 ∧ max top (stored + gotBytes fd offset len stored most) = len) := by
  constructor
  · intro h
    cases h with
    | all => exact absurd hlt (Nat.lt_irrefl _)
    | next _ hok' hpos hrest =>
      obtain rfl := Except.ok.inj (hok.symm.trans hok')
      exact Or.inl ⟨hpos, hrest⟩
    | last _ hok' hzero htop =>
      obtain rfl := Except.ok.inj (hok.symm.trans hok')
      exact Or.inr ⟨hzero, htop⟩
  · rintro (⟨hpos, hrest⟩ | ⟨hzero, htop⟩)
    · exact .next hlt hok hpos hrest
    · exact .last hlt hok hzero htop

/-- No string below 2 GiB is too long for an `int`. -/
theorem fills_of_ok {offset len : Nat} (hok : ∀ k, ∃ most, fd.pread k = .ok most) (hlen : len ≤ intMax)
    (hle : len ≤ (fd.mem.drop offset).length) {k stored top : Nat} (hstored : stored ≤ len) : Fills fd offset len k stored top := by
  induction hn : len - stored using Nat.strongRecOn generalizing k stored top with
  | _ n ih =>
    rcases Nat.lt_or_eq_of_le hstored with hlt | rfl
    · obtain ⟨most, hmost⟩ := hok k
      have hgot : gotBytes fd offset len stored most = min (max 1 most) (len - stored) := by
        rw [gotBytes, transfer_eq, List.length_take, List.length_drop]
        rw [List.length_drop] at hle
        omega
      have hint := toInt_eq (n := gotBytes fd offset len stored most) (by omega)
      refine .next hlt hmost ?_ (ih _ ?_ ?_ rfl) <;> rw [hint, hgot] <;> omega
    · exact .all

theorem Fills.exists_ok {offset len k stored top : Nat} (h : Fills fd offset len k stored top) (hlt : stored < len) :
    ∃ most, fd.pread k = .ok most := by
  cases h with
  | all => exact absurd hlt (Nat.lt_irrefl _)
  | next _ hok _ _ | last _ hok _ _ => exact ⟨_, hok⟩

theorem add_gotBytes_le {offset len stored : Nat} (hle : stored ≤ (wanted fd offset len).length) (most : Nat) :
    stored + gotBytes fd offset len stored most ≤ (wanted fd offset len).length := by
  rw [wanted, List.length_take, List.length_drop] at *
  rw [gotBytes, transfer_eq, List.length_take, List.length_drop]
  omega

/-- What a reply does to the block. -/
theorem memcpy_transfer {offset len stored top : Nat} {init : Bytes} (hstored : stored ≤ top)
    (htop : top ≤ (wanted fd offset len).length) (hinit : init.length = len + 1) (most : Nat) :
    memcpy (overlay (wanted fd offset len) init top) stored (transfer fd.mem (offset + stored) (len - stored) most) =
      overlay (wanted fd offset len) init (max top (stored + gotBytes fd offset len stored most)) := by
  have hwanted : (wanted fd offset len).length ≤ len := List.length_take_le ..
  have hgot : transfer fd.mem (offset + stored) (len - stored) most = ((wanted fd offset len).drop stored).take (max 1 most) := by
    rw [transfer, wanted, List.drop_take, List.drop_drop]
  rw [gotBytes, hgot]
  exact memcpy_overlay (max 1 most) hstored htop (by omega)

/-- What holds between two calls of `pread`. -/
structure Copying (fd : AddressSpaceFile) (offset len : Nat) (init : Bytes) (s : ReadState) (top : Nat) : Prop where
  toRead : s.toRead + s.stored = len
  stored_le : s.stored ≤ top
  top_le : top ≤ (wanted fd offset len).length
  buf : s.buf = overlay (wanted fd offset len) init top
  ok : ∀ k < s.calls, ∃ most, fd.pread k = .ok most
  fills : Fills fd offset len 0 0 0 ↔ Fills fd offset len s.calls s.stored top

/-- What the copy leaves. -/
inductive Copied (fd : AddressSpaceFile) (offset len : Nat) (init : Bytes) (r : ReadResult) : Prop where
  | stored (top : Nat) (herr : r.err = none) (hok : ∀ k < r.calls, ∃ most, fd.pread k = .ok most)
      (htop : top ≤ (wanted fd offset len).length) (hbuf : r.buf = overlay (wanted fd offset len) init top)
      (hfills : Fills fd offset len 0 0 0 ↔ top = len)
  | failed (herr : r.err ≠ none) (hfills : ¬Fills fd offset len 0 0 0)

theorem copy_round {offset len top : Nat} {init : Bytes} (hinit : init.length = len + 1) {s : ReadState}
    (hs : Copying fd offset len init s top) :
    (readOfftBody fd offset s).Meets (fun s' => (∃ top', Copying fd offset len init s' top') ∧ s'.toRead < s.toRead)
      (Copied fd offset len init) := by
  obtain ⟨hread, hstored, htop, hbuf, hok, hfills⟩ := hs
  have hwanted : (wanted fd offset len).length ≤ len := List.length_take_le ..
  by_cases hzero : s.toRead = 0
  · -- all is stored
    obtain rfl : s.stored = len := by omega
    have htop' : top = s.stored := by omega
    rw [readOfftBody, if_pos hzero]
    exact .stored top rfl hok htop hbuf (iff_of_true (hfills.2 .all) htop')
  have hlt : s.stored < len := by omega
  rw [readOfftBody, if_neg hzero]
  cases hpread : fd.pread s.calls with
  | error errno =>
    refine .failed (Option.some_ne_none _) fun h => ?_
    obtain ⟨most, hmost⟩ := (hfills.1 h).exists_ok hlt
    rw [hpread] at hmost
    cases hmost
  | ok most =>
    have hok' : ∀ k < s.calls + 1, ∃ most, fd.pread k = .ok most := by
      intro k hk
      rcases Nat.lt_succ_iff_lt_or_eq.1 hk with hk | rfl
      · exact hok k hk
      · exact ⟨most, hpread⟩
    have hgot : (transfer fd.mem (offset + s.stored) (len - s.stored) most).length = gotBytes fd offset len s.stored most := rfl
    have hle := add_gotBytes_le (hstored.trans htop) most
    have hint := toInt_le (gotBytes fd offset len s.stored most)
    rw [fills_iff hlt hpread] at hfills
    simp only [show s.toRead = len - s.stored by omega, hbuf, memcpy_transfer hstored htop hinit most, hgot]
    generalize gotBytes fd offset len s.stored most = n at *
    split_ifs with hneg hnil
    · -- more than `INT_MAX` bytes
      refine .failed (Option.some_ne_none _) fun h => ?_
      rcases hfills.1 h with ⟨hpos, -⟩ | ⟨hzero, -⟩ <;> omega
    · refine .stored _ rfl hok' (by omega) rfl (hfills.trans ?_)
      simp [hnil]
    · refine ⟨⟨_, ?_, ?_, ?_, rfl, hok', ?_⟩, ?_⟩
      · dsimp only
        omega
      · dsimp only
        omega
      · omega
      · rw [hfills]
        simp [hnil, show 0 < toInt n by omega]
      · dsimp only
        omega

theorem readOfft_yields (fd : AddressSpaceFile) (offset len : Nat) {init : Bytes} (hinit : init.length = len + 1) :
    ∃ r, Copied fd offset len init r ∧ Yields (readOfft fd offset init len) r := by
  refine loop_yields (I := fun s => ∃ top, Copying fd offset len init s top) (μ := fun s => s.toRead) ?_
    ⟨0, rfl, Nat.zero_le _, Nat.zero_le _, by simp [overlay], by simp, Iff.rfl⟩
  rintro s ⟨top, hs⟩
  exact copy_round hinit hs

/-! ## The string -/

/-- What a block is as a string. -/
def cString (str : Bytes) : Bytes := str.takeWhile (· ≠ 0)

/-- The string at `offset`, which ends with the readable data if nothing else ends it. -/
def stringAt (mem : Bytes) (offset : Nat) : Bytes := (mem.drop offset).takeWhile (· ≠ 0)

/-- The string, or `NULL` with an exception if a `pread` failed. -/
structure Right (fd : AddressSpaceFile) (offset : Nat) (o : Outcome) : Prop where
  failed : (∃ k < o.preads, ∃ errno, fd.pread k = .error errno) → o.result = none ∧ o.err ≠ none
  served : (∀ k < o.preads, ∃ most, fd.pread k = .ok most) → o.err = none ∧ o.result.map cString = some (stringAt fd.mem offset)

/-- Whatever `malloc` finds in its block. -/
def ReadsString (fd : AddressSpaceFile) (offset : Nat) : Prop :=
  ∀ heap, ∃ o, Right fd offset o ∧ Yields (readCstringOfft fd heap offset ·) o

@[simp] theorem length_block (heap : Nat → UInt8) (size : Nat) : (block heap size).length = size := by simp [block]

/-- What the function returns, when the search found `len` bytes. -/
inductive Returned (fd : AddressSpaceFile) (heap : Nat → UInt8) (offset len : Nat) (o : Outcome) : Prop where
  | empty (hlen : len = 0) (ho : o = ⟨some ((block heap (len + 1)).set len 0), none, 0⟩)
  | copied (r : ReadResult) (hlen : len ≠ 0) (hr : Copied fd offset len (block heap (len + 1)) r)
      (ho : o = ⟨some (r.buf.set len 0), r.err, r.calls⟩)

theorem readCstringOfft_yields (h : Served fd) (offset : Nat) : ∃ len, FoundAt (fd.mem.drop offset) len ∧
    ∀ heap, ∃ o, Returned fd heap offset len o ∧ Yields (readCstringOfft fd heap offset ·) o := by
  obtain ⟨s, hfound, hsearch⟩ := search_yields h offset
  refine ⟨s.end_ + s.i - offset, hfound, fun heap => ?_⟩
  by_cases hlen : s.end_ + s.i - offset = 0
  · refine ⟨_, .empty hlen rfl, ?_⟩
    simp only [readCstringOfft, h.lseek]
    refine hsearch.bind ?_
    simp only [h.malloc, hlen, ne_eq, not_true, if_false, Bool.true_eq_false]
    exact .pure _
  · obtain ⟨r, hr, hyields⟩ := readOfft_yields fd offset _ (length_block heap (s.end_ + s.i - offset + 1))
    refine ⟨_, .copied r hlen hr rfl, ?_⟩
    simp only [readCstringOfft, h.lseek]
    refine hsearch.bind ?_
    simp only [h.malloc, hlen, ne_eq, not_false_iff, if_true, if_false, Bool.true_eq_false]
    exact hyields.bind (.pure _)

theorem length_cString_le {str : Bytes} {i : Nat} (h : str[i]? = some 0) : (cString str).length ≤ i := by
  induction str generalizing i with
  | nil => cases h
  | cons b str ih =>
    rw [cString, List.takeWhile_cons]
    split_ifs with hb
    · cases i with
      | zero =>
        rw [List.getElem?_cons_zero, Option.some.injEq] at h
        simp [h] at hb
      | succ i => exact Nat.succ_le_succ (ih h)
    · exact Nat.zero_le i

theorem lt_length_cString {str : Bytes} {i : Nat} (h : ∀ j ≤ i, ∃ b, str[j]? = some b ∧ b ≠ 0) : i < (cString str).length := by
  induction str generalizing i with
  | nil =>
    obtain ⟨b, hb, -⟩ := h 0 (Nat.zero_le i)
    cases hb
  | cons b str ih =>
    obtain ⟨b', hb, hne⟩ := h 0 (Nat.zero_le i)
    obtain rfl : b = b' := Option.some.inj hb
    rw [cString, List.takeWhile_cons, if_pos (decide_eq_true hne), List.length_cons]
    cases i with
    | zero => exact Nat.succ_pos _
    | succ i => exact Nat.succ_lt_succ (ih fun j hj => h (j + 1) (Nat.succ_le_succ hj))

/-- The string is there once all of it is stored. -/
theorem cString_all {data : Bytes} (hne : ∀ b ∈ data, b ≠ 0) (heap : Nat → UInt8) :
    cString ((overlay data (block heap (data.length + 1)) data.length).set data.length 0) = data := by
  obtain ⟨b, hb⟩ : ∃ b, (block heap (data.length + 1)).drop data.length = [b] :=
    List.length_eq_one_iff.1 (by simp)
  rw [overlay, List.take_length, hb, List.set_append_right _ _ (Nat.le_refl _), Nat.sub_self, List.set_cons_zero, cString,
    List.takeWhile_append_of_pos fun b hb => decide_eq_true (hne b hb)]
  simp

/-- Of a part of it, not more is there, if the rest of the block is zero. -/
theorem length_cString_zeros {data : Bytes} {len top : Nat} (htop : top ≤ data.length) (hlt : top < len) :
    (cString ((overlay data (block (fun _ => 0) (len + 1)) top).set len 0)).length ≤ top := by
  refine length_cString_le ?_
  rw [List.getElem?_set_ne (by omega), overlay, List.getElem?_append, List.length_take, Nat.min_eq_left htop,
    if_neg (Nat.lt_irrefl top), block, List.getElem?_drop, List.getElem?_map, List.getElem?_range (by omega)]
  rfl

/-- Without a `\0` the string runs into the rest of the block, if that is not zero. -/
theorem length_lt_cString_ones {data : Bytes} {len top : Nat} (htop : top ≤ data.length) (hne : ∀ b ∈ data, b ≠ 0) (hlt : data.length < len) :
    data.length < (cString ((overlay data (block (fun _ => 1) (len + 1)) top).set len 0)).length := by
  refine lt_length_cString fun j hj => ?_
  rw [List.getElem?_set_ne (by omega), overlay, List.getElem?_append, List.length_take, Nat.min_eq_left htop]
  split_ifs with hlt'
  · rw [List.getElem?_take_of_lt hlt', List.getElem?_eq_getElem (by omega)]
    exact ⟨_, rfl, hne _ (List.getElem_mem _)⟩
  · refine ⟨1, ?_, by decide⟩
    rw [block, List.getElem?_drop, List.getElem?_map, List.getElem?_range (by omega)]
    rfl

/-- `NULL` comes with an exception. -/
theorem err_of_result_eq_none {heap : Nat → UInt8} {offset fuel : Nat} {o : Outcome}
    (h : readCstringOfft fd heap offset fuel = some o) (hnull : o.result = none) : o.err ≠ none := by
  unfold readCstringOfft at h
  split at h
  · cases h
    exact Option.some_ne_none _
  · obtain ⟨found, -, h⟩ := Option.bind_eq_some_iff.1 h
    cases found with
    | error errno =>
      cases h
      exact Option.some_ne_none _
    | ok s =>
      simp only [Nat.not_lt_zero, if_false] at h
      split_ifs at h with hmalloc hlen
      · cases h
        exact Option.some_ne_none _
      · obtain ⟨r, -, hr⟩ := Option.bind_eq_some_iff.1 h
        cases hr
        cases hnull
      · cases h
        cases hnull

/-- A copy that is right has its bytes stored. -/
theorem Copied.of_right {offset len : Nat} {heap : Nat → UInt8} {r : ReadResult} (hr : Copied fd offset len (block heap (len + 1)) r)
    (hright : Right fd offset ⟨some (r.buf.set len 0), r.err, r.calls⟩) : ∃ top ≤ (wanted fd offset len).length,
      cString ((overlay (wanted fd offset len) (block heap (len + 1)) top).set len 0) = stringAt fd.mem offset ∧
      (Fills fd offset len 0 0 0 ↔ top = len) := by
  cases hr with
  | stored top herr hok htop hbuf hfills =>
    refine ⟨top, htop, ?_, hfills⟩
    rw [← hbuf]
    exact Option.some.inj (hright.served hok).2
  | failed herr hfills =>
    have hok : ∀ k < r.calls, ∃ most, fd.pread k = .ok most := by
      intro k hk
      cases hpread : fd.pread k with
      | ok most => exact ⟨most, rfl⟩
      | error errno => cases (hright.failed ⟨k, hk, errno, hpread⟩).1
    exact absurd (hright.served hok).1 herr

theorem ReadsString.returned {offset len : Nat} (h : ReadsString fd offset)
    (hret : ∀ heap, ∃ o, Returned fd heap offset len o ∧ Yields (readCstringOfft fd heap offset ·) o) (heap : Nat → UInt8) :
    ∃ o, Returned fd heap offset len o ∧ Right fd offset o := by
  obtain ⟨o, ho, hyields⟩ := hret heap
  obtain ⟨o', hright, hyields'⟩ := h heap
  obtain rfl := hyields.unique hyields'
  exact ⟨o, ho, hright⟩

theorem stringAt_ne_zero {mem : Bytes} {offset : Nat} : ∀ b ∈ stringAt mem offset, b ≠ 0 := by
  intro b hb
  simpa using List.mem_takeWhile_imp hb

theorem wanted_stringAt (fd : AddressSpaceFile) (offset : Nat) : wanted fd offset (stringAt fd.mem offset).length = stringAt fd.mem offset :=
  (List.prefix_iff_eq_take.1 (List.takeWhile_prefix _)).symm

/-- The string, when no `pread` failed. -/
theorem Right.of_ok {offset : Nat} {o : Outcome} (hok : ∀ k < o.preads, ∃ most, fd.pread k = .ok most) (herr : o.err = none)
    (hresult : o.result.map cString = some (stringAt fd.mem offset)) : Right fd offset o where
  failed := by
    rintro ⟨k, hk, errno, hpread⟩
    obtain ⟨most, hmost⟩ := hok k hk
    rw [hpread] at hmost
    cases hmost
  served _ := ⟨herr, hresult⟩

theorem Returned.right {offset : Nat} {heap : Nat → UInt8} {o : Outcome} (ho : Returned fd heap offset (stringAt fd.mem offset).length o)
    (hfills : Fills fd offset (stringAt fd.mem offset).length 0 0 0) : Right fd offset o := by
  cases ho with
  | empty hlen ho =>
    subst ho
    rw [List.length_eq_zero_iff] at hlen
    exact .of_ok (fun k hk => absurd hk (Nat.not_lt_zero k)) rfl (by rw [hlen]; rfl)
  | copied r hlen hr ho =>
    subst ho
    cases hr with
    | failed _ hnot => exact absurd hfills hnot
    | stored top herr hok htop hbuf hiff =>
      refine .of_ok hok herr ?_
      rw [hbuf, hiff.1 hfills, wanted_stringAt]
      exact congrArg some (cString_all stringAt_ne_zero heap)

/-- In a block of zeros a part of the string is not the string. -/
theorem Returned.fills {offset : Nat} {o : Outcome} (ho : Returned fd (fun _ => 0) offset (stringAt fd.mem offset).length o)
    (hright : Right fd offset o) : Fills fd offset (stringAt fd.mem offset).length 0 0 0 := by
  cases ho with
  | empty hlen _ =>
    rw [hlen]
    exact .all
  | copied r hlen hr ho =>
    subst ho
    obtain ⟨top, htop, hstring, hfills⟩ := hr.of_right hright
    rw [wanted_stringAt] at htop hstring
    refine hfills.2 (by_contra fun hne => ?_)
    have hlt : top < (stringAt fd.mem offset).length := by omega
    have hle := length_cString_zeros htop hlt
    rw [hstring] at hle
    omega

/-- In a block of ones no string ends where the readable data do. -/
theorem Returned.hasEnd {offset len : Nat} {o : Outcome} (ho : Returned fd (fun _ => 1) offset len o)
    (hfound : FoundAt (fd.mem.drop offset) len) (hright : Right fd offset o) : HasEnd (fd.mem.drop offset) := by
  by_contra hend
  have hlt := hfound.past_end hend
  cases ho with
  | empty hlen _ => omega
  | copied r hlen hr ho =>
    subst ho
    obtain ⟨top, htop, hstring, -⟩ := hr.of_right hright
    have hwanted : wanted fd offset len = fd.mem.drop offset := List.take_of_length_le hlt.le
    rw [hwanted] at htop hstring
    have hlonger := length_lt_cString_ones htop (fun b hb h0 => hend (Or.inr (h0 ▸ hb))) hlt
    rw [hstring, stringAt] at hlonger
    have hle := (List.takeWhile_prefix (l := fd.mem.drop offset) (· ≠ 0)).length_le
    omega

/-- **A string is read right** if and only if it ends before the readable data do, or there are none, and every `pread` of
the copy succeeds, with a reply that survives in an `int`. -/
theorem readCstringOfft_iff (h : Served fd) (offset : Nat) : ReadsString fd offset ↔
    HasEnd (fd.mem.drop offset) ∧ Fills fd offset (stringAt fd.mem offset).length 0 0 0 := by
  obtain ⟨len, hfound, hret⟩ := readCstringOfft_yields h offset
  constructor
  · intro hreads
    obtain ⟨o, ho, hright⟩ := hreads.returned hret fun _ => 1
    have hend := ho.hasEnd hfound hright
    obtain rfl : len = (stringAt fd.mem offset).length := hfound.at_end hend
    obtain ⟨o', ho', hright'⟩ := hreads.returned hret fun _ => 0
    exact ⟨hend, ho'.fills hright'⟩
  · rintro ⟨hend, hfills⟩ heap
    obtain rfl : len = (stringAt fd.mem offset).length := hfound.at_end hend
    obtain ⟨o, ho, hyields⟩ := hret heap
    exact ⟨o, ho.right hfills, hyields⟩

/-- A system that reads two bytes at a time. -/
def pairs (mem : Bytes) (pread : Nat → Except Errno Nat) : AddressSpaceFile where
  mem
  lseek := .ok ()
  read _ := .ok 2
  pread
  malloc := true
  errno := .other 0

theorem readsString_pairs : ReadsString (pairs [1, 65, 66, 67, 0, 68] fun _ => .ok 2) 1 :=
  (readCstringOfft_iff ⟨rfl, fun _ => ⟨2, rfl⟩, rfl⟩ 1).2
    ⟨Or.inr (by decide), fills_of_ok (fun _ => ⟨2, rfl⟩) (by decide) (by decide) (Nat.zero_le _)⟩

/-- Three bytes without a `\0`, and a string whose second `pread` fails. -/
theorem not_readsString : ¬ReadsString (pairs [65, 66, 67] fun _ => .ok 2) 0 ∧
    ¬ReadsString (pairs [65, 66, 67, 0] fun k => if k = 1 then .error .eacces else .ok 2) 0 := by
  constructor
  · intro h
    obtain ⟨o, hright, enough, ho⟩ := h fun _ => 68
    have heval : readCstringOfft (pairs [65, 66, 67] fun _ => .ok 2) (fun _ => 68) 0 (enough + 4) =
        some ⟨some [65, 66, 67, 68, 0], none, 3⟩ := rfl
    obtain rfl := Option.some.inj (heval.symm.trans (ho (enough + 4) (by omega)))
    cases (hright.served fun k _ => ⟨2, rfl⟩).2
  · intro h
    obtain ⟨o, hright, enough, ho⟩ := h fun _ => 68
    have heval : readCstringOfft (pairs [65, 66, 67, 0] fun k => if k = 1 then .error .eacces else .ok 2) (fun _ => 68) 0 (enough + 4) =
        some ⟨some [65, 66, 68, 0], some (.exc (.osError .eacces)), 2⟩ := rfl
    obtain rfl := Option.some.inj (heval.symm.trans (ho (enough + 4) (by omega)))
    cases (hright.failed ⟨1, by decide, .eacces, rfl⟩).1

end Psutil.Sunos
