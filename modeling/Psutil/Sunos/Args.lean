import Psutil.Bsd.Environ
import Psutil.Lib.Blocks
import Psutil.Lib.Words
import Psutil.Sunos.Environ

/-!
# Arguments and environment of another process on SunOS

| here | there |
| --- | --- |
| `readCstringsBlock`, `freeCstringsArray` | `read_cstrings_block`, `psutil_free_cstrings_array` (`arch/sunos/environ.c`) |
| `searchBody`, `searchVectorSize` | `search_pointers_vector_size_offt` |
| `readRawArgs`, `readRawEnv` | `psutil_read_raw_args`, `psutil_read_raw_env` |
| `procNameAndArgs`, `procEnviron` | the two functions of `arch/sunos/proc.c` |

All blocks are numbered and in a ledger. The text of a string is its bytes. Python objects are counted right where that is not the
matter; `Memory` says which of them can be made.
-/

namespace Psutil.Sunos.Args

open Lib

inductive DataModel where
  | ilp32 | lp64
  deriving DecidableEq

/-- What is read of `psinfo_t`. The strings end at their NUL. -/
structure PsInfo where
  dmodel : DataModel
  argv : Nat
  argc : Nat
  envp : Nat
  fname : Bytes
  psargs : Bytes

/-- The address space, and how the system serves the calls on it: those for the vector of pointers and those for each string. -/
structure Host where
  /-- `_LP64` -/
  lp64 : Bool
  bigEndian : Bool
  open_ : Except Errno Unit
  /-- The `read`s that count the pointers. -/
  search : AddressSpaceFile
  vector : AddressSpaceFile
  string : Nat → AddressSpaceFile
  calloc : Bool
  /-- What a block holds at first. -/
  heap : Nat → Nat → UInt8

/-- A `char **`, with the blocks of the array and of its strings. -/
structure CArray where
  block : Nat
  strings : List (Nat × Bytes)

/-- All blocks of an array. -/
def CArray.blocks (a : CArray) : List Nat := a.strings.map Prod.fst ++ [a.block]

def freeCstringsArray (a : CArray) (b : Blocks) : Blocks := b.freeAll a.blocks

def ptrSize (info : PsInfo) : Nat := if info.dmodel = .ilp32 then 4 else 8

/-- `((uint32_t *)pblock)[i]` or `((uint64_t *)pblock)[i]`. -/
def pointerAt (bigEndian : Bool) (size : Nat) (pblock : Bytes) (i : Nat) : Nat := wordAt bigEndian size pblock (size * i)

variable (sys : Host)

/-- The `for` loop. It is left with all strings, or with those before one that cannot be read. -/
def readStrings (fuel : Nat) : List Nat → CArray → Option CErr → Blocks → Option (Bool × CArray × Option CErr × Blocks)
  | [], a, err, b => some (true, a, err, b)
  | offset :: offsets, a, err, b =>
    (readCstringOfft (sys.string a.strings.length) (sys.heap b.requests.length) offset fuel).bind fun o =>
      match o.result with
      | none => some (false, a, o.err, b)
      | some str =>
        let id := b.requests.length
        readStrings fuel offsets { a with strings := a.strings ++ [(id, str)] } (o.err.or err) (b.alloc str.length true).1

/-- What `read_cstrings_block` returns, the exception that is set, and the blocks. -/
structure ArrayResult where
  result : Option CArray
  err : Option CErr
  blocks : Blocks

def readCstringsBlock (offset size count fuel : Nat) (b : Blocks) : Option ArrayResult :=
  if count = 0 then some ⟨none, none, b⟩
  else
    let pblockSize := size * count
    let p := b.requests.length
    if sys.vector.malloc = false then some ⟨none, some .noMemory, (b.alloc pblockSize false).1⟩
    else
      let b := (b.alloc pblockSize true).1
      (readOfft sys.vector offset (block (sys.heap p) pblockSize) pblockSize fuel).bind fun r =>
        if r.ret ≠ pblockSize then some ⟨none, r.err, b.free (some p)⟩
        else if sys.calloc = false then some ⟨none, some .noMemory, (b.alloc (8 * count) false).1.free (some p)⟩
        else
          let array := b.requests.length
          let b := (b.alloc (8 * count) true).1
          (readStrings sys fuel ((List.range count).map (pointerAt sys.bigEndian size r.buf)) ⟨array, []⟩ r.err b).map
            fun
            | (true, a, err, b) => ⟨some a, err, b.free (some p)⟩
            | (false, a, err, b) => ⟨none, err, (freeCstringsArray a b).free (some p)⟩

/-- One round of `search_pointers_vector_size_offt`, at a position and with a count. -/
structure CountState where
  pos : Nat
  count : Nat

def pointerTruncated : CErr := .exc (.runtimeError "pointer block is truncated")

def countBody (size : Nat) (s : CountState) : Round CountState (Except CErr Nat) :=
  match sys.search.read s.count with
  -- `-1` is not negative as a `size_t`, and not `ptr_size`
  | .error _ => .done (.error pointerTruncated)
  | .ok most =>
    let buf := transfer sys.search.mem s.pos size most
    if buf.length = 0 then .done (.ok s.count)
    else if buf.length ≠ size then .done (.error pointerTruncated)
    else if buf.all (· = 0) then .done (.ok s.count)
    else .next ⟨s.pos + size, s.count + 1⟩

def searchVectorSize (offset size fuel : Nat) : Option (Except CErr Nat) :=
  match sys.search.lseek with
  | .error errno => some (.error (.exc (.osError errno)))
  | .ok () => loop (countBody sys size) fuel ⟨offset, 0⟩

def is64From32 : CErr := .exc (.notImplementedError "can't get env of a 64 bit process from a 32 bit process")

/-- `!is_ptr_dereference_possible(info)`. -/
def impossible (info : PsInfo) : Bool := !sys.lp64 && info.dmodel ≠ .ilp32

def readRawArgs (info : PsInfo) (fuel : Nat) (b : Blocks) : Option ArrayResult :=
  if impossible sys info then some ⟨none, some is64From32, b⟩
  else if info.argv = 0 ∨ info.argc = 0 then some ⟨none, some (.exc (.runtimeError "process doesn't have arguments block")), b⟩
  else match sys.open_ with
    | .error errno => some ⟨none, some (.exc (.osError errno)), b⟩
    | .ok () => readCstringsBlock sys info.argv (ptrSize info) info.argc fuel b

/-- The count is `none` where `*count` is not written. -/
def readRawEnv (info : PsInfo) (fuel : Nat) (b : Blocks) : Option (Option Nat × ArrayResult) :=
  if impossible sys info then some (none, ⟨none, some is64From32, b⟩)
  else match sys.open_ with
    | .error errno => some (none, ⟨none, some (.exc (.osError errno)), b⟩)
    | .ok () =>
      (searchVectorSize sys info.envp (ptrSize info) fuel).bind fun
        | .error e => some (none, ⟨none, some e, b⟩)
        | .ok 0 => some (some 0, ⟨none, none, b⟩)
        | .ok count => (readCstringsBlock sys info.envp (ptrSize info) count fuel b).map fun r => (some count, r)

/-- Which Python objects can be made. -/
structure Memory where
  name : Bool
  list : Bool
  arg : Nat → Bool
  argsStr : Bool
  sep : Bool
  split : Bool
  tuple : Bool
  /-- The name, the value and the entry of the `i`-th variable. -/
  variable_ : Nat → Bool

/-- What a function returns, the exception that is set, and the blocks. -/
structure PyResult (α : Type) where
  value : Option α
  err : Option CErr
  blocks : Blocks

section

variable (m : Memory)

/-- `error:` of `psutil_proc_name_and_args`, which frees `argv` whether it has been freed or not. -/
def nameError (argv : Option CArray) (b : Blocks) : PyResult (Bytes × List Bytes) :=
  ⟨none, some .noMemory, match argv with
    | none => b
    | some a => freeCstringsArray a b⟩

/-- From the return of the list on. -/
def nameReturn (info : PsInfo) (argv : Option CArray) (argsList : List Bytes) (err : Option CErr) (b : Blocks) : PyResult (Bytes × List Bytes) :=
  if m.tuple then ⟨some (info.fname, argsList), err, b⟩ else nameError argv b

/-- The arguments from `/proc`, which clears the exception. -/
def nameFallback (info : PsInfo) (argv : Option CArray) (b : Blocks) : PyResult (Bytes × List Bytes) :=
  if m.argsStr && m.sep && m.split then nameReturn m info argv (info.psargs.splitOn (byte ' ')) none b else nameError argv b

/-- From the call of `psutil_read_raw_args` on. -/
def nameFrom (info : PsInfo) (r : ArrayResult) : PyResult (Bytes × List Bytes) :=
  match r.result with
  | none => nameFallback m info none r.blocks
  | some a =>
    if m.list = false then nameError (some a) r.blocks
    else
      let b := freeCstringsArray a r.blocks
      if a.strings.zipIdx.all fun s => m.arg s.2 then nameReturn m info (some a) (a.strings.map fun s => cString s.2) r.err b
      else nameFallback m info (some a) b

def procNameAndArgs (info : PsInfo) (fuel : Nat) (b : Blocks) : Option (PyResult (Bytes × List Bytes)) :=
  if m.name = false then some (nameError none b) else (readRawArgs sys info fuel b).map (nameFrom m info)

/-- The loop over the variables. It is left with the dictionary, or without memory. -/
def setVariables : List (Nat × Bytes) → Nat → Dict Bytes Bytes → Option (Dict Bytes Bytes)
  | [], _, d => some d
  | (_, env) :: rest, i, d => match Bsd.strchrEq (cString env) with
    | none => setVariables rest (i + 1) d
    | some (name, value) => if m.variable_ i then setVariables rest (i + 1) (d.set name value) else none

/-- From the call of `psutil_read_raw_env` on. -/
def environFrom (count : Option Nat) (r : ArrayResult) : PyResult (Dict Bytes Bytes) :=
  match r.result with
  | none => if count = some 0 then ⟨some ∅, r.err, r.blocks⟩ else ⟨none, r.err, r.blocks⟩
  | some a =>
    match setVariables m a.strings 0 ∅ with
    | some d => ⟨some d, r.err, freeCstringsArray a r.blocks⟩
    | none => ⟨none, some .noMemory, freeCstringsArray a r.blocks⟩

def procEnviron (info : PsInfo) (fuel : Nat) (b : Blocks) : Option (PyResult (Dict Bytes Bytes)) :=
  if info.envp = 0 then some ⟨none, some (.exc (.osError .eacces)), b⟩
  else (readRawEnv sys info fuel b).map fun (count, r) => environFrom m count r

end

/-! ## Every call comes to an end -/

section

variable (fd : AddressSpaceFile)

theorem length_transfer (mem : Bytes) (pos size most : Nat) :
    (transfer mem pos size most).length = min (min (max 1 most) size) (mem.length - pos) := by
  rw [transfer_eq, List.length_take, List.length_drop]

theorem search_total (s : SearchState) : ∃ found, Yields (loop (searchBody fd) · s) found := by
  refine loop_total (μ := fun s => fd.mem.length - s.end_) (fun s => ?_) s
  rw [searchBody]
  cases fd.read s.calls with
  | error errno => trivial
  | ok most =>
    have hlen := length_transfer fd.mem s.end_ stringSearchBufSize most
    dsimp only
    split_ifs with hnil hfound
    · trivial
    · trivial
    · dsimp only [Round.Meets]
      omega

theorem readOfft_total (offset : Nat) (buf : Bytes) (size : Nat) : ∃ r, Yields (readOfft fd offset buf size) r := by
  refine loop_total (μ := ReadState.toRead) (fun s => ?_) ⟨size, 0, buf, 0⟩
  rw [readOfftBody]
  split_ifs with hzero
  · trivial
  · cases fd.pread s.calls with
    | error errno => trivial
    | ok most =>
      dsimp only
      split_ifs with hneg hnil
      · trivial
      · trivial
      · dsimp only [Round.Meets]
        omega

theorem readCstringOfft_total (heap : Nat → UInt8) (offset : Nat) : ∃ o, Yields (readCstringOfft fd heap offset ·) o := by
  simp only [readCstringOfft]
  cases fd.lseek with
  | error errno => exact ⟨_, .pure _⟩
  | ok _ =>
    obtain ⟨found, hfound⟩ := search_total fd ⟨offset, 0, 0⟩
    cases found with
    | error errno => exact ⟨_, hfound.bind (.pure _)⟩
    | ok s =>
      by_cases hmalloc : fd.malloc = false
      · exact ⟨_, hfound.bind (by simp only [hmalloc, if_true]; exact .pure _)⟩
      · by_cases hlen : s.end_ + s.i - offset = 0
        · exact ⟨_, hfound.bind (by simp only [hmalloc, hlen, ne_eq, not_true, if_false]; exact .pure _)⟩
        · obtain ⟨r, hr⟩ := readOfft_total fd offset (block heap (s.end_ + s.i - offset + 1)) (s.end_ + s.i - offset)
          refine ⟨⟨some (r.buf.set (s.end_ + s.i - offset) 0), r.err, r.calls⟩, hfound.bind ?_⟩
          simp only [hmalloc, hlen, ne_eq, not_false_iff, if_true, if_false, Nat.not_lt_zero]
          exact hr.bind (.pure _)

end

section

variable {sys : Host}

theorem count_total (size : Nat) (hsize : 0 < size) (s : CountState) : ∃ n, Yields (loop (countBody sys size) · s) n := by
  refine loop_total (μ := fun s => sys.search.mem.length - s.pos) (fun s => ?_) s
  rw [countBody]
  cases sys.search.read s.count with
  | error errno => trivial
  | ok most =>
    have hlen := length_transfer sys.search.mem s.pos size most
    dsimp only
    split_ifs with hnil hfull hzero
    · trivial
    · trivial
    · trivial
    · dsimp only [Round.Meets]
      omega

theorem searchVectorSize_total (sys : Host) (offset : Nat) {size : Nat} (hsize : 0 < size) : ∃ n, Yields (searchVectorSize sys offset size) n := by
  unfold searchVectorSize
  cases sys.search.lseek with
  | error errno => exact ⟨_, .pure _⟩
  | ok _ => exact count_total size hsize ⟨offset, 0⟩

/-! ## The blocks -/

/-- The blocks of the array are held beside those of `own`, each under one name. -/
structure Holding (a : CArray) (own : List Nat) (b : Blocks) : Prop where
  holds : b.HoldsAll (a.blocks ++ own)
  nodup : a.blocks.Nodup
  apart : ∀ x ∈ a.blocks, x ∉ own

theorem Holding.string {a : CArray} {own : List Nat} {b : Blocks} (h : Holding a own b) (str : Bytes) :
    Holding { a with strings := a.strings ++ [(b.requests.length, str)] } own (b.alloc str.length true).1 := by
  have hnew : ∀ x ∈ a.blocks ++ own, x ≠ b.requests.length := fun x hx => Nat.ne_of_lt (h.holds.lt_requests hx)
  have hblocks : { a with strings := a.strings ++ [(b.requests.length, str)] : CArray }.blocks =
      a.strings.map Prod.fst ++ b.requests.length :: [a.block] := by simp [CArray.blocks]
  have hperm : (a.strings.map Prod.fst ++ b.requests.length :: [a.block]).Perm (b.requests.length :: a.blocks) := List.perm_middle
  refine ⟨(h.holds.alloc str.length).congr fun x => ?_, ?_, fun x hx => ?_⟩
  · rw [hblocks, List.mem_append, hperm.mem_iff, ← List.mem_append, List.cons_append]
  · rw [hblocks, hperm.nodup_iff]
    exact List.nodup_cons.2 ⟨fun hx => hnew _ (List.mem_append_left _ hx) rfl, h.nodup⟩
  · rw [hblocks, hperm.mem_iff] at hx
    rcases List.mem_cons.1 hx with rfl | hx
    · exact fun hown => hnew _ (List.mem_append_right _ hown) rfl
    · exact h.apart x hx

/-- `psutil_free_cstrings_array` gives all blocks of the array back. -/
theorem Holding.free {a : CArray} {own : List Nat} {b : Blocks} (h : Holding a own b) : (freeCstringsArray a b).HoldsAll own :=
  (h.holds.freeAll h.nodup fun _ hx => List.mem_append_left _ hx).congr fun x => by
    rw [List.mem_filter, List.mem_append, decide_eq_true_eq]
    exact ⟨fun ⟨hx, hnot⟩ => hx.resolve_left hnot, fun hx => ⟨Or.inr hx, fun ha => h.apart x ha hx⟩⟩

/-- `free(pblock)`. -/
theorem holdsAll_free_last {own : List Nat} {p : Nat} {b : Blocks} (h : b.HoldsAll (own ++ [p])) (hp : p ∉ own) :
    (b.free (some p)).HoldsAll own :=
  (h.free (List.mem_append_right _ (List.mem_singleton_self p))).congr fun x => by
    rw [List.mem_filter, List.mem_append, List.mem_singleton, decide_eq_true_eq]
    constructor
    · rintro ⟨hx, hne⟩
      exact hx.resolve_right hne
    · intro hx
      exact ⟨Or.inl hx, fun heq => hp (heq ▸ hx)⟩

theorem readStrings_holding {fuel : Nat} {offsets : List Nat} {a a' : CArray} {err err' : Option CErr} {b b' : Blocks} {ok : Bool}
    {own : List Nat} (hret : readStrings sys fuel offsets a err b = some (ok, a', err', b')) (h : Holding a own b) : Holding a' own b' := by
  induction offsets generalizing a err b with
  | nil =>
    cases hret
    exact h
  | cons offset offsets ih =>
    rw [readStrings] at hret
    obtain ⟨o, -, ho⟩ := Option.bind_eq_some_iff.1 hret
    dsimp only at ho
    split at ho
    · cases ho
      exact h
    · exact ih ho (h.string _)

theorem readStrings_total (sys : Host) (offsets : List Nat) (a : CArray) (err : Option CErr) (b : Blocks) :
    ∃ o, Yields (readStrings sys · offsets a err b) o := by
  induction offsets generalizing a err b with
  | nil => exact ⟨_, .pure _⟩
  | cons offset offsets ih =>
    obtain ⟨o, ho⟩ := readCstringOfft_total (sys.string a.strings.length) (sys.heap b.requests.length) offset
    simp only [readStrings]
    cases hresult : o.result with
    | none => exact ⟨_, ho.bind (by simp only [hresult]; exact .pure _)⟩
    | some str =>
      obtain ⟨o', ho'⟩ := ih { a with strings := a.strings ++ [(b.requests.length, str)] } (o.err.or err) (b.alloc str.length true).1
      exact ⟨o', ho.bind (by simp only [hresult]; exact ho')⟩

/-- What is returned is held, and nothing else. -/
def ArrayResult.Owned (r : ArrayResult) : Prop :=
  match r.result with
  | none => r.blocks.HoldsAll []
  | some a => Holding a [] r.blocks

theorem readCstringsBlock_owned (sys : Host) (offset size count : Nat) {b : Blocks} (hb : b.HoldsAll []) :
    ∃ r, r.Owned ∧ Yields (readCstringsBlock sys offset size count · b) r := by
  simp only [readCstringsBlock]
  by_cases hcount : count = 0
  · simp only [if_pos hcount]
    exact ⟨⟨none, none, b⟩, hb, .pure _⟩
  by_cases hmalloc : sys.vector.malloc = false
  · simp only [if_neg hcount, if_pos hmalloc]
    exact ⟨⟨none, some .noMemory, _⟩, hb.refused (size * count), .pure _⟩
  · simp only [if_neg hcount, if_neg hmalloc]
    have hp := hb.alloc (size * count)
    obtain ⟨r, hr⟩ := readOfft_total sys.vector offset (block (sys.heap b.requests.length) (size * count)) (size * count)
    by_cases hret : r.ret = size * count
    · by_cases hcalloc : sys.calloc = false
      · refine ⟨⟨none, some .noMemory, _⟩, holdsAll_free_last (hp.refused (8 * count)) List.not_mem_nil, hr.bind ?_⟩
        simp only [hret, hcalloc, ne_eq, not_true, if_true, if_false]
        exact .pure _
      · have hstart : Holding ⟨(b.alloc (size * count) true).1.requests.length, []⟩ [b.requests.length]
            ((b.alloc (size * count) true).1.alloc (8 * count) true).1 := by
          refine ⟨hp.alloc (8 * count), List.nodup_singleton _, fun x hx => ?_⟩
          obtain rfl := List.mem_singleton.1 hx
          simp [Blocks.alloc]
        obtain ⟨⟨ok, a, err, b'⟩, hyields⟩ := readStrings_total sys ((List.range count).map (pointerAt sys.bigEndian size r.buf))
          ⟨(b.alloc (size * count) true).1.requests.length, []⟩ r.err ((b.alloc (size * count) true).1.alloc (8 * count) true).1
        have hold : Holding a [b.requests.length] b' := by
          obtain ⟨enough, hrun⟩ := hyields
          exact readStrings_holding (hrun enough le_rfl) hstart
        have hapart : b.requests.length ∉ a.blocks := fun hx => hold.apart _ hx (List.mem_singleton_self _)
        cases ok with
        | true =>
          refine ⟨⟨some a, err, b'.free (some b.requests.length)⟩, ⟨?_, hold.nodup, fun _ _ => List.not_mem_nil⟩, hr.bind ?_⟩
          · rw [List.append_nil]
            exact holdsAll_free_last hold.holds hapart
          · simp only [hret, hcalloc, ne_eq, not_true, if_false]
            exact hyields.map _
        | false =>
          refine ⟨⟨none, err, (freeCstringsArray a b').free (some b.requests.length)⟩, holdsAll_free_last hold.free List.not_mem_nil, hr.bind ?_⟩
          simp only [hret, hcalloc, ne_eq, not_true, if_false]
          exact hyields.map _
    · refine ⟨⟨none, r.err, _⟩, holdsAll_free_last hp List.not_mem_nil, hr.bind ?_⟩
      simp only [hret, ne_eq, not_false_iff, if_true]
      exact .pure _

theorem ptrSize_pos (info : PsInfo) : 0 < ptrSize info := by
  rw [ptrSize]
  split_ifs <;> decide

theorem readRawArgs_owned (sys : Host) (info : PsInfo) {b : Blocks} (hb : b.HoldsAll []) : ∃ r, r.Owned ∧ Yields (readRawArgs sys info · b) r := by
  simp only [readRawArgs]
  split_ifs
  · exact ⟨⟨none, _, b⟩, hb, .pure _⟩
  · exact ⟨⟨none, _, b⟩, hb, .pure _⟩
  · cases sys.open_ with
    | error errno => exact ⟨⟨none, _, b⟩, hb, .pure _⟩
    | ok _ => exact readCstringsBlock_owned sys info.argv (ptrSize info) info.argc hb

theorem readRawEnv_owned (sys : Host) (info : PsInfo) {b : Blocks} (hb : b.HoldsAll []) :
    ∃ count r, r.Owned ∧ Yields (readRawEnv sys info · b) (count, r) := by
  simp only [readRawEnv]
  split_ifs
  · exact ⟨none, ⟨none, _, b⟩, hb, .pure _⟩
  · cases sys.open_ with
    | error errno => exact ⟨none, ⟨none, _, b⟩, hb, .pure _⟩
    | ok _ =>
      obtain ⟨n, hn⟩ := searchVectorSize_total sys info.envp (ptrSize_pos info)
      cases n with
      | error e => exact ⟨none, ⟨none, some e, b⟩, hb, hn.bind (.pure _)⟩
      | ok count =>
        cases count with
        | zero => exact ⟨some 0, ⟨none, none, b⟩, hb, hn.bind (.pure _)⟩
        | succ count =>
          obtain ⟨r, hr, hyields⟩ := readCstringsBlock_owned sys info.envp (ptrSize info) (count + 1) hb
          exact ⟨some (count + 1), r, hr, hn.bind (hyields.map _)⟩

theorem procEnviron_freedOnce (m : Memory) (info : PsInfo) :
    ∃ o, o.blocks.FreedOnce ∧ Yields (procEnviron sys m info · .empty) o := by
  simp only [procEnviron]
  split_ifs
  · exact ⟨⟨none, _, .empty⟩, Blocks.HoldsAll.empty.freedOnce, .pure _⟩
  · obtain ⟨count, r, hr, hyields⟩ := readRawEnv_owned sys info .empty
    refine ⟨environFrom m count r, ?_, hyields.map _⟩
    rw [ArrayResult.Owned] at hr
    rw [environFrom]
    split at hr
    · split_ifs <;> exact hr.freedOnce
    · split <;> exact hr.free.freedOnce

/-! ### A second `free` -/

variable (m : Memory)

/-- Whether memory runs out after `argv` has been freed. -/
def FreesTwice (r : ArrayResult) : Prop :=
  m.name = true ∧ m.list = true ∧ ∃ a, r.result = some a ∧
    (m.tuple = false ∨ (a.strings.zipIdx.all fun s => m.arg s.2) = false ∧ (m.argsStr && m.sep && m.split) = false)

theorem log_freeAll (b : Blocks) (bs : List Nat) : (b.freeAll bs).log = (bs.map Ledger.Op.release).reverse ++ b.log := by
  induction bs generalizing b with
  | nil => rfl
  | cons x bs ih =>
    rw [Blocks.freeAll, List.foldl_cons]
    change ((b.free (some x)).freeAll bs).log = _
    rw [ih, List.map_cons, List.reverse_cons, List.append_assoc]
    rfl

/-- A block of an array that is freed twice. -/
theorem Holding.freed_twice {a : CArray} {b : Blocks} (h : Holding a [] b) {x : Nat} (hx : x ∈ a.blocks) :
    (freeCstringsArray a (freeCstringsArray a b)).log.count (.release x) = 2 := by
  have hcount : (a.blocks.map (Ledger.Op.release (ρ := Nat))).reverse.count (.release x) = 1 := by
    rw [List.count_reverse]
    refine List.count_eq_one_of_mem (h.nodup.map fun _ _ heq => ?_) (List.mem_map_of_mem hx)
    cases heq
    rfl
  have hzero : b.log.count (.release x) = 0 := by
    have hcounts := h.holds.owns.legal.counts x
    rw [(h.holds.owns.live x).2 (List.mem_append_left _ hx)] at hcounts
    exact hcounts.2.1
  rw [freeCstringsArray, log_freeAll, freeCstringsArray, log_freeAll, List.count_append, List.count_append, hcount, hzero]

/-- The same, for the whole ledger. -/
theorem Holding.not_freedOnce {a : CArray} {b : Blocks} (h : Holding a [] b) : ¬(freeCstringsArray a (freeCstringsArray a b)).FreedOnce := by
  intro honce
  have hmem : a.block ∈ a.blocks := List.mem_append_right _ (List.mem_singleton_self _)
  have hcounts := h.holds.owns.legal.counts a.block
  rw [(h.holds.owns.live a.block).2 (List.mem_append_left _ hmem)] at hcounts
  have hacquired : .acquire a.block ∈ b.log := List.count_pos_iff.1 (by rw [hcounts.1]; exact Nat.one_pos)
  have hreleased := (honce a.block ?_).2
  · rw [h.freed_twice hmem] at hreleased
    cases hreleased
  · rw [freeCstringsArray, log_freeAll, freeCstringsArray, log_freeAll]
    exact List.mem_append_right _ (List.mem_append_right _ hacquired)

/-- What becomes of the blocks that `psutil_read_raw_args` returned. -/
structure NameFrees (r : ArrayResult) (o : PyResult (Bytes × List Bytes)) : Prop where
  once : o.blocks.FreedOnce ↔ ¬FreesTwice m r
  value : FreesTwice m r → o.value = none
  twice : FreesTwice m r → ∀ a, r.result = some a → ∀ x ∈ a.blocks, o.blocks.log.count (.release x) = 2

variable {m}

theorem NameFrees.of_not {r : ArrayResult} {o : PyResult (Bytes × List Bytes)} (hnot : ¬FreesTwice m r) (h : o.blocks.FreedOnce) : NameFrees m r o :=
  ⟨iff_of_true h hnot, fun ht => absurd ht hnot, fun ht => absurd ht hnot⟩

theorem NameFrees.of_twice {r : ArrayResult} {a : CArray} {o : PyResult (Bytes × List Bytes)} (ht : FreesTwice m r) (hresult : r.result = some a)
    (hr : Holding a [] r.blocks) (hvalue : o.value = none) (hblocks : o.blocks = freeCstringsArray a (freeCstringsArray a r.blocks)) :
    NameFrees m r o := by
  refine ⟨iff_of_false ?_ (not_not_intro ht), fun _ => hvalue, fun _ a' ha' x hx => ?_⟩
  · rw [hblocks]
    exact hr.not_freedOnce
  · rw [hresult] at ha'
    cases ha'
    rw [hblocks]
    exact hr.freed_twice hx

theorem nameFrom_frees (info : PsInfo) {r : ArrayResult} (hname : m.name = true) (hr : r.Owned) : NameFrees m r (nameFrom m info r) := by
  rw [ArrayResult.Owned] at hr
  rw [nameFrom]
  cases hresult : r.result with
  | none =>
    rw [hresult] at hr
    have hnot : ¬FreesTwice m r := by
      rintro ⟨-, -, a, ha, -⟩
      rw [hresult] at ha
      cases ha
    refine .of_not hnot ?_
    dsimp only
    rw [nameFallback, nameReturn]
    split_ifs <;> exact hr.freedOnce
  | some a =>
    rw [hresult] at hr
    have honce : (freeCstringsArray a r.blocks).FreedOnce := hr.free.freedOnce
    have hiff : FreesTwice m r ↔ m.list = true ∧ (m.tuple = false ∨
        (a.strings.zipIdx.all fun s => m.arg s.2) = false ∧ (m.argsStr && m.sep && m.split) = false) := by
      rw [FreesTwice, hresult]
      simp [hname]
    dsimp only
    by_cases hlist : m.list = false
    · rw [if_pos hlist]
      exact .of_not (by rw [hiff, hlist]; simp) honce
    rw [if_neg hlist]
    rw [Bool.not_eq_false] at hlist
    -- the list of the arguments, or that of `pr_psargs`, and then the tuple
    by_cases hall : (a.strings.zipIdx.all fun s => m.arg s.2) = true
    · rw [if_pos hall, nameReturn]
      by_cases htuple : m.tuple = true
      · rw [if_pos htuple]
        exact .of_not (by rw [hiff, hall, htuple]; simp) honce
      · rw [if_neg htuple]
        exact .of_twice (hiff.2 ⟨hlist, Or.inl (Bool.not_eq_true _ ▸ htuple)⟩) hresult hr rfl rfl
    · rw [if_neg hall, nameFallback]
      by_cases hpy : (m.argsStr && m.sep && m.split) = true
      · rw [if_pos hpy, nameReturn]
        by_cases htuple : m.tuple = true
        · rw [if_pos htuple]
          exact .of_not (by rw [hiff, hpy, htuple]; simp) honce
        · rw [if_neg htuple]
          exact .of_twice (hiff.2 ⟨hlist, Or.inl (Bool.not_eq_true _ ▸ htuple)⟩) hresult hr rfl rfl
      · rw [if_neg hpy]
        exact .of_twice (hiff.2 ⟨hlist, Or.inr ⟨Bool.not_eq_true _ ▸ hall, Bool.not_eq_true _ ▸ hpy⟩⟩) hresult hr rfl rfl

theorem procNameAndArgs_frees (m : Memory) (info : PsInfo) :
    ∃ r o, Yields (readRawArgs sys info · .empty) r ∧ Yields (procNameAndArgs sys m info · .empty) o ∧ NameFrees m r o := by
  obtain ⟨r, hr, hyields⟩ := readRawArgs_owned sys info .empty
  refine ⟨r, ?_⟩
  simp only [procNameAndArgs]
  by_cases hname : m.name = false
  · simp only [if_pos hname]
    refine ⟨nameError none .empty, hyields, .pure _, .of_not (fun ht => ?_) (Blocks.HoldsAll.empty.freedOnce)⟩
    rw [FreesTwice, hname] at ht
    exact Bool.false_ne_true ht.1
  · simp only [if_neg hname]
    exact ⟨nameFrom m info r, hyields, hyields.map _, nameFrom_frees info (Bool.not_eq_false _ ▸ hname) hr⟩

end

/-! ## What is read -/

/-- Every `pread` gets something. -/
def PreadsOk (fd : AddressSpaceFile) : Prop := ∀ k, ∃ most, fd.pread k = .ok most

theorem readOfft_full {fd : AddressSpaceFile} {offset size : Nat} {buf : Bytes} (hok : PreadsOk fd) (hsize : size ≤ intMax)
    (hmem : size ≤ (fd.mem.drop offset).length) (hbuf : buf.length = size) :
    ∃ r, (r.ret = size ∧ r.buf = (fd.mem.drop offset).take size ∧ r.err = none) ∧ Yields (readOfft fd offset buf size) r := by
  have hdata : ((fd.mem.drop offset).take size).length = size := List.length_take_of_le hmem
  refine loop_yields (μ := ReadState.toRead)
    (I := fun s => s.toRead + s.stored = size ∧ s.buf = overlay ((fd.mem.drop offset).take size) buf s.stored) ?_ ⟨rfl, by simp [overlay]⟩
  rintro ⟨toRead, stored, buf', calls⟩ ⟨hsum, hover⟩
  dsimp only at hsum hover
  subst hover
  rw [readOfftBody]
  split_ifs with hzero
  · dsimp only at hzero
    obtain rfl : stored = size := by omega
    refine ⟨rfl, ?_, rfl⟩
    rw [overlay, List.drop_of_length_le hbuf.le, List.append_nil, List.take_take, Nat.min_self]
  · dsimp only at hzero
    obtain ⟨most, hmost⟩ := hok calls
    have hgot : transfer fd.mem (offset + stored) toRead most = (((fd.mem.drop offset).take size).drop stored).take (max 1 most) := by
      rw [transfer, List.drop_take, List.drop_drop, show toRead = size - stored by omega]
    have hlen : ((((fd.mem.drop offset).take size).drop stored).take (max 1 most)).length = min (max 1 most) (size - stored) := by
      rw [List.length_take, List.length_drop, hdata]
    have hint := toInt_eq (n := min (max 1 most) (size - stored)) (by omega)
    simp only [hmost, hgot, hlen, hint]
    rw [memcpy_overlay (max 1 most) le_rfl (by omega) (by omega), hlen]
    generalize hn : min (max 1 most) (size - stored) = n
    have hpos : 0 < n := by omega
    rw [if_neg (by omega), if_neg (by omega)]
    refine ⟨⟨?_, ?_⟩, ?_⟩
    · dsimp only
      omega
    · dsimp only
      rw [max_eq_right (Nat.le_add_right ..), Int.toNat_natCast]
    · dsimp only
      omega

/-- The string at an address can be read, by one call of `read_cstring_offt`. -/
structure Readable (mem : Bytes) (offset : Nat) (fd : AddressSpaceFile) : Prop where
  served : Served fd
  same : fd.mem = mem
  preads : PreadsOk fd
  hasEnd : HasEnd (mem.drop offset)
  length_le : (stringAt mem offset).length ≤ intMax

theorem Readable.read {mem : Bytes} {offset : Nat} {fd : AddressSpaceFile} (h : Readable mem offset fd) (heap : Nat → UInt8) :
    ∃ str preads, cString str = stringAt mem offset ∧ Yields (readCstringOfft fd heap offset ·) ⟨some str, none, preads⟩ := by
  obtain ⟨served, rfl, preads, hasEnd, hle⟩ := h
  have hreads : ReadsString fd offset := (readCstringOfft_iff served offset).2 ⟨hasEnd, fills_of_ok preads hle
    ((List.takeWhile_prefix _).length_le) (Nat.zero_le _)⟩
  obtain ⟨⟨result, err, n⟩, hright, hyields⟩ := hreads heap
  obtain ⟨herr, hresult⟩ := hright.served fun k _ => preads k
  obtain ⟨str, hstr, hstring⟩ := Option.map_eq_some_iff.1 hresult
  dsimp only at herr hstr
  subst herr hstr
  exact ⟨str, n, hstring, hyields⟩

section

variable {sys : Host} {mem : Bytes}

theorem readStrings_ok {offsets : List Nat} (a : CArray) (b : Blocks)
    (hread : ∀ i offset, offsets[i]? = some offset → Readable mem offset (sys.string (a.strings.length + i))) :
    ∃ a' b', a'.strings.map (fun s => cString s.2) = a.strings.map (fun s => cString s.2) ++ offsets.map (stringAt mem) ∧
      Yields (readStrings sys · offsets a none b) (true, a', none, b') := by
  induction offsets generalizing a b with
  | nil => exact ⟨a, b, by simp, .pure _⟩
  | cons offset offsets ih =>
    obtain ⟨str, preads, hstr, hyields⟩ := (hread 0 offset rfl).read (sys.heap b.requests.length)
    obtain ⟨a', b', hstrings, hrest⟩ := ih { a with strings := a.strings ++ [(b.requests.length, str)] }
      (b.alloc str.length true).1 fun i offset' hoffset => by
        have := hread (i + 1) offset' hoffset
        rwa [List.length_append, List.length_singleton, Nat.add_assoc, Nat.add_comm 1 i]
    refine ⟨a', b', ?_, ?_⟩
    · rw [hstrings, List.map_append, List.append_assoc, List.map_singleton, hstr]
      rfl
    · exact hyields.bind hrest

/-- A vector in the memory whose strings can all be read. -/
structure Legible (sys : Host) (mem : Bytes) (size offset : Nat) (words : List Nat) : Prop where
  vector : VectorAt sys.bigEndian size (mem.drop offset) words
  same : sys.vector.mem = mem
  preads : PreadsOk sys.vector
  malloc : sys.vector.malloc = true
  calloc : sys.calloc = true
  length_le : size * words.length ≤ intMax
  strings : ∀ i w, words[i]? = some w → Readable mem w (sys.string i)

theorem readCstringsBlock_ok {size offset : Nat} {words : List Nat} (h : Legible sys mem size offset words) (hne : words ≠ []) (b : Blocks) :
    ∃ a b', a.strings.map (fun s => cString s.2) = words.map (stringAt mem) ∧
      Yields (readCstringsBlock sys offset size words.length · b) ⟨some a, none, b'⟩ := by
  have hcount : words.length ≠ 0 := fun h0 => hne (List.length_eq_zero_iff.1 h0)
  have hle : size * words.length ≤ (sys.vector.mem.drop offset).length := by
    rw [h.same]
    exact h.vector.le_length
  obtain ⟨⟨_, _, calls, _⟩, ⟨rfl, rfl, rfl⟩, hr⟩ := readOfft_full h.preads h.length_le hle
    (length_block (sys.heap b.requests.length) (size * words.length))
  rw [h.same] at hr
  have hread : ∀ i w, words[i]? = some w → Readable mem w (sys.string (0 + i)) := fun i w hw => by
    rw [Nat.zero_add]
    exact h.strings i w hw
  have hpointers : (List.range words.length).map (pointerAt sys.bigEndian size ((mem.drop offset).take (size * words.length))) = words :=
    h.vector.reads
  obtain ⟨a, b', hstrings, hyields⟩ := readStrings_ok ⟨(b.alloc (size * words.length) true).1.requests.length, []⟩
    ((b.alloc (size * words.length) true).1.alloc (8 * words.length) true).1 hread
  refine ⟨a, b'.free (some b.requests.length), hstrings, ?_⟩
  simp only [readCstringsBlock, if_neg hcount, h.malloc, Bool.true_eq_false, if_false]
  refine hr.bind ?_
  simp only [ne_eq, not_true, if_false, h.calloc, Bool.true_eq_false, hpointers]
  exact hyields.map _

/-- A vector that ends with a `NULL`, and `read`s that get whole pointers. -/
structure Counted (sys : Host) (mem : Bytes) (size offset : Nat) (words : List Nat) : Prop where
  vector : VectorAt sys.bigEndian size (mem.drop offset) (words ++ [0])
  nonzero : ∀ w ∈ words, w ≠ 0
  same : sys.search.mem = mem
  lseek : sys.search.lseek = .ok ()
  read : ∀ k, ∃ most, sys.search.read k = .ok most ∧ size ≤ most

theorem searchVectorSize_ok {size offset : Nat} {words : List Nat} (hsize : 0 < size) (h : Counted sys mem size offset words) :
    Yields (searchVectorSize sys offset size) (.ok words.length) := by
  obtain ⟨n, rfl, hyields⟩ : ∃ n, n = .ok words.length ∧ Yields (loop (countBody sys size) · ⟨offset, 0⟩) n := by
    refine loop_yields (I := fun s => s.pos = offset + size * s.count ∧ s.count ≤ words.length) (μ := fun s => words.length - s.count) ?_
      ⟨rfl, Nat.zero_le _⟩
    rintro ⟨pos, count⟩ ⟨hpos, hcount⟩
    dsimp only at hpos hcount
    subst hpos
    obtain ⟨most, hmost, hle⟩ := h.read count
    obtain ⟨w, hw⟩ : ∃ w, (words ++ [0])[count]? = some w :=
      ⟨_, List.getElem?_eq_getElem (by rw [List.length_append, List.length_singleton]; omega)⟩
    have hchunk := h.vector.chunk hw
    have hgot : transfer sys.search.mem (offset + size * count) size most = wordBytes sys.bigEndian size w := by
      rw [transfer, h.same, ← List.drop_drop, List.take_take, Nat.min_eq_right (by omega), hchunk]
    rw [countBody, hmost]
    simp only [hgot, length_wordBytes, ne_eq, not_true, if_false]
    rw [if_neg (Nat.ne_of_gt hsize)]
    simp only [all_zero_wordBytes (h.vector.lt w (List.mem_of_getElem? hw))]
    rcases Nat.lt_or_eq_of_le hcount with hlt | rfl
    · rw [List.getElem?_append_left hlt] at hw
      rw [if_neg (h.nonzero w (List.mem_of_getElem? hw))]
      refine ⟨⟨?_, hlt⟩, ?_⟩
      · dsimp only
        rw [Nat.mul_succ, Nat.add_assoc]
      · dsimp only
        omega
    · rw [List.getElem?_append_right le_rfl, Nat.sub_self] at hw
      cases hw
      rw [if_pos rfl]
      rfl
  unfold searchVectorSize
  rw [h.lseek]
  exact hyields

/-- With memory for all variables the dictionary is that of the strings. -/
theorem setVariables_ok {m : Memory} (hmemory : ∀ i, m.variable_ i = true) (strings : List (Nat × Bytes)) (i : Nat) (d : Dict Bytes Bytes) :
    setVariables m strings i d = some (d.update ((strings.map fun s => cString s.2).filterMap Bsd.strchrEq)) := by
  induction strings generalizing i d with
  | nil => rfl
  | cons s strings ih =>
    obtain ⟨id, env⟩ := s
    rw [setVariables, List.map_cons]
    cases hsplit : Bsd.strchrEq (cString env) with
    | none =>
      rw [List.filterMap_cons_none hsplit]
      exact ih (i + 1) d
    | some p =>
      rw [List.filterMap_cons_some hsplit, Dict.update_cons]
      simp only [hmemory i, if_true]
      exact ih (i + 1) _

end

structure Memory.Enough (m : Memory) : Prop where
  name : m.name = true
  list : m.list = true
  arg : ∀ i, m.arg i = true
  tuple : m.tuple = true
  variable_ : ∀ i, m.variable_ i = true

/-- **The strings of the process**: with memory, and with calls that are served, the arguments are those that the vector of `argv`
points to, and the environment has what the strings before the `NULL` of `envp` assign, for both sizes of pointers and both byte
orders. -/
theorem args_read (sys : Host) (mem : Bytes) (info : PsInfo) {m : Memory} {argv envp : List Nat} (hopen : sys.open_ = .ok ())
    (hpossible : sys.lp64 = true ∨ info.dmodel = .ilp32) (hm : m.Enough) :
    (Legible sys mem (ptrSize info) info.argv argv → info.argv ≠ 0 → argv ≠ [] → info.argc = argv.length →
      ∃ b, Yields (procNameAndArgs sys m info · .empty) ⟨some (info.fname, argv.map (stringAt mem)), none, b⟩) ∧
    (Legible sys mem (ptrSize info) info.envp envp → Counted sys mem (ptrSize info) info.envp envp → info.envp ≠ 0 →
      ∃ b, Yields (procEnviron sys m info · .empty) ⟨some ((∅ : Dict Bytes Bytes).update ((envp.map (stringAt mem)).filterMap Bsd.strchrEq)), none, b⟩) := by
  have himpossible : impossible sys info = false := by
    rcases hpossible with h | h <;> simp [impossible, h]
  constructor
  · intro hlegible hargv hne hargc
    obtain ⟨a, b, hstrings, hyields⟩ := readCstringsBlock_ok hlegible hne .empty
    have hcount : argv.length ≠ 0 := fun h0 => hne (List.length_eq_zero_iff.1 h0)
    have hread : Yields (readRawArgs sys info · .empty) ⟨some a, none, b⟩ := by
      simp only [readRawArgs, himpossible, Bool.false_eq_true, hargv, hargc, hcount, or_self, if_false, hopen]
      exact hyields
    refine ⟨freeCstringsArray a b, ?_⟩
    have hret : nameFrom m info ⟨some a, none, b⟩ = ⟨some (info.fname, argv.map (stringAt mem)), none, freeCstringsArray a b⟩ := by
      simp [nameFrom, nameReturn, hm.list, hm.arg, hm.tuple, hstrings]
    simp only [procNameAndArgs, hm.name, Bool.true_eq_false, if_false]
    exact hret ▸ hread.map _
  · intro hlegible hcounted henvp
    have hsearch := searchVectorSize_ok (ptrSize_pos info) hcounted
    simp only [procEnviron, henvp, if_false]
    cases envp with
    | nil =>
      have henv : Yields (readRawEnv sys info · .empty) (some 0, ⟨none, none, .empty⟩) := by
        simp only [readRawEnv, himpossible, Bool.false_eq_true, if_false, hopen]
        exact hsearch.bind (.pure _)
      exact ⟨.empty, henv.map _⟩
    | cons w envp =>
      obtain ⟨a, b, hstrings, hyields⟩ := readCstringsBlock_ok hlegible (List.cons_ne_nil w envp) .empty
      have henv : Yields (readRawEnv sys info · .empty) (some (envp.length + 1), ⟨some a, none, b⟩) := by
        simp only [readRawEnv, himpossible, Bool.false_eq_true, if_false, hopen]
        exact hsearch.bind (hyields.map _)
      refine ⟨freeCstringsArray a b, ?_⟩
      have hset := setVariables_ok hm.variable_ a.strings 0 ∅
      rw [hstrings] at hset
      have hret : environFrom m (some (envp.length + 1)) ⟨some a, none, b⟩ =
          ⟨some ((∅ : Dict Bytes Bytes).update (((w :: envp).map (stringAt mem)).filterMap Bsd.strchrEq)), none, freeCstringsArray a b⟩ := by
        simp only [environFrom, hset]
      exact hret ▸ henv.map _

/-- `argv` at 4, `envp` at 8. -/
def lsMemory : Bytes :=
  [0, 0, 0, 0, 20, 0, 0, 0, 24, 0, 0, 0, 0, 0, 0, 0, 0, 0, 0, 0] ++ ascii "ls" ++ [0, 0] ++ ascii "A=1" ++ [0]

def lsSpace : AddressSpaceFile := ⟨lsMemory, .ok (), fun _ => .ok 512, fun _ => .ok 512, true, .other 0⟩

def lsHost : Host := ⟨true, false, .ok (), lsSpace, lsSpace, fun _ => lsSpace, true, fun _ _ => 7⟩

def lsInfo : PsInfo := ⟨.ilp32, 4, 1, 8, ascii "ls", ascii "ls"⟩

theorem ls_readable {offset : Nat} (h : HasEnd (lsMemory.drop offset)) (hle : (stringAt lsMemory offset).length ≤ intMax) :
    Readable lsMemory offset lsSpace :=
  ⟨⟨rfl, fun _ => ⟨_, rfl⟩, rfl⟩, rfl, fun _ => ⟨_, rfl⟩, h, hle⟩

theorem ls_legible {offset w : Nat} (hv : VectorAt false 4 (lsMemory.drop offset) [w]) (h : Readable lsMemory w lsSpace) :
    Legible lsHost lsMemory 4 offset [w] :=
  ⟨hv, rfl, fun _ => ⟨_, rfl⟩, rfl, rfl, by rw [List.length_singleton]; decide, fun i w' hw => by
    cases i with
    | zero =>
      cases hw
      exact h
    | succ i => cases hw⟩

/-- Memory for everything, with or without the tuple. -/
def memoryWith (tuple : Bool) : Memory := ⟨true, true, fun _ => true, true, true, true, tuple, fun _ => true⟩

theorem args_read_ls :
    (∃ b, Yields (procNameAndArgs lsHost (memoryWith true) lsInfo · .empty) ⟨some (ascii "ls", [ascii "ls"]), none, b⟩) ∧
    ∃ b, Yields (procEnviron lsHost (memoryWith true) lsInfo · .empty) ⟨some ((∅ : Dict Bytes Bytes).update [(ascii "A", ascii "1")]), none, b⟩ := by
  have hargv : Readable lsMemory 20 lsSpace := ls_readable (Or.inr (by decide)) (by decide)
  have henvp : Readable lsMemory 24 lsSpace := ls_readable (Or.inr (by decide)) (by decide)
  have hread := @args_read lsHost lsMemory lsInfo (memoryWith true) [20] [24] rfl (Or.inl rfl) ⟨rfl, rfl, fun _ => rfl, rfl, fun _ => rfl⟩
  refine ⟨hread.1 (ls_legible ⟨by decide, by decide⟩ hargv) (by decide) (by decide) rfl, ?_⟩
  exact hread.2 (ls_legible ⟨by decide, by decide⟩ henvp)
    ⟨⟨by decide, by decide⟩, by decide, rfl, rfl, fun _ => ⟨_, rfl, by decide⟩⟩ (by decide)

/-- **The blocks of the strings**: whatever the calls of the system and of Python do, both functions come to an end, and
`psutil_proc_environ` frees every block it was given once. `psutil_proc_name_and_args` does so unless memory runs out after it has
freed `argv`: then it frees the array and all its strings a second time. -/
theorem args_freed (sys : Host) (m : Memory) (info : PsInfo) :
    (∃ o, o.blocks.FreedOnce ∧ Yields (procEnviron sys m info · .empty) o) ∧
    ∃ r o, Yields (readRawArgs sys info · .empty) r ∧ Yields (procNameAndArgs sys m info · .empty) o ∧ NameFrees m r o :=
  ⟨procEnviron_freedOnce m info, procNameAndArgs_frees m info⟩

/-- Without the tuple the strings are freed twice. -/
theorem args_freed_ls : ∃ o, Yields (procNameAndArgs lsHost (memoryWith false) lsInfo · .empty) o ∧ o.value = none ∧ ¬o.blocks.FreedOnce := by
  obtain ⟨-, r, o, hr, ho, hfrees⟩ := args_freed lsHost (memoryWith false) lsInfo
  have hargv : Readable lsMemory 20 lsSpace := ls_readable (Or.inr (by decide)) (by decide)
  have hlegible : Legible lsHost lsMemory 4 4 [20] := ls_legible ⟨by decide, by decide⟩ hargv
  obtain ⟨a, b, -, hyields⟩ := readCstringsBlock_ok hlegible (List.cons_ne_nil 20 []) .empty
  obtain rfl : r = ⟨some a, none, b⟩ := hr.unique hyields
  have ht : FreesTwice (memoryWith false) ⟨some a, none, b⟩ := ⟨rfl, rfl, a, rfl, Or.inl rfl⟩
  exact ⟨o, ho, hfrees.value ht, fun honce => hfrees.once.1 honce ht⟩

end Psutil.Sunos.Args
