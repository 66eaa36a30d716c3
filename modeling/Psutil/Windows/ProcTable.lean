import Psutil.Common.C
import Psutil.Lib.Blocks
import Psutil.Lib.Dict
import Psutil.Lib.Loop
import Psutil.Lib.Progress
import Psutil.Lib.Versions
import Psutil.Lib.Words
import Psutil.Linux.Bytes

/-!
# The process table of Windows

| here | there |
| --- | --- |
| `nextProcess` | `PSUTIL_NEXT_PROCESS` (`arch/windows/init.h:59-67`) |
| `tableEntry` | `psutil_proc_table_entry` (`arch/windows/proc_utils.c:239-259`) |
| `ppidMap` | `psutil_ppid_map` (`arch/windows/proc.c:1161-1201`) |
| `tableMachine` | `psutil_proc_table` (`proc_utils.c:184-231`), called by those two in any number of threads |

The table is one buffer. Each entry begins with the distance to the next one, which is 0 in the last. `initialBufferSize` is shared
by all threads, and processes come and go at any time.
-/

namespace Psutil.ProcTable

open Lib

/-- The system that the extension was compiled for. -/
inductive WinAbi where
  | win32 | win64
  deriving DecidableEq

/-- `sizeof(HANDLE)` -/
def WinAbi.handle : WinAbi → Nat
  | .win32 => 4
  | .win64 => 8

/-- The offset of `UniqueProcessId` in `SYSTEM_PROCESS_INFORMATION`. -/
def WinAbi.pid : WinAbi → Nat
  | .win32 => 68
  | .win64 => 80

/-- The offset of `InheritedFromUniqueProcessId`. -/
def WinAbi.ppid : WinAbi → Nat
  | .win32 => 72
  | .win64 => 88

variable (abi : WinAbi)

/-! ## The walk -/

/-- A number of the buffer, or `none` where it would be read from behind it. -/
def readWord (buffer : Bytes) (size offset : Nat) : Option Nat :=
  if offset + size ≤ buffer.length then some (wordAt false size buffer offset) else none

/-- `PSUTIL_NEXT_PROCESS`: the offset of the next entry, if there is one. -/
def nextProcess (buffer : Bytes) (process : Nat) : Option (Option Nat) :=
  (readWord buffer 4 process).map fun next => if next = 0 then none else some (process + next)

/-- `none` is a read from behind the buffer. -/
abbrev Walk (α : Type) := Option (Except CErr α)

def entryBody (buffer : Bytes) (pid process : Nat) : Round Nat (Walk Nat) :=
  match readWord buffer abi.handle (process + abi.pid) with
  | none => .done none
  | some uniqueProcessId =>
    if uniqueProcessId = pid then .done (some (.ok process))
    else match nextProcess buffer process with
      | none => .done none
      | some none => .done (some (.error (.exc (.osError .esrch))))
      | some (some next) => .next next

/-- The entry, as the offset it is at. -/
def tableEntry (buffer : Bytes) (pid fuel : Nat) : Option (Walk Nat) := loop (entryBody abi buffer pid) fuel 0

/-- `PyLong_FromPid((DWORD)handle)`: a `long` has 32 bits. -/
def pidOfHandle (handle : Nat) : Int := (handle : Int).bmod (2 ^ 32)

structure MapState where
  process : Nat
  rounds : Nat
  retdict : Dict Int Int

def mapBody (memory : Nat → Bool) (buffer : Bytes) (s : MapState) : Round MapState (Walk (Dict Int Int)) :=
  match readWord buffer abi.handle (s.process + abi.pid), readWord buffer abi.handle (s.process + abi.ppid) with
  | some pid, some ppid =>
    if memory s.rounds then
      let retdict := s.retdict.set (pidOfHandle pid) (pidOfHandle ppid)
      match nextProcess buffer s.process with
      | none => .done none
      | some none => .done (some (.ok retdict))
      | some (some next) => .next ⟨next, s.rounds + 1, retdict⟩
    else .done (some (.error .noMemory))
  | _, _ => .done none

/-- `memory i`: the objects of the `i`-th round can be made. -/
def ppidMap (memory : Nat → Bool) (buffer : Bytes) (fuel : Nat) : Option (Walk (Dict Int Int)) :=
  loop (mapBody abi memory buffer) fuel ⟨0, 0, ∅⟩

/-! ## What the kernel lays out -/

/-- An entry, from behind `NextEntryOffset` to the next entry, with its threads and its name. -/
structure ProcEntry where
  body : Bytes
  header : abi.ppid + abi.handle ≤ 4 + body.length
  size_lt : 4 + body.length < 2 ^ 32

namespace ProcEntry

variable {abi}

def size (e : ProcEntry abi) : Nat := 4 + e.body.length

def bytes (e : ProcEntry abi) (next : Nat) : Bytes := wordBytes false 4 next ++ e.body

/-- `UniqueProcessId` -/
def pid (e : ProcEntry abi) : Nat := wordAt false abi.handle e.body (abi.pid - 4)

/-- `InheritedFromUniqueProcessId` -/
def ppid (e : ProcEntry abi) : Nat := wordAt false abi.handle e.body (abi.ppid - 4)

@[simp] theorem length_bytes (e : ProcEntry abi) (next : Nat) : (e.bytes next).length = e.size := by
  rw [bytes, List.length_append, length_wordBytes, size]

end ProcEntry

variable {abi}

/-- The bytes of a list of entries. -/
def layout : List (ProcEntry abi) → Bytes
  | [] => []
  | [e] => e.bytes 0
  | e :: e' :: es => e.bytes e.size ++ layout (e' :: es)

/-- There is always a process. -/
structure Table (abi : WinAbi) where
  entries : List (ProcEntry abi)
  ne : entries ≠ []

def Table.bytes (table : Table abi) : Bytes := layout table.entries

/-- What `psutil_ppid_map` says of a table. -/
def Table.ppidMap (table : Table abi) : Dict Int Int :=
  (∅ : Dict Int Int).update (table.entries.map fun e => (pidOfHandle e.pid, pidOfHandle e.ppid))

section

variable {before rest : Bytes} {e : ProcEntry abi}

/-- A number of an entry in its place. -/
theorem readWord_entry {next size offset : Nat} (h : offset + size ≤ e.size) :
    readWord (before ++ e.bytes next ++ rest) size (before.length + offset) = some (wordAt false size (e.bytes next) offset) := by
  have hle : before.length + offset + size ≤ (before ++ e.bytes next ++ rest).length := by
    rw [List.length_append, List.length_append, e.length_bytes]
    omega
  rw [readWord, if_pos hle, List.append_assoc, wordAt_append_right, wordAt_append_left (by rwa [e.length_bytes])]

theorem nextProcess_entry {next : Nat} (hnext : next < 2 ^ 32) :
    nextProcess (before ++ e.bytes next ++ rest) before.length = some (if next = 0 then none else some (before.length + next)) := by
  have hhead : wordAt false 4 (e.bytes next) 0 = next := by
    rw [ProcEntry.bytes, wordAt_append_left (by rw [length_wordBytes]), wordAt, List.drop_zero, List.take_of_length_le (length_wordBytes ..).le]
    exact wordOf_wordBytes hnext false
  have hread : readWord (before ++ e.bytes next ++ rest) 4 (before.length + 0) = some (wordAt false 4 (e.bytes next) 0) :=
    readWord_entry (by rw [ProcEntry.size]; omega)
  rw [nextProcess, ← Nat.add_zero before.length, hread, hhead]
  rfl

theorem wordAt_body (e : ProcEntry abi) {next offset : Nat} (h : 4 ≤ offset) :
    wordAt false abi.handle (e.bytes next) offset = wordAt false abi.handle e.body (offset - 4) := by
  have hlen : offset = (wordBytes false 4 next).length + (offset - 4) := by
    rw [length_wordBytes]
    omega
  rw [ProcEntry.bytes]
  conv_lhs => rw [hlen]
  exact wordAt_append_right

/-- `UniqueProcessId` and `InheritedFromUniqueProcessId` are in every entry. -/
theorem offsets_le (e : ProcEntry abi) :
    abi.pid + abi.handle ≤ e.size ∧ abi.ppid + abi.handle ≤ e.size ∧ 4 ≤ abi.pid ∧ 4 ≤ abi.ppid := by
  have hheader := e.header
  cases abi <;> simp only [WinAbi.pid, WinAbi.ppid, WinAbi.handle, ProcEntry.size] at hheader ⊢ <;> omega

theorem readWord_pid {next : Nat} : readWord (before ++ e.bytes next ++ rest) abi.handle (before.length + abi.pid) = some e.pid := by
  obtain ⟨hpid, -, hle, -⟩ := offsets_le e
  rw [readWord_entry hpid, wordAt_body e hle]
  rfl

theorem readWord_ppid {next : Nat} : readWord (before ++ e.bytes next ++ rest) abi.handle (before.length + abi.ppid) = some e.ppid := by
  obtain ⟨-, hppid, -, hle⟩ := offsets_le e
  rw [readWord_entry hppid, wordAt_body e hle]
  rfl

/-- The first of some entries, and the others behind it. -/
theorem layout_cons (before : Bytes) (e : ProcEntry abi) (es : List (ProcEntry abi)) :
    ∃ next, layout (e :: es) = e.bytes next ++ layout es ∧ next < 2 ^ 32 ∧
      (if next = 0 then none else some (before.length + next)) = if es = [] then none else some (before.length + e.size) := by
  cases es with
  | nil => exact ⟨0, (List.append_nil _).symm, by decide, rfl⟩
  | cons e' es =>
    have hpos : e.size ≠ 0 := by
      rw [ProcEntry.size]
      omega
    exact ⟨e.size, rfl, e.size_lt, by rw [if_neg hpos, if_neg (List.cons_ne_nil _ _)]⟩

/-- **One step of a walk** that stands on an entry. -/
theorem reads_layout (before : Bytes) (e : ProcEntry abi) (es : List (ProcEntry abi)) :
    readWord (before ++ layout (e :: es)) abi.handle (before.length + abi.pid) = some e.pid ∧
      readWord (before ++ layout (e :: es)) abi.handle (before.length + abi.ppid) = some e.ppid ∧
      nextProcess (before ++ layout (e :: es)) before.length = some (if es = [] then none else some (before.length + e.size)) := by
  obtain ⟨next, hlayout, hlt, hnext⟩ := layout_cons before e es
  rw [hlayout, ← List.append_assoc]
  exact ⟨readWord_pid, readWord_ppid, (nextProcess_entry hlt).trans (congrArg some hnext)⟩

/-- The entries behind the first one. -/
theorem layout_step (before : Bytes) (e e' : ProcEntry abi) (es : List (ProcEntry abi)) :
    ∃ before', before'.length = before.length + e.size ∧ before ++ layout (e :: e' :: es) = before' ++ layout (e' :: es) :=
  ⟨before ++ e.bytes e.size, by rw [List.length_append, e.length_bytes], by rw [List.append_assoc]; rfl⟩

def noPidFound : CErr := .exc (.osError .esrch)

theorem entryBody_layout (pid : Nat) (before : Bytes) (e : ProcEntry abi) (es : List (ProcEntry abi)) :
    entryBody abi (before ++ layout (e :: es)) pid before.length =
      if e.pid = pid then .done (some (.ok before.length))
      else if es = [] then .done (some (.error noPidFound)) else .next (before.length + e.size) := by
  obtain ⟨hpid, -, hnext⟩ := reads_layout before e es
  simp only [entryBody, hpid, hnext]
  split_ifs <;> rfl

/-- The rest of the entries, from the one of a PID on. -/
def entryFrom (pid : Nat) (es : List (ProcEntry abi)) : Except CErr Bytes :=
  match es.dropWhile (·.pid ≠ pid) with
  | [] => .error noPidFound
  | found => .ok (layout found)

theorem entryFrom_cons (pid : Nat) (e : ProcEntry abi) (es : List (ProcEntry abi)) :
    entryFrom pid (e :: es) = if e.pid = pid then .ok (layout (e :: es)) else entryFrom pid es := by
  rw [entryFrom, List.dropWhile_cons]
  by_cases hpid : e.pid = pid
  · simp [hpid]
  · simp [hpid, entryFrom]

/-- By induction on the entries that are ahead. -/
theorem entry_loop (pid : Nat) (before : Bytes) (e : ProcEntry abi) (es : List (ProcEntry abi)) {fuel : Nat} (hfuel : es.length < fuel) :
    ∃ found, loop (entryBody abi (before ++ layout (e :: es)) pid) fuel before.length = some (some found) ∧
      found.map (before ++ layout (e :: es)).drop = entryFrom pid (e :: es) := by
  induction es generalizing before e fuel with
  | nil =>
    obtain ⟨fuel, rfl⟩ : ∃ n, fuel = n + 1 := ⟨fuel - 1, by omega⟩
    have hbody := entryBody_layout pid before e []
    rw [if_pos rfl] at hbody
    rw [entryFrom_cons]
    split_ifs at hbody ⊢ with hpid
    · exact ⟨_, loop_done hbody fuel, congrArg Except.ok List.drop_left⟩
    · exact ⟨_, loop_done hbody fuel, rfl⟩
  | cons e' es ih =>
    rw [List.length_cons] at hfuel
    obtain ⟨fuel, rfl⟩ : ∃ n, fuel = n + 1 := ⟨fuel - 1, by omega⟩
    have hbody := entryBody_layout pid before e (e' :: es)
    rw [if_neg (List.cons_ne_nil e' es)] at hbody
    rw [entryFrom_cons]
    split_ifs at hbody ⊢ with hpid
    · exact ⟨_, loop_done hbody fuel, congrArg Except.ok List.drop_left⟩
    · obtain ⟨before', hlen, hlayout⟩ := layout_step before e e' es
      obtain ⟨found, hloop, hfound⟩ := ih before' e' (Nat.lt_of_succ_lt_succ hfuel)
      rw [← hlayout, hlen] at hloop
      rw [← hlayout] at hfound
      exact ⟨found, (loop_next hbody fuel).trans hloop, hfound⟩

theorem mapBody_layout (memory : Nat → Bool) (before : Bytes) (e : ProcEntry abi) (es : List (ProcEntry abi)) (rounds : Nat) (d : Dict Int Int) :
    mapBody abi memory (before ++ layout (e :: es)) ⟨before.length, rounds, d⟩ =
      if memory rounds then
        if es = [] then .done (some (.ok (d.set (pidOfHandle e.pid) (pidOfHandle e.ppid))))
        else .next ⟨before.length + e.size, rounds + 1, d.set (pidOfHandle e.pid) (pidOfHandle e.ppid)⟩
      else .done (some (.error .noMemory)) := by
  obtain ⟨hpid, hppid, hnext⟩ := reads_layout before e es
  simp only [mapBody, hpid, hppid, hnext]
  split_ifs <;> rfl

theorem map_loop (memory : Nat → Bool) (before : Bytes) (e : ProcEntry abi) (es : List (ProcEntry abi)) (rounds : Nat) (d : Dict Int Int)
    {fuel : Nat} (hfuel : es.length < fuel) :
    ∃ found, loop (mapBody abi memory (before ++ layout (e :: es))) fuel ⟨before.length, rounds, d⟩ = some (some found) ∧
      (found = .error .noMemory ∨ found = .ok (d.update ((e :: es).map fun e => (pidOfHandle e.pid, pidOfHandle e.ppid)))) := by
  induction es generalizing before e rounds d fuel with
  | nil =>
    obtain ⟨fuel, rfl⟩ : ∃ n, fuel = n + 1 := ⟨fuel - 1, by omega⟩
    have hbody := mapBody_layout memory before e [] rounds d
    rw [if_pos rfl] at hbody
    split_ifs at hbody
    · refine ⟨_, loop_done hbody fuel, Or.inr ?_⟩
      rw [List.map_singleton, Dict.update_cons, Dict.update_nil]
    · exact ⟨_, loop_done hbody fuel, Or.inl rfl⟩
  | cons e' es ih =>
    rw [List.length_cons] at hfuel
    obtain ⟨fuel, rfl⟩ : ∃ n, fuel = n + 1 := ⟨fuel - 1, by omega⟩
    have hbody := mapBody_layout memory before e (e' :: es) rounds d
    rw [if_neg (List.cons_ne_nil e' es)] at hbody
    split_ifs at hbody
    · obtain ⟨before', hlen, hlayout⟩ := layout_step before e e' es
      obtain ⟨found, hloop, hfound⟩ := ih before' e' (rounds + 1) (d.set (pidOfHandle e.pid) (pidOfHandle e.ppid)) (Nat.lt_of_succ_lt_succ hfuel)
      rw [← hlayout, hlen] at hloop
      refine ⟨found, (loop_next hbody fuel).trans hloop, hfound.imp_right fun hok => hok.trans ?_⟩
      rw [List.map_cons (l := e' :: es), Dict.update_cons]
    · exact ⟨_, loop_done hbody fuel, Or.inl rfl⟩

theorem length_le_layout (es : List (ProcEntry abi)) : es.length ≤ (layout es).length := by
  induction es with
  | nil => rfl
  | cons e es ih =>
    obtain ⟨next, hlayout, -⟩ := layout_cons [] e es
    rw [hlayout, List.length_append, e.length_bytes, List.length_cons, ProcEntry.size]
    omega

end

/-! ## The threads -/

inductive TableFn where
  | ppidMap
  | entry (pid : Nat)

/-- What a function returns. The pointer to an entry is what the buffer has from there on. -/
inductive TableAnswer where
  | ppidMap (retdict : Dict Int Int)
  | entry (process : Bytes)

section

variable (abi)

/-- What a function makes of the buffer. No walk takes more rounds than the buffer has bytes. -/
def TableFn.walk (memory : Nat → Bool) (buffer : Bytes) : TableFn → Walk TableAnswer
  | .ppidMap => (ProcTable.ppidMap abi memory buffer (buffer.length + 1)).join.map (·.map .ppidMap)
  | .entry pid => (tableEntry abi buffer pid (buffer.length + 1)).join.map (·.map fun process => .entry (buffer.drop process))

end

/-- What the system and the allocator answer to a step. -/
structure TableReply where
  memory : Nat → Bool
  /-- `NtQuerySystemInformation` fails, but not for the size of the buffer. -/
  fails : Option Errno
  /-- By how much the size that it asks for exceeds that of the table. -/
  slack : Nat

/-- `since` is a ghost: how many tables there had been when the function was called. -/
structure TableArgs where
  fn : TableFn
  since : Nat

/-- The next thing a thread does. -/
inductive TableCall where
  /-- `bufferSize = initialBufferSize` -/
  | start (k : TableArgs)
  | malloc (k : TableArgs) (bufferSize : Nat)
  | query (k : TableArgs) (bufferSize block : Nat)
  /-- `if (bufferSize <= 0x20000)`, with what the kernel has written -/
  | store (k : TableArgs) (block : Nat) (buffer : Bytes)
  /-- The caller walks the buffer and frees it. -/
  | walk (k : TableArgs) (block : Nat) (buffer : Bytes)

/-- `tables` is a ghost: what the table has been, with what it is at the end. -/
structure Tables (abi : WinAbi) where
  table : Table abi
  tables : List (Table abi)
  initialBufferSize : Nat
  heap : Blocks
  calls : Nat → Option TableCall

def Tables.start (table : Table abi) : Tables abi := ⟨table, [table], 0x4000, .empty, fun _ => none⟩

def Tables.at (s : Tables abi) (t : Nat) (c : Option TableCall) : Tables abi := { s with calls := Function.update s.calls t c }

def Tables.stepCall (s : Tables abi) (t : Nat) (reply : TableReply) : TableCall → Tables abi × Option (Nat × Walk TableAnswer)
  | .start k => (s.at t (some (.malloc k s.initialBufferSize)), none)
  | .malloc k bufferSize => match s.heap.alloc bufferSize (reply.memory 0) with
    | (heap, some block) => ({ s.at t (some (.query k bufferSize block)) with heap := heap }, none)
    | (heap, none) => ({ s.at t none with heap := heap }, some (t, some (.error .noMemory)))
  | .query k bufferSize block => match reply.fails with
    | some errno => ({ s.at t none with heap := s.heap.free (some block) }, some (t, some (.error (.exc (.osError errno)))))
    | none =>
      if s.table.bytes.length ≤ bufferSize then (s.at t (some (.store k block s.table.bytes)), none)
      else ({ s.at t (some (.malloc k (s.table.bytes.length + reply.slack))) with heap := s.heap.free (some block) }, none)
  | .store k block buffer =>
    ({ s.at t (some (.walk k block buffer)) with
        initialBufferSize := if buffer.length ≤ 0x20000 then buffer.length else s.initialBufferSize }, none)
  | .walk k block buffer => ({ s.at t none with heap := s.heap.free (some block) }, some (t, k.fn.walk abi reply.memory buffer))

inductive TableEv (abi : WinAbi) where
  | call (t : Nat) (fn : TableFn)
  | step (t : Nat) (reply : TableReply)
  /-- Processes come and go. -/
  | change (table : Table abi)

def tableMachine (abi : WinAbi) : Machine (Tables abi) (TableEv abi) (Option (Nat × Walk TableAnswer)) where
  step s
    | .call t fn => (if (s.calls t).isSome then s else s.at t (some (.start ⟨fn, s.tables.length - 1⟩)), none)
    | .step t reply => match s.calls t with
      | none => (s, none)
      | some c => s.stepCall t reply c
    | .change table => ({ s with table := table, tables := s.tables ++ [table] }, none)

/-! ## The invariant -/

def TableCall.args : TableCall → TableArgs
  | .start k | .malloc k _ | .query k _ _ | .store k _ _ | .walk k _ _ => k

def TableCall.block : TableCall → Option Nat
  | .start _ | .malloc _ _ => none
  | .query _ _ block | .store _ block _ | .walk _ block _ => some block

/-- A buffer that the kernel has written has a table of some moment since the call. -/
def TableCall.Good (s : Tables abi) : TableCall → Prop
  | .store k _ buffer | .walk k _ buffer => ∃ table ∈ s.tables.drop k.since, buffer = table.bytes
  | .start _ | .malloc _ _ | .query _ _ _ => True

/-- The block that a thread holds. -/
def Tables.held (s : Tables abi) (t : Nat) : Option Nat := (s.calls t).bind TableCall.block

structure TableInv (s : Tables abi) : Prop where
  current : s.tables.getLast? = some s.table
  /-- The first guess is that of the source, or the size of a table there has been. -/
  initial : s.initialBufferSize = 0x4000 ∨ s.initialBufferSize ≤ 0x20000 ∧ ∃ table ∈ s.tables, s.initialBufferSize = table.bytes.length
  holds : s.heap.HoldsEach s.held
  since : ∀ t c, s.calls t = some c → c.args.since < s.tables.length
  good : ∀ t c, s.calls t = some c → c.Good s

section

variable {s : Tables abi} {t : Nat} {c : TableCall}

@[simp] theorem Tables.at_calls (c : Option TableCall) : (s.at t c).calls = Function.update s.calls t c := rfl
@[simp] theorem Tables.at_table (c : Option TableCall) : (s.at t c).table = s.table := rfl
@[simp] theorem Tables.at_tables (c : Option TableCall) : (s.at t c).tables = s.tables := rfl
@[simp] theorem Tables.at_initialBufferSize (c : Option TableCall) : (s.at t c).initialBufferSize = s.initialBufferSize := rfl
@[simp] theorem Tables.at_heap (c : Option TableCall) : (s.at t c).heap = s.heap := rfl

theorem Tables.held_eq (h : s.calls t = some c) : s.held t = c.block := by rw [Tables.held, h]; rfl

/-- What the thread that moves holds afterwards. -/
theorem held_update (calls : Nat → Option TableCall) (t : Nat) (c : Option TableCall) :
    (fun u => (Function.update calls t c u).bind TableCall.block) =
      Function.update (fun u => (calls u).bind TableCall.block) t (c.bind TableCall.block) := by
  funext u
  rcases eq_or_ne u t with rfl | hne
  · rw [Function.update_self, Function.update_self]
  · rw [Function.update_of_ne hne, Function.update_of_ne hne]

/-- A thread moves, and the table does not. -/
theorem TableInv.move (h : TableInv s) (c' : Option TableCall) {heap : Blocks} {initial : Nat}
    (hinitial : initial = 0x4000 ∨ initial ≤ 0x20000 ∧ ∃ table ∈ s.tables, initial = table.bytes.length)
    (hholds : heap.HoldsEach (Function.update s.held t (c'.bind TableCall.block)))
    (hgood : ∀ c, c' = some c → c.args.since < s.tables.length ∧ c.Good s) :
    TableInv { s.at t c' with heap := heap, initialBufferSize := initial } := by
  refine ⟨h.current, hinitial, ?_, fun u c hc => ?_, fun u c hc => ?_⟩
  · change heap.HoldsEach fun u => (Function.update s.calls t c' u).bind TableCall.block
    rw [held_update]
    exact hholds
  · rcases moved hc with ⟨-, hc⟩ | ⟨-, hc⟩
    · exact (hgood c hc).1
    · exact h.since u c hc
  · have hsame : c.Good { s.at t c' with heap := heap, initialBufferSize := initial } ↔ c.Good s := by cases c <;> rfl
    rw [hsame]
    rcases moved hc with ⟨-, hc⟩ | ⟨-, hc⟩
    · exact (hgood c hc).2
    · exact h.good u c hc

/-- The table is one of those since the call. -/
theorem TableInv.table_mem (h : TableInv s) (hc : s.calls t = some c) : s.table ∈ s.tables.drop c.args.since :=
  Versions.current_mem_drop h.current (h.since t c hc)

theorem TableInv.stepCall (h : TableInv s) (hc : s.calls t = some c) (reply : TableReply) : TableInv (s.stepCall t reply c).1 := by
  have hsince := h.since t c hc
  have hgood := h.good t c hc
  have hheld := Tables.held_eq hc
  have hsame : s.heap.HoldsEach (Function.update s.held t c.block) := by
    rw [← hheld, Function.update_eq_self]
    exact h.holds
  have hleft : ∀ c', (none : Option TableCall) = some c' → c'.args.since < s.tables.length ∧ c'.Good s := fun c' hc' => by cases hc'
  cases c with
  | start k =>
    refine h.move (some _) h.initial hsame fun c' hc' => ?_
    cases hc'
    exact ⟨hsince, trivial⟩
  | malloc k bufferSize =>
    rw [Tables.stepCall]
    cases hmemory : reply.memory 0 with
    | false => exact h.move none h.initial (hsame.refused bufferSize) hleft
    | true =>
      refine h.move (some _) h.initial (h.holds.alloc hheld bufferSize) fun c' hc' => ?_
      cases hc'
      exact ⟨hsince, trivial⟩
  | query k bufferSize block =>
    rw [Tables.stepCall]
    cases reply.fails with
    | some errno => exact h.move none h.initial (h.holds.free hheld) hleft
    | none =>
      dsimp only
      split_ifs with hfits
      · refine h.move (some _) h.initial hsame fun c' hc' => ?_
        cases hc'
        exact ⟨hsince, s.table, h.table_mem hc, rfl⟩
      · refine h.move (some _) h.initial (h.holds.free hheld) fun c' hc' => ?_
        cases hc'
        exact ⟨hsince, trivial⟩
  | store k block buffer =>
    refine h.move (some _) ?_ hsame fun c' hc' => ?_
    · obtain ⟨table, htable, hbuffer⟩ := hgood
      split_ifs with hsmall
      · exact Or.inr ⟨hsmall, table, List.mem_of_mem_drop htable, congrArg List.length hbuffer⟩
      · exact h.initial
    · cases hc'
      exact ⟨hsince, hgood⟩
  | walk k block buffer => exact h.move none h.initial (h.holds.free hheld) hleft

theorem TableInv.step (h : TableInv s) (e : TableEv abi) : TableInv ((tableMachine abi).step s e).1 := by
  cases e with
  | call t fn =>
    dsimp only [tableMachine]
    split_ifs with hin
    · exact h
    · rw [Bool.not_eq_true, Option.isSome_eq_false_iff, Option.isNone_iff_eq_none] at hin
      have hheld : s.held t = none := by rw [Tables.held, hin]; rfl
      have hsame : s.heap.HoldsEach (Function.update s.held t none) := by
        rw [← hheld, Function.update_eq_self]
        exact h.holds
      refine h.move (some (.start ⟨fn, s.tables.length - 1⟩)) h.initial hsame fun c' hc' => ?_
      cases hc'
      exact ⟨Nat.sub_lt (Versions.length_pos h.current) Nat.one_pos, trivial⟩
  | step t reply =>
    dsimp only [tableMachine]
    cases hc : s.calls t with
    | none => exact h
    | some c => exact h.stepCall hc reply
  | change table =>
    refine ⟨List.getLast?_concat, ?_, h.holds, fun u c hc => ?_, fun u c hc => ?_⟩
    · refine h.initial.imp_right fun ⟨hle, old, hold, hsize⟩ => ⟨hle, old, List.mem_append_left _ hold, hsize⟩
    · have hlt := h.since u c hc
      dsimp only [tableMachine]
      rw [List.length_append]
      omega
    · have hlt := h.since u c hc
      have hold := h.good u c hc
      cases c with
      | start k | malloc k size | query k size block => trivial
      | store k block buffer | walk k block buffer =>
        obtain ⟨old, htable, hbuffer⟩ := hold
        exact ⟨old, Versions.mem_drop_append htable [table], hbuffer⟩

theorem tableInv_start (table : Table abi) : TableInv (.start table) where
  current := rfl
  initial := Or.inl rfl
  holds := .empty
  since _ _ hc := by cases hc
  good _ _ hc := by cases hc

/-! ## The answers -/

/-- What a function says of a table. -/
def TableFn.Answers (table : Table abi) (ans : Except CErr TableAnswer) : TableFn → Prop
  | .ppidMap => ans = .error .noMemory ∨ ans = .ok (.ppidMap table.ppidMap)
  | .entry pid => ans = (entryFrom pid table.entries).map .entry

/-- No walk leaves the buffer. -/
theorem TableFn.walk_bytes (fn : TableFn) (memory : Nat → Bool) (table : Table abi) :
    ∃ ans, fn.walk abi memory table.bytes = some ans ∧ fn.Answers table ans := by
  obtain ⟨entries, hne⟩ := table
  obtain ⟨e, es, rfl⟩ := List.exists_cons_of_ne_nil hne
  have hfuel : es.length < (layout (e :: es)).length + 1 := by
    have := length_le_layout (e :: es)
    rw [List.length_cons] at this
    omega
  cases fn with
  | ppidMap =>
    obtain ⟨found, hloop, hfound⟩ := map_loop memory [] e es 0 ∅ hfuel
    refine ⟨found.map .ppidMap, ?_, ?_⟩
    · exact congrArg (fun o => (Option.join o).map (·.map TableAnswer.ppidMap)) hloop
    · exact hfound.imp (congrArg _) (congrArg _)
  | entry pid =>
    obtain ⟨found, hloop, hfound⟩ := entry_loop pid [] e es hfuel
    refine ⟨(entryFrom pid (e :: es)).map .entry, ?_, rfl⟩
    rw [← hfound]
    refine (congrArg (fun o => (Option.join o).map (·.map fun process => TableAnswer.entry ((layout (e :: es)).drop process))) hloop).trans ?_
    cases found <;> rfl

/-- A call that the system or the allocator fails. -/
def TableCall.Fails (reply : TableReply) (ans : Walk TableAnswer) : TableCall → Prop
  | .malloc _ _ => reply.memory 0 = false ∧ ans = some (.error .noMemory)
  | .query _ _ _ => ∃ errno, reply.fails = some errno ∧ ans = some (.error (.exc (.osError errno)))
  | .start _ | .store _ _ _ | .walk _ _ _ => False

theorem TableInv.answer (h : TableInv s) (hc : s.calls t = some c) (reply : TableReply) {u : Nat} {ans : Walk TableAnswer}
    (hout : (s.stepCall t reply c).2 = some (u, ans)) :
    u = t ∧ (c.Fails reply ans ∨ ∃ table ∈ s.tables.drop c.args.since, ∃ found, ans = some found ∧ c.args.fn.Answers table found) := by
  have hgood := h.good t c hc
  cases c with
  | start k => cases hout
  | malloc k bufferSize =>
    rw [Tables.stepCall] at hout
    cases hmemory : reply.memory 0 with
    | false =>
      rw [hmemory] at hout
      cases hout
      exact ⟨rfl, Or.inl ⟨hmemory, rfl⟩⟩
    | true =>
      rw [hmemory] at hout
      cases hout
  | query k bufferSize block =>
    rw [Tables.stepCall] at hout
    cases hfails : reply.fails with
    | some errno =>
      rw [hfails] at hout
      cases hout
      exact ⟨rfl, Or.inl ⟨errno, hfails, rfl⟩⟩
    | none =>
      rw [hfails] at hout
      dsimp only at hout
      split_ifs at hout
  | store k block buffer => cases hout
  | walk k block buffer =>
    cases hout
    obtain ⟨table, htable, rfl⟩ := hgood
    obtain ⟨found, hwalk, hfound⟩ := k.fn.walk_bytes reply.memory table
    exact ⟨rfl, Or.inr ⟨table, htable, found, hwalk, hfound⟩⟩

end

/-- **One moment, and every buffer once.** In every order of steps of the threads and of changes of the table: the first guess is 0x4000
or the size of a table there has been, and never more than 0x20000. A block was freed once, unless a thread still holds it, and then
only that one does. A call that is not failed by the system or for want of memory answers from the whole table as it was at some
moment of the call, and reads nothing behind it. -/
theorem proc_table_answer (abi : WinAbi) (table : Table abi) (es : List (TableEv abi)) :
    let s := (tableMachine abi).run (.start table) es
    (s.initialBufferSize ≤ 0x20000 ∧ (s.initialBufferSize = 0x4000 ∨ ∃ table ∈ s.tables, s.initialBufferSize = table.bytes.length)) ∧
      (∀ b, .acquire b ∈ s.heap.log → s.heap.log.count (.acquire b) = 1 ∧
        ((∃! t, s.held t = some b) ∧ s.heap.log.count (.release b) = 0 ∨ (∀ t, s.held t ≠ some b) ∧ s.heap.log.count (.release b) = 1)) ∧
      ∀ l ∈ (tableMachine abi).trace (.start table) es, ∀ t ans, l.out = some (t, ans) →
        ∃ c reply, l.pre.calls t = some c ∧ l.ev = .step t reply ∧
          (c.Fails reply ans ∨ ∃ table ∈ l.pre.tables.drop c.args.since, ∃ found, ans = some found ∧ c.args.fn.Answers table found) := by
  have hstep : ∀ s e, TableInv s → TableInv ((tableMachine abi).step s e).1 := fun _ e h => h.step e
  have hinv := (tableMachine abi).run_inv hstep (tableInv_start table) es
  refine ⟨?_, fun b hb => ?_, fun l hl t ans hout => ?_⟩
  · rcases hinv.initial with hfirst | ⟨hle, hsize⟩
    · exact ⟨hfirst.trans_le (by decide), Or.inl hfirst⟩
    · exact ⟨hle, Or.inr hsize⟩
  · obtain ⟨honce, ⟨⟨t, ht⟩, hkept⟩ | hfreed⟩ := hinv.holds.counts hb
    · exact ⟨honce, Or.inl ⟨⟨t, ht, fun u hu => hinv.holds.apart u t b hu ht⟩, hkept⟩⟩
    · exact ⟨honce, Or.inr hfreed⟩
  · obtain ⟨hpre, hanswer⟩ := (tableMachine abi).lines_of_inv hstep (tableInv_start table) hl
    rw [hout] at hanswer
    obtain ⟨s, ev, out⟩ := l
    cases ev with
    | call u fn => cases hanswer
    | change table => cases hanswer
    | step u reply =>
      dsimp only [tableMachine] at hanswer hpre ⊢
      cases hc : s.calls u with
      | none =>
        rw [hc] at hanswer
        cases hanswer
      | some c =>
        rw [hc] at hanswer
        obtain ⟨rfl, hans⟩ := hpre.answer hc reply hanswer.symm
        exact ⟨c, reply, hc, rfl, hans⟩

/-- The idle process, with no thread and no name. -/
def idleTable : Table .win64 := ⟨[⟨List.replicate 92 0, by decide, by decide⟩], List.cons_ne_nil _ _⟩

/-- Everything is served, and at once. -/
def served : TableReply := ⟨fun _ => true, none, 0⟩

/-- Up to the walk of `psutil_ppid_map`. -/
def untilWalk : List (TableEv .win64) := .call 0 .ppidMap :: List.replicate 4 (.step 0 served)

theorem proc_table_answer_idle : ∃ found, TableFn.ppidMap.Answers idleTable found ∧
    ((tableMachine .win64).step ((tableMachine .win64).run (.start idleTable) untilWalk) (.step 0 served)).2 = some (0, some found) := by
  obtain ⟨c, reply, hc, -, hans⟩ := (proc_table_answer .win64 idleTable (untilWalk ++ [.step 0 served])).2.2
    ⟨(tableMachine .win64).run (.start idleTable) untilWalk, .step 0 served, _⟩
    ((Machine.mem_trace _).2 ⟨untilWalk, [], rfl, rfl, rfl⟩) 0 _ rfl
  obtain rfl : c = .walk ⟨.ppidMap, 0⟩ 0 idleTable.bytes := (Option.some.inj hc).symm
  rcases hans with hfails | ⟨table, htable, found, hfound, hans⟩
  · exact hfails.elim
  · obtain rfl := List.mem_singleton.1 htable
    exact ⟨found, hans, congrArg (fun o => some (0, o)) hfound⟩

/-! ## The end of a call -/

/-- How many steps a call has left, if the table stays. -/
def TableCall.left (s : Tables abi) : TableCall → Nat
  | .start _ => 7
  | .malloc _ bufferSize => if s.table.bytes.length ≤ bufferSize then 4 else 6
  | .query _ bufferSize _ => if s.table.bytes.length ≤ bufferSize then 3 else 5
  | .store _ _ _ => 2
  | .walk _ _ _ => 1

def Tables.left (t : Nat) (s : Tables abi) : Nat := ((s.calls t).map (TableCall.left s)).getD 0

/-- The step of a thread. -/
def TableEv.of (t : Nat) : TableEv abi → Bool
  | .step u _ => u == t
  | _ => false

def TableEv.isChange : TableEv abi → Bool
  | .change _ => true
  | _ => false

def TableEv.cost (e : TableEv abi) : Nat := if e.isChange then 2 else 0

section

variable {s : Tables abi} {t : Nat} {c : TableCall}

theorem Tables.left_eq (h : s.calls t = some c) : s.left t = c.left s := by
  rw [Tables.left, h]
  rfl

theorem TableCall.left_congr {s' : Tables abi} (h : s'.table = s.table) (c : TableCall) : c.left s' = c.left s := by
  cases c <;> simp only [TableCall.left, h]

theorem TableCall.left_bounds (s : Tables abi) (c : TableCall) : 0 < c.left s ∧ c.left s ≤ 7 := by
  cases c with
  | start k | store k block buffer | walk k block buffer => simp only [TableCall.left, Nat.reduceLT, Nat.reduceLeDiff, and_self]
  | malloc k bufferSize | query k bufferSize block =>
    simp only [TableCall.left]
    split_ifs <;> decide

theorem sum_cost (es : List (TableEv abi)) : (es.map TableEv.cost).sum = 2 * es.countP TableEv.isChange := by
  induction es with
  | nil => rfl
  | cons e es ih =>
    rw [List.map_cons, List.sum_cons, List.countP_cons, ih, TableEv.cost, Nat.mul_add, Nat.add_comm]
    split_ifs <;> rfl

theorem Tables.left_stepCall (reply : TableReply) :
    (∃ ans, (s.stepCall t reply c).2 = some (t, ans)) ∨
      ∃ c', (s.stepCall t reply c).1.calls t = some c' ∧ (s.stepCall t reply c).1.table = s.table ∧ c'.left s < c.left s := by
  cases c with
  | start k =>
    refine Or.inr ⟨_, Function.update_self .., rfl, ?_⟩
    simp only [TableCall.left]
    split_ifs <;> decide
  | malloc k bufferSize =>
    rw [Tables.stepCall]
    cases reply.memory 0 with
    | false => exact Or.inl ⟨_, rfl⟩
    | true =>
      refine Or.inr ⟨_, Function.update_self .., rfl, ?_⟩
      simp only [TableCall.left]
      split_ifs <;> decide
  | query k bufferSize block =>
    rw [Tables.stepCall]
    cases reply.fails with
    | some errno => exact Or.inl ⟨_, rfl⟩
    | none =>
      dsimp only
      right
      split_ifs with hfits
      · refine ⟨_, Function.update_self .., rfl, ?_⟩
        simp only [TableCall.left, if_pos hfits]
        decide
      · refine ⟨_, Function.update_self .., rfl, ?_⟩
        simp only [TableCall.left, if_neg hfits, if_pos (Nat.le_add_right _ reply.slack)]
        decide
  | store k block buffer => exact Or.inr ⟨_, Function.update_self .., rfl, Nat.lt_succ_self 1⟩
  | walk k block buffer => exact Or.inl ⟨_, rfl⟩

/-- Another thread keeps the table and what this one does. -/
theorem Tables.stepCall_other {u : Nat} (hu : u ≠ t) (reply : TableReply) (d : TableCall) :
    (s.stepCall u reply d).1.calls t = s.calls t ∧ (s.stepCall u reply d).1.table = s.table := by
  cases d with
  | start k | store k block buffer | walk k block buffer => exact ⟨Function.update_of_ne hu.symm .., rfl⟩
  | malloc k bufferSize =>
    rw [Tables.stepCall]
    cases reply.memory 0 <;> exact ⟨Function.update_of_ne hu.symm .., rfl⟩
  | query k bufferSize block =>
    rw [Tables.stepCall]
    cases reply.fails with
    | some errno => exact ⟨Function.update_of_ne hu.symm .., rfl⟩
    | none =>
      dsimp only
      split_ifs <;> exact ⟨Function.update_of_ne hu.symm .., rfl⟩

theorem Tables.left_mine (hc : s.calls t = some c) (reply : TableReply) :
    (∃ ans, ((tableMachine abi).step s (.step t reply)).2 = some (t, ans)) ∨
      (((tableMachine abi).step s (.step t reply)).1.calls t).isSome = true ∧ ((tableMachine abi).step s (.step t reply)).1.left t < s.left t := by
  have hstep : (tableMachine abi).step s (.step t reply) = s.stepCall t reply c := by simp only [tableMachine, hc]
  rw [hstep]
  refine (Tables.left_stepCall reply).imp_right fun ⟨c', hc', htable, hlt⟩ => ⟨Option.isSome_of_eq_some hc', ?_⟩
  rwa [Tables.left_eq hc', Tables.left_eq hc, TableCall.left_congr htable]

theorem Tables.left_other (hc : s.calls t = some c) {e : TableEv abi} (he : e.of t = false) :
    (((tableMachine abi).step s e).1.calls t).isSome = true ∧ ((tableMachine abi).step s e).1.left t ≤ s.left t + e.cost := by
  -- what the thread does stays, and so does the table
  have hkeep : ∀ s' : Tables abi, s'.calls t = s.calls t → s'.table = s.table →
      (s'.calls t).isSome = true ∧ s'.left t ≤ s.left t + e.cost :=
    fun s' hcalls htable => by
      rw [hc] at hcalls
      rw [Tables.left_eq hcalls, Tables.left_eq hc, TableCall.left_congr htable]
      exact ⟨Option.isSome_of_eq_some hcalls, Nat.le_add_right ..⟩
  cases e with
  | call u fn =>
    by_cases hu : (s.calls u).isSome = true
    · simp only [tableMachine, hu, if_true]
      exact hkeep s rfl rfl
    · have hne : t ≠ u := by
        rintro rfl
        exact hu (Option.isSome_of_eq_some hc)
      simp only [tableMachine, hu]
      exact hkeep _ (Function.update_of_ne hne ..) rfl
  | step u reply =>
    have hne : u ≠ t := by simpa [TableEv.of] using he
    simp only [tableMachine]
    cases s.calls u with
    | none => exact hkeep s rfl rfl
    | some d => exact hkeep _ (Tables.stepCall_other hne reply d).1 (Tables.stepCall_other hne reply d).2
  | change table =>
    refine ⟨Option.isSome_of_eq_some hc, ?_⟩
    rw [Tables.left_eq (s := ((tableMachine abi).step s (.change table)).1) hc, Tables.left_eq hc]
    cases c <;> simp only [TableCall.left, TableEv.cost, TableEv.isChange] <;> split_ifs <;> omega

end

/-- **Every call comes to an end.** From any state, a thread that is in a call answers within `7 + 2 * n` steps of its own, with `n` changes
of the table between them, whatever the other threads do. -/
theorem proc_table_returns (abi : WinAbi) (s : Tables abi) (t : Nat) (es : List (TableEv abi)) (hcall : (s.calls t).isSome = true)
    (hmany : 7 + 2 * es.countP TableEv.isChange ≤ es.countP (TableEv.of t)) : ∃ ans, some (t, ans) ∈ (tableMachine abi).outs s es := by
  obtain ⟨c, hc⟩ := Option.isSome_iff_exists.1 hcall
  obtain ⟨_, ho, ans, rfl⟩ : ∃ o ∈ (tableMachine abi).outs s es, ∃ ans, o = some (t, ans) := by
    refine @Machine.outs_of_left _ _ _ (tableMachine abi) (fun _ => True) (TableEv.of t) TableEv.cost (fun s => (s.calls t).isSome = true)
      (Tables.left t) (fun o => ∃ ans, o = some (t, ans)) (fun s e hs _ he => ?_) (fun s e hs _ he => ?_) (fun s hs => ?_) s hcall es
      (fun _ _ => trivial) ?_
    · obtain ⟨d, hd⟩ := Option.isSome_iff_exists.1 hs
      cases e with
      | call u fn => cases he
      | change table => cases he
      | step u reply =>
        obtain rfl : u = t := by simpa [TableEv.of] using he
        exact Tables.left_mine hd reply
    · obtain ⟨d, hd⟩ := Option.isSome_iff_exists.1 hs
      exact Tables.left_other hd he
    · obtain ⟨d, hd⟩ := Option.isSome_iff_exists.1 hs
      rw [Tables.left_eq hd]
      exact (TableCall.left_bounds s d).1
    · rw [sum_cost, Tables.left_eq hc]
      exact (Nat.add_le_add_right (TableCall.left_bounds s c).2 _).trans hmany
  exact ⟨ans, ho⟩

theorem proc_table_returns_idle : ∃ ans, some (0, ans) ∈ (tableMachine .win64).outs
    ((tableMachine .win64).run (.start idleTable) [.call 0 (.entry 4)]) (.change idleTable :: List.replicate 9 (.step 0 served)) :=
  proc_table_returns .win64 ((tableMachine .win64).run (.start idleTable) [.call 0 (.entry 4)]) 0
    (.change idleTable :: List.replicate 9 (.step 0 served)) rfl (by decide)

end Psutil.ProcTable
