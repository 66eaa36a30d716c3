import Psutil.Lib.Dict
import Psutil.Linux.Bytes

/-!
# What the getters make of `/proc/PID/stat`, `status` and `smaps` (`_pslinux.py:1653-2340`)

| here | there |
| --- | --- |
| `StatFields.parse`, `showsZombie` | `_parse_stat_file` (`:1698`), `_is_zombie` (`:1653`) |
| `StatFields.ppid`, `.status`, `.cpuTimes`, `.cpuNum`, `.pageFaults`, `.starttime` | the getters on the parsed fields |
| `uids`, `gids`, `numThreads`, `numCtxSwitches` | the getters on the text of `status` |
| `parseSmaps`, `parseSmapsRollup` | `_parse_smaps` (`:1964`), `_parse_smaps_rollup` (`:1941`) |
| `MapsLoop`, `memoryMaps`, `groupMaps` | `memory_maps` (`:2009`), and the grouping of `__init__.py:1446` |
| `bootTime` | `boot_time` (`:1531`) |

Each is a function of the content alone, but for `memory_maps`, which asks whether a path that ends in
` (deleted)` exists. Names and paths stay the bytes that the code decodes.
-/

namespace Psutil

open Lib Bytes

/-- The dictionary `_parse_stat_file` returns. -/
structure StatFields where
  name : Bytes
  status : Bytes
  ppid : Bytes
  ttynr : Bytes
  minflt : Bytes
  majflt : Bytes
  utime : Bytes
  stime : Bytes
  childrenUtime : Bytes
  childrenStime : Bytes
  createTime : Bytes
  cpuNum : Bytes
  /-- `none` is the number 0 of kernels that do not show the field. -/
  blkioTicks : Option Bytes
  deriving DecidableEq

/-- `ProcessStatus`, as far as Linux uses it. -/
inductive ProcessStatus where
  | running | sleeping | diskSleep | stopped | tracingStop | zombie | dead | wakeKill | waking | idle | parked
  deriving DecidableEq, Repr

/-- `PROC_STATUSES` (`:96`). -/
def procStatuses : String → Option ProcessStatus
  | "R" => some .running
  | "S" => some .sleeping
  | "D" => some .diskSleep
  | "T" => some .stopped
  | "t" => some .tracingStop
  | "Z" => some .zombie
  | "X" => some .dead
  | "x" => some .dead
  | "K" => some .wakeKill
  | "W" => some .waking
  | "I" => some .idle
  | "P" => some .parked
  | _ => none

/-- `pcputimes`. -/
structure CpuTimes where
  user : ℚ
  system : ℚ
  childrenUser : ℚ
  childrenSystem : ℚ
  iowait : ℚ
  deriving DecidableEq

/-- One item of `memory_maps`; `nums` are the ten numbers from `rss` to `swap`. -/
structure Region where
  addr : Bytes
  perms : Bytes
  path : Bytes
  nums : List Int
  deriving DecidableEq

/-- What a getter returns. -/
inductive Value where
  | number (n : Int)
  /-- `none` is `'?'`. -/
  | status (s : Option ProcessStatus)
  | cpuTimes (t : CpuTimes)
  | pageFaults (minor major : Int)
  | time (t : ℚ)
  | ids (real effective saved : Nat)
  | ctxSwitches (voluntary involuntary : Nat)
  | footprint (uss pss swap : Int)
  | maps (l : List Region)
  | mapsGrouped (l : List (Bytes × List Int))
  deriving DecidableEq

/-! ## `stat` -/

def StatFields.parse (data : Bytes) : Except Exc StatFields := do
  let rpar := data.rfind (byte ')')
  let name := data.slice (data.find (byte '(') + 1) rpar
  let fields := split (data.sliceFrom (rpar + 2))
  let status ← getItem fields 0
  let ppid ← getItem fields 1
  let ttynr ← getItem fields 4
  let minflt ← getItem fields 7
  let majflt ← getItem fields 9
  let utime ← getItem fields 11
  let stime ← getItem fields 12
  let childrenUtime ← getItem fields 13
  let childrenStime ← getItem fields 14
  let createTime ← getItem fields 19
  let cpuNum ← getItem fields 36
  .ok { name, status, ppid, ttynr, minflt, majflt, utime, stime, childrenUtime, childrenStime, createTime, cpuNum,
        blkioTicks := fields[39]? }

/-- `status == b"Z"`. -/
def showsZombie (data : Bytes) : Bool :=
  let rpar := data.rfind (byte ')')
  data.slice (rpar + 2) (rpar + 3) = ascii "Z"

namespace StatFields

def ppidOf (f : StatFields) : Except Exc Value := return .number (← int f.ppid)

def statusOf (f : StatFields) : Except Exc Value := return .status (procStatuses (← decode f.status))

def cpuNumOf (f : StatFields) : Except Exc Value := return .number (← int f.cpuNum)

def pageFaultsOf (f : StatFields) : Except Exc Value := return .pageFaults (← int f.minflt) (← int f.majflt)

def cpuTimesOf (clockTicks : Nat) (f : StatFields) : Except Exc Value := do
  let utime ← float f.utime
  let stime ← float f.stime
  let childrenUtime ← float f.childrenUtime
  let childrenStime ← float f.childrenStime
  let iowait ← match f.blkioTicks with
    | some ticks => float ticks
    | none => .ok 0
  return .cpuTimes ⟨utime / clockTicks, stime / clockTicks, childrenUtime / clockTicks, childrenStime / clockTicks,
    iowait / clockTicks⟩

/-- The start of the process, in seconds since the boot. -/
def starttime (clockTicks : Nat) (f : StatFields) : Except Exc ℚ := return (← float f.createTime) / clockTicks

end StatFields

/-! ## `status` -/

/-- The three numbers of the first line that reads like `Uid:` or `Gid:`. -/
def firstIds (label : String) (data : Bytes) : Except Exc Value :=
  match Pattern.findall (lit label ++ digitGroup :: lit "\t" ++ digitGroup :: lit "\t" ++ [digitGroup]) data with
  | [real, effective, saved] :: _ => .ok (.ids (digits real) (digits effective) (digits saved))
  | _ => .error .indexError

def uids (data : Bytes) : Except Exc Value := firstIds "Uid:\t" data

def gids (data : Bytes) : Except Exc Value := firstIds "Gid:\t" data

def numThreads (data : Bytes) : Except Exc Value :=
  match Pattern.findall (lit "Threads:\t" ++ [digitGroup]) data with
  | [n] :: _ => .ok (.number (digits n))
  | _ => .error .indexError

/-- `fname` is the path of the file. -/
def numCtxSwitches (fname : String) (data : Bytes) : Except Exc Value :=
  match Pattern.findall (lit "ctxt_switches:\t" ++ [digitGroup]) data with
  | [] => .error (.notImplementedError ("'voluntary_ctxt_switches' and 'nonvoluntary_ctxt_switches'lines were " ++
      "not found in " ++ fname ++ "; the kernel is probably older than 2.6.23"))
  | [voluntary] :: [involuntary] :: _ => .ok (.ctxSwitches (digits voluntary) (digits involuntary))
  | _ => .error .indexError

/-! ## `smaps` -/

/-- `sum(map(int, regex.findall(data))) * 1024`. -/
def sumKb (pat : Pattern UInt8) (data : Bytes) : Nat :=
  ((Pattern.findall pat data).map fun groups => (groups.map digits).sum).sum * 1024

def parseSmaps (data : Bytes) : Value :=
  .footprint (sumKb (lit "\nPrivate" ++ dotStar :: lit ":" ++ [spaces, digitGroup]) data)
    (sumKb (lit "\nPss:" ++ [spaces, digitGroup]) data) (sumKb (lit "\nSwap:" ++ [spaces, digitGroup]) data)

/-- `uss`, `pss` and `swap` after a line of `smaps_rollup`. -/
def rollupLine (acc : Int × Int × Int) (line : Bytes) : Except Exc (Int × Int × Int) := do
  let (uss, pss, swap) := acc
  if line.startsWith (ascii "Private_") then return (uss + (← int (← getItem (split line) 1)) * 1024, pss, swap)
  else if line.startsWith (ascii "Pss:") then return (uss, (← int (← getItem (split line) 1)) * 1024, swap)
  else if line.startsWith (ascii "Swap:") then return (uss, pss, (← int (← getItem (split line) 1)) * 1024)
  else return acc

def parseSmapsRollup (data : Bytes) : Except Exc Value := do
  let (uss, pss, swap) ← (data.splitOn 10).foldlM rollupLine (0, 0, 0)
  return .footprint uss pss swap

/-- Answers to `path_exists_strict`, by the moment of the question. -/
abbrev PathExists := Nat → Bytes → Except Exc Bool

/-- `path.endswith(' (deleted)') and not path_exists_strict(path)`, and the moment after it. -/
def regionPath (ex : PathExists) (now : Nat) (path : Bytes) : Except Exc Bytes × Nat :=
  if path = [] then (.ok (ascii "[anon]"), now)
  else
    let path := strip path
    if path.endsWith (ascii " (deleted)") then
      ((ex now path).map fun there => if there then path else path.take (path.length - 10), now + 1)
    else (.ok path, now)

def regionFields : List String := ["Rss:", "Size:", "Pss:", "Shared_Clean:", "Shared_Dirty:", "Private_Clean:",
  "Private_Dirty:", "Referenced:", "Anonymous:", "Swap:"]

/-- The body of the loop over the blocks. -/
def mapsItem (ex : PathExists) (now : Nat) (header : Bytes) (data : Dict Bytes Int) : Except Exc Region × Nat :=
  let item (addr perms path : Bytes) : Except Exc Region × Nat :=
    let (path, now) := regionPath ex now path
    (path.map fun path => ⟨addr, perms, path, regionFields.map fun f => (data.get? (ascii f)).getD 0⟩, now)
  match splitMax 5 header with
  | [addr, perms, _, _, _, path] => item addr perms path
  | [addr, perms, _, _, _] => item addr perms []
  | hfields => (.error (.valueError ("not enough values to unpack (expected 6, got " ++
      toString (hfields.length + 1) ++ ")")), now)

/-- One line of a block: the new data, or nothing where a new block begins. -/
def mapsLine (line : Bytes) (fields : List Bytes) (data : Dict Bytes Int) : Except Exc (Option (Dict Bytes Int)) :=
  match fields with
  | [] => .error .indexError
  | field :: rest =>
    if field.endsWith (ascii ":") then
      match (getItem rest 0).bind int with
      | .ok n => .ok (some (data.set field (n * 1024)))
      | .error _ =>
        if field.startsWith (ascii "VmFlags:") then .ok (some data)
        else .error (.valueError ("don't know how to interpret line " ++ Bytes.repr line))
    else .ok none

/-- The loop over the lines after the header, with the items so far; `data` is one dictionary for all blocks. -/
def mapsLoop (ex : PathExists) :
    (now : Nat) → (ls : List Region) → (header : Bytes) → (data : Dict Bytes Int) → List Bytes → Except Exc (List Region) × Nat
  | now, ls, header, data, [] => match mapsItem ex now header data with
    | (.ok item, now) => (.ok (ls ++ [item]), now)
    | (.error e, now) => (.error e, now)
  | now, ls, header, data, line :: lines => match mapsLine line (splitMax 5 line) data with
    | .error e => (.error e, now)
    | .ok (some data) => mapsLoop ex now ls header data lines
    | .ok none => match mapsItem ex now header data with
      | (.ok item, now) => mapsLoop ex now (ls ++ [item]) line data lines
      | (.error e, now) => (.error e, now)

/-- The part of `memory_maps` after the test for an empty file. -/
def memoryMaps (ex : PathExists) (now : Nat) (data : Bytes) : Except Exc (List Region) × Nat :=
  match data.splitOn 10 with
  | [] => (.ok [], now)
  | header :: lines => mapsLoop ex now [] header ∅ lines

/-- `memory_maps(grouped=True)`. -/
def groupMaps (it : List Region) : List (Bytes × List Int) :=
  (it.foldl (fun d r => d.set r.path (match d.get? r.path with
    | some nums => nums.zipWith (· + ·) r.nums
    | none => r.nums)) (∅ : Dict Bytes (List Int))).items

/-! ## `/proc/stat` -/

/-- `fname` is the path of the file. -/
def bootTime (fname : String) (data : Bytes) : Except Exc ℚ :=
  match (data.splitOn 10).find? (startsWith · (ascii "btime")) with
  | some line => (getItem (split line) 1).bind float
  | none => .error (.runtimeError ("line 'btime' not found in " ++ fname))

end Psutil
