import Mathlib.Logic.Function.Basic
import Psutil.Lib.Effect
import Psutil.Linux.ProcFiles
import Psutil.Proc.World

/-!
# `oneshot()` and the getters it speeds up

| here | there |
| --- | --- |
| `memoizeWhenActivated` | the wrapper of `_common.py:253` |
| `wrapExceptions`, `raiseIfZombie` | `_pslinux.py:1608`, `:1673` |
| `readFile` | `_parse_stat_file`, `_read_status_file`, `_read_smaps_file` (`_pslinux.py:1696-1751`) |
| `Plat.*` | the methods of `_pslinux.Process` |
| `PyProcess.*`, `Getter.run` | the methods of `psutil.Process` |
| `initObj` | `Process._init` (`__init__.py:413`) |
| `oneshotEnter`, `oneshotExit`, `Prog.run` | `Process.oneshot` (`__init__.py:611`), used by a program |

What `/proc` shows may be different at every moment; the code looks at it at moment 0, 1, 2 and so on. Every look at
a file is recorded in a log, next to what the program does. A cache is one attribute of its object for all the
methods that share it, so the keys of the dictionary are the methods. `_prefetch` is empty, as `_init` leaves it.
-/

namespace Psutil.Oneshot

open Lib Bytes

/-- The files with a memoized reader. -/
inductive File where
  | stat | status | smaps
  deriving DecidableEq, Repr

/-- What the reader of a file returns. -/
def File.Content : File → Type
  | .stat => StatFields
  | .status => Bytes
  | .smaps => Bytes

/-- What the readers make of the bytes. -/
def File.parse : (f : File) → Bytes → Except Exc f.Content
  | .stat, data => StatFields.parse data
  | .status, data => .ok data
  | .smaps, data => .ok (strip data)

/-- The getters of the program. -/
inductive Getter where
  | ppid | status | cpuTimes | cpuNum | pageFaults | createTime
  | uids | gids | numThreads | numCtxSwitches | memoryFootprint | memoryMaps (grouped : Bool)
  deriving DecidableEq, Repr

/-- Who looks at which file. -/
inductive Look where
  /-- A memoized reader of the object. -/
  | memoized (f : File)
  /-- `_is_zombie`, which reads `stat`. -/
  | zombie
  /-- The second object of `is_running`, which reads `stat`. -/
  | other
  | smapsRollup
  /-- `boot_time`, which reads `/proc/stat`. -/
  | bootTime
  deriving DecidableEq, Repr

/-- The files of `/proc/PID`, and `/proc/stat`. -/
inductive Path where
  | file (f : File) | smapsRollup | bootTime
  deriving DecidableEq, Repr

def Look.path : Look → Path
  | .memoized f => .file f
  | .zombie | .other => .file .stat
  | .smapsRollup => .smapsRollup
  | .bootTime => .bootTime

/-- What the operating system answers at one moment. -/
structure Moment where
  read : Path → Except Errno Bytes
  /-- `os.path.exists("/proc/PID/stat")`. -/
  statExists : Bool
  /-- `os.stat(path)`. -/
  osStat : Bytes → Except Errno Unit

structure LinuxHost where
  pid : Nat
  procfsPath : String
  clockTicks : Nat
  hasSmapsRollup : Bool
  moment : Nat → Moment

inductive Event where
  /-- A `with p.oneshot()` block begins or ends, an outermost or a nested one. -/
  | enter
  | leave
  | look (l : Look) (data : Except Errno Bytes)
  /-- A memoized reader is called, and answers. -/
  | ask (f : File)
  | answer (f : File) (r : Except Exc f.Content)
  /-- The program calls a getter, and gets its outcome. -/
  | call (g : Getter)
  | ret (g : Getter) (r : Except Exc Value)

/-- A `_cache` dictionary. -/
abbrev Cache (κ : Type) (ν : κ → Type) := (k : κ) → Option (ν k)

def Cache.empty {κ : Type} {ν : κ → Type} : Cache κ ν := fun _ => none

/-- A `psutil.Process` with its `_proc`, at some moment. -/
structure Obj where
  /-- `_cache`, when the attribute is there. -/
  cache : Option (Cache Getter fun _ => Value)
  createTime : Option ℚ
  gone : Bool
  pidReused : Bool
  /-- The second half of `_ident`. -/
  ident : Option ℚ
  /-- `_proc._cache`, when the attribute is there. -/
  procCache : Option (Cache File File.Content)
  /-- `_proc._ctime`. -/
  ctime : Option ℚ
  now : Nat
  log : List Event

/-- Code that runs on the object; what it did before it raised stays done. -/
abbrev Py (α : Type) := Eff Exc Obj α

def Obj.emit (s : Obj) (e : Event) : Obj := { s with log := s.log ++ [e] }

def ofExcept {α : Type} (r : Except Exc α) : Py α := fun s => (r, s)

/-- The wrapper of `memoize_when_activated`, over the cache of either object. -/
def memoizeWhenActivated {κ : Type} {ν : κ → Type} [DecidableEq κ] (cache : Obj → Option (Cache κ ν))
    (setCache : Cache κ ν → Obj → Obj) (key : κ) (fun_ : Py (ν key)) : Py (ν key) := do
  match cache (← get) with
  | none => fun_
  | some d => match d key with
    | some ret => return ret
    | none =>
      let ret ← fun_
      modify fun s => match cache s with
        | some d => setCache (Function.update d key (some ret)) s
        | none => s
      return ret

namespace LinuxHost

variable (h : LinuxHost)

def look (l : Look) : Py Bytes := fun s =>
  let data := (h.moment s.now).read l.path
  (match data with | .ok d => .ok d | .error e => .error (.osError e), { s.emit (.look l data) with now := s.now + 1 })

/-- `os.path.exists("/proc/PID/stat")`. -/
def statExists : Py Bool := fun s => (.ok (h.moment s.now).statExists, { s with now := s.now + 1 })

def isZombie : Py Bool :=
  tryCatch (do return showsZombie (← h.look .zombie)) fun e => match e with
    | .osError _ => return false
    | e => throw e

def raiseIfZombie : Py Unit := do
  if ← h.isZombie then throw (.zombieProcess h.pid none none)

def noSuchProcess : Exc := .noSuchProcess h.pid none noSuchProcessMsg

/-- What the wrapper of `wrap_exceptions` does with an exception. -/
def translate {α : Type} (e : Exc) : Py α :=
  match e with
  | .osError .eacces | .osError .eperm => throw (.accessDenied h.pid none)
  | .osError .esrch => do
    h.raiseIfZombie
    throw h.noSuchProcess
  | .osError .enoent => do
    h.raiseIfZombie
    if !(← h.statExists) then throw h.noSuchProcess
    throw e
  | e => throw e

def wrapExceptions {α : Type} (fun_ : Py α) : Py α := tryCatch fun_ h.translate

/-- The body of a memoized reader. -/
def readBody (f : File) : Py f.Content := do ofExcept (f.parse (← h.look (.memoized f)))

/-- A memoized reader of the object, called by a getter. -/
def readFile (f : File) : Py f.Content := fun s =>
  let r := h.wrapExceptions (memoizeWhenActivated Obj.procCache (fun d s => { s with procCache := some d }) f (h.readBody f))
    (s.emit (.ask f))
  (r.1, r.2.emit (.answer f r.1))

/-- The body of most getters of the platform. -/
def fromFile (f : File) (value : f.Content → Except Exc Value) : Py Value :=
  h.wrapExceptions do ofExcept (value (← h.readFile f))

/-- `path_exists_strict`. -/
def pathExistsStrict : PathExists := fun now path =>
  match (h.moment now).osStat path with
  | .ok () => .ok true
  | .error .eacces => .error (.osError .eacces)
  | .error .eperm => .error (.osError .eperm)
  | .error _ => .ok false

end LinuxHost

/-! ## `_pslinux.Process` -/

namespace Plat

variable (h : LinuxHost)

def ppid : Py Value := h.fromFile .stat StatFields.ppidOf

def status : Py Value := h.fromFile .stat StatFields.statusOf

def cpuTimes : Py Value := h.fromFile .stat (StatFields.cpuTimesOf h.clockTicks)

def cpuNum : Py Value := h.fromFile .stat StatFields.cpuNumOf

def pageFaults : Py Value := h.fromFile .stat StatFields.pageFaultsOf

def uids : Py Value := h.fromFile .status Psutil.uids

def gids : Py Value := h.fromFile .status Psutil.gids

def numThreads : Py Value := h.fromFile .status Psutil.numThreads

/-- `/proc/PID/status`. -/
def statusPath : String := h.procfsPath ++ "/" ++ toString h.pid ++ "/status"

def numCtxSwitches : Py Value := h.fromFile .status (Psutil.numCtxSwitches (statusPath h))

def bootTime : Py ℚ := do ofExcept (Psutil.bootTime (h.procfsPath ++ "/stat") (← h.look .bootTime))

def createTime (monotonic : Bool) : Py ℚ := h.wrapExceptions do
  let ctime ← match (← get).ctime with
    | some ctime => pure ctime
    | none =>
      let fields ← h.readFile .stat
      let ctime ← ofExcept (fields.starttime h.clockTicks)
      modify fun s => { s with ctime := some ctime }
      pure ctime
  if monotonic then return ctime
  return ctime + (← bootTime h)

def parseSmapsRollup : Py Value := do ofExcept (Psutil.parseSmapsRollup (← h.look .smapsRollup))

def parseSmaps : Py Value := h.fromFile .smaps fun data => .ok (Psutil.parseSmaps data)

def memoryFootprint : Py Value := h.wrapExceptions <|
  if h.hasSmapsRollup then
    tryCatch (parseSmapsRollup h) fun e => match e with
      | .osError .esrch | .osError .enoent => parseSmaps h
      | e => throw e
  else parseSmaps h

/-- The loop over the blocks, at the present moment. -/
def mapsBlocks (data : Bytes) : Py (List Region) := fun s =>
  let r := Psutil.memoryMaps h.pathExistsStrict s.now data
  (r.1, { s with now := r.2 })

def memoryMaps : Py (List Region) := h.wrapExceptions do
  let data : Bytes ← h.readFile .smaps
  if data = [] then
    h.raiseIfZombie
    return []
  mapsBlocks h data

end Plat

/-! ## `psutil.Process` -/

namespace PyProcess

variable (h : LinuxHost)

def memoized (g : Getter) (fun_ : Py Value) : Py Value :=
  memoizeWhenActivated Obj.cache (fun d s => { s with cache := some d }) g fun_

/-- The second half of `Process(self.pid)._ident`, for another object. -/
def otherIdent : Py (Option ℚ) :=
  tryCatch (do
    let ctime ← h.wrapExceptions do
      let fields ← h.wrapExceptions do ofExcept (StatFields.parse (← h.look .other))
      ofExcept (fields.starttime h.clockTicks)
    return some ctime) fun e => match e with
    | .accessDenied _ _ | .zombieProcess _ _ _ => return none
    | .noSuchProcess _ _ _ => throw (.noSuchProcess h.pid none "process PID not found")
    | e => throw e

/-- `_cmp_idents(…) == "different"`, for one PID. -/
def differ (ctime1 ctime2 : Option ℚ) : Bool :=
  match ctime1, ctime2 with
  | some c1, some c2 => c1 ≠ 0 && c2 ≠ 0 && c1 ≠ c2
  | _, _ => false

def isRunning : Py Bool := do
  let s ← get
  if s.gone || s.pidReused then return false
  tryCatch (do
    let other ← otherIdent h
    modify fun s => { s with pidReused := differ s.ident other }
    if (← get).pidReused then throw h.noSuchProcess
    return true) fun e => match e with
    | .zombieProcess _ _ _ => return true
    | .noSuchProcess _ _ _ => do
      modify fun s => { s with gone := true }
      return false
    | e => throw e

def pidReused : Exc := .noSuchProcess h.pid none "process no longer exists and its PID has been reused"

def raiseIfPidReused : Py Unit := do
  if (← get).pidReused then throw (pidReused h)
  let running ← isRunning h
  if !running && (← get).pidReused then throw (pidReused h)

def ppid : Py Value := memoized .ppid do
  raiseIfPidReused h
  Plat.ppid h

def status : Py Value :=
  tryCatch (Plat.status h) fun e => match e with
    | .zombieProcess _ _ _ => return .status (some .zombie)
    | e => throw e

def createTime : Py Value := do
  match (← get).createTime with
  | some t => return .time t
  | none =>
    let t ← Plat.createTime h false
    modify fun s => { s with createTime := some t }
    return .time t

/-- What `memory_maps` returns for the items of the platform. -/
def mapsValue (grouped : Bool) (it : List Region) : Value := if grouped then .mapsGrouped (groupMaps it) else .maps it

def memoryMaps (grouped : Bool) : Py Value := return mapsValue grouped (← Plat.memoryMaps h)

end PyProcess

def Getter.run (h : LinuxHost) : Getter → Py Value
  | .ppid => PyProcess.ppid h
  | .status => PyProcess.status h
  | .cpuTimes => PyProcess.memoized .cpuTimes (Plat.cpuTimes h)
  | .cpuNum => Plat.cpuNum h
  | .pageFaults => Plat.pageFaults h
  | .createTime => PyProcess.createTime h
  | .uids => PyProcess.memoized .uids (Plat.uids h)
  | .gids => Plat.gids h
  | .numThreads => Plat.numThreads h
  | .numCtxSwitches => Plat.numCtxSwitches h
  | .memoryFootprint => Plat.memoryFootprint h
  | .memoryMaps grouped => PyProcess.memoryMaps h grouped

/-! ## The context manager, and programs that use it -/

/-- `cache_activate`, on the caches of the two objects. -/
def cacheActivate (s : Obj) : Obj := { s with cache := some .empty }

def procCacheActivate (s : Obj) : Obj := { s with procCache := some .empty }

/-- `cache_deactivate`. -/
def cacheDeactivate (s : Obj) : Obj := { s with cache := none }

def procCacheDeactivate (s : Obj) : Obj := { s with procCache := none }

/-- The `try` up to the `yield`: `cpu_times`, `memory_info`, `ppid`, `uids`, and `_proc.oneshot_enter()`. -/
def oneshotEnter (s : Obj) : Obj :=
  let s := cacheActivate (cacheActivate (cacheActivate (cacheActivate s)))
  procCacheActivate (procCacheActivate (procCacheActivate s))

/-- The `finally`. -/
def oneshotExit (s : Obj) : Obj :=
  let s := cacheDeactivate (cacheDeactivate (cacheDeactivate (cacheDeactivate s)))
  procCacheDeactivate (procCacheDeactivate (procCacheDeactivate s))

/-- A program. What follows a getter or a block is told its outcome, so it may handle an exception or let it
through by raising it again. -/
inductive Prog where
  | ret (vs : List Value)
  | raise (e : Exc)
  | call (g : Getter) (k : Except Exc Value → Prog)
  | oneshot (body : Prog) (k : Except Exc (List Value) → Prog)

def Prog.run (h : LinuxHost) : Prog → Obj → Except Exc (List Value) × Obj
  | .ret vs, s => (.ok vs, s)
  | .raise e, s => (.error e, s)
  | .call g k, s =>
    let r := g.run h (s.emit (.call g))
    (k r.1).run h (r.2.emit (.ret g r.1))
  | .oneshot body k, s =>
    let s := s.emit .enter
    -- `hasattr(self, "_cache")`
    if s.cache.isSome then
      let r := body.run h s
      (k r.1).run h (r.2.emit .leave)
    else
      let r := body.run h (oneshotEnter s)
      (k r.1).run h ((oneshotExit r.2).emit .leave)

def blankObj : Obj := ⟨none, none, false, false, none, none, none, 0, []⟩

/-- `_init`, of a PID that is not negative. -/
def initObj (h : LinuxHost) (ignoreNsp : Bool) : Py Unit := do
  if h.pid > pidMax then throw (.noSuchProcess h.pid none "process PID out of range")
  tryCatch (do
    let ctime ← Plat.createTime h true
    modify fun s => { s with ident := some ctime }) fun e => match e with
    | .accessDenied _ _ | .zombieProcess _ _ _ => return ()
    | .noSuchProcess _ _ _ =>
      if ignoreNsp then modify fun s => { s with gone := true }
      else throw (.noSuchProcess h.pid none "process PID not found")
    | e => throw e

/-- A program run on a new object. -/
def session (h : LinuxHost) (ignoreNsp : Bool) (prog : Prog) : Except Exc (List Value) × Obj :=
  match initObj h ignoreNsp blankObj with
  | (.ok (), s) => prog.run h s
  | (.error e, s) => (.error e, s)

end Psutil.Oneshot
