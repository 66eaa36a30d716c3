import Mathlib.Logic.Function.Basic
import Psutil.Lib.Ledger
import Psutil.Lib.Run

/-!
# `psutil_get_open_files` on Windows and its worker (`arch/windows/proc_handles.c`)

| here | there |
| --- | --- |
| `Worker`, `Worker.act` | `Worker` (`:94`), `worker_loop` (`:239`) |
| `MainPc.ensure` | `worker_create` (`:294`) |
| `MainPc.quit`, `MainPc.joinQuit` | `worker_destroy` (`:333`) |
| `Query`, `MainPc.alloc` to `MainPc.reply` | `worker_get_filename` (`:354`) |
| `MainPc.loop`, `MainPc.append` to `MainPc.finished` | `psutil_get_open_files` (`:459`) |

Main thread and workers take turns at every access of what they share; what the system answers is part of the event. A
wait may expire at any moment, a query may never complete, and a termination takes effect whenever the system likes. The
ledger has what happens to the duplicated handles, the name buffers, the threads, and the `Worker` structures with their
two events. The type index and the snapshot are there.
-/

namespace Psutil.OpenFiles

open Lib

/-! ## Statuses -/

/-- `NT_SUCCESS`. -/
def ntSuccess (status : Int) : Bool := 0 ≤ status

/-- `0x80000005`. -/
def statusBufferOverflow : Int := -2147483643

/-- `0xC0000004`. -/
def statusInfoLengthMismatch : Int := -1073741820

/-- `0xC0000023`. -/
def statusBufferTooSmall : Int := -1073741789

def tooSmall (status : Int) : Bool :=
  status = statusBufferOverflow || status = statusInfoLengthMismatch || status = statusBufferTooSmall

/-! ## What is shared -/

/-- Duplicated handles and name buffers; the threads and the structures of the workers. -/
inductive Res where
  | file (n : Nat)
  | name (n : Nat)
  | thread (n : Nat)
  | worker (n : Nat)
  deriving DecidableEq, Repr

def Res.id : Res → Nat
  | file n | name n | thread n | worker n => n

/-- What a name buffer was filled with, and by the query of which handle. -/
structure Content where
  source : Nat
  path : List UInt16
  deriving DecidableEq

/-- Where a worker is in its loop. -/
inductive ThreadPc where
  | waiting
  /-- About to call `GetFileType`, then `NtQueryInformationFile` twice, then `NtQueryObject`. -/
  | fileType
  | standard
  | basic
  | name
  /-- In `NtQueryObject`, with its arguments. -/
  | query (hFile fileName bufferSize : Nat)
  | store (status : Int)
  /-- About to call `SetEvent(w->hDoneEvent)`. -/
  | signal
  | exited
  deriving DecidableEq

structure Worker where
  hFile : Nat
  fileName : Nat
  bufferSize : Nat
  returnLength : Nat
  status : Int
  quit : Bool
  startEvent : Bool
  doneEvent : Bool
  thread : ThreadPc
  /-- `TerminateThread` was called. -/
  terminated : Bool
  deriving DecidableEq

/-- A zeroed structure, before its thread is there. -/
def Worker.zero : Worker := ⟨0, 0, 0, 0, 0, false, false, false, .exited, false⟩

inductive WorkerEv where
  /-- The next step; `yes` is what the system says of the file. -/
  | run (yes : Bool)
  /-- `NtQueryObject` comes back. -/
  | complete (status : Int) (returnLength : Nat) (written : Option (List UInt16))
  /-- A termination takes effect. -/
  | die

namespace Worker

variable (w : Worker)

/-- One step of `worker_loop`; `none` if there is none. -/
def act : WorkerEv → Option Worker
  | .run yes => match w.thread with
    | .waiting =>
      if !w.startEvent then none
      else if w.quit then some { w with startEvent := false, thread := .exited }
      else some { w with startEvent := false, status := 0, thread := .fileType }
    -- is it on a disk?
    | .fileType => some { w with thread := if yes then .standard else .signal }
    -- is it neither a directory nor about to be deleted?
    | .standard => some { w with thread := if yes then .basic else .signal }
    -- has it the attributes of a directory?
    | .basic => some { w with thread := if yes then .signal else .name }
    | .name => some { w with thread := .query w.hFile w.fileName w.bufferSize }
    | .store status => some { w with status := status, thread := .signal }
    | .signal => some { w with doneEvent := true, thread := .waiting }
    | .query _ _ _ | .exited => none
  | .complete status returnLength _ => match w.thread with
    | .query _ _ _ => some { w with returnLength := returnLength, thread := .store status }
    | _ => none
  | .die => if w.terminated && w.thread ≠ .exited then some { w with thread := .exited } else none

/-- What the step of worker `k` accesses. -/
def uses (k : Nat) : WorkerEv → List (Ledger.Op Res)
  | .run _ => match w.thread with
    | .fileType | .standard | .basic | .name => [.peer (.file w.hFile), .peer (.worker k)]
    | _ => [.peer (.worker k)]
  | .complete _ _ _ => match w.thread with
    | .query hFile fileName _ => [.peer (.name fileName), .peer (.file hFile), .peer (.worker k)]
    | _ => []
  | .die => []

def writes (buffers : Nat → Option Content) : WorkerEv → Nat → Option Content
  | .complete _ _ (some path) => match w.thread with
    | .query hFile fileName _ => Function.update buffers fileName (some ⟨hFile, path⟩)
    | _ => buffers
  | _ => buffers

end Worker

/-! ## The main thread -/

/-- `PROCESS_HANDLE_TABLE_ENTRY_INFO`. -/
structure Entry where
  handleValue : Nat
  objectTypeIndex : Nat

/-- The locals of `worker_get_filename`. -/
structure Query where
  hFile : Nat
  name : Nat
  attempts : Nat
  bufferSize : Nat
  deriving DecidableEq

/-- What the exception comes from. -/
inductive OpenError where
  | noMemory
  | workerCreate
  | ntStatus (status : Int)
  | append
  deriving DecidableEq

/-- Where the main thread is, with the locals that are set there. -/
inductive MainPc where
  /-- The head of the loop over the handles. -/
  | loop (worker : Option Nat)
  /-- `MALLOC_ZERO(bufferSize)`. -/
  | alloc (worker : Option Nat) (hFile attempts bufferSize : Nat)
  | ensure (worker : Option Nat) (q : Query)
  | submit (w : Nat) (q : Query)
  | start (w : Nat) (q : Query)
  | wait (w : Nat) (q : Query)
  | kill (w : Nat) (q : Query)
  /-- `WaitForSingleObject(w->hThread, KILL_JOIN_TIMEOUT)`. -/
  | join (w : Nat) (q : Query)
  | reply (w : Nat) (q : Query)
  | append (w hFile fileName : Nat)
  | cleanup (w hFile fileName : Nat)
  | exit (worker hFile fileName : Option Nat)
  | quit (w : Nat) (hFile fileName : Option Nat)
  | joinQuit (w : Nat) (hFile fileName : Option Nat)
  /-- After `worker_destroy`. -/
  | rest (hFile fileName : Option Nat)
  | finished
  deriving DecidableEq

namespace MainPc

def worker : MainPc → Option Nat
  | loop worker | alloc worker _ _ _ | ensure worker _ | exit worker _ _ => worker
  | submit w _ | start w _ | wait w _ | kill w _ | join w _ | reply w _ | append w _ _ | cleanup w _ _ | quit w _ _
  | joinQuit w _ _ => some w
  | rest _ _ | finished => none

def hFile : MainPc → Option Nat
  | loop _ | finished => none
  | alloc _ hFile _ _ | append _ hFile _ | cleanup _ hFile _ => some hFile
  | ensure _ q | submit _ q | start _ q | wait _ q | kill _ q | join _ q | reply _ q => some q.hFile
  | exit _ hFile _ | quit _ hFile _ | joinQuit _ hFile _ | rest hFile _ => hFile

/-- The buffer in `name` or `fileName`. -/
def name : MainPc → Option Nat
  | loop _ | alloc _ _ _ _ | finished => none
  | ensure _ q | submit _ q | start _ q | wait _ q | kill _ q | join _ q | reply _ q => some q.name
  | append _ _ fileName | cleanup _ _ fileName => some fileName
  | exit _ _ fileName | quit _ _ fileName | joinQuit _ _ fileName | rest _ fileName => fileName

end MainPc

/-- A path of the result: the handle whose turn it is, and where the name comes from. -/
structure Found where
  handle : Nat
  source : Nat
  path : List UInt16
  deriving DecidableEq

structure State where
  pc : MainPc
  entries : List Entry
  retlist : List Found
  error : Option OpenError
  workers : Nat → Worker
  buffers : Nat → Option Content
  /-- The next unused number. -/
  ids : Nat
  log : List (Ledger.Op Res)

inductive Ev where
  /-- The next step of the main thread; `ok` if the call that it makes succeeds, or the wait ends in time. -/
  | main (ok : Bool)
  | worker (k : Nat) (ev : WorkerEv)

namespace State

variable (s : State)

def init (entries : List Entry) : State := ⟨.loop none, entries, [], none, fun _ => .zero, fun _ => none, 0, []⟩

def goto (pc : MainPc) : State := { s with pc := pc }

def note (op : Ledger.Op Res) : State := { s with log := op :: s.log }

def setWorker (w : Nat) (worker : Worker) : State := { s with workers := Function.update s.workers w worker }

@[simp] theorem setWorker_self (w : Nat) (worker : Worker) : (s.setWorker w worker).workers w = worker := by
  simp only [setWorker, Function.update_self]

theorem setWorker_of_ne {w k : Nat} (h : k ≠ w) (worker : Worker) : (s.setWorker w worker).workers k = s.workers k := by
  simp only [setWorker, Function.update_of_ne h]

theorem setWorker_cases (w k : Nat) (worker : Worker) :
    (s.setWorker w worker).workers k = s.workers k ∨ k = w ∧ (s.setWorker w worker).workers k = worker := by
  by_cases h : k = w
  · subst h
    exact Or.inr ⟨rfl, s.setWorker_self k worker⟩
  · exact Or.inl (s.setWorker_of_ne h worker)

/-- `goto error`. -/
def fail (error : OpenError) (worker hFile fileName : Option Nat) : State :=
  { s with error := some error, pc := .exit worker hFile fileName }

/-- One step; the flag says if there is one. -/
def mainStep (fileTypeIndex : Nat) (ok : Bool) : State × Bool :=
  match s.pc with
  | .loop worker => match s.entries with
    | [] => (s.goto (.exit worker none none), true)
    | entry :: entries =>
      let s := { s with entries := entries }
      if entry.objectTypeIndex ≠ fileTypeIndex then (s, true)
      -- the process may have closed it in the meantime
      else if !ok then (s, true)
      else ({ (s.note (.acquire (.file s.ids))).goto (.alloc worker s.ids 8 512) with ids := s.ids + 1 }, true)
  | .alloc worker hFile attempts bufferSize =>
    if ok then
      ({ (s.note (.acquire (.name s.ids))).goto (.ensure worker ⟨hFile, s.ids, attempts, bufferSize⟩) with
          buffers := Function.update s.buffers s.ids none
          ids := s.ids + 1 }, true)
    else (s.fail .noMemory worker (some hFile) none, true)
  | .ensure (some w) q => (s.goto (.submit w q), true)
  | .ensure none q =>
    if ok then
      let s' := (s.note (.acquire (.worker s.ids))).note (.acquire (.thread s.ids))
      ({ (s'.setWorker s.ids { Worker.zero with thread := .waiting }).goto (.submit s.ids q) with ids := s.ids + 1 }, true)
    else ((s.note (.release (.name q.name))).fail .workerCreate none (some q.hFile) none, true)
  | .submit w q =>
    let worker := { s.workers w with hFile := q.hFile, fileName := q.name, bufferSize := q.bufferSize }
    (((s.note (.use (.worker w))).setWorker w worker).goto (.start w q), true)
  | .start w q =>
    (((s.note (.use (.worker w))).setWorker w { s.workers w with startEvent := true }).goto (.wait w q), true)
  | .wait w q =>
    if !ok then ((s.note (.use (.worker w))).goto (.kill w q), true)
    else if (s.workers w).doneEvent then
      (((s.note (.use (.worker w))).setWorker w { s.workers w with doneEvent := false }).goto (.reply w q), true)
    else (s, false)
  | .kill w q =>
    (((s.note (.use (.thread w))).setWorker w { s.workers w with terminated := ok }).goto (.join w q), true)
  | .join w q =>
    if ok ≠ decide ((s.workers w).thread = .exited) then (s, false)
    else if ok then
      let s' := (s.note (.release (.thread w))).note (.release (.file (s.workers w).hFile))
      (((s'.note (.release (.name (s.workers w).fileName))).note (.release (.worker w))).goto (.loop none), true)
    else
      -- only the handle of the thread is closed
      let s' := (s.note (.release (.thread w))).note (.abandon (.file q.hFile))
      (((s'.note (.abandon (.name q.name))).note (.abandon (.worker w))).goto (.loop none), true)
  | .reply w q =>
    let s := s.note (.use (.worker w))
    let status := (s.workers w).status
    if tooSmall status then
      let s := s.note (.release (.name q.name))
      if 1 < q.attempts then (s.goto (.alloc (some w) q.hFile (q.attempts - 1) (s.workers w).returnLength), true)
      else (s.fail (.ntStatus status) (some w) (some q.hFile) none, true)
    else if ntSuccess status then (s.goto (.append w q.hFile q.name), true)
    else ((s.note (.release (.name q.name))).fail (.ntStatus status) (some w) (some q.hFile) none, true)
  | .append w hFile fileName =>
    let s := s.note (.use (.name fileName))
    match s.buffers fileName with
    | none => (s.goto (.cleanup w hFile fileName), true)
    | some content =>
      if content.path = [] then (s.goto (.cleanup w hFile fileName), true)
      else if ok then
        let found : Found := ⟨hFile, content.source, content.path.takeWhile (· ≠ 0)⟩
        ({ s.goto (.cleanup w hFile fileName) with retlist := s.retlist ++ [found] }, true)
      else (s.fail .append (some w) (some hFile) (some fileName), true)
  | .cleanup w hFile fileName =>
    (((s.note (.release (.name fileName))).note (.release (.file hFile))).goto (.loop (some w)), true)
  | .exit none hFile fileName => (s.goto (.rest hFile fileName), true)
  | .exit (some w) hFile fileName =>
    (((s.note (.use (.worker w))).setWorker w { s.workers w with quit := true }).goto (.quit w hFile fileName), true)
  | .quit w hFile fileName =>
    (((s.note (.use (.worker w))).setWorker w { s.workers w with startEvent := true }).goto (.joinQuit w hFile fileName), true)
  | .joinQuit w hFile fileName =>
    if (s.workers w).thread = .exited then
      (((s.note (.release (.thread w))).note (.release (.worker w))).goto (.rest hFile fileName), true)
    else (s, false)
  | .rest hFile fileName =>
    let ops := (fileName.map fun n => .release (.name n)).toList ++ (hFile.map fun n => .release (.file n)).toList
    ({ s.goto .finished with log := ops ++ s.log }, true)
  | .finished => (s, false)

def workerStep (k : Nat) (ev : WorkerEv) : State × Bool :=
  match (s.workers k).act ev with
  | none => (s, false)
  | some w =>
    ({ s.setWorker k w with
        buffers := (s.workers k).writes s.buffers ev
        log := (s.workers k).uses k ev ++ s.log }, true)

def step (fileTypeIndex : Nat) : Ev → State × Bool
  | .main ok => s.mainStep fileTypeIndex ok
  | .worker k ev => s.workerStep k ev

/-- `NULL`, or the list. -/
def result : Option (List Found) := if s.error.isSome then none else some s.retlist

end State

def machine (fileTypeIndex : Nat) : Machine State Ev Bool := ⟨fun s e => s.step fileTypeIndex e⟩

end Psutil.OpenFiles
