import Psutil.Lib.Run
import Psutil.Proc.Process

/-!
# A program that uses `Process` objects and `process_iter`

The process table, the `Process` objects of the program, the module globals `_pmap` and `_pids_reused`, and
the `process_iter()` generators, which run up to their next `yield` at a time. Objects are shared: `_pmap`
and the private copies of the generators refer to them by their index in `procs`.

| here | there |
| --- | --- |
| `Sys.pmap`, `Sys.pidsReused` | `_pmap`, `_pids_reused` (`__init__.py:1784`) |
| `Gen` | a started generator: its local `pmap`, and what is left of `ls` |
| `Sys.iterStart` | `process_iter()` up to the `try` (`:1837-1848`) |
| `advance` | the loop up to the next `yield` (`:1850-1866`), `attrs` being `None` |
-/

namespace Psutil

open Lib

structure Gen where
  pmap : Dict Nat Nat
  todo : List (Nat × Option Nat)
  /-- It has neither run to its end nor been closed. -/
  unfinished : Bool
  /-- Ghost: the objects flagged as reused whose PID this generator took from `_pids_reused`. -/
  drains : List Nat
  /-- Ghost: the objects that generators started before this one had drained. -/
  stale : List Nat

structure Sys where
  world : World
  procs : List Process
  pmap : Dict Nat Nat
  pidsReused : List Nat
  gens : List Gen
  /-- Ghost: the objects drained so far. -/
  drained : List Nat

inductive SysEv where
  | world (ev : WorldEv)
  | new (pid : Nat)
  | isRunning (o : Nat)
  | act (o : Nat) (c : ActionCall)
  /-- The first `next()` of a `process_iter()` generator. -/
  | iterStart
  | iterNext (g : Nat)
  | iterClose (g : Nat)
  | cacheClear

inductive SysOut where
  | done
  | built (o : Nat)
  | raised (e : Exc)
  | running (b : Bool)
  /-- The outcome of an action, and what was done to the PID. -/
  | acted (result : Except Exc Unit) (action : Option Action)
  | yielded (o : Nat)
  | stop

/-- `pmap.pop(pid, None)` for every PID of a list. -/
def removeAll (pmap : Dict Nat Nat) (pids : List Nat) : Dict Nat Nat := pids.foldl Dict.erase pmap

/-- The state of a generator at a `yield` or, without one, at its end. -/
structure Advanced where
  yielded : Option Nat
  procs : List Process
  pmap : Dict Nat Nat
  todo : List (Nat × Option Nat)

/-- The loop of `process_iter` up to its next `yield`. -/
def advance (os : Os) (w : World) (procs : List Process) (pmap : Dict Nat Nat) :
    List (Nat × Option Nat) → Advanced
  | [] => ⟨none, procs, pmap, []⟩
  | (_, some o) :: ls => ⟨some o, procs, pmap, ls⟩
  | (pid, none) :: ls => match Process.new os w pid with
    | .ok p => ⟨some procs.length, procs ++ [p], pmap.set p.pid procs.length, ls⟩
    | .error _ => advance os w procs (pmap.erase pid) ls

namespace Sys

def init : Sys := ⟨.init, [], ∅, [], [], []⟩

/-- `_pids_reused.add(pid)`, if the reuse was detected just now. -/
def flagReused (s : Sys) (detected : Bool) (pid : Nat) : Sys :=
  if detected && pid ∉ s.pidsReused then { s with pidsReused := s.pidsReused ++ [pid] } else s

/-- The sorted list `ls`: the instances kept from the cache, and the new PIDs without one. -/
def toVisit (pmap : Dict Nat Nat) (newPids : List Nat) : List (Nat × Option Nat) :=
  (pmap.items.map (fun p : Nat × Nat => (p.1, some p.2)) ++ newPids.map fun pid => (pid, none)).insertionSort
    fun p q => p.1 ≤ q.1

/-- The object was flagged as reused and its PID is in `_pids_reused`. -/
def toDrain (s : Sys) (o : Nat) : Bool :=
  match s.procs[o]? with
  | some p => p.pidReused && p.pid ∈ s.pidsReused
  | none => false

/-- The generator after its first lines: new and gone PIDs are told apart from the cached ones before
`_pids_reused` is drained. -/
def startGen (s : Sys) : Gen :=
  let a := s.world.pids
  let newPids := a.filter (· ∉ s.pmap)
  let gonePids := s.pmap.keys.filter (· ∉ a)
  let pmap := removeAll (removeAll s.pmap gonePids) s.pidsReused
  ⟨pmap, toVisit pmap newPids, true, (List.range s.procs.length).filter s.toDrain, s.drained⟩

/-- Run an unfinished generator up to its next `yield`; at its end it replaces `_pmap` by its own map. -/
def resume (os : Os) (s : Sys) (g : Nat) (gen : Gen) : Sys × SysOut :=
  let r := advance os s.world s.procs gen.pmap gen.todo
  match r.yielded with
  | some o => ({ s with procs := r.procs, gens := s.gens.set g { gen with pmap := r.pmap, todo := r.todo } }, .yielded o)
  | none =>
    ({ s with procs := r.procs, pmap := r.pmap,
              gens := s.gens.set g { gen with pmap := r.pmap, todo := r.todo, unfinished := false } }, .stop)

def iterStart (os : Os) (s : Sys) : Sys × SysOut :=
  let gen := s.startGen
  { s with pidsReused := [], gens := s.gens ++ [gen], drained := s.drained ++ gen.drains }.resume os s.gens.length gen

def iterNext (os : Os) (s : Sys) (g : Nat) : Sys × SysOut :=
  match s.gens[g]? with
  | some gen => if gen.unfinished then s.resume os g gen else (s, .stop)
  | none => (s, .stop)

/-- `close()`: the `finally` clause. -/
def iterClose (s : Sys) (g : Nat) : Sys :=
  match s.gens[g]? with
  | some gen =>
    if gen.unfinished then { s with pmap := gen.pmap, gens := s.gens.set g { gen with unfinished := false } } else s
  | none => s

def isRunning (os : Os) (s : Sys) (o : Nat) : Sys × SysOut :=
  match s.procs[o]? with
  | none => (s, .done)
  | some p =>
    let r := p.isRunning os s.world
    ({ s with procs := s.procs.set o r.proc }.flagReused r.detected p.pid, .running r.result)

def act (os : Os) (s : Sys) (o : Nat) (c : ActionCall) : Sys × SysOut :=
  match s.procs[o]? with
  | none => (s, .done)
  | some p =>
    let r := p.act os s.world c
    ({ s with procs := s.procs.set o r.proc }.flagReused r.detected p.pid, .acted r.result r.acted)

end Sys

/-- One step of the program or of the operating system. -/
def sysMachine (os : Os) : Machine Sys SysEv SysOut where
  step s
    | .world ev => ({ s with world := s.world.step ev }, .done)
    | .new pid => match Process.new os s.world pid with
      | .ok p => ({ s with procs := s.procs ++ [p] }, .built s.procs.length)
      | .error e => (s, .raised e)
    | .isRunning o => s.isRunning os o
    | .act o c => s.act os o c
    | .iterStart => s.iterStart os
    | .iterNext g => s.iterNext os g
    | .iterClose g => (s.iterClose g, .done)
    | .cacheClear => ({ s with pmap := ∅ }, .done)

end Psutil
