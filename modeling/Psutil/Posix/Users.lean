import Mathlib.Algebra.Order.Field.Rat
import Psutil.Common.Str
import Psutil.Lib.Lock
import Psutil.Lib.Progress
import Psutil.Lib.Run
import Psutil.Lib.Versions

/-!
# `users()` and `boot_time()` from the login records

| here | there |
| --- | --- |
| `Utx.stepCall`, `hostname` | `psutil_users` (`arch/posix/users.c`), `psutil_boot_time` (`arch/sunos/sys.c`) |
| `suser` | `users` of `_pslinux.py`, `_psosx.py`, `_psbsd.py` and `_pssunos.py` |

A program has one cursor in the file of the records, and one record that `getutxent` overwrites. The lock is `utxent_lock` in a
free-threaded interpreter and the GIL otherwise. Other programs write the file at any time. Strings stay bytes, `single` rounds to a
`float`. `users_answer`: each slot is read once, and the answer is that of the records read.
-/

namespace Psutil

open Lib

inductive UtType where
  | userProcess | bootTime | other
  deriving DecidableEq

/-- A `struct utmpx`, with all its bytes. -/
structure Utmpx where
  bytes : Bytes
  type : UtType
  tvSec : Int
  pid : Int
  deriving DecidableEq

/-- The offsets of the strings in a `struct utmpx`, and `sizeof(ut->ut_host)`. -/
structure UtmpxAbi where
  user : Nat
  line : Nat
  host : Nat
  hostSize : Nat

/-- The string that begins at an offset. It can go on behind the array that it is in. -/
def cstrAt (bytes : Bytes) (offset : Nat) : Bytes := (bytes.drop offset).takeWhile (· ≠ 0)

def hostname (abi : UtmpxAbi) (ut : Utmpx) : Bytes :=
  let utHost := (ut.bytes.drop abi.host).take abi.hostSize
  let hostLen := strnlen utHost abi.hostSize
  if hostLen = 0 ∨ cstrAt ut.bytes abi.host = ascii ":0" ∨ cstrAt ut.bytes abi.host = ascii ":0.0" then ascii "localhost"
  else utHost.take hostLen

/-- A tuple of the C function. -/
structure UserRow where
  username : Bytes
  tty : Bytes
  hostname : Bytes
  tstamp : Int
  pid : Int
  deriving DecidableEq

structure Suser where
  name : Bytes
  terminal : Option Bytes
  host : Option Bytes
  started : Int
  pid : Int
  deriving DecidableEq

inductive UsersOs where
  | linux | osx | bsd | sunos

/-- `x or None`. -/
def bytesOrNone (x : Bytes) : Option Bytes := if x = [] then none else some x

def suser (os : UsersOs) (r : UserRow) : Option Suser :=
  match os with
  | .linux => some ⟨r.username, bytesOrNone r.tty, some r.hostname, r.tstamp, r.pid⟩
  -- `~` is a reboot or shutdown
  | .osx =>
    if r.tty = ascii "~" then none
    else if r.tstamp = 0 then none
    else some ⟨r.username, bytesOrNone r.tty, bytesOrNone r.hostname, r.tstamp, r.pid⟩
  | .bsd => if r.tty = ascii "~" then none else some ⟨r.username, bytesOrNone r.tty, some r.hostname, r.tstamp, r.pid⟩
  | .sunos => some ⟨r.username, some r.tty, some r.hostname, r.tstamp, r.pid⟩

inductive UtxFn where
  | users | bootTime
  deriving DecidableEq

inductive UtxAnswer where
  | users (l : List Suser)
  | bootTime (t : ℚ)
  deriving DecidableEq

def bootAnswer (bootTime : ℚ) : Except CErr UtxAnswer :=
  if |bootTime| < 1 / 1000000 then .error (.exc (.runtimeError "can't determine boot time")) else .ok (.bootTime bootTime)

/-- `since` and `seen` are ghosts: the number of the file's version when `setutxent` ran, and the records read. -/
structure Reading where
  since : Nat
  seen : List Utmpx
  rows : List UserRow

/-- The next thing a thread does in one of the two functions. -/
inductive UtxCall where
  /-- `UTXENT_MUTEX_LOCK` -/
  | lock (fn : UtxFn)
  | setutxent (fn : UtxFn)
  | getutxent (fn : UtxFn) (r : Reading)
  /-- the comparison of `ut->ut_type` -/
  | type (fn : UtxFn) (r : Reading)
  | username (r : Reading)
  | tty (r : Reading) (username : Bytes)
  | hostname (r : Reading) (username tty : Bytes)
  | append (r : Reading) (username tty hostname : Bytes)
  /-- `boot_time = (float)ut->ut_tv.tv_sec` -/
  | tvSec (r : Reading)
  | endutxent (fn : UtxFn) (r : Reading) (ans : Except CErr UtxAnswer)
  /-- `UTXENT_MUTEX_UNLOCK`, and the return -/
  | unlock (fn : UtxFn) (r : Reading) (ans : Except CErr UtxAnswer)

/-- `versions` is a ghost: what the file has been, with what it is at the end. -/
structure Utx where
  file : List Utmpx
  versions : List (List Utmpx)
  cursor : Nat
  buffer : Utmpx
  lock : Option Nat
  calls : Nat → Option UtxCall

def Utx.start (file : List Utmpx) (buffer : Utmpx) : Utx := ⟨file, [file], 0, buffer, none, fun _ => none⟩

inductive UtxEv where
  | call (t : Nat) (fn : UtxFn)
  /-- The next step of thread `t`, with or without memory for a new object. -/
  | step (t : Nat) (memory : Bool)
  /-- A program writes the file. -/
  | write (file : List Utmpx)

def Utx.at (s : Utx) (t : Nat) (c : Option UtxCall) : Utx := { s with calls := Function.update s.calls t c }

section

variable (abi : UtmpxAbi) (os : UsersOs) (single : Int → ℚ)

def Utx.stepCall (s : Utx) (t : Nat) (memory : Bool) : UtxCall → Utx × Option (Nat × Except CErr UtxAnswer)
  | .lock fn => match s.lock with
    | none => ({ s.at t (some (.setutxent fn)) with lock := some t }, none)
    | some _ => (s, none)
  | .setutxent fn => ({ s.at t (some (.getutxent fn ⟨s.versions.length - 1, [], []⟩)) with cursor := 0 }, none)
  | .getutxent fn r => match s.file[s.cursor]? with
    | some ut => ({ s.at t (some (.type fn { r with seen := r.seen ++ [ut] })) with cursor := s.cursor + 1, buffer := ut }, none)
    | none => match fn with
      | .users => (s.at t (some (.endutxent fn r (.ok (.users (r.rows.filterMap (suser os)))))), none)
      | .bootTime => (s.at t (some (.endutxent fn r (bootAnswer 0))), none)
  | .type .users r => (s.at t (some (if s.buffer.type = .userProcess then .username r else .getutxent .users r)), none)
  | .type .bootTime r => (s.at t (some (if s.buffer.type = .bootTime then .tvSec r else .getutxent .bootTime r)), none)
  | .username r =>
    (s.at t (some (if memory then .tty r (cstrAt s.buffer.bytes abi.user) else .endutxent .users r (.error .noMemory))), none)
  | .tty r username =>
    (s.at t (some (if memory then .hostname r username (cstrAt s.buffer.bytes abi.line) else .endutxent .users r (.error .noMemory))), none)
  | .hostname r username tty =>
    (s.at t (some (if memory then .append r username tty (hostname abi s.buffer) else .endutxent .users r (.error .noMemory))), none)
  | .append r username tty host =>
    (s.at t (some (if memory then .getutxent .users { r with rows := r.rows ++ [⟨username, tty, host, s.buffer.tvSec, s.buffer.pid⟩] }
      else .endutxent .users r (.error .noMemory))), none)
  | .tvSec r => (s.at t (some (.endutxent .bootTime r (bootAnswer (single s.buffer.tvSec)))), none)
  | .endutxent fn r ans => ({ s.at t (some (.unlock fn r ans)) with cursor := 0 }, none)
  | .unlock _ _ ans => ({ s.at t none with lock := none }, some (t, ans))

def utxMachine : Machine Utx UtxEv (Option (Nat × Except CErr UtxAnswer)) where
  step s
    | .call t fn => (if (s.calls t).isSome then s else s.at t (some (.lock fn)), none)
    | .step t memory => match s.calls t with
      | none => (s, none)
      | some c => s.stepCall abi os single t memory c
    | .write file => ({ s with file := file, versions := s.versions ++ [file] }, none)

/-! ## What is read -/

/-- The tuple of a record. -/
def userRow (ut : Utmpx) : UserRow := ⟨cstrAt ut.bytes abi.user, cstrAt ut.bytes abi.line, hostname abi ut, ut.tvSec, ut.pid⟩

def userRows (seen : List Utmpx) : List UserRow := (seen.filter (·.type = .userProcess)).map (userRow abi)

/-- The records are those of the slots, in their order, each as it was at some moment since `setutxent`. -/
def Reading.Observed (r : Reading) (versions : List (List Utmpx)) : Prop :=
  ∀ (i : Nat) (ut : Utmpx), r.seen[i]? = some ut → ∃ file ∈ versions.drop r.since, file[i]? = some ut

/-- At some moment since then the file had no more of them. -/
def Reading.Whole (r : Reading) (versions : List (List Utmpx)) : Prop :=
  ∃ file ∈ versions.drop r.since, file.length ≤ r.seen.length

/-- The answer of a function that has read `r`. -/
def UtxFn.Answers (versions : List (List Utmpx)) (r : Reading) (ans : Except CErr UtxAnswer) : UtxFn → Prop
  | .users => ans = .error .noMemory ∨ ans = .ok (.users ((userRows abi r.seen).filterMap (suser os))) ∧ r.Whole versions
  | .bootTime =>
    (∃ before ut, r.seen = before ++ [ut] ∧ ut.type = .bootTime ∧ (∀ ut ∈ before, ut.type ≠ .bootTime) ∧ ans = bootAnswer (single ut.tvSec)) ∨
      (∀ ut ∈ r.seen, ut.type ≠ .bootTime) ∧ ans = bootAnswer 0 ∧ r.Whole versions

end

/-! ## The invariant -/

/-- The steps between the lock and its release. -/
def UtxCall.inside : UtxCall → Bool
  | .lock _ => false
  | _ => true

/-- The cursor is behind what the thread has read, and that is what it should be. -/
structure Utx.Reads (s : Utx) (r : Reading) : Prop where
  cursor : s.cursor = r.seen.length
  since : r.since < s.versions.length
  observed : r.Observed s.versions

section

variable (abi : UtmpxAbi) (os : UsersOs) (single : Int → ℚ)

/-- What is known of the records before the loop's next round. -/
def UtxFn.Before (r : Reading) (before : List Utmpx) : UtxFn → Prop
  | .users => r.rows = userRows abi before
  | .bootTime => ∀ ut ∈ before, ut.type ≠ .bootTime

/-- Inside a round: the last record is in the buffer. -/
def UtxFn.Round (fn : UtxFn) (s : Utx) (r : Reading) : Prop :=
  s.Reads r ∧ ∃ before, r.seen = before ++ [s.buffer] ∧ fn.Before abi r before

def UtxCall.Good (s : Utx) : UtxCall → Prop
  | .lock _ | .setutxent _ => True
  | .getutxent fn r => s.Reads r ∧ fn.Before abi r r.seen
  | .type fn r => fn.Round abi s r
  | .username r => UtxFn.users.Round abi s r ∧ s.buffer.type = .userProcess
  | .tty r user => (UtxFn.users.Round abi s r ∧ s.buffer.type = .userProcess) ∧ user = cstrAt s.buffer.bytes abi.user
  | .hostname r user line => (UtxFn.users.Round abi s r ∧ s.buffer.type = .userProcess) ∧ user = cstrAt s.buffer.bytes abi.user ∧
      line = cstrAt s.buffer.bytes abi.line
  | .append r user line host => (UtxFn.users.Round abi s r ∧ s.buffer.type = .userProcess) ∧ user = cstrAt s.buffer.bytes abi.user ∧
      line = cstrAt s.buffer.bytes abi.line ∧ host = Psutil.hostname abi s.buffer
  | .tvSec r => UtxFn.bootTime.Round abi s r ∧ s.buffer.type = .bootTime
  | .endutxent fn r ans | .unlock fn r ans => r.Observed s.versions ∧ fn.Answers abi os single s.versions r ans

structure UtxInv (s : Utx) : Prop where
  guards : Guards UtxCall.inside s.lock s.calls
  current : s.versions.getLast? = some s.file
  good : ∀ t c, s.calls t = some c → c.Good abi os single s

end

section

variable {abi : UtmpxAbi} {os : UsersOs} {single : Int → ℚ} {s s' : Utx} {t : Nat} {c : UtxCall} {r : Reading}

@[simp] theorem Utx.at_calls (c : Option UtxCall) : (s.at t c).calls = Function.update s.calls t c := rfl
@[simp] theorem Utx.at_lock (c : Option UtxCall) : (s.at t c).lock = s.lock := rfl
@[simp] theorem Utx.at_file (c : Option UtxCall) : (s.at t c).file = s.file := rfl
@[simp] theorem Utx.at_versions (c : Option UtxCall) : (s.at t c).versions = s.versions := rfl
@[simp] theorem Utx.at_cursor (c : Option UtxCall) : (s.at t c).cursor = s.cursor := rfl
@[simp] theorem Utx.at_buffer (c : Option UtxCall) : (s.at t c).buffer = s.buffer := rfl

theorem Reading.Observed.append {versions : List (List Utmpx)} (h : r.Observed versions) (later : List (List Utmpx)) :
    r.Observed (versions ++ later) := fun i ut hut => by
  obtain ⟨file, hfile, hslot⟩ := h i ut hut
  exact ⟨file, Versions.mem_drop_append hfile later, hslot⟩

theorem Reading.Whole.append {versions : List (List Utmpx)} (h : r.Whole versions) (later : List (List Utmpx)) :
    r.Whole (versions ++ later) := by
  obtain ⟨file, hfile, hle⟩ := h
  exact ⟨file, Versions.mem_drop_append hfile later, hle⟩

/-- A write changes nothing of what has been read. -/
theorem UtxCall.Good.write (h : c.Good abi os single s) (file : List Utmpx) :
    c.Good abi os single { s with file := file, versions := s.versions ++ [file] } := by
  have hreads : ∀ {r : Reading}, s.Reads r → Utx.Reads { s with file := file, versions := s.versions ++ [file] } r := fun hr =>
    ⟨hr.cursor, hr.since.trans_le (by simp), hr.observed.append _⟩
  have hround : ∀ {fn : UtxFn} {r}, fn.Round abi s r → fn.Round abi { s with file := file, versions := s.versions ++ [file] } r :=
    fun hr => ⟨hreads hr.1, hr.2⟩
  have hanswers : ∀ {fn : UtxFn} {r ans}, fn.Answers abi os single s.versions r ans → fn.Answers abi os single (s.versions ++ [file]) r ans := by
    intro fn r ans hans
    cases fn with
    | users => exact hans.imp_right fun ⟨hans, hwhole⟩ => ⟨hans, hwhole.append _⟩
    | bootTime => exact hans.imp_right fun ⟨hnone, hans, hwhole⟩ => ⟨hnone, hans, hwhole.append _⟩
  cases c with
  | lock fn => trivial
  | setutxent fn => trivial
  | getutxent fn r => exact ⟨hreads h.1, h.2⟩
  | type fn r => exact hround h
  | username r => exact ⟨hround h.1, h.2⟩
  | tty r username => exact ⟨⟨hround h.1.1, h.1.2⟩, h.2⟩
  | hostname r username tty => exact ⟨⟨hround h.1.1, h.1.2⟩, h.2⟩
  | append r username tty host => exact ⟨⟨hround h.1.1, h.1.2⟩, h.2⟩
  | tvSec r => exact ⟨hround h.1, h.2⟩
  | endutxent fn r ans => exact ⟨h.1.append _, hanswers h.2⟩
  | unlock fn r ans => exact ⟨h.1.append _, hanswers h.2⟩

/-- What the thread inside does: only its own place has to be looked at afterwards. -/
theorem UtxInv.inside (h : UtxInv abi os single s) (hc : s.calls t = some c) (hin : c.inside) {c' : UtxCall} (hin' : c'.inside)
    (hcalls : s'.calls = Function.update s.calls t (some c')) (hlock : s'.lock = s.lock) (hfile : s'.file = s.file)
    (hversions : s'.versions = s.versions) (hgood : c'.Good abi os single s') : UtxInv abi os single s' where
  guards := by
    rw [hlock, hcalls]
    exact h.guards.stay hc hin hin'
  current := by
    rw [hversions, hfile]
    exact h.current
  good u d hd := by
    rw [hcalls] at hd
    cases d with
    | lock fn => trivial
    | _ =>
      obtain ⟨-, heq⟩ := h.guards.mover hc hin hd rfl
      cases heq
      exact hgood

/-- What a thread stores when it has no memory. -/
theorem UtxInv.noMemory (h : UtxInv abi os single s) (hc : s.calls t = some c) (hin : c.inside) (hreads : s.Reads r) :
    UtxInv abi os single (s.at t (some (.endutxent .users r (.error .noMemory)))) :=
  h.inside hc hin rfl rfl rfl rfl rfl ⟨hreads.observed, Or.inl rfl⟩

theorem userRows_append (before : List Utmpx) (ut : Utmpx) :
    userRows abi (before ++ [ut]) = userRows abi before ++ if ut.type = .userProcess then [userRow abi ut] else [] := by
  rw [userRows, userRows, List.filter_append, List.map_append]
  by_cases ht : ut.type = .userProcess <;> simp [ht]

/-- `setutxent`: nothing is read yet. -/
theorem reads_nil (hcurrent : s.versions.getLast? = some s.file) (fn : UtxFn) :
    (UtxCall.getutxent fn ⟨s.versions.length - 1, [], []⟩).Good abi os single
      { s.at t (some (.getutxent fn ⟨s.versions.length - 1, [], []⟩)) with cursor := 0 } := by
  refine ⟨⟨rfl, Nat.sub_lt (Versions.length_pos hcurrent) Nat.one_pos, fun i ut hut => by cases hut⟩, ?_⟩
  cases fn with
  | users => rfl
  | bootTime => exact fun ut hut => by cases hut

/-- The file as it is now is one of the versions since `setutxent`. -/
theorem Utx.Reads.file_mem (h : s.Reads r) (hcurrent : s.versions.getLast? = some s.file) : s.file ∈ s.versions.drop r.since :=
  Versions.current_mem_drop hcurrent h.since

/-- `getutxent` reads the next slot. -/
theorem Utx.Reads.next (h : s.Reads r) (hcurrent : s.versions.getLast? = some s.file) {ut : Utmpx} (hut : s.file[s.cursor]? = some ut)
    (c' : Option UtxCall) :
    Utx.Reads { s.at t c' with cursor := s.cursor + 1, buffer := ut } { r with seen := r.seen ++ [ut] } where
  cursor := by simp [h.cursor]
  since := h.since
  observed i ut' hut' := by
    change (r.seen ++ [ut])[i]? = some ut' at hut'
    have hle : i < (r.seen ++ [ut]).length := (List.getElem?_eq_some_iff.1 hut').1
    rw [List.length_append, List.length_singleton] at hle
    rcases Nat.lt_or_eq_of_le (Nat.le_of_lt_succ hle) with hi | rfl
    · rw [List.getElem?_append_left hi] at hut'
      exact h.observed i ut' hut'
    · rw [List.getElem?_concat_length] at hut'
      cases hut'
      exact ⟨s.file, h.file_mem hcurrent, h.cursor ▸ hut⟩

/-- `getutxent` finds no more slots. -/
theorem Utx.Reads.whole (h : s.Reads r) (hcurrent : s.versions.getLast? = some s.file) (hend : s.file[s.cursor]? = none) :
    r.Whole s.versions :=
  ⟨s.file, h.file_mem hcurrent, by rwa [List.getElem?_eq_none_iff, h.cursor] at hend⟩

theorem Utx.Reads.at (h : s.Reads r) (t : Nat) (c : Option UtxCall) : (s.at t c).Reads r := ⟨h.cursor, h.since, h.observed⟩

theorem UtxFn.Round.at {fn : UtxFn} (h : fn.Round abi s r) (t : Nat) (c : Option UtxCall) : fn.Round abi (s.at t c) r :=
  ⟨h.1.at t c, h.2⟩

theorem UtxInv.stepCall (h : UtxInv abi os single s) (hc : s.calls t = some c) (memory : Bool) :
    UtxInv abi os single (s.stepCall abi os single t memory c).1 := by
  have hgood := h.good t c hc
  cases c with
  | lock fn =>
    rw [Utx.stepCall]
    split
    · rename_i hfree
      have hguards := h.guards
      rw [hfree] at hguards
      refine ⟨hguards.take (c := .setutxent fn) rfl, h.current, fun u d hd => ?_⟩
      change Function.update s.calls t (some (.setutxent fn)) u = some d at hd
      rw [Function.update_apply] at hd
      split at hd
      · cases hd
        trivial
      · cases d with
        | lock fn => trivial
        | _ => exact absurd ((hguards u).2 ⟨_, hd, rfl⟩) (by simp)
    · exact h
  | setutxent fn => exact h.inside hc rfl rfl rfl rfl rfl rfl (reads_nil h.current fn)
  | getutxent fn r =>
    obtain ⟨hreads, hbefore⟩ := hgood
    simp only [Utx.stepCall]
    split
    · rename_i ut hut
      exact h.inside hc rfl rfl rfl rfl rfl rfl ⟨hreads.next h.current hut _, r.seen, rfl, by cases fn <;> exact hbefore⟩
    · rename_i hend
      have hwhole := hreads.whole h.current hend
      cases fn with
      | users => exact h.inside hc rfl rfl rfl rfl rfl rfl ⟨hreads.observed, Or.inr ⟨by rw [hbefore], hwhole⟩⟩
      | bootTime => exact h.inside hc rfl rfl rfl rfl rfl rfl ⟨hreads.observed, Or.inr ⟨hbefore, rfl, hwhole⟩⟩
  | type fn r =>
    obtain ⟨hreads, before, hseen, hbefore⟩ := hgood
    cases fn with
    | users =>
      rw [Utx.stepCall]
      split_ifs with htype
      · exact h.inside hc rfl rfl rfl rfl rfl rfl ⟨⟨hreads.at _ _, before, hseen, hbefore⟩, htype⟩
      · refine h.inside hc rfl rfl rfl rfl rfl rfl ⟨hreads.at _ _, ?_⟩
        change r.rows = userRows abi r.seen
        rw [hseen, userRows_append, if_neg htype, List.append_nil]
        exact hbefore
    | bootTime =>
      rw [Utx.stepCall]
      split_ifs with htype
      · exact h.inside hc rfl rfl rfl rfl rfl rfl ⟨⟨hreads.at _ _, before, hseen, hbefore⟩, htype⟩
      · refine h.inside hc rfl rfl rfl rfl rfl rfl ⟨hreads.at _ _, fun ut hut => ?_⟩
        rw [hseen, List.mem_append, List.mem_singleton] at hut
        rcases hut with hut | rfl
        · exact hbefore ut hut
        · exact htype
  | username r =>
    rw [Utx.stepCall]
    split_ifs
    · exact h.inside hc rfl rfl rfl rfl rfl rfl ⟨⟨hgood.1.at _ _, hgood.2⟩, rfl⟩
    · exact h.noMemory hc rfl hgood.1.1
  | tty r user =>
    rw [Utx.stepCall]
    split_ifs
    · exact h.inside hc rfl rfl rfl rfl rfl rfl ⟨⟨hgood.1.1.at _ _, hgood.1.2⟩, hgood.2, rfl⟩
    · exact h.noMemory hc rfl hgood.1.1.1
  | hostname r user line =>
    rw [Utx.stepCall]
    split_ifs
    · exact h.inside hc rfl rfl rfl rfl rfl rfl ⟨⟨hgood.1.1.at _ _, hgood.1.2⟩, hgood.2.1, hgood.2.2, rfl⟩
    · exact h.noMemory hc rfl hgood.1.1.1
  | append r user line host =>
    obtain ⟨⟨⟨hreads, before, hseen, hbefore⟩, htype⟩, rfl, rfl, rfl⟩ := hgood
    rw [Utx.stepCall]
    split_ifs
    · refine h.inside hc rfl rfl rfl rfl rfl rfl ⟨⟨hreads.cursor, hreads.since, hreads.observed⟩, ?_⟩
      change r.rows ++ [userRow abi s.buffer] = userRows abi r.seen
      rw [hseen, userRows_append, if_pos htype, ← hbefore]
    · exact h.noMemory hc rfl hreads
  | tvSec r =>
    obtain ⟨⟨hreads, before, hseen, hbefore⟩, htype⟩ := hgood
    exact h.inside hc rfl rfl rfl rfl rfl rfl ⟨hreads.observed, Or.inl ⟨before, s.buffer, hseen, htype, hbefore, rfl⟩⟩
  | endutxent fn r ans => exact h.inside hc rfl rfl rfl rfl rfl rfl hgood
  | unlock fn r ans =>
    refine ⟨h.guards.release hc rfl, h.current, fun u d hd => ?_⟩
    cases d with
    | lock fn => trivial
    | _ =>
      obtain ⟨-, heq⟩ := h.guards.mover hc rfl hd rfl
      cases heq

theorem UtxInv.step (h : UtxInv abi os single s) (e : UtxEv) : UtxInv abi os single ((utxMachine abi os single).step s e).1 := by
  cases e with
  | call t fn =>
    by_cases hc : (s.calls t).isSome
    · simpa only [utxMachine, hc, if_true] using h
    · simp only [utxMachine, hc, Bool.false_eq_true, if_false]
      rw [Option.not_isSome_iff_eq_none] at hc
      refine ⟨h.guards.keep (some (.lock fn)) ?_, h.current, fun u d hd => ?_⟩
      · simp [hc, UtxCall.inside]
      · rw [Utx.at_calls, Function.update_apply] at hd
        split at hd
        · cases hd
          trivial
        · have hgood := h.good u d hd
          cases d with
          | type fn r => exact hgood.at _ _
          | getutxent fn r => exact ⟨hgood.1.at _ _, hgood.2⟩
          | username r => exact ⟨hgood.1.at _ _, hgood.2⟩
          | tvSec r => exact ⟨hgood.1.at _ _, hgood.2⟩
          | tty r user => exact ⟨⟨hgood.1.1.at _ _, hgood.1.2⟩, hgood.2⟩
          | hostname r user line => exact ⟨⟨hgood.1.1.at _ _, hgood.1.2⟩, hgood.2⟩
          | append r user line host => exact ⟨⟨hgood.1.1.at _ _, hgood.1.2⟩, hgood.2⟩
          | _ => exact hgood
  | step t memory =>
    rw [utxMachine]
    dsimp only
    split
    · exact h
    · rename_i hc
      exact h.stepCall hc memory
  | write file =>
    refine ⟨h.guards, ?_, fun t c hc => (h.good t c hc).write file⟩
    simp [utxMachine]

theorem utxInv_start (abi : UtmpxAbi) (os : UsersOs) (single : Int → ℚ) (file : List Utmpx) (buffer : Utmpx) :
    UtxInv abi os single (.start file buffer) where
  guards t := by simp [Utx.start]
  current := rfl
  good t c hc := by cases hc

/-- Only the last step of a call gives an answer. -/
theorem Utx.answer {e : UtxEv} {ans : Except CErr UtxAnswer} (h : ((utxMachine abi os single).step s e).2 = some (t, ans)) :
    ∃ fn r memory, e = .step t memory ∧ s.calls t = some (.unlock fn r ans) := by
  cases e with
  | call u fn => cases h
  | write file => cases h
  | step u memory =>
    simp only [utxMachine] at h
    split at h
    · cases h
    · rename_i c hc
      cases c with
      | unlock fn r ans' =>
        cases h
        exact ⟨fn, r, memory, rfl, hc⟩
      | lock fn =>
        rw [Utx.stepCall] at h
        split at h <;> cases h
      | getutxent fn r =>
        simp only [Utx.stepCall] at h
        split at h
        · cases h
        · cases fn <;> cases h
      | type fn r => cases fn <;> cases h
      | _ => cases h

end

/-! ## The answers -/

section

variable (abi : UtmpxAbi) (os : UsersOs) (single : Int → ℚ)

/-- The answer of a function that has the whole file at once. -/
def UtxFn.AnswersFile (file : List Utmpx) (ans : Except CErr UtxAnswer) : UtxFn → Prop
  | .users => ans = .error .noMemory ∨ ans = .ok (.users ((userRows abi file).filterMap (suser os)))
  | .bootTime => ans = bootAnswer (((file.find? (·.type = .bootTime)).map fun ut => single ut.tvSec).getD 0)

variable {abi os single}

/-- Nobody has written the file since `setutxent`. -/
theorem UtxFn.Answers.unchanged {fn : UtxFn} {versions : List (List Utmpx)} {r : Reading} {ans : Except CErr UtxAnswer} {file : List Utmpx}
    (h : fn.Answers abi os single versions r ans) (hobserved : r.Observed versions) (hsame : ∀ v ∈ versions.drop r.since, v = file) :
    fn.AnswersFile abi os single file ans := by
  have hprefix : r.seen <+: file := List.prefix_iff_getElem?.2 fun i hi => by
    obtain ⟨v, hv, hslot⟩ := hobserved i _ (List.getElem?_eq_getElem hi)
    rwa [hsame v hv] at hslot
  have hwhole : r.Whole versions → r.seen = file := fun ⟨v, hv, hle⟩ => hprefix.eq_of_length_le (hsame v hv ▸ hle)
  cases fn with
  | users => exact h.imp_right fun ⟨hans, hw⟩ => by rw [hans, hwhole hw]
  | bootTime =>
    rcases h with ⟨before, ut, hseen, htype, hbefore, rfl⟩ | ⟨hnone, rfl, hw⟩
    · obtain ⟨rest, rfl⟩ := hprefix
      have hfind : before.find? (fun ut => decide (ut.type = .bootTime)) = none :=
        List.find?_eq_none.2 fun ut hut => by simpa using hbefore ut hut
      rw [UtxFn.AnswersFile, hseen, List.append_assoc, List.find?_append, hfind, List.singleton_append,
        List.find?_cons_of_pos (by simpa using htype)]
      rfl
    · rw [hwhole hw] at hnone
      have hfind : file.find? (fun ut => decide (ut.type = .bootTime)) = none :=
        List.find?_eq_none.2 fun ut hut => by simpa using hnone ut hut
      rw [UtxFn.AnswersFile, hfind]
      rfl

end

/-- **Each slot once, under one lock.** In every order of steps of the threads and of writes to the file, only the thread that holds the
lock is inside. The records that a call answers from are those of the slots, in order, each as it was at some moment since the call's
`setutxent`; the lock is free after the answer, also after an error. If nobody has written the file meanwhile, the answer is that of
the file. -/
theorem users_answer (abi : UtmpxAbi) (os : UsersOs) (single : Int → ℚ) (file : List Utmpx) (buffer : Utmpx) (es : List UtxEv) :
    Guards UtxCall.inside ((utxMachine abi os single).run (.start file buffer) es).lock
        ((utxMachine abi os single).run (.start file buffer) es).calls ∧
      ∀ l ∈ (utxMachine abi os single).trace (.start file buffer) es, ∀ t ans, l.out = some (t, ans) →
        ∃ fn r, l.pre.calls t = some (.unlock fn r ans) ∧ r.Observed l.pre.versions ∧ fn.Answers abi os single l.pre.versions r ans ∧
          ((utxMachine abi os single).step l.pre l.ev).1.lock = none ∧
          ∀ f, (∀ v ∈ l.pre.versions.drop r.since, v = f) → fn.AnswersFile abi os single f ans := by
  have hstep : ∀ s e, UtxInv abi os single s → UtxInv abi os single ((utxMachine abi os single).step s e).1 := fun _ e h => h.step e
  have hstart := utxInv_start abi os single file buffer
  refine ⟨((utxMachine abi os single).run_inv hstep hstart es).guards, fun l hl t ans hout => ?_⟩
  obtain ⟨hinv, hanswer⟩ := (utxMachine abi os single).lines_of_inv hstep hstart hl
  rw [hout] at hanswer
  obtain ⟨fn, r, memory, hev, hc⟩ := Utx.answer hanswer.symm
  obtain ⟨hobserved, hans⟩ : r.Observed l.pre.versions ∧ fn.Answers abi os single l.pre.versions r ans := hinv.good t _ hc
  refine ⟨fn, r, hc, hobserved, hans, ?_, fun f hsame => hans.unchanged hobserved hsame⟩
  rw [hev]
  simp only [utxMachine, hc]
  rfl

/-- The boot, and a user on `tty1`. -/
def bootAndBob : List Utmpx :=
  [⟨ascii "reboot\x00~\x00\x00\x00\x00", .bootTime, 1000, 0⟩, ⟨ascii "bob\x00tty1\x00h\x00\x00", .userProcess, 1500, 7⟩]

/-- Thread 1 wants the boot time while thread 0 reads the users. -/
def twoReaders : List UtxEv :=
  [.call 0 .users, .call 1 .bootTime, .step 0 true, .step 0 true, .step 0 true, .step 1 true] ++ List.replicate 9 (.step 0 true)

theorem users_answer_two : ∃ r : Reading, r.Observed [bootAndBob] ∧ r.Whole [bootAndBob] ∧
    ((utxMachine ⟨0, 4, 9, 3⟩ .linux (·)).step ((utxMachine ⟨0, 4, 9, 3⟩ .linux (·)).run (.start bootAndBob ⟨[], .other, 0, 0⟩) twoReaders)
      (.step 0 true)).2 = some (0, .ok (.users ((userRows ⟨0, 4, 9, 3⟩ r.seen).filterMap (suser .linux)))) := by
  obtain ⟨fn, r, hc, hobserved, hans, -⟩ := (users_answer ⟨0, 4, 9, 3⟩ .linux (·) bootAndBob ⟨[], .other, 0, 0⟩ (twoReaders ++ [.step 0 true])).2
    ⟨(utxMachine ⟨0, 4, 9, 3⟩ .linux (·)).run (.start bootAndBob ⟨[], .other, 0, 0⟩) twoReaders, .step 0 true, _⟩
    ((utxMachine ⟨0, 4, 9, 3⟩ .linux (·)).mem_trace.2 ⟨twoReaders, [], rfl, rfl, rfl⟩) 0 _ rfl
  cases hc
  rcases hans with hans | ⟨hans, hwhole⟩
  · cases hans
  · exact ⟨_, hobserved, hwhole, congrArg (fun ans => some (0, ans)) hans⟩

/-! ## The end of a call -/

/-- How many steps a call has left, if nobody writes the file. -/
def UtxCall.left (s : Utx) : UtxCall → Nat
  | .lock _ => 0
  | .setutxent _ => 6 * s.file.length + 4
  | .getutxent .. => 6 * (s.file.length - s.cursor) + 3
  | .type .. => 6 * (s.file.length - s.cursor) + 8
  | .username _ => 6 * (s.file.length - s.cursor) + 7
  | .tty .. => 6 * (s.file.length - s.cursor) + 6
  | .hostname .. => 6 * (s.file.length - s.cursor) + 5
  | .append .. => 6 * (s.file.length - s.cursor) + 4
  | .tvSec _ => 3
  | .endutxent .. => 2
  | .unlock .. => 1

section

variable {abi : UtmpxAbi} {os : UsersOs} {single : Int → ℚ} {s : Utx} {t : Nat} {c : UtxCall}

theorem UtxCall.left_le (s : Utx) (c : UtxCall) : c.left s ≤ 6 * s.file.length + 8 := by
  cases c <;> simp only [UtxCall.left] <;> omega

theorem UtxCall.left_pos (s : Utx) (hin : c.inside) : 0 < c.left s := by
  cases c with
  | lock fn => cases hin
  | _ => simp [UtxCall.left]

theorem Utx.left_stepCall (hin : c.inside) (memory : Bool) :
    (∃ ans, (s.stepCall abi os single t memory c).2 = some (t, ans)) ∨
      ∃ c', (s.stepCall abi os single t memory c).1.calls t = some c' ∧ c'.inside ∧
        c'.left (s.stepCall abi os single t memory c).1 < c.left s := by
  cases c with
  | lock fn => cases hin
  | unlock fn r ans => exact Or.inl ⟨ans, rfl⟩
  | getutxent fn r =>
    right
    simp only [Utx.stepCall]
    split
    · rename_i ut hut
      have hlt := (List.getElem?_eq_some_iff.1 hut).1
      refine ⟨_, Function.update_self .., rfl, ?_⟩
      simp only [UtxCall.left, Utx.at_file]
      omega
    · cases fn <;> exact ⟨_, Function.update_self .., rfl, Nat.lt_of_lt_of_le (by decide : 2 < 3) (Nat.le_add_left ..)⟩
  | type fn r =>
    right
    cases fn <;> rw [Utx.stepCall] <;> refine ⟨_, Function.update_self .., ?_, ?_⟩ <;> split_ifs <;>
      first | rfl | (simp only [UtxCall.left, Utx.at_file, Utx.at_cursor]; omega)
  | setutxent fn =>
    refine Or.inr ⟨_, Function.update_self .., rfl, ?_⟩
    simp only [Utx.stepCall, UtxCall.left, Utx.at_file]
    omega
  | tvSec r => exact Or.inr ⟨_, Function.update_self .., rfl, Nat.lt_succ_self 2⟩
  | endutxent fn r ans => exact Or.inr ⟨_, Function.update_self .., rfl, Nat.lt_succ_self 1⟩
  | _ =>
    right
    rw [Utx.stepCall]
    refine ⟨_, Function.update_self .., ?_, ?_⟩ <;> split_ifs <;>
      first | rfl | (simp only [UtxCall.left, Utx.at_file, Utx.at_cursor]; omega)

/-- The step of a thread. -/
def UtxEv.of (t : Nat) : UtxEv → Bool
  | .step u _ => u == t
  | _ => false

/-- What the others do while a thread is inside. -/
theorem UtxInv.other (h : UtxInv abi os single s) (hc : s.calls t = some c) (hin : c.inside) {e : UtxEv} (he : e.of t = false)
    (hquiet : ∀ file, e ≠ .write file) :
    ((utxMachine abi os single).step s e).1.calls t = some c ∧ c.left ((utxMachine abi os single).step s e).1 = c.left s := by
  cases e with
  | write file => exact absurd rfl (hquiet file)
  | call u fn =>
    by_cases hu : (s.calls u).isSome
    · simp only [utxMachine, hu, if_true]
      exact ⟨hc, trivial⟩
    · simp only [utxMachine, hu, Bool.false_eq_true, if_false]
      have hne : t ≠ u := by
        rintro rfl
        rw [hc] at hu
        exact hu rfl
      exact ⟨(Function.update_of_ne hne ..).trans hc, by cases c <;> rfl⟩
  | step u memory =>
    have hne : u ≠ t := by simpa [UtxEv.of] using he
    simp only [utxMachine]
    split
    · exact ⟨hc, rfl⟩
    · rename_i d hd
      cases d with
      | lock fn =>
        rw [Utx.stepCall, (h.guards t).2 ⟨c, hc, hin⟩]
        exact ⟨hc, rfl⟩
      | _ => exact absurd (h.guards.unique hc hd hin rfl) hne

/-- How many steps the call of a thread has left. -/
def Utx.left (t : Nat) (s : Utx) : Nat := ((s.calls t).map (UtxCall.left s)).getD 0

theorem Utx.left_eq (h : s.calls t = some c) : s.left t = c.left s := by
  rw [Utx.left, h]
  rfl

/-- The thread is inside, in a state that can be reached. -/
def UtxWorking (abi : UtmpxAbi) (os : UsersOs) (single : Int → ℚ) (t : Nat) (s : Utx) : Prop :=
  UtxInv abi os single s ∧ ∃ c, s.calls t = some c ∧ c.inside

theorem UtxInv.left_mine (h : UtxInv abi os single s) (hc : s.calls t = some c) (hin : c.inside) (memory : Bool) :
    (∃ ans, ((utxMachine abi os single).step s (.step t memory)).2 = some (t, ans)) ∨
      UtxWorking abi os single t ((utxMachine abi os single).step s (.step t memory)).1 ∧
        ((utxMachine abi os single).step s (.step t memory)).1.left t < s.left t := by
  have hstep : (utxMachine abi os single).step s (.step t memory) = s.stepCall abi os single t memory c := by
    simp only [utxMachine, hc]
  have hinv := h.step (.step t memory)
  rw [hstep] at hinv ⊢
  refine (Utx.left_stepCall hin memory).imp_right fun ⟨c', hc', hin', hlt⟩ => ⟨⟨hinv, c', hc', hin'⟩, ?_⟩
  rwa [Utx.left_eq hc', Utx.left_eq hc]

/-- The thread that is inside answers before it has made the steps it has left. -/
theorem UtxInv.returns (h : UtxInv abi os single s) (hc : s.calls t = some c) (hin : c.inside) {es : List UtxEv}
    (hquiet : ∀ e ∈ es, ∀ file, e ≠ .write file) (hleft : c.left s ≤ es.countP (UtxEv.of t)) :
    ∃ ans, some (t, ans) ∈ (utxMachine abi os single).outs s es := by
  obtain ⟨_, ho, ans, rfl⟩ : ∃ o ∈ (utxMachine abi os single).outs s es, ∃ ans, o = some (t, ans) := by
    refine @Machine.outs_of_left _ _ _ (utxMachine abi os single) (fun e => ∀ file, e ≠ .write file) (UtxEv.of t) (fun _ => 0)
      (UtxWorking abi os single t) (Utx.left t) (fun o => ∃ ans, o = some (t, ans)) (fun s e hs _ he => ?_) (fun s e hs hfile he => ?_)
      (fun s hs => ?_) s ⟨h, c, hc, hin⟩ es hquiet ?_
    · obtain ⟨hinv, d, hd, hdin⟩ := hs
      cases e with
      | call u fn => cases he
      | write file => cases he
      | step u memory =>
        obtain rfl : u = t := by simpa [UtxEv.of] using he
        exact hinv.left_mine hd hdin memory
    · obtain ⟨hinv, d, hd, hdin⟩ := hs
      obtain ⟨hd', heq⟩ := hinv.other hd hdin he hfile
      refine ⟨⟨hinv.step e, d, hd', hdin⟩, ?_⟩
      rw [Utx.left_eq hd', Utx.left_eq hd, heq]
      exact Nat.le_add_right ..
    · obtain ⟨-, d, hd, hdin⟩ := hs
      rw [Utx.left_eq hd]
      exact UtxCall.left_pos s hdin
    · rw [List.map_const', List.sum_replicate, Utx.left_eq hc]
      simpa using hleft
  exact ⟨ans, ho⟩

end

/-- **Nobody keeps the lock for ever.** In any reachable state, a thread that is inside answers within `6 * n + 8` steps of its own, with
`n` records in the file, whatever the other threads do meanwhile, if nobody writes the file. -/
theorem users_returns (abi : UtmpxAbi) (os : UsersOs) (single : Int → ℚ) (file : List Utmpx) (buffer : Utmpx) (es es' : List UtxEv)
    (t : Nat) (hlock : ((utxMachine abi os single).run (.start file buffer) es).lock = some t) (hquiet : ∀ e ∈ es', ∀ f, e ≠ .write f)
    (hmany : 6 * ((utxMachine abi os single).run (.start file buffer) es).file.length + 8 ≤ es'.countP (UtxEv.of t)) :
    ∃ ans, some (t, ans) ∈ (utxMachine abi os single).outs ((utxMachine abi os single).run (.start file buffer) es) es' := by
  have hinv : UtxInv abi os single ((utxMachine abi os single).run (.start file buffer) es) :=
    (utxMachine abi os single).run_inv (fun _ e h => h.step e) (utxInv_start abi os single file buffer) es
  obtain ⟨c, hc, hin⟩ := (hinv.guards t).1 hlock
  exact hinv.returns hc hin hquiet ((UtxCall.left_le _ c).trans hmany)

theorem users_returns_two : ∃ ans, some (0, ans) ∈ (utxMachine ⟨0, 4, 9, 3⟩ .linux (·)).outs
    ((utxMachine ⟨0, 4, 9, 3⟩ .linux (·)).run (.start bootAndBob ⟨[], .other, 0, 0⟩) (twoReaders.take 6)) (List.replicate 20 (.step 0 true)) :=
  users_returns ⟨0, 4, 9, 3⟩ .linux (·) bootAndBob ⟨[], .other, 0, 0⟩ (twoReaders.take 6) (List.replicate 20 (.step 0 true)) 0 rfl
    (fun e he f hf => by simp [List.eq_of_mem_replicate he] at hf) (by decide)

end Psutil
