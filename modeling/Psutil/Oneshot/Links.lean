import Psutil.Oneshot.Dying

/-!
# `exe()` and `cwd()` of a process that goes away (`_pslinux.py:132`, `:1680`, `:1768`, `:2085`)

| here | there |
| --- | --- |
| `LinkHost.readlink`, `LinkHost.readlinkOf` | `readlink`, `Process._readlink` |
| `LinkHost.exe`, `LinkHost.cwd` | the methods |

`link_answer`: the answer by what is left of the process at each look. The fallback `""` is for a process that runs and has no link;
it is also that of a zombie which is reaped right before the code looks whether it is one.
-/

namespace Psutil.Oneshot

open Lib Eff Bytes

inductive LinkName where
  | exe | cwd
  deriving DecidableEq, Repr

structure LinkHost extends LinuxHost where
  link : Nat → LinkName → Except Errno Bytes
  /-- `os.path.lexists("/proc/PID")`. -/
  lexists : Nat → Bool

/-- The answers about links and the directory are those about the process; a link may be missing at any time. -/
structure LinkHost.Lives (h : LinkHost) (phase : Nat → Life) (start : ℚ) : Prop where
  process : h.toLinuxHost.Lives phase start
  lexists : ∀ k, h.lexists k = true ↔ phase k ≠ .gone

def deleted : Bytes := ascii " (deleted)"

namespace LinkHost

variable (h : LinkHost)

def osReadlink (l : LinkName) : Py Bytes := fun s =>
  (match h.link s.now l with | .ok path => .ok path | .error e => .error (.osError e), { s with now := s.now + 1 })

def osLexists : Py Bool := fun s => (.ok (h.lexists s.now), { s with now := s.now + 1 })

def pathExists (path : Bytes) : Py Bool := fun s => (h.pathExistsStrict s.now path, { s with now := s.now + 1 })

def readlink (l : LinkName) : Py Bytes := do
  let path ← h.osReadlink l
  let path : Bytes := path.takeWhile (· ≠ 0)
  if Bytes.endsWith path deleted then
    if !(← h.pathExists path) then return path.take (path.length - 10)
  return path

/-- `_readlink(path, fallback)`; `UNSET` is `none`. -/
def readlinkOf (l : LinkName) (fallback : Option Bytes) : Py Bytes :=
  tryCatch (h.readlink l) fun e => match e with
    | .osError .enoent | .osError .esrch => do
      if ← h.osLexists then
        h.raiseIfZombie
        match fallback with
        | some fallback => return fallback
        | none => throw e
      else throw e
    | e => throw e

def exe : Py Bytes := h.wrapExceptions (h.readlinkOf .exe (some []))

def cwd : Py Bytes := h.wrapExceptions (h.readlinkOf .cwd (some []))

/-- What a link means, by the answer about the path it shows. -/
def meaning (target : Bytes) (exists_ : Except Errno Unit) : Except Exc Bytes :=
  let path : Bytes := target.takeWhile (· ≠ 0)
  if Bytes.endsWith path deleted then
    match exists_ with
    | .ok () => .ok path
    | .error .eacces | .error .eperm => .error (.accessDenied h.pid none)
    | .error _ => .ok (path.take (path.length - 10))
  else .ok path

/-- The answer that begins at moment `n`, by what is left of the process. -/
def answer (phase : Nat → Life) (l : LinkName) (n : Nat) : Except Exc Bytes :=
  match h.link n l with
  | .ok target => h.meaning target ((h.moment (n + 1)).osStat (target.takeWhile (· ≠ 0)))
  | .error errno =>
    if errno.isMissing then
      if phase (n + 1) = .gone then .error h.noSuchProcess
      else if phase (n + 2) = .zombie then .error (.zombieProcess h.pid none none)
      else .ok []
    else if errno.isDenied then .error (.accessDenied h.pid none)
    else .error (.osError errno)

end LinkHost

section
variable {h : LinkHost} {phase : Nat → Life} {start : ℚ} {l : LinkName} {s : Obj}

/-- Whether the process is a zombie when the code looks. -/
theorem raiseIfZombie_run (hl : h.toLinuxHost.Lives phase start) (s : Obj) : h.raiseIfZombie s =
    (if phase s.now = .zombie then .error (.zombieProcess h.pid none none) else .ok (), (h.look .zombie s).2) := by
  rw [LinuxHost.raiseIfZombie, bind_run, isZombie_eq]
  cases hp : phase s.now with
  | running =>
    cases hread : (h.moment s.now).read (.file .stat) with
    | ok data => simp only [hl.running _ data hread hp]; rfl
    | error e => rfl
  | zombie =>
    obtain ⟨data, hread, hz⟩ := hl.zombie _ hp
    simp only [hread, hz]
    rfl
  | gone =>
    obtain ⟨e, hread⟩ := hl.gone _ hp
    simp only [hread]
    rfl

/-- A link that is missing: the code looks for the directory, then for a zombie. -/
theorem missing_run (hl : h.Lives phase start) {errno : Errno} (hlink : h.link s.now l = .error errno)
    (hmiss : errno.isMissing = true) : (h.wrapExceptions (h.readlinkOf l (some [])) s).1 = h.answer phase l s.now := by
  have hread : h.readlink l s = (.error (.osError errno), { s with now := s.now + 1 }) := by
    rw [LinkHost.readlink, bind_run, LinkHost.osReadlink, hlink]
  have hexists : h.osLexists { s with now := s.now + 1 } =
      (.ok (decide (phase (s.now + 1) ≠ .gone)), { s with now := s.now + 1 + 1 }) := by
    have hdec : h.lexists (s.now + 1) = decide (phase (s.now + 1) ≠ .gone) := by
      rw [Bool.eq_iff_iff, hl.lexists, decide_eq_true_iff]
    rw [LinkHost.osLexists]
    exact Prod.ext (congrArg Except.ok hdec) rfl
  have hbody : h.readlinkOf l (some []) s = if phase (s.now + 1) = .gone then (.error (.osError errno), { s with now := s.now + 1 + 1 })
      else (if phase (s.now + 2) = .zombie then .error (.zombieProcess h.pid none none) else .ok [],
        (h.look .zombie { s with now := s.now + 1 + 1 }).2) := by
    have hhandler : h.readlinkOf l (some []) s = (do
        if ← h.osLexists then
          h.raiseIfZombie
          return []
        else throw (.osError errno) : Py Bytes) { s with now := s.now + 1 } := by
      rw [LinkHost.readlinkOf, tryCatch_run, hread]
      cases errno <;> first | rfl | cases hmiss
    rw [hhandler, bind_run, hexists]
    by_cases hg : phase (s.now + 1) = .gone
    · simp only [hg, ne_eq, not_true, decide_false, if_true]
      rfl
    · simp only [hg, ne_eq, not_false_eq_true, decide_true, if_true, if_false, bind_run, raiseIfZombie_run hl.process]
      by_cases hz : phase (s.now + 2) = .zombie
      · simp [hz]
      · simp only [hz, if_false]
        rfl
  rw [LinuxHost.wrapExceptions, tryCatch_run, hbody, LinkHost.answer, hlink]
  simp only [hmiss, if_true]
  by_cases hg : phase (s.now + 1) = .gone
  · -- the wrapper finds no process either
    have hstill : ∀ k, s.now + 1 ≤ k → phase k = .gone := fun k hk => hl.process.still_gone hk hg
    have hnozombie : h.raiseIfZombie { s with now := s.now + 1 + 1 } = (.ok (), (h.look .zombie { s with now := s.now + 1 + 1 }).2) := by
      rw [raiseIfZombie_run hl.process]
      simp [hstill (s.now + 1 + 1) (Nat.le_succ _)]
    have hstat : (h.moment (s.now + 3)).statExists = false := by
      by_contra hne
      exact (hl.process.statExists _).1 (by simpa using hne) (hstill _ (by omega))
    simp only [hg, if_true]
    cases errno <;> cases hmiss
    · simp only [LinuxHost.translate, bind_run, hnozombie]
      rfl
    · simp only [LinuxHost.translate, bind_run, hnozombie, LinuxHost.statExists, LinuxHost.look, hstat]
      rfl
  · simp only [hg, if_false]
    by_cases hz : phase (s.now + 2) = .zombie
    · simp only [hz, if_true]
      rfl
    · simp only [hz, if_false]

/-- A link that may not be read. -/
theorem denied_run {errno : Errno} (hlink : h.link s.now l = .error errno) (hmiss : errno.isMissing = false) :
    (h.wrapExceptions (h.readlinkOf l (some [])) s).1 = h.answer phase l s.now := by
  have hread : h.readlink l s = (.error (.osError errno), { s with now := s.now + 1 }) := by
    rw [LinkHost.readlink, bind_run, LinkHost.osReadlink, hlink]
  rw [LinuxHost.wrapExceptions, tryCatch_run, LinkHost.readlinkOf, tryCatch_run, hread, LinkHost.answer, hlink]
  cases errno <;> first | rfl | cases hmiss

/-- A link that is there. -/
theorem present_run {target : Bytes} (hlink : h.link s.now l = .ok target) :
    (h.wrapExceptions (h.readlinkOf l (some [])) s).1 = h.answer phase l s.now := by
  have hread : h.readlink l s = (do
      if Bytes.endsWith (target.takeWhile (· ≠ 0)) deleted then
        if !(← h.pathExists (target.takeWhile (· ≠ 0))) then
          return (target.takeWhile (· ≠ 0)).take ((target.takeWhile (· ≠ 0)).length - 10)
      return target.takeWhile (· ≠ 0) : Py Bytes) { s with now := s.now + 1 } := by
    rw [LinkHost.readlink, bind_run, LinkHost.osReadlink, hlink]
  rw [LinuxHost.wrapExceptions, tryCatch_run, LinkHost.readlinkOf, tryCatch_run, hread, LinkHost.answer, hlink]
  simp only [LinkHost.meaning]
  by_cases hdel : Bytes.endsWith (target.takeWhile (· ≠ 0)) deleted = true
  · simp only [hdel, if_true, bind_run, LinkHost.pathExists, LinuxHost.pathExistsStrict]
    cases (h.moment (s.now + 1)).osStat (target.takeWhile (· ≠ 0)) with
    | ok _ => rfl
    | error errno => cases errno <;> rfl
  · simp only [hdel]
    rfl

/-- **`exe()` and `cwd()` answer by what is left of the process**, whenever it exits and is reaped. -/
theorem link_answer (hl : h.Lives phase start) (s : Obj) :
    (h.exe s).1 = h.answer phase .exe s.now ∧ (h.cwd s).1 = h.answer phase .cwd s.now := by
  have hanswer : ∀ l, (h.wrapExceptions (h.readlinkOf l (some [])) s).1 = h.answer phase l s.now := by
    intro l
    cases hlink : h.link s.now l with
    | ok target => exact present_run hlink
    | error errno =>
      cases hmiss : errno.isMissing with
      | true => exact missing_run hl hlink hmiss
      | false => exact denied_run hlink hmiss
  exact ⟨hanswer .exe, hanswer .cwd⟩

end

/-- The links of `catHost` are there while it runs. -/
def catLinks : LinkHost :=
  { catHost with
    link := fun k _ => if catPhase k = .running then .ok (ascii "/bin/cat") else .error .enoent
    lexists := fun k => decide (catPhase k ≠ .gone) }

/-- It runs, is a zombie, and is reaped between the second look and the third one. -/
theorem link_answer_cat : (catLinks.exe { blankObj with now := 2 }).1 = .ok (ascii "/bin/cat") ∧
    (catLinks.exe { blankObj with now := 5 }).1 = .error (.zombieProcess 7 none none) ∧ (catLinks.exe { blankObj with now := 7 }).1 = .ok [] := by
  have hlives : catLinks.Lives catPhase 5 := ⟨catHost_lives, fun k => by simp [catLinks]⟩
  refine ⟨(link_answer hlives _).1.trans ?_, (link_answer hlives _).1.trans ?_, (link_answer hlives _).1.trans ?_⟩ <;> decide

end Psutil.Oneshot
