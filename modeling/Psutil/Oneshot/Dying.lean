import Psutil.Linux.StatText
import Psutil.Oneshot.Readers

/-!
# Getters of a process that goes away (`_pslinux.py:1608-1750`)

`Lives` says that the process exits and is reaped at any moments, and that its PID is not given to another one meanwhile.
`session_truthful`: in every program of `oneshot()` blocks and getters, what a getter raises is an excuse that holds. A missing
file never shows as itself.
-/

namespace Psutil.Oneshot

open Lib Eff Bytes

/-- What is left of a process. -/
inductive Life where
  | running | zombie | gone
  deriving DecidableEq, Repr

def Life.rank : Life → Nat
  | .running => 0
  | .zombie => 1
  | .gone => 2

end Psutil.Oneshot

namespace Psutil

/-- `FileNotFoundError` and `ProcessLookupError`. -/
def Errno.isMissing : Errno → Bool
  | .enoent | .esrch => true
  | _ => false

/-- `PermissionError`. -/
def Errno.isDenied : Errno → Bool
  | .eacces | .eperm => true
  | _ => false

/-- The exceptions that say something about a process, or about the system. -/
def Exc.blames : Exc → Bool
  | .osError _ | .noSuchProcess _ _ _ | .zombieProcess _ _ _ | .accessDenied _ _ => true
  | _ => false

end Psutil

namespace Psutil.Oneshot

open Lib Eff Bytes

/-- The process runs, exits and is reaped; `start` is when it began. -/
structure LinuxHost.Lives (h : LinuxHost) (phase : Nat → Life) (start : ℚ) : Prop where
  pid_le : h.pid ≤ pidMax
  forward : ∀ k, (phase k).rank ≤ (phase (k + 1)).rank
  /-- The files of a running process are there; `smaps_rollup` need not be. -/
  missing : ∀ k path e, (h.moment k).read path = .error e → e.isMissing = true → path = .smapsRollup ∨ path ≠ .bootTime ∧ phase k ≠ .running
  running : ∀ k data, (h.moment k).read (.file .stat) = .ok data → phase k = .running → showsZombie data = false
  zombie : ∀ k, phase k = .zombie → ∃ data, (h.moment k).read (.file .stat) = .ok data ∧ showsZombie data = true
  gone : ∀ k, phase k = .gone → ∃ e, (h.moment k).read (.file .stat) = .error e
  statExists : ∀ k, (h.moment k).statExists = true ↔ phase k ≠ .gone
  starttime : ∀ k data fields c, (h.moment k).read (.file .stat) = .ok data → StatFields.parse data = .ok fields →
    fields.starttime h.clockTicks = .ok c → c = start

/-- Something was denied between two moments. -/
def LinuxHost.Denies (h : LinuxHost) (n m : Nat) : Prop :=
  ∃ k, n ≤ k ∧ k < m ∧ ((∃ path e, (h.moment k).read path = .error e ∧ e.isDenied = true) ∨
    ∃ path e, (h.moment k).osStat path = .error e ∧ e.isDenied = true)

/-- The exception may be raised between two moments: it names the process, and what it says was so meanwhile. -/
def Excused (h : LinuxHost) (phase : Nat → Life) (n m : Nat) : Exc → Prop
  | .osError e => e.isMissing = false ∧ e.isDenied = false
  | .zombieProcess pid _ _ => pid = h.pid ∧ ∃ k, n ≤ k ∧ k < m ∧ phase k = .zombie
  | .noSuchProcess pid _ _ => pid = h.pid ∧ ∃ k, n ≤ k ∧ k < m ∧ phase k = .gone
  | .accessDenied pid _ => pid = h.pid ∧ h.Denies n m
  | _ => True

/-- What may be raised under the decorator. -/
def Bare (h : LinuxHost) (phase : Nat → Life) (n m : Nat) (e : Exc) : Prop :=
  Excused h phase n m e ∨ ∃ errno, e = .osError errno ∧ (errno.isMissing = true → ∃ k, n ≤ k ∧ k < m ∧ phase k ≠ .running) ∧
    (errno.isDenied = true → h.Denies n m)

/-- The object is bound to the process, and what it has kept of `stat` is of that process. -/
structure Obj.Bound (h : LinuxHost) (start : ℚ) (s : Obj) : Prop where
  pidReused : s.pidReused = false
  ident : s.ident = none ∨ s.ident = some start
  ctime : s.ctime = none ∨ s.ctime = some start
  stat : ∀ d fields c, s.procCache = some d → d .stat = some fields → fields.starttime h.clockTicks = .ok c → c = start

/-- What `x` leaves that began at moment `n` or later: a bound object, and a result as `Q` or an exception as `E` says. -/
inductive Leaves (h : LinuxHost) (start : ℚ) (E : Nat → Nat → Exc → Prop) {α : Type} (Q : α → Prop) (n : Nat) : Except Exc α → Obj → Prop where
  | ok {a : α} {s : Obj} (hs : s.Bound h start ∧ n ≤ s.now) (hQ : Q a) : Leaves h start E Q n (.ok a) s
  | error {e : Exc} {s : Obj} (hs : s.Bound h start ∧ n ≤ s.now) (hE : E n s.now e) : Leaves h start E Q n (.error e) s

def Obeys (h : LinuxHost) (start : ℚ) (E : Nat → Nat → Exc → Prop) {α : Type} (Q : α → Prop) (x : Py α) : Prop :=
  ∀ n, Triple (fun s => s.Bound h start ∧ n ≤ s.now) x (Leaves h start E Q n)

/-! ## Rules -/

section
variable {h : LinuxHost} {start : ℚ} {E F : Nat → Nat → Exc → Prop} {α β : Type} {Q : α → Prop} {R : β → Prop}

theorem Obeys.pure {a : α} (ha : Q a) : Obeys h start E Q (Pure.pure a : Py α) := fun _ _ hs => .ok hs ha

theorem Obeys.raise {e : Exc} (he : ∀ n m, n ≤ m → E n m e) : Obeys h start E Q (throw e : Py α) := fun _ _ hs =>
  .error hs (he _ _ hs.2)

theorem Obeys.ofExcept {r : Except Exc α} (hok : ∀ a, r = .ok a → Q a) (herr : ∀ e, r = .error e → ∀ n m, E n m e) :
    Obeys h start E Q (Psutil.Oneshot.ofExcept r) := fun n s hs => by
  cases r with
  | ok a => exact .ok hs (hok a rfl)
  | error e => exact .error hs (herr e rfl _ _)

theorem Obeys.modify {f : Obj → Obj} (hf : ∀ s : Obj, s.Bound h start → (f s).Bound h start ∧ (f s).now = s.now) :
    Obeys h start E (fun _ => True) (modify f : Py PUnit) := fun _ s hs =>
  .ok ⟨(hf s hs.1).1, hs.2.trans_eq (hf s hs.1).2.symm⟩ trivial

/-- What is done depends on the object. -/
theorem Obeys.get_bind {f : Obj → Py α} (hf : ∀ s, s.Bound h start → Obeys h start E Q (f s)) : Obeys h start E Q (get >>= f) := fun n s hs => by
  rw [get_bind_run]
  exact hf s hs.1 n s hs

theorem Obeys.bind {x : Py β} {f : β → Py α} (hx : Obeys h start E R x) (hf : ∀ b, R b → Obeys h start E Q (f b)) :
    Obeys h start E Q (x >>= f) := fun n => by
  refine (hx n).bind (fun b s hs => ?_) fun e s hs => ?_
  · cases hs with
    | ok hs hQ => exact hf b hQ n s hs
  · cases hs with
    | error hs hE => exact .error hs hE

/-- A handler raises, for what was allowed, what is allowed, or obeys. -/
theorem Obeys.tryCatch {x : Py α} {f : Exc → Py α} (hx : Obeys h start F Q x)
    (hf : ∀ e, (∃ e', f e = throw e' ∧ ∀ n m, F n m e → E n m e') ∨ Obeys h start E Q (f e)) : Obeys h start E Q (tryCatch x f) := fun n => by
  refine (hx n).tryCatch (fun a s hs => ?_) fun e s hs => ?_
  · cases hs with
    | ok hs hQ => exact .ok hs hQ
  · cases hs with
    | error hs hE =>
      rcases hf e with ⟨e', hthrow, hE'⟩ | hobeys
      · rw [hthrow]
        exact .error hs (hE' _ _ hE)
      · exact hobeys n s hs

theorem Obeys.mono {x : Py α} {R : α → Prop} (hx : Obeys h start E Q x) (hE : ∀ n m e, E n m e → F n m e) (hQ : ∀ a, Q a → R a) :
    Obeys h start F R x := fun n => by
  refine (hx n).mono (fun _ => id) fun r s hs => ?_
  cases hs with
  | ok hs h => exact .ok hs (hQ _ h)
  | error hs h => exact .error hs (hE _ _ _ h)

end

/-! ## The decorator -/

section
variable {h : LinuxHost} {phase : Nat → Life} {start : ℚ} {α : Type} {Q : α → Prop}

theorem Excused.mono {n m n' m' : Nat} {e : Exc} (he : Excused h phase n m e) (hn : n' ≤ n) (hm : m ≤ m') : Excused h phase n' m' e := by
  have hwiden : ∀ {P : Nat → Prop}, (∃ k, n ≤ k ∧ k < m ∧ P k) → ∃ k, n' ≤ k ∧ k < m' ∧ P k := fun ⟨k, hk, hk', hP⟩ =>
    ⟨k, hn.trans hk, hk'.trans_le hm, hP⟩
  cases e with
  | zombieProcess pid name ppid => exact ⟨he.1, hwiden he.2⟩
  | noSuchProcess pid name msg => exact ⟨he.1, hwiden he.2⟩
  | accessDenied pid name => exact ⟨he.1, hwiden he.2⟩
  | _ => exact he

theorem LinuxHost.Lives.rank_le (hl : h.Lives phase start) {j k : Nat} (hjk : j ≤ k) : (phase j).rank ≤ (phase k).rank :=
  monotone_nat_of_le_succ (f := fun k => (phase k).rank) hl.forward hjk

theorem Life.rank_pos {p : Life} : 0 < p.rank ↔ p ≠ .running := by cases p <;> simp [rank]

/-- Once the process does not run any more, it is a zombie or gone. -/
theorem LinuxHost.Lives.later (hl : h.Lives phase start) {j k : Nat} (hjk : j ≤ k) (hj : phase j ≠ .running) :
    phase k = .zombie ∨ phase k = .gone := by
  have hk := (Life.rank_pos.2 hj).trans_le (hl.rank_le hjk)
  cases hp : phase k <;> simp_all [Life.rank]

theorem LinuxHost.Lives.still_gone (hl : h.Lives phase start) {j k : Nat} (hjk : j ≤ k) (hj : phase j = .gone) : phase k = .gone := by
  have hk := hl.rank_le hjk
  rw [hj] at hk
  cases hp : phase k <;> simp_all [Life.rank]

/-- A new moment, and a longer log. -/
theorem Obj.Bound.step {s : Obj} (hs : s.Bound h start) (now : Nat) (log : List Event) :
    Obj.Bound h start { s with now := now, log := log } := ⟨hs.pidReused, hs.ident, hs.ctime, hs.stat⟩

theorem isZombie_eq (h : LinuxHost) (s : Obj) : h.isZombie s =
    (.ok (match (h.moment s.now).read (.file .stat) with | .ok data => showsZombie data | .error _ => false), (h.look .zombie s).2) := by
  rw [LinuxHost.isZombie, tryCatch_run, bind_run]
  simp only [LinuxHost.look, Look.path]
  cases (h.moment s.now).read (.file .stat) <;> rfl

/-- `_raise_if_zombie` of a process that does not run any more: it raises, or the process is gone. -/
theorem raiseIfZombie_dead (hl : h.Lives phase start) {s : Obj} (hdead : phase s.now ≠ .running) :
    (h.raiseIfZombie s = (.error (.zombieProcess h.pid none none), (h.look .zombie s).2) ∧ phase s.now = .zombie) ∨
      (h.raiseIfZombie s = (.ok (), (h.look .zombie s).2) ∧ phase s.now = .gone) := by
  rw [LinuxHost.raiseIfZombie, bind_run, isZombie_eq]
  rcases hl.later (Nat.le_refl s.now) hdead with hz | hg
  · obtain ⟨data, hdata, hshows⟩ := hl.zombie _ hz
    simp only [hdata, hshows]
    exact Or.inl ⟨rfl, hz⟩
  · obtain ⟨e, he⟩ := hl.gone _ hg
    simp only [he]
    exact Or.inr ⟨rfl, hg⟩

/-- What the wrapper makes of a failure that may happen. -/
theorem translate_leaves (hl : h.Lives phase start) {n : Nat} {s : Obj} (hs : s.Bound h start ∧ n ≤ s.now) {e : Exc}
    (he : Bare h phase n s.now e) : Leaves h start (Excused h phase) Q n (h.translate e s).1 (h.translate (α := α) e s).2 := by
  have hlook : (h.look .zombie s).2.Bound h start ∧ n ≤ (h.look .zombie s).2.now := ⟨hs.1.step _ _, Nat.le_succ_of_le hs.2⟩
  have hlater : ∀ errno, e = .osError errno → errno.isMissing = true → phase s.now ≠ .running := by
    rintro errno rfl hmiss
    rcases he with he | ⟨_, heq, hdead, -⟩
    · rw [he.1] at hmiss
      cases hmiss
    · obtain rfl := Exc.osError.inj heq
      obtain ⟨k, -, hk, hp⟩ := hdead hmiss
      rcases hl.later hk.le hp with hz | hg
      · simp [hz]
      · simp [hg]
  have hdenied : ∀ errno, e = .osError errno → errno.isDenied = true → h.Denies n s.now := by
    rintro errno rfl hden
    rcases he with he | ⟨_, heq, -, hd⟩
    · rw [he.2] at hden
      cases hden
    · obtain rfl := Exc.osError.inj heq
      exact hd hden
  have hpassed : (∀ errno, e = .osError errno → errno.isMissing = false ∧ errno.isDenied = false) → Excused h phase n s.now e := by
    intro hother
    rcases he with he | ⟨errno, rfl, -, -⟩
    · exact he
    · exact hother _ rfl
  unfold LinuxHost.translate
  split
  · exact .error hs ⟨rfl, hdenied _ rfl rfl⟩
  · exact .error hs ⟨rfl, hdenied _ rfl rfl⟩
  · rw [bind_run]
    rcases raiseIfZombie_dead hl (hlater _ rfl rfl) with ⟨hr, hz⟩ | ⟨hr, hg⟩
    · rw [hr]
      exact .error hlook ⟨rfl, s.now, hs.2, Nat.lt_succ_self _, hz⟩
    · rw [hr]
      exact .error hlook ⟨rfl, s.now, hs.2, Nat.lt_succ_self _, hg⟩
  · rw [bind_run]
    rcases raiseIfZombie_dead hl (hlater _ rfl rfl) with ⟨hr, hz⟩ | ⟨hr, hg⟩
    · rw [hr]
      exact .error hlook ⟨rfl, s.now, hs.2, Nat.lt_succ_self _, hz⟩
    · -- then its directory is gone too
      have hexists : (h.moment (s.now + 1)).statExists = false := by
        by_contra hne
        exact (hl.statExists _).1 (by simpa using hne) (hl.still_gone (Nat.le_succ _) hg)
      rw [hr]
      simp only [bind_run, LinuxHost.statExists, LinuxHost.look, hexists]
      exact .error ⟨hs.1.step _ _, Nat.le_succ_of_le (Nat.le_succ_of_le hs.2)⟩
        ⟨rfl, s.now, hs.2, Nat.lt_succ_of_lt (Nat.lt_succ_self _), hg⟩
  · rename_i hne1 hne2 hne3 hne4
    refine .error hs (hpassed ?_)
    rintro errno rfl
    cases errno <;> simp_all [Errno.isMissing, Errno.isDenied]

theorem Obeys.wrapExceptions (hl : h.Lives phase start) {x : Py α} (hx : Obeys h start (Bare h phase) Q x) :
    Obeys h start (Excused h phase) Q (h.wrapExceptions x) := fun n => by
  refine (hx n).tryCatch (fun a s hs => ?_) fun e s hs => ?_
  · cases hs with
    | ok hs hQ => exact .ok hs hQ
  · cases hs with
    | error hs hE => exact translate_leaves hl hs hE

end

/-! ## Reading and parsing -/

/-- A failure of which no process is to blame. -/
def Blameless {α : Type} (r : Except Exc α) : Prop := ∀ e, r = .error e → e.blames = false

section
variable {α β : Type}

theorem Blameless.ok (a : α) : Blameless (.ok a) := fun _ he => by cases he

theorem Blameless.error {e : Exc} (h : e.blames = false) : Blameless (.error e : Except Exc α) := fun _ he => by
  cases he
  exact h

theorem Blameless.bind {x : Except Exc α} {f : α → Except Exc β} (hx : Blameless x) (hf : ∀ a, Blameless (f a)) : Blameless (x >>= f) := by
  intro e he
  cases hr : x with
  | error e' =>
    rw [hr] at he
    cases he
    exact hx _ hr
  | ok a =>
    rw [hr] at he
    exact hf a e he

theorem blameless_getItem (l : List Bytes) (i : Nat) : Blameless (Bytes.getItem l i) := by
  unfold Bytes.getItem
  split
  · exact .ok _
  · exact .error rfl

theorem blameless_int (data : Bytes) : Blameless (Bytes.int data) := by
  unfold Bytes.int
  dsimp only
  split
  · exact .ok _
  · exact .error rfl

theorem blameless_float (data : Bytes) : Blameless (Bytes.float data) := by
  unfold Bytes.float
  split
  · exact .ok _
  · exact .error rfl

theorem blameless_decode (data : Bytes) : Blameless (Bytes.decode data) := by
  unfold Bytes.decode
  split
  · exact .ok _
  · exact .error rfl

theorem blameless_foldlM {f : β → α → Except Exc β} (hf : ∀ b a, Blameless (f b a)) : ∀ (l : List α) (b : β), Blameless (l.foldlM f b)
  | [], b => .ok b
  | a :: l, b => by
    rw [List.foldlM_cons]
    exact (hf b a).bind fun b' => blameless_foldlM hf l b'

end

theorem blameless_parse (f : File) (data : Bytes) : Blameless (f.parse data) := by
  cases f with
  | stat =>
    refine .bind (blameless_getItem _ _) fun _ => .bind (blameless_getItem _ _) fun _ => .bind (blameless_getItem _ _) fun _ =>
      .bind (blameless_getItem _ _) fun _ => .bind (blameless_getItem _ _) fun _ => .bind (blameless_getItem _ _) fun _ =>
      .bind (blameless_getItem _ _) fun _ => .bind (blameless_getItem _ _) fun _ => .bind (blameless_getItem _ _) fun _ =>
      .bind (blameless_getItem _ _) fun _ => .bind (blameless_getItem _ _) fun _ => .ok _
  | status => exact .ok _
  | smaps => exact .ok _

theorem blameless_cpuTimesOf (clockTicks : Nat) (fields : StatFields) : Blameless (fields.cpuTimesOf clockTicks) := by
  refine .bind (blameless_float _) fun _ => .bind (blameless_float _) fun _ => .bind (blameless_float _) fun _ =>
    .bind (blameless_float _) fun _ => ?_
  dsimp only
  split
  · exact .bind (blameless_float _) fun _ => .ok _
  · exact .bind (.ok _) fun _ => .ok _

theorem blameless_firstIds (label : String) (data : Bytes) : Blameless (firstIds label data) := by
  unfold firstIds
  split
  · exact .ok _
  · exact .error rfl

theorem blameless_numThreads (data : Bytes) : Blameless (Psutil.numThreads data) := by
  unfold Psutil.numThreads
  split
  · exact .ok _
  · exact .error rfl

theorem blameless_numCtxSwitches (fname : String) (data : Bytes) : Blameless (Psutil.numCtxSwitches fname data) := by
  unfold Psutil.numCtxSwitches
  split
  · exact .error rfl
  · exact .ok _
  · exact .error rfl

theorem blameless_bootTime (fname : String) (data : Bytes) : Blameless (Psutil.bootTime fname data) := by
  unfold Psutil.bootTime
  split
  · exact (blameless_getItem _ _).bind blameless_float
  · exact .error rfl

theorem blameless_rollup (data : Bytes) : Blameless (Psutil.parseSmapsRollup data) := by
  have hkb : ∀ line : Bytes, Blameless ((Bytes.getItem (Bytes.split line) 1).bind Bytes.int) := fun line =>
    (blameless_getItem _ _).bind blameless_int
  refine .bind (blameless_foldlM (fun acc line => ?_) _ _) fun _ => .ok _
  unfold rollupLine
  dsimp only
  split_ifs
  · exact .bind (blameless_getItem _ _) fun _ => .bind (blameless_int _) fun _ => .ok _
  · exact .bind (blameless_getItem _ _) fun _ => .bind (blameless_int _) fun _ => .ok _
  · exact .bind (blameless_getItem _ _) fun _ => .bind (blameless_int _) fun _ => .ok _
  · exact .ok _

/-- Moments only pass, and a failure is blameless or the answer of `path_exists_strict`. -/
def MapsFails {α : Type} (ex : PathExists) (now : Nat) (r : Except Exc α × Nat) : Prop :=
  now ≤ r.2 ∧ ∀ e, r.1 = .error e → e.blames = false ∨ ∃ k path, now ≤ k ∧ k < r.2 ∧ ex k path = .error e

theorem mapsItem_fails (ex : PathExists) (now : Nat) (header : Bytes) (data : Dict Bytes Int) : MapsFails ex now (mapsItem ex now header data) := by
  have hitem : ∀ addr perms path : Bytes, MapsFails ex now (((regionPath ex now path).1.map fun path =>
      (⟨addr, perms, path, regionFields.map fun f => (data.get? (ascii f)).getD 0⟩ : Region)), (regionPath ex now path).2) := by
    intro addr perms path
    unfold regionPath
    dsimp only
    split_ifs with hnil hdel
    · exact ⟨Nat.le_refl _, fun _ he => by cases he⟩
    · refine ⟨Nat.le_succ _, fun e he => Or.inr ⟨now, strip path, Nat.le_refl _, Nat.lt_succ_self _, ?_⟩⟩
      cases hex : ex now (strip path) with
      | ok b => simp [hex, Except.map] at he
      | error e' => simpa [hex, Except.map] using he
    · exact ⟨Nat.le_refl _, fun _ he => by cases he⟩
  unfold mapsItem
  dsimp only
  split
  · exact hitem _ _ _
  · exact hitem _ _ _
  · exact ⟨Nat.le_refl _, fun e he => Or.inl (by cases he; rfl)⟩

theorem blameless_mapsLine (line : Bytes) (fields : List Bytes) (data : Dict Bytes Int) : Blameless (mapsLine line fields data) := by
  unfold mapsLine
  split
  · exact .error rfl
  · split
    · split
      · exact .ok _
      · split
        · exact .ok _
        · exact .error rfl
    · exact .ok _

theorem MapsFails.later {α : Type} {ex : PathExists} {now now' : Nat} {r : Except Exc α × Nat} (h : MapsFails ex now' r) (hle : now ≤ now') :
    MapsFails ex now r :=
  ⟨hle.trans h.1, fun e he => (h.2 e he).imp_right fun ⟨k, path, hk, hk', hex⟩ => ⟨k, path, hle.trans hk, hk', hex⟩⟩

theorem mapsLoop_fails (ex : PathExists) : ∀ (lines : List Bytes) (now : Nat) (ls : List Region) (header : Bytes) (data : Dict Bytes Int),
    MapsFails ex now (mapsLoop ex now ls header data lines)
  | [], now, ls, header, data => by
    have hitem := mapsItem_fails ex now header data
    unfold mapsLoop
    rcases hr : mapsItem ex now header data with ⟨r, now'⟩
    rw [hr] at hitem
    cases r with
    | ok item => exact ⟨hitem.1, fun _ he => by cases he⟩
    | error e => exact ⟨hitem.1, fun e' he => by cases he; exact hitem.2 e rfl⟩
  | line :: lines, now, ls, header, data => by
    have hitem := mapsItem_fails ex now header data
    have hline := blameless_mapsLine line (splitMax 5 line) data
    unfold mapsLoop
    rcases hl : mapsLine line (splitMax 5 line) data with e | (_ | data')
    · exact ⟨Nat.le_refl _, fun e' he => Or.inl (by cases he; exact hline e hl)⟩
    · rcases hr : mapsItem ex now header data with ⟨r, now'⟩
      rw [hr] at hitem
      cases r with
      | ok item => exact (mapsLoop_fails ex lines now' (ls ++ [item]) line data).later hitem.1
      | error e => exact ⟨hitem.1, fun e' he => by cases he; exact hitem.2 e rfl⟩
    · exact mapsLoop_fails ex lines now ls header data'

theorem memoryMaps_fails (ex : PathExists) (now : Nat) (data : Bytes) : MapsFails ex now (Psutil.memoryMaps ex now data) := by
  unfold Psutil.memoryMaps
  split
  · exact ⟨Nat.le_refl _, fun _ he => by cases he⟩
  · exact mapsLoop_fails ex _ _ _ _ _

/-! ## The methods of the platform -/

section
variable {h : LinuxHost} {phase : Nat → Life} {start : ℚ} {α : Type} {Q : α → Prop}

theorem excused_of_blameless {e : Exc} (he : e.blames = false) (n m : Nat) : Excused h phase n m e := by
  cases e <;> trivial

theorem Obeys.ofBlameless {r : Except Exc α} (hr : Blameless r) : Obeys h start (Bare h phase) (fun _ => True) (Psutil.Oneshot.ofExcept r) :=
  .ofExcept (fun _ _ => trivial) fun e he n m => Or.inl (excused_of_blameless (hr e he) n m)

theorem Obeys.bare {x : Py α} (hx : Obeys h start (Excused h phase) Q x) : Obeys h start (Bare h phase) Q x :=
  hx.mono (fun _ _ _ => Or.inl) fun _ => id

/-- A file that is read; `stat` says when the process began. -/
theorem Obeys.look (hl : h.Lives phase start) {l : Look} (hrollup : l ≠ .smapsRollup) : Obeys h start (Bare h phase) (fun data =>
    l.path = .file .stat → ∀ fields c, StatFields.parse data = .ok fields → fields.starttime h.clockTicks = .ok c → c = start)
    (h.look l) := fun n s hs => by
  have hpath : l.path ≠ .smapsRollup := by cases l <;> simp_all [Look.path]
  unfold LinuxHost.look
  cases hr : (h.moment s.now).read l.path with
  | ok data => exact .ok ⟨hs.1.step _ _, Nat.le_succ_of_le hs.2⟩ fun hp fields c hparse hc => hl.starttime s.now data fields c (hp ▸ hr) hparse hc
  | error e =>
    refine .error ⟨hs.1.step _ _, Nat.le_succ_of_le hs.2⟩ (Or.inr ⟨e, rfl, fun hmiss => ?_, fun hden => ?_⟩)
    · have hdead := ((hl.missing _ _ _ hr hmiss).resolve_left hpath).2
      exact ⟨s.now, hs.2, Nat.lt_succ_self _, hdead⟩
    · exact ⟨s.now, hs.2, Nat.lt_succ_self _, Or.inl ⟨_, e, hr, hden⟩⟩

theorem Obeys.memoize {κ : Type} {ν : κ → Type} [DecidableEq κ] {cache : Obj → Option (Cache κ ν)} {setCache : Cache κ ν → Obj → Obj}
    {key : κ} {fun_ : Py (ν key)} {E : Nat → Nat → Exc → Prop} {Q : ν key → Prop}
    (hhit : ∀ (s : Obj) d v, s.Bound h start → cache s = some d → d key = some v → Q v)
    (hset : ∀ (s : Obj) d v, s.Bound h start → cache s = some d → Q v → (setCache (Function.update d key (some v)) s).Bound h start ∧
      (setCache (Function.update d key (some v)) s).now = s.now)
    (hfun : Obeys h start E Q fun_) : Obeys h start E Q (memoizeWhenActivated cache setCache key fun_) := fun n s hs => by
  have hleaves := hfun n s hs
  cases hc : cache s with
  | none =>
    rw [memoize_off hc]
    exact hleaves
  | some d =>
    cases hv : d key with
    | some v =>
      rw [memoize_hit hc hv]
      exact .ok hs (hhit s d v hs.1 hc hv)
    | none =>
      rw [memoize_miss hc hv]
      rcases hr : fun_ s with ⟨r, s'⟩
      rw [hr] at hleaves
      cases hleaves with
      | error hs' hE => exact .error hs' hE
      | @ok v _ hs' hQ =>
        dsimp only
        split
        · rename_i d' hd'
          obtain ⟨hbound, hnow⟩ := hset s' d' v hs'.1 hd' hQ
          exact .ok ⟨hbound, hs'.2.trans_eq hnow.symm⟩ hQ
        · exact .ok hs' hQ

/-- What a reader returns of `stat`. -/
def Starts (h : LinuxHost) (start : ℚ) : (f : File) → f.Content → Prop
  | .stat, fields => ∀ c, fields.starttime h.clockTicks = .ok c → c = start
  | _, _ => True

theorem Obeys.readBody (hl : h.Lives phase start) (f : File) : Obeys h start (Bare h phase) (Starts h start f) (h.readBody f) := by
  refine .bind (.look hl (by simp)) fun data hdata => .ofExcept (fun c hc => ?_) fun e he n m =>
    Or.inl (excused_of_blameless (blameless_parse f data e he) n m)
  cases f with
  | stat => exact fun t ht => hdata rfl c t hc ht
  | _ => trivial

theorem Obeys.readFile (hl : h.Lives phase start) (f : File) : Obeys h start (Excused h phase) (Starts h start f) (h.readFile f) := fun n s hs => by
  have hmemo : Obeys h start (Bare h phase) (Starts h start f)
      (memoizeWhenActivated Obj.procCache (fun d s => { s with procCache := some d }) f (h.readBody f)) := by
    refine .memoize (fun s d v hb hd hv => ?_) (fun s d v hb hd hQ => ?_) (.readBody hl f)
    · cases f with
      | stat => exact fun c hc => hb.stat d v c hd hv hc
      | _ => trivial
    · refine ⟨⟨hb.pidReused, hb.ident, hb.ctime, fun d' fields c hd' hfields hc => ?_⟩, rfl⟩
      cases hd'
      cases f with
      | stat =>
        rw [Function.update_self, Option.some.injEq] at hfields
        exact hQ c (hfields ▸ hc)
      | status => exact hb.stat d fields c hd (by simpa using hfields) hc
      | smaps => exact hb.stat d fields c hd (by simpa using hfields) hc
  have hleaves := Obeys.wrapExceptions hl hmemo n (s.emit (.ask f)) ⟨hs.1.step _ _, hs.2⟩
  unfold LinuxHost.readFile
  dsimp only
  rcases hr : h.wrapExceptions (memoizeWhenActivated Obj.procCache (fun d s => { s with procCache := some d }) f (h.readBody f))
    (s.emit (.ask f)) with ⟨r, s'⟩
  rw [hr] at hleaves
  cases hleaves with
  | ok hs' hQ => exact .ok ⟨hs'.1.step _ _, hs'.2⟩ hQ
  | error hs' hE => exact .error ⟨hs'.1.step _ _, hs'.2⟩ hE

theorem Obeys.fromFile (hl : h.Lives phase start) (f : File) {value : f.Content → Except Exc Value} (hvalue : ∀ c, Blameless (value c)) :
    Obeys h start (Excused h phase) (fun _ => True) (h.fromFile f value) :=
  .wrapExceptions hl (.bind (Obeys.readFile hl f).bare fun c _ => .ofBlameless (hvalue c))

theorem obeys_createTime (hl : h.Lives phase start) (monotonic : Bool) :
    Obeys h start (Excused h phase) (fun c => monotonic = true → c = start) (Plat.createTime h monotonic) := by
  have hret : ∀ ctime, ctime = start → Obeys h start (Bare h phase) (fun c => monotonic = true → c = start)
      (if monotonic = true then Pure.pure ctime else do return ctime + (← Plat.bootTime h)) := by
    intro ctime hctime
    cases monotonic with
    | true => exact .pure fun _ => hctime
    | false =>
      refine .bind (R := fun _ => True) ?_ fun _ _ => .pure fun h => by cases h
      exact .bind (.look hl (by simp)) fun _ _ => .ofBlameless (blameless_bootTime _ _)
  refine .wrapExceptions hl (.get_bind fun s hs => ?_)
  dsimp only
  split
  · rename_i ctime hctime
    have heq : ctime = start := by
      rcases hs.ctime with hnone | hsome
      · rw [hnone] at hctime
        cases hctime
      · exact Option.some.inj (hctime.symm.trans hsome)
    exact hret ctime heq
  · refine .bind (Obeys.readFile hl .stat).bare fun fields hfields => .bind (R := fun c => c = start) (.ofExcept hfields fun e he n m => ?_)
      fun c hc => .bind (R := fun _ => True) (.modify fun s hs => ⟨⟨hs.pidReused, hs.ident, Or.inr (hc ▸ rfl), hs.stat⟩, rfl⟩) fun _ _ => hret c hc
    exact Or.inl (excused_of_blameless ((Blameless.bind (blameless_float _) fun _ => .ok _) e he) n m)

theorem obeys_memoryFootprint (hl : h.Lives phase start) : Obeys h start (Excused h phase) (fun _ => True) (Plat.memoryFootprint h) := by
  have hsmaps : Obeys h start (Bare h phase) (fun _ => True) (Plat.parseSmaps h) := (Obeys.fromFile hl .smaps fun _ => .ok _).bare
  -- the file of the sums may be missing at any time
  have hrollup : Obeys h start (fun n m e => Bare h phase n m e ∨ ∃ errno, e = .osError errno ∧ errno.isMissing = true) (fun _ => True)
      (Plat.parseSmapsRollup h) := by
    refine .bind (R := fun _ => True) (fun n s hs => ?_) fun data _ => (Obeys.ofBlameless (blameless_rollup data)).mono (fun _ _ _ => Or.inl) fun _ => id
    unfold LinuxHost.look
    cases hr : (h.moment s.now).read Look.smapsRollup.path with
    | ok data => exact .ok ⟨hs.1.step _ _, Nat.le_succ_of_le hs.2⟩ trivial
    | error e =>
      refine .error ⟨hs.1.step _ _, Nat.le_succ_of_le hs.2⟩ ?_
      by_cases hmiss : e.isMissing = true
      · exact Or.inr ⟨e, rfl, hmiss⟩
      · exact Or.inl (Or.inr ⟨e, rfl, fun hm => absurd hm hmiss, fun hden => ⟨s.now, hs.2, Nat.lt_succ_self _, Or.inl ⟨_, e, hr, hden⟩⟩⟩)
  refine .wrapExceptions hl ?_
  split
  · refine hrollup.tryCatch fun e => ?_
    split
    · exact Or.inr hsmaps
    · exact Or.inr hsmaps
    · rename_i hne1 hne2
      refine Or.inl ⟨_, rfl, fun n m he => he.resolve_right ?_⟩
      rintro ⟨errno, rfl, hmiss⟩
      cases errno <;> simp_all [Errno.isMissing]
  · exact hsmaps

/-- `_raise_if_zombie` after an empty file. -/
theorem obeys_raiseIfZombie (hl : h.Lives phase start) : Obeys h start (Bare h phase) (fun _ => True) h.raiseIfZombie := fun n s hs => by
  have hs' : Obj.Bound h start (h.look .zombie s).2 ∧ n ≤ (h.look .zombie s).2.now := ⟨hs.1.step _ _, Nat.le_succ_of_le hs.2⟩
  cases hp : phase s.now with
  | running =>
    rw [LinuxHost.raiseIfZombie, bind_run, isZombie_eq]
    cases hr : (h.moment s.now).read (.file .stat) with
    | ok data =>
      simp only [hl.running _ _ hr hp]
      exact .ok hs' trivial
    | error e => exact .ok hs' trivial
  | zombie =>
    rcases raiseIfZombie_dead hl (s := s) (by simp [hp]) with ⟨hr, hz⟩ | ⟨-, hg⟩
    · rw [hr]
      exact .error hs' (Or.inl ⟨rfl, s.now, hs.2, Nat.lt_succ_self _, hz⟩)
    · simp [hg] at hp
  | gone =>
    rcases raiseIfZombie_dead hl (s := s) (by simp [hp]) with ⟨-, hz⟩ | ⟨hr, -⟩
    · simp [hz] at hp
    · rw [hr]
      exact .ok hs' trivial

theorem obeys_memoryMaps (hl : h.Lives phase start) : Obeys h start (Excused h phase) (fun _ => True) (Plat.memoryMaps h) := by
  refine .wrapExceptions hl (.bind (Obeys.readFile hl .smaps).bare fun data _ => ?_)
  split
  · exact .bind (obeys_raiseIfZombie hl) fun _ _ => .pure trivial
  · intro n s hs
    have hfails := memoryMaps_fails h.pathExistsStrict s.now data
    unfold Plat.mapsBlocks
    rcases hr : Psutil.memoryMaps h.pathExistsStrict s.now data with ⟨r, now⟩
    rw [hr] at hfails
    have hs' : Obj.Bound h start { s with now := now } ∧ n ≤ now := ⟨hs.1.step _ _, hs.2.trans hfails.1⟩
    cases r with
    | ok regions => exact .ok hs' trivial
    | error e =>
      refine .error hs' ?_
      rcases hfails.2 e rfl with he | ⟨k, path, hk, hk', hex⟩
      · exact Or.inl (excused_of_blameless he _ _)
      · -- `path_exists_strict` was denied an answer
        have hden : ∃ errno, e = .osError errno ∧ errno.isMissing = false ∧ (h.moment k).osStat path = .error errno ∧ errno.isDenied = true := by
          unfold LinuxHost.pathExistsStrict at hex
          split at hex <;> cases hex
          · exact ⟨_, rfl, rfl, ‹_›, rfl⟩
          · exact ⟨_, rfl, rfl, ‹_›, rfl⟩
        obtain ⟨errno, rfl, hmiss, hstat, hdenied⟩ := hden
        refine Or.inr ⟨errno, rfl, fun hm => ?_, fun _ => ⟨k, hs.2.trans hk, hk', Or.inr ⟨path, errno, hstat, hdenied⟩⟩⟩
        rw [hmiss] at hm
        cases hm

/-! ## The methods of `psutil.Process` -/

theorem obeys_memoized {g : Getter} {x : Py Value} {E : Nat → Nat → Exc → Prop} (hx : Obeys h start E (fun _ => True) x) :
    Obeys h start E (fun _ => True) (PyProcess.memoized g x) :=
  .memoize (fun _ _ _ _ _ _ => trivial) (fun _ _ _ hb _ _ => ⟨⟨hb.pidReused, hb.ident, hb.ctime, hb.stat⟩, rfl⟩) hx

/-- The second object finds the same start. -/
theorem obeys_otherIdent (hl : h.Lives phase start) :
    Obeys h start (Excused h phase) (fun c => c = none ∨ c = some start) (PyProcess.otherIdent h) := by
  refine Obeys.tryCatch (F := Excused h phase) ?_ fun e => ?_
  · refine .bind (R := fun c => c = start) (.wrapExceptions hl (.bind (R := Starts h start .stat) ?_ fun fields hfields => .ofExcept hfields
      fun e he n m => Or.inl (excused_of_blameless ((Blameless.bind (blameless_float _) fun _ => .ok _) e he) n m))) fun c hc => .pure (Or.inr (hc ▸ rfl))
    refine (Obeys.wrapExceptions hl (.bind (.look hl (by simp)) fun data hdata => .ofExcept (fun fields hf c hc => hdata rfl fields c hf hc)
      fun e he n m => Or.inl (excused_of_blameless (blameless_parse .stat data e he) n m))).bare
  · split
    · exact Or.inr (.pure (Or.inl rfl))
    · exact Or.inr (.pure (Or.inl rfl))
    · exact Or.inl ⟨_, rfl, fun n m he => ⟨rfl, he.2⟩⟩
    · exact Or.inl ⟨_, rfl, fun _ _ => id⟩

theorem differ_bound {s : Obj} (hs : s.Bound h start) {other : Option ℚ} (hother : other = none ∨ other = some start) :
    PyProcess.differ s.ident other = false := by
  rcases hs.ident with h | h <;> rcases hother with rfl | rfl <;> simp [PyProcess.differ, h]

theorem obeys_isRunning (hl : h.Lives phase start) : Obeys h start (Excused h phase) (fun _ => True) (PyProcess.isRunning h) := by
  refine .get_bind fun s hs => ?_
  split
  · exact .pure trivial
  · refine Obeys.tryCatch (F := Excused h phase) (.bind (obeys_otherIdent hl) fun other hother => .bind (R := fun _ => True) (.modify fun s hs =>
      ⟨⟨differ_bound hs hother, hs.ident, hs.ctime, hs.stat⟩, rfl⟩) fun _ _ => .get_bind fun s hs => ?_) fun e => ?_
    · simp only [hs.pidReused]
      exact .pure trivial
    · split
      · exact Or.inr (.pure trivial)
      · exact Or.inr (.bind (R := fun _ => True) (.modify fun s hs => ⟨⟨hs.pidReused, hs.ident, hs.ctime, hs.stat⟩, rfl⟩) fun _ _ => .pure trivial)
      · exact Or.inl ⟨_, rfl, fun _ _ => id⟩

theorem obeys_raiseIfPidReused (hl : h.Lives phase start) : Obeys h start (Excused h phase) (fun _ => True) (PyProcess.raiseIfPidReused h) := by
  refine .get_bind fun s hs => ?_
  simp only [hs.pidReused]
  refine .bind (obeys_isRunning hl) fun running _ => .get_bind fun s hs => ?_
  simp only [hs.pidReused, Bool.and_false]
  exact .pure trivial

/-- **What a getter raises is an excuse** that holds while it runs. -/
theorem obeys_getter (hl : h.Lives phase start) (g : Getter) : Obeys h start (Excused h phase) (fun _ => True) (g.run h) := by
  cases g with
  | ppid =>
    exact obeys_memoized (.bind (obeys_raiseIfPidReused hl) fun _ _ => .fromFile hl .stat fun _ => .bind (blameless_int _) fun _ => .ok _)
  | status =>
    refine Obeys.tryCatch (F := Excused h phase) (.fromFile hl .stat fun _ => .bind (blameless_decode _) fun _ => .ok _) fun e => ?_
    split
    · exact Or.inr (.pure trivial)
    · exact Or.inl ⟨_, rfl, fun _ _ => id⟩
  | cpuTimes => exact obeys_memoized (.fromFile hl .stat (blameless_cpuTimesOf _))
  | cpuNum => exact .fromFile hl .stat fun _ => .bind (blameless_int _) fun _ => .ok _
  | pageFaults => exact .fromFile hl .stat fun _ => .bind (blameless_int _) fun _ => .bind (blameless_int _) fun _ => .ok _
  | createTime =>
    refine .get_bind fun s hs => ?_
    split
    · exact .pure trivial
    · exact .bind (obeys_createTime hl false) fun t _ => .bind (R := fun _ => True)
        (.modify fun s hs => ⟨⟨hs.pidReused, hs.ident, hs.ctime, hs.stat⟩, rfl⟩) fun _ _ => .pure trivial
  | uids => exact obeys_memoized (.fromFile hl .status (blameless_firstIds _))
  | gids => exact .fromFile hl .status (blameless_firstIds _)
  | numThreads => exact .fromFile hl .status blameless_numThreads
  | numCtxSwitches => exact .fromFile hl .status (blameless_numCtxSwitches _)
  | memoryFootprint => exact obeys_memoryFootprint hl
  | memoryMaps grouped => exact .bind (obeys_memoryMaps hl) fun _ _ => .pure trivial

/-! ## Programs -/

/-- `P` holds of every call of a program, in the state of the object when it is made. -/
def Prog.EveryCall (h : LinuxHost) (P : Getter → Obj → Prop) : Prog → Obj → Prop
  | .ret _, _ | .raise _, _ => True
  | .call g k, s =>
    let s := s.emit (.call g)
    let r := g.run h s
    P g s ∧ (k r.1).EveryCall h P (r.2.emit (.ret g r.1))
  | .oneshot body k, s =>
    let s := s.emit .enter
    if s.cache.isSome then
      let r := body.run h s
      body.EveryCall h P s ∧ (k r.1).EveryCall h P (r.2.emit .leave)
    else
      let r := body.run h (oneshotEnter s)
      body.EveryCall h P (oneshotEnter s) ∧ (k r.1).EveryCall h P ((oneshotExit r.2).emit .leave)

/-- What a call raises is an excuse that holds between its beginning and its end. -/
def Truthful (h : LinuxHost) (phase : Nat → Life) (g : Getter) (s : Obj) : Prop :=
  ∀ e, (g.run h s).1 = .error e → Excused h phase s.now (g.run h s).2.now e

theorem Leaves.bound {E : Nat → Nat → Exc → Prop} {n : Nat} {r : Except Exc α} {s : Obj} (hr : Leaves h start E Q n r s) : s.Bound h start := by
  cases hr with
  | ok hs _ | error hs _ => exact hs.1

theorem bound_getter (hl : h.Lives phase start) {s : Obj} (hs : s.Bound h start) (g : Getter) : (g.run h s).2.Bound h start :=
  (obeys_getter hl g s.now s ⟨hs, Nat.le_refl _⟩).bound

theorem truthful_getter (hl : h.Lives phase start) {s : Obj} (hs : s.Bound h start) (g : Getter) : Truthful h phase g s := by
  intro e he
  have hleaves := obeys_getter hl g s.now s ⟨hs, Nat.le_refl _⟩
  rw [he] at hleaves
  cases hleaves with
  | error _ hE => exact hE

theorem Obj.Bound.enter {s : Obj} (hs : s.Bound h start) : (oneshotEnter s).Bound h start :=
  ⟨hs.pidReused, hs.ident, hs.ctime, fun d fields c hd hfields => by cases hd; cases hfields⟩

theorem Obj.Bound.exit {s : Obj} (hs : s.Bound h start) : (oneshotExit s).Bound h start :=
  ⟨hs.pidReused, hs.ident, hs.ctime, fun d fields c hd => by cases hd⟩

/-- A program keeps the object bound, and each of its calls is truthful. -/
theorem Prog.truthful (hl : h.Lives phase start) (prog : Prog) {s : Obj} (hs : s.Bound h start) :
    (prog.run h s).2.Bound h start ∧ prog.EveryCall h (Truthful h phase) s := by
  induction prog generalizing s with
  | ret vs => exact ⟨hs, trivial⟩
  | raise e => exact ⟨hs, trivial⟩
  | call g k ih =>
    have hcall : (s.emit (.call g)).Bound h start := hs.step _ _
    have hafter := ih (g.run h (s.emit (.call g))).1 (s := (g.run h (s.emit (.call g))).2.emit (.ret g (g.run h (s.emit (.call g))).1))
      ((bound_getter hl hcall g).step _ _)
    exact ⟨hafter.1, truthful_getter hl hcall g, hafter.2⟩
  | oneshot body k ihbody ihk =>
    have henter : (s.emit .enter).Bound h start := hs.step _ _
    simp only [Prog.run, Prog.EveryCall]
    split_ifs
    · -- a nested block
      have hbody := ihbody henter
      have hafter := ihk (body.run h (s.emit .enter)).1 (s := (body.run h (s.emit .enter)).2.emit .leave) (hbody.1.step _ _)
      exact ⟨hafter.1, hbody.2, hafter.2⟩
    · have hbody := ihbody henter.enter
      have hafter := ihk (body.run h (oneshotEnter (s.emit .enter))).1
        (s := (oneshotExit (body.run h (oneshotEnter (s.emit .enter))).2).emit .leave) (hbody.1.exit.step _ _)
      exact ⟨hafter.1, hbody.2, hafter.2⟩

theorem obeys_initObj (hl : h.Lives phase start) (ignoreNsp : Bool) : Obeys h start (Excused h phase) (fun _ => True) (initObj h ignoreNsp) := by
  unfold initObj
  rw [if_neg (Nat.not_lt.2 hl.pid_le)]
  refine Obeys.tryCatch (F := Excused h phase) (.bind (obeys_createTime hl true) fun c hc => .modify fun s hs =>
    ⟨⟨hs.pidReused, Or.inr (hc rfl ▸ rfl), hs.ctime, hs.stat⟩, rfl⟩) fun e => ?_
  split
  · exact Or.inr (.pure trivial)
  · exact Or.inr (.pure trivial)
  · cases ignoreNsp with
    | true => exact Or.inr (.modify fun s hs => ⟨⟨hs.pidReused, hs.ident, hs.ctime, hs.stat⟩, rfl⟩)
    | false => exact Or.inl ⟨_, rfl, fun n m he => ⟨rfl, he.2⟩⟩
  · exact Or.inl ⟨_, rfl, fun _ _ => id⟩

/-- **Every exception of a program is an excuse that holds**, whenever the process exits and is reaped: the constructor's, and
that of each getter at the time of its call. -/
theorem session_truthful (hl : h.Lives phase start) (ignoreNsp : Bool) (prog : Prog) :
    (∀ e, (initObj h ignoreNsp blankObj).1 = .error e → Excused h phase 0 (initObj h ignoreNsp blankObj).2.now e) ∧
      prog.EveryCall h (Truthful h phase) (initObj h ignoreNsp blankObj).2 := by
  have hblank : blankObj.Bound h start := ⟨rfl, Or.inl rfl, Or.inl rfl, fun d fields c hd => by cases hd⟩
  have hinit := obeys_initObj hl ignoreNsp 0 blankObj ⟨hblank, Nat.le_refl _⟩
  refine ⟨fun e he => ?_, (prog.truthful hl hinit.bound).2⟩
  rw [he] at hinit
  cases hinit with
  | error _ hE => exact hE

end

/-! ### A process that exits after five looks and is reaped after nine -/

theorem running_letter : (byte 'A' ≤ byte 'R' ∧ byte 'R' ≤ byte 'Z') ∨ (byte 'a' ≤ byte 'R' ∧ byte 'R' ≤ byte 'z') := by decide

theorem zombie_letter : (byte 'A' ≤ byte 'Z' ∧ byte 'Z' ≤ byte 'Z') ∨ (byte 'a' ≤ byte 'Z' ∧ byte 'Z' ≤ byte 'z') := by decide

def catRunning : ProcStat where
  pid := 7
  comm := ascii "cat"
  state := byte 'R'
  fields := List.replicate 18 1 ++ 500 :: List.replicate 30 1
  state_letter := running_letter
  length_fields := by decide

def catZombie : ProcStat := { catRunning with state := byte 'Z', state_letter := zombie_letter }

def catPhase (k : Nat) : Life := if k < 5 then .running else if k < 9 then .zombie else .gone

def catHost : LinuxHost where
  pid := 7
  procfsPath := "/proc"
  clockTicks := 100
  hasSmapsRollup := false
  moment k :=
    { read := fun path => match path, catPhase k with
        | .bootTime, _ => .ok (ascii "btime 1000\n")
        | .file .stat, .running => .ok catRunning.text
        | .file .stat, .zombie => .ok catZombie.text
        | _, .running => .ok (ascii "Threads:\t1\n")
        | _, _ => .error .esrch
      statExists := catPhase k ≠ .gone
      osStat := fun _ => .ok () }

theorem catHost_lives : catHost.Lives catPhase 5 where
  pid_le := by decide
  forward k := by
    unfold catPhase
    split_ifs <;> first | decide | omega
  missing k path e he hmiss := by
    dsimp only [catHost] at he
    cases hp : catPhase k <;> rw [hp] at he <;> revert he <;> rcases path with (_ | _ | _) | _ | _ <;> simp
  running k data hread hp := by
    dsimp only [catHost] at hread
    rw [hp] at hread
    cases hread
    exact Bool.eq_false_iff.2 fun hz => absurd (catRunning.showsZombie_text.1 hz) (by decide)
  zombie k hp := by
    refine ⟨catZombie.text, ?_, catZombie.showsZombie_text.2 rfl⟩
    dsimp only [catHost]
    rw [hp]
  gone k hp := by
    refine ⟨.esrch, ?_⟩
    dsimp only [catHost]
    rw [hp]
  statExists k := by simp [catHost]
  starttime k data fields c hread hparse hc := by
    have htext : data = catRunning.text ∨ data = catZombie.text := by
      dsimp only [catHost] at hread
      cases hp : catPhase k <;> rw [hp] at hread <;> cases hread <;> simp
    rcases htext with rfl | rfl
    · rw [ProcStat.parse_text] at hparse
      cases hparse
      exact Except.ok.inj (hc.symm.trans (by decide +kernel))
    · rw [ProcStat.parse_text] at hparse
      cases hparse
      exact Except.ok.inj (hc.symm.trans (by decide +kernel))

/-- A look before a block, a block with two getters, and one more getter. -/
def catProg : Prog :=
  .call .numThreads fun _ => .oneshot (.call .ppid fun _ => .call .numThreads fun _ => .ret []) fun _ => .call .cpuNum fun _ => .ret []

/-- The last getters find a zombie, then no process. -/
theorem session_truthful_cat : (∀ e, (initObj catHost false blankObj).1 = .error e → Excused catHost catPhase 0 (initObj catHost false blankObj).2.now e) ∧
    catProg.EveryCall catHost (Truthful catHost catPhase) (initObj catHost false blankObj).2 :=
  session_truthful catHost_lives false catProg

end Psutil.Oneshot
