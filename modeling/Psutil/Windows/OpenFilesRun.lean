import Psutil.Windows.OpenFilesSpec

/-!
# Runs of `psutil_get_open_files`

`open_files_protocol`: what holds in every run, whatever the workers, the system and the timers do. `left` bounds the steps
that the main thread can still take, and it is never stuck.
-/

namespace Psutil.OpenFiles

open Lib Ledger

/-- A worker that still runs and was not leaked. -/
def State.Attached (s : State) (k : Nat) : Prop :=
  (s.workers k).thread ≠ .exited ∧ status s.log (.worker k) ≠ .abandoned

/-- Worker `k` runs, and what it was asked last may still write to buffer `b`. -/
def State.MayWrite (s : State) (k b : Nat) : Prop :=
  match (s.workers k).thread with
  | .waiting => (s.workers k).startEvent = true ∧ (s.workers k).quit = false ∧ b = (s.workers k).fileName
  | .fileType | .standard | .basic | .name => b = (s.workers k).fileName
  | .query _ fileName _ => b = fileName
  | .store _ | .signal | .exited => False

def Ev.isMain : Ev → Bool
  | .main _ => true
  | .worker _ _ => false

/-- A bound on the steps the main thread still takes, with `n` entries to come. -/
def MainPc.left (n : Nat) : MainPc → Nat
  | .loop _ => 65 * n + 5
  | .alloc _ _ attempts _ => 65 * n + 13 + 6 * attempts
  | .ensure _ q => 65 * n + 12 + 6 * q.attempts
  | .submit _ q => 65 * n + 11 + 6 * q.attempts
  | .start _ q => 65 * n + 10 + 6 * q.attempts
  | .wait _ q => 65 * n + 9 + 6 * q.attempts
  | .kill _ q | .reply _ q => 65 * n + 8 + 6 * q.attempts
  | .join _ q => 65 * n + 7 + 6 * q.attempts
  | .append _ _ _ => 65 * n + 7
  | .cleanup _ _ _ => 65 * n + 6
  | .exit _ _ _ => 4
  | .quit _ _ _ => 3
  | .joinQuit _ _ _ => 2
  | .rest _ _ => 1
  | .finished => 0

def State.left (s : State) : Nat := s.pc.left s.entries.length

section

variable (fileTypeIndex : Nat) (entries : List Entry) (es : List Ev)

/-- The steps of a run. -/
def traceOf : List (Line State Ev Bool) := (machine fileTypeIndex).trace (.init entries) es

/-- The state after a run. -/
def after : State := (machine fileTypeIndex).run (.init entries) es

/-- How many steps the main thread has taken. -/
def mainSteps : Nat := ((traceOf fileTypeIndex entries es).filter fun l => l.ev.isMain && l.out).length

structure Protocol : Prop where
  /-- Every path is what the query of its own handle has found. -/
  attributed : ∀ f ∈ (after fileTypeIndex entries es).retlist, f.source = f.handle
  oneWorker : ∀ j k, (after fileTypeIndex entries es).Attached j → (after fileTypeIndex entries es).Attached k → j = k
  /-- In the end everything was closed or freed exactly once, or leaked instead. -/
  settled : (after fileTypeIndex entries es).pc = .finished → ∀ r, .acquire r ∈ (after fileTypeIndex entries es).log →
    (after fileTypeIndex entries es).log.count (.release r) + (after fileTypeIndex entries es).log.count (.abandon r) = 1
  /-- At any time nothing was closed, freed or leaked twice. -/
  settledOnce : ∀ r,
    (after fileTypeIndex entries es).log.count (.release r) + (after fileTypeIndex entries es).log.count (.abandon r) ≤ 1
  /-- Something is leaked only where a thread has survived its termination. -/
  leaks : ∀ l ∈ traceOf fileTypeIndex entries es, ∀ r,
    l.pre.log.count (.abandon r) < ((machine fileTypeIndex).step l.pre l.ev).1.log.count (.abandon r) →
      ∃ w q, l.pre.pc = .join w q ∧ (l.pre.workers w).thread ≠ .exited
  /-- The main thread does not touch again what it has leaked. -/
  untouched : ∀ newer r older, (after fileTypeIndex entries es).log = newer ++ .abandon r :: older →
    ∀ op ∈ newer, op.res = r → op = .peer r
  /-- Nobody touches again what was closed or freed. -/
  notAfterFree : ∀ newer r older, (after fileTypeIndex entries es).log = newer ++ .release r :: older →
    ∀ op ∈ newer, op.res ≠ r
  /-- No buffer was freed that a worker may still write to. -/
  notFreed : ∀ k b, (after fileTypeIndex entries es).MayWrite k b →
    status (after fileTypeIndex entries es).log (.name b) ≠ .released
  /-- The main thread takes a bounded number of steps. -/
  bounded : mainSteps fileTypeIndex entries es ≤ 65 * entries.length + 5
  /-- Unless it is through, it can take one, after one step of a worker at most. -/
  progress : (after fileTypeIndex entries es).pc ≠ .finished → ∃ wait, (∀ e ∈ wait, e.isMain = false) ∧ wait.length ≤ 1 ∧
    ∃ ok, ((machine fileTypeIndex).step ((machine fileTypeIndex).run (after fileTypeIndex entries es) wait) (.main ok)).2 = true

end

namespace State

variable {s : State} {fileTypeIndex : Nat}

/-! ## What the invariant says -/

theorem Inv.attached_eq (hs : s.Inv) {k : Nat} (hk : s.Attached k) : s.pc.worker = some k := by
  by_contra hcur
  exact hk.2 (hs.others k hk.1 hcur).worker

/-- The worker that was asked has the buffer of the main thread. -/
theorem Inv.asked (hs : s.Inv) {k : Nat} (hcur : s.pc.worker = some k)
    (hstart : (s.workers k).startEvent = true) (hquit : (s.workers k).quit = false) :
    s.pc.name = some (s.workers k).fileName := by
  have hc := hs.control k hcur
  have hidle : ¬(s.workers k).Idle := fun hi => by simp [hi.startEvent] at hstart
  cases hp : s.pc <;> rw [hp] at hc hcur <;> simp only [MainPc.Fits] at hc
  case loop | alloc | ensure | exit | submit | reply | append | cleanup => exact absurd hc hidle
  case start => exact absurd hc.1 hidle
  case wait | kill => exact congrArg some hc.1.fileName.symm
  case join => exact congrArg some hc.2.1.symm
  case quit => simp [hc.2.1] at hstart
  case joinQuit => simp [hc.1] at hquit
  case rest | finished => cases hcur

theorem Inv.notFreed (hs : s.Inv) {k b : Nat} (h : s.MayWrite k b) : status s.log (.name b) ≠ .released := by
  have halive : (s.workers k).thread ≠ .exited := by
    intro hexit
    simp [MayWrite, hexit] at h
  have hb : b = (s.workers k).fileName := by
    unfold MayWrite at h
    split at h
    · exact h.2.2
    · exact h
    · exact h
    · exact h
    · exact h
    · rename_i ht
      exact h.trans (hs.sane k _ _ _ ht).2
    all_goals exact h.elim
  subst hb
  by_cases hcur : s.pc.worker = some k
  · have hname : s.pc.name = some (s.workers k).fileName := by
      by_cases hwaiting : (s.workers k).thread = .waiting
      · simp only [MayWrite, hwaiting] at h
        exact hs.asked hcur h.1 h.2.1
      · exact (hs.serving hcur ⟨hwaiting, halive⟩).2
    rw [(hs.owns.live (.name _)).2 hname]
    decide
  · rw [(hs.others k halive hcur).name]
    decide

theorem Inv.settled (hs : s.Inv) (hp : s.pc = .finished) (r : Res) : status s.log r ≠ .live := by
  intro hlive
  have hown := (hs.owns.live r).1 hlive
  rw [hp] at hown
  cases r <;> cases hown

/-! ## What a step of the main thread comes to -/

/-- A step leaks nothing, but for the one in which a thread has survived its termination. -/
def LeaksOf (s s' : State) : Prop :=
  ∀ r, s'.log.count (.abandon r) = s.log.count (.abandon r) ∨ ∃ w q, s.pc = .join w q ∧ (s.workers w).thread ≠ .exited

/-- There is no step, or the main thread gets nearer to its end. -/
structure MainOk (s : State) (out : State × Bool) : Prop where
  left : out = (s, false) ∨ out.2 = true ∧ out.1.left < s.left
  leaks : LeaksOf s out.1

theorem MainOk.stay {s : State} : MainOk s (s, false) := ⟨Or.inl rfl, fun _ => Or.inl rfl⟩

/-- A step that abandons nothing. -/
theorem MainOk.move {s s' : State} (hleft : s'.left < s.left) (hlog : ∀ r, s'.log.count (.abandon r) = s.log.count (.abandon r)) :
    MainOk s (s', true) :=
  ⟨Or.inr ⟨rfl, hleft⟩, fun r => Or.inl (hlog r)⟩

/-- The next entry. -/
theorem mainStep_loop {s : State} {worker : Option Nat} (hpc : s.pc = .loop worker) (fileTypeIndex : Nat) (ok : Bool) :
    MainOk s (s.mainStep fileTypeIndex ok) := by
  obtain ⟨pc, entries, retlist, error, workers, buffers, ids, log⟩ := s
  obtain rfl : pc = .loop worker := hpc
  cases entries with
  | nil => exact .move (by simp [goto, State.left, MainPc.left]) fun r => rfl
  | cons entry entries =>
    simp only [mainStep]
    split_ifs
    · refine .move ?_ fun r => rfl
      simp only [State.left, MainPc.left, List.length_cons]
      omega
    · refine .move ?_ fun r => rfl
      simp only [State.left, MainPc.left, List.length_cons]
      omega
    · refine .move ?_ fun r => by simp [goto, note]
      simp only [goto, note, State.left, MainPc.left, List.length_cons]
      omega

/-- After a termination: what the thread has is abandoned, if it is still there. -/
theorem mainStep_join {s : State} {w : Nat} {q : Query} (hpc : s.pc = .join w q) (fileTypeIndex : Nat) (ok : Bool) :
    MainOk s (s.mainStep fileTypeIndex ok) := by
  obtain ⟨pc, entries, retlist, error, workers, buffers, ids, log⟩ := s
  obtain rfl : pc = .join w q := hpc
  simp only [mainStep]
  split_ifs with hblocked hok
  · exact .stay
  · refine .move ?_ fun r => by simp [goto, note]
    simp only [goto, note, State.left, MainPc.left]
    omega
  · refine ⟨Or.inr ⟨rfl, ?_⟩, fun r => Or.inr ⟨w, q, rfl, by simpa [hok] using hblocked⟩⟩
    simp only [goto, note, State.left, MainPc.left]
    omega

/-- The path of the file. -/
theorem mainStep_append {s : State} {w hFile fileName : Nat} (hpc : s.pc = .append w hFile fileName) (fileTypeIndex : Nat) (ok : Bool) :
    MainOk s (s.mainStep fileTypeIndex ok) := by
  obtain ⟨pc, entries, retlist, error, workers, buffers, ids, log⟩ := s
  obtain rfl : pc = .append w hFile fileName := hpc
  simp only [mainStep, note]
  cases buffers fileName <;> simp only
  · exact .move (by simp [goto, State.left, MainPc.left]) fun r => by simp [goto]
  · split_ifs <;> refine .move ?_ (fun r => by simp [goto, fail]) <;>
      simp only [goto, fail, State.left, MainPc.left] <;> omega

theorem mainStep_ok (s : State) (fileTypeIndex : Nat) (ok : Bool) : MainOk s (s.mainStep fileTypeIndex ok) := by
  obtain ⟨pc, entries, retlist, error, workers, buffers, ids, log⟩ := s
  cases pc with
  | loop worker => exact mainStep_loop rfl fileTypeIndex ok
  | join w q => exact mainStep_join rfl fileTypeIndex ok
  | append w hFile fileName => exact mainStep_append rfl fileTypeIndex ok
  | alloc | reply =>
    simp only [mainStep]
    split_ifs <;> refine .move ?_ (fun r => by simp [goto, note, fail]) <;>
      simp only [goto, note, fail, State.left, MainPc.left] <;> omega
  | ensure worker q =>
    cases worker with
    | some w => exact .move (by simp [goto, State.left, MainPc.left]) fun r => rfl
    | none =>
      simp only [mainStep]
      split_ifs <;> refine .move ?_ (fun r => by simp [goto, note, fail, setWorker]) <;>
        simp only [goto, note, fail, setWorker, State.left, MainPc.left] <;> omega
  | exit worker file name =>
    cases worker <;>
      exact .move (by simp [goto, note, setWorker, State.left, MainPc.left]) fun r => by simp [goto, note, setWorker]
  | rest file name =>
    refine .move (by simp [goto, State.left, MainPc.left]) fun r => ?_
    cases file <;> cases name <;> simp
  | finished => exact .stay
  | submit | start | kill | cleanup | quit =>
    exact .move (by simp [goto, note, setWorker, State.left, MainPc.left]) fun r => by simp [goto, note, setWorker]
  | wait | joinQuit =>
    simp only [mainStep]
    split_ifs
    all_goals first
      | exact .stay
      | exact .move (by simp [goto, note, setWorker, State.left, MainPc.left]) fun r => by simp [goto, note, setWorker]

theorem workerStep_left (s : State) (k : Nat) (ev : WorkerEv) : (s.workerStep k ev).1.left = s.left := by
  unfold workerStep
  cases (s.workers k).act ev <;> rfl

theorem workerStep_leaks (s : State) (k : Nat) (ev : WorkerEv) : LeaksOf s (s.workerStep k ev).1 := by
  intro r
  left
  unfold workerStep
  cases (s.workers k).act ev with
  | none => rfl
  | some w' =>
    show ((s.workers k).uses k ev ++ s.log).count (.abandon r) = _
    have hpeers : ((s.workers k).uses k ev).count (.abandon r) = 0 := by
      rw [List.count_eq_zero]
      cases ev with
      | run yes => cases ht : (s.workers k).thread <;> simp [Worker.uses, ht]
      | complete => cases ht : (s.workers k).thread <;> simp [Worker.uses, ht]
      | die => simp [Worker.uses]
    rw [List.count_append, hpeers, Nat.zero_add]

/-- The main thread is never stuck: the worker that it waits for is on its way out. -/
theorem Inv.progress (hs : s.Inv) (hp : s.pc ≠ .finished) : ∃ wait : List Ev, (∀ e ∈ wait, e.isMain = false) ∧ wait.length ≤ 1 ∧
    ∃ ok, ((machine fileTypeIndex).step ((machine fileTypeIndex).run s wait) (.main ok)).2 = true := by
  have hnow : ∀ ok, (s.mainStep fileTypeIndex ok).2 = true → ∃ wait : List Ev, (∀ e ∈ wait, e.isMain = false) ∧
      wait.length ≤ 1 ∧ ∃ ok, ((machine fileTypeIndex).step ((machine fileTypeIndex).run s wait) (.main ok)).2 = true :=
    fun ok h => ⟨[], by simp, by simp, ok, h⟩
  have hc := hs.control
  cases hpc : s.pc with
  | finished => exact absurd hpc hp
  | join w q =>
    apply hnow (decide ((s.workers w).thread = .exited))
    by_cases hexit : (s.workers w).thread = .exited <;> simp [State.mainStep, hpc, hexit]
  | joinQuit w file name =>
    rw [hpc] at hc
    obtain ⟨hquit, -, ⟨hthread, hstart⟩ | hexit⟩ : (MainPc.joinQuit w file name).Fits (s.workers w) := hc w rfl
    · have hact : (s.workers w).act (.run true) = some { s.workers w with startEvent := false, thread := .exited } := by
        simp [Worker.act, hthread, hstart, hquit]
      refine ⟨[.worker w (.run true)], by simp [Ev.isMain], by simp, true, ?_⟩
      show ((s.workerStep w (.run true)).1.mainStep fileTypeIndex true).2 = true
      simp [State.workerStep, hact, State.mainStep, setWorker, hpc]
    · apply hnow true
      simp [State.mainStep, hpc, hexit]
  | loop worker =>
    apply hnow false
    cases hentries : s.entries <;> simp only [State.mainStep, hpc, hentries]
    split_ifs <;> rfl
  | ensure worker q =>
    apply hnow false
    cases worker <;> simp [State.mainStep, hpc]
  | exit worker file name =>
    apply hnow false
    cases worker <;> simp [State.mainStep, hpc]
  | append w hFile fileName =>
    apply hnow false
    simp only [State.mainStep, hpc, note]
    cases s.buffers fileName <;> simp only
    split_ifs <;> rfl
  | reply w q =>
    apply hnow false
    simp only [State.mainStep, hpc]
    split_ifs <;> rfl
  | alloc | submit | start | wait | kill | cleanup | quit | rest => exact hnow false (by simp [State.mainStep, hpc])

end State

theorem mainSteps_le (fileTypeIndex : Nat) : ∀ (es : List Ev) (s : State),
    (((machine fileTypeIndex).trace s es).filter fun l => l.ev.isMain && l.out).length +
      ((machine fileTypeIndex).run s es).left ≤ s.left
  | [], s => by simp [Machine.trace, Machine.run]
  | e :: es, s => by
    have ih := mainSteps_le fileTypeIndex es ((machine fileTypeIndex).step s e).1
    rw [Machine.trace, Machine.run_cons, List.filter_cons]
    cases e with
    | worker k ev =>
      have hleft : ((machine fileTypeIndex).step s (.worker k ev)).1.left = s.left := s.workerStep_left k ev
      rw [if_neg (by simp [Ev.isMain])]
      omega
    | main ok =>
      rcases (s.mainStep_ok fileTypeIndex ok).left with hout | ⟨hflag, hleft⟩
      · have hstep : (machine fileTypeIndex).step s (.main ok) = (s, false) := hout
        rw [hstep] at ih ⊢
        rw [if_neg (by simp)]
        exact ih
      · have hstep : ((machine fileTypeIndex).step s (.main ok)).1.left < s.left := hleft
        have hout : ((machine fileTypeIndex).step s (.main ok)).2 = true := hflag
        rw [if_pos (by simp [Ev.isMain, hout]), List.length_cons]
        omega

/-- **The protocol of the worker**, in every run, for every list of handles. -/
theorem open_files_protocol (fileTypeIndex : Nat) (entries : List Entry) (es : List Ev) : Protocol fileTypeIndex entries es := by
  have hinv : (after fileTypeIndex entries es).Inv :=
    (machine fileTypeIndex).run_inv (fun s e hs => hs.step fileTypeIndex e) (State.inv_init entries) es
  have hlegal := hinv.owns.legal
  constructor
  · exact hinv.found
  · intro j k hj hk
    exact Option.some.inj ((hinv.attached_eq hj).symm.trans (hinv.attached_eq hk))
  · intro hp r hr
    exact (hlegal.settled hr (hinv.settled hp r)).2
  · exact hlegal.settled_le
  · intro l _ r hlt
    have hleaks : State.LeaksOf l.pre ((machine fileTypeIndex).step l.pre l.ev).1 := by
      cases l.ev with
      | main ok => exact (l.pre.mainStep_ok fileTypeIndex ok).leaks
      | worker k ev => exact l.pre.workerStep_leaks k ev
    exact (hleaks r).resolve_left (Nat.ne_of_gt hlt)
  · intro newer r older hlog op hop hres
    exact (hlog ▸ hlegal).after_abandon hop hres
  · intro newer r older hlog op hop
    exact (hlog ▸ hlegal).after_release hop
  · exact fun k b => hinv.notFreed
  · have hle := mainSteps_le fileTypeIndex es (.init entries)
    have hinit : (State.init entries).left = 65 * entries.length + 5 := rfl
    unfold mainSteps traceOf
    omega
  · exact hinv.progress

/-- The query of the first file is late, and its thread survives: the next file has its own worker and its own path. -/
example : (after 1 [⟨4, 1⟩, ⟨8, 1⟩] ([.main true, .main true, .main true, .main true, .main true, .worker 2 (.run true),
    .worker 2 (.run true), .worker 2 (.run true), .worker 2 (.run false), .worker 2 (.run true), .main false, .main true,
    .main false] ++ [.main true, .main true, .main true, .main true, .main true, .worker 2 (.complete 0 8 (some [65])),
    .worker 5 (.run true), .worker 5 (.run true), .worker 5 (.run true), .worker 5 (.run false), .worker 5 (.run true),
    .worker 5 (.complete 0 8 (some [66])), .worker 5 (.run true), .worker 5 (.run true), .main true, .main true, .main true,
    .main true])).retlist = [⟨3, 3, [66]⟩] := by decide

end Psutil.OpenFiles
