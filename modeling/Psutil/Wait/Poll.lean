import Psutil.Wait.WaitPid

/-!
# The polling loop of `wait_pid_posix` (`_psposix.py:95-160`), for any answers of the system

`Syscalls.logged` is the same system with a log of the checks and sleeps; it does not change the run (`waitPidPosix_logged`).
`Polling` is what holds after `k` sleeps: the clock is behind the start by what was slept, which bounds `k`. `waitPidPosix_sound`:
the wait ends, and its log accounts for its outcome.
-/

namespace Psutil

open Lib

/-- A check with its answer, or a sleep with the time at which it starts. -/
inductive WaitEvent where
  | waitpid (reply : WaitReply)
  | pidExists (present : Bool)
  | sleep (start d : ℚ)
  deriving DecidableEq

def WaitEvent.slept : WaitEvent → Option ℚ
  | sleep _ d => some d
  | _ => none

variable {σ : Type}

def Syscalls.logged (K : Syscalls σ) : Syscalls (σ × List WaitEvent) where
  now x := K.now x.1
  sleep d x := (K.sleep d x.1, x.2 ++ [.sleep (K.now x.1) d])
  waitpid pid nohang x := (K.waitpid pid nohang x.1).map fun r => (r.1, r.2, x.2 ++ [.waitpid r.1])
  pidExists pid x := ((K.pidExists pid x.1).1, (K.pidExists pid x.1).2, x.2 ++ [.pidExists (K.pidExists pid x.1).1])
  pidfdOpen pid x := ((K.pidfdOpen pid x.1).1, (K.pidfdOpen pid x.1).2, x.2)
  poll ms x := (K.poll ms x.1).map fun r => (r.1, r.2, x.2)
  kqueue x := ((K.kqueue x.1).1, (K.kqueue x.1).2, x.2)
  control pid timeout x := (K.control pid timeout x.1).map fun r => (r.1, r.2, x.2)

/-- The clock never goes back, and a sleep takes its time; with `WNOHANG` the kernel does not block. -/
structure Syscalls.Clocked (K : Syscalls σ) (pid : Nat) : Prop where
  waitpid : ∀ s, ∃ r s', K.waitpid pid true s = some (r, s') ∧ K.now s ≤ K.now s'
  pidExists : ∀ s, K.now s ≤ K.now (K.pidExists pid s).2
  sleep : ∀ d s, K.now s + d ≤ K.now (K.sleep d s)

/-- What the log says of a wait of `T` seconds from `start` that ends with `r`, at the time `now`. -/
structure WaitSound (T start now : ℚ) (r : Except Exc (Option Int)) (log : List WaitEvent) : Prop where
  timeout : ∀ seconds pid name, r = .error (.timeoutExpired seconds pid name) →
    (log.getLast? = some (.waitpid .running) ∨ log.getLast? = some (.pidExists true)) ∧ (T = 0 ∨ start + T ≤ now)
  code : ∀ code, r = .ok (some code) → ∃ st, log.getLast? = some (.waitpid (.status st)) ∧ convertExitCode st = .ok code
  gone : r = .ok none → log.getLast? = some (.pidExists false)
  deadline : ∀ t d, .sleep t d ∈ log → T ≠ 0 ∧ t < start + T
  doubling : ∃ k, log.filterMap WaitEvent.slept = (List.range k).map fun i => min (2 ^ i / 10000) (1 / 25)
  /-- An int that no float holds is given up before the first check. -/
  overflow : r = .error .overflowError ↔ Overflows (some (T : WithTop ℚ))
  unchecked : Overflows (some (T : WithTop ℚ)) → log = []

/-! ## The log -/

section

variable (K : Syscalls σ) {pid : Nat} {timeout : Timeout} {stopAt : Option (WithTop ℚ)}

/-- The wait is over at this time. -/
def Expired (timeout : Timeout) (stopAt : Option (WithTop ℚ)) (now : ℚ) : Prop :=
  timeout = some 0 ∨ ∃ t ∈ stopAt, t ≤ (now : WithTop ℚ)

variable {K} in
theorem sleepOrTimeout_of_expired {interval : ℚ} {s : σ} (h : Expired timeout stopAt (K.now s)) :
    sleepOrTimeout K timeout stopAt interval s = .error (.timeoutExpired timeout none none) := if_pos h

variable {K} in
theorem sleepOrTimeout_of_not_expired {interval : ℚ} {s : σ} (h : ¬Expired timeout stopAt (K.now s)) :
    sleepOrTimeout K timeout stopAt interval s = .ok (min (interval * 2) backoff.cap, K.sleep interval s) := if_neg h

theorem pollPid_logged (fuel : Nat) : ∀ (interval : ℚ) (s : σ) (log : List WaitEvent),
    (pollPid K.logged pid timeout stopAt fuel interval (s, log)).map (fun x => (x.1, x.2.1)) =
      pollPid K pid timeout stopAt fuel interval s := by
  induction fuel with
  | zero => exact fun _ _ _ => rfl
  | succ fuel ih =>
    intro interval s log
    have hlog : K.logged.pidExists pid (s, log) =
      ((K.pidExists pid s).1, (K.pidExists pid s).2, log ++ [.pidExists (K.pidExists pid s).1]) := rfl
    rcases hp : K.pidExists pid s with ⟨present, s'⟩
    rw [hp] at hlog
    cases present with
    | false => simp only [pollPid, hlog, hp, Option.map_some]
    | true =>
      simp only [pollPid, hlog, hp]
      by_cases hexp : Expired timeout stopAt (K.now s')
      · have hexp' : Expired timeout stopAt (K.logged.now (s', log ++ [.pidExists true])) := hexp
        simp only [sleepOrTimeout_of_expired hexp, sleepOrTimeout_of_expired hexp', Option.map_some]
      · have hexp' : ¬Expired timeout stopAt (K.logged.now (s', log ++ [.pidExists true])) := hexp
        simp only [sleepOrTimeout_of_not_expired hexp, sleepOrTimeout_of_not_expired hexp']
        exact ih _ _ _

theorem waitLoop_logged (fuel : Nat) : ∀ (interval : ℚ) (s : σ) (log : List WaitEvent),
    (waitLoop K.logged pid timeout stopAt fuel interval (s, log)).map (fun x => (x.1, x.2.1)) =
      waitLoop K pid timeout stopAt fuel interval s := by
  induction fuel with
  | zero => exact fun _ _ _ => rfl
  | succ fuel ih =>
    intro interval s log
    have hlog : K.logged.waitpid pid timeout.isSome (s, log) =
        (K.waitpid pid timeout.isSome s).map fun r => (r.1, r.2, log ++ [.waitpid r.1]) := rfl
    rcases hw : K.waitpid pid timeout.isSome s with _ | ⟨reply, s'⟩
    · rw [hw] at hlog
      simp only [waitLoop, hlog, hw, Option.map_none]
    · rw [hw] at hlog
      cases reply with
      | childProcessError =>
        simp only [waitLoop, hlog, hw, Option.map_some]
        exact pollPid_logged K (fuel + 1) interval s' _
      | status st => simp only [waitLoop, hlog, hw, Option.map_some]
      | running =>
        simp only [waitLoop, hlog, hw, Option.map_some]
        by_cases hexp : Expired timeout stopAt (K.now s')
        · have hexp' : Expired timeout stopAt (K.logged.now (s', log ++ [.waitpid .running])) := hexp
          simp only [sleepOrTimeout_of_expired hexp, sleepOrTimeout_of_expired hexp', Option.map_some]
        · have hexp' : ¬Expired timeout stopAt (K.logged.now (s', log ++ [.waitpid .running])) := hexp
          simp only [sleepOrTimeout_of_not_expired hexp, sleepOrTimeout_of_not_expired hexp']
          exact ih _ _ _

/-- The log does not change the run. -/
theorem waitPidPosix_logged (fuel pid : Nat) (timeout : Timeout) (s : σ) (log : List WaitEvent) :
    (waitPidPosix K.logged fuel pid timeout (s, log)).map (fun x => (x.1, x.2.1)) = waitPidPosix K fuel pid timeout s := by
  by_cases hover : Overflows timeout
  · rw [waitPidPosix_of_overflows hover, waitPidPosix_of_overflows hover]
    rfl
  · rw [waitPidPosix_of_not_overflows hover, waitPidPosix_of_not_overflows hover]
    exact waitLoop_logged K fuel backoff.first s log

/-! ## Fuel -/

theorem pollPid_succ (fuel : Nat) : ∀ {interval : ℚ} {s : σ} {x : Except Exc (Option Int) × σ},
    pollPid K pid timeout stopAt fuel interval s = some x → pollPid K pid timeout stopAt (fuel + 1) interval s = some x := by
  induction fuel with
  | zero =>
    intro _ _ _ h
    cases h
  | succ fuel ih =>
    intro interval s x h
    unfold pollPid at h ⊢
    split at h
    · exact h
    · split at h
      · exact h
      · exact ih h

theorem waitLoop_succ (fuel : Nat) : ∀ {interval : ℚ} {s : σ} {x : Except Exc (Option Int) × σ},
    waitLoop K pid timeout stopAt fuel interval s = some x → waitLoop K pid timeout stopAt (fuel + 1) interval s = some x := by
  induction fuel with
  | zero =>
    intro _ _ _ h
    cases h
  | succ fuel ih =>
    intro interval s x h
    unfold waitLoop at h ⊢
    split at h
    · cases h
    · exact pollPid_succ K _ h
    · split at h
      · exact h
      · exact ih h
    · exact h

theorem waitPidPosix_le {fuel fuel' : Nat} (hle : fuel ≤ fuel') {s : σ} {x : Except Exc (Option Int) × σ}
    (h : waitPidPosix K fuel pid timeout s = some x) : waitPidPosix K fuel' pid timeout s = some x := by
  by_cases hover : Overflows timeout
  · rwa [waitPidPosix_of_overflows hover] at h ⊢
  · rw [waitPidPosix_of_not_overflows hover] at h ⊢
    induction hle with
    | refl => exact h
    | step _ ih => exact waitLoop_succ K _ ih

end

/-! ## The state after some sleeps -/

/-- After `k` sleeps of a wait of `T` seconds from `start`. -/
structure Polling (K : Syscalls σ) (T start : ℚ) (k : ℕ) (s : σ) (log : List WaitEvent) : Prop where
  clock : start + backoff.elapsed k ≤ K.now s
  before : ∀ j < k, backoff.elapsed j < T
  slept : log.filterMap WaitEvent.slept = (List.range k).map backoff.interval
  deadline : ∀ t d, .sleep t d ∈ log → T ≠ 0 ∧ t < start + T

theorem expired_iff {T start now : ℚ} :
    Expired (some (T : WithTop ℚ)) (stopAt (some (T : WithTop ℚ)) start) now ↔ T = 0 ∨ start + T ≤ now := by
  by_cases hT : T = 0
  · simp [Expired, hT]
  · have hne : (T : WithTop ℚ) ≠ 0 := by exact_mod_cast hT
    simp only [Expired, stopAt, hne, Option.some.injEq, ne_eq, not_false_eq_true, if_true, Option.mem_def, exists_eq_left', hT,
      false_or]
    exact_mod_cast Iff.rfl

/-- The sleeps double, up to the longest one. -/
theorem interval_eq (k : ℕ) : backoff.interval k = min (2 ^ k / 10000) (1 / 25) := by
  induction k with
  | zero =>
    simp only [Backoff.interval, backoff]
    norm_num
  | succ k ih =>
    have hcap : backoff.cap = 1 / 25 := rfl
    rw [Backoff.interval, ih, hcap, min_mul_of_nonneg _ _ (by norm_num), min_assoc]
    rw [show (1 / 25 * 2 : ℚ) ⊓ (1 / 25) = 1 / 25 by norm_num, pow_succ]
    ring_nf

section

variable {K : Syscalls σ} {pid : Nat} {T start : ℚ} {k : ℕ} {s : σ} {log : List WaitEvent}

/-- A check takes its time. -/
theorem Polling.check (h : Polling K T start k s log) {s' : σ} (hclock : K.now s ≤ K.now s') {e : WaitEvent} (he : e.slept = none) :
    Polling K T start k s' (log ++ [e]) where
  clock := h.clock.trans hclock
  before := h.before
  slept := by
    rw [List.filterMap_append, h.slept]
    simp [he]
  deadline := by
    intro t d hmem
    rcases List.mem_append.1 hmem with hmem | hmem
    · exact h.deadline t d hmem
    · obtain rfl := List.mem_singleton.1 hmem
      cases he

theorem Polling.doze (hK : K.Clocked pid) (h : Polling K T start k s log) (hT : T ≠ 0) (hnow : K.now s < start + T) :
    Polling K T start (k + 1) (K.sleep (backoff.interval k) s) (log ++ [.sleep (K.now s) (backoff.interval k)]) where
  clock := by
    have hsleep := hK.sleep (backoff.interval k) s
    have hclock := h.clock
    rw [Backoff.elapsed_succ]
    linarith
  before := by
    intro j hj
    rcases Nat.lt_succ_iff_lt_or_eq.1 hj with hj | rfl
    · exact h.before j hj
    · have hclock := h.clock
      linarith
  slept := by
    rw [List.filterMap_append, h.slept, List.range_succ, List.map_append]
    rfl
  deadline := by
    intro t d hmem
    rcases List.mem_append.1 hmem with hmem | hmem
    · exact h.deadline t d hmem
    · obtain ⟨rfl, rfl⟩ := WaitEvent.sleep.inj (List.mem_singleton.1 hmem)
      exact ⟨hT, hnow⟩

theorem Polling.doubling (h : Polling K T start k s log) :
    ∃ k, log.filterMap WaitEvent.slept = (List.range k).map fun i => min (2 ^ i / 10000) (1 / 25) :=
  ⟨k, by rw [h.slept]; exact List.map_congr_left fun i _ => interval_eq i⟩

/-- The process is not there. -/
theorem Polling.gone (hT : ¬Overflows (some (T : WithTop ℚ))) (h : Polling K T start k s (log ++ [.pidExists false])) :
    WaitSound T start (K.now s) (.ok none) (log ++ [.pidExists false]) where
  timeout := by rintro _ _ _ ⟨⟩
  code := by rintro _ ⟨⟩
  gone := fun _ => List.getLast?_concat
  deadline := h.deadline
  doubling := h.doubling
  overflow := iff_of_false (by rintro ⟨⟩) hT
  unchecked := fun hover => absurd hover hT

theorem Polling.exited (hT : ¬Overflows (some (T : WithTop ℚ))) {st : RawStatus}
    (h : Polling K T start k s (log ++ [.waitpid (.status st)])) :
    WaitSound T start (K.now s) ((convertExitCode st).map some) (log ++ [.waitpid (.status st)]) where
  timeout := by
    intro seconds p name hr
    unfold convertExitCode at hr
    split at hr <;> cases hr
  code := by
    intro code hr
    refine ⟨st, List.getLast?_concat, ?_⟩
    cases hc : convertExitCode st with
    | error e =>
      rw [hc] at hr
      cases hr
    | ok c =>
      rw [hc] at hr
      rw [Option.some.inj (Except.ok.inj hr)]
  gone := by
    intro hr
    cases hc : convertExitCode st with
    | error e =>
      rw [hc] at hr
      cases hr
    | ok c =>
      rw [hc] at hr
      cases hr
  deadline := h.deadline
  doubling := h.doubling
  overflow := by
    refine iff_of_false (fun hr => ?_) hT
    unfold convertExitCode at hr
    split at hr <;> cases hr
  unchecked := fun hover => absurd hover hT

theorem Polling.expired (hT : ¬Overflows (some (T : WithTop ℚ))) {e : WaitEvent}
    (he : e = .waitpid .running ∨ e = .pidExists true) (h : Polling K T start k s (log ++ [e])) (hover : T = 0 ∨ start + T ≤ K.now s) :
    WaitSound T start (K.now s) (.error (.timeoutExpired (some (T : WithTop ℚ)) none none)) (log ++ [e]) where
  timeout := by
    intro _ _ _ _
    rw [List.getLast?_concat]
    exact ⟨he.imp (congrArg some) (congrArg some), hover⟩
  code := by rintro _ ⟨⟩
  gone := by rintro ⟨⟩
  deadline := h.deadline
  doubling := h.doubling
  overflow := iff_of_false (by rintro ⟨⟩) hT
  unchecked := fun hover => absurd hover hT

/-- An int that no float holds. -/
theorem sound_of_overflows (hT : Overflows (some (T : WithTop ℚ))) (start now : ℚ) :
    WaitSound T start now (.error .overflowError) [] where
  timeout := by rintro _ _ _ ⟨⟩
  code := by rintro _ ⟨⟩
  gone := by rintro ⟨⟩
  deadline := by rintro _ _ ⟨⟩
  doubling := ⟨0, rfl⟩
  overflow := iff_of_true rfl hT
  unchecked := fun _ => rfl

/-- As long as the deadline is ahead, not too many sleeps are behind. -/
theorem Polling.le (h : Polling K T start k s log) {n : ℕ} (hn : T ≤ backoff.elapsed n) : k ≤ n :=
  not_lt.1 fun hlt => absurd (h.before n hlt) (not_lt.2 hn)

/-! ## The loops -/

theorem pollPid_sound (hK : K.Clocked pid) (hT : ¬Overflows (some (T : WithTop ℚ))) {n : ℕ}
    (hn : T ≤ backoff.elapsed n) (fuel : Nat) : ∀ {k : ℕ} {s : σ} {log : List WaitEvent},
    Polling K T start k s log → n < k + fuel →
      ∃ r s' log', pollPid K.logged pid (some (T : WithTop ℚ)) (stopAt (some (T : WithTop ℚ)) start) fuel
          (backoff.interval k) (s, log) = some (r, s', log') ∧
        WaitSound T start (K.now s') r log' := by
  induction fuel with
  | zero =>
    intro k s log h hf
    exact absurd (h.le hn) (by omega)
  | succ fuel ih =>
    intro k s log h hf
    have hlog : K.logged.pidExists pid (s, log) =
      ((K.pidExists pid s).1, (K.pidExists pid s).2, log ++ [.pidExists (K.pidExists pid s).1]) := rfl
    have hclock := hK.pidExists s
    rcases hp : K.pidExists pid s with ⟨present, s'⟩
    rw [hp] at hlog hclock
    have hchecked := h.check hclock (e := .pidExists present) rfl
    cases present with
    | false => exact ⟨.ok none, s', _, by simp only [pollPid, hlog], hchecked.gone hT⟩
    | true =>
      simp only [pollPid, hlog]
      by_cases hexp : Expired (some (T : WithTop ℚ)) (stopAt (some (T : WithTop ℚ)) start)
          (K.logged.now (s', log ++ [.pidExists true]))
      · rw [sleepOrTimeout_of_expired hexp]
        exact ⟨_, s', _, rfl, hchecked.expired hT (Or.inr rfl) (expired_iff.1 hexp)⟩
      · have hahead := mt expired_iff.2 hexp
        rw [not_or, not_le] at hahead
        rw [sleepOrTimeout_of_not_expired hexp]
        exact ih (hchecked.doze hK hahead.1 hahead.2) (by omega)

theorem waitLoop_sound (hK : K.Clocked pid) (hT : ¬Overflows (some (T : WithTop ℚ))) {n : ℕ}
    (hn : T ≤ backoff.elapsed n) (fuel : Nat) : ∀ {k : ℕ} {s : σ} {log : List WaitEvent},
    Polling K T start k s log → n < k + fuel →
      ∃ r s' log', waitLoop K.logged pid (some (T : WithTop ℚ)) (stopAt (some (T : WithTop ℚ)) start) fuel
          (backoff.interval k) (s, log) = some (r, s', log') ∧
        WaitSound T start (K.now s') r log' := by
  induction fuel with
  | zero =>
    intro k s log h hf
    exact absurd (h.le hn) (by omega)
  | succ fuel ih =>
    intro k s log h hf
    obtain ⟨reply, s', hw, hclock⟩ := hK.waitpid s
    have hlog : K.logged.waitpid pid (some (T : WithTop ℚ)).isSome (s, log) = some (reply, s', log ++ [.waitpid reply]) := by
      show (K.waitpid pid true s).map _ = _
      rw [hw]
      rfl
    have hchecked := h.check hclock (e := .waitpid reply) rfl
    cases reply with
    | childProcessError =>
      -- the sleeps go on where they are
      simp only [waitLoop, hlog]
      exact pollPid_sound hK hT hn (fuel + 1) hchecked hf
    | status st => exact ⟨_, s', _, by simp only [waitLoop, hlog], hchecked.exited hT⟩
    | running =>
      simp only [waitLoop, hlog]
      by_cases hexp : Expired (some (T : WithTop ℚ)) (stopAt (some (T : WithTop ℚ)) start)
          (K.logged.now (s', log ++ [.waitpid .running]))
      · rw [sleepOrTimeout_of_expired hexp]
        exact ⟨_, s', _, rfl, hchecked.expired hT (Or.inl rfl) (expired_iff.1 hexp)⟩
      · have hahead := mt expired_iff.2 hexp
        rw [not_or, not_le] at hahead
        rw [sleepOrTimeout_of_not_expired hexp]
        exact ih (hchecked.doze hK hahead.1 hahead.2) (by omega)

end

/-- **A wait with a timeout ends**, and its outcome is what its checks found. -/
theorem waitPidPosix_sound (K : Syscalls σ) (pid : Nat) (hK : K.Clocked pid) (T : ℚ) (s : σ) :
    ∃ r s' log, (∃ n, ∀ fuel, n < fuel → waitPidPosix K fuel pid (some (T : WithTop ℚ)) s = some (r, s') ∧
        waitPidPosix K.logged fuel pid (some (T : WithTop ℚ)) (s, []) = some (r, s', log)) ∧
      WaitSound T (K.now s) (K.now s') r log := by
  by_cases hT : Overflows (some (T : WithTop ℚ))
  · refine ⟨.error .overflowError, s, [], ⟨0, fun fuel _ => ?_⟩, sound_of_overflows hT _ _⟩
    exact ⟨waitPidPosix_of_overflows hT, waitPidPosix_of_overflows hT⟩
  obtain ⟨n, hn⟩ := backoff.exists_le_elapsed T
  have hstart : Polling K T (K.now s) 0 s [] := by
    refine ⟨by rw [Backoff.elapsed_zero, add_zero], fun j hj => absurd hj (Nat.not_lt_zero j), rfl, ?_⟩
    intro _ _ hmem
    cases hmem
  obtain ⟨r, s', log, hrun, hsound⟩ := waitLoop_sound hK hT hn (n + 1) hstart (by omega)
  have hlogged : waitPidPosix K.logged (n + 1) pid (some (T : WithTop ℚ)) (s, []) = some (r, s', log) := by
    rw [waitPidPosix_of_not_overflows hT]
    exact hrun
  refine ⟨r, s', log, ⟨n, fun fuel hf => ?_⟩, hsound⟩
  have hfuel := waitPidPosix_le K.logged hf hlogged
  refine ⟨?_, hfuel⟩
  rw [← waitPidPosix_logged K fuel pid _ s [], hfuel]
  rfl

/-! ## A child that another thread waits for -/

/-- The answers of `waitpid` one after the other, and the PID is free then. -/
def scripted : Syscalls (ℚ × List WaitReply) where
  now s := s.1
  sleep d s := (s.1 + d, s.2)
  waitpid _ _ s := match s.2 with
    | [] => some (.childProcessError, s)
    | reply :: rest => some (reply, s.1 + 1 / 100000, rest)
  pidExists _ s := (false, s)
  pidfdOpen _ s := (some .enoent, s)
  poll _ s := some (false, s)
  kqueue s := (some .enoent, s)
  control _ _ s := some (.ok false, s)

theorem scripted_clocked (pid : Nat) : scripted.Clocked pid where
  waitpid := by
    rintro ⟨t, _ | ⟨reply, rest⟩⟩
    · exact ⟨_, _, rfl, le_refl _⟩
    · exact ⟨reply, _, rfl, by simp [scripted]⟩
  pidExists := fun _ => le_refl _
  sleep := fun _ _ => le_refl _

theorem waitPidPosix_sound_scripted : ∃ r s' log,
    (∃ n, ∀ fuel, n < fuel → waitPidPosix scripted fuel 7 (some ((1 / 2 : ℚ) : WithTop ℚ)) (0, [.running, .running]) = some (r, s') ∧
      waitPidPosix scripted.logged fuel 7 (some ((1 / 2 : ℚ) : WithTop ℚ)) ((0, [.running, .running]), []) = some (r, s', log)) ∧
    WaitSound (1 / 2) 0 (scripted.now s') r log :=
  waitPidPosix_sound scripted 7 (scripted_clocked 7) (1 / 2) (0, [.running, .running])

end Psutil
