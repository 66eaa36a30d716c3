import Psutil.Wait.WaitPid

/-!
# How long a wait takes

The process waited for exits at some time, is reaped at some later time, or neither ever happens; the clock
advances by the time the caller is blocked, and by nothing else. On such a target the polling function is a
`Backoff.poll` (`waitLoop_eq_poll`), so it overshoots its timeout by one interval at most. `wait_time_bound_iff`
says when the event-driven functions do: they poll for the whole timeout again once the event is there.
-/

namespace Psutil

open Lib

/-- The process that is waited for, a child of the caller or not. Nobody else gets its PID. -/
structure Target where
  child : Bool
  exitAt : WithTop ℚ
  /-- When it is reaped by another than the waiting call. -/
  goneAt : WithTop ℚ
  exit_le_gone : exitAt ≤ goneAt
  status : WaitStatus
  /-- Errors of `pidfd_open()`, `kqueue()` and `control()`, besides `ESRCH` for a free PID. -/
  pidfdError : Option Errno
  kqueueError : Option Errno
  controlError : Option Exc

structure TargetState where
  clock : ℚ
  /-- The waiting call has reaped it. -/
  reaped : Bool

namespace Target

variable (τ : Target)

/-- The PID exists. -/
def held (s : TargetState) : Bool := !s.reaped && decide ((s.clock : WithTop ℚ) < τ.goneAt)

/-- Block until it has exited, for `limit` seconds at most: whether it has. -/
def block (limit : Timeout) (s : TargetState) : Option (Bool × TargetState) :=
  let deadline : WithTop ℚ := s.clock + limit.getD ⊤
  if τ.exitAt ≤ deadline then
    match τ.exitAt with
    | ⊤ => none
    | (x : ℚ) => some (true, { s with clock := max s.clock x })
  else
    match deadline with
    | ⊤ => none
    | (d : ℚ) => some (false, { s with clock := d })

/-- `waitpid` on a child that has exited. -/
def reap (s : TargetState) : WaitReply × TargetState :=
  if τ.held s then (.status (.ended τ.status), { s with reaped := true }) else (.childProcessError, s)

def kernel : Syscalls TargetState where
  now := TargetState.clock
  sleep d s := { s with clock := s.clock + d }
  waitpid _ nohang s :=
    if !τ.child || !τ.held s then some (.childProcessError, s)
    else if τ.exitAt ≤ s.clock then some (τ.reap s)
    else if nohang then some (.running, s)
    else (τ.block none s).map fun r => τ.reap r.2
  pidExists _ s := (τ.held s, s)
  pidfdOpen _ s := (if τ.pidfdError.isSome then τ.pidfdError else if τ.held s then none else some .esrch, s)
  poll ms s := τ.block (ms.map fun ms => ((ms / 1000 : ℚ) : WithTop ℚ)) s
  kqueue s := (τ.kqueueError, s)
  control _ timeout s := match τ.controlError with
    | some e => some (.error e, s)
    | none =>
      if τ.held s then (τ.block timeout s).map fun r => (.ok r.1, r.2)
      else some (.error (.osError .esrch), s)

/-! ## The polling function -/

/-- What the polling function finds at time `t`, with the deadline `stop`. -/
def check (timeout : Timeout) (stop : WithTop ℚ) (t : ℚ) : Option (Except Exc (Option Int)) :=
  if τ.goneAt ≤ t then some (.ok none)
  else if τ.child ∧ τ.exitAt ≤ t then some ((convertExitCode (.ended τ.status)).map some)
  else if stop ≤ t then some (.error (.timeoutExpired timeout none none))
  else none

theorem check_isSome_iff {timeout : Timeout} {stop : WithTop ℚ} {t : ℚ} :
    (τ.check timeout stop t).isSome = true ↔ τ.goneAt ≤ t ∨ (τ.child ∧ τ.exitAt ≤ t) ∨ stop ≤ t := by
  unfold check
  split
  · simp [*]
  · split
    · simp [*]
    · split <;> simp [*]

/-- When a call that starts at `t₀` gives up. -/
def deadline (timeout : Timeout) (t₀ : ℚ) : WithTop ℚ := t₀ + timeout.getD ⊤

/-- The test of `sleep_or_timeout` is true from `stop` on. -/
def Expires (timeout : Timeout) (stopAt : Option (WithTop ℚ)) (stop : WithTop ℚ) (t : ℚ) : Prop :=
  (timeout = some 0 ∨ ∃ x ∈ stopAt, x ≤ (t : WithTop ℚ)) ↔ stop ≤ t

variable {τ} {pid : Nat} {T : ℚ} {timeout : Timeout} {stopAt : Option (WithTop ℚ)} {stop : WithTop ℚ}

theorem sleepOrTimeout_eq (j : ℕ) {s : TargetState} (hst : Expires timeout stopAt stop s.clock) :
    sleepOrTimeout τ.kernel timeout stopAt (backoff.interval j) s =
      if stop ≤ s.clock then .error (.timeoutExpired timeout none none)
      else .ok (backoff.interval (j + 1), { s with clock := s.clock + backoff.interval j }) := by
  have hnow : τ.kernel.now s = s.clock := rfl
  rw [sleepOrTimeout, hnow]
  by_cases hle : stop ≤ (s.clock : WithTop ℚ)
  · rw [if_pos (hst.2 hle), if_pos hle]
  · rw [if_neg (mt hst.1 hle), if_neg hle]
    rfl

/-- The loop of a PID that is not a child. -/
theorem pollPid_eq_poll (hc : τ.child = false) {t : ℚ}
    (hst : ∀ k, Expires timeout stopAt stop (t + backoff.elapsed k)) (fuel : Nat) : ∀ (j : ℕ) (s : TargetState),
    s.reaped = false → s.clock = t + backoff.elapsed j →
    (pollPid τ.kernel pid timeout stopAt fuel (backoff.interval j) s).map (fun r => (r.1, r.2.clock)) =
      backoff.poll (τ.check timeout stop) t fuel j := by
  induction fuel with
  | zero => exact fun _ _ _ _ => rfl
  | succ fuel ih =>
    intro j s hr hs
    have hex : τ.kernel.pidExists pid s = (decide ((s.clock : WithTop ℚ) < τ.goneAt), s) := by
      simp [kernel, held, hr]
    have hexp : Expires timeout stopAt stop s.clock := hs ▸ hst j
    rw [pollPid, hex, Backoff.poll, ← hs]
    by_cases hg : (s.clock : WithTop ℚ) < τ.goneAt
    · rw [decide_eq_true hg]
      simp only [sleepOrTimeout_eq j hexp, check, not_le.2 hg, if_false, hc, Bool.false_eq_true, false_and]
      by_cases hle : stop ≤ s.clock
      · simp [hle]
      · simp only [hle, if_false]
        exact ih (j + 1) _ hr (by rw [Backoff.elapsed_succ, ← add_assoc, ← hs])
    · simp [decide_eq_false hg, check, not_lt.1 hg]

/-- **The polling function is a poller**: each of its rounds is one check, unless `waitpid` blocks. -/
theorem waitLoop_eq_poll (τ : Target) (pid : Nat) (hblock : timeout.isSome = true ∨ τ.child = false) {t : ℚ}
    (hst : ∀ k, Expires timeout stopAt stop (t + backoff.elapsed k)) (fuel : Nat) : ∀ (j : ℕ) (s : TargetState),
    s.reaped = false → s.clock = t + backoff.elapsed j →
    (waitLoop τ.kernel pid timeout stopAt fuel (backoff.interval j) s).map (fun r => (r.1, r.2.clock)) =
      backoff.poll (τ.check timeout stop) t fuel j := by
  induction fuel with
  | zero => exact fun _ _ _ _ => rfl
  | succ fuel ih =>
    intro j s hr hs
    have hheld : τ.held s = decide ((s.clock : WithTop ℚ) < τ.goneAt) := by simp [held, hr]
    cases hc : τ.child with
    | false =>
      have hw : τ.kernel.waitpid pid timeout.isSome s = some (.childProcessError, s) := by simp [kernel, hc]
      simp only [waitLoop, hw]
      exact pollPid_eq_poll hc hst (fuel + 1) j s hr hs
    | true =>
      have hsome : timeout.isSome = true := hblock.resolve_right (by simp [hc])
      have hexp : Expires timeout stopAt stop s.clock := hs ▸ hst j
      rw [Backoff.poll, ← hs]
      by_cases hg : (s.clock : WithTop ℚ) < τ.goneAt
      · rw [decide_eq_true hg] at hheld
        by_cases hx : τ.exitAt ≤ (s.clock : WithTop ℚ)
        · have hw : τ.kernel.waitpid pid true s = some (.status (.ended τ.status), { s with reaped := true }) := by
            simp [kernel, hc, hheld, hx, reap]
          simp [waitLoop, hsome, hw, check, not_le.2 hg, hc, hx]
        · have hw : τ.kernel.waitpid pid true s = some (.running, s) := by simp [kernel, hc, hheld, hx]
          simp only [waitLoop, hsome, hw, sleepOrTimeout_eq j hexp, check, not_le.2 hg, if_false, hx, and_false]
          by_cases hle : stop ≤ s.clock
          · simp [hle]
          · simp only [hle, if_false]
            exact ih (j + 1) _ hr (by rw [Backoff.elapsed_succ, ← add_assoc, ← hs])
      · rw [decide_eq_false hg] at hheld
        have hw : τ.kernel.waitpid pid timeout.isSome s = some (.childProcessError, s) := by simp [kernel, hheld]
        have hex : τ.kernel.pidExists pid s = (false, s) := by simp [kernel, hheld]
        simp [waitLoop, hw, pollPid, hex, check, not_lt.1 hg]

/-- The same for the whole call, with a timeout that a float holds. -/
theorem waitPidPosix_eq_poll (τ : Target) (pid : Nat) (hfloat : ¬Overflows timeout)
    (hblock : timeout.isSome = true ∨ τ.child = false) (t : ℚ) (fuel : Nat) :
    (waitPidPosix τ.kernel fuel pid timeout ⟨t, false⟩).map (fun r => (r.1, r.2.clock)) =
      backoff.poll (τ.check timeout (deadline timeout t)) t fuel 0 := by
  rw [waitPidPosix_of_not_overflows hfloat]
  refine waitLoop_eq_poll τ pid hblock (fun k => ?_) fuel 0 ⟨t, false⟩ rfl (by simp)
  have hnow : τ.kernel.now ⟨t, false⟩ = t := rfl
  unfold Expires deadline Psutil.stopAt
  cases timeout with
  | none => simp
  | some T =>
    by_cases hT : T = 0
    · -- the deadline is the start, and no poll comes before it
      have hle : t ≤ t + backoff.elapsed k := by
        have := backoff.elapsed_strictMono.monotone k.zero_le
        rw [Backoff.elapsed_zero] at this
        linarith
      simpa [hT] using WithTop.coe_le_coe.2 hle
    · simp [hT, hnow]

/-- The polls of a call that starts at `t` and find the PID gone, the child ended, or the timeout over. -/
def StopsAt (τ : Target) (T t : ℚ) (k : ℕ) : Prop :=
  τ.goneAt ≤ ↑(t + backoff.elapsed k) ∨ (τ.child ∧ τ.exitAt ≤ ↑(t + backoff.elapsed k)) ∨ T ≤ backoff.elapsed k

theorem stopsAt_iff (t : ℚ) (k : ℕ) :
    τ.StopsAt T t k ↔ (τ.check (some T) (t + T) (t + backoff.elapsed k)).isSome = true := by
  have hle : (t : WithTop ℚ) + T ≤ ((t + backoff.elapsed k : ℚ) : WithTop ℚ) ↔ T ≤ backoff.elapsed k := by
    rw [← WithTop.coe_add, WithTop.coe_le_coe, add_le_add_iff_left]
  rw [check_isSome_iff, hle]
  rfl

/-- Some poll is the first one that makes the call stop, and it comes before `T` is over by more than an interval. -/
theorem exists_isLeast_stopsAt (τ : Target) (hT : 0 < T) (t : ℚ) :
    ∃ k, IsLeast {k | τ.StopsAt T t k} k ∧ backoff.elapsed k ≤ T + backoff.cap := by
  classical
  obtain ⟨n, hn⟩ := backoff.exists_le_elapsed T
  have hex : ∃ k, τ.StopsAt T t k := ⟨n, Or.inr (Or.inr hn)⟩
  refine ⟨Nat.find hex, Nat.isLeast_find hex, backoff.elapsed_le_of_first hT.le fun i hi => ?_⟩
  have hno := Nat.find_min hex hi
  exact lt_of_not_ge fun hle => hno (Or.inr (Or.inr hle))

/-- **How long the polling function takes**: up to the first poll that makes it stop. -/
theorem waitPidPosix_time (pid : Nat) (hfloat : ¬Overflows (some (T : WithTop ℚ))) {t : ℚ} {k : ℕ} (hk : IsLeast {k | τ.StopsAt T t k} k) {fuel : Nat}
    (hf : k < fuel) : ∃ r s', waitPidPosix τ.kernel fuel pid (some T) ⟨t, false⟩ = some (r, s') ∧
      s'.clock = t + backoff.elapsed k := by
  have hnone : ∀ i, 0 ≤ i → i < k → τ.check (some T) (t + T) (t + backoff.elapsed i) = none := by
    intro i _ hi
    by_contra hsome
    exact absurd (hk.2 ((stopsAt_iff t i).2 (Option.isSome_iff_ne_none.2 hsome))) (not_le.2 hi)
  obtain ⟨r, hr⟩ := Option.isSome_iff_exists.1 ((stopsAt_iff t k).1 hk.1)
  have hpoll := backoff.poll_eq fuel k.zero_le hnone hr (by omega)
  have hcall : deadline (some T) t = t + T := rfl
  rw [← hcall, ← waitPidPosix_eq_poll τ pid hfloat (Or.inl rfl) t fuel, Option.map_eq_some_iff] at hpoll
  obtain ⟨⟨r', s'⟩, hw, heq⟩ := hpoll
  obtain ⟨-, hclock⟩ := Prod.mk.inj heq
  exact ⟨r', s', hw, hclock⟩

/-! ## The event-driven functions -/

/-- How long the function blocks for the exit event; `none` if it falls back to polling or fails at once. -/
def eventLimit (τ : Target) (path : WaitPath) (T : ℚ) : Option ℚ :=
  match path with
  | .posix => none
  | .pidfdOpen => if τ.pidfdError.isSome then none else match timeoutMs (some T) with
    | .ok (some ms) => some (ms / 1000)
    | _ => none
  | .kqueue => if τ.kqueueError.isSome || τ.controlError.isSome then none else some T

/-- After an exit event at `t₁`, one of the polls that find the PID gone or come `T` after the event is no later
than `T` and one interval after the start. With a timeout that no float holds there is no poll. -/
def PollsInTime (τ : Target) (T t₀ t₁ : ℚ) : Prop :=
  Overflows (some (T : WithTop ℚ)) ∨ ∃ k, t₁ + backoff.elapsed k ≤ t₀ + T + backoff.cap ∧ (τ.goneAt ≤ ↑(t₁ + backoff.elapsed k) ∨ T ≤ backoff.elapsed k)

/-- The product may be rounded up, but not by as much as a polling interval. -/
theorem timeoutMs_le {ms : Int} (hT : 0 ≤ T) (h : timeoutMs (some T) = .ok (some ms)) : (ms / 1000 : ℚ) ≤ T + backoff.cap := by
  rw [timeoutMs_eq hT] at h
  split at h
  · rename_i hfit
    obtain rfl : ⌊double (T * 1000)⌋ = ms := by simpa using h
    have hfloor : (⌊double (T * 1000)⌋ : ℚ) ≤ double (T * 1000) := Int.floor_le _
    have hnext : double (T * 1000) < ⌊double (T * 1000)⌋ + 1 := Int.lt_floor_add_one _
    have hlt : (⌊double (T * 1000)⌋ : ℚ) < 2147483648 := by exact_mod_cast hfit
    have herr := abs_le.1 (abs_double_sub_le (T * 1000))
    rw [abs_of_nonneg (by linarith)] at herr
    rw [show backoff.cap = (1 / 25 : ℚ) from rfl]
    linarith [herr.1, herr.2]
  · cases h

section
variable {t₀ : ℚ}

/-- An event wait ends with an event at the exit, or without one when its time is over. -/
theorem block_eq (lim : Timeout) : τ.block lim ⟨t₀, false⟩ =
    if τ.exitAt ≤ deadline lim t₀ then
      match τ.exitAt with
      | ⊤ => none
      | (x : ℚ) => some (true, ⟨max t₀ x, false⟩)
    else
      match deadline lim t₀ with
      | ⊤ => none
      | (d : ℚ) => some (false, ⟨d, false⟩) := rfl

theorem block_event {lim : Timeout} {x : ℚ} (hx : τ.exitAt = x) (h : τ.exitAt ≤ deadline lim t₀) :
    τ.block lim ⟨t₀, false⟩ = some (true, ⟨max t₀ x, false⟩) := by
  rw [block_eq, if_pos h, hx]

theorem block_forever {lim : Timeout} (hx : τ.exitAt = ⊤) (h : τ.exitAt ≤ deadline lim t₀) :
    τ.block lim ⟨t₀, false⟩ = none := by
  rw [block_eq, if_pos h, hx]

theorem block_expires {lim : Timeout} (h : deadline lim t₀ < τ.exitAt) :
    ∃ d : ℚ, deadline lim t₀ = d ∧ τ.block lim ⟨t₀, false⟩ = some (false, ⟨d, false⟩) := by
  obtain ⟨d, hd⟩ := WithTop.ne_top_iff_exists.1 h.ne_top
  refine ⟨d, hd.symm, ?_⟩
  rw [block_eq, if_neg (not_le.2 h), ← hd]

end

theorem exit_le_max {x : ℚ} (hx : τ.exitAt = x) (t₀ : ℚ) : τ.exitAt ≤ ((max t₀ x : ℚ) : WithTop ℚ) := by
  rw [hx]
  exact_mod_cast le_max_right t₀ x

/-- With enough fuel the call ends, at a time with the property. -/
def EndsAt (call : Nat → Waited TargetState) (P : ℚ → Prop) : Prop :=
  ∃ n, ∀ fuel, n < fuel → ∃ r s', call fuel = some (r, s') ∧ P s'.clock

theorem EndsAt.imp {call : Nat → Waited TargetState} {P Q : ℚ → Prop} (h : EndsAt call P) (hPQ : ∀ t, P t → Q t) :
    EndsAt call Q := by
  obtain ⟨n, hn⟩ := h
  refine ⟨n, fun fuel hf => ?_⟩
  obtain ⟨r, s', hr, hP⟩ := hn fuel hf
  exact ⟨r, s', hr, hPQ _ hP⟩

/-- A call that ends without a loop. -/
theorem endsAt_now {call : Nat → Waited TargetState} {P : ℚ → Prop} (r : Except Exc (Option Int)) (s : TargetState)
    (h : ∀ fuel, call fuel = some (r, s)) (hP : P s.clock) : EndsAt call P := ⟨0, fun fuel _ => ⟨r, s, h fuel, hP⟩⟩

/-- The polling function keeps the bound. -/
theorem waitPidPosix_endsAt (τ : Target) (pid : Nat) (hT : 0 < T) (t : ℚ) :
    EndsAt (fun fuel => waitPidPosix τ.kernel fuel pid (some T) ⟨t, false⟩) (· ≤ t + T + backoff.cap) := by
  by_cases hfloat : Overflows (some (T : WithTop ℚ))
  · have hcap : 0 ≤ backoff.cap := backoff.cap_nonneg
    exact endsAt_now (.error .overflowError) ⟨t, false⟩ (fun _ => waitPidPosix_of_overflows hfloat) (by dsimp only; linarith)
  · obtain ⟨k, hk, hle⟩ := exists_isLeast_stopsAt τ hT t
    refine ⟨k, fun fuel hf => ?_⟩
    obtain ⟨r, s', hr, hs⟩ := waitPidPosix_time pid hfloat hk hf
    exact ⟨r, s', hr, by rw [hs]; linarith⟩

/-- **After the exit event** at `t₁`. -/
theorem afterExit_endsAt (pid : Nat) (hT : 0 < T) {t₀ t₁ : ℚ} (hx : τ.exitAt ≤ t₁) (hle : t₁ ≤ t₀ + T + backoff.cap) :
    EndsAt (fun fuel => afterEvents τ.kernel fuel pid (some T) true ⟨t₁, false⟩) fun t =>
      t ≤ t₀ + T + backoff.cap ↔ (τ.child = false → τ.PollsInTime T t₀ t₁) := by
  -- the PID that is not a child, or not any more, is polled for
  have hpoll : (∀ nohang, τ.kernel.waitpid pid nohang ⟨t₁, false⟩ = some (.childProcessError, ⟨t₁, false⟩)) →
      ∀ fuel, afterEvents τ.kernel fuel pid (some T) true ⟨t₁, false⟩ =
        waitPidPosix τ.kernel fuel pid (some T) ⟨t₁, false⟩ := fun h fuel => by
    simp [afterEvents, osWaitpid, h]
  cases hc : τ.child with
  | false =>
    have hchild : ∀ nohang, τ.kernel.waitpid pid nohang ⟨t₁, false⟩ = some (.childProcessError, ⟨t₁, false⟩) := fun nohang => by
      simp [kernel, hc]
    by_cases hfloat : Overflows (some (T : WithTop ℚ))
    · exact endsAt_now (.error .overflowError) ⟨t₁, false⟩
        (fun fuel => (hpoll hchild fuel).trans (waitPidPosix_of_overflows hfloat)) (iff_of_true hle fun _ => Or.inl hfloat)
    obtain ⟨k, hk, -⟩ := exists_isLeast_stopsAt τ hT t₁
    have hstop : ∀ i, τ.StopsAt T t₁ i ↔ τ.goneAt ≤ ↑(t₁ + backoff.elapsed i) ∨ T ≤ backoff.elapsed i := fun i => by
      simp [StopsAt, hc]
    refine ⟨k, fun fuel hf => ?_⟩
    obtain ⟨r, s', hr, hs⟩ := waitPidPosix_time pid hfloat hk hf
    refine ⟨r, s', (hpoll hchild fuel).trans hr, ?_⟩
    rw [hs]
    constructor
    · exact fun h _ => Or.inr ⟨k, h, (hstop k).1 hk.1⟩
    · intro h
      obtain ⟨i, hi, hst⟩ := (h rfl).resolve_left hfloat
      have hmono := backoff.elapsed_strictMono.monotone (hk.2 ((hstop i).2 hst))
      linarith
  | true =>
    have hok : ∀ t, t ≤ t₀ + T + backoff.cap → (t ≤ t₀ + T + backoff.cap ↔ (true = false → τ.PollsInTime T t₀ t₁)) :=
      fun t ht => iff_of_true ht (by simp)
    by_cases hg : (t₁ : WithTop ℚ) < τ.goneAt
    · have hw : τ.kernel.waitpid pid false ⟨t₁, false⟩ = some (.status (.ended τ.status), ⟨t₁, true⟩) := by
        simp [kernel, hc, held, hg, hx, reap]
      exact endsAt_now ((convertExitCode (.ended τ.status)).map some) ⟨t₁, true⟩
        (fun fuel => by simp [afterEvents, osWaitpid, hw]) (hok t₁ hle)
    · have hchild : ∀ nohang, τ.kernel.waitpid pid nohang ⟨t₁, false⟩ = some (.childProcessError, ⟨t₁, false⟩) := fun nohang => by
        simp [kernel, held, hg]
      by_cases hfloat : Overflows (some (T : WithTop ℚ))
      · exact endsAt_now (.error .overflowError) ⟨t₁, false⟩
          (fun fuel => (hpoll hchild fuel).trans (waitPidPosix_of_overflows hfloat)) (hok t₁ hle)
      have hzero : IsLeast {k | τ.StopsAt T t₁ k} 0 := ⟨Or.inl (by simpa using hg), fun _ _ => Nat.zero_le _⟩
      refine ⟨0, fun fuel hf => ?_⟩
      obtain ⟨r, s', hr, hs⟩ := waitPidPosix_time pid hfloat hzero hf
      refine ⟨r, s', (hpoll hchild fuel).trans hr, hok _ ?_⟩
      rw [hs, Backoff.elapsed_zero, add_zero]
      exact hle

/-- **After the event wait**, which lasted from `t₀` up to the event, or up to the end of its time. -/
theorem afterEvents_endsAt (τ : Target) (pid : Nat) (hT : 0 < T) (t₀ : ℚ) {lim : ℚ} (hlim : lim ≤ T + backoff.cap) :
    ∃ events s, τ.block (some lim) ⟨t₀, false⟩ = some (events, s) ∧
      EndsAt (fun fuel => afterEvents τ.kernel fuel pid (some T) events s) fun t => t ≤ t₀ + T + backoff.cap ↔
        ∀ x : ℚ, τ.exitAt = x → x ≤ t₀ + lim → τ.child = false → τ.PollsInTime T t₀ (max t₀ x) := by
  have hcap : 0 ≤ backoff.cap := backoff.cap_nonneg
  have hlate : EndsAt (fun fuel => afterEvents τ.kernel fuel pid (some T) false ⟨t₀ + lim, false⟩)
      (· ≤ t₀ + T + backoff.cap) :=
    endsAt_now (.error (.timeoutExpired (some T) none none)) ⟨t₀ + lim, false⟩ (fun _ => rfl) (by dsimp only; linarith)
  by_cases hev : τ.exitAt ≤ deadline (some (lim : WithTop ℚ)) t₀
  · -- the event comes at `x`, or before the start
    obtain ⟨x, hx⟩ := WithTop.ne_top_iff_exists.1 (hev.trans_lt (WithTop.coe_lt_top (t₀ + lim))).ne
    have hxle : x ≤ t₀ + lim := WithTop.coe_le_coe.1 (hx.trans_le hev)
    have hmax : max t₀ x ≤ t₀ + T + backoff.cap := max_le (by linarith) (by linarith)
    refine ⟨true, ⟨max t₀ x, false⟩, block_event hx.symm hev,
      (afterExit_endsAt pid hT (exit_le_max hx.symm t₀) hmax).imp fun t ht => ?_⟩
    rw [ht]
    refine ⟨fun h x' hx' _ hc => ?_, fun h hc => h x hx.symm hxle hc⟩
    obtain rfl := WithTop.coe_injective (hx.trans hx')
    exact h hc
  · obtain ⟨d, hd, hblock⟩ := block_expires (not_le.1 hev)
    obtain rfl : t₀ + lim = d := WithTop.coe_injective hd
    refine ⟨false, ⟨t₀ + lim, false⟩, hblock, hlate.imp fun t ht => iff_of_true ht fun x hx hle => ?_⟩
    exact absurd (hx ▸ WithTop.coe_le_coe.2 hle) hev

/-- What the call has to be given to keep the bound: in time is the poll after the exit event, if there is one. -/
def InTime (τ : Target) (path : WaitPath) (T t₀ : ℚ) : Prop :=
  ∀ lim ∈ τ.eventLimit path T, ∀ x : ℚ, τ.exitAt = x → x ≤ t₀ + lim → τ.child = false → τ.PollsInTime T t₀ (max t₀ x)

/-- A PID that is free at the start is not waited for, and nothing is late. -/
theorem inTime_of_free (path : WaitPath) (hT : 0 < T) {t₀ : ℚ} (h : τ.held ⟨t₀, false⟩ = false) : τ.InTime path T t₀ := by
  intro lim _ x hx _ _
  have hg : τ.goneAt ≤ (t₀ : WithTop ℚ) := by simpa [held] using h
  have hxt : x ≤ t₀ := by exact_mod_cast hx ▸ τ.exit_le_gone.trans hg
  have hcap : 0 ≤ backoff.cap := backoff.cap_nonneg
  refine Or.inr ⟨0, ?_, Or.inl ?_⟩
  · rw [max_eq_left hxt, Backoff.elapsed_zero]
    linarith
  · rw [max_eq_left hxt, Backoff.elapsed_zero, add_zero]
    exact hg

/-- A call that falls back to polling, or fails, at its start. -/
theorem endsAt_fallback (pid : Nat) {path : WaitPath} (hT : 0 < T) {t₀ : ℚ} {call : Nat → Waited TargetState}
    (hcall : (∀ fuel, call fuel = waitPidPosix τ.kernel fuel pid (some T) ⟨t₀, false⟩) ∨
      ∃ e, ∀ fuel, call fuel = some (.error e, ⟨t₀, false⟩)) (h : τ.InTime path T t₀) :
    EndsAt call fun t => t ≤ t₀ + T + backoff.cap ↔ τ.InTime path T t₀ := by
  rcases hcall with hcall | ⟨e, hcall⟩
  · rw [funext hcall]
    exact (waitPidPosix_endsAt τ pid hT t₀).imp fun t ht => iff_of_true ht h
  · have hcap : 0 ≤ backoff.cap := backoff.cap_nonneg
    exact endsAt_now _ _ hcall (iff_of_true (by dsimp only; linarith) h)

/-- A call that waits for the exit event, for `lim` seconds at most. -/
theorem endsAt_event (pid : Nat) {path : WaitPath} (hT : 0 < T) {t₀ lim : ℚ} (hlim : τ.eventLimit path T = some lim) (hle : lim ≤ T + backoff.cap)
    {call : Nat → Waited TargetState} (hcall : ∀ events s, τ.block (some lim) ⟨t₀, false⟩ = some (events, s) →
      ∀ fuel, call fuel = afterEvents τ.kernel fuel pid (some T) events s) :
    EndsAt call fun t => t ≤ t₀ + T + backoff.cap ↔ τ.InTime path T t₀ := by
  obtain ⟨events, s, hblock, hend⟩ := afterEvents_endsAt τ pid hT t₀ hle
  rw [funext (hcall events s hblock)]
  refine hend.imp fun t ht => ht.trans ?_
  simp only [InTime, hlim, Option.mem_some_iff, forall_eq']

theorem waitPidPidfdOpen_endsAt (τ : Target) (pid : Nat) (hT : 0 < T) (t₀ : ℚ) :
    EndsAt (fun fuel => waitPidPidfdOpen τ.kernel fuel pid (some T) ⟨t₀, false⟩) fun t =>
      t ≤ t₀ + T + backoff.cap ↔ τ.InTime .pidfdOpen T t₀ := by
  have hnone : ∀ {e}, τ.pidfdError = some e → τ.InTime .pidfdOpen T t₀ := fun he lim hlim => by
    simp [eventLimit, he] at hlim
  cases he : τ.pidfdError with
  | some e =>
    refine endsAt_fallback pid hT (Or.inl fun fuel => ?_) (hnone he)
    simp [waitPidPidfdOpen, kernel, he]
  | none =>
    cases hheld : τ.held ⟨t₀, false⟩ with
    | false =>
      refine endsAt_fallback pid hT (Or.inl fun fuel => ?_) (inTime_of_free .pidfdOpen hT hheld)
      simp [waitPidPidfdOpen, kernel, he, hheld]
    | true =>
      have hopen : τ.kernel.pidfdOpen pid ⟨t₀, false⟩ = (none, ⟨t₀, false⟩) := by simp [kernel, he, hheld]
      cases hms : timeoutMs (some (T : WithTop ℚ)) with
      | error e =>
        refine endsAt_fallback pid hT (Or.inr ⟨e, fun fuel => ?_⟩) fun lim hlim => ?_
        · simp only [waitPidPidfdOpen, hopen, hms]
        · simp [eventLimit, he, hms] at hlim
      | ok ms =>
        cases ms with
        | none =>
          simp only [timeoutMs] at hms
          split at hms <;> cases hms
        | some ms =>
          have hlim : τ.eventLimit .pidfdOpen T = some (ms / 1000 : ℚ) := by simp [eventLimit, he, hms]
          apply endsAt_event pid hT hlim (timeoutMs_le hT.le hms)
          intro events s hblock fuel
          have hpoll : τ.kernel.poll (some ms) ⟨t₀, false⟩ = some (events, s) := hblock
          simp only [waitPidPidfdOpen, hopen, hms, hpoll]

theorem waitPidKqueue_endsAt (τ : Target) (pid : Nat) (hT : 0 < T) (t₀ : ℚ) :
    EndsAt (fun fuel => waitPidKqueue τ.kernel fuel pid (some T) ⟨t₀, false⟩) fun t =>
      t ≤ t₀ + T + backoff.cap ↔ τ.InTime .kqueue T t₀ := by
  cases hq : τ.kqueueError with
  | some e =>
    refine endsAt_fallback pid hT (Or.inl fun fuel => ?_) fun lim hlim => ?_
    · simp [waitPidKqueue, kernel, hq]
    · simp [eventLimit, hq] at hlim
  | none =>
    have hopen : τ.kernel.kqueue ⟨t₀, false⟩ = (none, ⟨t₀, false⟩) := by simp [kernel, hq]
    cases he : τ.controlError with
    | some e =>
      have hcontrol : τ.kernel.control pid (some T) ⟨t₀, false⟩ = some (.error e, ⟨t₀, false⟩) := by simp [kernel, he]
      refine endsAt_fallback pid hT ?_ fun lim hlim => by simp [eventLimit, hq, he] at hlim
      by_cases hf : ∃ errno, e = .osError errno ∧ (errno = .eacces ∨ errno = .eperm ∨ errno = .esrch)
      · obtain ⟨errno, rfl, herr⟩ := hf
        exact Or.inl fun fuel => by simp only [waitPidKqueue, hopen, hcontrol, if_pos herr]
      · refine Or.inr ⟨e, fun fuel => ?_⟩
        cases e with
        | osError errno =>
          have herr : ¬(errno = .eacces ∨ errno = .eperm ∨ errno = .esrch) := fun h => hf ⟨errno, rfl, h⟩
          simp only [waitPidKqueue, hopen, hcontrol, if_neg herr]
        | _ => simp only [waitPidKqueue, hopen, hcontrol]
    | none =>
      cases hheld : τ.held ⟨t₀, false⟩ with
      | false =>
        refine endsAt_fallback pid hT (Or.inl fun fuel => ?_) (inTime_of_free .kqueue hT hheld)
        simp [waitPidKqueue, hopen]
        simp [kernel, he, hheld]
      | true =>
        have hlim : τ.eventLimit .kqueue T = some T := by simp [eventLimit, hq, he]
        apply endsAt_event pid hT hlim (le_add_of_nonneg_right backoff.cap_nonneg)
        intro events s hblock fuel
        have hcontrol : τ.kernel.control pid (some T) ⟨t₀, false⟩ = some (.ok events, s) := by
          simp [kernel, he, hheld, hblock]
        simp only [waitPidKqueue, hopen, hcontrol]

/-- **A wait takes its timeout and one polling interval at most, exactly when** no exit event of a process that is
not a child makes it poll beyond that. The polling function always keeps the bound. -/
theorem wait_time_bound_iff (τ : Target) (path : WaitPath) (pid : Nat) (T t₀ : ℚ) (hT : 0 < T) :
    EndsAt (fun fuel => waitPath τ.kernel path fuel pid (some T) ⟨t₀, false⟩) fun t =>
      t - t₀ ≤ T + 1 / 25 ↔ τ.InTime path T t₀ := by
  have hcap : ∀ t : ℚ, t - t₀ ≤ T + 1 / 25 ↔ t ≤ t₀ + T + backoff.cap := fun t => by
    rw [show backoff.cap = (1 / 25 : ℚ) from rfl, sub_le_iff_le_add', add_assoc]
  simp only [hcap]
  cases path with
  | pidfdOpen => exact waitPidPidfdOpen_endsAt τ pid hT t₀
  | kqueue => exact waitPidKqueue_endsAt τ pid hT t₀
  | posix => exact endsAt_fallback pid hT (Or.inl fun _ => rfl) fun lim hlim => by simp [eventLimit] at hlim

theorem EndsAt.exists {call : Nat → Waited TargetState} {P Q : ℚ → Prop} (hP : EndsAt call P) (hQ : EndsAt call Q) :
    ∃ t, P t ∧ Q t := by
  obtain ⟨n, hn⟩ := hP
  obtain ⟨m, hm⟩ := hQ
  obtain ⟨r, s', hr, hPs⟩ := hn (max n m + 1) (by omega)
  obtain ⟨r', s'', hr', hQs⟩ := hm (max n m + 1) (by omega)
  obtain ⟨-, rfl⟩ := Prod.mk.inj (Option.some.inj (hr.symm.trans hr'))
  exact ⟨_, hPs, hQs⟩

/-- A process that is not a child exits 0.1 seconds from now, and its zombie stays. -/
def lateZombie : Target := ⟨false, ((1 / 10 : ℚ) : WithTop ℚ), ⊤, le_top, .exited 0, none, none, none⟩

/-- With a timeout of 0.1 seconds the exit event comes in time, and the zombie is then polled for 0.1 seconds more. -/
theorem wait_exceeds_timeout : ¬∀ (τ : Target) (path : WaitPath) (pid : Nat) (T t₀ : ℚ), 0 < T →
    EndsAt (fun fuel => waitPath τ.kernel path fuel pid (some T) ⟨t₀, false⟩) fun t => t - t₀ ≤ T + 1 / 25 := by
  intro h
  have hT : (0 : ℚ) < 1 / 10 := by norm_num
  obtain ⟨t, hle, hiff⟩ := EndsAt.exists (h lateZombie .pidfdOpen 5 (1 / 10) 0 hT)
    (waitPidPidfdOpen_endsAt lateZombie 5 hT 0)
  have hcap : backoff.cap = (1 / 25 : ℚ) := rfl
  have hin := hiff.1 (by rw [hcap]; linarith)
  have hms : timeoutMs (some ((1 / 10 : ℚ) : WithTop ℚ)) = .ok (some 100) := by
    have h100 : double (1 / 10 * 1000) = ((100 : ℤ) : ℚ) := by
      rw [show (1 / 10 * 1000 : ℚ) = ((100 : ℤ) : ℚ) by norm_num]
      exact double_intCast (by norm_num)
    rw [timeoutMs_eq (by norm_num), h100, Int.floor_intCast]
    rfl
  have hlim : lateZombie.eventLimit .pidfdOpen (1 / 10) = some (((100 : Int) : ℚ) / 1000) := by
    simp only [eventLimit, lateZombie, hms, Option.isSome_none, Bool.false_eq_true, if_false]
  have hfloat : ¬Overflows (some ((1 / 10 : ℚ) : WithTop ℚ)) := not_overflows (by norm_num [abs_of_pos])
  obtain ⟨k, hk, hgone | hT'⟩ := (hin _ hlim (1 / 10) rfl (by norm_num) rfl).resolve_left hfloat
  · cases hgone
  · rw [hcap, max_eq_right (by norm_num)] at hk
    linarith

/-- A process that is reaped as soon as it exits, 0.05 seconds from now. -/
def reapedAtExit : Target :=
  ⟨false, ((1 / 20 : ℚ) : WithTop ℚ), ((1 / 20 : ℚ) : WithTop ℚ), le_rfl, .exited 0, none, none, none⟩

theorem wait_time_bound_reaped : EndsAt (fun fuel => waitPath reapedAtExit.kernel .pidfdOpen fuel 5
    (some ((1 / 10 : ℚ) : WithTop ℚ)) ⟨0, false⟩) fun t => t - 0 ≤ 1 / 10 + 1 / 25 := by
  have hin : reapedAtExit.InTime .pidfdOpen (1 / 10) 0 := by
    intro lim _ x hx _ _
    obtain rfl : x = 1 / 20 := (WithTop.coe_injective hx).symm
    refine Or.inr ⟨0, ?_, Or.inl ?_⟩
    · rw [Backoff.elapsed_zero, show backoff.cap = (1 / 25 : ℚ) from rfl]
      norm_num
    · rw [Backoff.elapsed_zero, max_eq_right (by norm_num), add_zero]
      exact le_rfl
  exact (wait_time_bound_iff reapedAtExit .pidfdOpen 5 (1 / 10) 0 (by norm_num)).imp fun t ht => ht.2 hin

end Target

end Psutil
