import Psutil.Wait.Target

/-!
# The three ways to wait agree

What a wait has to do depends on when the process ends and not on how the code waits: `Waits` says it once, for any
call on a `Target`. The polling function and `wait_pid_kqueue` always do it; `wait_paths_agree_iff` says when
`wait_pid_pidfd_open` does, which hands `poll()` a number of milliseconds in a C `int`.
-/

namespace Psutil

open Lib

namespace Target

/-- Only the waiting call reaps a child, and `control()` fails only for want of a permission or of a process. -/
structure Ordinary (τ : Target) : Prop where
  unreaped : τ.child = true → τ.goneAt = ⊤
  control : ∀ e ∈ τ.controlError, e = .osError .eacces ∨ e = .osError .eperm ∨ e = .osError .esrch

/-- When a wait is over: a child has exited, any other process has been reaped as well. -/
def doneAt (τ : Target) : WithTop ℚ := if τ.child then τ.exitAt else τ.goneAt

/-- The exit code or the negated signal of a child. -/
def value (τ : Target) : Except Exc (Option Int) :=
  if τ.child then (convertExitCode (.ended τ.status)).map some else .ok none

/-- With enough fuel the call has this outcome. -/
def Answers (call : Nat → Waited TargetState) (r : Except Exc (Option Int)) : Prop :=
  ∃ n, ∀ fuel, n < fuel → ∃ s', call fuel = some (r, s')

/-- What a wait that starts at `t₀` has to do. -/
structure Waits (τ : Target) (timeout : Timeout) (t₀ : ℚ) (call : Nat → Waited TargetState) : Prop where
  done : τ.doneAt < deadline timeout t₀ → Answers call τ.value
  alive : deadline timeout t₀ + (1 / 25 : ℚ) < τ.exitAt → Answers call (.error (.timeoutExpired timeout none none))
  error : ∀ fuel e s', call fuel = some (.error e, s') → e = .timeoutExpired timeout none none

/-- All three ways do it. -/
def WaitPathsAgree (τ : Target) (pid : Nat) (timeout : Timeout) (t₀ : ℚ) : Prop :=
  ∀ path, τ.Waits timeout t₀ fun fuel => waitPath τ.kernel path fuel pid timeout ⟨t₀, false⟩

variable {τ : Target} {pid : Nat} {timeout : Timeout} {t₀ : ℚ}

theorem exit_le_done (τ : Target) : τ.exitAt ≤ τ.doneAt := by
  unfold doneAt
  split
  · exact le_rfl
  · exact τ.exit_le_gone

theorem value_ok (τ : Target) : ∃ code, τ.value = .ok code := by
  unfold value
  split
  · cases τ.status with
    | exited code => exact ⟨_, rfl⟩
    | signaled sig => exact ⟨_, rfl⟩
  · exact ⟨none, rfl⟩

theorem Answers.unique {call : Nat → Waited TargetState} {r r' : Except Exc (Option Int)} (h : Answers call r)
    (h' : Answers call r') : r = r' := by
  obtain ⟨n, hn⟩ := h
  obtain ⟨m, hm⟩ := h'
  obtain ⟨s, hs⟩ := hn (max n m + 1) (by omega)
  obtain ⟨s', hs'⟩ := hm (max n m + 1) (by omega)
  exact (Prod.mk.inj (Option.some.inj (hs.symm.trans hs'))).1

theorem le_add_cap (d : WithTop ℚ) : d ≤ d + (1 / 25 : ℚ) := le_add_of_nonneg_right (by exact_mod_cast (by norm_num))

/-! ## The polling function -/

theorem check_error {stop : WithTop ℚ} {t : ℚ} {e : Exc} (h : τ.check timeout stop t = some (.error e)) :
    e = .timeoutExpired timeout none none := by
  unfold check at h
  split at h
  · cases h
  · split at h
    · cases hst : τ.status <;> rw [hst] at h <;> cases h
    · split at h <;> cases h
      rfl

/-- Before the deadline only the end of the process is found. -/
theorem check_of_lt_stop (hτ : τ.Ordinary) {stop : WithTop ℚ} {t : ℚ} {r : Except Exc (Option Int)}
    (h : τ.check timeout stop t = some r) (hdone : τ.doneAt < stop) : r = τ.value := by
  unfold check at h
  unfold doneAt at hdone
  unfold value
  cases hc : τ.child with
  | false =>
    rw [hc, if_neg Bool.false_ne_true] at hdone
    rw [if_neg Bool.false_ne_true]
    by_cases hg : τ.goneAt ≤ (t : WithTop ℚ)
    · rw [if_pos hg] at h
      exact (Option.some.inj h).symm
    · have hstop : ¬stop ≤ (t : WithTop ℚ) := fun hle => hg (hdone.le.trans hle)
      simp [hg, hc, hstop] at h
  | true =>
    rw [hc, if_pos rfl] at hdone
    rw [if_pos rfl]
    have hg : ¬τ.goneAt ≤ (t : WithTop ℚ) := by simp [hτ.unreaped hc]
    by_cases hx : τ.exitAt ≤ (t : WithTop ℚ)
    · rw [if_neg hg, if_pos ⟨hc, hx⟩] at h
      exact (Option.some.inj h).symm
    · have hstop : ¬stop ≤ (t : WithTop ℚ) := fun hle => hx (hdone.le.trans hle)
      simp [hg, hx, hstop] at h

/-- A process that is alive is not found. -/
theorem check_of_lt_exit {stop : WithTop ℚ} {t : ℚ} (h : (t : WithTop ℚ) < τ.exitAt) :
    τ.check timeout stop t = if stop ≤ t then some (.error (.timeoutExpired timeout none none)) else none := by
  have hg : ¬τ.goneAt ≤ (t : WithTop ℚ) := not_le.2 (h.trans_le τ.exit_le_gone)
  rw [check, if_neg hg, if_neg fun hx => not_le.2 h hx.2]

/-- The polling call has the outcome of the first check that finds something. -/
theorem posix_answers (hfloat : ¬Overflows timeout) (hblock : timeout.isSome = true ∨ τ.child = false) {k : ℕ} {r : Except Exc (Option Int)}
    (hr : τ.check timeout (deadline timeout t₀) (t₀ + backoff.elapsed k) = some r)
    (hnone : ∀ i < k, τ.check timeout (deadline timeout t₀) (t₀ + backoff.elapsed i) = none) :
    Answers (fun fuel => waitPidPosix τ.kernel fuel pid timeout ⟨t₀, false⟩) r := by
  refine ⟨k, fun fuel hf => ?_⟩
  have hpoll := backoff.poll_eq fuel k.zero_le (fun i _ hi => hnone i hi) hr (by omega)
  rw [← waitPidPosix_eq_poll τ pid hfloat hblock t₀ fuel, Option.map_eq_some_iff] at hpoll
  obtain ⟨⟨r', s'⟩, hw, heq⟩ := hpoll
  obtain ⟨rfl, -⟩ := Prod.mk.inj heq
  exact ⟨s', hw⟩

/-! ## Waiting for the exit -/

/-- `waitpid` on a child that has exited. -/
theorem waitpid_exited (hτ : τ.Ordinary) (hc : τ.child = true) {t : ℚ} (hx : τ.exitAt ≤ t) (nohang : Bool) :
    τ.kernel.waitpid pid nohang ⟨t, false⟩ = some (.status (.ended τ.status), ⟨t, true⟩) := by
  simp [kernel, hc, held, hτ.unreaped hc, hx, reap]

/-- Without a timeout `waitpid` blocks on a child. -/
theorem waitpid_blocks (hτ : τ.Ordinary) (hc : τ.child = true) :
    τ.kernel.waitpid pid false ⟨t₀, false⟩ =
      (τ.block none ⟨t₀, false⟩).map fun r => (.status (.ended τ.status), { r.2 with reaped := true }) := by
  have hle : τ.exitAt ≤ deadline none t₀ := le_top
  cases hx : τ.exitAt with
  | top =>
    have hb := block_forever hx hle
    have hlt : ¬τ.exitAt ≤ (t₀ : WithTop ℚ) := by simp [hx]
    simp [kernel, hc, held, hτ.unreaped hc, hlt, hb]
  | coe x =>
    have hb := block_event hx hle
    by_cases hlt : τ.exitAt ≤ (t₀ : WithTop ℚ)
    · have hmax : max t₀ x = t₀ := max_eq_left (by exact_mod_cast hx ▸ hlt)
      rw [waitpid_exited hτ hc hlt, hb, hmax]
      rfl
    · simp [kernel, hc, held, hτ.unreaped hc, hlt, hb, reap]

/-- Without a timeout the polling function waits for a child in one call. -/
theorem posix_blocks (hτ : τ.Ordinary) (hc : τ.child = true) (fuel : Nat) :
    waitPidPosix τ.kernel (fuel + 1) pid none ⟨t₀, false⟩ = (τ.block none ⟨t₀, false⟩).map fun r =>
      (τ.value, { r.2 with reaped := true }) := by
  have hw : τ.kernel.waitpid pid false ⟨t₀, false⟩ = _ := waitpid_blocks hτ hc
  rw [waitPidPosix_of_not_overflows id, waitLoop, Option.isSome_none, hw]
  cases τ.block none ⟨t₀, false⟩ with
  | none => rfl
  | some r => simp [value, hc]

theorem answers_now {call : Nat → Waited TargetState} {r : Except Exc (Option Int)} (s : TargetState)
    (h : ∀ fuel, call (fuel + 1) = some (r, s)) : Answers call r := by
  refine ⟨0, fun fuel hf => ⟨s, ?_⟩⟩
  obtain ⟨n, rfl⟩ := Nat.exists_eq_succ_of_ne_zero (show fuel ≠ 0 by omega)
  exact h n

/-- If the call finds something at some poll, it answers what it finds at the first such poll. -/
theorem posix_answers_first (pid : Nat) (hfloat : ¬Overflows timeout) (hblock : timeout.isSome = true ∨ τ.child = false) {n : ℕ}
    (hfound : (τ.check timeout (deadline timeout t₀) (t₀ + backoff.elapsed n)).isSome = true) :
    ∃ k r, τ.check timeout (deadline timeout t₀) (t₀ + backoff.elapsed k) = some r ∧
      (∀ i < k, τ.check timeout (deadline timeout t₀) (t₀ + backoff.elapsed i) = none) ∧
      Answers (fun fuel => waitPidPosix τ.kernel fuel pid timeout ⟨t₀, false⟩) r := by
  obtain ⟨k, r, hr, hnone⟩ := backoff.exists_first ⟨n, hfound⟩
  exact ⟨k, r, hr, hnone, posix_answers hfloat hblock hr hnone⟩

/-- Some poll comes after the end of the process. -/
theorem posix_done (hτ : τ.Ordinary) (pid : Nat) (hfloat : ¬Overflows timeout) (hblock : timeout.isSome = true ∨ τ.child = false)
    (hdone : τ.doneAt < deadline timeout t₀) :
    Answers (fun fuel => waitPidPosix τ.kernel fuel pid timeout ⟨t₀, false⟩) τ.value := by
  obtain ⟨d, hd⟩ := WithTop.ne_top_iff_exists.1 hdone.ne_top
  obtain ⟨n, hn⟩ := backoff.exists_le_elapsed (d - t₀)
  have hle : τ.doneAt ≤ ((t₀ + backoff.elapsed n : ℚ) : WithTop ℚ) := by
    rw [← hd]
    exact_mod_cast sub_le_iff_le_add'.1 hn
  have hfound : (τ.check timeout (deadline timeout t₀) (t₀ + backoff.elapsed n)).isSome = true := by
    rw [check_isSome_iff]
    unfold doneAt at hle
    split at hle
    · rename_i hc
      exact Or.inr (Or.inl ⟨hc, hle⟩)
    · exact Or.inl hle
  obtain ⟨k, r, hr, -, hanswers⟩ := posix_answers_first pid hfloat hblock hfound
  rwa [check_of_lt_stop hτ hr hdone] at hanswers

theorem le_deadline (h0 : ∀ t ∈ timeout, 0 ≤ t) (t₀ : ℚ) : (t₀ : WithTop ℚ) ≤ deadline timeout t₀ := by
  refine le_add_of_nonneg_right ?_
  cases timeout with
  | none => exact le_top
  | some t => exact h0 t rfl

/-- From the deadline on every poll finds something. -/
theorem check_of_le_stop {d : ℚ} {n : ℕ} (hn : d - t₀ ≤ backoff.elapsed n) :
    (τ.check timeout (d : WithTop ℚ) (t₀ + backoff.elapsed n)).isSome = true := by
  rw [check_isSome_iff]
  exact Or.inr (Or.inr (by exact_mod_cast sub_le_iff_le_add'.1 hn))

/-- A process that is alive long after the deadline is given up. -/
theorem posix_alive (pid : Nat) (hfloat : ¬Overflows timeout) (hblock : timeout.isSome = true ∨ τ.child = false)
    (h0 : ∀ t ∈ timeout, 0 ≤ t)
    (halive : deadline timeout t₀ + (1 / 25 : ℚ) < τ.exitAt) :
    Answers (fun fuel => waitPidPosix τ.kernel fuel pid timeout ⟨t₀, false⟩) (.error (.timeoutExpired timeout none none)) := by
  obtain ⟨d, hd⟩ := WithTop.ne_top_iff_exists.1 ((le_add_cap _).trans_lt halive).ne_top
  have hstart : t₀ ≤ d := WithTop.coe_le_coe.1 (hd ▸ le_deadline h0 t₀)
  obtain ⟨n, hn⟩ := backoff.exists_le_elapsed (d - t₀)
  obtain ⟨k, r, hr, hnone, hanswers⟩ := posix_answers_first pid hfloat hblock (hd ▸ check_of_le_stop hn)
  -- the polls before are before the deadline, so this one is before the end of the process
  have helapsed : backoff.elapsed k ≤ d - t₀ + backoff.cap := by
    refine backoff.elapsed_le_of_first (sub_nonneg.2 hstart) fun i hi => lt_of_not_ge fun hge => ?_
    have hsome : (τ.check timeout (d : WithTop ℚ) (t₀ + backoff.elapsed i)).isSome = true := check_of_le_stop hge
    rw [hd, hnone i hi] at hsome
    cases hsome
  have hlt : ((t₀ + backoff.elapsed k : ℚ) : WithTop ℚ) < τ.exitAt := by
    refine lt_of_le_of_lt ?_ halive
    rw [← hd, ← WithTop.coe_add, WithTop.coe_le_coe]
    rw [show backoff.cap = (1 / 25 : ℚ) from rfl] at helapsed
    linarith
  rw [check_of_lt_exit hlt] at hr
  split at hr
  · cases hr
    exact hanswers
  · cases hr

/-- A wait for a child without a timeout ends when the child does. -/
theorem posix_waits_forever (hτ : τ.Ordinary) (pid : Nat) (hc : τ.child = true) (t₀ : ℚ) :
    τ.Waits none t₀ fun fuel => waitPidPosix τ.kernel fuel pid none ⟨t₀, false⟩ := by
  have hle : τ.exitAt ≤ deadline none t₀ := le_top
  refine ⟨?_, fun halive => absurd halive (by simp [deadline]), ?_⟩
  · intro hdone
    obtain ⟨x, hx⟩ := WithTop.ne_top_iff_exists.1 (τ.exit_le_done.trans_lt hdone).ne_top
    refine answers_now ⟨max t₀ x, true⟩ fun fuel => ?_
    rw [posix_blocks hτ hc, block_event hx.symm hle]
    rfl
  · intro fuel e s' he
    cases fuel with
    | zero => cases he
    | succ fuel =>
      rw [posix_blocks hτ hc, Option.map_eq_some_iff] at he
      obtain ⟨r, -, hr⟩ := he
      obtain ⟨code, hcode⟩ := τ.value_ok
      rw [hcode] at hr
      cases hr

/-- **The polling function does what a wait has to do**, with a timeout that a float holds. -/
theorem posix_waits (hτ : τ.Ordinary) (pid : Nat) (hfloat : ¬Overflows timeout) (h0 : ∀ t ∈ timeout, 0 ≤ t) (t₀ : ℚ) :
    τ.Waits timeout t₀ fun fuel => waitPidPosix τ.kernel fuel pid timeout ⟨t₀, false⟩ := by
  by_cases hblock : timeout.isSome = true ∨ τ.child = false
  · refine ⟨posix_done hτ pid hfloat hblock, posix_alive pid hfloat hblock h0, fun fuel e s' he => ?_⟩
    have hpoll := waitPidPosix_eq_poll τ pid hfloat hblock t₀ fuel
    rw [he] at hpoll
    obtain ⟨k, hk⟩ := backoff.poll_some fuel 0 hpoll.symm
    exact check_error hk
  · rw [not_or, Bool.not_eq_true, Option.isSome_eq_false_iff, Option.isNone_iff_eq_none, Bool.not_eq_false] at hblock
    obtain ⟨rfl, hc⟩ := hblock
    exact posix_waits_forever hτ pid hc t₀

/-- A call that falls back to polling. -/
theorem waits_of_posix (hτ : τ.Ordinary) (pid : Nat) (hfloat : ¬Overflows timeout) (h0 : ∀ t ∈ timeout, 0 ≤ t) (t₀ : ℚ)
    {call : Nat → Waited TargetState} (hcall : ∀ fuel, call fuel = waitPidPosix τ.kernel fuel pid timeout ⟨t₀, false⟩) :
    τ.Waits timeout t₀ call :=
  funext hcall ▸ posix_waits hτ pid hfloat h0 t₀

/-! ## The event-driven functions -/

/-- After an exit event, which is not long after the deadline. -/
theorem afterExit_waits (hτ : τ.Ordinary) (pid : Nat) (hfloat : ¬Overflows timeout) (h0 : ∀ t ∈ timeout, 0 ≤ t) {t₁ : ℚ}
    (hx : τ.exitAt ≤ t₁) (hstart : t₀ ≤ t₁) (hdead : τ.exitAt ≤ deadline timeout t₀ + (1 / 25 : ℚ)) :
    τ.Waits timeout t₀ fun fuel => afterEvents τ.kernel fuel pid timeout true ⟨t₁, false⟩ := by
  have hnot : ¬deadline timeout t₀ + (1 / 25 : ℚ) < τ.exitAt := not_lt.2 hdead
  cases hc : τ.child with
  | false =>
    -- the whole timeout starts again
    have hcall : (fun fuel => afterEvents τ.kernel fuel pid timeout true ⟨t₁, false⟩) =
        fun fuel => waitPidPosix τ.kernel fuel pid timeout ⟨t₁, false⟩ := by
      funext fuel
      simp [afterEvents, osWaitpid, kernel, hc]
    have hp := posix_waits hτ pid hfloat h0 t₁
    have hmono : deadline timeout t₀ ≤ deadline timeout t₁ := add_le_add_left (by exact_mod_cast hstart) _
    rw [hcall]
    exact ⟨fun hdone => hp.done (hdone.trans_le hmono), fun halive => absurd halive hnot, hp.error⟩
  | true =>
    have hcall : ∀ fuel, afterEvents τ.kernel fuel pid timeout true ⟨t₁, false⟩ = some (τ.value, ⟨t₁, true⟩) := by
      intro fuel
      simp [afterEvents, osWaitpid, waitpid_exited hτ hc hx, value, hc]
    refine ⟨fun _ => answers_now ⟨t₁, true⟩ fun fuel => hcall _, fun halive => absurd halive hnot, fun fuel e s' he => ?_⟩
    obtain ⟨code, hcode⟩ := τ.value_ok
    rw [hcall, hcode] at he
    cases he

/-- A call that gives up is right unless the process is done in time. -/
theorem expired_waits_iff {call : Nat → Waited TargetState} {s : TargetState}
    (hexp : ∀ fuel, call fuel = some (.error (.timeoutExpired timeout none none), s)) :
    τ.Waits timeout t₀ call ↔ ¬τ.doneAt < deadline timeout t₀ := by
  constructor
  · intro h hdone
    obtain ⟨code, hcode⟩ := τ.value_ok
    have heq := (answers_now s fun fuel => hexp (fuel + 1)).unique (h.done hdone)
    rw [hcode] at heq
    cases heq
  · intro h
    refine ⟨fun hdone => absurd hdone h, fun _ => answers_now s fun fuel => hexp _, fun fuel e s' he => ?_⟩
    rw [hexp] at he
    cases he
    rfl

/-- A call that never returns is right for a process that never exits, without a deadline. -/
theorem hanging_waits {call : Nat → Waited TargetState} (hnone : ∀ fuel, call fuel = none) (hx : τ.exitAt = ⊤)
    (hdead : deadline timeout t₀ = ⊤) : τ.Waits timeout t₀ call where
  done hdone := absurd (hx ▸ τ.exit_le_done.trans_lt hdone) not_top_lt
  alive halive := absurd (hx ▸ halive) (by simp [hdead])
  error fuel e s' he := by
    rw [hnone] at he
    cases he

/-- **A wait for the exit event**, up to a deadline that is perhaps not that of the call, but not much later. -/
theorem event_waits_iff (hτ : τ.Ordinary) (pid : Nat) (hfloat : ¬Overflows timeout) (h0 : ∀ t ∈ timeout, 0 ≤ t) {lim : Timeout}
    (hlim : deadline lim t₀ ≤ deadline timeout t₀ + (1 / 25 : ℚ)) {call : Nat → Waited TargetState}
    (hcall : ∀ fuel, call fuel = match τ.block lim ⟨t₀, false⟩ with
      | none => none
      | some (events, s) => afterEvents τ.kernel fuel pid timeout events s) :
    τ.Waits timeout t₀ call ↔ ¬(deadline lim t₀ < τ.exitAt ∧ τ.doneAt < deadline timeout t₀) := by
  by_cases hev : τ.exitAt ≤ deadline lim t₀
  · refine iff_of_true ?_ fun h => not_lt.2 hev h.1
    cases hx : τ.exitAt with
    | top =>
      have hle := hev.trans hlim
      rw [hx, top_le_iff] at hle
      have htop : deadline timeout t₀ = ⊤ := by simpa using hle
      exact hanging_waits (fun fuel => by rw [hcall, block_forever hx hev]) hx htop
    | coe x =>
      have hafter : call = fun fuel => afterEvents τ.kernel fuel pid timeout true ⟨max t₀ x, false⟩ := by
        funext fuel
        rw [hcall, block_event hx hev]
      rw [hafter]
      exact afterExit_waits hτ pid hfloat h0 (exit_le_max hx t₀) (le_max_left _ _) (hev.trans hlim)
  · rw [not_le] at hev
    obtain ⟨d, -, hblock⟩ := block_expires hev
    have hexp : ∀ fuel, call fuel = some (.error (.timeoutExpired timeout none none), ⟨d, false⟩) := by
      intro fuel
      rw [hcall, hblock]
      rfl
    rw [expired_waits_iff hexp, and_iff_right hev]

/-- `control()` falls back to polling, or waits for the whole timeout. -/
theorem kqueue_waits (hτ : τ.Ordinary) (pid : Nat) (hfloat : ¬Overflows timeout) (h0 : ∀ t ∈ timeout, 0 ≤ t) (t₀ : ℚ) :
    τ.Waits timeout t₀ fun fuel => waitPidKqueue τ.kernel fuel pid timeout ⟨t₀, false⟩ := by
  cases hq : τ.kqueueError with
  | some e => exact waits_of_posix hτ pid hfloat h0 t₀ fun fuel => by simp [waitPidKqueue, kernel, hq]
  | none =>
    have hopen : τ.kernel.kqueue ⟨t₀, false⟩ = (none, ⟨t₀, false⟩) := by simp [kernel, hq]
    cases he : τ.controlError with
    | some e =>
      have hcontrol : τ.kernel.control pid timeout ⟨t₀, false⟩ = some (.error e, ⟨t₀, false⟩) := by simp [kernel, he]
      rcases hτ.control e he with rfl | rfl | rfl <;> exact waits_of_posix hτ pid hfloat h0 t₀ fun fuel => by simp [waitPidKqueue, hopen, hcontrol]
    | none =>
      cases hheld : τ.held ⟨t₀, false⟩ with
      | false =>
        have hcontrol : τ.kernel.control pid timeout ⟨t₀, false⟩ = some (.error (.osError .esrch), ⟨t₀, false⟩) := by
          simp [kernel, he, hheld]
        exact waits_of_posix hτ pid hfloat h0 t₀ fun fuel => by simp [waitPidKqueue, hopen, hcontrol]
      | true =>
        have hcontrol : τ.kernel.control pid timeout ⟨t₀, false⟩ =
            (τ.block timeout ⟨t₀, false⟩).map fun r => (.ok r.1, r.2) := by simp [kernel, he, hheld]
        refine (event_waits_iff hτ pid hfloat h0 (le_add_cap _) fun fuel => ?_).2 fun h => ?_
        · simp only [waitPidKqueue, hopen, hcontrol]
          cases τ.block timeout ⟨t₀, false⟩ <;> rfl
        · exact absurd (h.1.trans_le τ.exit_le_done) (not_lt.2 h.2.le)

theorem not_waits_overflow {call : Nat → Waited TargetState} {s : TargetState}
    (h : ∀ fuel, call fuel = some (.error .overflowError, s)) : ¬τ.Waits timeout t₀ call := by
  intro hw
  have := hw.error 0 _ _ (h 0)
  cases this

theorem not_waits_of_overflows (hover : Overflows timeout) (pid : Nat) :
    ¬τ.Waits timeout t₀ fun fuel => waitPidPosix τ.kernel fuel pid timeout ⟨t₀, false⟩ :=
  not_waits_overflow fun _ => waitPidPosix_of_overflows hover

/-- The event wait of `wait_pid_pidfd_open`, with a timeout in whole milliseconds. -/
theorem pidfd_waits_ms (hτ : τ.Ordinary) (pid : Nat) {t : ℚ} (hfloat : ¬Overflows (some (t : WithTop ℚ))) (ht : 0 ≤ t) {t₀ : ℚ}
    (hopen : τ.kernel.pidfdOpen pid ⟨t₀, false⟩ = (none, ⟨t₀, false⟩)) :
    (τ.Waits (some (t : WithTop ℚ)) t₀ fun fuel => waitPidPidfdOpen τ.kernel fuel pid (some (t : WithTop ℚ)) ⟨t₀, false⟩) ↔
      ⌊double (t * 1000)⌋ < 2147483648 ∧
        ¬(((t₀ + ⌊double (t * 1000)⌋ / 1000 : ℚ) : WithTop ℚ) < τ.exitAt ∧ τ.doneAt < (t₀ + t : ℚ)) := by
  have h0 : ∀ t' ∈ (some (t : WithTop ℚ) : Timeout), 0 ≤ t' := by
    rintro _ ⟨⟩
    exact_mod_cast ht
  have hms := timeoutMs_eq ht
  generalize ⌊double (t * 1000)⌋ = ms at hms ⊢
  by_cases hfit : ms < 2147483648
  · rw [if_pos hfit] at hms
    have hlim : deadline (some ((ms / 1000 : ℚ) : WithTop ℚ)) t₀ ≤ deadline (some (t : WithTop ℚ)) t₀ + (1 / 25 : ℚ) := by
      have hle := timeoutMs_le ht hms
      rw [show backoff.cap = (1 / 25 : ℚ) from rfl] at hle
      have hsum : t₀ + (ms / 1000 : ℚ) ≤ t₀ + t + 1 / 25 := by linarith
      exact WithTop.coe_le_coe.2 hsum
    have hpoll : τ.kernel.poll (some ms) ⟨t₀, false⟩ = τ.block (some ((ms / 1000 : ℚ) : WithTop ℚ)) ⟨t₀, false⟩ := rfl
    rw [event_waits_iff hτ pid hfloat h0 hlim fun fuel => ?_]
    · simp [deadline, hfit]
    · simp only [waitPidPidfdOpen, hopen, hms, hpoll]
      cases τ.block (some ((ms / 1000 : ℚ) : WithTop ℚ)) ⟨t₀, false⟩ <;> rfl
  · rw [if_neg hfit] at hms
    refine iff_of_false (not_waits_overflow (s := ⟨t₀, false⟩) fun fuel => ?_) fun h => hfit h.1
    simp only [waitPidPidfdOpen, hopen, hms]

/-- **When `wait_pid_pidfd_open` does what a wait has to do**, with a timeout that a float holds: it falls back to polling, or
the milliseconds fit, and the process does not end in the fraction of a millisecond that is cut off. -/
theorem pidfd_waits_iff (hτ : τ.Ordinary) (pid : Nat) (hfloat : ¬Overflows timeout) (h0 : ∀ t ∈ timeout, 0 ≤ t) (t₀ : ℚ) :
    (τ.Waits timeout t₀ fun fuel => waitPidPidfdOpen τ.kernel fuel pid timeout ⟨t₀, false⟩) ↔
      τ.pidfdError.isSome = true ∨ τ.goneAt ≤ t₀ ∨ timeout = none ∨ ∃ t : ℚ, timeout = some (t : WithTop ℚ) ∧
        ⌊double (t * 1000)⌋ < 2147483648 ∧
          ¬(((t₀ + ⌊double (t * 1000)⌋ / 1000 : ℚ) : WithTop ℚ) < τ.exitAt ∧ τ.doneAt < (t₀ + t : ℚ)) := by
  cases he : τ.pidfdError with
  | some e =>
    exact iff_of_true (waits_of_posix hτ pid hfloat h0 t₀ fun fuel => by simp [waitPidPidfdOpen, kernel, he]) (Or.inl rfl)
  | none =>
    by_cases hg : τ.goneAt ≤ (t₀ : WithTop ℚ)
    · have hheld : τ.held ⟨t₀, false⟩ = false := by simp [held, hg]
      exact iff_of_true (waits_of_posix hτ pid hfloat h0 t₀ fun fuel => by simp [waitPidPidfdOpen, kernel, he, hheld])
        (Or.inr (Or.inl hg))
    · have hheld : τ.held ⟨t₀, false⟩ = true := by simpa [held] using hg
      have hopen : τ.kernel.pidfdOpen pid ⟨t₀, false⟩ = (none, ⟨t₀, false⟩) := by simp [kernel, he, hheld]
      have hforever : τ.kernel.poll none ⟨t₀, false⟩ = τ.block none ⟨t₀, false⟩ := rfl
      simp only [Option.isSome_none, Bool.false_eq_true, hg, false_or]
      cases timeout with
      | none =>
        refine iff_of_true ((event_waits_iff hτ pid hfloat h0 (le_add_cap _) fun fuel => ?_).2 fun h => ?_) (Or.inl rfl)
        · simp only [waitPidPidfdOpen, hopen, timeoutMs, hforever]
          cases τ.block none ⟨t₀, false⟩ <;> rfl
        · exact absurd (h.1.trans_le τ.exit_le_done) (not_lt.2 h.2.le)
      | some T =>
        cases T with
        | top =>
          refine iff_of_false (not_waits_overflow (s := ⟨t₀, false⟩) fun fuel => ?_) (by simp)
          simp only [waitPidPidfdOpen, hopen, timeoutMs]
        | coe t =>
          have ht : 0 ≤ t := by exact_mod_cast h0 t rfl
          rw [pidfd_waits_ms hτ pid hfloat ht hopen]
          constructor
          · exact fun h => Or.inr ⟨t, rfl, h⟩
          · rintro (h | ⟨t', ht', h⟩)
            · cases h
            · obtain rfl := WithTop.coe_injective (Option.some.inj ht')
              exact h

/-- **The three ways to wait agree exactly when** a float holds the timeout, and the event wait of `wait_pid_pidfd_open` is not
used, or has no end, or its milliseconds fit and cut nothing off in which the process ends. -/
theorem wait_paths_agree_iff (τ : Target) (hτ : τ.Ordinary) (pid : Nat) (timeout : Timeout) (h0 : ∀ t ∈ timeout, 0 ≤ t)
    (t₀ : ℚ) : τ.WaitPathsAgree pid timeout t₀ ↔ ¬Overflows timeout ∧
      (τ.pidfdError.isSome = true ∨ τ.goneAt ≤ t₀ ∨ timeout = none ∨ ∃ t : ℚ, timeout = some (t : WithTop ℚ) ∧
        ⌊double (t * 1000)⌋ < 2147483648 ∧
          ¬(((t₀ + ⌊double (t * 1000)⌋ / 1000 : ℚ) : WithTop ℚ) < τ.exitAt ∧ τ.doneAt < (t₀ + t : ℚ))) := by
  by_cases hover : Overflows timeout
  · exact iff_of_false (fun h => not_waits_of_overflows hover pid (h .posix)) fun h => h.1 hover
  rw [and_iff_right hover, ← pidfd_waits_iff hτ pid hover h0 t₀]
  refine ⟨fun h => h .pidfdOpen, fun h path => ?_⟩
  cases path with
  | pidfdOpen => exact h
  | kqueue => exact kqueue_waits hτ pid hover h0 t₀
  | posix => exact posix_waits hτ pid hover h0 t₀

/-- A child that exits with code 3 one second from now. -/
def exitsInOneSecond : Target := ⟨true, ((1 : ℚ) : WithTop ℚ), ⊤, le_top, .exited 3, none, none, none⟩

theorem exitsInOneSecond_ordinary : exitsInOneSecond.Ordinary := ⟨fun _ => rfl, fun e he => by cases he⟩

/-- With an infinite timeout `int(timeout * 1000)` raises `OverflowError`. -/
theorem wait_paths_disagree : ¬∀ (τ : Target), τ.Ordinary → ∀ (pid : Nat) (timeout : Timeout), (∀ t ∈ timeout, 0 ≤ t) →
    ∀ t₀ : ℚ, τ.WaitPathsAgree pid timeout t₀ := by
  intro h
  have hw := h exitsInOneSecond exitsInOneSecond_ordinary 5 (some ⊤) (by simp) 0 .pidfdOpen
  have herr := hw.error 0 .overflowError ⟨0, false⟩ rfl
  cases herr

/-- With a timeout of two seconds all three return 3. -/
theorem wait_paths_agree_in_time : exitsInOneSecond.WaitPathsAgree 5 (some ((2 : ℚ) : WithTop ℚ)) 0 := by
  have hfloor : ⌊double ((2 : ℚ) * 1000)⌋ = 2000 := by
    rw [show (2 * 1000 : ℚ) = ((2000 : ℤ) : ℚ) by norm_num, double_intCast (by norm_num), Int.floor_intCast]
  refine (wait_paths_agree_iff exitsInOneSecond exitsInOneSecond_ordinary 5 _ (by simp) 0).2 ⟨not_overflows (by norm_num), ?_⟩
  refine Or.inr (Or.inr (Or.inr ⟨2, rfl, by rw [hfloor]; norm_num, fun h => ?_⟩))
  have hlt := h.1
  rw [hfloor] at hlt
  have hlt' : (0 + ((2000 : Int) : ℚ) / 1000) < 1 := WithTop.coe_lt_coe.1 hlt
  norm_num at hlt'

end Target

end Psutil
