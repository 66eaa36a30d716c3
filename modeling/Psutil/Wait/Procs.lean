import Psutil.Lib.Tolerance
import Psutil.Wait.WaitPid

/-!
# `wait_procs` (`__init__.py:1875-1969`)

| here | there |
| --- | --- |
| `WaitEnv` | `_timer`, the methods `wait` and `is_running`, the callback, the order in which a set is iterated |
| `processEq` | `__eq__` (`:538`), with the hash of `__hash__` (`:548`) the equality of a set |
| `checkGone` | `check_gone` (`:1917`) |
| `waitRound`, `waitRounds`, `lastAttempt` | the `for` loop (`:1945`), the `while` loop (`:1942`), the last attempt (`:1962`) |
| `waitProcs` | `wait_procs` (`:1875`) |

An object is a number; its `_ident` does not change after the constructor. The log tells what was done to the objects,
in order: `wait_procs_partition` reads everything off it. `deadline` is `none` where `timeout` is `None`.
-/

namespace Psutil

open Lib

/-- What the function calls, on a state of everything else. -/
structure WaitEnv (σ : Type) where
  timer : σ → ℚ × σ
  wait : Nat → ℚ → σ → Except Exc (Option Int) × σ
  isRunning : Nat → σ → Bool × σ
  callback : Nat → σ → Except Exc Unit × σ
  order : σ → List Nat → List Nat
  order_perm : ∀ s l, (order s l).Perm l

/-- The argument `callback`; one that is not callable comes with its `repr`. -/
inductive CallbackArg where
  | none
  | callable
  | other (repr : String)
  deriving DecidableEq

inductive ProcsEvent where
  | waited (proc : Nat) (outcome : Except Exc (Option Int))
  /-- `proc.returncode = returncode`. -/
  | returncode (proc : Nat) (code : Option Int)
  | called (proc : Nat)

/-- The outcomes of the `wait` calls on an object, the values its `returncode` was given, and how often the callback
was called with it. -/
def waitsOf (p : Nat) (log : List ProcsEvent) : List (Except Exc (Option Int)) :=
  log.filterMap fun ev => match ev with
    | .waited q r => if q = p then some r else none
    | _ => none

def returncodesOf (p : Nat) (log : List ProcsEvent) : List (Option Int) :=
  log.filterMap fun ev => match ev with
    | .returncode q code => if q = p then some code else none
    | _ => none

def callbacksOf (p : Nat) (log : List ProcsEvent) : Nat :=
  log.countP fun ev => match ev with
    | .called q => q = p
    | _ => false

/-- The variables of the function, and the rest of the world. -/
structure Procs (σ : Type) where
  gone : List Nat
  log : List ProcsEvent
  env : σ

def processEq (ident : Nat → Ident) : Tolerance Nat where
  eq p q := cmpIdents (ident p) (ident q) ≠ .different
  refl p := decide_eq_true (cmpIdents_self (ident p))
  symm p q h := by rwa [cmpIdents_comm (ident q)]

section

variable {σ : Type} (E : WaitEnv σ) (ident : Nat → Ident) (callback : Bool)

/-- The process has terminated. -/
def settle (proc : Nat) (returncode : Option Int) (s : Procs σ) : Except Exc (Procs σ) :=
  let s := { s with gone := (processEq ident).add s.gone proc, log := s.log ++ [.returncode proc returncode] }
  if callback then match E.callback proc s.env with
    | (.error e, _) => .error e
    | (.ok (), env) => .ok { s with log := s.log ++ [.called proc], env := env }
  else .ok s

def checkGone (proc : Nat) (timeout : ℚ) (s : Procs σ) : Except Exc (Procs σ) :=
  match E.wait proc timeout s.env with
  | (.error (.timeoutExpired seconds pid name), env) =>
    .ok { s with log := s.log ++ [.waited proc (.error (.timeoutExpired seconds pid name))], env := env }
  | (.error e, _) => .error e
  | (.ok returncode, env) =>
    let s := { s with log := s.log ++ [.waited proc (.ok returncode)], env := env }
    if returncode ≠ none then settle E ident callback proc returncode s
    else match E.isRunning proc s.env with
      | (true, env) => .ok { s with env := env }
      | (false, env) => settle E ident callback proc returncode { s with env := env }

/-- `min((deadline - _timer()), max_timeout)`. -/
def remaining (deadline : WithTop ℚ) (now maxTimeout : ℚ) : ℚ :=
  match deadline with
  | ⊤ => maxTimeout
  | (d : ℚ) => min (d - now) maxTimeout

/-- One round over `n` processes, with the variable `timeout` after it. -/
def waitRound (deadline : Option (WithTop ℚ)) (n : Nat) : List Nat → Timeout → Procs σ → Except Exc (Timeout × Procs σ)
  | [], timeout, s => .ok (timeout, s)
  | proc :: rest, timeout, s =>
    let maxTimeout : ℚ := 1 / n
    match deadline with
    | some d =>
      let (now, env) := E.timer s.env
      let t := remaining d now maxTimeout
      if t ≤ 0 then .ok (some t, { s with env := env })
      else match checkGone E ident callback proc t { s with env := env } with
        | .error e => .error e
        | .ok s => waitRound (some d) n rest (some t) s
    | none => match checkGone E ident callback proc maxTimeout s with
      | .error e => .error e
      | .ok s => waitRound none n rest timeout s

def waitRounds (deadline : Option (WithTop ℚ)) : Nat → List Nat → Timeout → Procs σ →
    Option (Except Exc (List Nat × Procs σ))
  | 0, _, _, _ => none
  | fuel + 1, alive, timeout, s =>
    if alive = [] ∨ ∃ t ∈ timeout, t ≤ 0 then some (.ok (alive, s))
    else match waitRound E ident callback deadline alive.length (E.order s.env alive) timeout s with
      | .error e => some (.error e)
      | .ok (timeout, s) => waitRounds deadline fuel ((processEq ident).diff alive s.gone) timeout s

def lastAttempt : List Nat → Procs σ → Except Exc (Procs σ)
  | [], s => .ok s
  | proc :: rest, s => match checkGone E ident callback proc 0 s with
    | .error e => .error e
    | .ok s => lastAttempt rest s

/-- `_timer() + timeout`. -/
def deadlineOf (timeout : Timeout) (env : σ) : Option (WithTop ℚ) × σ :=
  match timeout with
  | none => (none, env)
  | some t => (some ((E.timer env).1 + t), (E.timer env).2)

end

/-- `wait_procs(procs, timeout, callback)`: the two lists, or an exception, with what was done; `text` is the text of
the timeout. -/
def waitProcs {σ : Type} (E : WaitEnv σ) (ident : Nat → Ident) (fuel : Nat) (procs : List Nat) (timeout : Timeout)
    (text : String) (callback : CallbackArg) (env : σ) : Option (Except Exc ((List Nat × List Nat) × List ProcsEvent × σ)) :=
  if ∃ t ∈ timeout, ¬0 ≤ t then some (.error (.valueError ("timeout must be a positive integer, got " ++ text)))
  else match callback with
  | .other repr => some (.error (.typeError ("callback " ++ repr ++ " is not a callable")))
  | callback =>
    let callback := callback == .callable
    let (deadline, env) := deadlineOf E timeout env
    match waitRounds E ident callback deadline fuel ((processEq ident).ofList procs) timeout ⟨[], [], env⟩ with
    | none => none
    | some (.error e) => some (.error e)
    | some (.ok (alive, s)) =>
      if alive = [] then some (.ok ((E.order s.env s.gone, []), s.log, s.env))
      else match lastAttempt E ident callback (E.order s.env alive) s with
        | .error e => some (.error e)
        | .ok s =>
          some (.ok ((E.order s.env s.gone, E.order s.env ((processEq ident).diff alive s.gone)), s.log, s.env))

/-! ## What a check does -/

theorem waitsOf_append (p : Nat) (l l' : List ProcsEvent) : waitsOf p (l ++ l') = waitsOf p l ++ waitsOf p l' :=
  List.filterMap_append

theorem returncodesOf_append (p : Nat) (l l' : List ProcsEvent) :
    returncodesOf p (l ++ l') = returncodesOf p l ++ returncodesOf p l' := List.filterMap_append

theorem callbacksOf_append (p : Nat) (l l' : List ProcsEvent) : callbacksOf p (l ++ l') = callbacksOf p l + callbacksOf p l' :=
  List.countP_append

/-- What is done to a process that has terminated. -/
def goneEvents (callback : Bool) (proc : Nat) (returncode : Option Int) : List ProcsEvent :=
  [.waited proc (.ok returncode), .returncode proc returncode] ++ if callback then [.called proc] else []

theorem returncodesOf_goneEvents (callback : Bool) (p proc : Nat) (code : Option Int) :
    returncodesOf p (goneEvents callback proc code) = if proc = p then [code] else [] := by
  cases callback <;> by_cases h : proc = p <;> simp [returncodesOf, goneEvents, h]

theorem waitsOf_goneEvents (callback : Bool) (p proc : Nat) (code : Option Int) :
    waitsOf p (goneEvents callback proc code) = if proc = p then [.ok code] else [] := by
  cases callback <;> by_cases h : proc = p <;> simp [waitsOf, goneEvents, h]

theorem callbacksOf_goneEvents (callback : Bool) (p proc : Nat) (code : Option Int) :
    callbacksOf p (goneEvents callback proc code) = if proc = p ∧ callback = true then 1 else 0 := by
  cases callback <;> by_cases h : proc = p <;> simp [callbacksOf, goneEvents, h]

section

variable {σ : Type} {E : WaitEnv σ} {ident : Nat → Ident} {callback : Bool}

theorem settle_ok {proc : Nat} {code : Option Int} {s s' : Procs σ} (h : settle E ident callback proc code s = .ok s') :
    s'.gone = (processEq ident).add s.gone proc ∧
      s'.log = s.log ++ [.returncode proc code] ++ if callback then [.called proc] else [] := by
  unfold settle at h
  dsimp only at h
  split at h
  · split at h
    · cases h
    · cases h
      exact ⟨rfl, by simp [*]⟩
  · rename_i hcb
    cases h
    exact ⟨rfl, by rw [if_neg hcb, List.append_nil]⟩

/-- A check waits once, and leaves it at that or finds the process gone. -/
theorem checkGone_ok {proc : Nat} {timeout : ℚ} {s s' : Procs σ}
    (h : checkGone E ident callback proc timeout s = .ok s') :
    (∃ r, s'.gone = s.gone ∧ s'.log = s.log ++ [.waited proc r]) ∨
      ∃ code, s'.gone = (processEq ident).add s.gone proc ∧ s'.log = s.log ++ goneEvents callback proc code := by
  have hsettle : ∀ {code : Option Int} {env : σ},
      settle E ident callback proc code { s with log := s.log ++ [.waited proc (.ok code)], env := env } = .ok s' →
      ∃ code, s'.gone = (processEq ident).add s.gone proc ∧ s'.log = s.log ++ goneEvents callback proc code := by
    intro code env hs
    obtain ⟨hgone, hlog⟩ := settle_ok hs
    exact ⟨code, hgone, by simpa [goneEvents] using hlog⟩
  unfold checkGone at h
  split at h
  · cases h
    exact Or.inl ⟨_, rfl, rfl⟩
  · cases h
  · dsimp only at h
    split at h
    · exact Or.inr (hsettle h)
    · split at h
      · cases h
        exact Or.inl ⟨_, rfl, rfl⟩
      · exact Or.inr (hsettle h)

/-- Some processes of a list have been checked, in its order; the clock may have been read in between. -/
inductive Checks (E : WaitEnv σ) (ident : Nat → Ident) (callback : Bool) : List Nat → Procs σ → Procs σ → Prop where
  | stop (todo : List Nat) (s : Procs σ) (env : σ) : Checks E ident callback todo s { s with env := env }
  | check {proc : Nat} {rest : List Nat} {timeout : ℚ} {s s' s'' : Procs σ} {env : σ} :
      checkGone E ident callback proc timeout { s with env := env } = .ok s' → Checks E ident callback rest s' s'' →
      Checks E ident callback (proc :: rest) s s''

theorem checks_lastAttempt {todo : List Nat} {s s' : Procs σ} (h : lastAttempt E ident callback todo s = .ok s') :
    Checks E ident callback todo s s' := by
  induction todo generalizing s with
  | nil =>
    cases h
    exact .stop [] _ _
  | cons proc rest ih =>
    unfold lastAttempt at h
    split at h
    · cases h
    · rename_i hc
      have hc' : checkGone E ident callback proc 0 { s with env := s.env } = .ok _ := hc
      exact .check hc' (ih h)

theorem checks_waitRound {deadline : Option (WithTop ℚ)} {n : Nat} {todo : List Nat} {timeout timeout' : Timeout}
    {s s' : Procs σ} (h : waitRound E ident callback deadline n todo timeout s = .ok (timeout', s')) :
    Checks E ident callback todo s s' ∧ (deadline = none → timeout' = timeout) := by
  induction todo generalizing timeout s with
  | nil =>
    cases h
    exact ⟨.stop [] _ _, fun _ => rfl⟩
  | cons proc rest ih =>
    unfold waitRound at h
    dsimp only at h
    split at h
    · split at h
      · cases h
        exact ⟨.stop _ s _, by simp⟩
      · split at h
        · cases h
        · rename_i hc
          exact ⟨.check hc (ih h).1, by simp⟩
    · split at h
      · cases h
      · rename_i hc
        have hc' : checkGone E ident callback proc _ { s with env := s.env } = .ok _ := hc
        exact ⟨.check hc' (ih h).1, (ih h).2⟩

/-! ## The invariant -/

/-- What has been done to the processes of `base`: all to those that are gone, nothing to the others. -/
structure Settled (base : List Nat) (callback : Bool) (gone : List Nat) (log : List ProcsEvent) : Prop where
  subset : gone ⊆ base
  nodup : gone.Nodup
  settled : ∀ p ∈ gone, ∃ code, (waitsOf p log).getLast? = some (.ok code) ∧ returncodesOf p log = [code] ∧
    callbacksOf p log = if callback = true then 1 else 0
  pending : ∀ p, p ∉ gone → returncodesOf p log = [] ∧ callbacksOf p log = 0

variable {base : List Nat}

theorem Settled.waited {gone : List Nat} {log : List ProcsEvent} (h : Settled base callback gone log) {proc : Nat}
    (hno : proc ∉ gone) (r : Except Exc (Option Int)) : Settled base callback gone (log ++ [.waited proc r]) := by
  refine ⟨h.subset, h.nodup, ?_, ?_⟩
  · intro p hp
    obtain ⟨code, hw, hr, hc⟩ := h.settled p hp
    have hne : proc ≠ p := fun heq => hno (heq ▸ hp)
    refine ⟨code, ?_, ?_, ?_⟩
    · rw [waitsOf_append]
      simpa [waitsOf, hne] using hw
    · rw [returncodesOf_append, hr]
      rfl
    · rw [callbacksOf_append, hc]
      rfl
  · intro p hp
    obtain ⟨hr, hc⟩ := h.pending p hp
    exact ⟨by rw [returncodesOf_append, hr]; rfl, by rw [callbacksOf_append, hc]; rfl⟩

theorem Settled.gone {gone : List Nat} {log : List ProcsEvent} (h : Settled base callback gone log) {proc : Nat}
    (hbase : proc ∈ base) (hno : proc ∉ gone) (code : Option Int) :
    Settled base callback (gone ++ [proc]) (log ++ goneEvents callback proc code) := by
  refine ⟨List.append_subset.2 ⟨h.subset, by simpa using hbase⟩, ?_, ?_, ?_⟩
  · exact List.nodup_append.2 ⟨h.nodup, List.nodup_singleton _, by rintro a ha b hb rfl; simp_all⟩
  · intro p hp
    rw [waitsOf_append, returncodesOf_append, callbacksOf_append, waitsOf_goneEvents, returncodesOf_goneEvents,
      callbacksOf_goneEvents]
    rcases List.mem_append.1 hp with hp | hp
    · obtain ⟨code', hw, hr, hc⟩ := h.settled p hp
      have hne : proc ≠ p := fun heq => hno (heq ▸ hp)
      exact ⟨code', by simpa [hne] using hw, by simpa [hne] using hr, by simpa [hne] using hc⟩
    · obtain rfl := List.mem_singleton.1 hp
      obtain ⟨hr, hc⟩ := h.pending _ hno
      exact ⟨code, by simp, by simp [hr], by simp [hc]⟩
  · intro p hp
    rw [List.mem_append, List.mem_singleton, not_or] at hp
    obtain ⟨hr, hc⟩ := h.pending p hp.1
    rw [returncodesOf_append, callbacksOf_append, returncodesOf_goneEvents, callbacksOf_goneEvents, hr, hc]
    simp [Ne.symm hp.2]

/-- The step: a check of a process that is not gone yet. -/
theorem checkGone_settled (hd : (processEq ident).Distinct base) {proc : Nat} {timeout : ℚ} {s s' : Procs σ}
    (h : checkGone E ident callback proc timeout s = .ok s') (hs : Settled base callback s.gone s.log)
    (hbase : proc ∈ base) (hno : proc ∉ s.gone) :
    Settled base callback s'.gone s'.log ∧ s.gone ⊆ s'.gone ∧ ∀ p ∈ s'.gone, p ∈ s.gone ∨ p = proc := by
  rcases checkGone_ok h with ⟨r, hgone, hlog⟩ | ⟨code, hgone, hlog⟩
  · rw [hgone, hlog]
    exact ⟨hs.waited hno r, List.Subset.refl _, fun p hp => Or.inl hp⟩
  · rw [hgone, hlog, Tolerance.add_eq hd hs.subset hbase hno]
    exact ⟨hs.gone hbase hno code, List.subset_append_left _ _, fun p hp => by simpa using hp⟩

/-- The run: no process of the list is checked twice. -/
theorem Checks.settled (hd : (processEq ident).Distinct base) {todo : List Nat} {s s' : Procs σ}
    (h : Checks E ident callback todo s s') (hs : Settled base callback s.gone s.log) (hbase : todo ⊆ base)
    (hnd : todo.Nodup) (hno : ∀ p ∈ todo, p ∉ s.gone) : Settled base callback s'.gone s'.log ∧ s.gone ⊆ s'.gone := by
  induction h with
  | stop todo s env => exact ⟨hs, List.Subset.refl _⟩
  | check hc _ ih =>
    obtain ⟨hs', hsub, hnew⟩ := checkGone_settled hd hc hs (hbase List.mem_cons_self) (hno _ List.mem_cons_self)
    obtain ⟨hnotin, hnd'⟩ := List.nodup_cons.1 hnd
    refine (ih hs' (fun p hp => hbase (List.mem_cons_of_mem _ hp)) hnd' fun p hp hg => ?_).imp_right fun h => List.Subset.trans hsub h
    rcases hnew p hg with hg | rfl
    · exact hno p (List.mem_cons_of_mem _ hp) hg
    · exact hnotin hp

/-- Between the rounds: the processes that are not gone are alive. -/
structure Split (base : List Nat) (callback : Bool) (alive : List Nat) (s : Procs σ) : Prop where
  settled : Settled base callback s.gone s.log
  nodup : alive.Nodup
  alive : ∀ p, p ∈ alive ↔ p ∈ base ∧ p ∉ s.gone

theorem Split.checks (hd : (processEq ident).Distinct base) {alive todo : List Nat} {s s' : Procs σ}
    (hs : Split base callback alive s) (hperm : todo.Perm alive) (h : Checks E ident callback todo s s') :
    Split base callback ((processEq ident).diff alive s'.gone) s' := by
  have hin : ∀ p ∈ todo, p ∈ base ∧ p ∉ s.gone := fun p hp => (hs.alive p).1 (hperm.subset hp)
  obtain ⟨hset, hsub⟩ := h.settled hd hs.settled (fun p hp => (hin p hp).1) (hperm.nodup_iff.2 hs.nodup) fun p hp =>
    (hin p hp).2
  refine ⟨hset, hs.nodup.filter _, fun p => ?_⟩
  rw [Tolerance.mem_diff hd (fun p hp => ((hs.alive p).1 hp).1) hset.subset, hs.alive]
  exact ⟨fun hp => ⟨hp.1.1, hp.2⟩, fun hp => ⟨⟨hp.1, fun hg => hp.2 (hsub hg)⟩, hp.2⟩⟩

theorem Split.partition (hd : (processEq ident).Distinct base) {alive gone' alive' : List Nat} {s : Procs σ}
    (hs : Split base callback alive s) (hg : gone'.Perm s.gone) (ha : alive'.Perm alive) :
    (gone' ++ alive').Perm base ∧ ∀ p ∈ gone', ∀ q ∈ alive', (processEq ident).eq p q = false := by
  have hout : ∀ p ∈ gone', ∀ q ∈ alive', p ∈ base ∧ q ∈ base ∧ p ≠ q := fun p hp q hq => by
    obtain ⟨hbase, hno⟩ := (hs.alive q).1 (ha.subset hq)
    exact ⟨hs.settled.subset (hg.subset hp), hbase, fun heq => hno (heq ▸ hg.subset hp)⟩
  have hnd : (gone' ++ alive').Nodup :=
    List.nodup_append.2 ⟨hg.nodup_iff.2 hs.settled.nodup, ha.nodup_iff.2 hs.nodup, fun p hp q hq => (hout p hp q hq).2.2⟩
  refine ⟨(List.perm_ext_iff_of_nodup hnd hd.nodup).2 ?_, ?_⟩
  · intro p
    rw [List.mem_append, hg.mem_iff, ha.mem_iff, hs.alive]
    by_cases hp : p ∈ s.gone
    · simp [hp, hs.settled.subset hp]
    · simp [hp]
  · intro p hp q hq
    obtain ⟨hp', hq', hne⟩ := hout p hp q hq
    exact Bool.eq_false_iff.2 fun heq => hne (hd.eq hp' hq' heq)

theorem Split.waitRounds (hd : (processEq ident).Distinct base) {deadline : Option (WithTop ℚ)} (fuel : Nat) :
    ∀ {alive : List Nat} {timeout : Timeout} {s : Procs σ} {alive' : List Nat} {s' : Procs σ},
    Split base callback alive s →
    waitRounds E ident callback deadline fuel alive timeout s = some (.ok (alive', s')) →
    Split base callback alive' s' ∧ (deadline = none → timeout = none → alive' = []) := by
  induction fuel with
  | zero => intro alive timeout s alive' s' _ h; cases h
  | succ fuel ih =>
    intro alive timeout s alive' s' hs h
    unfold Psutil.waitRounds at h
    split at h
    · rename_i hstop
      cases h
      refine ⟨hs, fun _ hnone => hstop.resolve_right ?_⟩
      rw [hnone]
      rintro ⟨t, ht, -⟩
      cases ht
    · split at h
      · cases h
      · rename_i timeout' s₁ hround
        obtain ⟨hchecks, htimeout⟩ := checks_waitRound hround
        obtain ⟨hs', halive⟩ := ih (hs.checks hd (E.order_perm _ _) hchecks) h
        exact ⟨hs', fun hdead hnone => halive hdead ((htimeout hdead).trans hnone)⟩

end

/-- Both ways out of the function end in a split of the set. -/
theorem waitProcs_split {σ : Type} {E : WaitEnv σ} {ident : Nat → Ident} {fuel : Nat} {procs : List Nat} {timeout : Timeout}
    {text : String} {callback : CallbackArg} {env env' : σ} {gone alive : List Nat} {log : List ProcsEvent}
    (h : waitProcs E ident fuel procs timeout text callback env = some (.ok ((gone, alive), log, env'))) :
    ∃ (alive₁ : List Nat) (s : Procs σ), Split ((processEq ident).ofList procs) (callback == .callable) alive₁ s ∧ gone.Perm s.gone ∧
      alive.Perm alive₁ ∧ log = s.log ∧ (timeout = none → alive₁ = []) := by
  have hd := Tolerance.distinct_ofList (processEq ident) procs
  unfold waitProcs at h
  split at h
  · cases h
  · split at h
    · cases h
    · dsimp only at h
      have hstart : Split ((processEq ident).ofList procs) (callback == .callable) ((processEq ident).ofList procs)
          ⟨[], [], (deadlineOf E timeout env).2⟩ :=
        ⟨⟨by simp, .nil, by simp, fun p _ => ⟨rfl, rfl⟩⟩, hd.nodup, by simp⟩
      split at h
      · cases h
      · cases h
      · rename_i alive₁ s hrounds
        obtain ⟨hs, hnone⟩ := hstart.waitRounds hd fuel hrounds
        have hforever : timeout = none → alive₁ = [] := fun ht => hnone (by rw [ht]; rfl) ht
        split at h
        · rename_i halive
          cases h
          exact ⟨alive₁, s, hs, E.order_perm _ _, halive ▸ .refl _, rfl, hforever⟩
        · rename_i halive
          split at h
          · cases h
          · rename_i s' hlast
            cases h
            exact ⟨_, s', hs.checks hd (E.order_perm _ _) (checks_lastAttempt hlast), E.order_perm _ _, E.order_perm _ _, rfl,
              fun ht => absurd (hforever ht) halive⟩

/-- No process is lost and none is added: each one given equals one that is returned, and those returned were given. -/
theorem wait_procs_covers {σ : Type} (E : WaitEnv σ) (ident : Nat → Ident) (fuel : Nat) (procs : List Nat)
    (timeout : Timeout) (text : String) (callback : CallbackArg) (env : σ) {gone alive : List Nat} {log : List ProcsEvent}
    {env' : σ} (h : waitProcs E ident fuel procs timeout text callback env = some (.ok ((gone, alive), log, env'))) :
    (∀ p ∈ procs, ∃ q ∈ gone ++ alive, (processEq ident).eq p q = true) ∧ ∀ q ∈ gone ++ alive, q ∈ procs := by
  obtain ⟨alive₁, s, hs, hg, ha, -, -⟩ := waitProcs_split h
  obtain ⟨hperm, -⟩ := hs.partition (Tolerance.distinct_ofList _ procs) hg ha
  refine ⟨fun p hp => ?_, fun q hq => Tolerance.mem_of_mem_ofList (hperm.subset hq)⟩
  obtain ⟨q, hq, heq⟩ := Tolerance.exists_mem_ofList hp
  exact ⟨q, hperm.symm.subset hq, heq⟩

/-- **`wait_procs` splits the set of its processes.** Those that are gone were given the value of their last `wait` as
`returncode`, once, and to the callback once; nothing was done to the others. -/
theorem wait_procs_partition {σ : Type} (E : WaitEnv σ) (ident : Nat → Ident) (fuel : Nat) (procs : List Nat)
    (timeout : Timeout) (text : String) (callback : CallbackArg) (env : σ) {gone alive : List Nat} {log : List ProcsEvent}
    {env' : σ} (h : waitProcs E ident fuel procs timeout text callback env = some (.ok ((gone, alive), log, env'))) :
    (gone ++ alive).Perm ((processEq ident).ofList procs) ∧
      (∀ p ∈ gone, ∀ q ∈ alive, (processEq ident).eq p q = false) ∧
      (∀ p ∈ gone, ∃ code, (waitsOf p log).getLast? = some (.ok code) ∧ returncodesOf p log = [code]) ∧
      (∀ p, p ∉ gone → returncodesOf p log = []) ∧
      (∀ p, callbacksOf p log = if p ∈ gone ∧ callback = .callable then 1 else 0) ∧
      (timeout = none → alive = []) := by
  obtain ⟨alive₁, s, hs, hg, ha, rfl, hnone⟩ := waitProcs_split h
  obtain ⟨hperm, hdisj⟩ := hs.partition (Tolerance.distinct_ofList _ procs) hg ha
  refine ⟨hperm, hdisj, ?_, ?_, ?_, ?_⟩
  · intro p hp
    obtain ⟨code, hw, hr, -⟩ := hs.settled.settled p (hg.subset hp)
    exact ⟨code, hw, hr⟩
  · intro p hp
    exact (hs.settled.pending p fun hin => hp (hg.symm.subset hin)).1
  · intro p
    by_cases hp : p ∈ gone
    · obtain ⟨code, -, -, hc⟩ := hs.settled.settled p (hg.subset hp)
      simp [hc, hp]
    · simp [(hs.settled.pending p fun hin => hp (hg.symm.subset hin)).2, hp]
  · intro ht
    exact (hnone ht ▸ ha).eq_nil

/-- A process that exits at once with code 3, and one that is found gone at the second attempt; the state counts
the calls of `wait`. -/
def twoProcs : WaitEnv Nat where
  timer n := (0, n)
  wait p _ n := (if p = 0 then .ok (some 3) else if n < 2 then .error (.timeoutExpired none none none) else .ok none, n + 1)
  isRunning _ n := (false, n)
  callback _ n := (.ok (), n)
  order _ l := l
  order_perm _ l := .refl l

theorem wait_procs_partition_two : ([0, 1] ++ []).Perm ((processEq fun p => (p + 5, some 1)).ofList [0, 1, 0]) :=
  (@wait_procs_partition Nat twoProcs (fun p => (p + 5, some 1)) 3 [0, 1, 0] none "None" .callable 0 [0, 1] []
    (goneEvents true 0 (some 3) ++ [.waited 1 (.error (.timeoutExpired none none none))] ++ goneEvents true 1 none)
    3 rfl).1

end Psutil
