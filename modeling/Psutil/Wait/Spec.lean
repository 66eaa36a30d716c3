import Psutil.Wait.WaitPid

/-!
# A rule for the functions that wait

What every call to the operating system keeps, up to the one in which `waitpid` reports a status, a whole wait
keeps: one lemma for each function, `Keeps.waitPid` for all of them. `KeepsChild.waitPid` adds that a child that
`waitpid` knows is never taken for gone.
-/

namespace Psutil

variable {σ : Type}

/-- The calls keep `Inv`; one in which `waitpid` reports a status ends with `Own`. -/
structure Syscalls.Keeps (K : Syscalls σ) (pid : Nat) (Inv : σ → Prop) (Own : RawStatus → σ → Prop) : Prop where
  sleep : ∀ d s, Inv s → Inv (K.sleep d s)
  status : ∀ nohang s st s', Inv s → K.waitpid pid nohang s = some (.status st, s') → Own st s'
  waitpid : ∀ nohang s r s', Inv s → K.waitpid pid nohang s = some (r, s') → (∀ st, r ≠ .status st) → Inv s'
  pidExists : ∀ s, Inv s → Inv (K.pidExists pid s).2
  pidfdOpen : ∀ s, Inv s → Inv (K.pidfdOpen pid s).2
  poll : ∀ ms s events s', Inv s → K.poll ms s = some (events, s') → Inv s'
  kqueue : ∀ s, Inv s → Inv (K.kqueue s).2
  control : ∀ timeout s r s', Inv s → K.control pid timeout s = some (r, s') → Inv s'

/-- The outcomes of a wait: the code of a status that `waitpid` reported, or anything but a code. -/
def Reported (Inv : σ → Prop) (Own : RawStatus → σ → Prop) (x : Except Exc (Option Int) × σ) : Prop :=
  (∃ st, x.1 = (convertExitCode st).map some ∧ Own st x.2) ∨ ((∀ code, x.1 ≠ .ok (some code)) ∧ Inv x.2)

namespace Syscalls.Keeps

variable {K : Syscalls σ} {pid : Nat} {Inv : σ → Prop} {Own : RawStatus → σ → Prop} (h : K.Keeps pid Inv Own)
include h

theorem sleepOrTimeout {timeout : Timeout} {stopAt : Option (WithTop ℚ)} {interval interval' : ℚ} {s s' : σ}
    (hs : Inv s) (hsl : sleepOrTimeout K timeout stopAt interval s = .ok (interval', s')) : Inv s' := by
  unfold Psutil.sleepOrTimeout at hsl
  split at hsl
  · cases hsl
  · cases hsl
    exact h.sleep _ _ hs

theorem pollPid {timeout : Timeout} {stopAt : Option (WithTop ℚ)} (fuel : Nat) : ∀ {interval : ℚ} {s : σ}
    {x : Except Exc (Option Int) × σ}, Inv s → pollPid K pid timeout stopAt fuel interval s = some x →
    Reported Inv Own x := by
  induction fuel with
  | zero => intro interval s x _ hx; cases hx
  | succ fuel ih =>
    intro interval s x hs hx
    have hex := h.pidExists s hs
    unfold Psutil.pollPid at hx
    split at hx
    · rename_i s' he
      cases hx
      exact Or.inr ⟨by simp, by simpa [he] using hex⟩
    · rename_i s' he
      rw [he] at hex
      split at hx
      · cases hx
        exact Or.inr ⟨by simp, hex⟩
      · rename_i interval' s'' hsl
        exact ih (h.sleepOrTimeout hex hsl) hx

theorem waitLoop {timeout : Timeout} {stopAt : Option (WithTop ℚ)} (fuel : Nat) : ∀ {interval : ℚ} {s : σ}
    {x : Except Exc (Option Int) × σ}, Inv s → waitLoop K pid timeout stopAt fuel interval s = some x →
    Reported Inv Own x := by
  induction fuel with
  | zero => intro interval s x _ hx; cases hx
  | succ fuel ih =>
    intro interval s x hs hx
    unfold Psutil.waitLoop at hx
    split at hx
    · cases hx
    · rename_i s' hw
      exact h.pollPid _ (h.waitpid _ _ _ _ hs hw (by simp)) hx
    · rename_i s' hw
      have hs' := h.waitpid _ _ _ _ hs hw (by simp)
      split at hx
      · cases hx
        exact Or.inr ⟨by simp, hs'⟩
      · rename_i interval' s'' hsl
        exact ih (h.sleepOrTimeout hs' hsl) hx
    · rename_i st s' hw
      cases hx
      exact Or.inl ⟨st, rfl, h.status _ _ _ _ hs hw⟩

theorem waitPidPosix {fuel : Nat} {timeout : Timeout} {s : σ} {x : Except Exc (Option Int) × σ} (hs : Inv s)
    (hx : waitPidPosix K fuel pid timeout s = some x) : Reported Inv Own x := by
  unfold Psutil.waitPidPosix at hx
  split at hx
  · cases hx
    exact Or.inr ⟨by simp, hs⟩
  · exact h.waitLoop fuel hs hx

theorem afterEvents {fuel : Nat} {timeout : Timeout} {events : Bool} {s : σ} {x : Except Exc (Option Int) × σ}
    (hs : Inv s) (hx : afterEvents K fuel pid timeout events s = some x) : Reported Inv Own x := by
  unfold Psutil.afterEvents at hx
  split at hx
  · unfold osWaitpid at hx
    split at hx
    · cases hx
    · rename_i s' hw
      exact h.waitPidPosix (h.waitpid _ _ _ _ hs hw (by simp)) hx
    · rename_i s' hw
      cases hx
      exact Or.inr ⟨by simp, h.waitpid _ _ _ _ hs hw (by simp)⟩
    · rename_i st s' hw
      cases hx
      exact Or.inl ⟨st, rfl, h.status _ _ _ _ hs hw⟩
  · cases hx
    exact Or.inr ⟨by simp, hs⟩

theorem waitPidPidfdOpen {fuel : Nat} {timeout : Timeout} {s : σ} {x : Except Exc (Option Int) × σ} (hs : Inv s)
    (hx : waitPidPidfdOpen K fuel pid timeout s = some x) : Reported Inv Own x := by
  have hopen := h.pidfdOpen s hs
  unfold Psutil.waitPidPidfdOpen at hx
  split at hx
  · rename_i errno s' ho
    exact h.waitPidPosix (by simpa [ho] using hopen) hx
  · rename_i s' ho
    rw [ho] at hopen
    split at hx
    · cases hx
      exact Or.inr ⟨by simp, hopen⟩
    · split at hx
      · cases hx
      · rename_i events s'' hp
        exact h.afterEvents (h.poll _ _ _ _ hopen hp) hx

theorem waitPidKqueue {fuel : Nat} {timeout : Timeout} {s : σ} {x : Except Exc (Option Int) × σ} (hs : Inv s)
    (hx : waitPidKqueue K fuel pid timeout s = some x) : Reported Inv Own x := by
  have hopen := h.kqueue s hs
  unfold Psutil.waitPidKqueue at hx
  split at hx
  · rename_i errno s' ho
    exact h.waitPidPosix (by simpa [ho] using hopen) hx
  · rename_i s' ho
    rw [ho] at hopen
    split at hx
    · cases hx
    · rename_i errno s'' hc
      have hs'' := h.control _ _ _ _ hopen hc
      split at hx
      · exact h.waitPidPosix hs'' hx
      · cases hx
        exact Or.inr ⟨by simp, hs''⟩
    · rename_i e s'' _ hc
      cases hx
      exact Or.inr ⟨by simp, h.control _ _ _ _ hopen hc⟩
    · rename_i events s'' hc
      exact h.afterEvents (h.control _ _ _ _ hopen hc) hx

/-- **A wait reports what `waitpid` reported**, whichever of the three ways it takes. -/
theorem waitPid {path : WaitPath} {fuel : Nat} {timeout : Timeout} {s : σ} {x : Except Exc (Option Int) × σ} (hs : Inv s)
    (hx : waitPid K path fuel pid timeout s = some x) : Reported Inv Own x := by
  unfold Psutil.waitPid at hx
  split at hx
  · cases hx
    exact Or.inr ⟨by simp, hs⟩
  · cases path with
    | pidfdOpen => exact h.waitPidPidfdOpen hs hx
    | kqueue => exact h.waitPidKqueue hs hx
    | posix => exact h.waitPidPosix hs hx

end Syscalls.Keeps

/-! ## A child -/

/-- The process waited for is a child, so `waitpid` has an answer for it. -/
structure Syscalls.KeepsChild (K : Syscalls σ) (pid : Nat) (Inv : σ → Prop) (Own : RawStatus → σ → Prop) : Prop
    extends K.Keeps pid Inv Own where
  child : ∀ nohang s s', Inv s → K.waitpid pid nohang s ≠ some (.childProcessError, s')

namespace Syscalls.KeepsChild

variable {K : Syscalls σ} {pid : Nat} {Inv : σ → Prop} {Own : RawStatus → σ → Prop} (h : K.KeepsChild pid Inv Own)
include h

theorem waitLoop {timeout : Timeout} {stopAt : Option (WithTop ℚ)} (fuel : Nat) : ∀ {interval : ℚ} {s : σ}
    {x : Except Exc (Option Int) × σ}, Inv s → waitLoop K pid timeout stopAt fuel interval s = some x → x.1 ≠ .ok none := by
  induction fuel with
  | zero => intro interval s x _ hx; cases hx
  | succ fuel ih =>
    intro interval s x hs hx
    unfold Psutil.waitLoop at hx
    split at hx
    · cases hx
    · rename_i s' hw
      exact absurd hw (h.child _ _ _ hs)
    · rename_i s' hw
      have hs' := h.waitpid _ _ _ _ hs hw (by simp)
      split at hx
      · cases hx
        simp
      · rename_i interval' s'' hsl
        exact ih (h.sleepOrTimeout hs' hsl) hx
    · rename_i st s' hw
      cases hx
      cases convertExitCode st <;> simp [Except.map]

theorem waitPidPosix {fuel : Nat} {timeout : Timeout} {s : σ} {x : Except Exc (Option Int) × σ} (hs : Inv s)
    (hx : waitPidPosix K fuel pid timeout s = some x) : x.1 ≠ .ok none := by
  unfold Psutil.waitPidPosix at hx
  split at hx
  · cases hx
    simp
  · exact h.waitLoop fuel hs hx

theorem afterEvents {fuel : Nat} {timeout : Timeout} {events : Bool} {s : σ} {x : Except Exc (Option Int) × σ}
    (hs : Inv s) (hx : afterEvents K fuel pid timeout events s = some x) : x.1 ≠ .ok none := by
  unfold Psutil.afterEvents osWaitpid at hx
  split at hx
  · split at hx
    · cases hx
    · rename_i s' hw
      exact absurd hw (h.child _ _ _ hs)
    · cases hx
      simp
    · rename_i st s' hw
      cases hx
      cases convertExitCode st <;> simp [Except.map]
  · cases hx
    simp

theorem waitPidPidfdOpen {fuel : Nat} {timeout : Timeout} {s : σ} {x : Except Exc (Option Int) × σ} (hs : Inv s)
    (hx : waitPidPidfdOpen K fuel pid timeout s = some x) : x.1 ≠ .ok none := by
  have hopen := h.pidfdOpen s hs
  unfold Psutil.waitPidPidfdOpen at hx
  split at hx
  · rename_i errno s' ho
    exact h.waitPidPosix (by simpa [ho] using hopen) hx
  · rename_i s' ho
    rw [ho] at hopen
    split at hx
    · cases hx
      simp
    · split at hx
      · cases hx
      · rename_i events s'' hp
        exact h.afterEvents (h.poll _ _ _ _ hopen hp) hx

theorem waitPidKqueue {fuel : Nat} {timeout : Timeout} {s : σ} {x : Except Exc (Option Int) × σ} (hs : Inv s)
    (hx : waitPidKqueue K fuel pid timeout s = some x) : x.1 ≠ .ok none := by
  have hopen := h.kqueue s hs
  unfold Psutil.waitPidKqueue at hx
  split at hx
  · rename_i errno s' ho
    exact h.waitPidPosix (by simpa [ho] using hopen) hx
  · rename_i s' ho
    rw [ho] at hopen
    split at hx
    · cases hx
    · rename_i errno s'' hc
      split at hx
      · exact h.waitPidPosix (h.control _ _ _ _ hopen hc) hx
      · cases hx
        simp
    · cases hx
      simp
    · rename_i events s'' hc
      exact h.afterEvents (h.control _ _ _ _ hopen hc) hx

/-- **A wait for a child does not take it for gone.** -/
theorem waitPid {path : WaitPath} {fuel : Nat} {timeout : Timeout} {s : σ} {x : Except Exc (Option Int) × σ} (hs : Inv s)
    (hx : waitPid K path fuel pid timeout s = some x) : x.1 ≠ .ok none := by
  unfold Psutil.waitPid at hx
  split at hx
  · cases hx
    simp
  · cases path with
    | pidfdOpen => exact h.waitPidPidfdOpen hs hx
    | kqueue => exact h.waitPidKqueue hs hx
    | posix => exact h.waitPidPosix hs hx

end Syscalls.KeepsChild

end Psutil
