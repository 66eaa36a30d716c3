import Psutil.Osx.Environ

/-!
# `cmdline()` on macOS, FreeBSD and NetBSD

| here | there |
| --- | --- |
| `argsLoop`, `osxCmdline` | `psutil_proc_cmdline` (`arch/osx/proc.c:821`) |
| `walkArgs`, `freebsdCmdline` | `psutil_proc_cmdline` (`arch/freebsd/proc.c:29`) |
| `retryBusy`, `netbsdCmdline` | `psutil_proc_cmdline` (`arch/netbsd/proc.c:180`) |

As for `environ()`, a pointer is the rest of the buffer from there. `osx_cmdline_eq_iff`: on macOS an empty first argument is taken for
padding, and a variable of the environment comes in at the end. `bsd_cmdline_eq_iff`: the other loop reads any arguments, as long as
the buffer ends with a NUL, without which it runs out of it.
-/

namespace Psutil

open Lib Bytes

/-! ## macOS -/

/-- The loop over the arguments, from `arg_ptr` and `curr_arg` on. -/
def argsLoop : Bytes → Bytes → Int → List Bytes → List Bytes
  | [], _, _, retlist => retlist
  | b :: argPtr, currArg, nargs, retlist =>
    if nargs > 0 then
      if b = 0 then argsLoop argPtr argPtr (nargs - 1) (retlist ++ [currArg.takeWhile (· ≠ 0)])
      else argsLoop argPtr currArg nargs retlist
    else retlist

/-- What is made of the buffer, which has a NUL behind the path. -/
def cmdlineArgs (procargs : Bytes) : List Bytes :=
  let nargs := leInt32 procargs
  -- behind the executable path
  let argPtr := (memchr (procargs.drop 4)).drop 1
  if argPtr = [] then []
  else
    let argPtr := argPtr.dropWhile (· = 0)
    argsLoop argPtr argPtr nargs []

/-- `sysctl` is the buffer, or the error of reading it. -/
def osxCmdline (pid : Nat) (sysctl : Except Exc Bytes) : Except Exc (List Bytes) :=
  if pid = 0 then .ok [] else sysctl.map cmdlineArgs

/-- A `KERN_PROCARGS2` buffer of any arguments. -/
structure ArgBuffer where
  exe : Bytes
  /-- The NULs after the first one behind the path. -/
  pad : Nat
  argv : List Bytes
  env : List Bytes
  /-- The NULs at the end. -/
  trailing : Nat
  exe_nul : 0 ∉ exe
  argv_nul : ∀ a ∈ argv, 0 ∉ a
  env_nul : ∀ e ∈ env, 0 ∉ e
  argc_lt : argv.length < 2147483648

namespace ArgBuffer

/-- The strings behind the padding; a NUL at the end is one more empty string. -/
def strings (p : ArgBuffer) : List Bytes := p.argv ++ (p.env ++ List.replicate p.trailing [])

def bytes (p : ArgBuffer) : Bytes :=
  leBytes p.argv.length ++ (p.exe ++ (List.replicate (p.pad + 1) 0 ++ (cstrings p.argv ++ (cstrings p.env ++ List.replicate p.trailing 0))))

end ArgBuffer

theorem cstrings_cons (s : Bytes) (l : List Bytes) : cstrings (s :: l) = s ++ 0 :: cstrings l := by simp [cstrings]

theorem cstrings_append (l l' : List Bytes) : cstrings (l ++ l') = cstrings l ++ cstrings l' := List.flatMap_append

theorem cstrings_replicate (n : Nat) : cstrings (List.replicate n []) = List.replicate n 0 := by
  induction n with
  | zero => rfl
  | succ n ih => rw [List.replicate_succ, cstrings_cons, ih, List.replicate_succ, List.nil_append]

/-- Empty strings at the beginning are NULs, like padding. -/
theorem dropWhile_cstrings : ∀ {l : List Bytes}, (∀ s ∈ l, 0 ∉ s) → (cstrings l).dropWhile (· = 0) = cstrings (l.dropWhile (· = []))
  | [], _ => rfl
  | [] :: l, h => by
    rw [cstrings_cons, List.nil_append, List.dropWhile_cons_of_pos (by simp), List.dropWhile_cons_of_pos (by simp)]
    exact dropWhile_cstrings fun s hs => h s (List.mem_cons_of_mem _ hs)
  | (b :: s) :: l, h => by
    have hb : b ≠ 0 := fun hb => h (b :: s) List.mem_cons_self (hb ▸ List.mem_cons_self)
    rw [cstrings_cons, List.cons_append, List.dropWhile_cons_of_neg (by simpa using hb), List.dropWhile_cons_of_neg (by simp), cstrings_cons,
      List.cons_append]

/-- The loop up to the end of an argument. -/
theorem argsLoop_string (rest currArg : Bytes) {nargs : Int} (hpos : 0 < nargs) (retlist : List Bytes) : ∀ {s : Bytes}, 0 ∉ s →
    argsLoop (s ++ 0 :: rest) currArg nargs retlist = argsLoop rest rest (nargs - 1) (retlist ++ [currArg.takeWhile (· ≠ 0)])
  | [], _ => by rw [List.nil_append, argsLoop, if_pos hpos, if_pos rfl]
  | b :: s, h => by
    rw [List.mem_cons, not_or] at h
    rw [List.cons_append, argsLoop, if_pos hpos, if_neg (Ne.symm h.1)]
    exact argsLoop_string rest currArg hpos retlist h.2

/-- **What the loop returns**: as many strings as there are arguments. -/
theorem argsLoop_cstrings : ∀ {l : List Bytes}, (∀ s ∈ l, 0 ∉ s) → ∀ (n : Nat) (retlist : List Bytes),
    argsLoop (cstrings l) (cstrings l) n retlist = retlist ++ l.take n
  | [], _, n, retlist => by simp [cstrings, argsLoop]
  | s :: l, h, 0, retlist => by
    rw [List.take_zero, List.append_nil, cstrings_cons]
    cases s <;> rfl
  | s :: l, h, n + 1, retlist => by
    have hs := h s List.mem_cons_self
    have ih := argsLoop_cstrings (fun t ht => h t (List.mem_cons_of_mem s ht)) n (retlist ++ [s])
    have htake : (s ++ 0 :: cstrings l).takeWhile (· ≠ 0) = s := by
      rw [List.takeWhile_append_of_pos fun c hc => by simpa using ne_of_mem_of_not_mem hc hs]
      simp
    rw [cstrings_cons, argsLoop_string _ _ (by omega) _ hs, htake, Nat.cast_add_one, Int.add_sub_cancel, ih, List.append_assoc]
    rfl

theorem ArgBuffer.cmdlineArgs_bytes (p : ArgBuffer) : cmdlineArgs p.bytes = (p.strings.dropWhile (· = [])).take p.argv.length := by
  have hnul : ∀ s ∈ p.strings, 0 ∉ s := by
    intro s hs
    rcases List.mem_append.1 hs with hs | hs
    · exact p.argv_nul s hs
    · rcases List.mem_append.1 hs with hs | hs
      · exact p.env_nul s hs
      · rw [List.eq_of_mem_replicate hs]
        exact List.not_mem_nil
  have hbehind : (memchr (p.bytes.drop 4)).drop 1 = List.replicate p.pad 0 ++ cstrings p.strings := by
    have hdrop : p.bytes.drop 4 = p.exe ++ 0 :: (List.replicate p.pad 0 ++ cstrings p.strings) := by
      rw [bytes, show 4 = (leBytes p.argv.length).length from rfl, List.drop_left, List.replicate_succ, List.cons_append, strings,
        cstrings_append, cstrings_append, cstrings_replicate]
    rw [hdrop, memchr_append p.exe_nul]
    rfl
  have hskip : (List.replicate p.pad (0 : UInt8) ++ cstrings p.strings).dropWhile (· = 0) = cstrings (p.strings.dropWhile (· = [])) := by
    rw [List.dropWhile_append_of_pos (by simp), dropWhile_cstrings hnul]
  have hargs := argsLoop_cstrings (fun s hs => hnul s ((List.dropWhile_sublist _).subset hs)) p.argv.length (l := p.strings.dropWhile (· = [])) []
  have hnargs : leInt32 p.bytes = p.argv.length := leInt32_leBytes p.argc_lt _
  unfold cmdlineArgs
  simp only [hbehind, hnargs]
  split_ifs with hempty
  · -- nothing is left, so that there are no strings
    have hnone : p.strings = [] := by
      cases hstrings : p.strings with
      | nil => rfl
      | cons s l =>
        rw [hstrings, cstrings_cons] at hempty
        simp at hempty
    rw [hnone, List.dropWhile_nil, List.take_nil]
  · rw [hskip, hargs, List.nil_append]

/-- **`cmdline()` returns the arguments, exactly when** the first one is not empty, if there is one. What it returns otherwise begins
with the first string that is not empty, and has variables of the environment at its end. -/
theorem osx_cmdline_eq_iff {pid : Nat} (hpid : pid ≠ 0) (p : ArgBuffer) :
    osxCmdline pid (.ok p.bytes) = .ok ((p.strings.dropWhile (· = [])).take p.argv.length) ∧
      (osxCmdline pid (.ok p.bytes) = .ok p.argv ↔ p.argv.head? ≠ some []) := by
  have hcmdline : osxCmdline pid (.ok p.bytes) = .ok ((p.strings.dropWhile (· = [])).take p.argv.length) := by
    rw [osxCmdline, if_neg hpid, ← p.cmdlineArgs_bytes]
    rfl
  refine ⟨hcmdline, ?_⟩
  rw [hcmdline, Except.ok.injEq, ArgBuffer.strings]
  cases hargv : p.argv with
  | nil => simp
  | cons a args =>
    rw [List.head?_cons, ne_eq, Option.some.injEq]
    constructor
    · rintro heq rfl
      -- what is returned does not begin with an empty string
      have hhead : (([] :: args ++ (p.env ++ List.replicate p.trailing [])).dropWhile (· = [])).head? = some [] := by
        cases hdrop : ([] :: args ++ (p.env ++ List.replicate p.trailing [])).dropWhile (· = []) with
        | nil =>
          rw [hdrop] at heq
          cases heq
        | cons s l =>
          rw [hdrop, List.length_cons, List.take_succ_cons] at heq
          rw [(List.cons.inj heq).1]
          rfl
      have hnot := List.head?_dropWhile_not (· = []) ([] :: args ++ (p.env ++ List.replicate p.trailing []))
      rw [hhead] at hnot
      simp at hnot
    · intro ha
      rw [List.cons_append, List.dropWhile_cons_of_neg (by simpa using ha), ← List.cons_append, List.take_left]

/-- `[]`, `cat`, with `A=1`. -/
def emptyFirst : ArgBuffer where
  exe := ascii "/usr/bin/cat"
  pad := 3
  argv := [[], ascii "cat"]
  env := [ascii "A=1"]
  trailing := 2
  exe_nul := by decide
  argv_nul := by decide
  env_nul := by decide
  argc_lt := by decide

theorem osx_cmdline_empty_first : osxCmdline 1 (.ok emptyFirst.bytes) = .ok [ascii "cat", ascii "A=1"] :=
  (osx_cmdline_eq_iff Nat.one_ne_zero emptyFirst).1.trans (by decide)

/-! ## FreeBSD and NetBSD -/

/-- The loop over the strings, none when `strlen` runs out of the buffer. Each round takes a byte at least, and the fuel is the size. -/
def walkArgs : Nat → Bytes → List Bytes → Option (List Bytes)
  | _, [], retlist => some retlist
  | 0, _ :: _, _ => none
  | fuel + 1, b :: ptr, retlist => match memchr (b :: ptr) with
    | [] => none
    | _ :: next => walkArgs fuel next (retlist ++ [(b :: ptr).takeWhile (· ≠ 0)])

def freebsdCmdline (procargs : Bytes) : Option (List Bytes) := walkArgs procargs.length procargs []

def ebusy : Errno := .other 16

/-- The loop around `psutil_sysctl_malloc`; `none` is the empty list after fifty attempts. -/
def retryBusy (reply : Nat → Except Errno Bytes) : Nat → Nat → Except Errno (Option Bytes)
  | 0, _ => .ok none
  | left + 1, attempt => match reply attempt with
    | .ok procargs => .ok (some procargs)
    | .error errno => if errno = ebusy then retryBusy reply left (attempt + 1) else .error errno

def netbsdCmdline (reply : Nat → Except Errno Bytes) : Except Errno (Option (List Bytes)) :=
  match retryBusy reply 50 0 with
  | .ok (some procargs) => .ok (walkArgs procargs.length procargs [])
  | .ok none => .ok (some [])
  | .error errno => .error errno

/-- A pointer up to its NUL. -/
theorem exists_of_memchr {ptr next : Bytes} {b : UInt8} (h : memchr ptr = b :: next) :
    0 ∉ ptr.takeWhile (· ≠ 0) ∧ ptr = ptr.takeWhile (· ≠ 0) ++ 0 :: next := by
  have hsplit := List.takeWhile_append_dropWhile (p := (· ≠ 0)) (l := ptr)
  have hb : b = 0 := by
    have hhead := List.head?_dropWhile_not (· ≠ 0) ptr
    rw [show ptr.dropWhile (· ≠ 0) = b :: next from h] at hhead
    simpa using hhead
  rw [show ptr.dropWhile (· ≠ 0) = b :: next from h, hb] at hsplit
  exact ⟨fun hmem => by simpa using List.mem_takeWhile_imp hmem, hsplit.symm⟩

theorem exists_of_walkArgs : ∀ {fuel : Nat} {ptr : Bytes} {retlist result : List Bytes}, walkArgs fuel ptr retlist = some result →
    ∃ argv, result = retlist ++ argv ∧ ptr = cstrings argv ∧ ∀ a ∈ argv, 0 ∉ a
  | _, [], retlist, result, h => by
    rw [walkArgs, Option.some.injEq] at h
    exact ⟨[], by rw [← h, List.append_nil], rfl, by simp⟩
  | 0, _ :: _, _, _, h => nomatch h
  | fuel + 1, b :: ptr, retlist, result, h => by
    rw [walkArgs] at h
    split at h
    · cases h
    · rename_i c next hmem
      obtain ⟨hnul, hptr⟩ := exists_of_memchr hmem
      obtain ⟨argv, rfl, rfl, hargv⟩ := exists_of_walkArgs h
      refine ⟨(b :: ptr).takeWhile (· ≠ 0) :: argv, by rw [List.append_assoc]; rfl, by rw [cstrings_cons]; exact hptr, fun a ha => ?_⟩
      rcases List.mem_cons.1 ha with rfl | ha
      · exact hnul
      · exact hargv a ha

theorem walkArgs_cstrings : ∀ {argv : List Bytes}, (∀ a ∈ argv, 0 ∉ a) → ∀ {fuel : Nat} (retlist : List Bytes), argv.length ≤ fuel →
    walkArgs fuel (cstrings argv) retlist = some (retlist ++ argv)
  | [], _, fuel, retlist, _ => by
    rw [List.append_nil]
    cases fuel <;> rfl
  | a :: argv, h, 0, retlist, hfuel => absurd hfuel (by simp)
  | a :: argv, h, fuel + 1, retlist, hfuel => by
    have ha := h a List.mem_cons_self
    have ih : walkArgs fuel (cstrings argv) (retlist ++ [a]) = some (retlist ++ [a] ++ argv) :=
      walkArgs_cstrings (fun t ht => h t (List.mem_cons_of_mem a ht)) (retlist ++ [a]) (by simpa using hfuel)
    have htake : (a ++ 0 :: cstrings argv).takeWhile (· ≠ 0) = a := by
      rw [List.takeWhile_append_of_pos fun c hc => by simpa using ne_of_mem_of_not_mem hc ha]
      simp
    have hmem : memchr (a ++ 0 :: cstrings argv) = 0 :: cstrings argv := memchr_append ha _
    obtain ⟨b, ptr, hptr⟩ : ∃ b ptr, a ++ 0 :: cstrings argv = b :: ptr := List.exists_cons_of_ne_nil (by simp)
    rw [cstrings_cons, hptr, walkArgs, ← hptr, hmem, htake]
    rw [List.append_assoc] at ih
    exact ih

/-- The loop runs out of the buffer when no NUL follows the last string. -/
theorem walkArgs_eq_none : ∀ {fuel : Nat} {ptr : Bytes} (retlist : List Bytes), ptr.length ≤ fuel →
    (walkArgs fuel ptr retlist = none ↔ ∃ b, ptr.getLast? = some b ∧ b ≠ 0)
  | _, [], retlist, _ => by simp [walkArgs]
  | 0, _ :: _, _, h => absurd h (by simp)
  | fuel + 1, b :: ptr, retlist, h => by
    rw [walkArgs]
    split
    · rename_i hmem
      have hall : ∀ c ∈ b :: ptr, c ≠ 0 := by simpa using List.dropWhile_eq_nil_iff.1 hmem
      exact iff_of_true rfl ⟨(b :: ptr).getLast (by simp), List.getLast?_eq_some_getLast _, hall _ (List.getLast_mem _)⟩
    · rename_i c next hmem
      obtain ⟨-, hptr⟩ := exists_of_memchr hmem
      have hlen : next.length ≤ fuel := by
        have := congrArg List.length hptr
        simp only [List.length_append, List.length_cons] at this h
        omega
      rw [walkArgs_eq_none _ hlen, hptr, List.getLast?_append_cons]
      cases next with
      | nil => simp
      | cons d next => rw [List.getLast?_cons_cons]

/-- The attempts end at the first one that does not find the process busy. -/
theorem retryBusy_spec (reply : Nat → Except Errno Bytes) : ∀ left attempt,
    (∃ k, k < left ∧ (∀ j, j < k → reply (attempt + j) = .error ebusy) ∧ reply (attempt + k) ≠ .error ebusy ∧
        retryBusy reply left attempt = (reply (attempt + k)).map some) ∨
      (∀ j, j < left → reply (attempt + j) = .error ebusy) ∧ retryBusy reply left attempt = .ok none
  | 0, attempt => Or.inr ⟨fun j hj => absurd hj (Nat.not_lt_zero j), rfl⟩
  | left + 1, attempt => by
    rw [retryBusy]
    have hnow : ∀ r, reply attempt = r → r ≠ .error ebusy → (∃ k, k < left + 1 ∧ (∀ j, j < k → reply (attempt + j) = .error ebusy) ∧
        reply (attempt + k) ≠ .error ebusy ∧ r.map some = (reply (attempt + k)).map some) := fun r hr hne =>
      ⟨0, Nat.succ_pos _, fun j hj => absurd hj (Nat.not_lt_zero j), by rwa [Nat.add_zero, hr], by rw [Nat.add_zero, hr]⟩
    cases hr : reply attempt with
    | ok procargs => exact Or.inl (hnow _ hr (by simp))
    | error errno =>
      dsimp only
      split_ifs with hbusy
      · have hshift : ∀ {n}, (∀ j, j < n → reply (attempt + 1 + j) = .error ebusy) → ∀ j, j < n + 1 → reply (attempt + j) = .error ebusy := by
          intro n h j hj
          cases j with
          | zero => rw [Nat.add_zero, hr, hbusy]
          | succ j =>
            rw [show attempt + (j + 1) = attempt + 1 + j by omega]
            exact h j (Nat.lt_of_succ_lt_succ hj)
        rcases retryBusy_spec reply left (attempt + 1) with ⟨k, hk, hall, hne, heq⟩ | ⟨hall, heq⟩
        · refine Or.inl ⟨k + 1, Nat.succ_lt_succ hk, hshift hall, ?_, ?_⟩
          · rwa [show attempt + (k + 1) = attempt + 1 + k by omega]
          · rwa [show attempt + (k + 1) = attempt + 1 + k by omega]
        · exact Or.inr ⟨hshift hall, heq⟩
      · exact Or.inl (hnow _ hr (by simpa using hbusy))

/-- **The loop inverts the layout**: from a buffer it reads exactly the arguments that are laid out in it, empty ones too, and it runs
out of the buffer exactly when that does not end with a NUL. On NetBSD the buffer is that of the first attempt that does not fail with
`EBUSY`, if it is one of fifty. -/
theorem bsd_cmdline_eq_iff (procargs : Bytes) :
    (∀ argv, freebsdCmdline procargs = some argv ↔ procargs = cstrings argv ∧ ∀ a ∈ argv, 0 ∉ a) ∧
      (freebsdCmdline procargs = none ↔ ∃ b, procargs.getLast? = some b ∧ b ≠ 0) ∧
      ∀ reply : Nat → Except Errno Bytes,
        (∃ k, k < 50 ∧ (∀ j, j < k → reply j = .error ebusy) ∧ reply k ≠ .error ebusy ∧ netbsdCmdline reply = (reply k).map freebsdCmdline) ∨
          (∀ j, j < 50 → reply j = .error ebusy) ∧ netbsdCmdline reply = .ok (some []) := by
  have hiff : ∀ argv, freebsdCmdline procargs = some argv ↔ procargs = cstrings argv ∧ ∀ a ∈ argv, 0 ∉ a := by
    intro argv
    constructor
    · intro h
      obtain ⟨argv', rfl, hbytes, hnul⟩ := exists_of_walkArgs h
      exact ⟨hbytes, hnul⟩
    · rintro ⟨rfl, hnul⟩
      exact walkArgs_cstrings hnul [] (ProcArgs.length_le_cstrings argv)
  refine ⟨hiff, ?_, fun reply => ?_⟩
  · exact walkArgs_eq_none [] le_rfl
  · rcases retryBusy_spec reply 50 0 with ⟨k, hk, hall, hne, heq⟩ | ⟨hall, heq⟩
    · simp only [Nat.zero_add] at hall hne heq
      refine Or.inl ⟨k, hk, hall, hne, ?_⟩
      rw [netbsdCmdline, heq]
      cases reply k <;> rfl
    · simp only [Nat.zero_add] at hall
      exact Or.inr ⟨hall, by rw [netbsdCmdline, heq]⟩

end Psutil
