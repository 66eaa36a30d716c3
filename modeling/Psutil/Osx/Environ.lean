import Psutil.Common.C
import Psutil.Common.Text
import Psutil.Linux.Text

/-!
# `Process.environ()` on macOS

| here | there |
| --- | --- |
| `skipArgs`, `copyEnv`, `environBlock`, `procEnviron` | `psutil_proc_environ` (`arch/osx/proc.c:907`) |
| `environ` | `Process.environ` (`_psosx.py:375`), with `Common.parseEnvironBlock` |

A pointer into the buffer is the rest of the buffer from there, and `arg_end` is the empty one. The file system encoding
keeps `\0`, `=` and what lies between them apart, so a string stands for its bytes. `environ_eq_iff`: the last variable is
lost exactly when the buffer ends right after it.
-/

namespace Psutil

open Lib Bytes

/-! ## `psutil_proc_environ` -/

/-- Four bytes as an `int`. -/
def leInt32 (procargs : Bytes) : Int :=
  let n : Nat := (procargs.take 4).foldr (fun b n => b.toNat + 256 * n) 0
  if n < 2147483648 then n else n - 4294967296

/-- `memchr(ptr, '\0', arg_end - ptr)`; `NULL` is the empty one. -/
def memchr (ptr : Bytes) : Bytes := ptr.dropWhile (· ≠ 0)

/-- `if (*arg_ptr++ == '\0') nargs--;`, while there are any. -/
def skipArgs : Int → Bytes → Bytes
  | _, [] => []
  | nargs, b :: argPtr => if nargs > 0 then skipArgs (if b = 0 then nargs - 1 else nargs) argPtr else b :: argPtr

/-- The loop that copies the variables: where it ends, and what it has copied. -/
def copyEnv (envStart : Bytes) : Nat → Bytes → Bytes → Bytes × Bytes
  | 0, argPtr, procenv => (argPtr, procenv)
  | fuel + 1, argPtr, procenv =>
    if argPtr = [] ∨ argPtr.head? = some 0 then (argPtr, procenv)
    else match memchr argPtr with
      | [] => (argPtr, procenv)
      | _ :: next =>
        let copyLen := argPtr.length - (next.length + 1)
        let offset := envStart.length - argPtr.length
        -- prevent overflow
        if offset + copyLen ≥ envStart.length then (argPtr, procenv)
        else copyEnv envStart fuel next (memcpy procenv offset (argPtr.take copyLen))

/-- What is made of the buffer. -/
def environBlock (procargs : Bytes) : Bytes :=
  let nargs := leInt32 procargs
  -- skip executable path
  let argPtr := memchr (procargs.drop 4)
  if argPtr = [] then []
  else
    let argPtr := skipArgs nargs (argPtr.dropWhile (· = 0))
    if argPtr = [] then []
    else
      let envLen := argPtr.length
      let (last, procenv) := copyEnv argPtr envLen argPtr (List.replicate envLen 0)
      let used := envLen - last.length
      procenv.take (if used ≥ envLen then envLen - 1 else used)

/-- `sysctl` is the buffer, or the error of reading it. -/
def procEnviron (pid : Nat) (sysctl : Except Exc Bytes) : Except Exc Bytes :=
  if pid = 0 then .ok [] else sysctl.map environBlock

def environ (pid : Nat) (sysctl : Except Exc Bytes) : Except Exc (Option (Dict Bytes Bytes)) :=
  (procEnviron pid sysctl).map (Common.parseEnvironBlock Common.byteDelims none)

/-! ## The layout of the buffer -/

/-- A `KERN_PROCARGS2` buffer. -/
structure ProcArgs where
  exe : Bytes
  /-- The NULs after the first one behind the path. -/
  pad : Nat
  arg0 : Bytes
  args : List Bytes
  env : List (Bytes × Bytes)
  /-- The NULs at the end. -/
  trailing : Nat
  exe_nul : 0 ∉ exe
  arg0_ne : arg0 ≠ []
  args_nul : ∀ a ∈ arg0 :: args, 0 ∉ a
  env_key : ∀ p ∈ env, p.1 ≠ [] ∧ 0 ∉ p.1 ∧ byte '=' ∉ p.1
  env_value : ∀ p ∈ env, 0 ∉ p.2
  argc_lt : args.length + 1 < 2147483648

def leBytes (n : Nat) : Bytes := [n.toUInt8, (n / 256).toUInt8, (n / 65536).toUInt8, (n / 16777216).toUInt8]

/-- Strings with their terminating NULs. -/
def cstrings (l : List Bytes) : Bytes := l.flatMap (· ++ [0])

def assignment (p : Bytes × Bytes) : Bytes := p.1 ++ byte '=' :: p.2

namespace ProcArgs

def envBytes (p : ProcArgs) : Bytes := cstrings (p.env.map assignment)

def bytes (p : ProcArgs) : Bytes :=
  leBytes (p.args.length + 1) ++ (p.exe ++ (List.replicate (p.pad + 1) 0 ++ (cstrings (p.arg0 :: p.args) ++
    (p.envBytes ++ List.replicate p.trailing 0))))

end ProcArgs

/-! ## The scanner -/

theorem leInt32_leBytes {n : Nat} (h : n < 2147483648) (rest : Bytes) : leInt32 (leBytes n ++ rest) = n := by
  simp [leInt32, leBytes]
  omega

theorem memchr_append {s : Bytes} (h : 0 ∉ s) (rest : Bytes) : memchr (s ++ 0 :: rest) = 0 :: rest := by
  induction s with
  | nil => rfl
  | cons b s ih =>
    rw [List.mem_cons, not_or] at h
    rw [memchr, List.cons_append, List.dropWhile_cons_of_pos (by simpa using Ne.symm h.1)]
    exact ih h.2

theorem skipArgs_zero (rest : Bytes) : skipArgs 0 rest = rest := by
  cases rest <;> rfl

theorem skipArgs_string {s : Bytes} (h : 0 ∉ s) (n : Nat) (rest : Bytes) :
    skipArgs ((n : Int) + 1) (s ++ 0 :: rest) = skipArgs n rest := by
  induction s with
  | nil =>
    rw [List.nil_append, skipArgs, if_pos (by omega), if_pos rfl, Int.add_sub_cancel]
  | cons b s ih =>
    rw [List.mem_cons, not_or] at h
    rw [List.cons_append, skipArgs, if_pos (by omega), if_neg (Ne.symm h.1)]
    exact ih h.2

theorem skipArgs_cstrings : ∀ {l : List Bytes}, (∀ s ∈ l, 0 ∉ s) → ∀ rest, skipArgs (l.length : Int) (cstrings l ++ rest) = rest
  | [], _, rest => skipArgs_zero rest
  | s :: l, h, rest => by
    have ih := skipArgs_cstrings (fun t ht => h t (List.mem_cons_of_mem s ht)) rest
    rw [cstrings, List.flatMap_cons, List.append_assoc, List.append_assoc, List.length_cons, Nat.cast_add_one]
    rw [List.singleton_append, skipArgs_string (h s List.mem_cons_self)]
    exact ih

/-- One round: a string that is not empty is copied to its place. -/
theorem copyEnv_string {envStart s rest : Bytes} (hne : s ≠ []) (hnul : 0 ∉ s) {copied : Bytes}
    (hlen : envStart.length = copied.length + (s ++ 0 :: rest).length) (fuel : Nat) :
    copyEnv envStart (fuel + 1) (s ++ 0 :: rest) (copied ++ List.replicate (s ++ 0 :: rest).length 0) =
      copyEnv envStart fuel rest ((copied ++ (s ++ [0])) ++ List.replicate rest.length 0) := by
  have hhead : ¬(s ++ 0 :: rest = [] ∨ (s ++ 0 :: rest).head? = some 0) := by
    cases s with
    | nil => exact absurd rfl hne
    | cons b s => simpa using fun hb : b = 0 => hnul (hb ▸ List.mem_cons_self)
  have hzeros : (s ++ 0 :: rest).length = s.length + (1 + rest.length) := by
    rw [List.length_append, List.length_cons, Nat.add_comm 1]
  have hcopy : memcpy (copied ++ List.replicate (s ++ 0 :: rest).length 0) copied.length s =
      (copied ++ (s ++ [0])) ++ List.replicate rest.length 0 := by
    rw [memcpy, hzeros, List.replicate_add, List.replicate_add]
    simp [List.drop_append]
  have hcopyLen : (s ++ 0 :: rest).length - (rest.length + 1) = s.length := by omega
  have hoffset : envStart.length - (s ++ 0 :: rest).length = copied.length := by omega
  have hfits : ¬copied.length + s.length ≥ envStart.length := by omega
  have htake : (s ++ 0 :: rest).take s.length = s := List.take_left
  rw [copyEnv, if_neg hhead, memchr_append hnul]
  simp only [hcopyLen, hoffset, if_neg hfits, htake, hcopy]

/-- The loop goes through all variables, and stops at what comes after them. -/
theorem copyEnv_cstrings {envStart tail : Bytes} (htail : tail = [] ∨ tail.head? = some 0) :
    ∀ {l : List Bytes} {fuel : Nat} {copied : Bytes}, (∀ s ∈ l, s ≠ [] ∧ 0 ∉ s) → l.length ≤ fuel →
      envStart.length = copied.length + (cstrings l ++ tail).length →
      copyEnv envStart fuel (cstrings l ++ tail) (copied ++ List.replicate (cstrings l ++ tail).length 0) =
        (tail, copied ++ (cstrings l ++ List.replicate tail.length 0))
  | [], fuel, copied, _, _, _ => by
    cases fuel with
    | zero => rfl
    | succ fuel =>
      rw [show cstrings [] = [] from rfl, List.nil_append, List.nil_append, copyEnv, if_pos htail]
  | s :: l, 0, copied, _, hfuel, _ => by simp at hfuel
  | s :: l, fuel + 1, copied, h, hfuel, hlen => by
    obtain ⟨hne, hnul⟩ := h s List.mem_cons_self
    have hsplit : cstrings (s :: l) ++ tail = s ++ 0 :: (cstrings l ++ tail) := by simp [cstrings]
    rw [hsplit] at hlen ⊢
    have hlen' : envStart.length = (copied ++ (s ++ [0])).length + (cstrings l ++ tail).length := by
      rw [hlen]
      simp only [List.length_append, List.length_cons, List.length_nil]
      omega
    rw [copyEnv_string hne hnul hlen, copyEnv_cstrings htail (fun t ht => h t (List.mem_cons_of_mem s ht))
      (Nat.le_of_succ_le_succ hfuel) hlen']
    simp [cstrings]

namespace ProcArgs

variable (p : ProcArgs)

theorem assignment_ok : ∀ s ∈ p.env.map assignment, s ≠ [] ∧ 0 ∉ s := by
  intro s hs
  obtain ⟨⟨key, value⟩, hp, rfl⟩ := List.mem_map.1 hs
  obtain ⟨-, hkey, -⟩ := p.env_key _ hp
  have hvalue := p.env_value _ hp
  refine ⟨by simp [assignment], ?_⟩
  simp only [assignment, List.mem_append, List.mem_cons, not_or]
  exact ⟨hkey, by decide, hvalue⟩

/-- Up to the first variable. -/
theorem scan_bytes : skipArgs (leInt32 p.bytes) ((memchr (p.bytes.drop 4)).dropWhile (· = 0)) =
    p.envBytes ++ List.replicate p.trailing 0 ∧ memchr (p.bytes.drop 4) ≠ [] := by
  obtain ⟨b, arg, harg⟩ := List.exists_cons_of_ne_nil p.arg0_ne
  have hb : b ≠ 0 := by
    rintro rfl
    exact p.args_nul p.arg0 List.mem_cons_self (harg ▸ List.mem_cons_self)
  have hdrop : p.bytes.drop 4 = p.exe ++ 0 :: (List.replicate p.pad 0 ++ (cstrings (p.arg0 :: p.args) ++
      (p.envBytes ++ List.replicate p.trailing 0))) := by
    rw [bytes, show 4 = (leBytes (p.args.length + 1)).length from rfl, List.drop_left, List.replicate_succ, List.cons_append]
  have hskip : (0 :: (List.replicate p.pad 0 ++ (cstrings (p.arg0 :: p.args) ++ (p.envBytes ++ List.replicate p.trailing 0)))).dropWhile
      (· = 0) = cstrings (p.arg0 :: p.args) ++ (p.envBytes ++ List.replicate p.trailing 0) := by
    rw [← List.cons_append, ← List.replicate_succ, List.dropWhile_append_of_pos (by simp)]
    simp [cstrings, harg, hb]
  rw [hdrop, memchr_append p.exe_nul, hskip, bytes, leInt32_leBytes p.argc_lt]
  exact ⟨skipArgs_cstrings p.args_nul _, by simp⟩

theorem length_le_cstrings : ∀ l : List Bytes, l.length ≤ (cstrings l).length
  | [] => Nat.le_refl 0
  | s :: l => by
    have ih := length_le_cstrings l
    simp only [cstrings, List.flatMap_cons, List.length_append, List.length_cons, List.length_nil] at ih ⊢
    omega

/-- **What the scanner returns**: all variables, but for the last NUL if nothing comes after it. -/
theorem environBlock_bytes : environBlock p.bytes = if p.trailing = 0 then p.envBytes.dropLast else p.envBytes := by
  obtain ⟨hscan, hpath⟩ := p.scan_bytes
  have htail : List.replicate p.trailing (0 : UInt8) = [] ∨ (List.replicate p.trailing (0 : UInt8)).head? = some 0 := by
    cases p.trailing with
    | zero => exact Or.inl rfl
    | succ k => exact Or.inr rfl
  have hlen : (p.envBytes ++ List.replicate p.trailing 0).length = p.envBytes.length + p.trailing := by simp
  have hfuel : (p.env.map assignment).length ≤ (p.envBytes ++ List.replicate p.trailing 0).length := by
    have hle := length_le_cstrings (p.env.map assignment)
    change _ ≤ p.envBytes.length at hle
    omega
  have hcopy : copyEnv (p.envBytes ++ List.replicate p.trailing 0) (p.envBytes ++ List.replicate p.trailing 0).length
      (p.envBytes ++ List.replicate p.trailing 0) (List.replicate (p.envBytes ++ List.replicate p.trailing 0).length 0) =
      (List.replicate p.trailing 0, p.envBytes ++ List.replicate p.trailing 0) := by
    have hloop := @copyEnv_cstrings (p.envBytes ++ List.replicate p.trailing 0) _ htail _ _ [] p.assignment_ok hfuel
      (Nat.zero_add _).symm
    rw [List.length_replicate] at hloop
    exact hloop
  unfold environBlock
  simp only [if_neg hpath, hscan, hcopy]
  simp only [List.length_replicate, hlen, Nat.add_sub_cancel]
  by_cases hk : p.trailing = 0
  · rw [if_pos hk, hk, List.replicate_zero, List.append_nil, Nat.add_zero, if_pos (Nat.le_refl _), ← List.dropLast_eq_take]
    split_ifs with hempty
    · rw [hempty]
      rfl
    · rfl
  · rw [if_neg hk, if_neg (by simp [hk]), if_neg (by omega), List.take_left]

end ProcArgs

/-! ## The parser -/

/-- The variables, one after the other. -/
theorem cstrings_assignment (env : List (Bytes × Bytes)) : cstrings (env.map assignment) = Common.block Common.byteDelims env := by
  rw [cstrings, List.flatMap_map, Common.block]
  exact congrArg (fun f => env.flatMap f) (funext fun p => by simp [assignment, Common.byteDelims])

theorem parseEnvironBlock_append {env : List (Bytes × Bytes)} {tail : Bytes} (htail : 0 ∉ tail)
    (hkeys : ∀ p ∈ env, p.1 ≠ [] ∧ 0 ∉ p.1 ∧ byte '=' ∉ p.1) (hvalues : ∀ p ∈ env, 0 ∉ p.2) :
    Common.parseEnvironBlock Common.byteDelims none (cstrings (env.map assignment) ++ tail) = some (Dict.update ∅ env) := by
  have henv : Common.IsEnviron Common.byteDelims env :=
    ⟨fun p hp => ⟨(hkeys p hp).1, (hkeys p hp).2.2, (hkeys p hp).2.1⟩, hvalues⟩
  have hsame : env.map (fun p => (Common.upperCase none p.1, p.2)) = env := List.map_id' env
  rw [Common.parseEnvironBlock_assignments, cstrings_assignment, Common.assignments_block Common.byteDelims none henv htail, hsame]

namespace ProcArgs

variable (p : ProcArgs)

/-- With a NUL at the end all variables are read. -/
theorem parse_trailing : Common.parseEnvironBlock Common.byteDelims none p.envBytes = some (Dict.update ∅ p.env) := by
  have hparse := parseEnvironBlock_append (List.not_mem_nil (a := 0)) p.env_key p.env_value
  rwa [List.append_nil] at hparse

/-- Without one, the last variable is not read. -/
theorem parse_cut {init : List (Bytes × Bytes)} {last : Bytes × Bytes} (h : p.env = init ++ [last]) :
    Common.parseEnvironBlock Common.byteDelims none p.envBytes.dropLast = some (Dict.update ∅ init) := by
  have hmem : ∀ q ∈ init, q ∈ p.env := fun q hq => h ▸ List.mem_append_left _ hq
  have hbytes : p.envBytes.dropLast = cstrings (init.map assignment) ++ assignment last := by
    simp [envBytes, h, cstrings]
  rw [hbytes]
  apply parseEnvironBlock_append
  · exact (p.assignment_ok _ (List.mem_map_of_mem (h ▸ List.mem_append_right init List.mem_cons_self))).2
  · exact fun q hq => p.env_key q (hmem q hq)
  · exact fun q hq => p.env_value q (hmem q hq)

end ProcArgs

/-- **`environ()` is the environment, exactly when** the buffer goes on after the last variable, or the last variable is
one that an earlier one has set to the same value. -/
theorem environ_eq_iff {pid : Nat} (hpid : pid ≠ 0) (p : ProcArgs) : environ pid (.ok p.bytes) = .ok (some (Dict.update ∅ p.env)) ↔
    p.trailing ≠ 0 ∨ ∀ init last, p.env = init ++ [last] → (Dict.update ∅ init).get? last.1 = some last.2 := by
  have henv : environ pid (.ok p.bytes) = .ok (Common.parseEnvironBlock Common.byteDelims none (environBlock p.bytes)) := by
    rw [environ, procEnviron, if_neg hpid]
    rfl
  rw [henv, Except.ok.injEq, p.environBlock_bytes]
  by_cases hk : p.trailing = 0
  · rw [if_pos hk]
    rcases List.eq_nil_or_concat p.env with hnil | ⟨init, last, hlast⟩
    · have hempty : p.envBytes.dropLast = [] := by rw [ProcArgs.envBytes, hnil]; rfl
      rw [hempty, hnil]
      refine ⟨fun _ => Or.inr fun init last h => ?_, fun _ => rfl⟩
      simp at h
    · rw [List.concat_eq_append] at hlast
      rw [p.parse_cut hlast, hlast, Option.some.injEq, Dict.update_append, Dict.update_cons, Dict.update_nil, eq_comm, Dict.set_eq_self]
      constructor
      · intro hget
        refine Or.inr fun init' last' h => ?_
        obtain ⟨rfl, hsingle⟩ := List.append_inj' h rfl
        obtain rfl := List.head_eq_of_cons_eq hsingle
        exact hget
      · rintro (h | h)
        · exact absurd hk h
        · exact h init last rfl
  · rw [if_neg hk, p.parse_trailing]
    exact ⟨fun _ => Or.inl hk, fun _ => rfl⟩

/-- `cat` with `A=1` and `B=2`. -/
def catArgs (trailing : Nat) : ProcArgs where
  exe := ascii "/bin/cat"
  pad := 3
  arg0 := ascii "cat"
  args := []
  env := [(ascii "A", ascii "1"), (ascii "B", ascii "2")]
  trailing := trailing
  exe_nul := by decide
  arg0_ne := by decide
  args_nul := by decide
  env_key := by decide
  env_value := by decide
  argc_lt := by decide

/-- The buffer ends with the NUL of `B=2`, and only `A` is found. -/
theorem environ_loses_last : ¬∀ (pid : Nat), pid ≠ 0 → ∀ p : ProcArgs, environ pid (.ok p.bytes) = .ok (some (Dict.update ∅ p.env)) := by
  intro h
  exact absurd (h 1 (by decide) (catArgs 0)) (by decide)

theorem environ_eq_cat : environ 1 (.ok (catArgs 5).bytes) = .ok (some (Dict.update ∅ [(ascii "A", ascii "1"), (ascii "B", ascii "2")])) :=
  (environ_eq_iff Nat.one_ne_zero (catArgs 5)).2 (Or.inl (by decide))

end Psutil
