import Psutil.Linux.Bytes

/-!
# C integers, blocks and errors

What the C extensions share: the width of `int`, copies into a block, and the exceptions that C code can set, of which
`MemoryError` is one that no Python code of the package raises.
-/

namespace Psutil

/-- `INT_MAX`. -/
def intMax : Nat := 2147483647

/-- A count stored in an `int`: its low 32 bits, as two's complement. -/
def toInt (n : Nat) : Int :=
  let low : Nat := n % 4294967296
  if low ≤ intMax then low else (low : Int) - 4294967296

theorem toInt_eq {n : Nat} (h : n ≤ intMax) : toInt n = n := by
  have hlow : n % 4294967296 = n := Nat.mod_eq_of_lt (by rw [intMax] at h; omega)
  simp only [toInt, hlow, if_pos h]

/-- What is left of a count is not more than the count. -/
theorem toInt_le (n : Nat) : toInt n ≤ n := by
  have hlow : n % 4294967296 ≤ n := Nat.mod_le n _
  simp only [toInt]
  split <;> omega

def memcpy (dst : Bytes) (offset : Nat) (src : Bytes) : Bytes := dst.take offset ++ (src ++ dst.drop (offset + src.length))

/-- The exception that C code leaves behind. -/
inductive CErr where
  /-- `PyErr_NoMemory()`. -/
  | noMemory
  /-- `ZombieProcessError`, with no text. -/
  | zombieProcessError
  | exc (e : Exc)
  deriving DecidableEq

/-- `psutil_badargs(funcname)` (`arch/all/errors.c:179`). -/
def psutilBadargs (funcname : String) : CErr := .exc (.runtimeError (funcname ++ "() invalid args passed to function"))

/-- What `psutil_raise_for_pid` looks at. -/
structure PidState where
  /-- `errno`, if it is not zero. -/
  errno : Option Errno
  /-- `psutil_pid_exists(pid) != 0`. -/
  pidExists : Bool
  zombie : Bool

/-- `psutil_raise_for_pid(pid, syscall)` (`arch/posix/proc.c:37`), where there are zombies. -/
def psutilRaiseForPid (st : PidState) (syscall : String) : CErr :=
  match st.errno with
  | some errno => .exc (.osError errno)
  | none =>
    if !st.pidExists then .exc (.osError .esrch)
    else if st.zombie then .zombieProcessError
    else .exc (.runtimeError (syscall ++ " syscall failed"))

end Psutil
