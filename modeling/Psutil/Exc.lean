import Mathlib.Order.WithBot
import Mathlib.Algebra.Order.Field.Rat

/-!
# Python exceptions

The built-in exceptions the modelled functions can raise and the psutil ones of `_common.py:108-206`,
each with the attributes its constructor stores.
-/

namespace Psutil

/-- The `errno` values the code tells apart. -/
inductive Errno where
  | esrch | enoent | emfile | enfile | eacces | eperm | other (code : Nat)
  deriving DecidableEq, Repr

inductive Exc where
  | keyError
  | indexError
  | assertionError
  | overflowError
  | valueError (msg : String)
  | typeError (msg : String)
  | attributeError (msg : String)
  | importError (msg : String)
  | runtimeError (msg : String)
  | notImplementedError (msg : String)
  /-- A subclass of `ValueError`. -/
  | unicodeDecodeError
  | osError (errno : Errno)
  /-- `NoSuchProcess(pid, name, msg)` (`_common.py:140`). -/
  | noSuchProcess (pid : Nat) (name : Option String) (msg : String)
  /-- `ZombieProcess(pid, name, ppid)` (`_common.py:157`), a subclass of `NoSuchProcess`. -/
  | zombieProcess (pid : Nat) (name : Option String) (ppid : Option Nat)
  /-- `AccessDenied(pid, name)` (`_common.py:176`). -/
  | accessDenied (pid : Nat) (name : Option String)
  /-- `TimeoutExpired(seconds, pid, name)` (`_common.py:191`); `seconds` may be infinite. -/
  | timeoutExpired (seconds : Option (WithTop ℚ)) (pid : Option Nat) (name : Option String)
  deriving DecidableEq

/-- `self.msg = msg or "process no longer exists"` (`_common.py:151`). -/
def noSuchProcessMsg : String := "process no longer exists"

end Psutil
