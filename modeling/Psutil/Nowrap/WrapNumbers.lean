import Psutil.Exc
import Psutil.Lib.Dict
import Psutil.Lib.Fold

/-!
# `_WrapNumbers` (`_common.py:456-535`)

| here | there |
| --- | --- |
| `WrapNumbers` | the object `_wn` and its three dictionaries, keyed by function name |
| `NameState` | the two inner dictionaries `self.reminders[name]` and `self.reminder_keys[name]` |
| `NameState.forgetKey` | one iteration of the loop over `gone_keys` (`:481`) |
| `runBit`, `runKey` | the bodies of the two loops of `run` (`:499`, `:510`) |

The inner dictionaries are shared objects that the loops change in place; here a loop takes them out
of the outer dictionaries, threads them and puts them back. Both are `defaultdict`s: reading a missing
key creates it. The iteration order of a Python set is not specified, `gone_keys` and the sets of
`reminder_keys` are visited in insertion order here.
-/

namespace Psutil

open Lib

/-- `d[k]`. -/
def getItem {κ ν : Type} [DecidableEq κ] (d : Dict κ ν) (k : κ) : Except Exc ν :=
  match d.get? k with
  | some v => .ok v
  | none => .error .keyError

/-- `del d[k]`. -/
def delItem {κ ν : Type} [DecidableEq κ] (d : Dict κ ν) (k : κ) : Except Exc (Dict κ ν) :=
  if k ∈ d then .ok (d.erase k) else .error .keyError

/-- `t[i]` for a non-negative index. -/
def getIndex (t : List Int) (i : Nat) : Except Exc Int :=
  match t[i]? with
  | some v => .ok v
  | none => .error .indexError

/-- `self.reminders[name]` and `self.reminder_keys[name]`. -/
structure NameState (κ : Type) where
  reminders : Dict (κ × Nat) Int
  reminderKeys : Dict κ (List (κ × Nat))

structure WrapNumbers (κ : Type) where
  cache : Dict String (Dict κ (List Int))
  reminders : Dict String (Dict (κ × Nat) Int)
  reminderKeys : Dict String (Dict κ (List (κ × Nat)))

namespace NameState

variable {κ : Type} [DecidableEq κ]

/-- `for remkey in self.reminder_keys[name][gone_key]: del self.reminders[name][remkey]` and
`del self.reminder_keys[name][gone_key]` (`:482-484`). -/
def forgetKey (st : NameState κ) (goneKey : κ) : Except Exc (NameState κ) := do
  -- the read creates the entry, so the last `del` finds one even for a key that never wrapped
  let remkeys := (st.reminderKeys.get? goneKey).getD []
  let reminderKeys := st.reminderKeys.set goneKey remkeys
  let reminders ← remkeys.foldlM delItem st.reminders
  let reminderKeys ← delItem reminderKeys goneKey
  return ⟨reminders, reminderKeys⟩

/-- `self.reminders[name][remkey]`: the value and the dictionary with the key created. -/
def readReminder (st : NameState κ) (remkey : κ × Nat) : Int × NameState κ :=
  match st.reminders.get? remkey with
  | some v => (v, st)
  | none => (0, { st with reminders := st.reminders.set remkey 0 })

/-- `self.reminders[name][remkey] += old_value` and `self.reminder_keys[name][key].add(remkey)`
(`:516-517`). -/
def addReminder (st : NameState κ) (remkey : κ × Nat) (oldValue : Int) : NameState κ :=
  let (v, st) := st.readReminder remkey
  let remkeys := (st.reminderKeys.get? remkey.1).getD []
  { reminders := st.reminders.set remkey (v + oldValue)
    reminderKeys := st.reminderKeys.set remkey.1 (if remkey ∈ remkeys then remkeys else remkeys ++ [remkey]) }

end NameState

variable {κ : Type} [DecidableEq κ]

/-- The body of `for i in range(len(input_tuple))` (`:511-518`). -/
def runBit (key : κ) (inputTuple oldTuple : List Int) (acc : List Int × NameState κ) (i : Nat) :
    Except Exc (List Int × NameState κ) := do
  let inputValue ← getIndex inputTuple i
  let oldValue ← getIndex oldTuple i
  let st := if inputValue < oldValue then acc.2.addReminder (key, i) oldValue else acc.2
  let (reminder, st) := st.readReminder (key, i)
  return (acc.1 ++ [inputValue + reminder], st)

/-- The body of `for key in input_dict` (`:499-520`). -/
def runKey (oldDict : Dict κ (List Int)) (acc : Dict κ (List Int) × NameState κ) (item : κ × List Int) :
    Except Exc (Dict κ (List Int) × NameState κ) :=
  match oldDict.get? item.1 with
  | none => .ok (acc.1.set item.1 item.2, acc.2)
  | some oldTuple => do
    let (bits, st) ← (List.range item.2.length).foldlM (runBit item.1 item.2 oldTuple) ([], acc.2)
    return (acc.1.set item.1 bits, st)

namespace WrapNumbers

/-- `_WrapNumbers.__init__` (`:461`). -/
def init : WrapNumbers κ := ⟨∅, ∅, ∅⟩

def nameState (self : WrapNumbers κ) (name : String) : Except Exc (NameState κ) := do
  return ⟨← getItem self.reminders name, ← getItem self.reminderKeys name⟩

def putNameState (self : WrapNumbers κ) (name : String) (st : NameState κ) : WrapNumbers κ :=
  { self with
    reminders := self.reminders.set name st.reminders
    reminderKeys := self.reminderKeys.set name st.reminderKeys }

/-- `_add_dict` (`:467`). -/
def addDict (self : WrapNumbers κ) (inputDict : Dict κ (List Int)) (name : String) :
    Except Exc (WrapNumbers κ) :=
  if name ∈ self.cache ∨ name ∈ self.reminders ∨ name ∈ self.reminderKeys then .error .assertionError
  else .ok
    { cache := self.cache.set name inputDict
      reminders := self.reminders.set name ∅
      reminderKeys := self.reminderKeys.set name ∅ }

/-- `set(old_dict) - set(input_dict)`. -/
def goneKeys (oldDict inputDict : Dict κ (List Int)) : List κ := oldDict.keys.filter (· ∉ inputDict)

/-- `_remove_dead_reminders` (`:475`). -/
def removeDeadReminders (self : WrapNumbers κ) (inputDict : Dict κ (List Int)) (name : String) :
    Except Exc (WrapNumbers κ) := do
  let oldDict ← getItem self.cache name
  let st ← self.nameState name
  let st ← (goneKeys oldDict inputDict).foldlM NameState.forgetKey st
  return self.putNameState name st

/-- `run` (`:486`). An exception ends the run: what it leaves half done is not modelled. -/
def run (self : WrapNumbers κ) (inputDict : Dict κ (List Int)) (name : String) :
    Except Exc (Dict κ (List Int) × WrapNumbers κ) := do
  if name ∉ self.cache then
    -- the first call
    let self ← self.addDict inputDict name
    return (inputDict, self)
  let self ← self.removeDeadReminders inputDict name
  let oldDict ← getItem self.cache name
  let st ← self.nameState name
  let (newDict, st) ← inputDict.items.foldlM (runKey oldDict) (∅, st)
  let self := self.putNameState name st
  return (newDict, { self with cache := self.cache.set name inputDict })

/-- `cache_clear` (`:525`). -/
def cacheClear (self : WrapNumbers κ) (name : Option String) : WrapNumbers κ :=
  match name with
  | none => init
  | some name =>
    { cache := self.cache.erase name
      reminders := self.reminders.erase name
      reminderKeys := self.reminderKeys.erase name }

end WrapNumbers

end Psutil
