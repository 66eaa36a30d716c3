import Psutil.Windows.ProcTable

/-!
# The PIDs of Windows

| here | there |
| --- | --- |
| `pidsBody` | `_psutil_pids` (`arch/windows/pids.c:15-49`) |
| `psutilPids` | `psutil_pids` (`arch/all/pids.c:39-77`) |
| `pidInPids` | `pid_in_pids` (`arch/windows/proc_utils.c:16-36`) |

`EnumProcesses` does not say how many processes there are, only how much of the array it has filled.
-/

namespace Psutil.WinPids

open Lib ProcTable

/-- The `k`-th round of the loop finds the processes of another moment. -/
structure PidsHost where
  listed : Nat → Except Errno (List Nat)
  memory : Nat → Bool
  /-- `pylist_append_obj` of the `i`-th PID. -/
  append : Nat → Bool

structure PidsState where
  rounds : Nat
  array : Option Nat
  heap : Blocks

/-- `*pids_array` is the block and the PIDs in it. -/
structure PidsResult where
  result : Except CErr (List Nat)
  array : Option Nat
  heap : Blocks

/-- `proc_array_sz`, after `+= 1024`. That the bytes wrap around in a `DWORD` after `2 ^ 20` rounds is not modelled. -/
def arraySize (rounds : Nat) : Nat := 1024 * (rounds + 1)

variable (host : PidsHost)

def pidsBody (s : PidsState) : Round PidsState PidsResult :=
  let bytes := 4 * arraySize s.rounds
  match (s.heap.free s.array).alloc bytes (host.memory s.rounds) with
  | (heap, none) => .done ⟨.error .noMemory, none, heap⟩
  | (heap, some array) => match host.listed s.rounds with
    | .error errno => .done ⟨.error (.exc (.osError errno)), none, heap.free (some array)⟩
    | .ok pids =>
      let returned := 4 * min pids.length (arraySize s.rounds)
      if returned = bytes then .next ⟨s.rounds + 1, some array, heap⟩
      else .done ⟨.ok (pids.take (returned / 4)), some array, heap⟩

def runPids (fuel : Nat) : Option PidsResult := loop (pidsBody host) fuel ⟨0, none, .empty⟩

def noPidsFound : CErr := .exc (.runtimeError "no PIDs found")

/-- The list, of the PIDs that were found. -/
def retlist : Except CErr (List Nat) → Except CErr (List Int)
  | .error e => .error e
  | .ok [] => .error noPidsFound
  | .ok pids => if (List.range pids.length).all host.append then .ok (pids.map pidOfHandle) else .error .noMemory

/-- The list or the exception, and the blocks. -/
def psutilPids (fuel : Nat) : Option (Except CErr (List Int) × Blocks) :=
  (runPids host fuel).map fun r => (retlist host r.result, r.heap.free r.array)

def pidInPids (pid fuel : Nat) : Option (Except CErr Bool × Blocks) :=
  (runPids host fuel).map fun r => (r.result.map (·.any (· == pid)), r.heap.free r.array)

/-! ## The round that ends the loop -/

/-- The loop is left in round `k`: without memory, with an error, or with an array that is not full. -/
def PidsHost.Settles (k : Nat) : Prop :=
  host.memory k = false ∨ ∀ pids, host.listed k = .ok pids → pids.length < arraySize k

/-- What it is left with. -/
def PidsHost.outcome (k : Nat) : Except CErr (List Nat) :=
  if host.memory k then (host.listed k).mapError fun errno => .exc (.osError errno) else .error .noMemory

variable {host}

theorem pidsBody_next {s : PidsState} (h : ¬host.Settles s.rounds) (hh : s.heap.Holds s.array) :
    ∃ s', pidsBody host s = .next s' ∧ s'.rounds = s.rounds + 1 ∧ s'.heap.Holds s'.array := by
  rw [PidsHost.Settles, not_or, Bool.not_eq_false, not_forall] at h
  obtain ⟨hmemory, pids, hpids⟩ := h
  rw [Classical.not_imp, Nat.not_lt] at hpids
  obtain ⟨hlisted, hfull⟩ := hpids
  have halloc := hh.free.alloc (4 * arraySize s.rounds) true
  refine ⟨⟨s.rounds + 1, some (s.heap.free s.array).requests.length, ((s.heap.free s.array).alloc (4 * arraySize s.rounds) true).1⟩,
    ?_, rfl, halloc⟩
  rw [pidsBody, hmemory, hlisted]
  simp only [Blocks.alloc, if_true, Nat.min_eq_right hfull]

theorem pidsBody_done {s : PidsState} (h : host.Settles s.rounds) (hh : s.heap.Holds s.array) :
    ∃ r, pidsBody host s = .done r ∧ r.result = host.outcome s.rounds ∧ r.heap.Holds r.array := by
  have halloc := hh.free.alloc (4 * arraySize s.rounds)
  rw [pidsBody, PidsHost.outcome]
  cases hmemory : host.memory s.rounds with
  | false => exact ⟨_, rfl, rfl, halloc false⟩
  | true =>
    cases hlisted : host.listed s.rounds with
    | error errno => exact ⟨_, rfl, rfl, (halloc true).free⟩
    | ok pids =>
      have hlt : pids.length < arraySize s.rounds := by
        rcases h with hnone | hlt
        · rw [hmemory] at hnone
          cases hnone
        · exact hlt pids hlisted
      have hreturned : 4 * min pids.length (arraySize s.rounds) = 4 * pids.length := by rw [Nat.min_eq_left hlt.le]
      have hne : 4 * pids.length ≠ 4 * arraySize s.rounds := by omega
      refine ⟨⟨.ok pids, some (s.heap.free s.array).requests.length, _⟩, ?_, rfl, halloc true⟩
      simp only [Blocks.alloc, if_true, hreturned, hne, if_false, Nat.mul_div_cancel_left pids.length (by decide : 0 < 4), List.take_length]

theorem runPids_yields {k : Nat} (hk : host.Settles k) (hbefore : ∀ j < k, ¬host.Settles j) :
    ∃ r, (r.result = host.outcome k ∧ r.heap.Holds r.array) ∧ Yields (runPids host) r := by
  refine loop_yields (I := fun s => s.rounds ≤ k ∧ s.heap.Holds s.array) (μ := fun s => k - s.rounds) ?_ ⟨Nat.zero_le k, .empty⟩
  rintro s ⟨hle, hh⟩
  rcases Nat.lt_or_eq_of_le hle with hlt | rfl
  · obtain ⟨s', hbody, hrounds, hh'⟩ := pidsBody_next (hbefore s.rounds hlt) hh
    rw [hbody]
    exact ⟨⟨by omega, hh'⟩, by omega⟩
  · obtain ⟨r, hbody, hr⟩ := pidsBody_done hk hh
    rw [hbody]
    exact hr

theorem runPids_eq_none (h : ∀ k, ¬host.Settles k) (fuel : Nat) : runPids host fuel = none := by
  refine loop_eq_none (J := fun s => s.heap.Holds s.array) (fun s hh => ?_) Blocks.Holds.empty
  obtain ⟨s', hbody, -, hh'⟩ := pidsBody_next (h s.rounds) hh
  exact ⟨s', hbody, hh'⟩

/-- **All PIDs of one moment**: the loop is left in the first round whose array is not full, and both functions answer from all
processes there were then; the arrays are freed once. It goes on for ever exactly if the processes always fill the array. -/
theorem win_pids_complete (host : PidsHost) (pid : Nat) :
    (∀ k, host.Settles k → (∀ j < k, ¬host.Settles j) →
      (∃ heap, heap.FreedOnce ∧ Yields (psutilPids host) (retlist host (host.outcome k), heap)) ∧
        ∃ heap, heap.FreedOnce ∧ Yields (pidInPids host pid) ((host.outcome k).map (pid ∈ ·), heap)) ∧
      ((∀ k, ¬host.Settles k) → ∀ fuel, psutilPids host fuel = none ∧ pidInPids host pid fuel = none) := by
  refine ⟨fun k hk hbefore => ?_, fun hnever fuel => ?_⟩
  · obtain ⟨r, ⟨hresult, hh⟩, hyields⟩ := runPids_yields hk hbefore
    refine ⟨⟨r.heap.free r.array, hh.free.freedOnce, ?_⟩, r.heap.free r.array, hh.free.freedOnce, ?_⟩
    · rw [← hresult]
      exact hyields.map _
    · have hmem : (host.outcome k).map (fun pids => decide (pid ∈ pids)) = r.result.map (·.any (· == pid)) := by
        rw [hresult]
        congr 1
        funext pids
        rw [Bool.eq_iff_iff, decide_eq_true_iff, List.any_eq_true]
        simp
      rw [hmem]
      exact hyields.map _
  · rw [psutilPids, pidInPids, runPids_eq_none hnever]
    exact ⟨rfl, rfl⟩

/-- Three processes. -/
def threeHost : PidsHost := ⟨fun _ => .ok [0, 4, 7], fun _ => true, fun _ => true⟩

theorem win_pids_complete_three : ∃ heap, heap.FreedOnce ∧ Yields (pidInPids threeHost 4) (.ok true, heap) :=
  ((win_pids_complete threeHost 4).1 0 (Or.inr fun pids h => by cases h; decide) fun j hj => absurd hj (Nat.not_lt_zero j)).2

end Psutil.WinPids
