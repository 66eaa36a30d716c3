import Mathlib.Data.Finset.Card
import Mathlib.Data.List.Sort
import Psutil.Common.C
import Psutil.Lib.Blocks
import Psutil.Lib.Loop
import Psutil.Linux.Affinity

/-!
# The mask of `psutil_proc_cpu_affinity_get` (`arch/linux/proc.c:86`)

The function of `procCpuAffinityGet` in the sizes and the `int`s of the C code: a mask is asked for in blocks of words, and
an `int` that overflows, or a bit outside the mask, is a fault. `cpuAffinityGet_spec`: there is none, and the list is that
of the set bits unless no `int` can count the bits of a mask that the kernel takes.
-/

namespace Psutil.Affinity

open Lib

structure Kernel where
  /-- `sizeof(unsigned long)`. -/
  word : Nat
  word_eq : word = 4 ∨ word = 8
  /-- The size of a mask of the kernel, in bytes. -/
  maskSize : Nat
  mask : Finset Nat
  mask_lt : ∀ cpu ∈ mask, cpu < 8 * maskSize
  /-- Another reason for which the `k`-th `sched_getaffinity` fails. -/
  refuses : Nat → Option Errno
  refuses_ne : ∀ k, refuses k ≠ some einval
  /-- Whether there is memory for the `k`-th mask. -/
  memory : Nat → Bool
  /-- The exception that keeps the list, or its `k`-th item, from being built. -/
  newList : Option CErr
  item : Nat → Option CErr

inductive Outcome where
  | list (cpus : List Nat)
  | raised (e : CErr)
  | fault
  deriving DecidableEq

structure Answer where
  outcome : Outcome
  heap : Blocks

/-- A mask that the kernel has filled in. -/
structure Mask where
  setsize : Nat
  block : Option Nat
  heap : Blocks

structure AskState where
  ncpus : Nat
  heap : Blocks

structure ScanState where
  cpu : Nat
  count : Nat
  list : List Nat

/-- The value of an `int` expression, or a fault. -/
def cInt (n : Nat) : Option Nat := if n ≤ intMax then some n else none

namespace Kernel

variable (kern : Kernel)

/-- `CPU_ALLOC_SIZE(ncpus)`, whole words. -/
def cpuAllocSize (ncpus : Nat) : Nat := (ncpus + 8 * kern.word - 1) / (8 * kern.word) * kern.word

def schedGetaffinity (k setsize : Nat) : Except Errno Unit :=
  match kern.refuses k with
  | some errno => .error errno
  | none => if setsize < kern.maskSize then .error einval else .ok ()

def askBody (s : AskState) : Round AskState (Except Answer Mask) :=
  let setsize := kern.cpuAllocSize s.ncpus
  let k := s.heap.requests.length
  let mask := s.heap.alloc setsize (kern.memory k)
  if mask.2 = none then .done (.error ⟨.raised .noMemory, mask.1⟩)
  else
    match kern.schedGetaffinity k setsize with
    | .ok () => .done (.ok ⟨setsize, mask.2, mask.1⟩)
    | .error errno =>
      let heap := mask.1.free mask.2
      if errno ≠ einval then .done (.error ⟨.raised (.exc (.osError errno)), heap⟩)
      else if s.ncpus > intMax / 2 then .done (.error ⟨.raised (.exc .overflowError), heap⟩)
      else
        match cInt (s.ncpus * 2) with
        | none => .done (.error ⟨.fault, heap⟩)
        | some ncpus => .next ⟨ncpus, heap⟩

/-- `CPU_COUNT_S(setsize, mask)`. -/
def cpuCountS (setsize : Nat) : Nat := (kern.mask.filter (· < 8 * setsize)).card

/-- The loop stops when it has found as many CPUs as there are. -/
def scanBody (setsize : Nat) (s : ScanState) : Round ScanState Outcome :=
  if s.count = 0 then .done (.list s.list)
  else if s.cpu ≥ 8 * setsize then .done .fault
  else
    match cInt (s.cpu + 1) with
    | none => .done .fault
    | some next =>
      if s.cpu ∈ kern.mask then
        match kern.item s.list.length with
        | some e => .done (.raised e)
        | none => .next ⟨next, s.count - 1, s.list ++ [s.cpu]⟩
      else .next ⟨next, s.count, s.list⟩

def cpuAffinityGet (fuel : Nat) : Option Answer :=
  (loop kern.askBody fuel ⟨8 * kern.word, .empty⟩).bind fun asked =>
    match asked with
    | .error answer => some answer
    | .ok mask =>
      let heap := mask.heap.free mask.block
      match kern.newList with
      | some e => some ⟨.raised e, heap⟩
      | none => (loop (kern.scanBody mask.setsize) fuel ⟨0, kern.cpuCountS mask.setsize, []⟩).map (⟨·, heap⟩)

variable {kern}

/-! ## The scan -/

/-- The set bits, in increasing order. -/
structure Lists (kern : Kernel) (cpus : List Nat) : Prop where
  sorted : cpus.Pairwise (· < ·)
  mem : ∀ cpu, cpu ∈ cpus ↔ cpu ∈ kern.mask

/-- The bits below `cpu` are in the list, the others still to be counted. -/
structure Scanning (kern : Kernel) (s : ScanState) : Prop where
  list : s.list = (List.range s.cpu).filter (· ∈ kern.mask)
  count : s.count = (kern.mask.filter (s.cpu ≤ ·)).card

/-- What the scan gives. -/
inductive Scanned (kern : Kernel) : Outcome → Prop where
  | list {cpus : List Nat} (h : Lists kern cpus) : Scanned kern (.list cpus)
  | raised {k : Nat} {e : CErr} (h : kern.item k = some e) : Scanned kern (.raised e)

theorem card_filter_le (mask : Finset Nat) (cpu : Nat) :
    (mask.filter (cpu ≤ ·)).card = (mask.filter (cpu + 1 ≤ ·)).card + if cpu ∈ mask then 1 else 0 := by
  have hsplit : mask.filter (cpu ≤ ·) = mask.filter (cpu + 1 ≤ ·) ∪ mask.filter (· = cpu) := by
    rw [← Finset.filter_or]
    exact Finset.filter_congr fun n _ => by omega
  have hdisjoint : Disjoint (mask.filter (cpu + 1 ≤ ·)) (mask.filter (· = cpu)) :=
    Finset.disjoint_filter.2 fun n _ hle heq => by omega
  rw [hsplit, Finset.card_union_of_disjoint hdisjoint, Finset.filter_eq']
  split_ifs <;> simp

theorem scan_round {setsize : Nat} (hmask : ∀ cpu ∈ kern.mask, cpu < 8 * setsize) (hint : 8 * setsize ≤ intMax) {s : ScanState}
    (h : Scanning kern s) :
    (kern.scanBody setsize s).Meets (fun s' => Scanning kern s' ∧ 8 * setsize - s'.cpu < 8 * setsize - s.cpu) (Scanned kern) := by
  obtain ⟨hlist, hcount⟩ := h
  rw [scanBody]
  by_cases hzero : s.count = 0
  · -- all of them are found
    rw [if_pos hzero]
    rw [hzero, eq_comm, Finset.card_eq_zero, Finset.filter_eq_empty_iff] at hcount
    refine .list ⟨hlist ▸ List.pairwise_lt_range.filter _, fun cpu => ?_⟩
    rw [hlist, List.mem_filter, List.mem_range, decide_eq_true_iff]
    exact ⟨And.right, fun hcpu => ⟨Nat.lt_of_not_le (hcount hcpu), hcpu⟩⟩
  · -- one is missing, so there are bits left
    have hlt : s.cpu < 8 * setsize := by
      obtain ⟨cpu, hcpu⟩ := Finset.card_pos.1 (hcount ▸ Nat.pos_of_ne_zero hzero)
      obtain ⟨hmem, hle⟩ := Finset.mem_filter.1 hcpu
      exact Nat.lt_of_le_of_lt hle (hmask cpu hmem)
    have hnext : cInt (s.cpu + 1) = some (s.cpu + 1) := if_pos (by omega)
    have hstep := card_filter_le kern.mask s.cpu
    have hless : 8 * setsize - (s.cpu + 1) < 8 * setsize - s.cpu := by omega
    rw [if_neg hzero, if_neg (Nat.not_le.2 hlt), hnext]
    dsimp only
    by_cases hmem : s.cpu ∈ kern.mask
    · rw [if_pos hmem] at hstep ⊢
      cases hitem : kern.item s.list.length with
      | some e => exact .raised hitem
      | none =>
        refine ⟨⟨?_, by dsimp only; omega⟩, hless⟩
        simp only [List.range_succ, List.filter_append, hlist]
        simp [hmem]
    · rw [if_neg hmem] at hstep ⊢
      refine ⟨⟨?_, by dsimp only; omega⟩, hless⟩
      simp only [List.range_succ, List.filter_append, hlist]
      simp [hmem]

theorem scan_yields {setsize : Nat} (hmask : ∀ cpu ∈ kern.mask, cpu < 8 * setsize) (hint : 8 * setsize ≤ intMax) :
    ∃ o, Scanned kern o ∧ Yields (loop (kern.scanBody setsize) · ⟨0, kern.cpuCountS setsize, []⟩) o := by
  refine loop_yields (I := Scanning kern) (μ := fun s => 8 * setsize - s.cpu) (fun _ => scan_round hmask hint) ⟨rfl, ?_⟩
  rw [cpuCountS, Finset.filter_true_of_mem hmask, Finset.filter_true_of_mem fun cpu _ => Nat.zero_le cpu]

/-! ## The sizes -/

theorem word_pos (kern : Kernel) : 0 < kern.word := by
  have := kern.word_eq
  omega

theorem cpuAllocSize_eq (k : Nat) : kern.cpuAllocSize (8 * kern.word * 2 ^ k) = kern.word * 2 ^ k := by
  have hpos : 0 < 8 * kern.word := Nat.mul_pos (by decide) kern.word_pos
  rw [cpuAllocSize, Nat.add_sub_assoc hpos, Nat.mul_add_div hpos, Nat.div_eq_of_lt (by omega), Nat.add_zero, Nat.mul_comm]

/-- The sizes double, from one word on, and the `n`-th is the last. -/
structure Doubled (kern : Kernel) (requests : List Nat) (n : Nat) : Prop where
  requests : requests.reverse = (List.range (n + 1)).map (kern.word * 2 ^ ·)
  ncpus_le : 8 * kern.word * 2 ^ n ≤ intMax

/-- What the function returns when the `n`-th size was the last. -/
inductive Ends (kern : Kernel) (n : Nat) : Outcome → Prop where
  | list {cpus : List Nat} (hsize : kern.maskSize ≤ kern.word * 2 ^ n) (h : Lists kern cpus) : Ends kern n (.list cpus)
  | overflow (hsize : kern.word * 2 ^ n < kern.maskSize) (hmax : intMax < 8 * kern.word * 2 ^ n * 2) :
    Ends kern n (.raised (.exc .overflowError))
  | noMemory (h : kern.memory n = false) : Ends kern n (.raised .noMemory)
  | refused {errno : Errno} (h : kern.refuses n = some errno) : Ends kern n (.raised (.exc (.osError errno)))
  | failed {e : CErr} (h : kern.newList = some e ∨ ∃ k, kern.item k = some e) : Ends kern n (.raised e)

/-- What holds before the `k`-th size. -/
structure Asking (kern : Kernel) (s : AskState) (k : Nat) : Prop where
  ncpus : s.ncpus = 8 * kern.word * 2 ^ k
  ncpus_le : s.ncpus ≤ intMax
  requests : s.heap.requests.reverse = (List.range k).map (kern.word * 2 ^ ·)
  holds : s.heap.Holds none

/-- What the loop over the sizes gives: an answer, or a mask that is large enough. -/
inductive Asked (kern : Kernel) : Except Answer Mask → Prop where
  | answer {answer : Answer} {n : Nat} (hdoubled : Doubled kern answer.heap.requests n) (hends : Ends kern n answer.outcome)
      (hholds : answer.heap.Holds none) : Asked kern (.error answer)
  | mask {mask : Mask} {n : Nat} (hdoubled : Doubled kern mask.heap.requests n) (hsetsize : mask.setsize = kern.word * 2 ^ n)
      (hsize : kern.maskSize ≤ mask.setsize) (hholds : mask.heap.Holds mask.block) : Asked kern (.ok mask)

/-- The next size is asked for. -/
theorem Asking.doubled {s : AskState} {k : Nat} (h : Asking kern s k) :
    Doubled kern (s.heap.alloc (kern.word * 2 ^ k) (kern.memory k)).1.requests k where
  requests := by rw [Blocks.requests_alloc, List.reverse_cons, h.requests, List.range_succ, List.map_append, List.map_singleton]
  ncpus_le := h.ncpus ▸ h.ncpus_le

/-- Twice the number, while that is an `int`. -/
theorem Asking.next {s : AskState} {k : Nat} (h : Asking kern s k) {heap : Blocks} (hdoubled : Doubled kern heap.requests k)
    (hholds : heap.Holds none) (hmax : s.ncpus ≤ intMax / 2) : Asking kern ⟨s.ncpus * 2, heap⟩ (k + 1) where
  ncpus := by
    dsimp only
    rw [h.ncpus, pow_succ, mul_assoc]
  ncpus_le := by
    dsimp only
    omega
  requests := hdoubled.requests
  holds := hholds

theorem ask_round {s : AskState} {k : Nat} (h : Asking kern s k) :
    (kern.askBody s).Meets (fun s' => Asking kern s' (k + 1) ∧ s.ncpus < s'.ncpus) (Asked kern) := by
  have hpos : 0 < s.ncpus := h.ncpus ▸ Nat.mul_pos (Nat.mul_pos (by decide) kern.word_pos) (Nat.two_pow_pos k)
  have hk : s.heap.requests.length = k := by simpa using congrArg List.length h.requests
  have hsize : kern.cpuAllocSize s.ncpus = kern.word * 2 ^ k := by rw [h.ncpus, cpuAllocSize_eq]
  have halloc := h.holds.alloc (kern.word * 2 ^ k) (kern.memory k)
  have hdoubled := h.doubled
  have hblock : (s.heap.alloc (kern.word * 2 ^ k) (kern.memory k)).2 = none ↔ kern.memory k = false := by
    cases kern.memory k <;> simp [Blocks.alloc]
  rw [askBody, hsize, hk]
  generalize s.heap.alloc (kern.word * 2 ^ k) (kern.memory k) = mask at *
  have hfreed : Doubled kern (mask.1.free mask.2).requests k := by rwa [Blocks.requests_free]
  dsimp only
  by_cases hnone : mask.2 = none
  · rw [if_pos hnone]
    exact .answer hdoubled (.noMemory (hblock.1 hnone)) (hnone ▸ halloc)
  rw [if_neg hnone, schedGetaffinity]
  cases hrefuses : kern.refuses k with
  | some errno =>
    have hne : errno ≠ einval := by
      rintro rfl
      exact kern.refuses_ne k hrefuses
    dsimp only
    rw [if_pos hne]
    exact .answer hfreed (.refused hrefuses) halloc.free
  | none =>
    dsimp only
    by_cases hsmall : kern.word * 2 ^ k < kern.maskSize
    · rw [if_pos hsmall]
      dsimp only
      rw [if_neg (by simp)]
      by_cases hmax : s.ncpus > intMax / 2
      · rw [if_pos hmax]
        refine .answer hfreed (.overflow hsmall ?_) halloc.free
        rw [← h.ncpus]
        omega
      · have hint : cInt (s.ncpus * 2) = some (s.ncpus * 2) := if_pos (by omega)
        rw [if_neg hmax, hint]
        refine ⟨h.next hfreed halloc.free (Nat.not_lt.1 hmax), ?_⟩
        dsimp only
        omega
    · rw [if_neg hsmall]
      exact .mask hdoubled rfl (Nat.le_of_not_lt hsmall) halloc

theorem ask_yields (kern : Kernel) : ∃ asked, Asked kern asked ∧ Yields (loop kern.askBody · ⟨8 * kern.word, .empty⟩) asked := by
  have hword := kern.word_eq
  refine loop_yields (I := fun s => ∃ k, Asking kern s k) (μ := fun s => intMax - s.ncpus) ?_
    ⟨0, by simp, by dsimp only; rw [intMax]; omega, rfl, .empty⟩
  rintro s ⟨k, hs⟩
  refine (ask_round hs).imp (fun s' hs' => ⟨⟨k + 1, hs'.1⟩, ?_⟩) fun _ => id
  have := hs'.1.ncpus_le
  have := hs'.2
  omega

theorem cpuAffinityGet_yields (kern : Kernel) : ∃ answer n, Yields kern.cpuAffinityGet answer ∧ Doubled kern answer.heap.requests n ∧
    Ends kern n answer.outcome ∧ answer.heap.Holds none := by
  obtain ⟨asked, hasked, hyields⟩ := ask_yields kern
  cases hasked with
  | answer hdoubled hends hholds => exact ⟨_, _, hyields.bind (.pure _), hdoubled, hends, hholds⟩
  | @mask mask n hdoubled hsetsize hsize hholds =>
    have hfreed : Doubled kern (mask.heap.free mask.block).requests n := by rwa [Blocks.requests_free]
    cases hlist : kern.newList with
    | some e =>
      refine ⟨⟨.raised e, mask.heap.free mask.block⟩, n, hyields.bind ?_, hfreed, .failed (Or.inl hlist), hholds.free⟩
      simp only [hlist]
      exact .pure _
    | none =>
      have hmask : ∀ cpu ∈ kern.mask, cpu < 8 * mask.setsize := fun cpu hcpu =>
        Nat.lt_of_lt_of_le (kern.mask_lt cpu hcpu) (Nat.mul_le_mul_left 8 hsize)
      have hint : 8 * mask.setsize ≤ intMax := by rw [hsetsize, ← mul_assoc]; exact hdoubled.ncpus_le
      obtain ⟨o, ho, hscan⟩ := scan_yields hmask hint
      refine ⟨⟨o, mask.heap.free mask.block⟩, n, hyields.bind ?_, hfreed, ?_, hholds.free⟩
      · simp only [hlist]
        exact hscan.map (Answer.mk · (mask.heap.free mask.block))
      · cases ho with
        | list h => exact .list (hsetsize ▸ hsize) h
        | raised h => exact .failed (Or.inr ⟨_, h⟩)

/-- An exception of one of the calls. -/
def Refused (kern : Kernel) (n : Nat) (e : CErr) : Prop :=
  (kern.memory n = false ∧ e = .noMemory) ∨ (∃ errno, kern.refuses n = some errno ∧ e = .exc (.osError errno)) ∨
    kern.newList = some e ∨ ∃ k, kern.item k = some e

/-- **The query is complete**: without a fault it ends with the set bits in order, or with an `OverflowError` when an `int`
could not count the bits of a larger mask, or with the exception of one of its calls. The masks it asks for double. -/
theorem cpuAffinityGet_spec (kern : Kernel) : ∃ answer n, Yields kern.cpuAffinityGet answer ∧ answer.outcome ≠ .fault ∧
    answer.heap.requests.reverse = (List.range (n + 1)).map (kern.word * 2 ^ ·) ∧ 8 * kern.word * 2 ^ n ≤ intMax ∧
    ((kern.maskSize ≤ kern.word * 2 ^ n ∧ ∃ cpus, answer.outcome = .list cpus ∧ cpus.Pairwise (· < ·) ∧
        ∀ cpu, cpu ∈ cpus ↔ cpu ∈ kern.mask) ∨
      (kern.word * 2 ^ n < kern.maskSize ∧ intMax < 8 * kern.word * 2 ^ n * 2 ∧ answer.outcome = .raised (.exc .overflowError)) ∨
      ∃ e, answer.outcome = .raised e ∧ Refused kern n e) := by
  obtain ⟨answer, n, hyields, ⟨hrequests, hle⟩, hends, -⟩ := cpuAffinityGet_yields kern
  refine ⟨answer, n, hyields, ?_, hrequests, hle, ?_⟩
  · intro hfault
    rw [hfault] at hends
    cases hends
  · generalize answer.outcome = o at hends ⊢
    cases hends with
    | list hsize h => exact Or.inl ⟨hsize, _, rfl, h.sorted, h.mem⟩
    | overflow hsize hmax => exact Or.inr (Or.inl ⟨hsize, hmax, rfl⟩)
    | noMemory h => exact Or.inr (Or.inr ⟨_, rfl, Or.inl ⟨h, rfl⟩⟩)
    | refused h => exact Or.inr (Or.inr ⟨_, rfl, Or.inr (Or.inl ⟨_, h, rfl⟩)⟩)
    | failed h => exact Or.inr (Or.inr ⟨_, rfl, Or.inr (Or.inr h)⟩)

/-! ## The masks of a host -/

/-- The masks of a 64-bit host, with memory. -/
def ofHost (h : CpuHost) (affinity : Finset Nat) (hlt : ∀ cpu ∈ affinity, cpu < h.nrCpuIds) : Kernel where
  word := 8
  word_eq := Or.inr rfl
  maskSize := (h.nrCpuIds + 7) / 8
  mask := affinity
  mask_lt cpu hcpu := by
    have := hlt cpu hcpu
    omega
  refuses _ := none
  refuses_ne _ := nofun
  memory _ := true
  newList := none
  item _ := none

theorem ofHost_ends {h : CpuHost} {affinity : Finset Nat} (hlt : ∀ cpu ∈ affinity, cpu < h.nrCpuIds) {requests : List Nat} {n : Nat}
    (hdoubled : Doubled (ofHost h affinity hlt) requests n) {o : Outcome} (ho : Ends (ofHost h affinity hlt) n o) :
    (h.nrCpuIds ≤ 1073741824 → ∃ cpus, o = .list cpus ∧ Lists (ofHost h affinity hlt) cpus) ∧
      (1073741824 < h.nrCpuIds → o = .raised (.exc .overflowError)) := by
  have hle : 8 * 8 * 2 ^ n ≤ intMax := hdoubled.ncpus_le
  rw [intMax] at hle
  cases ho with
  | list hsize hlists =>
    have hsize : (h.nrCpuIds + 7) / 8 ≤ 8 * 2 ^ n := hsize
    have hn : n < 25 := (Nat.pow_lt_pow_iff_right (show 1 < 2 by decide)).1 (show 2 ^ n < 2 ^ 25 by omega)
    have hpow : 2 ^ n ≤ 2 ^ 24 := Nat.pow_le_pow_right (by decide) (by omega)
    exact ⟨fun _ => ⟨_, rfl, hlists⟩, fun hbig => by omega⟩
  | overflow hsize hmax =>
    have hsize : 8 * 2 ^ n < (h.nrCpuIds + 7) / 8 := hsize
    have hmax : intMax < 8 * 8 * 2 ^ n * 2 := hmax
    rw [intMax] at hmax
    exact ⟨fun _ => by omega, fun _ => rfl⟩
  | noMemory h | refused h => cases h
  | failed h => rcases h with h | ⟨_, h⟩ <;> cases h

/-- **The two models agree.** -/
theorem cpuAffinityGet_ofHost {h : CpuHost} (hfound : (h.world.holder h.proc.pid).isSome) {affinity : Finset Nat}
    (hlt : ∀ cpu ∈ affinity, cpu < h.nrCpuIds) : ∃ answer, Yields (ofHost h affinity hlt).cpuAffinityGet answer ∧
      match h.procCpuAffinityGet affinity with
      | .ok cpus => answer.outcome = .list (cpus.map Int.toNat)
      | .error e => answer.outcome = .raised (.exc e) := by
  obtain ⟨answer, n, hyields, hdoubled, hends, -⟩ := cpuAffinityGet_yields (ofHost h affinity hlt)
  obtain ⟨hsmall, hbig⟩ := ofHost_ends hlt hdoubled hends
  obtain ⟨hok, herr⟩ := h.askMask_spec hfound affinity (show 64 * 2 ^ 24 = 1073741824 by decide)
  refine ⟨answer, hyields, ?_⟩
  rcases Nat.lt_or_ge 1073741824 h.nrCpuIds with hgt | hle
  · have hraised : h.procCpuAffinityGet affinity = .error .overflowError := by
      rw [CpuHost.procCpuAffinityGet, herr hgt]
      rfl
    rw [hraised]
    exact hbig hgt
  · obtain ⟨m, hm, hask⟩ := hok hle
    have hlisted : h.procCpuAffinityGet affinity = .ok ((rangeInt m).filter fun cpu => cpu.toNat ∈ affinity) := by
      rw [CpuHost.procCpuAffinityGet, hask]
      rfl
    obtain ⟨cpus, hcpus, hsorted, hmem⟩ := hsmall hle
    have hnat : ((rangeInt m).filter fun cpu => cpu.toNat ∈ affinity).map Int.toNat = (List.range m).filter (· ∈ affinity) := by
      rw [rangeInt, List.filter_map, List.map_map]
      exact List.map_id _
    rw [hlisted]
    dsimp only
    rw [hcpus, hnat]
    refine congrArg _ (hsorted.eq_of_mem_iff (List.pairwise_lt_range.filter _) fun cpu => ?_)
    rw [hmem, List.mem_filter, List.mem_range, decide_eq_true_iff]
    exact ⟨fun hcpu => ⟨Nat.lt_of_lt_of_le (hlt cpu hcpu) hm, hcpu⟩, And.right⟩

end Kernel

end Psutil.Affinity
