import Psutil.Common.C
import Psutil.Lib.Loop
import Psutil.Lib.Space

/-!
# The USS of a process on macOS

| here | there |
| --- | --- |
| `inSharedRegion` | `psutil_in_shared_region` (`arch/osx/proc.c:242`) |
| `addPages`, `walkBody`, `procMemoryUss` | `psutil_proc_memory_uss` (`:325`) |

The constants of the system headers are those of the SDK, but for the shared regions, which differ between its versions.
`walk_yields`: the walk ends, whatever the kernel answers, and every address it asks for is above the one before.
`procMemoryUss_spec`: on the regions of an address space it adds up all of them.
-/

namespace Psutil.Osx

open Lib

/-- `struct proc_regioninfo`. -/
structure RegionInfo where
  priAddress : UInt64
  priSize : UInt64
  priShareMode : UInt32
  priRefCount : UInt32
  priPrivatePagesResident : UInt32
  priSharedPagesResident : UInt32

def RegionInfo.extent (ri : RegionInfo) : Extent := ⟨ri.priAddress, ri.priSize⟩

/-- An answer of `proc_pidinfo`. -/
structure PidInfo where
  ret : Int
  ri : RegionInfo
  /-- What `psutil_raise_for_pid` finds, if it is called after it. -/
  after : PidState

def smCow : UInt32 := 1
def smPrivate : UInt32 := 2
def smLargePage : UInt32 := 8

def cpuTypeI386 : Int := 7
def cpuTypeArm : Int := 12
def cpuTypeX86_64 : Int := 16777223

structure UssSystem where
  /-- `sysctl.proc_cputype`. -/
  cpuType : Except CErr Int
  pagesize : UInt64
  /-- `sizeof(struct proc_regioninfo)`. -/
  sizeofRi : Int
  sizeofRi_pos : 0 < sizeofRi
  /-- The base and the size of the shared region. -/
  sharedArm : UInt64 × UInt64
  sharedI386 : UInt64 × UInt64
  sharedX86_64 : UInt64 × UInt64
  /-- `#ifdef SM_LARGE_PAGE`. -/
  hasLargePage : Bool
  /-- The `k`-th answer, to a question for an address. -/
  procPidinfo : Nat → UInt64 → PidInfo

namespace UssSystem

variable (sys : UssSystem)

def inSharedRegion (addr : UInt64) (type : Int) : Bool :=
  let inside (region : UInt64 × UInt64) : Bool := region.1 ≤ addr && addr < region.1 + region.2
  if type = cpuTypeArm then inside sys.sharedArm
  else if type = cpuTypeI386 then inside sys.sharedI386
  else if type = cpuTypeX86_64 then inside sys.sharedX86_64
  else false

/-- `private_pages` after a region. -/
def addPages (type : Int) (privatePages : UInt64) (ri : RegionInfo) : UInt64 :=
  if sys.inSharedRegion ri.priAddress type && ri.priShareMode ≠ smPrivate then privatePages
  else if (sys.hasLargePage && ri.priShareMode = smLargePage) || ri.priShareMode = smPrivate then
    privatePages + ri.priPrivatePagesResident.toUInt64 + ri.priSharedPagesResident.toUInt64
  else if ri.priShareMode = smCow then
    let privatePages := privatePages + ri.priPrivatePagesResident.toUInt64
    -- copy-on-write pages with one reference are private
    if ri.priRefCount = 1 then privatePages + ri.priSharedPagesResident.toUInt64 else privatePages
  else privatePages

structure WalkState where
  addr : UInt64
  privatePages : UInt64
  /-- The bits of an `int`. -/
  nregions : BitVec 32
  /-- The addresses asked for, the newest first. -/
  queried : List UInt64

structure WalkResult where
  /-- `errmsg`, and what there is to say about it. -/
  err : Option (String × PidState)
  privatePages : UInt64
  queried : List UInt64

def walkBody (type : Int) (s : WalkState) : Round WalkState WalkResult :=
  let answer := sys.procPidinfo s.queried.length s.addr
  let queried := s.addr :: s.queried
  if answer.ret ≤ 0 then
    -- on the first region the process is gone; later it is the end
    let err := if s.nregions = 0 then some ("proc_pidinfo(PROC_PIDREGIONINFO)", answer.after) else none
    .done ⟨err, s.privatePages, queried⟩
  else if answer.ret ≠ sys.sizeofRi then
    .done ⟨some ("proc_pidinfo(PROC_PIDREGIONINFO) truncated", answer.after), s.privatePages, queried⟩
  else
    let nregions := s.nregions + 1
    let privatePages := sys.addPages type s.privatePages answer.ri
    let nextAddr := answer.ri.priAddress + answer.ri.priSize
    if answer.ri.priSize = 0 ∨ nextAddr ≤ s.addr then .done ⟨none, privatePages, queried⟩
    else .next ⟨nextAddr, privatePages, nregions, queried⟩

def walk (type : Int) (fuel : Nat) : Option WalkResult := loop (sys.walkBody type) fuel ⟨0, 0, 0, []⟩

/-- What is returned after the walk. -/
def afterWalk (r : WalkResult) : Except CErr UInt64 :=
  match r.err with
  | some (errmsg, after) => .error (psutilRaiseForPid after errmsg)
  | none => .ok (r.privatePages * sys.pagesize)

def procMemoryUss (fuel : Nat) : Option (Except CErr UInt64) :=
  match sys.cpuType with
  | .error e => some (.error e)
  | .ok type => (sys.walk type fuel).map sys.afterWalk

/-! ## Any answers -/

variable {sys}

/-- **The walk ends**, whatever the answers are, and asks for higher and higher addresses. -/
theorem walk_yields (type : Int) : ∃ r, r.queried.reverse.Pairwise (· < ·) ∧ Yields (sys.walk type) r := by
  refine loop_yields (I := fun s => s.queried.Pairwise (· > ·) ∧ ∀ a ∈ s.queried, a < s.addr)
    (μ := fun s => UInt64.size - s.addr.toNat) ?_ ⟨.nil, by simp⟩
  rintro s ⟨hsorted, hbelow⟩
  have hqueried : (s.addr :: s.queried).Pairwise (· > ·) := List.pairwise_cons.2 ⟨hbelow, hsorted⟩
  have hdone : (s.addr :: s.queried).reverse.Pairwise (· < ·) := List.pairwise_reverse.2 hqueried
  simp only [walkBody]
  generalize sys.procPidinfo s.queried.length s.addr = answer
  split_ifs with hret hfirst hsize hstop
  · exact hdone
  · exact hdone
  · exact hdone
  · exact hdone
  · have hlt : s.addr < answer.ri.priAddress + answer.ri.priSize := UInt64.not_le.1 (not_or.1 hstop).2
    refine ⟨⟨hqueried, fun a ha => ?_⟩, ?_⟩
    · rcases List.mem_cons.1 ha with rfl | ha
      · exact hlt
      · exact UInt64.lt_trans (hbelow a ha) hlt
    · have := UInt64.lt_iff_toNat_lt.1 hlt
      have := (answer.ri.priAddress + answer.ri.priSize).toNat_lt_size
      dsimp only
      omega

/-! ## The regions of an address space -/

/-- What the share modes make of a region. -/
def pages (sys : UssSystem) (type : Int) (ri : RegionInfo) : Nat :=
  if sys.inSharedRegion ri.priAddress type = true ∧ ri.priShareMode ≠ smPrivate then 0
  else if (sys.hasLargePage = true ∧ ri.priShareMode = smLargePage) ∨ ri.priShareMode = smPrivate then
    ri.priPrivatePagesResident.toNat + ri.priSharedPagesResident.toNat
  else if ri.priShareMode = smCow then
    ri.priPrivatePagesResident.toNat + (if ri.priRefCount = 1 then ri.priSharedPagesResident.toNat else 0)
  else 0

theorem addPages_eq (type : Int) (privatePages : UInt64) (ri : RegionInfo) :
    sys.addPages type privatePages ri = privatePages + UInt64.ofNat (sys.pages type ri) := by
  simp only [addPages, pages]
  split_ifs <;> simp_all [UInt64.add_assoc]

/-- The answers are the regions, one after the other, and that there are no more unless the last one ends where the
addresses do. -/
structure Serves (sys : UssSystem) (regions : List RegionInfo) : Prop where
  ret : ∀ k ri, regions[k]? = some ri → (sys.procPidinfo k (nextAddr RegionInfo.extent regions k)).ret = sys.sizeofRi
  ri : ∀ k ri, regions[k]? = some ri → (sys.procPidinfo k (nextAddr RegionInfo.extent regions k)).ri = ri
  stop : (∀ ri ∈ regions, ri.extent.end_ < UInt64.size) → (sys.procPidinfo regions.length (nextAddr RegionInfo.extent regions regions.length)).ret ≤ 0

/-- The walk after `k` regions. -/
structure Walked (sys : UssSystem) (type : Int) (regions : List RegionInfo) (s : WalkState) (k : Nat) : Prop where
  le : k ≤ regions.length
  addr : s.addr = nextAddr RegionInfo.extent regions k
  end_lt : ∀ ri ∈ regions.take k, ri.extent.end_ < UInt64.size
  privatePages : s.privatePages = UInt64.ofNat ((regions.take k).map (sys.pages type)).sum
  nregions : s.nregions = BitVec.ofNat 32 k
  queried : s.queried.length = k

/-- All regions are counted. -/
structure WalkedAll (sys : UssSystem) (type : Int) (regions : List RegionInfo) (r : WalkResult) : Prop where
  err : r.err = none
  privatePages : r.privatePages = UInt64.ofNat (regions.map (sys.pages type)).sum

theorem walk_round {type : Int} {regions : List RegionInfo} (hspace : IsSpace RegionInfo.extent regions) (hserves : Serves sys regions)
    (hcount : regions.length % 4294967296 ≠ 0) {s : WalkState} {k : Nat} (hs : Walked sys type regions s k) :
    (sys.walkBody type s).Meets (fun s' => Walked sys type regions s' (k + 1)) (WalkedAll sys type regions) := by
  obtain ⟨hle, haddr, hends, hpages, hnregions, hqueried⟩ := hs
  rcases Nat.lt_or_eq_of_le hle with hlt | rfl
  · -- a region
    have hget : regions[k]? = some regions[k] := List.getElem?_eq_getElem hlt
    have hmem : regions[k] ∈ regions := List.getElem_mem hlt
    have hpos := sys.sizeofRi_pos
    have hsum : sys.addPages type s.privatePages regions[k] = UInt64.ofNat ((regions.take (k + 1)).map (sys.pages type)).sum := by
      rw [addPages_eq, hpages, ← UInt64.ofNat_add, List.take_add_one, hget, List.map_append, List.sum_append]
      rfl
    have hnextAddr : regions[k].priAddress + regions[k].priSize = nextAddr RegionInfo.extent regions (k + 1) := by
      simp only [nextAddr, hget, RegionInfo.extent]
    simp only [walkBody, hqueried, haddr, hserves.ret k _ hget, hserves.ri k _ hget, hnextAddr]
    rw [if_neg (by omega), if_neg (by simp)]
    rcases Nat.lt_or_eq_of_le (hspace.end_le _ hmem) with hend | hend
    · have hstart := (hspace.nextAddr_spec hle hends).2 _ hget
      have hup := hspace.lt_end hmem
      rw [if_neg]
      · refine ⟨hlt, rfl, fun ri hri => ?_, hsum, ?_, by simp [hqueried]⟩
        · rw [List.take_add_one, hget, List.mem_append, Option.toList_some, List.mem_singleton] at hri
          rcases hri with hri | rfl
          · exact hends ri hri
          · exact hend
        · rw [hnregions]
          exact (BitVec.ofNat_add k 1).symm
      · rw [not_or, UInt64.not_le, UInt64.lt_iff_toNat_lt, toNat_nextAddr hlt, Nat.mod_eq_of_lt hend]
        exact ⟨hspace.nonempty _ hmem, by omega⟩
    · -- the sum wraps to zero
      rw [if_pos (Or.inr (by rw [nextAddr_eq_zero hlt hend]; exact UInt64.zero_le))]
      exact ⟨rfl, by rw [hsum, hspace.last hlt hend, List.take_length]⟩
  · -- no more regions
    rw [List.take_length] at hends hpages
    have hret := hserves.stop hends
    simp only [walkBody, hqueried, haddr]
    rw [if_pos hret, if_neg]
    · exact ⟨rfl, hpages⟩
    · intro hzero
      rw [hnregions] at hzero
      exact hcount (by simpa using congrArg BitVec.toNat hzero)

theorem walk_regions {type : Int} {regions : List RegionInfo} (hspace : IsSpace RegionInfo.extent regions) (hserves : Serves sys regions)
    (hcount : regions.length % 4294967296 ≠ 0) : ∃ r, WalkedAll sys type regions r ∧ Yields (sys.walk type) r := by
  refine loop_yields (I := fun s => ∃ k, Walked sys type regions s k) (μ := fun s => regions.length - s.queried.length) ?_
    ⟨0, Nat.zero_le _, rfl, by simp, rfl, rfl, rfl⟩
  rintro s ⟨k, hs⟩
  refine (walk_round hspace hserves hcount hs).imp (fun s' hs' => ⟨⟨k + 1, hs'⟩, ?_⟩) fun _ => id
  have hle := hs'.le
  rw [hs.queried, hs'.queried]
  omega

/-- **The sum over all regions**, in 64 bits, unless the counter of the regions has come back to zero. -/
theorem procMemoryUss_regions {type : Int} (htype : sys.cpuType = .ok type) {regions : List RegionInfo} (hspace : IsSpace RegionInfo.extent regions)
    (hserves : Serves sys regions) (hcount : regions.length % 4294967296 ≠ 0) :
    Yields sys.procMemoryUss (.ok (UInt64.ofNat (sys.pagesize.toNat * (regions.map (sys.pages type)).sum))) := by
  have hwalk : ∃ r, WalkedAll sys type regions r ∧ Yields (sys.walk type) r := walk_regions hspace hserves hcount
  obtain ⟨r, ⟨herr, hpages⟩, hyields⟩ := hwalk
  have hvalue : sys.afterWalk r = .ok (UInt64.ofNat (sys.pagesize.toNat * (regions.map (sys.pages type)).sum)) := by
    rw [afterWalk, herr, hpages, Nat.mul_comm, UInt64.ofNat_mul, UInt64.ofNat_toNat]
  have hmap := hyields.map sys.afterWalk
  rw [hvalue] at hmap
  have heq : sys.procMemoryUss = fun fuel => (sys.walk type fuel).map sys.afterWalk := by
    funext fuel
    rw [procMemoryUss, htype]
  rw [heq]
  exact hmap

/-! ## The kernel -/

/-- The kernel answers with the first region that ends above the address. -/
structure Kernel (sys : UssSystem) (regions : List RegionInfo) : Prop where
  found : ∀ k (addr : UInt64) ri, regions.find? (fun ri => addr.toNat < ri.extent.end_) = some ri →
    (sys.procPidinfo k addr).ret = sys.sizeofRi ∧ (sys.procPidinfo k addr).ri = ri
  not_found : ∀ k (addr : UInt64), regions.find? (fun ri => addr.toNat < ri.extent.end_) = none → (sys.procPidinfo k addr).ret ≤ 0

/-- So the regions are the answers. -/
theorem Kernel.serves {regions : List RegionInfo} (h : Kernel sys regions) (hspace : IsSpace RegionInfo.extent regions) :
    Serves sys regions := by
  have hfind : ∀ k ri, regions[k]? = some ri →
      regions.find? (fun ri => (nextAddr RegionInfo.extent regions k).toNat < ri.extent.end_) = some ri := by
    intro k ri hget
    obtain ⟨hk, rfl⟩ := List.getElem?_eq_some_iff.1 hget
    exact hspace.find?_nextAddr hk
  exact ⟨fun k ri hget => (h.found k _ ri (hfind k ri hget)).1, fun k ri hget => (h.found k _ ri (hfind k ri hget)).2,
    fun hends => h.not_found _ _ (hspace.find?_nextAddr_length hends)⟩

/-- **The walk ends** and asks for higher and higher addresses, whatever the kernel answers; on the regions of an address
space it gives the sum over all of them, in 64 bits. -/
theorem procMemoryUss_spec (sys : UssSystem) :
    (∀ type, ∃ r, r.queried.reverse.Pairwise (· < ·) ∧ Yields (sys.walk type) r) ∧
    ∀ type, sys.cpuType = .ok type → ∀ regions, IsSpace RegionInfo.extent regions → Serves sys regions → regions.length % 4294967296 ≠ 0 →
      Yields sys.procMemoryUss (.ok (UInt64.ofNat (sys.pagesize.toNat * (regions.map (sys.pages type)).sum))) :=
  ⟨walk_yields, fun _ htype _ => procMemoryUss_regions htype⟩

end UssSystem

/-- A process with these regions, on a 64-bit system. -/
def spaceSystem (regions : List RegionInfo) : UssSystem where
  cpuType := .ok cpuTypeX86_64
  pagesize := 4096
  sizeofRi := 96
  sizeofRi_pos := by decide
  sharedArm := (0x40000000, 0x40000000)
  sharedI386 := (0x90000000, 0x20000000)
  sharedX86_64 := (0x7fff00000000, 0xffe00000)
  hasLargePage := true
  procPidinfo _ addr :=
    match regions.find? fun ri => addr.toNat < ri.extent.end_ with
    | some ri => ⟨96, ri, ⟨none, true, false⟩⟩
    | none => ⟨0, ⟨0, 0, 0, 0, 0, 0⟩, ⟨some (.other 22), true, false⟩⟩

theorem kernel_spaceSystem (regions : List RegionInfo) : (spaceSystem regions).Kernel regions where
  found k addr ri h := by simp [spaceSystem, h]
  not_found k addr h := by simp [spaceSystem, h]

/-- Private memory, a shared library, copy-on-write memory with one reference, and private memory up to the last address. -/
def someRegions : List RegionInfo :=
  [⟨4096, 8192, smPrivate, 1, 2, 0⟩, ⟨0x7fff00001000, 4096, 4, 9, 1, 1⟩, ⟨0x7fff80000000, 4096, smCow, 1, 0, 1⟩,
    ⟨0xfffffffffffff000, 4096, smPrivate, 1, 1, 0⟩]

theorem isSpace_someRegions : IsSpace RegionInfo.extent someRegions := ⟨by decide, by decide, by decide⟩

theorem procMemoryUss_someRegions : Yields (spaceSystem someRegions).procMemoryUss (.ok 12288) :=
  (UssSystem.procMemoryUss_spec (spaceSystem someRegions)).2 _ rfl someRegions isSpace_someRegions
    ((kernel_spaceSystem someRegions).serves isSpace_someRegions) (by decide)

/-- Without any region the call raises. -/
theorem not_procMemoryUss_nil : ¬∀ (sys : UssSystem) (type : Int), sys.cpuType = .ok type → ∀ regions, IsSpace RegionInfo.extent regions →
    sys.Serves regions →
    Yields sys.procMemoryUss (.ok (UInt64.ofNat (sys.pagesize.toNat * (regions.map (sys.pages type)).sum))) := by
  intro h
  have hspace : IsSpace RegionInfo.extent [] := ⟨by simp, by simp, .nil⟩
  obtain ⟨enough, hok⟩ := h (spaceSystem []) _ rfl [] hspace ((kernel_spaceSystem []).serves hspace)
  have heval : (spaceSystem []).procMemoryUss (enough + 1) = some (.error (.exc (.osError (.other 22)))) := rfl
  have hval := heval.symm.trans (hok (enough + 1) (by omega))
  cases Option.some.inj hval

end Psutil.Osx
