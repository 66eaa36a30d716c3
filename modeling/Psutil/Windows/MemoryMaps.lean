import Psutil.Common.C
import Psutil.Lib.Fold
import Psutil.Lib.Loop
import Psutil.Lib.Space
import Psutil.Proc.MemoryMaps
import Psutil.Windows.Wait

/-!
# `Process.memory_maps()` on Windows

| here | there |
| --- | --- |
| `getRegionProtectionString` | `get_region_protection_string` (`arch/windows/proc.c:1027`) |
| `mapsBody`, `procMemoryMaps` | `psutil_proc_memory_maps` (`:1052`) |
| `convertDosPath` | `convert_dos_path` (`_pswindows.py:93`) |
| `platMemoryMaps` | `Process.memory_maps` (`_pswindows.py:806`) |
| `memoryMaps` | `Process.memory_maps(grouped=True)` (`__init__.py:1446`) |

A text stands for its bytes in an encoding that keeps ASCII. `reports_iff`: the sizes are the true ones exactly when those
of the mapped regions are below 4 GiB and the walk does not come back to the first address.
-/

namespace Psutil.WinMaps

open Lib Bytes

/-- What `VirtualQueryEx` puts into a `MEMORY_BASIC_INFORMATION`. -/
structure BasicInfo where
  regionSize : UInt64
  protect : UInt32

/-- An item of the list of `proc_memory_maps`. -/
structure RawMap where
  addr : Nat
  perm : Bytes
  path : Bytes
  rss : Nat
  deriving DecidableEq

structure MapsSystem where
  proc : Process
  /-- `psutil_handle_from_pid`. -/
  handle : Except CErr Unit
  /-- Whether `malloc` has a block. -/
  malloc : Bool
  /-- `lpMaximumApplicationAddress`. -/
  maxAddr : UInt64
  virtualQueryEx : UInt64 → Option BasicInfo
  getMappedFileNameW : UInt64 → Option Bytes
  /-- The exception that keeps the `k`-th item from being built. -/
  item : Nat → Option CErr
  queryDosDevice : Bytes → Except Exc Bytes
  /-- `os.path.join`. -/
  join : Bytes → Bytes → Bytes

def getRegionProtectionString (protection : UInt32) : Bytes :=
  match protection.toNat % 256 with
  | 0x01 => []
  | 0x02 => ascii "r"
  | 0x04 => ascii "rw"
  | 0x08 => ascii "wc"
  | 0x10 => ascii "x"
  | 0x20 => ascii "xr"
  | 0x40 => ascii "xrw"
  | 0x80 => ascii "xwc"
  | _ => ascii "?"

/-- What the format unit `I`, an `unsigned int`, makes of a `SIZE_T`. -/
def formatI (n : UInt64) : Nat := n.toNat % 4294967296

structure MapsState where
  baseAddress : UInt64
  retlist : List RawMap
  /-- The regions that were looked at. -/
  visited : List UInt64

namespace MapsSystem

variable (sys : MapsSystem)

def mapsBody (s : MapsState) : Round MapsState (Except CErr MapsState) :=
  match sys.virtualQueryEx s.baseAddress with
  | none => .done (.ok s)
  | some info =>
    if s.baseAddress > sys.maxAddr then .done (.ok s)
    else
      let baseAddress := s.baseAddress + info.regionSize
      let visited := s.visited ++ [s.baseAddress]
      match sys.getMappedFileNameW s.baseAddress with
      | none => .next ⟨baseAddress, s.retlist, visited⟩
      | some name =>
        match sys.item s.retlist.length with
        | some e => .done (.error e)
        | none =>
          let item := ⟨s.baseAddress.toNat, getRegionProtectionString info.protect, name, formatI info.regionSize⟩
          .next ⟨baseAddress, s.retlist ++ [item], visited⟩

def walk (fuel : Nat) : Option (Except CErr MapsState) := loop sys.mapsBody fuel ⟨0, [], []⟩

def procMemoryMaps (fuel : Nat) : Option (Except CErr (List RawMap)) :=
  match sys.handle with
  | .error e => some (.error e)
  | .ok () =>
    if sys.malloc = false then some (.error .noMemory)
    else (sys.walk fuel).map (·.map MapsState.retlist)

/-! ## The Python side -/

/-- `'\\'.join(parts)`. -/
def joinParts (parts : List Bytes) : Bytes := [92].intercalate parts

def convertDosPath (s : Bytes) : Except Exc Bytes :=
  if startsWith s [92, 92] then .ok s
  else
    let parts := s.splitOn 92
    let rawdrive := joinParts (parts.take 3)
    if rawdrive = ascii "\\??\\UNC" || rawdrive = ascii "\\Device\\Mup" then
      let rawdrive := joinParts (parts.take 5)
      let driveletter := [92, 92] ++ joinParts ((parts.take 5).drop 3)
      .ok (sys.join driveletter (s.drop rawdrive.length))
    else do
      let driveletter ← if startsWith rawdrive (ascii "\\??\\") then Bytes.getItem parts 2 else sys.queryDosDevice rawdrive
      return sys.join driveletter (s.drop rawdrive.length)

/-- `hex(addr)`. -/
def hexAddr (addr : Nat) : Bytes := ascii "0x" ++ (Nat.toDigits 16 addr).map byte

/-- One tuple of the generator. -/
def convertMap (raw : RawMap) : Except CErr Region :=
  match sys.convertDosPath raw.path with
  | .error e => .error (.exc e)
  | .ok path => .ok ⟨hexAddr raw.addr, raw.perm, path, [(raw.rss : Int)]⟩

/-- The generator, run to its end. -/
def convertMaps : Except CErr (List RawMap) → Except CErr (List Region)
  | .error (.exc e) => .error (.exc (WinWait.convertOserror sys.proc e))
  | .error e => .error e
  | .ok raw => raw.mapM sys.convertMap

def platMemoryMaps (fuel : Nat) : Option (Except CErr (List Region)) := (sys.procMemoryMaps fuel).map sys.convertMaps

def memoryMaps (fuel : Nat) : Option (Except CErr (List (Bytes × List Int))) :=
  (sys.platMemoryMaps fuel).map (·.map groupMaps)

end MapsSystem

/-! ## The regions of an address space -/

structure VmRegion where
  extent : Extent
  protect : UInt32
  file : Option Bytes

def VmRegion.info (r : VmRegion) : BasicInfo := ⟨r.extent.size, r.protect⟩

/-- The item of a region that is mapped, with its size as `size` gives it. -/
def VmRegion.item? (size : UInt64 → Nat) (r : VmRegion) : Option RawMap :=
  r.file.map fun file => ⟨r.extent.base.toNat, getRegionProtectionString r.protect, file, size r.extent.size⟩

/-- Regions that begin at the first address and leave no gap. -/
structure Consecutive (regions : List VmRegion) : Prop where
  space : IsSpace VmRegion.extent regions
  bases : regions.map (·.extent.base) = (List.range regions.length).map (nextAddr VmRegion.extent regions)

theorem Consecutive.base {regions : List VmRegion} (h : Consecutive regions) {k : Nat} (hk : k < regions.length) :
    regions[k].extent.base = nextAddr VmRegion.extent regions k := by
  have hget := congrArg (·[k]?) h.bases
  simpa [hk] using hget

namespace MapsSystem

/-- The calls answer with the regions, and that there are no more. -/
structure Describes (sys : MapsSystem) (regions : List VmRegion) : Prop where
  consecutive : Consecutive regions
  query : ∀ r ∈ regions, sys.virtualQueryEx r.extent.base = some r.info
  file : ∀ r ∈ regions, sys.getMappedFileNameW r.extent.base = r.file
  stop : (∀ r ∈ regions, r.extent.end_ < UInt64.size) → sys.virtualQueryEx (nextAddr VmRegion.extent regions regions.length) = none

/-- Nothing else goes wrong, and `path` is what becomes of the file names. -/
structure Served (sys : MapsSystem) (regions : List VmRegion) (path : Bytes → Bytes) : Prop where
  handle : sys.handle = .ok ()
  malloc : sys.malloc = true
  item : ∀ k, sys.item k = none
  path : ∀ r ∈ regions, ∀ file, r.file = some file → sys.convertDosPath file = .ok (path file)

/-- The regions of the application. -/
def visible (sys : MapsSystem) (regions : List VmRegion) : List VmRegion := regions.filter (·.extent.base ≤ sys.maxAddr)

/-- The mapped regions and their sizes. -/
def mapped (sys : MapsSystem) (regions : List VmRegion) (size : UInt64 → Nat) : List RawMap :=
  (sys.visible regions).filterMap (VmRegion.item? size)

/-- A region lies beyond the application, or none ends with the addresses. -/
def Stops (sys : MapsSystem) (regions : List VmRegion) : Prop :=
  (∃ r ∈ regions, sys.maxAddr < r.extent.base) ∨ ∀ r ∈ regions, r.extent.end_ < UInt64.size

/-- The walk after `k` regions. -/
structure Walked (sys : MapsSystem) (regions : List VmRegion) (s : MapsState) (k : Nat) : Prop where
  le : k ≤ regions.length
  baseAddress : s.baseAddress = nextAddr VmRegion.extent regions k
  end_lt : ∀ r ∈ regions.take k, r.extent.end_ < UInt64.size
  below : ∀ r ∈ regions.take k, r.extent.base ≤ sys.maxAddr
  retlist : s.retlist = (regions.take k).filterMap (VmRegion.item? formatI)
  visited : s.visited = (regions.take k).map (·.extent.base)

variable {sys : MapsSystem} {regions : List VmRegion}

theorem mapsBody_region (hdesc : Describes sys regions) (hitem : ∀ k, sys.item k = none) {s : MapsState} {k : Nat} (hk : k < regions.length)
    (hbase : s.baseAddress = nextAddr VmRegion.extent regions k) (hle : regions[k].extent.base ≤ sys.maxAddr) :
    sys.mapsBody s = .next ⟨nextAddr VmRegion.extent regions (k + 1), s.retlist ++ [regions[k]].filterMap (VmRegion.item? formatI),
      s.visited ++ [regions[k].extent.base]⟩ := by
  have hget : regions[k]? = some regions[k] := List.getElem?_eq_getElem hk
  have hmem : regions[k] ∈ regions := List.getElem_mem hk
  rw [← hdesc.consecutive.base hk] at hbase
  have hnext : nextAddr VmRegion.extent regions (k + 1) = regions[k].extent.base + regions[k].extent.size := by
    simp only [nextAddr, hget]
  rw [mapsBody, hbase, hdesc.query _ hmem, hdesc.file _ hmem, hnext]
  dsimp only
  rw [if_neg (UInt64.not_lt.2 hle)]
  cases hfile : regions[k].file with
  | none => simp [VmRegion.item?, VmRegion.info, hfile]
  | some file => simp [VmRegion.item?, VmRegion.info, hfile, hitem]

theorem visible_eq_take (hcons : Consecutive regions) {k : Nat} (hbelow : ∀ r ∈ regions.take k, r.extent.base ≤ sys.maxAddr)
    (habove : ∀ hk : k < regions.length, sys.maxAddr < regions[k].extent.base) : sys.visible regions = regions.take k := by
  have hdrop : ∀ r ∈ regions.drop k, ¬r.extent.base ≤ sys.maxAddr := by
    intro r hr
    obtain ⟨j, hj, rfl⟩ := List.mem_drop_iff_getElem.1 hr
    have hk : k < regions.length := by omega
    refine UInt64.not_le.2 (UInt64.lt_of_lt_of_le (habove hk) ?_)
    rcases Nat.eq_zero_or_pos j with rfl | hpos
    · exact UInt64.le_refl _
    · have hle := hcons.space.end_le_of_lt (show k < k + j by omega) (show k + j < regions.length by omega)
      have hlt := hcons.space.lt_end (List.getElem_mem hk)
      exact UInt64.le_iff_toNat_le.2 (by omega)
  rw [visible]
  conv_lhs => rw [← List.take_append_drop k regions]
  rw [List.filter_append, List.filter_eq_self.2 (by simpa using hbelow), List.filter_eq_nil_iff.2 (by simpa using hdrop),
    List.append_nil]

/-- Before the application's last region, none ends with the addresses. -/
theorem Stops.end_lt (hstop : Stops sys regions) (hcons : Consecutive regions) {k : Nat} (hk : k < regions.length)
    (hbelow : ∀ r ∈ regions.take (k + 1), r.extent.base ≤ sys.maxAddr) : regions[k].extent.end_ < UInt64.size := by
  have hmem : regions[k] ∈ regions := List.getElem_mem hk
  by_contra hge
  -- all regions are the application's then, and the last one ends with the addresses
  have hlast := hcons.space.last hk (Nat.le_antisymm (hcons.space.end_le _ hmem) (Nat.not_lt.1 hge))
  rw [hlast, List.take_length] at hbelow
  rcases hstop with ⟨r, hr, habove⟩ | hall
  · exact UInt64.not_lt.2 (hbelow r hr) habove
  · exact hge (hall _ hmem)

theorem walk_round (hdesc : Describes sys regions) (hitem : ∀ k, sys.item k = none) (hstop : Stops sys regions) {s : MapsState} {k : Nat}
    (hs : Walked sys regions s k) :
    (sys.mapsBody s).Meets (fun s' => Walked sys regions s' (k + 1)) fun r => ∃ s', r = .ok s' ∧
      s'.visited = (sys.visible regions).map (·.extent.base) ∧ s'.retlist = sys.mapped regions formatI := by
  obtain ⟨hle, hbase, hends, hbelow, hret, hvisited⟩ := hs
  have hdone : sys.visible regions = regions.take k → s.visited = (sys.visible regions).map (·.extent.base) ∧
      s.retlist = sys.mapped regions formatI := by
    intro hvisible
    rw [mapped, hvisible]
    exact ⟨hvisited, hret⟩
  rcases Nat.lt_or_eq_of_le hle with hk | rfl
  · have hget : regions[k]? = some regions[k] := List.getElem?_eq_getElem hk
    have hmem : regions[k] ∈ regions := List.getElem_mem hk
    by_cases hmax : regions[k].extent.base ≤ sys.maxAddr
    · rw [mapsBody_region hdesc hitem hk hbase hmax]
      have htake : regions.take (k + 1) = regions.take k ++ [regions[k]] := List.take_succ_eq_append_getElem hk
      have hbelow' : ∀ r ∈ regions.take (k + 1), r.extent.base ≤ sys.maxAddr := by
        rw [htake, List.forall_mem_append, List.forall_mem_singleton]
        exact ⟨hbelow, hmax⟩
      have hend := hstop.end_lt hdesc.consecutive hk hbelow'
      refine ⟨hk, rfl, ?_, hbelow', ?_, ?_⟩
      · rw [htake, List.forall_mem_append, List.forall_mem_singleton]
        exact ⟨hends, hend⟩
      · rw [htake, List.filterMap_append, hret]
      · rw [htake, List.map_append, hvisited, List.map_singleton]
    · -- beyond the application
      have hquery := hdesc.query _ hmem
      have habove := UInt64.not_le.1 hmax
      rw [mapsBody, hbase, ← hdesc.consecutive.base hk, hquery]
      dsimp only
      rw [if_pos habove]
      exact ⟨s, rfl, hdone (visible_eq_take hdesc.consecutive hbelow fun _ => habove)⟩
  · rw [List.take_length] at hends
    rw [mapsBody, hbase, hdesc.stop hends]
    exact ⟨s, rfl, hdone (visible_eq_take hdesc.consecutive hbelow fun hk => absurd hk (Nat.lt_irrefl _))⟩

theorem walk_yields (hdesc : Describes sys regions) (hitem : ∀ k, sys.item k = none) (hstop : Stops sys regions) : ∃ s,
    Yields sys.walk (.ok s) ∧ s.visited = (sys.visible regions).map (·.extent.base) ∧ s.retlist = sys.mapped regions formatI := by
  obtain ⟨_, ⟨s, rfl, hs⟩, hyields⟩ : ∃ r, (∃ s, r = .ok s ∧ s.visited = (sys.visible regions).map (·.extent.base) ∧
      s.retlist = sys.mapped regions formatI) ∧ Yields sys.walk r := by
    refine loop_yields (I := fun s => ∃ k, Walked sys regions s k) (μ := fun s => regions.length - s.visited.length) ?_
      ⟨0, Nat.zero_le _, rfl, by simp, by simp, rfl, rfl⟩
    rintro s ⟨k, hs⟩
    refine (walk_round hdesc hitem hstop hs).imp (fun s' hs' => ⟨⟨k + 1, hs'⟩, ?_⟩) fun _ => id
    have hle := hs'.le
    rw [hs.visited, hs'.visited, List.length_map, List.length_map, List.length_take, List.length_take]
    omega
  exact ⟨s, hyields, hs⟩

/-- **A walk over all addresses** comes back to the first one, again and again. -/
theorem walk_eq_none (hdesc : Describes sys regions) (hitem : ∀ k, sys.item k = none) (hstop : ¬Stops sys regions) (fuel : Nat) :
    sys.walk fuel = none := by
  obtain ⟨hbelow, hends⟩ := not_or.1 hstop
  have hbelow : ∀ r ∈ regions, r.extent.base ≤ sys.maxAddr := fun r hr => UInt64.not_lt.1 fun h => hbelow ⟨r, hr, h⟩
  have hspace := hdesc.consecutive.space
  obtain ⟨n, hn, hend⟩ : ∃ n, ∃ hn : n < regions.length, regions[n].extent.end_ = UInt64.size := by
    by_contra hnone
    refine hends fun r hr => ?_
    obtain ⟨n, hn, rfl⟩ := List.getElem_of_mem hr
    exact Nat.lt_of_le_of_ne (hspace.end_le _ hr) fun h => hnone ⟨n, hn, h⟩
  refine loop_eq_none (J := fun s => ∃ k, k < regions.length ∧ s.baseAddress = nextAddr VmRegion.extent regions k) ?_ ⟨0, ?_, rfl⟩
  · rintro s ⟨k, hk, hbase⟩
    refine ⟨_, mapsBody_region hdesc hitem hk hbase (hbelow _ (List.getElem_mem hk)), ?_⟩
    rcases Nat.lt_or_eq_of_le (Nat.succ_le_of_lt hk) with hlt | hlast
    · exact ⟨k + 1, hlt, rfl⟩
    · obtain rfl : n = k := by
        have := hspace.last hn hend
        omega
      exact ⟨0, by omega, nextAddr_eq_zero hk hend⟩
  · omega

/-! ## True sizes -/

theorem filterMap_item?_eq_iff {size size' : UInt64 → Nat} : ∀ {l : List VmRegion},
    l.filterMap (VmRegion.item? size) = l.filterMap (VmRegion.item? size') ↔
      ∀ r ∈ l, r.file ≠ none → size r.extent.size = size' r.extent.size
  | [] => by simp
  | r :: l => by
    rw [List.forall_mem_cons, ← filterMap_item?_eq_iff (l := l)]
    cases hfile : r.file with
    | none => simp [VmRegion.item?, hfile]
    | some file => simp [VmRegion.item?, hfile]

theorem formatI_eq_iff (n : UInt64) : formatI n = n.toNat ↔ n.toNat < 4294967296 := by
  rw [formatI]
  omega

/-- The sizes of the regions that have a path, added up. -/
def total (maps : List RawMap) (path : Bytes → Bytes) (p : Bytes) : Nat :=
  ((maps.filter fun m => path m.path = p).map RawMap.rss).sum

/-- The walk ends and looks at every region once, the list has the mapped ones with their bases and sizes, and the groups the
sums of these. -/
structure Reports (sys : MapsSystem) (regions : List VmRegion) (path : Bytes → Bytes) : Prop where
  visited : ∃ s, Yields sys.walk (.ok s) ∧ s.visited = (sys.visible regions).map (·.extent.base)
  raw : Yields sys.procMemoryMaps (.ok (sys.mapped regions UInt64.toNat))
  grouped : ∃ groups, Yields sys.memoryMaps (.ok groups) ∧
    groups.map Prod.fst = ((sys.mapped regions UInt64.toNat).map fun m => path m.path).eraseDups ∧
    ∀ g ∈ groups, g.2 = [(total (sys.mapped regions UInt64.toNat) path g.1 : Int)]

variable {path : Bytes → Bytes}

theorem procMemoryMaps_eq (h : Served sys regions path) :
    sys.procMemoryMaps = fun fuel => (sys.walk fuel).map (·.map MapsState.retlist) := by
  funext fuel
  simp [procMemoryMaps, h.handle, h.malloc]

theorem procMemoryMaps_yields (h : Served sys regions path) {s : MapsState} (hs : Yields sys.walk (.ok s)) :
    Yields sys.procMemoryMaps (.ok s.retlist) := by
  rw [procMemoryMaps_eq h]
  exact hs.map (·.map MapsState.retlist)

def toRegion (path : Bytes → Bytes) (m : RawMap) : Region := ⟨hexAddr m.addr, m.perm, path m.path, [(m.rss : Int)]⟩

theorem memoryMaps_yields {maps : List RawMap} (hmaps : Yields sys.procMemoryMaps (.ok maps))
    (hpath : ∀ m ∈ maps, sys.convertDosPath m.path = .ok (path m.path)) :
    Yields sys.memoryMaps (.ok (groupMaps (maps.map (toRegion path)))) := by
  have hconv : maps.mapM sys.convertMap = .ok (maps.map (toRegion path)) :=
    mapM_ok fun m hm => by rw [convertMap, hpath m hm, toRegion]
  have hplat := hmaps.map sys.convertMaps
  rw [convertMaps, hconv] at hplat
  exact hplat.map (·.map groupMaps)

theorem groupMaps_total (maps : List RawMap) (path : Bytes → Bytes) :
    (groupMaps (maps.map (toRegion path))).map Prod.fst = (maps.map fun m => path m.path).eraseDups ∧
      ∀ g ∈ groupMaps (maps.map (toRegion path)), g.2 = [(total maps path g.1 : Int)] := by
  obtain ⟨hkeys, hvalues, -⟩ := groupMaps_conserves 1 (maps.map (toRegion path)) (by simp [toRegion])
  rw [List.map_map] at hkeys
  refine ⟨hkeys, fun g hg => ?_⟩
  obtain ⟨hlen, hcol⟩ := hvalues g hg
  obtain ⟨n, hn⟩ := List.length_eq_one_iff.1 hlen
  have hcol := hcol 0 Nat.zero_lt_one
  rw [hn, List.getD_cons_zero, column, List.filter_map, List.map_map, List.map_map] at hcol
  rw [hn, hcol, total, ← Nat.coe_castAddMonoidHom, map_list_sum, List.map_map]
  rfl

/-- **The true sizes are reported** if and only if every mapped region is below 4 GiB and the walk stops. -/
theorem reports_iff (hdesc : Describes sys regions) (h : Served sys regions path) : Reports sys regions path ↔
    (∀ r ∈ sys.visible regions, r.file ≠ none → r.extent.size.toNat < 4294967296) ∧ Stops sys regions := by
  have hsizes : sys.mapped regions formatI = sys.mapped regions UInt64.toNat ↔
      ∀ r ∈ sys.visible regions, r.file ≠ none → r.extent.size.toNat < 4294967296 := by
    simp only [mapped, filterMap_item?_eq_iff, formatI_eq_iff]
  constructor
  · intro hrep
    have hstop : Stops sys regions := by
      by_contra hnot
      obtain ⟨s, ⟨enough, hs⟩, -⟩ := hrep.visited
      have hnone := walk_eq_none hdesc h.item hnot enough
      rw [hs enough (Nat.le_refl _)] at hnone
      cases hnone
    obtain ⟨s, hwalk, -, hret⟩ := walk_yields hdesc h.item hstop
    have heq := (procMemoryMaps_yields h hwalk).unique hrep.raw
    rw [hret] at heq
    exact ⟨hsizes.1 (Except.ok.inj heq), hstop⟩
  · rintro ⟨hsmall, hstop⟩
    obtain ⟨s, hwalk, hvisited, hret⟩ := walk_yields hdesc h.item hstop
    have hraw := procMemoryMaps_yields h hwalk
    rw [hret, hsizes.2 hsmall] at hraw
    refine ⟨⟨s, hwalk, hvisited⟩, hraw, _, memoryMaps_yields hraw fun m hm => ?_, groupMaps_total _ path⟩
    obtain ⟨r, hr, hitem⟩ := List.mem_filterMap.1 hm
    obtain ⟨file, hfile, rfl⟩ := Option.map_eq_some_iff.1 hitem
    exact h.path r (List.mem_of_mem_filter hr) file hfile

end MapsSystem

/-- A process with these regions, on a system with one drive. -/
def vmSystem (regions : List VmRegion) : MapsSystem where
  proc := ⟨4, none, none, ⟨4, some 0⟩, false, false, none⟩
  handle := .ok ()
  malloc := true
  maxAddr := 0x7ffffffeffff
  virtualQueryEx addr := (regions.find? fun r => addr.toNat < r.extent.end_).map VmRegion.info
  getMappedFileNameW addr := (regions.find? fun r => addr.toNat < r.extent.end_).bind VmRegion.file
  item _ := none
  queryDosDevice _ := .ok (ascii "C:")
  join driveletter remainder := driveletter ++ remainder

theorem describes_vmSystem {regions : List VmRegion} (h : Consecutive regions) : (vmSystem regions).Describes regions where
  consecutive := h
  query r hr := by
    obtain ⟨k, hk, rfl⟩ := List.getElem_of_mem hr
    simp only [vmSystem, h.base hk, h.space.find?_nextAddr hk, Option.map_some]
  file r hr := by
    obtain ⟨k, hk, rfl⟩ := List.getElem_of_mem hr
    simp only [vmSystem, h.base hk, h.space.find?_nextAddr hk, Option.bind_some]
  stop hends := by simp only [vmSystem, h.space.find?_nextAddr_length hends, Option.map_none]

/-- An address space with a file mapped in two regions, of the given sizes. -/
def twoMaps (size size' : UInt64) : List VmRegion :=
  let file := ascii "\\Device\\HarddiskVolume1\\a"
  [⟨⟨0, 0x10000⟩, 1, none⟩, ⟨⟨0x10000, size⟩, 2, some file⟩, ⟨⟨0x10000 + size, size'⟩, 4, some file⟩,
    ⟨⟨0x10000 + size + size', 0x700000000000⟩, 1, none⟩]

theorem served_twoMaps (size size' : UInt64) : (vmSystem (twoMaps size size')).Served (twoMaps size size') fun _ => ascii "C:\\a" where
  handle := rfl
  malloc := rfl
  item _ := rfl
  path r hr file hfile := by
    obtain rfl : file = ascii "\\Device\\HarddiskVolume1\\a" := by
      simp only [twoMaps, List.mem_cons, List.not_mem_nil, or_false] at hr
      rcases hr with rfl | rfl | rfl | rfl <;> cases hfile <;> rfl
    rfl

theorem reports_twoMaps : (vmSystem (twoMaps 0x2000 0x3000)).Reports (twoMaps 0x2000 0x3000) fun _ => ascii "C:\\a" :=
  (MapsSystem.reports_iff (describes_vmSystem ⟨⟨by decide, by decide, by decide⟩, by decide⟩) (served_twoMaps 0x2000 0x3000)).2
    ⟨by decide, Or.inr (by decide)⟩

/-- A region of 4 GiB has the size 0. -/
theorem not_reports_twoMaps : (vmSystem (twoMaps 0x2000 0x100000000)).Describes (twoMaps 0x2000 0x100000000) ∧
    (vmSystem (twoMaps 0x2000 0x100000000)).Served (twoMaps 0x2000 0x100000000) (fun _ => ascii "C:\\a") ∧
    ¬(vmSystem (twoMaps 0x2000 0x100000000)).Reports (twoMaps 0x2000 0x100000000) fun _ => ascii "C:\\a" := by
  refine ⟨describes_vmSystem ⟨⟨by decide, by decide, by decide⟩, by decide⟩, served_twoMaps 0x2000 0x100000000, fun h => ?_⟩
  obtain ⟨enough, hraw⟩ := h.raw
  have hraw := hraw (enough + 5) (by omega)
  have heval : (vmSystem (twoMaps 0x2000 0x100000000)).procMemoryMaps (enough + 5) =
      some (.ok [⟨0x10000, ascii "r", ascii "\\Device\\HarddiskVolume1\\a", 0x2000⟩,
        ⟨0x12000, ascii "rw", ascii "\\Device\\HarddiskVolume1\\a", 0⟩]) := rfl
  rw [heval] at hraw
  revert hraw
  decide

end Psutil.WinMaps
