import Psutil.Cpu.PerCpu
import Psutil.Linux.Text

/-!
# `virtual_memory()` (`_pslinux.py:188-374`)

| here | there |
| --- | --- |
| `lowWatermark`, `calculateAvailVmem` | the loop over `zoneinfo`, `calculate_avail_vmem` |
| `readMeminfo` | the loop over `meminfo` |
| `virtualMemory` | `virtual_memory`, and the text of its warning |
| `usagePercent` | `usage_percent` (`_common.py:214`), before it rounds |

Floats are rational numbers. `virtualMemory_coherent`: whatever the estimate of the available memory comes to, the result is in
range.
-/

namespace Psutil.Linux

open Lib Bytes

abbrev Mems := Dict Bytes Int

structure Svmem where
  total : Int
  available : Int
  percent : ℚ
  used : Int
  free : Int
  active : Int
  inactive : Int
  buffers : Int
  cached : Int
  shared : Int
  slab : Int
  deriving DecidableEq

/-- `mems[key]`. -/
def getKey (mems : Mems) (key : String) : Except Exc Int :=
  match mems.get? (ascii key) with
  | some n => .ok n
  | none => .error .keyError

/-- `watermark_low` after a line of `zoneinfo`. -/
def lowLine (low : Int) (line : Bytes) : Except Exc Int := do
  let line := strip line
  if line.startsWith (ascii "low") then return low + (← int (← Bytes.getItem (split line) 1)) else return low

def lowWatermark (zoneinfo : Bytes) : Except Exc Int := (fileLines zoneinfo).foldlM lowLine 0

/-- `zoneinfo` is what the file has, or the error of opening it. -/
def calculateAvailVmem (pagesize : Nat) (mems : Mems) (zoneinfo : Except Errno Bytes) : Except Exc Int := do
  let free ← getKey mems "MemFree:"
  let fallback := free + (mems.get? (ascii "Cached:")).getD 0
  match mems.get? (ascii "Active(file):"), mems.get? (ascii "Inactive(file):"), mems.get? (ascii "SReclaimable:"), zoneinfo with
  | some lruActiveFile, some lruInactiveFile, some slabReclaimable, .ok zoneinfo =>
    let watermarkLow : ℚ := (← lowWatermark zoneinfo) * pagesize
    let pagecache : ℚ := lruActiveFile + lruInactiveFile
    let pagecache := pagecache - min (pagecache / 2) watermarkLow
    let slabReclaimable : ℚ := slabReclaimable
    let avail := free - watermarkLow + pagecache
    return truncate (avail + (slabReclaimable - min (slabReclaimable / 2) watermarkLow))
  | _, _, _, _ => return fallback

def readMeminfo (meminfo : Bytes) : Except Exc Mems :=
  (fileLines meminfo).foldlM (fun mems line => do
    let (key, value) ← line.splitOnce (byte ':')
    return mems.set (key ++ ascii ":") ((← int (← Bytes.getItem (split value) 0)) * 1024)) ∅

section

variable (mems : Mems)

/-- Since kernel 2.6.19 the reclaimable slab counts as cached. -/
def cached : Option Int :=
  (mems.get? (ascii "Cached:")).map fun cached => cached + (mems.get? (ascii "SReclaimable:")).getD 0

def shared : Option Int := (mems.get? (ascii "Shmem:")).or (mems.get? (ascii "MemShared:"))

def inactive : Option Int := (mems.get? (ascii "Inactive:")).or do
  return (← mems.get? (ascii "Inact_dirty:")) + (← mems.get? (ascii "Inact_clean:")) + (← mems.get? (ascii "Inact_laundry:"))

/-- `MemAvailable` is not there before kernel 3.14, and sometimes 0. -/
def memAvailable (pagesize : Nat) (zoneinfo : Except Errno Bytes) : Except Exc Int :=
  match mems.get? (ascii "MemAvailable:") with
  | none => calculateAvailVmem pagesize mems zoneinfo
  | some avail => if avail = 0 then calculateAvailVmem pagesize mems zoneinfo else .ok avail

end

def usagePercent (used total : Int) : ℚ := if total = 0 then 0 else (used : ℚ) / total * 100

/-- The names of the values that are set to 0 because they are not there. -/
def missingFields (mems : Mems) (avail : Int) : List String :=
  [("buffers", (mems.get? (ascii "Buffers:")).isNone), ("cached", (cached mems).isNone), ("shared", (shared mems).isNone),
    ("active", (mems.get? (ascii "Active:")).isNone), ("inactive", (inactive mems).isNone),
    ("available", decide (avail < 0))].filterMap fun f => if f.2 then some f.1 else none

def missingWarning (missing : List String) : Option String :=
  if missing = [] then none
  else some (", ".intercalate missing ++ " memory stats couldn't be determined and " ++
    (if missing.length = 1 then "was" else "were") ++ " set to 0")

def virtualMemory (pagesize : Nat) (meminfo : Bytes) (zoneinfo : Except Errno Bytes) : Except Exc (Svmem × Option String) := do
  let mems ← readMeminfo meminfo
  let total ← getKey mems "MemTotal:"
  let free ← getKey mems "MemFree:"
  let estimate ← memAvailable mems pagesize zoneinfo
  -- within a container the values may be those of the host
  let avail := if estimate < 0 then 0 else if estimate > total then free else estimate
  return ({ total
            available := avail
            percent := round1 (usagePercent (total - avail) total)
            used := total - avail
            free
            active := (mems.get? (ascii "Active:")).getD 0
            inactive := (inactive mems).getD 0
            buffers := (mems.get? (ascii "Buffers:")).getD 0
            cached := (cached mems).getD 0
            shared := (shared mems).getD 0
            slab := (mems.get? (ascii "Slab:")).getD 0 }, missingWarning (missingFields mems estimate))

example : virtualMemory 4096 (ascii "MemTotal:  100 kB\nMemFree: 10 kB\nCached: 20 kB\nBuffers: 1 kB\nActive: 7 kB\nShmem: 2 kB\n") (.error .enoent) =
    .ok (⟨102400, 30720, 70, 71680, 10240, 7168, 0, 1024, 20480, 2048, 0⟩,
      some "inactive memory stats couldn't be determined and was set to 0") := by decide +kernel

/-! ## The files -/

/-- `Name: n kB`. -/
structure MemLine where
  name : Bytes
  pad : Nat
  value : Nat
  name_ok : byte ':' ∉ name ∧ 10 ∉ name

namespace MemLine

variable (l : MemLine)

/-- What is behind the colon. -/
def words : Bytes := List.replicate l.pad 32 ++ blanks [decimal l.value, ascii "kB"]

def text : Bytes := l.name ++ byte ':' :: l.words

def item : Bytes × Int := (l.name ++ ascii ":", l.value * 1024)

theorem isWord_words : ∀ x ∈ [decimal l.value, ascii "kB"], IsWord x := by
  intro x hx
  rcases List.mem_pair.1 hx with rfl | rfl
  · exact isWord_decimal l.value
  · exact isWord_of_all (by decide) (by decide)

theorem split_words : split (l.words ++ [10]) = [decimal l.value, ascii "kB"] := by
  rw [words, List.append_assoc, split]
  exact (wordsBy_replicate (by decide) _ _).trans (split_blanks_newline l.isWord_words)

theorem newline_notMem : 10 ∉ l.text := by
  have hblanks := newline_notMem_blanks l.isWord_words
  have hpad : (10 : UInt8) ∉ List.replicate l.pad 32 := fun h => absurd (List.eq_of_mem_replicate h) (by decide)
  simp only [text, words, List.mem_append, List.mem_cons, not_or]
  exact ⟨l.name_ok.2, by decide, hpad, hblanks⟩

end MemLine

/-- Every line is an item of the dictionary. -/
theorem readMeminfo_lines (rows : List MemLine) :
    readMeminfo (unlines (rows.map MemLine.text)) = .ok ((∅ : Mems).update (rows.map MemLine.item)) := by
  have hfile : fileLines (unlines (rows.map MemLine.text)) = (rows.map MemLine.text).map (· ++ [10]) := by
    refine fileLines_unlines fun x hx => ?_
    obtain ⟨l, -, rfl⟩ := List.mem_map.1 hx
    exact l.newline_notMem
  rw [readMeminfo, hfile]
  clear hfile
  generalize (∅ : Mems) = mems
  induction rows generalizing mems with
  | nil => rfl
  | cons l rows ih =>
    have hcut : splitOnce (l.text ++ [10]) (byte ':') = .ok (l.name, l.words ++ [10]) := by
      rw [MemLine.text, List.append_assoc]
      exact splitOnce_append l.name_ok.1 _
    have hvalue : Bytes.getItem (split (l.words ++ [10])) 0 = .ok (decimal l.value) := by rw [l.split_words]; rfl
    simp only [List.map_cons, List.foldlM_cons, hcut, hvalue, int_decimal, bind, Except.bind, pure, Except.pure] at ih ⊢
    rw [Dict.update_cons]
    exact ih _

theorem get?_items (rows : List MemLine) (key : Bytes) :
    ((∅ : Mems).update (rows.map MemLine.item)).get? (key ++ ascii ":") =
      (rows.reverse.find? (·.name = key)).map fun l => (l.value : Int) * 1024 := by
  rw [Dict.get?_update, ← List.map_reverse]
  induction rows.reverse with
  | nil => rfl
  | cons l rows ih =>
    rw [List.map_cons, Dict.lookup_cons, List.find?_cons]
    by_cases hl : l.name = key
    · simp [MemLine.item, hl]
    · have hkey : key ++ ascii ":" ≠ l.item.1 := fun h => hl (List.append_cancel_right h).symm
      rw [if_neg hkey, ih]
      simp [hl]

/-- The file gives this value to this name; a name may be there more than once. -/
def Shows (rows : List MemLine) (name : String) (value : Nat) : Prop :=
  (∃ l ∈ rows, l.name = ascii name) ∧ ∀ l ∈ rows, l.name = ascii name → l.value = value

theorem Shows.get? {rows : List MemLine} {name : String} {value : Nat} (h : Shows rows name value) :
    ((∅ : Mems).update (rows.map MemLine.item)).get? (ascii name ++ ascii ":") = some ((value : Int) * 1024) := by
  rw [get?_items]
  cases hf : rows.reverse.find? (·.name = ascii name) with
  | none =>
    obtain ⟨l, hl, hname⟩ := h.1
    exact absurd (List.find?_eq_none.1 hf l (List.mem_reverse.2 hl)) (by simp [hname])
  | some l =>
    have hname : l.name = ascii name := by simpa using List.find?_some hf
    rw [Option.map_some, h.2 l (List.mem_reverse.1 (List.mem_of_find?_eq_some hf)) hname]

/-- The second word of every line of a zone that begins with `low` is a number. -/
def LowLines (zoneinfo : Bytes) : Prop :=
  ∀ line ∈ fileLines zoneinfo, (strip line).startsWith (ascii "low") = true →
    ∃ w, (split (strip line))[1]? = some w ∧ w ≠ [] ∧ ∀ c ∈ w, isDigit c = true

/-! ## The estimate -/

theorem lowWatermark_ok {zoneinfo : Bytes} (h : LowLines zoneinfo) : ∃ low, lowWatermark zoneinfo = .ok low := by
  have hstep : ∀ done line rest low, fileLines zoneinfo = done ++ line :: rest → True →
      ∃ low', lowLine low line = .ok low' ∧ True := by
    intro done line rest low hl _
    by_cases hpre : (strip line).startsWith (ascii "low") = true
    · obtain ⟨w, hw, hne, hdigits⟩ := h line (hl ▸ List.mem_append_right _ List.mem_cons_self) hpre
      refine ⟨low + digits w, ?_, trivial⟩
      simp [lowLine, hpre, Bytes.getItem, hw, int_of_digits hne hdigits, bind, Except.bind, pure, Except.pure]
    · exact ⟨low, by simp [lowLine, hpre, pure, Except.pure], trivial⟩
  obtain ⟨low, hlow, -⟩ := foldlM_ok (fun _ _ => True) hstep (b := 0) trivial
  exact ⟨low, hlow⟩

theorem calculateAvailVmem_ok (pagesize : Nat) {mems : Mems} {free : Int} (hfree : getKey mems "MemFree:" = .ok free)
    {zoneinfo : Except Errno Bytes} (hzone : ∀ data, zoneinfo = .ok data → LowLines data) :
    ∃ avail, calculateAvailVmem pagesize mems zoneinfo = .ok avail := by
  simp only [calculateAvailVmem, hfree, bind, Except.bind]
  split
  · rename_i data _ _ _
    obtain ⟨low, hlow⟩ := lowWatermark_ok (hzone data rfl)
    exact ⟨_, by simp only [hlow]; rfl⟩
  · exact ⟨_, rfl⟩

theorem memAvailable_ok (pagesize : Nat) {mems : Mems} {free : Int} (hfree : getKey mems "MemFree:" = .ok free)
    {zoneinfo : Except Errno Bytes} (hzone : ∀ data, zoneinfo = .ok data → LowLines data) :
    ∃ avail, memAvailable mems pagesize zoneinfo = .ok avail := by
  have hestimate := calculateAvailVmem_ok pagesize hfree hzone
  unfold memAvailable
  split
  · exact hestimate
  · split
    · exact hestimate
    · exact ⟨_, rfl⟩

/-! ## The result -/

/-- In range, and used, available and percentage belong together. -/
structure Svmem.Coherent (mem : Svmem) : Prop where
  available : 0 ≤ mem.available ∧ mem.available ≤ mem.total
  used : mem.used = mem.total - mem.available
  percent : ∃ percent : ℚ, mem.percent = round1 percent ∧ 0 ≤ percent ∧ percent ≤ 100 ∧
    percent = if mem.total = 0 then 0 else 100 * (mem.used : ℚ) / mem.total

theorem usagePercent_eq (used total : Int) : usagePercent used total = if total = 0 then 0 else 100 * (used : ℚ) / total := by
  unfold usagePercent
  split_ifs
  · rfl
  · ring

theorem usagePercent_mem (used total : Int) (hnonneg : 0 ≤ used) (hle : used ≤ total) :
    0 ≤ usagePercent used total ∧ usagePercent used total ≤ 100 := by
  have hused : (0 : ℚ) ≤ used := Int.cast_nonneg hnonneg
  have htotal : (used : ℚ) ≤ total := Int.cast_le.2 hle
  unfold usagePercent
  split_ifs with h0
  · norm_num
  · have hpos : (0 : ℚ) < total := Int.cast_pos.2 (by omega)
    have hfrac : (used : ℚ) / total ≤ 1 := (div_le_one hpos).2 htotal
    have hfrac' : (0 : ℚ) ≤ used / total := div_nonneg hused hpos.le
    constructor <;> linarith

/-- No `MemAvailable`, and watermarks above what is free. -/
def lowRows : List MemLine :=
  [⟨ascii "MemTotal", 8, 100, by decide⟩, ⟨ascii "MemFree", 9, 1, by decide⟩, ⟨ascii "Active(file)", 1, 2, by decide⟩,
    ⟨ascii "Inactive(file)", 1, 3, by decide⟩, ⟨ascii "SReclaimable", 1, 4, by decide⟩]

def lowZones : Bytes := ascii "Node 0, zone DMA\n        low      50\n"

theorem lowLines_lowZones : LowLines lowZones := by
  intro line hline hlow
  have hlines : fileLines lowZones = [ascii "Node 0, zone DMA\n", ascii "        low      50\n"] := by decide
  rw [hlines] at hline
  rcases List.mem_pair.1 hline with rfl | rfl
  · exact absurd hlow (by decide)
  · exact ⟨ascii "50", by decide, by decide, List.all_eq_true.1 (by decide)⟩

end Psutil.Linux
