import Psutil.Common.Columns
import Psutil.Linux.Name
import Psutil.Nowrap.Counters

/-!
# The two readers of `disk_io_counters()` on Linux (`_pslinux.py:165-180`, `:1042-1139`)

| here | there |
| --- | --- |
| `procfsLine`, `readProcfs` | `read_procfs`, on the text of `/proc/diskstats` |
| `sysfsDir`, `readSysfs` | `read_sysfs`, on the directories below `/sys/block` with their `stat` |
| `isStorage` | `is_storage_device`; `access` tells which paths exist |
| `diskCounters` | the loop over `gen` |

`readers_agree_iff`: both give the same dictionary unless a name has a `/`, which sysfs spells `!`.
-/

namespace Psutil.Linux

open Lib Common

/-- What both readers yield. -/
structure RawDisk where
  name : Text
  reads : Int
  writes : Int
  rbytes : Int
  wbytes : Int
  rtime : Int
  wtime : Int
  readsMerged : Int
  writesMerged : Int
  busyTime : Int
  deriving DecidableEq

/-- The ten numbers that both kinds of file have. -/
def RawDisk.unpack (name : Text) : List Int → Except Exc RawDisk
  | [reads, readsMerged, rbytes, rtime, writes, writesMerged, wbytes, wtime, _, busyTime] =>
    .ok { name, reads, writes, rbytes, wbytes, rtime, wtime, readsMerged, writesMerged, busyTime }
  | _ => .error (.valueError "not enough values to unpack")

def procfsLine (U : UnicodeData) (line : Text) : Except Exc RawDisk := do
  let fields := Text.split line
  let ints (i j : Nat) : Except Exc (List Int) := ((fields.drop i).take (j - i)).mapM (Text.int U)
  if fields.length = 15 then
    -- Linux 2.4
    let reads ← Text.int U (fields.getD 2 [])
    RawDisk.unpack (fields.getD 3 []) (reads :: (← ints 4 14).take 9)
  else if fields.length = 14 ∨ 18 ≤ fields.length then
    RawDisk.unpack (fields.getD 2 []) ((← ints 3 14).take 10)
  else if fields.length = 7 then
    -- a partition in Linux 2.6
    match ← ints 3 7 with
    | [reads, rbytes, writes, wbytes] => return ⟨fields.getD 2 [], reads, writes, rbytes, wbytes, 0, 0, 0, 0, 0⟩
    | _ => .error (.valueError "not enough values to unpack")
  else .error (.valueError ("not sure how to interpret line " ++ U.repr line))

def readProcfs (U : UnicodeData) (diskstats : Text) : Except Exc (List RawDisk) := (lines diskstats).mapM (procfsLine U)

def sysfsDir (U : UnicodeData) (root stat : Text) : Except Exc RawDisk := do
  RawDisk.unpack (basename root) (← ((Text.split stat).take 10).mapM (Text.int U))

/-- The directories in the order of the walk; the others have no `stat`. -/
def readSysfs (U : UnicodeData) (walk : List (Text × Option Text)) : Except Exc (List RawDisk) :=
  (walk.filterMap fun d => d.2.map fun stat => (d.1, stat)).mapM fun d => sysfsDir U d.1 d.2

/-- `name.replace('/', '!')`, which the kernel does as well. -/
def sysName (name : Text) : Text := name.map fun c => if c = 47 then 33 else c

def isStorage (access : Text → Bool) (name : Text) : Bool := access (text "/sys/block/" ++ sysName name)

def RawDisk.fields (e : RawDisk) : List Int :=
  [e.reads, e.writes, e.rbytes * diskSectorSize, e.wbytes * diskSectorSize, e.rtime, e.wtime, e.readsMerged, e.writesMerged, e.busyTime]

def diskCounters (access : Text → Bool) (perdisk : Bool) (gen : Except Exc (List RawDisk)) : Except Exc (Dict Text (List Int)) :=
  gen.map fun entries => (∅ : Dict Text (List Int)).update
    ((entries.filter fun e => perdisk || isStorage access e.name).map fun e => (e.name, e.fields))

/-! ## The files -/

/-- A disk or a partition; before kernel 4.18 there are eleven counters, and seventeen since 5.5. -/
structure BlockDevice where
  name : Text
  major : Nat
  minor : Nat
  counters : List Nat
  name_ok : Text.IsWord name
  counters_ok : counters.length = 11 ∨ counters.length = 15 ∨ counters.length = 17

namespace BlockDevice

variable (d : BlockDevice)

def words : List Text := Text.decimal d.major :: Text.decimal d.minor :: d.name :: d.counters.map Text.decimal

/-- What a reader is to make of it, under either name. -/
def entry (name : Text) : RawDisk where
  name := name
  reads := d.counters.getD 0 0
  readsMerged := d.counters.getD 1 0
  rbytes := d.counters.getD 2 0
  rtime := d.counters.getD 3 0
  writes := d.counters.getD 4 0
  writesMerged := d.counters.getD 5 0
  wbytes := d.counters.getD 6 0
  wtime := d.counters.getD 7 0
  busyTime := d.counters.getD 9 0

end BlockDevice

/-- A line of `/proc/diskstats`. -/
structure DiskLine where
  device : BlockDevice
  row : TextRow
  row_ok : row.words = device.words

/-- A directory of the walk: one without `stat`, or that of a device. -/
inductive SysDir where
  | plain (root : Text)
  | device (d : BlockDevice) (parent : Text) (stat : TextRow) (stat_ok : stat.words = d.counters.map Text.decimal)

namespace SysDir

def device? : SysDir → Option BlockDevice
  | .plain _ => none
  | .device d _ _ _ => some d

/-- The path of the directory and the text of the file. -/
def shown : SysDir → Text × Option Text
  | .plain root => (root, none)
  | .device d parent stat _ => (parent ++ 47 :: sysName d.name, some (stat.text ++ [10]))

end SysDir

/-- The same devices, with the same counters, in the two places. -/
structure SameCounters (devices : List BlockDevice) (diskstats : List DiskLine) (walk : List SysDir) : Prop where
  distinct : (devices.map fun d => sysName d.name).Nodup
  diskstats : (diskstats.map DiskLine.device).Perm devices
  walk : (walk.filterMap SysDir.device?).Perm devices

/-- The same dictionary, apart from the order. -/
def SameDict (r r' : Except Exc (Dict Text (List Int))) : Prop :=
  ∃ d d', r = .ok d ∧ r' = .ok d' ∧ ∀ name, d.get? name = d'.get? name

/-! ## The readers -/

theorem sysName_eq_self {name : Text} (h : 47 ∉ name) : sysName name = name := by
  refine (List.map_congr_left fun c hc => if_neg ?_).trans (List.map_id name)
  rintro rfl
  exact h hc

theorem slash_notMem_sysName (name : Text) : 47 ∉ sysName name := by
  intro hmem
  obtain ⟨c, -, hc⟩ := List.mem_map.1 hmem
  split_ifs at hc with h47
  · cases hc
  · exact h47 hc

theorem unpack_counters (d : BlockDevice) (name : Text) :
    RawDisk.unpack name ((d.counters.map Int.ofNat).take 10) = .ok (d.entry name) := by
  have hlen : 10 ≤ d.counters.length := by
    rcases d.counters_ok with h | h | h <;> omega
  obtain ⟨l, hl⟩ : ∃ l, l = d.counters := ⟨_, rfl⟩
  match l, hl with
  | a :: b :: c :: d' :: e :: f :: g :: h :: i :: j :: rest, hl =>
    simp only [BlockDevice.entry, ← hl]
    rfl
  | [], hl | [_], hl | [_, _], hl | [_, _, _], hl | [_, _, _, _], hl | [_, _, _, _, _], hl | [_, _, _, _, _, _], hl
  | [_, _, _, _, _, _, _], hl | [_, _, _, _, _, _, _, _], hl | [_, _, _, _, _, _, _, _, _], hl => simp [← hl] at hlen

theorem procfsLine_ok (U : UnicodeData) (l : DiskLine) : procfsLine U (l.row.text ++ [10]) = .ok (l.device.entry l.device.name) := by
  have hsplit : Text.split (l.row.text ++ [10]) = l.device.words := by
    rw [l.row.split_text (by decide), l.row_ok]
  have hlen : l.device.words.length ≠ 15 ∧ (l.device.words.length = 14 ∨ 18 ≤ l.device.words.length) := by
    rcases l.device.counters_ok with h | h | h <;> simp [BlockDevice.words, h]
  have hname : l.device.words.getD 2 [] = l.device.name := rfl
  have hints : ((l.device.words.drop 3).take (14 - 3)).mapM (Text.int U) = .ok ((l.device.counters.take 11).map Int.ofNat) := by
    have hdrop : l.device.words.drop 3 = l.device.counters.map Text.decimal := rfl
    rw [hdrop, ← List.map_take]
    exact Text.mapM_int_decimal U _
  simp only [procfsLine, hsplit, if_neg hlen.1, if_pos hlen.2, hname, hints, bind, Except.bind]
  rw [← List.map_take, List.take_take, List.map_take]
  exact unpack_counters l.device _

theorem sysfsDir_ok (U : UnicodeData) (d : BlockDevice) (parent : Text) {stat : TextRow} (h : stat.words = d.counters.map Text.decimal) :
    sysfsDir U (parent ++ 47 :: sysName d.name) (stat.text ++ [10]) = .ok (d.entry (sysName d.name)) := by
  have hslash := slash_notMem_sysName d.name
  have hbase : basename (parent ++ 47 :: sysName d.name) = sysName d.name := by
    have hdir : (parent ++ [47]).getLast? = some 47 := by simp
    have happend := basename_append (Or.inr hdir) hslash
    rwa [List.append_assoc] at happend
  have hints : ((d.counters.map Text.decimal).take 10).mapM (Text.int U) = .ok ((d.counters.map Int.ofNat).take 10) := by
    rw [← List.map_take, ← List.map_take]
    exact Text.mapM_int_decimal U _
  have hsplit : Text.split (stat.text ++ [10]) = stat.words := stat.split_text (by decide)
  simp only [sysfsDir, hbase, hsplit, h, hints, bind, Except.bind]
  exact unpack_counters d _

theorem readProcfs_ok (U : UnicodeData) (diskstats : List DiskLine) :
    readProcfs U (terminate 10 (diskstats.map fun l => l.row.text)) =
      .ok ((diskstats.map DiskLine.device).map fun d => d.entry d.name) := by
  have hlines := lines_rows (diskstats.map DiskLine.row)
  rw [List.map_map, List.map_map] at hlines
  rw [readProcfs, show (fun l : DiskLine => l.row.text) = TextRow.text ∘ DiskLine.row from rfl, hlines, List.mapM_map, List.map_map]
  exact mapM_ok fun l _ => procfsLine_ok U l

theorem readSysfs_ok (U : UnicodeData) (walk : List SysDir) :
    readSysfs U (walk.map SysDir.shown) = .ok ((walk.filterMap SysDir.device?).map fun d => d.entry (sysName d.name)) := by
  unfold readSysfs
  induction walk with
  | nil => rfl
  | cons dir walk ih =>
    cases dir with
    | plain root => exact ih
    | device d parent stat stat_ok =>
      have hfirst := sysfsDir_ok U d parent stat_ok
      simp only [List.map_cons, SysDir.shown, SysDir.device?, List.filterMap_cons, Option.map_some, List.mapM_cons, hfirst, ih]
      rfl

/-! ## The dictionaries -/

theorem get?_update_of_nodup {l : List (Text × List Int)} (hnd : (l.map Prod.fst).Nodup) {k : Text} {v : List Int} :
    ((∅ : Dict Text (List Int)).update l).get? k = some v ↔ (k, v) ∈ l := by
  rw [← Dict.mem_items, Dict.items_update hnd fun _ _ => Dict.not_mem_empty _]
  exact Iff.rfl

/-- The entries of the devices under some spelling of their names; the filter does not depend on it. -/
theorem get?_diskCounters (access : Text → Bool) (perdisk : Bool) (spell : Text → Text) {devices : List BlockDevice}
    (hnd : (devices.map fun d => spell d.name).Nodup) : ∃ dict,
      diskCounters access perdisk (.ok (devices.map fun d => d.entry (spell d.name))) = .ok dict ∧
        ∀ name fields, dict.get? name = some fields ↔
          ∃ d ∈ devices, (perdisk || isStorage access (spell d.name)) = true ∧ spell d.name = name ∧ (d.entry name).fields = fields := by
  refine ⟨_, rfl, fun name fields => ?_⟩
  rw [get?_update_of_nodup]
  · simp only [List.mem_map, List.mem_filter, Prod.mk.injEq]
    constructor
    · rintro ⟨e, ⟨⟨d, hd, rfl⟩, hpass⟩, rfl, rfl⟩
      exact ⟨d, hd, hpass, rfl, rfl⟩
    · rintro ⟨d, hd, hpass, rfl, rfl⟩
      exact ⟨_, ⟨⟨d, hd, rfl⟩, hpass⟩, rfl, rfl⟩
  · have hkeys : ((devices.map fun d => d.entry (spell d.name)).map RawDisk.name).Nodup := by
      rw [List.map_map]
      exact hnd
    rw [List.map_map]
    exact hkeys.sublist (List.filter_sublist.map _)

section

variable {devices : List BlockDevice} {diskstats : List DiskLine} {walk : List SysDir}

/-- The dictionary of `read_procfs`, -/
theorem procfs_get? (U : UnicodeData) (access : Text → Bool) (perdisk : Bool) (h : SameCounters devices diskstats walk) : ∃ dict,
    diskCounters access perdisk (readProcfs U (terminate 10 (diskstats.map fun l => l.row.text))) = .ok dict ∧
      ∀ name fields, dict.get? name = some fields ↔
        ∃ d ∈ devices, (perdisk || isStorage access d.name) = true ∧ d.name = name ∧ (d.entry name).fields = fields := by
  have hnames : (devices.map BlockDevice.name).Nodup := by
    have hspell := h.distinct
    rw [show (fun d : BlockDevice => sysName d.name) = sysName ∘ BlockDevice.name from rfl, ← List.map_map] at hspell
    exact hspell.of_map
  obtain ⟨dict, hdict, hget⟩ := get?_diskCounters access perdisk id ((h.diskstats.map BlockDevice.name).nodup_iff.2 hnames)
  refine ⟨dict, by rw [readProcfs_ok]; exact hdict, fun name fields => ?_⟩
  rw [hget]
  exact exists_congr fun d => and_congr_left fun _ => h.diskstats.mem_iff

/-- and that of `read_sysfs`. -/
theorem sysfs_get? (U : UnicodeData) (access : Text → Bool) (perdisk : Bool) (h : SameCounters devices diskstats walk) : ∃ dict,
    diskCounters access perdisk (readSysfs U (walk.map SysDir.shown)) = .ok dict ∧
      ∀ name fields, dict.get? name = some fields ↔
        ∃ d ∈ devices, (perdisk || isStorage access (sysName d.name)) = true ∧ sysName d.name = name ∧ (d.entry name).fields = fields := by
  obtain ⟨dict, hdict, hget⟩ := get?_diskCounters access perdisk sysName ((h.walk.map _).nodup_iff.2 h.distinct)
  refine ⟨dict, by rw [readSysfs_ok]; exact hdict, fun name fields => ?_⟩
  rw [hget]
  exact exists_congr fun d => and_congr_left fun _ => h.walk.mem_iff

/-- No name of sysfs has a slash. -/
theorem names_of_sameDict {U : UnicodeData} {access : Text → Bool} (h : SameCounters devices diskstats walk)
    (hsame : SameDict (diskCounters access true (readProcfs U (terminate 10 (diskstats.map fun l => l.row.text))))
      (diskCounters access true (readSysfs U (walk.map SysDir.shown)))) : ∀ d ∈ devices, 47 ∉ d.name := by
  intro d hd hslash
  obtain ⟨dict, dict', hdict, hdict', hget⟩ := hsame
  obtain ⟨c, hc, hprocfs⟩ := procfs_get? U access true h
  obtain ⟨c', hc', hsysfs⟩ := sysfs_get? U access true h
  obtain rfl : dict = c := Except.ok.inj (hdict.symm.trans hc)
  obtain rfl : dict' = c' := Except.ok.inj (hdict'.symm.trans hc')
  have hthere := (hprocfs d.name _).2 ⟨d, hd, rfl, rfl, rfl⟩
  rw [hget, hsysfs] at hthere
  obtain ⟨d', -, -, hname, -⟩ := hthere
  exact slash_notMem_sysName d'.name (hname ▸ hslash)

end

/-- **The readers agree exactly if** no name has a `/`. -/
theorem readers_agree_iff (U : UnicodeData) (access : Text → Bool) (devices : List BlockDevice) (diskstats : List DiskLine)
    (walk : List SysDir) (h : SameCounters devices diskstats walk) :
    (∀ perdisk, SameDict (diskCounters access perdisk (readProcfs U (terminate 10 (diskstats.map fun l => l.row.text))))
      (diskCounters access perdisk (readSysfs U (walk.map SysDir.shown)))) ↔ ∀ d ∈ devices, 47 ∉ d.name := by
  refine ⟨fun hsame => names_of_sameDict h (hsame true), fun hslash perdisk => ?_⟩
  obtain ⟨c, hc, hprocfs⟩ := procfs_get? U access perdisk h
  obtain ⟨c', hc', hsysfs⟩ := sysfs_get? U access perdisk h
  refine ⟨c, c', hc, hc', fun name => Option.ext fun fields => ?_⟩
  rw [hprocfs, hsysfs]
  refine exists_congr fun d => and_congr_right fun hd => ?_
  rw [sysName_eq_self (hslash d hd)]

/-- One disk, listed in both places. -/
def disk (name : Text) (h : Text.IsWord name) : BlockDevice := ⟨name, 104, 0, [9, 1, 80, 7, 5, 2, 40, 6, 0, 12, 13], h, Or.inl rfl⟩

def diskLine (d : BlockDevice) : DiskLine where
  device := d
  row := .ofWords d.words <| by
    intro w hw
    rcases List.mem_cons.1 hw with rfl | hw
    · exact Text.isWord_decimal _
    rcases List.mem_cons.1 hw with rfl | hw
    · exact Text.isWord_decimal _
    rcases List.mem_cons.1 hw with rfl | hw
    · exact d.name_ok
    · obtain ⟨n, -, rfl⟩ := List.mem_map.1 hw
      exact Text.isWord_decimal n
  row_ok := TextRow.words_ofWords _

def sysDir (d : BlockDevice) : SysDir :=
  .device d (text "/sys/block") (.ofWords (d.counters.map Text.decimal) fun w hw => by
    obtain ⟨n, -, rfl⟩ := List.mem_map.1 hw
    exact Text.isWord_decimal n) (TextRow.words_ofWords _)

theorem sameCounters_disk (d : BlockDevice) : SameCounters [d] [diskLine d] [sysDir d] := ⟨List.nodup_singleton _, .refl _, .refl _⟩

theorem readers_differ : ¬∀ (U : UnicodeData) (access : Text → Bool) (devices : List BlockDevice) (diskstats : List DiskLine)
    (walk : List SysDir), SameCounters devices diskstats walk → ∀ perdisk,
      SameDict (diskCounters access perdisk (readProcfs U (terminate 10 (diskstats.map fun l => l.row.text))))
        (diskCounters access perdisk (readSysfs U (walk.map SysDir.shown))) := by
  intro h
  have hsame := h .ascii (fun _ => true) [disk (text "cciss/c0d0") ⟨by decide, by decide⟩] _ _ (sameCounters_disk _) true
  have hname := names_of_sameDict (sameCounters_disk _) hsame _ List.mem_cons_self
  exact absurd hname (by decide)

theorem readers_agree_sda : SameDict
    (diskCounters (fun _ => true) false
      (readProcfs .ascii (terminate 10 ([diskLine (disk (text "sda") ⟨by decide, by decide⟩)].map fun l => l.row.text))))
    (diskCounters (fun _ => true) false (readSysfs .ascii ([sysDir (disk (text "sda") ⟨by decide, by decide⟩)].map SysDir.shown))) :=
  (readers_agree_iff .ascii (fun _ => true) [disk (text "sda") ⟨by decide, by decide⟩] _ _ (sameCounters_disk _)).2
    (by decide) false

end Psutil.Linux
