import Psutil.Linux.RootFs

/-!
# `disk_partitions()` on Linux (`_pslinux.py:1217-1273`)

| here | there |
| --- | --- |
| `filesystemsLine`, `fstypesFromFilesystems` | `fstypes_from_filesystems` |
| `afterDash`, `fstypesFromMountinfo` | `fstypes_from_mountinfo` |
| `diskPartitions` | `disk_partitions`; `mounts` is `_psutil.disk_partitions` on a path |

A set is a list. `diskPartitions_physical`: without `all` the mounts that have a device and a physical file system are kept, in their
order; when the table of file systems may not be read, all that have a device are.
-/

namespace Psutil.Linux

open Lib Common

/-! ## The code -/

structure Partition where
  device : Text
  mountpoint : Text
  fstype : Text
  opts : Text
  deriving DecidableEq

structure PartitionsHost where
  procfsPath : Text
  filesystems : Except Errno Text
  mountinfo : Except Errno Text
  /-- `os.path.isfile('/etc/mtab')`. -/
  etcMtab : Bool
  realpath : Text → Text
  mounts : Text → Except Exc (List Partition)
  root : RootHost

def nodev : Text := text "nodev"

def zfs : Text := text "zfs"

/-- What a line adds to `fstypes`. -/
def filesystemsLine (line : Text) : Except Exc (List Text) :=
  let line := Text.strip line
  if !nodev.isPrefixOf line then .ok [line]
  else match (line.splitOn 9)[1]? with
    | some fstype => .ok (if fstype = zfs then [zfs] else [])
    | none => .error .indexError

def fstypesFromFilesystems (t : Text) : Except Exc (List Text) := ((lines t).mapM filesystemsLine).map List.flatten

/-- The words behind a dash. -/
def afterDash : List Text → List Text
  | a :: b :: words => if a = text "-" then b :: afterDash (b :: words) else afterDash (b :: words)
  | _ => []

def fstypesFromMountinfo (t : Text) : List Text := (lines t).flatMap fun line => afterDash (Text.split (Text.strip line))

/-- `fstypes` when `all` is false. -/
def fstypes (h : PartitionsHost) : Except Exc (List Text) :=
  match h.filesystems with
  | .ok t => fstypesFromFilesystems t
  | .error errno =>
    -- `PermissionError`
    if errno = .eacces ∨ errno = .eperm then (h.mountinfo.mapError .osError).map fstypesFromMountinfo
    else .error (.osError errno)

def mountsPath (h : PartitionsHost) : Text :=
  if h.procfsPath = text "/proc" ∧ h.etcMtab then h.realpath (text "/etc/mtab") else h.realpath (h.procfsPath ++ text "/self/mounts")

/-- `device` in the result. -/
def realDevice (U : UnicodeData) (h : PartitionsHost) (device : Text) : Text :=
  let device := if device = text "none" then [] else device
  if device = text "/dev/root" ∨ device = text "rootfs" then (h.root.find U).getD device else device

def diskPartitions (U : UnicodeData) (h : PartitionsHost) (all : Bool) : Except Exc (List Partition) := do
  let fstypes ← if all then .ok [] else fstypes h
  let partitions ← h.mounts (mountsPath h)
  return partitions.filterMap fun p =>
    let device := realDevice U h p.device
    if !all && (device = [] || p.fstype ∉ fstypes) then none else some { p with device := device }

/-! ## The files -/

/-- A line of `/proc/filesystems`. -/
structure FsType where
  nodev : Bool
  name : Text
  name_ok : Text.IsWord name
  plain : Linux.nodev.isPrefixOf name = false

def FsType.text (f : FsType) : Text := (if f.nodev then Linux.nodev else []) ++ 9 :: f.name

/-- It is on a device, or `zfs`. -/
def FsType.Physical (f : FsType) : Prop := f.nodev = false ∨ f.name = zfs

instance (f : FsType) : Decidable f.Physical := inferInstanceAs (Decidable (_ ∨ _))

/-- A line of `mountinfo`: words, a dash, the file system, the source and the options. -/
structure MountLine where
  row : TextRow
  before : List Text
  fstype : Text
  after : List Text
  row_ok : row.words = before ++ Common.text "-" :: fstype :: after

/-- The partition is on a device, and its file system is one of these. -/
def Partition.On (p : Partition) (names : List Text) : Prop := p.device ≠ [] ∧ p.fstype ∈ names

instance (p : Partition) (names : List Text) : Decidable (p.On names) := inferInstanceAs (Decidable (_ ∧ _))

/-! ## The names of the file systems -/

theorem Text.strip_of_ends {c d : Nat} {t rest init : Text} (hfirst : t = c :: rest) (hlast : t = init ++ [d]) (hc : Text.isSpace c = false)
    (hd : Text.isSpace d = false) : Text.strip t = t := by
  have hleft : t.dropWhile Text.isSpace = t := by rw [hfirst, List.dropWhile_cons_of_neg (by simp [hc])]
  have hright : t.reverse.dropWhile Text.isSpace = t.reverse := by
    rw [hlast, List.reverse_append, List.reverse_singleton, List.singleton_append, List.dropWhile_cons_of_neg (by simp [hd])]
  rw [Text.strip, hleft, hright, List.reverse_reverse]

/-- The words are those without the blanks around them. -/
theorem Text.split_strip (t : Text) : Text.split (Text.strip t) = Text.split t := by
  obtain ⟨g, g', hg, hg', ht⟩ := Text.exists_pad_strip t
  have hblank : ∀ {x : Text}, (∀ b ∈ x, Text.isSpace b = true) → Text.split x = [] := fun {x} hx => by
    have := Text.split_blanks hx []
    rwa [List.append_nil] at this
  conv_rhs => rw [ht, Text.split_blanks hg]
  cases g' with
  | nil => rw [List.append_nil]
  | cons b g' =>
    have hb := hg' b List.mem_cons_self
    rw [Text.split, Text.split, wordsBy_append hb, show wordsBy Text.isSpace g' = [] from hblank fun c hc => hg' c (List.mem_cons_of_mem b hc),
      List.append_nil]

theorem filesystemsLine_text (f : FsType) : filesystemsLine (f.text ++ [10]) = .ok (if f.Physical then [f.name] else []) := by
  obtain ⟨isNodev, name, hname, hplain⟩ := f
  cases isNodev with
  | false =>
    have hstrip : Text.strip (9 :: name ++ [10]) = name := by
      have htab : ∀ b ∈ ([9] : Text), b = 32 ∨ b = 9 := by decide
      rw [Text.strip_newline]
      exact Text.strip_append htab hname
    have hphysical : FsType.Physical ⟨false, name, hname, hplain⟩ := Or.inl rfl
    simp only [filesystemsLine, FsType.text, Bool.false_eq_true, if_false, List.nil_append, hstrip, hplain, Bool.not_false, if_true,
      if_pos hphysical]
  | true =>
    have hword : ∀ c ∈ nodev, Text.isSpace c = false := by decide
    have hstrip : Text.strip (nodev ++ 9 :: name ++ [10]) = nodev ++ 9 :: name := by
      obtain ⟨init, last, hlast⟩ : ∃ init last, name = init ++ [last] := ⟨_, _, (List.dropLast_append_getLast hname.1).symm⟩
      have hspace : Text.isSpace last = false := hname.2 last (by simp [hlast])
      have hlast : nodev ++ 9 :: name = (nodev ++ 9 :: init) ++ [last] := by simp [hlast]
      rw [Text.strip_newline]
      exact Text.strip_of_ends (rfl : _ = 110 :: _) hlast (by decide) hspace
    have hpre : nodev.isPrefixOf (nodev ++ 9 :: name) = true := List.isPrefixOf_iff_prefix.2 (List.prefix_append _ _)
    have htab : ∀ t : Text, (∀ c ∈ t, Text.isSpace c = false) → 9 ∉ t := fun t ht hc => absurd (ht 9 hc) (by decide)
    have hsplit : (nodev ++ 9 :: name).splitOn 9 = [nodev, name] := by
      rw [splitOn_append_cons, splitOn_of_notMem (htab _ hword), splitOn_of_notMem (htab _ hname.2)]
      rfl
    have hphysical : FsType.Physical ⟨true, name, hname, hplain⟩ ↔ name = zfs := by simp [FsType.Physical]
    simp only [filesystemsLine, FsType.text, if_true, hstrip, hpre, Bool.not_true, Bool.false_eq_true, if_false, hsplit, hphysical]
    split_ifs with hzfs
    · simp [hzfs]
    · simp [hzfs]

/-- The physical file systems that the table lists. -/
def physical (fss : List FsType) : List Text := (fss.filter fun f => f.Physical).map FsType.name

theorem fstypesFromFilesystems_text (fss : List FsType) : fstypesFromFilesystems (terminate 10 (fss.map FsType.text)) = .ok (physical fss) := by
  have hnewline : ∀ t ∈ fss.map FsType.text, 10 ∉ t := by
    intro t ht hc
    obtain ⟨f, -, rfl⟩ := List.mem_map.1 ht
    rcases List.mem_append.1 hc with hc | hc
    · split_ifs at hc
      · exact absurd hc (by decide)
      · cases hc
    · rcases List.mem_cons.1 hc with hc | hc
      · cases hc
      · exact absurd (f.name_ok.2 10 hc) (by decide)
  have hflat : ∀ l : List FsType, (l.map fun f => if f.Physical then [f.name] else []).flatten = physical l := by
    intro l
    induction l with
    | nil => rfl
    | cons f l ih =>
      rw [List.map_cons, List.flatten_cons, ih, physical, physical, List.filter_cons]
      by_cases hf : f.Physical <;> simp [hf]
  have hlines : fss.mapM (filesystemsLine ∘ (· ++ [10]) ∘ FsType.text) = .ok (fss.map fun f => if f.Physical then [f.name] else []) :=
    mapM_ok fun f _ => filesystemsLine_text f
  rw [fstypesFromFilesystems, lines_terminate hnewline, List.map_map, List.mapM_map, hlines, Except.map, hflat]

theorem mem_afterDash (fstype : Text) (after : List Text) : ∀ before : List Text, fstype ∈ afterDash (before ++ text "-" :: fstype :: after)
  | [] => by
    rw [List.nil_append, afterDash, if_pos rfl]
    exact List.mem_cons_self
  | [w] => by
    have ih : fstype ∈ afterDash (text "-" :: fstype :: after) := mem_afterDash fstype after []
    rw [List.singleton_append, afterDash]
    split_ifs
    · exact List.mem_cons_of_mem _ ih
    · exact ih
  | w :: v :: before => by
    have ih : fstype ∈ afterDash (v :: (before ++ text "-" :: fstype :: after)) := mem_afterDash fstype after (v :: before)
    rw [List.cons_append, List.cons_append, afterDash]
    split_ifs
    · exact List.mem_cons_of_mem _ ih
    · exact ih

/-- The file system of every mount is found. -/
theorem mem_fstypesFromMountinfo {mounts : List MountLine} {m : MountLine} (hm : m ∈ mounts) :
    m.fstype ∈ fstypesFromMountinfo (terminate 10 (mounts.map fun m => m.row.text)) := by
  have hlines := lines_rows (mounts.map MountLine.row)
  rw [List.map_map, List.map_map] at hlines
  rw [fstypesFromMountinfo, show (fun m : MountLine => m.row.text) = TextRow.text ∘ MountLine.row from rfl, hlines, List.mem_flatMap]
  refine ⟨m.row.text ++ [10], List.mem_map.2 ⟨m, hm, rfl⟩, ?_⟩
  rw [Text.split_strip, m.row.split_text (by decide), m.row_ok]
  exact mem_afterDash m.fstype m.after m.before

/-- The partitions with `all`, and of those the ones that stay without it. -/
theorem diskPartitions_filter (U : UnicodeData) {h : PartitionsHost} {names : List Text} (hnames : fstypes h = .ok names) :
    diskPartitions U h false = (diskPartitions U h true).map (List.filter fun p => p.On names) := by
  cases hmounts : h.mounts (mountsPath h) with
  | error e => simp only [diskPartitions, hnames, hmounts, Bool.false_eq_true, if_false, if_true, bind, Except.bind, Except.map]
  | ok partitions =>
    simp only [diskPartitions, hnames, hmounts, Bool.false_eq_true, if_false, if_true, bind, Except.bind, pure, Except.pure, Except.map,
      List.filter_filterMap]
    congr 2
    funext p
    by_cases hdevice : realDevice U h p.device = [] <;> by_cases hfstype : p.fstype ∈ names <;>
      simp [hdevice, hfstype, Partition.On, Option.filter]

/-- **What is physical, in the order of the mounts.** With the table of file systems, the partitions are those of `all=True` that have a
device and whose file system needs one, or is `zfs`. Where the table may not be read, `mountinfo` takes its place, and all that have a
device are kept. The order and the numbers of times are those of the mounts. -/
theorem diskPartitions_physical (U : UnicodeData) (h : PartitionsHost) :
    (∀ fss : List FsType, h.filesystems = .ok (terminate 10 (fss.map FsType.text)) →
        diskPartitions U h false = (diskPartitions U h true).map (List.filter fun p => p.On (physical fss))) ∧
      ∀ (errno : Errno) (mounts : List MountLine), h.filesystems = .error errno → errno = .eacces ∨ errno = .eperm →
        h.mountinfo = .ok (terminate 10 (mounts.map fun m => m.row.text)) →
        (∀ partitions, h.mounts (mountsPath h) = .ok partitions → ∀ p ∈ partitions, ∃ m ∈ mounts, m.fstype = p.fstype) →
          diskPartitions U h false = (diskPartitions U h true).map (List.filter fun p => p.device ≠ []) := by
  constructor
  · intro fss hfss
    refine diskPartitions_filter U ?_
    rw [fstypes, hfss]
    exact fstypesFromFilesystems_text fss
  · intro errno mounts herrno hperm hmountinfo hsame
    have hnames : fstypes h = .ok (fstypesFromMountinfo (terminate 10 (mounts.map fun m => m.row.text))) := by
      rw [fstypes, herrno, hmountinfo]
      exact if_pos hperm
    rw [diskPartitions_filter U hnames]
    cases hmounts : h.mounts (mountsPath h) with
    | error e => simp only [diskPartitions, hmounts, if_true, bind, Except.bind, Except.map]
    | ok partitions =>
      simp only [diskPartitions, hmounts, if_true, bind, Except.bind, pure, Except.pure, Except.map]
      congr 1
      refine List.filter_congr fun p hp => ?_
      obtain ⟨q, hq, hqp⟩ := List.mem_filterMap.1 hp
      obtain rfl : { q with device := realDevice U h q.device } = p := by simpa using hqp
      obtain ⟨m, hm, hmq⟩ := hsame partitions hmounts q hq
      have hin := mem_fstypesFromMountinfo hm
      rw [hmq] at hin
      simp [Partition.On, hin]

def someTypes : List FsType :=
  [⟨true, text "proc", ⟨by decide, by decide⟩, by decide⟩, ⟨false, text "ext4", ⟨by decide, by decide⟩, by decide⟩,
    ⟨true, text "zfs", ⟨by decide, by decide⟩, by decide⟩]

/-- The root file system is on `/dev/root`. -/
def someMounts : PartitionsHost where
  procfsPath := text "/proc"
  filesystems := .ok (terminate 10 (someTypes.map FsType.text))
  mountinfo := .error .eacces
  etcMtab := true
  realpath := id
  mounts := fun _ => .ok [⟨text "/dev/root", text "/", text "ext4", text "rw"⟩, ⟨text "none", text "/proc", text "proc", text "rw"⟩,
    ⟨text "tank", text "/tank", text "zfs", text "rw"⟩]
  root := oneDiskHost

theorem diskPartitions_physical_some : diskPartitions UnicodeData.ascii someMounts false =
    .ok [⟨text "/dev/sda1", text "/", text "ext4", text "rw"⟩, ⟨text "tank", text "/tank", text "zfs", text "rw"⟩] :=
  ((diskPartitions_physical UnicodeData.ascii someMounts).1 someTypes rfl).trans (by decide +kernel)

end Psutil.Linux
