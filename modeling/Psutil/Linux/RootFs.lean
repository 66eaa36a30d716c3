import Psutil.Linux.DiskStats

/-!
# `RootFsDeviceFinder` (`_pslinux.py:1142-1214`)

| here | there |
| --- | --- |
| `partitionLine`, `askProcPartitions` | `ask_proc_partitions` |
| `ueventLine`, `askSysDevBlock` | `ask_sys_dev_block` |
| `classFile`, `askSysClassBlock` | `ask_sys_class_block` |
| `RootHost.find` | `find` |

Three places name the devices of the machine by number. Some names have a slash (`cciss/c0d0p1`); it is an exclamation mark in the
names of directories under `/sys`, from which the third place takes them. `find_root`: `find` gives the path of the root device, and
no other, whichever of the three can be read; only the third one does not find a name with a slash.
-/

namespace Psutil.Linux

open Lib Common

/-! ## The code -/

/-- `x.isdigit()`. -/
def Text.isdigit (U : UnicodeData) (x : Text) : Bool := x ≠ [] && x.all fun c => (U.decimal c).isSome

/-- `int(x) if x.isdigit() else None`. -/
def Text.number? (U : UnicodeData) (x : Text) : Option Int := if Text.isdigit U x then (Text.int U x).toOption else none

/-- The paths that exist, the numbers of `/`, and the files or the errors of opening them. -/
structure RootHost where
  major : Nat
  minor : Nat
  partitions : Except Errno Text
  uevent : Except Errno Text
  /-- The matches of `/sys/class/block/*/dev`. -/
  classBlock : List (Text × Except Errno Text)
  existing : Text → Bool

def devPath (name : Text) : Text := text "/dev/" ++ name

def partitionLine (U : UnicodeData) (h : RootHost) (line : Text) : Option Text :=
  let fields := Text.split line
  if fields.length < 4 then none
  else
    let name := fields.getD 3 []
    if Text.number? U (fields.getD 0 []) = some (h.major : Int) ∧ Text.number? U (fields.getD 1 []) = some (h.minor : Int) ∧ name ≠ []
    then some (devPath name) else none

def askProcPartitions (U : UnicodeData) (h : RootHost) : Except Errno (Option Text) :=
  h.partitions.map fun t => ((lines t).drop 2).findSome? (partitionLine U h)

def devname : Text := text "DEVNAME="

/-- `t.rpartition(sep)[2]`. -/
def afterLast (sep t : Text) : Text :=
  match (t.tails.filter fun u => sep.isPrefixOf u).getLast? with
  | some u => u.drop sep.length
  | none => t

def ueventLine (line : Text) : Option Text :=
  if devname.isPrefixOf line then
    let name := afterLast devname (Text.strip line)
    if name ≠ [] then some (devPath name) else none
  else none

def askSysDevBlock (h : RootHost) : Except Errno (Option Text) := h.uevent.map fun t => (lines t).findSome? ueventLine

/-- `f"{self.major}:{self.minor}"`. -/
def needle (major minor : Nat) : Text := Text.decimal major ++ 58 :: Text.decimal minor

/-- `os.path.dirname(p)` of a path of the glob. -/
def dirname (p : Text) : Text := p.take (p.length - (basename p).length - 1)

def classFile (h : RootHost) (file : Text) (data : Text) : Option Text :=
  if Text.strip data = needle h.major h.minor then some (devPath (basename (dirname file))) else none

def askSysClassBlock (h : RootHost) : List (Text × Except Errno Text) → Except Errno (Option Text)
  | [] => .ok none
  -- race condition
  | (_, .error .enoent) :: files => askSysClassBlock h files
  | (_, .error errno) :: _ => .error errno
  | (file, .ok data) :: files => match classFile h file data with
    | some path => .ok (some path)
    | none => askSysClassBlock h files

/-- `if path is None: try: ... except OSError`. -/
def orAsk (path : Option Text) (ask : Except Errno (Option Text)) : Option Text :=
  match path, ask with
  | some path, _ => some path
  | none, .ok path => path
  | none, .error _ => none

def RootHost.find (U : UnicodeData) (h : RootHost) : Option Text :=
  let path := orAsk (orAsk (orAsk none (askProcPartitions U h)) (askSysDevBlock h)) (askSysClassBlock h h.classBlock)
  path.filter h.existing

example : afterLast devname (text "DEVNAME=sda1") = text "sda1" := by decide

/-! ## The machine -/

structure BlockDev where
  major : Nat
  minor : Nat
  name : Text
  name_ok : Text.IsWord name
  key_notInfix : ¬devname <:+: name

def BlockDev.number (d : BlockDev) : Nat × Nat := (d.major, d.minor)

structure BlockTable where
  devices : List BlockDev
  distinct : (devices.map BlockDev.number).Nodup

/-- A line of `/proc/partitions`. -/
structure PartitionLine where
  device : BlockDev
  blocks : Nat
  row : TextRow
  row_ok : row.words = [Text.decimal device.major, Text.decimal device.minor, Text.decimal blocks, device.name]

/-- The file, below its two lines of heading. -/
def partitionsText (header blank : Text) (rows : List PartitionLine) : Text :=
  terminate 10 (header :: blank :: rows.map fun r => r.row.text)

/-- `uevent` of a device: its name, between lines with other keys. -/
def ueventText (d : BlockDev) (before after : List Text) : Text := terminate 10 (before ++ (devname ++ d.name) :: after)

/-- The file of a device below `/sys/class/block`. -/
def classPath (d : BlockDev) : Text := text "/sys/class/block/" ++ sysName d.name ++ text "/dev"

def classText (d : BlockDev) : Text := needle d.major d.minor ++ [10]

/-- A line of `uevent` about something else. -/
def OtherKey (line : Text) : Prop := 10 ∉ line ∧ devname.isPrefixOf (line ++ [10]) = false

/-- The three places tell the truth about the machine, if they can be read at all. -/
structure RootHost.Shows (h : RootHost) (t : BlockTable) : Prop where
  partitions : ∀ x, h.partitions = .ok x → ∃ header blank rows, 10 ∉ header ∧ 10 ∉ blank ∧ x = partitionsText header blank rows ∧
    ∀ r ∈ rows, r.device ∈ t.devices
  uevent : ∀ x, h.uevent = .ok x → ∃ d ∈ t.devices, d.number = (h.major, h.minor) ∧ ∃ before after, x = ueventText d before after ∧
    ∀ l ∈ before ++ after, OtherKey l
  classBlock : ∀ file ∈ h.classBlock, (∃ d ∈ t.devices, file = (classPath d, .ok (classText d))) ∨ ∃ errno, file.2 = .error errno

/-- A file that can be read has the name of the device. -/
def RootHost.Names (h : RootHost) (d : BlockDev) : Prop :=
  (∃ header blank rows, 10 ∉ header ∧ 10 ∉ blank ∧ h.partitions = .ok (partitionsText header blank rows) ∧ ∃ r ∈ rows, r.device = d) ∨
    ∃ x, h.uevent = .ok x

/-- There is a directory for the device, and no other one raises. -/
def RootHost.HasDir (h : RootHost) (d : BlockDev) : Prop :=
  (classPath d, .ok (classText d)) ∈ h.classBlock ∧ ∀ file ∈ h.classBlock, ∀ errno, file.2 = .error errno → errno = .enoent

/-- `p` is the path that the directory of the root device gives. -/
def RootHost.IsRoot (h : RootHost) (t : BlockTable) (p : Text) : Prop :=
  ∃ d ∈ t.devices, d.number = (h.major, h.minor) ∧ p = devPath (sysName d.name)

/-! ## `/proc/partitions` -/

theorem Text.strip_newline (t : Text) : Text.strip (t ++ [10]) = Text.strip t := by
  have hnil : ∀ b ∈ ([] : Text), Text.isSpace b = true := by simp
  have hnewline : ∀ b ∈ ([10] : Text), Text.isSpace b = true := by decide
  exact Text.strip_pad hnil hnewline t

theorem Text.number?_decimal (U : UnicodeData) (n : Nat) : Text.number? U (Text.decimal n) = some (n : Int) := by
  have hdigit : Text.isdigit U (Text.decimal n) = true := by
    rw [Text.isdigit, Bool.and_eq_true, decide_eq_true_eq, List.all_eq_true]
    refine ⟨Text.decimal_ne_nil n, fun c hc => ?_⟩
    have hsmall := Text.digit_of_mem_decimal hc
    rw [U.decimal_ascii c (by omega), if_pos (by omega)]
    rfl
  rw [Text.number?, if_pos hdigit, Text.int_decimal]
  rfl

theorem partitionLine_row (U : UnicodeData) (h : RootHost) (r : PartitionLine) : partitionLine U h (r.row.text ++ [10]) =
    if r.device.number = (h.major, h.minor) then some (devPath r.device.name) else none := by
  have hsplit : Text.split (r.row.text ++ [10]) = r.row.words := r.row.split_text (by decide)
  simp only [partitionLine, hsplit, r.row_ok, List.getD_cons_zero, List.getD_cons_succ, Text.number?_decimal]
  rw [if_neg (by simp)]
  simp [BlockDev.number, Prod.ext_iff, r.device.name_ok.1]

theorem lines_partitionsText {header blank : Text} (hheader : 10 ∉ header) (hblank : 10 ∉ blank) (rows : List PartitionLine) :
    (lines (partitionsText header blank rows)).drop 2 = rows.map fun r => r.row.text ++ [10] := by
  have hnewline : ∀ l ∈ header :: blank :: rows.map fun r => r.row.text, 10 ∉ l := by
    simp only [List.forall_mem_cons, List.forall_mem_map]
    exact ⟨hheader, hblank, fun r _ => r.row.newline_notMem⟩
  rw [partitionsText, lines_terminate hnewline]
  simp

theorem askProcPartitions_text (U : UnicodeData) {h : RootHost} {header blank : Text} (hheader : 10 ∉ header) (hblank : 10 ∉ blank)
    {rows : List PartitionLine} (hok : h.partitions = .ok (partitionsText header blank rows)) : askProcPartitions U h =
      .ok (rows.findSome? fun r => if r.device.number = (h.major, h.minor) then some (devPath r.device.name) else none) := by
  rw [askProcPartitions, hok, Except.map, lines_partitionsText hheader hblank, List.findSome?_map]
  congr 2
  exact funext fun r => partitionLine_row U h r

theorem askProcPartitions_sound (U : UnicodeData) {h : RootHost} {t : BlockTable} (hs : h.Shows t) {p : Text}
    (hp : askProcPartitions U h = .ok (some p)) :
    ∃ d ∈ t.devices, d.number = (h.major, h.minor) ∧ h.Names d ∧ p = devPath d.name := by
  cases hfile : h.partitions with
  | error errno =>
    rw [askProcPartitions, hfile] at hp
    cases hp
  | ok x =>
    obtain ⟨header, blank, rows, hheader, hblank, rfl, hrows⟩ := hs.partitions x hfile
    rw [askProcPartitions_text U hheader hblank hfile, Except.ok.injEq] at hp
    obtain ⟨r, hr, hrow⟩ := List.exists_of_findSome?_eq_some hp
    split_ifs at hrow with hnumber
    exact ⟨r.device, hrows r hr, hnumber, Or.inl ⟨header, blank, rows, hheader, hblank, hfile, r, hr, rfl⟩, (Option.some.inj hrow).symm⟩

/-! ## `/sys/dev/block` -/

/-- The key does not overlap with itself. -/
theorem devname_border : ∀ x ∈ devname.tails, x.isPrefixOf devname = true → x = [] ∨ x = devname := by decide

theorem afterLast_devname {name : Text} (h : ¬devname <:+: name) : afterLast devname (devname ++ name) = name := by
  have hone : ∀ u ∈ (devname ++ name).tails.filter fun u => devname.isPrefixOf u, u = devname ++ name := by
    intro u hu
    obtain ⟨hu, hpre⟩ := List.mem_filter.1 hu
    obtain ⟨w, hw⟩ := (List.mem_tails _ _).1 hu
    obtain ⟨v, rfl⟩ := List.isPrefixOf_iff_prefix.1 hpre
    rcases List.append_eq_append_iff.1 hw with ⟨x, hx, hrest⟩ | ⟨x, -, hrest⟩
    · -- it starts in the key
      have htail : x ∈ devname.tails := (List.mem_tails _ _).2 ⟨w, hx.symm⟩
      have hprefix : x <+: devname :=
        List.prefix_of_prefix_length_le ⟨name, hrest.symm⟩ (List.prefix_append _ v) (by simp [hx])
      rcases devname_border x htail (List.isPrefixOf_iff_prefix.2 hprefix) with rfl | rfl
      · exact absurd ⟨[], v, by simpa using hrest⟩ h
      · exact hrest
    · exact absurd ⟨x, v, by simp [hrest]⟩ h
  have hmem : devname ++ name ∈ (devname ++ name).tails.filter fun u => devname.isPrefixOf u :=
    List.mem_filter.2 ⟨(List.mem_tails _ _).2 List.suffix_rfl, List.isPrefixOf_iff_prefix.2 (List.prefix_append _ _)⟩
  have hlast : ((devname ++ name).tails.filter fun u => devname.isPrefixOf u).getLast? = some (devname ++ name) := by
    rw [List.getLast?_eq_some_getLast (List.ne_nil_of_mem hmem), hone _ (List.getLast_mem _)]
  rw [afterLast, hlast]
  exact List.drop_left

theorem ueventLine_name (d : BlockDev) : ueventLine (devname ++ d.name ++ [10]) = some (devPath d.name) := by
  have hpre : devname.isPrefixOf (devname ++ d.name ++ [10]) = true := by
    rw [List.isPrefixOf_iff_prefix, List.append_assoc]
    exact List.prefix_append _ _
  have hword : Text.IsWord (devname ++ d.name) := by
    refine ⟨by simp [d.name_ok.1], fun c hc => ?_⟩
    rcases List.mem_append.1 hc with hc | hc
    · have hkey : ∀ c ∈ devname, Text.isSpace c = false := by decide
      exact hkey c hc
    · exact d.name_ok.2 c hc
  have hstrip : Text.strip (devname ++ d.name ++ [10]) = devname ++ d.name := by
    rw [Text.strip_newline, Text.strip_word hword]
  rw [ueventLine, if_pos hpre, hstrip, afterLast_devname d.key_notInfix]
  exact if_pos d.name_ok.1

theorem askSysDevBlock_text {h : RootHost} {d : BlockDev} {before after : List Text} (hok : h.uevent = .ok (ueventText d before after))
    (hother : ∀ l ∈ before ++ after, OtherKey l) : askSysDevBlock h = .ok (some (devPath d.name)) := by
  have hname : 10 ∉ devname ++ d.name := by
    rw [List.mem_append, not_or]
    exact ⟨by decide, fun hc => absurd (d.name_ok.2 10 hc) (by decide)⟩
  have hnewline : ∀ l ∈ before ++ (devname ++ d.name) :: after, 10 ∉ l := by
    intro l hl
    rcases List.mem_append.1 hl with hl | hl
    · exact (hother l (List.mem_append_left _ hl)).1
    · rcases List.mem_cons.1 hl with rfl | hl
      · exact hname
      · exact (hother l (List.mem_append_right _ hl)).1
  have hbefore : (before.map (· ++ [10])).findSome? ueventLine = none := by
    rw [List.findSome?_eq_none_iff]
    intro l hl
    obtain ⟨k, hk, rfl⟩ := List.mem_map.1 hl
    rw [ueventLine, (hother k (List.mem_append_left _ hk)).2]
    rfl
  rw [askSysDevBlock, hok, Except.map, ueventText, lines_terminate hnewline, List.map_append, List.map_cons, List.findSome?_append, hbefore,
    List.findSome?_cons, ueventLine_name]
  rfl

/-! ## `/sys/class/block` -/

theorem decimal_injective {n n' : Nat} (h : Text.decimal n = Text.decimal n') : n = n' := by
  have hint := (Text.int_decimal UnicodeData.ascii n).symm.trans ((congrArg _ h).trans (Text.int_decimal UnicodeData.ascii n'))
  exact Int.ofNat.inj (Except.ok.inj hint)

theorem needle_injective {a b a' b' : Nat} (h : needle a b = needle a' b') : a = a' ∧ b = b' := by
  have hcolon : ∀ n, 58 ∉ Text.decimal n := fun n hc => absurd (Text.digit_of_mem_decimal hc).2 (by decide)
  have htake : ∀ n m, (needle n m).takeWhile (· ≠ 58) = Text.decimal n := fun n m => by
    rw [needle, List.takeWhile_append_of_pos fun c hc => by simpa using ne_of_mem_of_not_mem hc (hcolon n)]
    simp
  have hfirst := congrArg (List.takeWhile (· ≠ 58)) h
  rw [htake, htake] at hfirst
  obtain rfl := decimal_injective hfirst
  exact ⟨rfl, decimal_injective (List.cons.inj (List.append_cancel_left h)).2⟩

theorem isWord_needle (major minor : Nat) : Text.IsWord (needle major minor) := by
  refine ⟨by simp [needle], fun c hc => ?_⟩
  rcases List.mem_append.1 hc with hc | hc
  · exact (Text.isWord_decimal major).2 c hc
  · rcases List.mem_cons.1 hc with rfl | hc
    · decide
    · exact (Text.isWord_decimal minor).2 c hc

theorem basename_dirname (d : BlockDev) : basename (dirname (classPath d)) = sysName d.name := by
  have hfile : basename (classPath d) = text "dev" := by
    have hsplit : classPath d = (text "/sys/class/block/" ++ sysName d.name ++ text "/") ++ text "dev" := by
      simp only [classPath, List.append_assoc]
      rfl
    rw [hsplit, basename_append (Or.inr (by rw [List.getLast?_append]; rfl)) (by decide)]
  have hdir : dirname (classPath d) = text "/sys/class/block/" ++ sysName d.name := by
    have hlen : (classPath d).length - (text "dev").length - 1 = (text "/sys/class/block/" ++ sysName d.name).length := by
      simp only [classPath, List.length_append, show (text "/dev").length = 4 from rfl, show (text "dev").length = 3 from rfl]
      omega
    rw [dirname, hfile, hlen, classPath, List.take_left]
  rw [hdir, basename_append (Or.inr (by decide)) (slash_notMem_sysName d.name)]

theorem classFile_device (h : RootHost) (d : BlockDev) : classFile h (classPath d) (classText d) =
    if d.number = (h.major, h.minor) then some (devPath (sysName d.name)) else none := by
  have hstrip : Text.strip (classText d) = needle d.major d.minor := by
    rw [classText, Text.strip_newline, Text.strip_word (isWord_needle _ _)]
  have hiff : needle d.major d.minor = needle h.major h.minor ↔ d.number = (h.major, h.minor) :=
    ⟨fun he => Prod.ext (needle_injective he).1 (needle_injective he).2, fun he => by
      rw [(Prod.mk.inj he).1, (Prod.mk.inj he).2]⟩
  rw [classFile, hstrip, basename_dirname]
  simp only [hiff]

theorem askSysClassBlock_sound {h : RootHost} {t : BlockTable} {p : Text} : ∀ {files : List (Text × Except Errno Text)},
    (∀ file ∈ files, (∃ d ∈ t.devices, file = (classPath d, .ok (classText d))) ∨ ∃ errno, file.2 = .error errno) →
      askSysClassBlock h files = .ok (some p) → h.IsRoot t p
  | [], _, hp => by cases hp
  | file :: files, hfiles, hp => by
    rw [List.forall_mem_cons] at hfiles
    obtain ⟨path, reply⟩ := file
    rcases hfiles.1 with ⟨d, hd, heq⟩ | ⟨errno, rfl⟩
    · cases heq
      rw [askSysClassBlock, classFile_device] at hp
      split_ifs at hp with hnumber
      · cases hp
        exact ⟨d, hd, hnumber, rfl⟩
      · exact askSysClassBlock_sound hfiles.2 hp
    · cases errno with
      | enoent => exact askSysClassBlock_sound hfiles.2 hp
      | _ => cases hp

theorem askSysClassBlock_complete {h : RootHost} {t : BlockTable} {d : BlockDev} (hnumber : d.number = (h.major, h.minor)) :
    ∀ {files : List (Text × Except Errno Text)},
      (∀ file ∈ files, (∃ d ∈ t.devices, file = (classPath d, .ok (classText d))) ∨ ∃ errno, file.2 = .error errno) →
      (∀ file ∈ files, ∀ errno, file.2 = .error errno → errno = .enoent) → (classPath d, .ok (classText d)) ∈ files →
        ∃ p, askSysClassBlock h files = .ok (some p)
  | [], _, _, hmem => absurd hmem List.not_mem_nil
  | file :: files, hfiles, hgone, hmem => by
    rw [List.forall_mem_cons] at hfiles hgone
    obtain ⟨path, reply⟩ := file
    rcases hfiles.1 with ⟨d', -, heq⟩ | ⟨errno, rfl⟩
    · cases heq
      rw [askSysClassBlock, classFile_device]
      split_ifs with hd'
      · exact ⟨_, rfl⟩
      · refine askSysClassBlock_complete hnumber hfiles.2 hgone.2 ((List.mem_cons.1 hmem).resolve_left fun heq => hd' ?_)
        have htext : needle d.major d.minor ++ [10] = needle d'.major d'.minor ++ [10] := Except.ok.inj (Prod.mk.inj heq).2
        obtain ⟨hmajor, hminor⟩ := needle_injective (List.append_cancel_right htext)
        rw [← hnumber, BlockDev.number, BlockDev.number, hmajor, hminor]
    · obtain rfl := hgone.1 errno rfl
      have hfound := askSysClassBlock_complete hnumber hfiles.2 hgone.2 ((List.mem_cons.1 hmem).resolve_left fun heq => nomatch (Prod.mk.inj heq).2)
      exact hfound

/-! ## All three -/

theorem BlockTable.unique {t : BlockTable} {h : RootHost} {d d' : BlockDev} (hd : d ∈ t.devices) (hd' : d' ∈ t.devices)
    (hnumber : d.number = (h.major, h.minor)) (hnumber' : d'.number = (h.major, h.minor)) : d = d' :=
  List.inj_on_of_nodup_map t.distinct hd hd' (hnumber.trans hnumber'.symm)

/-- Another place is asked: what is true of its answer is true of the result. -/
theorem orAsk_sound {P : Text → Prop} {path : Option Text} {ask : Except Errno (Option Text)} (hpath : ∀ p, path = some p → P p)
    (hask : ∀ p, ask = .ok (some p) → P p) {p : Text} (hp : orAsk path ask = some p) : P p := by
  cases path with
  | some q => exact hpath p hp
  | none =>
    cases ask with
    | error errno => cases hp
    | ok q => exact hask p (congrArg _ hp)

theorem orAsk_isSome {path : Option Text} {ask : Except Errno (Option Text)} (h : path.isSome ∨ ∃ p, ask = .ok (some p)) :
    (orAsk path ask).isSome := by
  cases path with
  | some p => rfl
  | none =>
    rcases h with h | ⟨p, rfl⟩
    · cases h
    · rfl

/-- What the two files say. -/
theorem askFiles_sound (U : UnicodeData) {h : RootHost} {t : BlockTable} (hs : h.Shows t) {p : Text}
    (hp : orAsk (orAsk none (askProcPartitions U h)) (askSysDevBlock h) = some p) :
    ∃ d ∈ t.devices, d.number = (h.major, h.minor) ∧ h.Names d ∧ p = devPath d.name := by
  have huevent : ∀ q, askSysDevBlock h = .ok (some q) →
      ∃ d ∈ t.devices, d.number = (h.major, h.minor) ∧ h.Names d ∧ q = devPath d.name := by
    intro q hq
    cases hfile : h.uevent with
    | error errno =>
      rw [askSysDevBlock, hfile] at hq
      cases hq
    | ok x =>
      obtain ⟨d, hd, hnumber, before, after, rfl, hother⟩ := hs.uevent x hfile
      rw [askSysDevBlock_text hfile hother] at hq
      cases hq
      exact ⟨d, hd, hnumber, Or.inr ⟨_, hfile⟩, rfl⟩
  exact orAsk_sound (fun _ hq => orAsk_sound (fun _ hn => nomatch hn) (fun _ => askProcPartitions_sound U hs) hq) huevent hp

theorem askFiles_complete (U : UnicodeData) {h : RootHost} {t : BlockTable} (hs : h.Shows t) {d : BlockDev} (hd : d ∈ t.devices)
    (hnumber : d.number = (h.major, h.minor)) (hnames : h.Names d) :
    orAsk (orAsk none (askProcPartitions U h)) (askSysDevBlock h) = some (devPath d.name) := by
  have hsome : (orAsk (orAsk none (askProcPartitions U h)) (askSysDevBlock h)).isSome := by
    rcases hnames with ⟨header, blank, rows, hheader, hblank, hfile, r, hr, rfl⟩ | ⟨x, hfile⟩
    · refine orAsk_isSome (Or.inl (orAsk_isSome (Or.inr ?_)))
      rw [askProcPartitions_text U hheader hblank hfile]
      cases hfind : rows.findSome? fun r => if r.device.number = (h.major, h.minor) then some (devPath r.device.name) else none with
      | some p => exact ⟨p, rfl⟩
      | none =>
        have := List.findSome?_eq_none_iff.1 hfind r hr
        rw [if_pos hnumber] at this
        cases this
    · obtain ⟨d', -, -, before, after, rfl, hother⟩ := hs.uevent x hfile
      exact orAsk_isSome (Or.inr ⟨_, askSysDevBlock_text hfile hother⟩)
  obtain ⟨p, hp⟩ := Option.isSome_iff_exists.1 hsome
  obtain ⟨d', hd', hnumber', -, rfl⟩ := askFiles_sound U hs hp
  rw [hp, BlockTable.unique hd' hd hnumber' hnumber]

/-- **The root device by any of three ways**: what `find` returns exists and is the path of the device that has the numbers of `/`.
Where a file names this device, `find` returns its path, if that exists; where only a directory does, the path that has `!` for every
slash of the name. -/
theorem find_root (U : UnicodeData) (h : RootHost) (t : BlockTable) (hs : h.Shows t) :
    (∀ p, h.find U = some p → h.existing p = true ∧ ∃ d ∈ t.devices, d.number = (h.major, h.minor) ∧
      (p = devPath d.name ∨ ¬h.Names d ∧ p = devPath (sysName d.name))) ∧
      ∀ d ∈ t.devices, d.number = (h.major, h.minor) →
        (h.Names d → h.find U = (some (devPath d.name)).filter h.existing) ∧
          (¬h.Names d → h.HasDir d → h.find U = (some (devPath (sysName d.name))).filter h.existing) := by
  refine ⟨fun p hp => ?_, fun d hd hnumber => ⟨fun hnames => ?_, fun hnames hdir => ?_⟩⟩
  · obtain ⟨hp, hexists⟩ := Option.filter_eq_some_iff.1 hp
    refine ⟨hexists, ?_⟩
    cases hfiles : orAsk (orAsk none (askProcPartitions U h)) (askSysDevBlock h) with
    | some q =>
      rw [hfiles] at hp
      obtain ⟨d, hd, hnumber, -, hq⟩ := askFiles_sound U hs hfiles
      exact ⟨d, hd, hnumber, Or.inl ((Option.some.inj hp).symm.trans hq)⟩
    | none =>
      rw [hfiles] at hp
      obtain ⟨d, hd, hnumber, hq⟩ : h.IsRoot t p :=
        orAsk_sound (fun _ hn => nomatch hn) (fun _ => askSysClassBlock_sound hs.classBlock) hp
      refine ⟨d, hd, hnumber, Or.inr ⟨fun hnames => ?_, hq⟩⟩
      cases hfiles.symm.trans (askFiles_complete U hs hd hnumber hnames)
  · rw [RootHost.find, askFiles_complete U hs hd hnumber hnames]
    rfl
  · have hfiles : orAsk (orAsk none (askProcPartitions U h)) (askSysDevBlock h) = none := by
      rw [Option.eq_none_iff_forall_ne_some]
      intro p hp
      obtain ⟨d', hd', hnumber', hnames', -⟩ := askFiles_sound U hs hp
      exact hnames (BlockTable.unique hd' hd hnumber' hnumber ▸ hnames')
    obtain ⟨p, hp⟩ := askSysClassBlock_complete hnumber hs.classBlock hdir.2 hdir.1
    obtain ⟨d', hd', hnumber', rfl⟩ := askSysClassBlock_sound hs.classBlock hp
    rw [RootHost.find, hfiles, hp, BlockTable.unique hd' hd hnumber' hnumber]
    rfl

/-- Where only `/sys/class/block` shows it, `/dev/cciss/c0d0p1` is not found. -/
example : RootHost.find UnicodeData.ascii ⟨104, 1, .error .enoent, .error .enoent,
    [(text "/sys/class/block/cciss!c0d0p1/dev", .ok (text "104:1\n"))], fun p => p = text "/dev/cciss/c0d0p1"⟩ = none := by decide

def sda1 : BlockDev := ⟨8, 1, text "sda1", ⟨by decide, by decide⟩, by decide⟩

def oneDisk : BlockTable := ⟨[sda1], by decide⟩

/-- `/proc/partitions` may not be read, and there is no `/sys/dev/block`. -/
def oneDiskHost : RootHost :=
  ⟨8, 1, .error .eacces, .error .enoent, [(text "/sys/class/block/loop0/dev", .error .enoent), (classPath sda1, .ok (classText sda1))],
    fun p => p = text "/dev/sda1"⟩

theorem oneDiskHost_shows : oneDiskHost.Shows oneDisk where
  partitions _ h := nomatch h
  uevent _ h := nomatch h
  classBlock := List.forall_mem_cons.2 ⟨Or.inr ⟨.enoent, rfl⟩, List.forall_mem_singleton.2 (Or.inl ⟨sda1, List.mem_singleton.2 rfl, rfl⟩)⟩

theorem find_root_sda1 : oneDiskHost.find UnicodeData.ascii = some (text "/dev/sda1") :=
  ((find_root UnicodeData.ascii oneDiskHost oneDisk oneDiskHost_shows).2 sda1 (List.mem_singleton.2 rfl) rfl).2
    (fun h => by
      rcases h with ⟨_, _, _, _, _, h, _⟩ | ⟨_, h⟩
      · cases h
      · cases h)
    ⟨List.mem_cons_of_mem _ (List.mem_singleton.2 rfl),
      List.forall_mem_cons.2 ⟨fun _ h => (Except.error.inj h).symm, List.forall_mem_singleton.2 fun _ h => nomatch h⟩⟩

end Psutil.Linux
