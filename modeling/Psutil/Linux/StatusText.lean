import Psutil.Linux.ProcFiles
import Psutil.Linux.Text

/-!
# `/proc/PID/status` as the kernel prints it

| here | there |
| --- | --- |
| `StatusFile.text` | `Name:\t…`, then lines with a label, a colon, a tab and a content |
| `parseKb`, `memoryInfoEx` | `parse` and `memory_info_ex` (`_pslinux.py:1908-1937`) |
| `uids`, `gids`, `numThreads` | `uids`, `gids`, `num_threads`, of `ProcFiles` |

The patterns are not bound to the beginning of a line, and the name comes first. `status_reads_iff`: the getters return the
numbers of the real lines exactly when what their patterns find in the name, if they find anything, are the same numbers.
-/

namespace Psutil

open Lib Bytes

/-- What `memory_info_ex` returns of its own. -/
structure MemoryInfoEx where
  peakRss : Nat
  peakVms : Nat
  rssAnon : Nat
  rssFile : Nat
  rssShmem : Nat
  swap : Nat
  hugetlb : Nat
  deriving DecidableEq

/-- `parse(regex)`, with the pattern `label\s+(\d+)`. -/
def parseKb (label : String) (data : Bytes) : Nat :=
  match (lit label ++ [spaces, digitGroup]).search data with
  | some [n] => digits n * 1024
  | _ => 0

def memoryInfoEx (data : Bytes) : MemoryInfoEx where
  peakRss := parseKb "VmHWM:" data
  peakVms := parseKb "VmPeak:" data
  rssAnon := parseKb "RssAnon:" data
  rssFile := parseKb "RssFile:" data
  rssShmem := parseKb "RssShmem:" data
  swap := parseKb "VmSwap:" data
  hugetlb := parseKb "HugetlbPages:" data

/-! ## The file -/

structure StatusLine where
  label : Bytes
  content : Bytes

namespace StatusLine

def bytes (l : StatusLine) : Bytes := l.label ++ byte ':' :: 9 :: l.content

/-- Lines of the kernel: one colon, and a label that begins like a word. -/
structure WellFormed (l : StatusLine) : Prop where
  label_first : ∃ c rest, l.label = c :: rest ∧ isSpace c = false ∧ isDigit c = false
  label_newline : 10 ∉ l.label
  label_colon : byte ':' ∉ l.label
  content_newline : 10 ∉ l.content
  content_colon : byte ':' ∉ l.content

end StatusLine

/-- The numbers of `Uid:` and `Gid:`. -/
structure Ids where
  real : Nat
  effective : Nat
  saved : Nat
  fs : Nat

def Ids.content (i : Ids) : Bytes :=
  decimal i.real ++ 9 :: (decimal i.effective ++ 9 :: (decimal i.saved ++ 9 :: decimal i.fs))

/-- `%8lu kB`. -/
def kbContent (pad kb : Nat) : Bytes := List.replicate pad 32 ++ (decimal kb ++ ascii " kB")

def memoryLabels : List String := ["VmHWM", "VmPeak", "RssAnon", "RssFile", "RssShmem", "VmSwap", "HugetlbPages"]

/-- The labels that the getters look for. -/
def searchedLabels : List String := "Uid" :: "Gid" :: "Threads" :: memoryLabels

structure StatusFile where
  name : Bytes
  /-- The lines after that of the name. -/
  lines : List StatusLine
  uid : Ids
  gid : Ids
  threads : Nat
  /-- The numbers of kB, by label. -/
  memory : String → Option Nat
  name_newline : 10 ∉ name
  line_ok : ∀ l ∈ lines, l.WellFormed
  labels_nodup : (lines.map StatusLine.label).Nodup
  /-- No other label ends like one of these. -/
  label_suffix : ∀ l ∈ lines, ∀ label ∈ searchedLabels, ascii label <:+ l.label → l.label = ascii label
  uid_line : ⟨ascii "Uid", uid.content⟩ ∈ lines
  gid_line : ⟨ascii "Gid", gid.content⟩ ∈ lines
  threads_line : ⟨ascii "Threads", decimal threads⟩ ∈ lines
  memory_line : ∀ label ∈ memoryLabels, ∀ kb, memory label = some kb → ∃ pad, ⟨ascii label, kbContent pad kb⟩ ∈ lines
  memory_none : ∀ label ∈ memoryLabels, memory label = none → ∀ l ∈ lines, l.label ≠ ascii label

namespace StatusFile

variable (s : StatusFile)

def text : Bytes := ascii "Name:\t" ++ (s.name ++ 10 :: unlines (s.lines.map StatusLine.bytes))

/-- The bytes of a memory line, 0 if it is missing. -/
def kb (label : String) : Nat := (s.memory label).getD 0 * 1024

/-- The real numbers. -/
def memoryInfo : MemoryInfoEx :=
  ⟨s.kb "VmHWM", s.kb "VmPeak", s.kb "RssAnon", s.kb "RssFile", s.kb "RssShmem", s.kb "VmSwap", s.kb "HugetlbPages"⟩

/-- The getters return the numbers of the real lines. -/
structure ReadsOwn : Prop where
  uids : uids s.text = .ok (.ids s.uid.real s.uid.effective s.uid.saved)
  gids : gids s.text = .ok (.ids s.gid.real s.gid.effective s.gid.saved)
  numThreads : numThreads s.text = .ok (.number s.threads)
  memory : memoryInfoEx s.text = s.memoryInfo

end StatusFile

/-! ## The patterns -/

/-- `label(\d+)\t(\d+)\t(\d+)`. -/
def idsPattern (label : String) : Pattern UInt8 := lit label ++ digitGroup :: lit "\t" ++ digitGroup :: lit "\t" ++ [digitGroup]

def threadsPattern : Pattern UInt8 := lit "Threads:\t" ++ [digitGroup]

/-- `label\s+(\d+)`. -/
def kbPattern (label : String) : Pattern UInt8 := lit label ++ [spaces, digitGroup]

/-- What the patterns find in the name, if anything, are the real numbers. -/
structure StatusFile.Harmless (s : StatusFile) : Prop where
  uid : ∀ groups, (idsPattern "Uid:\t").search s.name = some groups → groups.map digits = [s.uid.real, s.uid.effective, s.uid.saved]
  gid : ∀ groups, (idsPattern "Gid:\t").search s.name = some groups → groups.map digits = [s.gid.real, s.gid.effective, s.gid.saved]
  threads : ∀ groups, threadsPattern.search s.name = some groups → groups.map digits = [s.threads]
  memory : ∀ label ∈ memoryLabels, ∀ groups, (kbPattern (label ++ ":")).search s.name = some groups →
    groups.map digits = [(s.memory label).getD 0]

/-- Text that goes on with a label, or ends. -/
def Begins (y : Bytes) : Prop := ∀ c rest, y = c :: rest → isSpace c = false ∧ isDigit c = false

/-- The rest of a pattern, after the colon of the label. -/
def LocalTail (tail : Pattern UInt8) : Prop := ∀ y, Begins y → tail.Local 10 y

/-- `\t(\d+)\t(\d+)\t(\d+)`. -/
def idsTail : Pattern UInt8 := .one (· = 9) :: digitGroup :: .one (· = 9) :: digitGroup :: .one (· = 9) :: [digitGroup]

/-- `\t(\d+)`. -/
def threadsTail : Pattern UInt8 := .one (· = 9) :: [digitGroup]

/-- `\s+(\d+)`. -/
def kbTail : Pattern UInt8 := [spaces, digitGroup]

theorem uidPattern_eq : idsPattern "Uid:\t" = Pattern.literal (ascii "Uid" ++ [byte ':']) ++ idsTail := rfl

theorem gidPattern_eq : idsPattern "Gid:\t" = Pattern.literal (ascii "Gid" ++ [byte ':']) ++ idsTail := rfl

theorem threadsPattern_eq : threadsPattern = Pattern.literal (ascii "Threads" ++ [byte ':']) ++ threadsTail := rfl

theorem kbPattern_eq (label : String) : kbPattern (label ++ ":") = Pattern.literal (ascii label ++ [byte ':']) ++ kbTail := by
  simp [kbPattern, kbTail, lit, Pattern.literal, ascii, byte]

theorem apart_digits (r : Pattern UInt8) : Pattern.Apart isDigit (.one (· = 9) :: r) := by
  intro c s hc
  have hne : c ≠ 9 := by
    rintro rfl
    exact absurd hc (by decide)
  simp [Pattern.matchAt, hne]

theorem matchAt_digits_of_not {c : UInt8} (hc : isDigit c = false) (s : Bytes) : Pattern.matchAt [digitGroup] (c :: s) = none := by
  rw [digitGroup, Pattern.matchAt_group_last, List.takeWhile_cons_of_neg (by simp [hc]), if_pos rfl]

theorem apart_spaces : Pattern.Apart isSpace [digitGroup] := by
  intro c s hc
  refine matchAt_digits_of_not ?_ s
  by_contra hd
  rw [Bool.not_eq_false] at hd
  rw [isSpace_of_isDigit hd] at hc
  cases hc

theorem local_idsTail : LocalTail idsTail := fun _ _ =>
  .one (by decide) (.group (by decide) (apart_digits _)
    (.one (by decide) (.group (by decide) (apart_digits _) (.one (by decide) (.group_last (by decide))))))

theorem local_threadsTail : LocalTail threadsTail := fun _ _ => .one (by decide) (.group_last (by decide))

theorem local_kbTail : LocalTail kbTail := by
  intro y hy
  refine .plus apart_spaces (.group_last (by decide)) rfl ?_
  cases y with
  | nil => rfl
  | cons c rest =>
    obtain ⟨hs, hd⟩ := hy c rest rfl
    rw [List.dropWhile_cons_of_neg (by simp [hs])]
    exact matchAt_digits_of_not hd rest

/-! ## Where a pattern is found -/

theorem begins_unlines {lines : List StatusLine} (h : ∀ l ∈ lines, l.WellFormed) : Begins (unlines (lines.map StatusLine.bytes)) := by
  intro c rest heq
  cases lines with
  | nil => cases heq
  | cons l lines =>
    obtain ⟨d, label, hlabel, hd⟩ := (h l List.mem_cons_self).label_first
    simp only [unlines, List.map_cons, List.flatMap_cons, StatusLine.bytes, hlabel, List.cons_append, List.cons.injEq] at heq
    exact heq.1 ▸ hd

/-- In a line, a pattern is found after a label that ends like its own. -/
theorem search_line {w : Bytes} (hne : w ≠ []) (hw : byte ':' ∉ w) {l : StatusLine} (hl : l.WellFormed) (tail : Pattern UInt8) :
    (Pattern.literal (w ++ [byte ':']) ++ tail).search l.bytes =
      if w <:+ l.label then (tail.matchAt (9 :: l.content)).map Prod.fst else none := by
  refine Pattern.search_label hne hw ?_ hl.label_colon
  rw [List.mem_cons, not_or]
  exact ⟨by decide, hl.content_colon⟩

theorem newline_notMem_bytes {l : StatusLine} (hl : l.WellFormed) : 10 ∉ l.bytes := by
  simp only [StatusLine.bytes, List.mem_append, List.mem_cons, not_or]
  exact ⟨hl.label_newline, by decide, by decide, hl.content_newline⟩

/-- In the lines, it is found in the first one that has it. -/
theorem search_lines {w : Bytes} (hne : w ≠ []) (hw : byte ':' ∉ w ∧ 10 ∉ w) {tail : Pattern UInt8} (htail : LocalTail tail) :
    ∀ {lines : List StatusLine}, (∀ l ∈ lines, l.WellFormed) →
    (Pattern.literal (w ++ [byte ':']) ++ tail).search (unlines (lines.map StatusLine.bytes)) =
      lines.findSome? fun l => if w <:+ l.label then (tail.matchAt (9 :: l.content)).map Prod.fst else none
  | [], _ => rfl
  | l :: lines, h => by
    have hl := h l List.mem_cons_self
    have hlines : ∀ l' ∈ lines, l'.WellFormed := fun l' hl' => h l' (List.mem_cons_of_mem l hl')
    have hlocal : (Pattern.literal (w ++ [byte ':']) ++ tail).Local 10 (unlines (lines.map StatusLine.bytes)) := by
      refine .literal (htail _ (begins_unlines hlines)) ?_
      rw [List.mem_append, not_or]
      exact ⟨hw.2, by decide⟩
    have hend : (Pattern.literal (w ++ [byte ':']) ++ tail).matchAt [] = none := by
      obtain ⟨c, w, rfl⟩ := List.exists_cons_of_ne_nil hne
      rfl
    have hunlines : unlines ((l :: lines).map StatusLine.bytes) = l.bytes ++ 10 :: unlines (lines.map StatusLine.bytes) := by
      simp [unlines]
    rw [hunlines, Pattern.search_append hlocal hend (newline_notMem_bytes hl), search_line hne hw.1 hl tail,
      search_lines hne hw htail hlines, List.findSome?_cons]
    cases (if w <:+ l.label then (tail.matchAt (9 :: l.content)).map Prod.fst else none) <;> rfl

namespace StatusFile

variable (s : StatusFile)

/-- **In the file**, it is found in the name, or else in the lines after it. -/
theorem search_text {c : UInt8} {w : Bytes} (hfirst : c ∉ ascii "Name:\t") (hw : byte ':' ∉ c :: w ∧ 10 ∉ c :: w) {tail : Pattern UInt8}
    (htail : LocalTail tail) : (Pattern.literal (c :: w ++ [byte ':']) ++ tail).search s.text =
      ((Pattern.literal (c :: w ++ [byte ':']) ++ tail).search s.name).or
        (s.lines.findSome? fun l => if c :: w <:+ l.label then (tail.matchAt (9 :: l.content)).map Prod.fst else none) := by
  have hlocal : (Pattern.literal (c :: w ++ [byte ':']) ++ tail).Local 10 (unlines (s.lines.map StatusLine.bytes)) := by
    refine .literal (htail _ (begins_unlines s.line_ok)) ?_
    rw [List.mem_append, not_or]
    exact ⟨hw.2, by decide⟩
  rw [text]
  have hskip : (Pattern.literal (c :: w ++ [byte ':']) ++ tail).search (ascii "Name:\t" ++ (s.name ++ 10 :: unlines (s.lines.map StatusLine.bytes))) =
      (Pattern.literal (c :: w ++ [byte ':']) ++ tail).search (s.name ++ 10 :: unlines (s.lines.map StatusLine.bytes)) := by
    refine Pattern.search_skip (fun d hd => ?_) _
    simpa using fun hdc : d = c => hfirst (hdc ▸ hd)
  rw [hskip, Pattern.search_append hlocal rfl s.name_newline, search_lines (List.cons_ne_nil c w) hw htail s.line_ok]

end StatusFile

/-! ## What is found in the real line -/

theorem takeWhile_decimal (n : Nat) {c : UInt8} (hc : isDigit c = false) (rest : Bytes) :
    (decimal n ++ c :: rest).takeWhile isDigit = decimal n ∧ (decimal n ++ c :: rest).dropWhile isDigit = c :: rest := by
  have hall : ∀ d ∈ decimal n, isDigit d = true := fun _ => isDigit_of_mem_decimal
  rw [List.takeWhile_append_of_pos hall, List.dropWhile_append_of_pos hall]
  simp [hc]

theorem matchAt_number (n : Nat) {c : UInt8} (hc : isDigit c = false) (rest : Bytes) (r : Pattern UInt8) :
    Pattern.matchAt (digitGroup :: .one (· = 9) :: r) (decimal n ++ c :: rest) =
      (Pattern.matchAt (.one (· = 9) :: r) (c :: rest)).map fun m => (decimal n :: m.1, m.2) := by
  obtain ⟨htake, hdrop⟩ := takeWhile_decimal n hc rest
  rw [digitGroup, Pattern.matchAt_group (apart_digits r), htake, hdrop, if_neg (decimal_ne_nil n)]

theorem matchAt_number_last (n : Nat) {c : UInt8} (hc : isDigit c = false) (rest : Bytes) :
    Pattern.matchAt [digitGroup] (decimal n ++ c :: rest) = some ([decimal n], c :: rest) := by
  obtain ⟨htake, hdrop⟩ := takeWhile_decimal n hc rest
  rw [digitGroup, Pattern.matchAt_group_last, htake, hdrop, if_neg (decimal_ne_nil n)]

theorem matchAt_ids (i : Ids) :
    (idsTail.matchAt (9 :: i.content)).map Prod.fst = some [decimal i.real, decimal i.effective, decimal i.saved] := by
  have htab : ∀ (r : Pattern UInt8) (rest : Bytes), Pattern.matchAt (.one (· = 9) :: r) (9 :: rest) = r.matchAt rest := fun _ _ => rfl
  rw [idsTail, Ids.content, htab, matchAt_number _ (by decide), htab, matchAt_number _ (by decide), htab,
    matchAt_number_last _ (by decide)]
  rfl

theorem matchAt_threads (n : Nat) : (threadsTail.matchAt (9 :: decimal n)).map Prod.fst = some [decimal n] := by
  have hall : (decimal n).takeWhile isDigit = decimal n := List.takeWhile_eq_self_iff.2 fun _ => isDigit_of_mem_decimal
  have hgroup : Pattern.matchAt [digitGroup] (decimal n) = some ([decimal n], (decimal n).dropWhile isDigit) := by
    rw [digitGroup, Pattern.matchAt_group_last, hall, if_neg (decimal_ne_nil n)]
  exact congrArg (Option.map Prod.fst) hgroup

theorem matchAt_kb (pad kb : Nat) : (kbTail.matchAt (9 :: kbContent pad kb)).map Prod.fst = some [decimal kb] := by
  have hblank : ∀ c ∈ 9 :: List.replicate pad (32 : UInt8), isSpace c = true := by
    intro c hc
    rcases List.mem_cons.1 hc with rfl | hc
    · decide
    · rw [List.eq_of_mem_replicate hc]
      decide
  have hdrop : (9 :: kbContent pad kb).dropWhile isSpace = decimal kb ++ ascii " kB" := by
    obtain ⟨d, rest, hd⟩ := List.exists_cons_of_ne_nil (decimal_ne_nil kb)
    have hdigit : isSpace d = false := isSpace_of_mem_decimal (hd ▸ List.mem_cons_self)
    rw [kbContent, ← List.cons_append, List.dropWhile_append_of_pos hblank, hd, List.cons_append,
      List.dropWhile_cons_of_neg (by simp [hdigit])]
  rw [kbTail, spaces, Pattern.matchAt_plus apart_spaces, hdrop, if_neg (by simp [isSpace])]
  exact congrArg (Option.map Prod.fst) (matchAt_number_last kb (by decide) _)

namespace StatusFile

variable (s : StatusFile)

/-- The line of a label is the only one that its pattern reads. -/
theorem findSome?_line (label : String) (hlabel : label ∈ searchedLabels) {content : Bytes}
    (h : ⟨ascii label, content⟩ ∈ s.lines) (tail : Pattern UInt8) :
    (s.lines.findSome? fun l => if ascii label <:+ l.label then (tail.matchAt (9 :: l.content)).map Prod.fst else none) =
      (tail.matchAt (9 :: content)).map Prod.fst := by
  rw [Pattern.findSome?_of_unique h, if_pos List.suffix_rfl]
  intro l hl hne
  refine if_neg fun hsuffix => hne ?_
  exact List.inj_on_of_nodup_map s.labels_nodup hl h (s.label_suffix l hl label hlabel hsuffix)

theorem findSome?_none (label : String) (hlabel : label ∈ searchedLabels) (h : ∀ l ∈ s.lines, l.label ≠ ascii label)
    (tail : Pattern UInt8) :
    (s.lines.findSome? fun l => if ascii label <:+ l.label then (tail.matchAt (9 :: l.content)).map Prod.fst else none) = none := by
  rw [List.findSome?_eq_none_iff]
  intro l hl
  exact if_neg fun hsuffix => h l hl (s.label_suffix l hl label hlabel hsuffix)

theorem search_uid : (idsPattern "Uid:\t").search s.text =
    ((idsPattern "Uid:\t").search s.name).or (some [decimal s.uid.real, decimal s.uid.effective, decimal s.uid.saved]) := by
  have hline := s.findSome?_line "Uid" (by decide) s.uid_line idsTail
  rw [matchAt_ids] at hline
  rw [← hline, uidPattern_eq]
  exact s.search_text (by decide) (by decide) local_idsTail

theorem search_gid : (idsPattern "Gid:\t").search s.text =
    ((idsPattern "Gid:\t").search s.name).or (some [decimal s.gid.real, decimal s.gid.effective, decimal s.gid.saved]) := by
  have hline := s.findSome?_line "Gid" (by decide) s.gid_line idsTail
  rw [matchAt_ids] at hline
  rw [← hline, gidPattern_eq]
  exact s.search_text (by decide) (by decide) local_idsTail

theorem search_threads : threadsPattern.search s.text = (threadsPattern.search s.name).or (some [decimal s.threads]) := by
  have hline := s.findSome?_line "Threads" (by decide) s.threads_line threadsTail
  rw [matchAt_threads] at hline
  rw [← hline, threadsPattern_eq]
  exact s.search_text (by decide) (by decide) local_threadsTail

/-- A memory label begins like no byte before the name, and has no colon and no newline. -/
theorem memoryLabel_ok : ∀ label ∈ memoryLabels, label ∈ searchedLabels ∧ ∃ c w, ascii label = c :: w ∧ c ∉ ascii "Name:\t" ∧
    byte ':' ∉ c :: w ∧ 10 ∉ c :: w := by
  simp only [memoryLabels, List.forall_mem_cons]
  refine ⟨?_, ?_, ?_, ?_, ?_, ?_, ?_, fun _ h => absurd h List.not_mem_nil⟩ <;> exact ⟨by decide, _, _, rfl, by decide⟩

theorem search_kb {label : String} (hlabel : label ∈ memoryLabels) : (kbPattern (label ++ ":")).search s.text =
    ((kbPattern (label ++ ":")).search s.name).or ((s.memory label).map fun kb => [decimal kb]) := by
  obtain ⟨hsearched, c, w, hbytes, hfirst, hw⟩ := memoryLabel_ok label hlabel
  have hreal : (s.lines.findSome? fun l => if ascii label <:+ l.label then (kbTail.matchAt (9 :: l.content)).map Prod.fst else none) =
      (s.memory label).map fun kb => [decimal kb] := by
    cases hkb : s.memory label with
    | none => exact s.findSome?_none label hsearched (s.memory_none label hlabel hkb) kbTail
    | some kb =>
      obtain ⟨pad, hline⟩ := s.memory_line label hlabel kb hkb
      rw [s.findSome?_line label hsearched hline, matchAt_kb]
      rfl
  rw [← hreal, kbPattern_eq, hbytes]
  exact s.search_text hfirst hw local_kbTail

end StatusFile

/-! ## The getters -/

theorem firstIds_ok_iff {label : String} {data : Bytes} {r e v : Nat} : firstIds label data = .ok (.ids r e v) ↔
    ∃ groups, (idsPattern label).search data = some groups ∧ groups.map digits = [r, e, v] := by
  rw [← Pattern.head?_findall, firstIds, ← idsPattern]
  rcases (idsPattern label).findall data with _ | ⟨_ | ⟨a, _ | ⟨b, _ | ⟨c, _ | ⟨d, groups⟩⟩⟩⟩, rest⟩ <;> simp

theorem numThreads_ok_iff {data : Bytes} {n : Nat} : numThreads data = .ok (.number n) ↔
    ∃ groups, threadsPattern.search data = some groups ∧ groups.map digits = [n] := by
  rw [← Pattern.head?_findall, numThreads, ← threadsPattern]
  rcases threadsPattern.findall data with _ | ⟨_ | ⟨a, _ | ⟨b, groups⟩⟩, rest⟩ <;> simp

theorem parseKb_eq_iff {label : String} {data : Bytes} {n : Nat} : parseKb label data = n * 1024 ↔
    (((kbPattern label).search data).getD [[]]).map digits = [n] := by
  rw [parseKb, ← kbPattern]
  cases h : (kbPattern label).search data with
  | none => simp [digits, eq_comm]
  | some groups =>
    have hlen : groups.length = 1 := by
      rw [Pattern.length_of_search h, kbPattern, List.countP_append]
      simp [lit, spaces, digitGroup, Pattern.isGroup, Function.comp_def]
    obtain ⟨a, rfl⟩ := List.length_eq_one_iff.1 hlen
    simp

/-- What is found in the name comes first. -/
theorem or_iff {α : Type} {P : α → Prop} {a : α} (ha : P a) (o : Option α) : (∃ b, o.or (some a) = some b ∧ P b) ↔ ∀ b, o = some b → P b := by
  cases o with
  | none => simpa using ha
  | some b => simp

namespace StatusFile

variable (s : StatusFile)

theorem uids_iff : uids s.text = .ok (.ids s.uid.real s.uid.effective s.uid.saved) ↔
    ∀ groups, (idsPattern "Uid:\t").search s.name = some groups → groups.map digits = [s.uid.real, s.uid.effective, s.uid.saved] := by
  rw [uids, firstIds_ok_iff, s.search_uid]
  exact or_iff (by simp) _

theorem gids_iff : gids s.text = .ok (.ids s.gid.real s.gid.effective s.gid.saved) ↔
    ∀ groups, (idsPattern "Gid:\t").search s.name = some groups → groups.map digits = [s.gid.real, s.gid.effective, s.gid.saved] := by
  rw [gids, firstIds_ok_iff, s.search_gid]
  exact or_iff (by simp) _

theorem numThreads_iff : numThreads s.text = .ok (.number s.threads) ↔
    ∀ groups, threadsPattern.search s.name = some groups → groups.map digits = [s.threads] := by
  rw [numThreads_ok_iff, s.search_threads]
  exact or_iff (by simp) _

theorem parseKb_iff {label : String} (hlabel : label ∈ memoryLabels) : parseKb (label ++ ":") s.text = s.kb label ↔
    ∀ groups, (kbPattern (label ++ ":")).search s.name = some groups → groups.map digits = [(s.memory label).getD 0] := by
  rw [kb, parseKb_eq_iff, s.search_kb hlabel]
  cases (kbPattern (label ++ ":")).search s.name with
  | none =>
    cases s.memory label with
    | none => simp [digits]
    | some n => simp
  | some groups => simp

theorem memoryInfoEx_iff : memoryInfoEx s.text = s.memoryInfo ↔ ∀ label ∈ memoryLabels, parseKb (label ++ ":") s.text = s.kb label := by
  simp only [memoryInfoEx, memoryInfo, MemoryInfoEx.mk.injEq, memoryLabels, List.forall_mem_cons, List.not_mem_nil, false_imp_iff,
    implies_true, and_true]
  rfl

end StatusFile

/-- **The getters return the numbers of the real lines exactly when** the name shows them no others. -/
theorem status_reads_iff (s : StatusFile) : s.ReadsOwn ↔ s.Harmless := by
  have hmemory : memoryInfoEx s.text = s.memoryInfo ↔ ∀ label ∈ memoryLabels, ∀ groups,
      (kbPattern (label ++ ":")).search s.name = some groups → groups.map digits = [(s.memory label).getD 0] := by
    rw [s.memoryInfoEx_iff]
    exact forall_congr' fun label => forall_congr' fun hlabel => s.parseKb_iff hlabel
  constructor
  · rintro ⟨huids, hgids, hthreads, hmem⟩
    exact ⟨s.uids_iff.1 huids, s.gids_iff.1 hgids, s.numThreads_iff.1 hthreads, hmemory.1 hmem⟩
  · rintro ⟨huid, hgid, hthreads, hmem⟩
    exact ⟨s.uids_iff.2 huid, s.gids_iff.2 hgid, s.numThreads_iff.2 hthreads, hmemory.2 hmem⟩

/-- A process with two threads, that can choose its name. -/
def named (name : Bytes) (h : 10 ∉ name) : StatusFile where
  name := name
  lines := [⟨ascii "Umask", ascii "0022"⟩, ⟨ascii "Uid", Ids.content ⟨1000, 1000, 1000, 1000⟩⟩,
    ⟨ascii "Gid", Ids.content ⟨1000, 1000, 1000, 1000⟩⟩, ⟨ascii "VmPeak", kbContent 4 5004⟩, ⟨ascii "Threads", decimal 2⟩]
  uid := ⟨1000, 1000, 1000, 1000⟩
  gid := ⟨1000, 1000, 1000, 1000⟩
  threads := 2
  memory label := if label = "VmPeak" then some 5004 else none
  name_newline := h
  line_ok := by
    simp only [List.forall_mem_cons]
    refine ⟨?_, ?_, ?_, ?_, ?_, fun _ h => absurd h List.not_mem_nil⟩ <;>
      exact ⟨⟨_, _, rfl, by decide, by decide⟩, by decide, by decide, by decide, by decide⟩
  labels_nodup := by decide
  label_suffix := by decide
  uid_line := by simp
  gid_line := by simp
  threads_line := by simp
  memory_line label _ kb hkb := by
    split_ifs at hkb with hlabel
    obtain rfl := Option.some.inj hkb
    exact ⟨4, by simp [hlabel]⟩
  memory_none := by
    decide

/-- `Uid:\t0\t0\t0` is a name of ten bytes, and its process belongs to root. -/
theorem status_forged : ¬∀ s : StatusFile, 1 ≤ s.name.length → s.name.length ≤ 15 → (∀ c ∈ s.name, c ≠ 0 ∧ c ≠ 10 ∧ c ≠ byte '\\') →
    s.ReadsOwn := by
  intro h
  have hname : (ascii "Uid:\t0\t0\t0").all (fun c => c ≠ 0 ∧ c ≠ 10 ∧ c ≠ byte '\\') = true := by decide
  have huids := (h (named (ascii "Uid:\t0\t0\t0") (by decide)) (by decide) (by decide)
    fun c hc => of_decide_eq_true (List.all_eq_true.1 hname c hc)).uids
  have hdigits := (named (ascii "Uid:\t0\t0\t0") (by decide)).uids_iff.1 huids [ascii "0", ascii "0", ascii "0"] (by decide)
  exact absurd hdigits (by decide)

end Psutil
