import Mathlib.Algebra.BigOperators.Ring.Finset
import Mathlib.Tactic.IntervalCases
import Psutil.Cpu.Freq
import Psutil.Linux.CpuList

/-!
# `cpu_count_cores()` on Linux (`_pslinux.py:548-587`)

The number of cores is read off the lists of hyper-threads in `/sys`, or, where there are none, off `/proc/cpuinfo`. `Topology` is a
machine with its packages and cores. `cpuCountCores_counts`: both methods count its cores.
-/

namespace Psutil.Linux

open Lib Common Bytes

/-! ## The code -/

/-- What the function finds: the paths of the two globs, the contents of a file, and the text of `cpuinfo`. -/
structure CoresHost where
  coreCpusLists : List Bytes
  threadSiblingsLists : List Bytes
  openBinary : Bytes → Except Errno Bytes
  cpuinfo : Except Errno Bytes

structure CoresInfo where
  mapping : Dict Int Int
  currentInfo : Dict Bytes Int

def physicalId : Bytes := ascii "physical id"

def cpuCores : Bytes := ascii "cpu cores"

def coresLine (s : CoresInfo) (line : Bytes) : Except Exc CoresInfo :=
  let line := lower (strip line)
  if line = [] then
    -- a section is over
    match s.currentInfo.get? cpuCores, s.currentInfo.get? physicalId with
    | some cores, some id => .ok ⟨s.mapping.set id cores, ∅⟩
    | _, _ => .ok ⟨s.mapping, ∅⟩
  else if line.startsWith physicalId || line.startsWith cpuCores then do
    let (key, value) ← line.splitOnce (byte ':')
    return ⟨s.mapping, s.currentInfo.set (strip key) (← int value)⟩
  else .ok s

/-- `result or None`. -/
def orNone (result : Int) : Option Int := if result = 0 then none else some result

/-- Method #2. -/
def coresOfCpuinfo (cpuinfo : Bytes) : Except Exc (Option Int) :=
  ((fileLines cpuinfo).foldlM coresLine ⟨∅, ∅⟩).map fun s => orNone (s.mapping.items.map Prod.snd).sum

def cpuCountCores (h : CoresHost) : Except Exc (Option Int) := do
  let paths := if h.coreCpusLists = [] then h.threadSiblingsLists else h.coreCpusLists
  let ls ← paths.mapM fun path => (h.openBinary path).mapError .osError
  let result := (ls.map strip).dedup.length
  if result ≠ 0 then return some (result : Int)
  else
    let cpuinfo ← h.cpuinfo.mapError .osError
    coresOfCpuinfo cpuinfo

/-! ## The machine -/

/-- A logical CPU that is online. -/
structure LogicalCpu where
  number : ℕ
  package : ℕ
  core : ℕ

/-- The core that the CPU is a thread of. -/
def LogicalCpu.key (c : LogicalCpu) : ℕ × ℕ := (c.package, c.core)

structure Topology where
  cpus : List LogicalCpu
  nonempty : cpus ≠ []
  nodup : (cpus.map LogicalCpu.number).Nodup

namespace Topology

variable (t : Topology)

def cores : Finset (ℕ × ℕ) := (t.cpus.map LogicalCpu.key).toFinset

def coresIn (package : ℕ) : ℕ := (t.cores.filter (·.1 = package)).card

/-- The threads of a core. -/
def siblings (key : ℕ × ℕ) : Finset ℕ := ((t.cpus.filter (·.key = key)).map LogicalCpu.number).toFinset

end Topology

/-- A list as `/sys` has it. -/
def listFile (s : Finset ℕ) : Bytes := (kernelList s).map Nat.toUInt8 ++ [10]

/-- A line of `cpuinfo`. -/
inductive CpuField where
  | physicalId (n : ℕ)
  | cpuCores (n : ℕ)
  | other (text : Bytes) (newline : 10 ∉ text) (notBlank : lower (strip text) ≠ [])
      (other : (startsWith (lower (strip text)) Linux.physicalId || startsWith (lower (strip text)) Linux.cpuCores) = false)

namespace CpuField

def text : CpuField → Bytes
  | physicalId n => Linux.physicalId ++ [9] ++ byte ':' :: 32 :: decimal n
  | cpuCores n => Linux.cpuCores ++ [9] ++ byte ':' :: 32 :: decimal n
  | other text _ _ _ => text

def id? : CpuField → Option ℕ
  | physicalId n => some n
  | _ => none

def cores? : CpuField → Option ℕ
  | cpuCores n => some n
  | _ => none

/-- What the line leaves in `current_info`. -/
def add (d : Dict Bytes Int) : CpuField → Dict Bytes Int
  | physicalId n => d.set Linux.physicalId n
  | cpuCores n => d.set Linux.cpuCores n
  | other .. => d

end CpuField

/-- What a section says: its last physical id and its last number of cores. -/
def sectionPair (s : List CpuField) : Option (ℕ × ℕ) := do
  let id ← (s.filterMap CpuField.id?).getLast?
  let cores ← (s.filterMap CpuField.cores?).getLast?
  return (id, cores)

/-- Each section ends with an empty line. -/
def cpuinfoText (sections : List (List CpuField)) : Bytes := unlines (sections.flatMap fun s => s.map CpuField.text ++ [[]])

/-! ## A line, a section, the file -/

theorem int_blank_decimal (n : ℕ) : int (32 :: decimal n) = .ok n := by
  obtain ⟨c, rest, hcons⟩ := List.exists_cons_of_ne_nil (decimal_ne_nil n)
  obtain ⟨hminus, hplus⟩ := not_sign_of_isDigit (isDigit_of_mem_decimal (hcons ▸ List.mem_cons_self : c ∈ decimal n))
  have hstrip : strip (32 :: decimal n) = c :: rest := by
    rw [← List.singleton_append, strip_append_left (List.forall_mem_singleton.2 rfl), strip_of_digits fun _ => isDigit_of_mem_decimal, hcons]
  have hnumeral := numeral_of_digits (decimal_ne_nil n) fun _ => isDigit_of_mem_decimal
  rw [digits_decimal, hcons] at hnumeral
  simp only [int, hstrip, hminus, hplus, if_false, hnumeral, Option.map_some, Int.ofNat_eq_natCast]

theorem lower_decimal (n : ℕ) : lower (decimal n) = decimal n := by
  refine (List.map_congr_left fun c hc => ?_).trans (List.map_id _)
  have hdigit := isDigit_of_mem_decimal hc
  rw [isDigit, Bool.and_eq_true, decide_eq_true_eq, decide_eq_true_eq] at hdigit
  rw [id, if_neg fun h => absurd (UInt8.le_trans h.1 hdigit.2) (by decide)]

/-- A line with a number, read. -/
theorem coresLine_number (s : CoresInfo) {key : Bytes} (hkey : key = physicalId ∨ key = cpuCores) (n : ℕ) :
    coresLine s (key ++ [9] ++ byte ':' :: 32 :: decimal n ++ [10]) = .ok ⟨s.mapping, s.currentInfo.set key n⟩ := by
  have hline : lower (strip (key ++ [9] ++ byte ':' :: 32 :: decimal n ++ [10])) = key ++ [9] ++ byte ':' :: 32 :: decimal n := by
    obtain ⟨init, d, hd, hspace⟩ : ∃ init d, decimal n = init ++ [d] ∧ isSpace d = false :=
      ⟨_, _, (List.dropLast_append_getLast (decimal_ne_nil n)).symm, isSpace_of_mem_decimal (List.getLast_mem _)⟩
    have hlast : ∀ key : Bytes, key ++ [9] ++ byte ':' :: 32 :: decimal n = (key ++ [9] ++ byte ':' :: 32 :: init) ++ [d] := fun key => by
      rw [hd]
      simp
    have hstrip : strip (key ++ [9] ++ byte ':' :: 32 :: decimal n ++ [10]) = key ++ [9] ++ byte ':' :: 32 :: decimal n := by
      rcases hkey with rfl | rfl
      · exact strip_newline (rfl : _ = byte 'p' :: _) (hlast physicalId) (by decide) hspace
      · exact strip_newline (rfl : _ = byte 'c' :: _) (hlast cpuCores) (by decide) hspace
    have hlower : lower key = key := by rcases hkey with rfl | rfl <;> decide
    rw [hstrip]
    simp only [lower, List.map_append, List.map_cons, List.map_nil] at hlower ⊢
    rw [hlower, show (decimal n).map _ = decimal n from lower_decimal n]
    rfl
  have hkeys : (startsWith (key ++ [9] ++ byte ':' :: 32 :: decimal n) physicalId ||
      startsWith (key ++ [9] ++ byte ':' :: 32 :: decimal n) cpuCores) = true := by
    rw [List.append_assoc]
    rcases hkey with rfl | rfl <;> simp [startsWith]
  have hcolon : byte ':' ∉ key ++ [9] := by rcases hkey with rfl | rfl <;> decide
  have hstrip : strip (key ++ [9]) = key := by rcases hkey with rfl | rfl <;> decide
  simp only [coresLine, hline]
  rw [if_neg (by simp), if_pos hkeys, splitOnce_append hcolon]
  simp only [bind, Except.bind, pure, Except.pure, int_blank_decimal, hstrip]

theorem CpuField.coresLine_text (s : CoresInfo) (f : CpuField) : coresLine s (f.text ++ [10]) = .ok ⟨s.mapping, f.add s.currentInfo⟩ := by
  cases f with
  | physicalId n => exact coresLine_number s (Or.inl rfl) n
  | cpuCores n => exact coresLine_number s (Or.inr rfl) n
  | other text newline notBlank other =>
    have hstrip : strip (text ++ [10]) = strip text := strip_append_right (List.forall_mem_singleton.2 rfl)
    simp only [coresLine, CpuField.text, hstrip]
    rw [if_neg notBlank, other, if_neg (by simp)]
    rfl

/-- The lines of a section, as the file is read. -/
def fieldLines (s : List CpuField) : List Bytes := s.map fun f => f.text ++ [10]

theorem foldlM_fields (s : List CpuField) (st : CoresInfo) : (fieldLines s).foldlM coresLine st =
    .ok ⟨st.mapping, s.foldl CpuField.add st.currentInfo⟩ := by
  induction s generalizing st with
  | nil => rfl
  | cons f s ih =>
    rw [fieldLines, List.map_cons, List.foldlM_cons, f.coresLine_text]
    exact ih _

/-- What a section leaves in `current_info`. -/
theorem get?_fields (s : List CpuField) :
    (s.foldl CpuField.add (∅ : Dict Bytes Int)).get? physicalId = (s.filterMap CpuField.id?).getLast?.map Nat.cast ∧
      (s.foldl CpuField.add (∅ : Dict Bytes Int)).get? cpuCores = (s.filterMap CpuField.cores?).getLast?.map Nat.cast := by
  induction s using List.reverseRecOn with
  | nil => exact ⟨rfl, rfl⟩
  | append_singleton s f ih =>
    have hne : physicalId ≠ cpuCores := by decide
    rw [List.foldl_append, List.filterMap_append, List.filterMap_append]
    cases f with
    | physicalId n => simpa [CpuField.add, CpuField.id?, CpuField.cores?, Dict.get?_set_ne _ _ hne.symm] using ih.2
    | cpuCores n => simpa [CpuField.add, CpuField.id?, CpuField.cores?, Dict.get?_set_ne _ _ hne] using ih.1
    | other => simpa [CpuField.add, CpuField.id?, CpuField.cores?] using ih

def intPair (p : ℕ × ℕ) : Int × Int := (p.1, p.2)

theorem foldlM_section (s : List CpuField) (mapping : Dict Int Int) :
    (fieldLines s ++ [[10]]).foldlM coresLine ⟨mapping, ∅⟩ =
      .ok ⟨mapping.update ((sectionPair s).toList.map intPair), ∅⟩ := by
  obtain ⟨hid, hcores⟩ := get?_fields s
  rw [List.foldlM_append, foldlM_fields]
  simp only [bind, Except.bind, List.foldlM_cons, List.foldlM_nil, coresLine]
  rw [if_pos (by decide), hid, hcores, sectionPair]
  cases (s.filterMap CpuField.id?).getLast? <;> cases (s.filterMap CpuField.cores?).getLast? <;> rfl

theorem foldlM_sections : ∀ (sections : List (List CpuField)) (mapping : Dict Int Int),
    (sections.flatMap fun s => fieldLines s ++ [[10]]).foldlM coresLine ⟨mapping, ∅⟩ =
      .ok ⟨mapping.update ((sections.filterMap sectionPair).map intPair), ∅⟩
  | [], _ => rfl
  | s :: sections, mapping => by
    rw [List.flatMap_cons, List.foldlM_append, foldlM_section]
    simp only [bind, Except.bind]
    rw [foldlM_sections sections, ← Dict.update_append, ← List.map_append]
    congr 4
    cases h : sectionPair s <;> simp [h]

/-- The file as a whole: a section counts if it has both lines, and the last one of a package counts. -/
theorem coresOfCpuinfo_text (sections : List (List CpuField)) : coresOfCpuinfo (cpuinfoText sections) =
    .ok (orNone (((∅ : Dict Int Int).update ((sections.filterMap sectionPair).map intPair)).items.map Prod.snd).sum) := by
  have hnewline : ∀ l ∈ sections.flatMap fun s => s.map CpuField.text ++ [[]], 10 ∉ l := by
    intro l hl
    obtain ⟨s, -, hl⟩ := List.mem_flatMap.1 hl
    rcases List.mem_append.1 hl with hl | hl
    · obtain ⟨f, -, rfl⟩ := List.mem_map.1 hl
      have hdecimal : ∀ n, 10 ∉ decimal n := fun n hc => absurd (isSpace_of_mem_decimal hc) (by decide)
      cases f with
      | physicalId n => simp [CpuField.text, hdecimal, show (10 : UInt8) ∉ physicalId by decide, show 10 ≠ byte ':' by decide]
      | cpuCores n => simp [CpuField.text, hdecimal, show (10 : UInt8) ∉ cpuCores by decide, show 10 ≠ byte ':' by decide]
      | other text newline => exact newline
    · simp [List.mem_singleton.1 hl]
  have hlines : (sections.flatMap fun s => s.map CpuField.text ++ [[]]).map (· ++ [10]) = sections.flatMap fun s => fieldLines s ++ [[10]] := by
    simp [List.map_flatMap, fieldLines, Function.comp_def]
  rw [coresOfCpuinfo, cpuinfoText, fileLines_unlines hnewline, hlines, foldlM_sections]
  rfl

/-! ## Counting -/

/-- Distinct values are counted alike when they are distinct for the same pairs. -/
theorem length_dedup_map {α β γ : Type} [DecidableEq β] [DecidableEq γ] {f : α → β} {g : α → γ} : ∀ {l : List α},
    (∀ a ∈ l, ∀ b ∈ l, f a = f b ↔ g a = g b) → (l.map f).dedup.length = (l.map g).dedup.length
  | [], _ => rfl
  | a :: l, h => by
    have ih := length_dedup_map (l := l) fun b hb c hc => h b (List.mem_cons_of_mem a hb) c (List.mem_cons_of_mem a hc)
    have hmem : f a ∈ l.map f ↔ g a ∈ l.map g := by
      simp only [List.mem_map]
      exact exists_congr fun b => and_congr_right fun hb => h b (List.mem_cons_of_mem a hb) a List.mem_cons_self
    rw [List.map_cons, List.map_cons]
    by_cases hf : f a ∈ l.map f
    · rw [List.dedup_cons_of_mem hf, List.dedup_cons_of_mem (hmem.1 hf), ih]
    · rw [List.dedup_cons_of_notMem hf, List.dedup_cons_of_notMem (fun hg => hf (hmem.2 hg)), List.length_cons, List.length_cons, ih]

/-- When the value belongs to the key, the values of a dictionary are summed over the distinct keys. -/
theorem sum_update {l : List (Int × Int)} {f : Int → Int} (h : ∀ p ∈ l, p.2 = f p.1) :
    (((∅ : Dict Int Int).update l).items.map Prod.snd).sum = ∑ k ∈ (l.map Prod.fst).toFinset, f k := by
  have hitems : ∀ p ∈ ((∅ : Dict Int Int).update l).items, p.2 = f p.1 := by
    intro p hp
    rcases Dict.mem_or_of_get?_update (Dict.mem_items.1 hp) with hp | hp
    · exact h p hp
    · cases hp
  have hkeys : ((∅ : Dict Int Int).update l).keys.toFinset = (l.map Prod.fst).toFinset := by
    ext k
    rw [List.mem_toFinset, List.mem_toFinset, ← Dict.mem_def, Dict.mem_update]
    simp
  rw [List.map_congr_left hitems, ← hkeys, List.sum_toFinset _ (Dict.nodup_keys _), Dict.keys, List.map_map]
  rfl

/-! ## The lists of `/sys` -/

theorem mem_kernelList {s : Finset ℕ} {c : ℕ} (h : c ∈ kernelList s) : c = 44 ∨ c = 45 ∨ 48 ≤ c ∧ c < 58 := by
  have hrun : ∀ r : ℕ × ℕ, c ∈ runText r → c = 45 ∨ 48 ≤ c ∧ c < 58 := by
    intro r hc
    rw [runText] at hc
    split_ifs at hc
    · exact Or.inr (Text.digit_of_mem_decimal hc)
    · rcases List.mem_append.1 hc with hc | hc
      · exact Or.inr (Text.digit_of_mem_decimal hc)
      · exact (List.mem_cons.1 hc).imp_right Text.digit_of_mem_decimal
  have hlist : ∀ rs : List (ℕ × ℕ), c ∈ [44].intercalate (rs.map runText) → c = 44 ∨ ∃ r ∈ rs, c ∈ runText r := by
    intro rs hc
    induction rs with
    | nil => simp at hc
    | cons r rs ih =>
      cases rs with
      | nil => exact Or.inr ⟨r, List.mem_cons_self, by simpa using hc⟩
      | cons r' rs =>
        rw [List.map_cons, List.map_cons, List.intercalate_cons_cons, List.mem_append, List.mem_append, List.mem_singleton] at hc
        rcases hc with (hc | hc) | hc
        · exact Or.inr ⟨r, List.mem_cons_self, hc⟩
        · exact Or.inl hc
        · rcases ih hc with hc | ⟨x, hx, hcx⟩
          · exact Or.inl hc
          · exact Or.inr ⟨x, List.mem_cons_of_mem r hx, hcx⟩
  rcases hlist _ h with hc | ⟨r, -, hc⟩
  · exact Or.inl hc
  · exact Or.inr (hrun r hc)

/-- A set is known from its list. -/
theorem kernelList_injective : Function.Injective kernelList := by
  have hexpands : ∀ s, Expands UnicodeData.ascii (items (kernelList s)) (s.sort.map Int.ofNat) := by
    intro s
    rw [kernelList, Runs.items_text, ← Runs.flatMap_runs (Runs.of s)]
    exact expands_runs _ (Runs.of s).le
  intro s s' h
  have hsort : s.sort.map Int.ofNat = s'.sort.map Int.ofNat := (hexpands s).unique (h ▸ hexpands s')
  have hsort : s.sort = s'.sort := List.map_injective_iff.2 (fun _ _ => Int.ofNat.inj) hsort
  ext n
  rw [← Finset.mem_sort (· ≤ ·), hsort, Finset.mem_sort]

theorem strip_listFile (s : Finset ℕ) : strip (listFile s) = (kernelList s).map Nat.toUInt8 := by
  rw [listFile, strip_append_right (List.forall_mem_singleton.2 rfl), strip_of_noSpace]
  intro c hc
  obtain ⟨n, hn, rfl⟩ := List.mem_map.1 hc
  have hsmall : n = 44 ∨ n = 45 ∨ 48 ≤ n ∧ n < 58 := mem_kernelList hn
  obtain ⟨hlo, hhi⟩ : 44 ≤ n ∧ n < 58 := by omega
  interval_cases n <;> decide

theorem strip_listFile_inj {s s' : Finset ℕ} : strip (listFile s) = strip (listFile s') ↔ s = s' := by
  refine ⟨fun h => kernelList_injective ?_, fun h => h ▸ rfl⟩
  have hback : ∀ s, ((kernelList s).map Nat.toUInt8).map UInt8.toNat = kernelList s := by
    intro s
    rw [List.map_map]
    refine (List.map_congr_left fun c hc => ?_).trans (List.map_id _)
    have hsmall := mem_kernelList hc
    exact Nat.mod_eq_of_lt (by omega)
  rw [strip_listFile, strip_listFile] at h
  rw [← hback s, h, hback]

namespace Topology

variable {t : Topology}

theorem cpu_unique {c d : LogicalCpu} (hc : c ∈ t.cpus) (hd : d ∈ t.cpus) (h : c.number = d.number) : c = d :=
  List.inj_on_of_nodup_map t.nodup hc hd h

/-- A core is known from its threads. -/
theorem siblings_inj {c d : LogicalCpu} (hc : c ∈ t.cpus) : t.siblings c.key = t.siblings d.key ↔ c.key = d.key := by
  refine ⟨fun h => ?_, fun h => h ▸ rfl⟩
  have hself : c.number ∈ t.siblings c.key := by
    simp only [siblings, List.mem_toFinset, List.mem_map, List.mem_filter, decide_eq_true_eq]
    exact ⟨c, ⟨hc, rfl⟩, rfl⟩
  rw [h] at hself
  simp only [siblings, List.mem_toFinset, List.mem_map, List.mem_filter, decide_eq_true_eq] at hself
  obtain ⟨e, ⟨he, hkey⟩, hnumber⟩ := hself
  rw [cpu_unique he hc hnumber] at hkey
  exact hkey

theorem card_cores_pos (t : Topology) : 0 < t.cores.card := by
  obtain ⟨c, hc⟩ := List.exists_mem_of_ne_nil _ t.nonempty
  exact Finset.card_pos.2 ⟨c.key, List.mem_toFinset.2 (List.mem_map_of_mem hc)⟩

/-- The packages' cores are the machine's. -/
theorem sum_coresIn (t : Topology) : ∑ p ∈ (t.cpus.map LogicalCpu.package).toFinset, t.coresIn p = t.cores.card := by
  have hpackages : (t.cpus.map LogicalCpu.package).toFinset = t.cores.image Prod.fst := by
    ext p
    simp [cores, LogicalCpu.key]
  rw [hpackages, Finset.card_eq_sum_card_image Prod.fst t.cores]
  rfl

end Topology

/-- The files of `/sys` are those of the machine: for each CPU the list of its core. -/
structure CoresHost.ShowsLists (h : CoresHost) (t : Topology) (path : LogicalCpu → Bytes) : Prop where
  paths : (if h.coreCpusLists = [] then h.threadSiblingsLists else h.coreCpusLists).Perm (t.cpus.map path)
  files : ∀ c ∈ t.cpus, h.openBinary (path c) = .ok (listFile (t.siblings c.key))

/-- There are no lists, and `cpuinfo` has these sections. -/
structure CoresHost.ShowsCpuinfo (h : CoresHost) (sections : List (List CpuField)) : Prop where
  coreCpusLists : h.coreCpusLists = []
  threadSiblingsLists : h.threadSiblingsLists = []
  cpuinfo : h.cpuinfo = .ok (cpuinfoText sections)

theorem cpuCountCores_lists {h : CoresHost} {t : Topology} {path : LogicalCpu → Bytes} (hshows : h.ShowsLists t path) :
    cpuCountCores h = .ok (some t.cores.card) := by
  let content (p : Bytes) : Bytes := (h.openBinary p).toOption.getD []
  have hcontent : ∀ c ∈ t.cpus, content (path c) = listFile (t.siblings c.key) := fun c hc => by
    simp only [content, hshows.files c hc]
    rfl
  have hread : ∀ p ∈ if h.coreCpusLists = [] then h.threadSiblingsLists else h.coreCpusLists,
      (h.openBinary p).mapError Exc.osError = .ok (content p) := by
    intro p hp
    obtain ⟨c, hc, rfl⟩ := List.mem_map.1 (hshows.paths.subset hp)
    rw [hshows.files c hc, hcontent c hc]
    rfl
  have hcount : ((((if h.coreCpusLists = [] then h.threadSiblingsLists else h.coreCpusLists).map content).map strip).dedup).length =
      t.cores.card := by
    rw [List.map_map, (hshows.paths.map _).dedup.length_eq, List.map_map, length_dedup_map (g := LogicalCpu.key), Topology.cores,
      List.card_toFinset]
    intro c hc d hd
    simp only [Function.comp_apply, hcontent c hc, hcontent d hd, strip_listFile_inj]
    exact Topology.siblings_inj hc
  rw [cpuCountCores, mapM_ok hread]
  simp only [bind, Except.bind]
  rw [hcount, if_pos t.card_cores_pos.ne']
  rfl

theorem cpuCountCores_cpuinfo {h : CoresHost} {sections : List (List CpuField)} (hshows : h.ShowsCpuinfo sections) :
    cpuCountCores h = .ok (orNone (((∅ : Dict Int Int).update ((sections.filterMap sectionPair).map intPair)).items.map Prod.snd).sum) := by
  rw [cpuCountCores, hshows.coreCpusLists, hshows.threadSiblingsLists, hshows.cpuinfo]
  exact coresOfCpuinfo_text sections

/-- **Both methods count the cores of the machine**, the first with the lists in `/sys`, the second with a `cpuinfo` that has a section
for each CPU, with its package and the number of the package's cores among the lines. A `cpuinfo` of which no section has both gives
`None`. -/
theorem cpuCountCores_counts (t : Topology) :
    (∀ (h : CoresHost) (path : LogicalCpu → Bytes), h.ShowsLists t path → cpuCountCores h = .ok (some t.cores.card)) ∧
      (∀ (h : CoresHost) (sections : List (List CpuField)), h.ShowsCpuinfo sections →
        (sections.map sectionPair).Perm (t.cpus.map fun c => some (c.package, t.coresIn c.package)) →
          cpuCountCores h = .ok (some t.cores.card)) ∧
      ∀ (h : CoresHost) (sections : List (List CpuField)), h.ShowsCpuinfo sections → (∀ s ∈ sections, sectionPair s = none) →
        cpuCountCores h = .ok none := by
  refine ⟨fun h path hshows => cpuCountCores_lists hshows, fun h sections hshows hperm => ?_, fun h sections hshows hnone => ?_⟩
  · have hpairs : (sections.filterMap sectionPair).Perm (t.cpus.map fun c => (c.package, t.coresIn c.package)) := by
      have := hperm.filterMap id
      rwa [List.filterMap_map, List.filterMap_map, Function.id_comp, Function.id_comp, show (fun c : LogicalCpu =>
        some (c.package, t.coresIn c.package)) = some ∘ fun c => (c.package, t.coresIn c.package) from rfl, List.filterMap_eq_map] at this
    have hvalue : ∀ p ∈ (sections.filterMap sectionPair).map intPair, p.2 = (t.coresIn p.1.toNat : Int) := by
      intro p hp
      obtain ⟨q, hq, rfl⟩ := List.mem_map.1 hp
      obtain ⟨c, -, rfl⟩ := List.mem_map.1 (hpairs.subset hq)
      rfl
    have hkeys : (((sections.filterMap sectionPair).map intPair).map Prod.fst).toFinset =
        (t.cpus.map LogicalCpu.package).toFinset.image (Nat.cast : ℕ → ℤ) := by
      rw [List.toFinset_eq_of_perm _ _ ((hpairs.map intPair).map Prod.fst)]
      ext k
      simp [intPair]
    rw [cpuCountCores_cpuinfo hshows, sum_update (f := fun k => (t.coresIn k.toNat : Int)) hvalue, hkeys, Finset.sum_image Nat.cast_injective.injOn]
    simp only [Int.toNat_natCast]
    rw [← Nat.cast_sum, t.sum_coresIn, orNone, if_neg (Int.natCast_ne_zero.2 t.card_cores_pos.ne')]
  · rw [cpuCountCores_cpuinfo hshows, List.filterMap_eq_nil_iff.2 hnone]
    rfl

/-- Two packages of two cores; the first core of the first package has two threads. -/
def twoPackages : Topology where
  cpus := [⟨0, 0, 0⟩, ⟨1, 0, 1⟩, ⟨2, 1, 0⟩, ⟨3, 1, 1⟩, ⟨4, 0, 0⟩]
  nonempty := by decide
  nodup := by decide

def twoPackagesInfo : List (List CpuField) := twoPackages.cpus.map fun c =>
  [.other (ascii "vendor_id\t: GenuineIntel") (by decide) (by decide) (by decide), .physicalId c.package, .cpuCores 2]

theorem cpuCountCores_counts_two : cpuCountCores ⟨[], [], fun _ => .error .enoent, .ok (cpuinfoText twoPackagesInfo)⟩ = .ok (some 4) :=
  (cpuCountCores_counts twoPackages).2.1 _ twoPackagesInfo ⟨rfl, rfl, rfl⟩ (by decide +kernel)

end Psutil.Linux
