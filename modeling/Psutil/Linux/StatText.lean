import Psutil.Lib.Fold
import Psutil.Linux.ProcFiles
import Psutil.Linux.Text

/-!
# `/proc/PID/stat` as the kernel prints it

| here | there |
| --- | --- |
| `ProcStat.text` | `pid (comm) S ppid …`, the fields numbered as in proc(5) |
| `ppidMap` | `ppid_map` (`_pslinux.py:1586`) |

The name is any text, with parentheses, blanks and newlines. `stat_readers`: the three readers that look for the last `)`
return what was printed, for every name.
-/

namespace Psutil

open Lib Bytes

/-- What the kernel prints: the fields are those from `ppid`, the fourth one, on. -/
structure ProcStat where
  pid : Nat
  comm : Bytes
  state : UInt8
  fields : List Int
  state_letter : (byte 'A' ≤ state ∧ state ≤ byte 'Z') ∨ (byte 'a' ≤ state ∧ state ≤ byte 'z')
  length_fields : 37 ≤ fields.length

namespace ProcStat

variable (p : ProcStat)

/-- The state and the fields after it. -/
def words : List Bytes := [p.state] :: p.fields.map decimalInt

def text : Bytes := decimal p.pid ++ ascii " (" ++ (p.comm ++ byte ')' :: (32 :: (blanks p.words ++ [10])))

/-- A number by its place in proc(5). -/
def field (n : Nat) : Int := p.fields.getD (n - 4) 0

/-- What a reader is to make of it. -/
def parsed : StatFields where
  name := p.comm
  status := [p.state]
  ppid := decimalInt (p.field 4)
  ttynr := decimalInt (p.field 7)
  minflt := decimalInt (p.field 10)
  majflt := decimalInt (p.field 12)
  utime := decimalInt (p.field 14)
  stime := decimalInt (p.field 15)
  childrenUtime := decimalInt (p.field 16)
  childrenStime := decimalInt (p.field 17)
  createTime := decimalInt (p.field 22)
  cpuNum := decimalInt (p.field 39)
  blkioTicks := if 39 ≤ p.fields.length then some (decimalInt (p.field 42)) else none

end ProcStat

/-- The PID of the parent, in a text that `ppid_map` has read. -/
def ppidField (data : Bytes) : Except Exc Int := do
  let rpar := data.rfind (byte ')')
  let dset := split (data.sliceFrom (rpar + 2))
  int (← getItem dset 1)

/-- `ppid_map()`; `stat` is what reading the file of a PID gives. -/
def ppidMap (pids : List Nat) (stat : Nat → Except Errno Bytes) : Except Exc (Dict Nat Int) :=
  pids.foldlM (fun ret pid => match stat pid with
    | .error .enoent | .error .esrch => .ok ret
    | .error .eacces | .error .eperm => .error (.accessDenied pid none)
    | .error errno => .error (.osError errno)
    | .ok data => return ret.set pid (← ppidField data)) ∅

namespace ProcStat

variable (p : ProcStat)

/-! ## The end of the name -/

theorem isSpace_state : isSpace p.state = false := by
  have h := p.state_letter
  simp only [isSpace, byte] at *
  grind

theorem isWord_words : ∀ x ∈ p.words, IsWord x := by
  intro x hx
  rcases List.mem_cons.1 hx with rfl | hx
  · exact ⟨List.cons_ne_nil _ _, by simpa using p.isSpace_state⟩
  · obtain ⟨z, -, rfl⟩ := List.mem_map.1 hx
    exact isWord_decimalInt z

/-- Up to the end of the name. -/
def head : Bytes := decimal p.pid ++ ascii " (" ++ p.comm

theorem text_eq : p.text = p.head ++ byte ')' :: (32 :: (blanks p.words ++ [10])) := by
  simp [text, head]

/-- No parenthesis comes after the name. -/
theorem rpar_notMem : byte ')' ∉ 32 :: (blanks p.words ++ [10]) := by
  intro h
  rcases List.mem_cons.1 h with h | h
  · exact absurd h (by decide)
  rcases List.mem_append.1 h with h | h
  · rcases mem_blanks h with h | ⟨x, hx, hc⟩
    · exact absurd h (by decide)
    rcases List.mem_cons.1 hx with rfl | hx
    · have hletter := p.state_letter
      rw [← List.mem_singleton.1 hc] at hletter
      exact absurd hletter (by decide)
    · obtain ⟨z, -, rfl⟩ := List.mem_map.1 hx
      rcases isDigit_or_of_mem_decimalInt hc with hd | hd <;> exact absurd hd (by decide)
  · exact absurd h (by decide)

theorem rfind_text : p.text.rfind (byte ')') = p.head.length := by
  rw [text_eq, rfind_append p.rpar_notMem]

theorem find_text : p.text.find (byte '(') = ((decimal p.pid).length + 1 : Nat) := by
  have hlpar : byte '(' ∉ decimal p.pid ++ [32] := by
    rw [List.mem_append, not_or]
    refine ⟨fun h => ?_, by decide⟩
    exact absurd (isDigit_of_mem_decimal h) (by decide)
  have hsplit : p.text = (decimal p.pid ++ [32]) ++ byte '(' :: (p.comm ++ byte ')' :: (32 :: (blanks p.words ++ [10]))) := by
    simp [text, ascii, byte]
  rw [hsplit, find_append hlpar, List.length_append, List.length_singleton]

/-- The columns after the name. -/
theorem split_text : split (p.text.sliceFrom (p.text.rfind (byte ')') + 2)) = p.words := by
  have hcut : p.text = (p.head ++ [byte ')', 32]) ++ (blanks p.words ++ [10]) := by simp [text_eq]
  rw [rfind_text]
  rw [hcut, sliceFrom_append _ _ (by simp), split_blanks_newline p.isWord_words]

theorem name_text : p.text.slice (p.text.find (byte '(') + 1) (p.text.rfind (byte ')')) = p.comm := by
  have hcut : p.text = (decimal p.pid ++ ascii " (") ++ (p.comm ++ byte ')' :: (32 :: (blanks p.words ++ [10]))) := by simp [text]
  rw [rfind_text, find_text, hcut]
  apply slice_append
  · simp [ascii]
    omega
  · simp [head]
    omega

theorem getItem_words {i : Nat} (h : i < p.fields.length) : getItem p.words (i + 1) = .ok (decimalInt (p.field (i + 4))) := by
  rw [getItem, words, List.getElem?_cons_succ, List.getElem?_map, List.getElem?_eq_getElem h, field, Nat.add_sub_cancel,
    List.getD_eq_getElem?_getD, List.getElem?_eq_getElem h]
  rfl

/-! ## The readers -/

/-- The field that some kernels leave out. -/
theorem getElem?_words : p.words[39]? = p.parsed.blkioTicks := by
  by_cases h : 39 ≤ p.fields.length
  · have hlt : 38 < p.fields.length := h
    simp [words, parsed, field, h, List.getElem?_eq_getElem hlt]
  · have hge : p.words.length ≤ 39 := by
      rw [words, List.length_cons, List.length_map]
      omega
    rw [List.getElem?_eq_none hge, parsed, if_neg h]

theorem parse_text : StatFields.parse p.text = .ok p.parsed := by
  have hlen := p.length_fields
  have hstate : getItem p.words 0 = .ok [p.state] := rfl
  have hppid := p.getItem_words (i := 0) (by omega)
  have httynr := p.getItem_words (i := 3) (by omega)
  have hminflt := p.getItem_words (i := 6) (by omega)
  have hmajflt := p.getItem_words (i := 8) (by omega)
  have hutime := p.getItem_words (i := 10) (by omega)
  have hstime := p.getItem_words (i := 11) (by omega)
  have hcutime := p.getItem_words (i := 12) (by omega)
  have hcstime := p.getItem_words (i := 13) (by omega)
  have hstart := p.getItem_words (i := 18) (by omega)
  have hcpu := p.getItem_words (i := 35) (by omega)
  simp only [StatFields.parse, p.name_text, p.split_text, hstate, hppid, httynr, hminflt, hmajflt, hutime, hstime, hcutime,
    hcstime, hstart, hcpu, p.getElem?_words, bind, Except.bind]
  rfl

theorem showsZombie_text : showsZombie p.text = true ↔ p.state = byte 'Z' := by
  have hblanks : ∃ rest, blanks p.words ++ [10] = [p.state] ++ rest := by
    obtain ⟨ppid, fields, hfields⟩ := List.exists_cons_of_length_pos (Nat.lt_of_lt_of_le (by decide) p.length_fields)
    exact ⟨_, by rw [words, hfields, List.map_cons, blanks_cons, List.append_assoc]⟩
  obtain ⟨rest, hrest⟩ := hblanks
  have hcut : p.text = (p.head ++ [byte ')', 32]) ++ ([p.state] ++ rest) := by simp [text_eq, hrest]
  have hstatus : p.text.slice (p.text.rfind (byte ')') + 2) (p.text.rfind (byte ')') + 3) = [p.state] := by
    rw [rfind_text, hcut]
    apply slice_append
    · simp
    · simp
      omega
  rw [showsZombie, hstatus, decide_eq_true_iff]
  simp [ascii, byte]

theorem ppidField_text : ppidField p.text = .ok (p.field 4) := by
  have hlen := p.length_fields
  simp only [ppidField, p.split_text, p.getItem_words (i := 0) (by omega)]
  exact int_decimalInt _

end ProcStat

/-! ## All processes -/

/-- Every file is gone when it is read, or is that of its process. -/
def ShowsProcs (pids : List Nat) (stat : Nat → Except Errno Bytes) : Prop :=
  ∀ pid ∈ pids, stat pid = .error .enoent ∨ stat pid = .error .esrch ∨ ∃ p : ProcStat, p.pid = pid ∧ stat pid = .ok p.text

/-- `ppid_map()` has the parents of the listed processes that are there. -/
theorem ppidMap_spec {pids : List Nat} {stat : Nat → Except Errno Bytes} (h : ShowsProcs pids stat) :
    ∃ ret, ppidMap pids stat = .ok ret ∧
      ∀ p : ProcStat, stat p.pid = .ok p.text → ret.get? p.pid = if p.pid ∈ pids then some (p.field 4) else none := by
  apply foldlM_ok (fun done ret => ∀ p : ProcStat, stat p.pid = .ok p.text →
    Dict.get? ret p.pid = if p.pid ∈ done then some (p.field 4) else none)
  · rintro done pid rest ret rfl hret
    -- a file that is gone leaves no item
    have hgone : ∀ errno, stat pid = .error errno → ∀ p : ProcStat, stat p.pid = .ok p.text →
        Dict.get? ret p.pid = if p.pid ∈ done ++ [pid] then some (p.field 4) else none := by
      intro errno herr p hp
      have hne : p.pid ≠ pid := by
        rintro rfl
        rw [herr] at hp
        cases hp
      simpa [hne] using hret p hp
    rcases h pid (by simp) with herr | herr | ⟨q, rfl, hq⟩
    · exact ⟨ret, by simp only [herr], hgone _ herr⟩
    · exact ⟨ret, by simp only [herr], hgone _ herr⟩
    · refine ⟨ret.set q.pid (q.field 4), ?_, fun p hp => ?_⟩
      · simp only [hq, q.ppidField_text]
        rfl
      · rw [Dict.get?_set]
        by_cases hpid : p.pid = q.pid
        · have htext : p.text = q.text := Except.ok.inj (hp.symm.trans (hpid ▸ hq))
          have hppid := p.ppidField_text
          rw [htext, q.ppidField_text, Except.ok.injEq] at hppid
          simp [hpid, hppid]
        · simpa [hpid] using hret p hp
  · intro p _
    simp

/-- **The readers return what the kernel has printed, for every name.** -/
theorem stat_readers (p : ProcStat) : StatFields.parse p.text = .ok p.parsed ∧
    (∀ pids stat, ShowsProcs pids stat → p.pid ∈ pids → stat p.pid = .ok p.text →
      ∃ ret, ppidMap pids stat = .ok ret ∧ ret.get? p.pid = some (p.field 4)) ∧
    (showsZombie p.text = true ↔ p.state = byte 'Z') := by
  refine ⟨p.parse_text, fun pids stat hshows hpid hstat => ?_, p.showsZombie_text⟩
  obtain ⟨ret, hret, hget⟩ := ppidMap_spec hshows
  exact ⟨ret, hret, by rw [hget p hstat, if_pos hpid]⟩

/-- A process that is named like the columns of a running one. -/
def forger : ProcStat where
  pid := 7
  comm := ascii "a) R 1 "
  state := byte 'Z'
  fields := (List.range 40).map Int.ofNat
  state_letter := by decide
  length_fields := by decide

theorem stat_readers_forger : StatFields.parse forger.text = .ok forger.parsed ∧
    (∀ pids stat, ShowsProcs pids stat → forger.pid ∈ pids → stat forger.pid = .ok forger.text →
      ∃ ret, ppidMap pids stat = .ok ret ∧ ret.get? forger.pid = some (forger.field 4)) ∧
    (showsZombie forger.text = true ↔ forger.state = byte 'Z') :=
  stat_readers forger

end Psutil
