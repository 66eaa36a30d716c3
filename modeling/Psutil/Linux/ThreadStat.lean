import Mathlib.Tactic.FieldSimp
import Psutil.Linux.StatText

/-!
# `Process.threads()` on Linux (`_pslinux.py:2113-2138`)

| here | there |
| --- | --- |
| `threadTimes` | the lines on one `stat` file of a thread |
| `TaskDir.threads` | the loop over `/proc/PID/task`, under its decorator |

The code takes the first `)` for the end of the name, and splits at single blanks. `threads_iff`: a name with a `)` moves the
columns by the blanks that come after it and one, and the result is right only where the columns hold the same numbers.
-/

namespace Psutil

open Lib Bytes

/-- One thread: its ID, user time and system time. -/
def threadTimes (clockTicks : Nat) (threadId data : Bytes) : Except Exc (Int × ℚ × ℚ) := do
  let st := strip data
  -- ignore the first two values ("pid (exe)")
  let st := st.sliceFrom (st.find (byte ')') + 2)
  let values := st.splitOn 32
  let utime := (← float (← getItem values 11)) / clockTicks
  let stime := (← float (← getItem values 12)) / clockTicks
  return (← int threadId, utime, stime)

/-- `/proc/PID/task`, and whether `/proc/PID` is there afterwards. -/
structure TaskDir where
  names : Except Errno (List Bytes)
  stat : Bytes → Except Errno Bytes
  alive : Except Errno Unit

/-- One round of the loop: `retlist` and `hit_enoent`. -/
def TaskDir.threadsStep (d : TaskDir) (clockTicks : Nat) (acc : List (Int × ℚ × ℚ) × Bool) (threadId : Bytes) :
    Except Exc (List (Int × ℚ × ℚ) × Bool) :=
  match d.stat threadId with
  | .error .enoent | .error .esrch => .ok (acc.1, true)
  | .error errno => .error (.osError errno)
  | .ok data => return (acc.1 ++ [← threadTimes clockTicks threadId data], acc.2)

def TaskDir.threads (d : TaskDir) (clockTicks : Nat) : Except Exc (List (Int × ℚ × ℚ)) :=
  match d.names with
  | .error errno => .error (.osError errno)
  | .ok threadIds => do
    let (retlist, hitEnoent) ← (threadIds.mergeSort fun x y => decide (x ≤ y)).foldlM (d.threadsStep clockTicks) ([], false)
    if hitEnoent then
      match d.alive with
      | .error errno => .error (.osError errno)
      | .ok () => return retlist
    else return retlist

/-! ## What a directory shows -/

/-- Every thread has its file. -/
structure TaskDir.Shows (d : TaskDir) (threads : List ProcStat) : Prop where
  names : d.names = .ok (threads.map fun t => decimal t.pid)
  stat : ∀ t ∈ threads, d.stat (decimal t.pid) = .ok t.text

/-- What `threads()` is to return for a thread. -/
def ProcStat.threadTimes (clockTicks : Nat) (t : ProcStat) : Int × ℚ × ℚ :=
  (t.pid, t.field 14 / clockTicks, t.field 15 / clockTicks)

/-- The threads in the order of their names. -/
def byName (threads : List ProcStat) : List ProcStat :=
  threads.mergeSort fun t u => decide (decimal t.pid ≤ decimal u.pid)

/-- By how many columns a name moves those after it. -/
def shift (comm : Bytes) : Nat :=
  match comm.dropWhile (· ≠ byte ')') with
  | [] => 0
  | _ :: rest => (rest.drop 1).count 32 + 1

example : [shift (ascii "python3"), shift (ascii "(sd-pam)"), shift (ascii "a) R 1 ")] = [0, 1, 3] := by decide

/-! ## One thread -/

/-- What the code takes for the first columns. -/
def lost (comm : Bytes) : List Bytes :=
  match comm.dropWhile (· ≠ byte ')') with
  | [] => []
  | _ :: rest => ((rest ++ [byte ')']).drop 1).splitOn 32

/-- A name up to its first `)`. -/
theorem comm_cases (comm : Bytes) : (byte ')' ∉ comm ∧ comm.dropWhile (· ≠ byte ')') = []) ∨
    ∃ x rest, byte ')' ∉ x ∧ comm = x ++ byte ')' :: rest ∧ comm.dropWhile (· ≠ byte ')') = byte ')' :: rest := by
  have happend := List.takeWhile_append_dropWhile (p := (· ≠ byte ')')) (l := comm)
  have hfirst : byte ')' ∉ comm.takeWhile (· ≠ byte ')') := fun h => by simpa using List.mem_takeWhile_imp h
  cases hdrop : comm.dropWhile (· ≠ byte ')') with
  | nil =>
    rw [hdrop, List.append_nil] at happend
    exact Or.inl ⟨happend ▸ hfirst, rfl⟩
  | cons c rest =>
    have hc : c = byte ')' := by
      have hne : comm.dropWhile (· ≠ byte ')') ≠ [] := by
        rw [hdrop]
        exact List.cons_ne_nil c rest
      have hhead := List.head_dropWhile_not (· ≠ byte ')') hne
      simp only [hdrop, List.head_cons] at hhead
      simpa using hhead
    rw [hdrop, hc] at happend
    exact Or.inr ⟨_, rest, hfirst, happend.symm, by rw [hc]⟩

theorem length_lost (comm : Bytes) : (lost comm).length = shift comm := by
  rw [lost, shift]
  rcases comm_cases comm with ⟨-, h⟩ | ⟨x, rest, -, -, h⟩
  · rw [h]
    rfl
  · rw [h]
    cases rest with
    | nil => rfl
    | cons c rest => simp [length_splitOn, List.count_append, byte]

namespace ProcStat

variable (p : ProcStat)

theorem strip_text : strip p.text = p.head ++ byte ')' :: (32 :: blanks p.words) := by
  obtain ⟨c, digits, hdigits⟩ := List.exists_cons_of_ne_nil (decimal_ne_nil p.pid)
  obtain ⟨init, d, hlast, hd⟩ := exists_last_blanks (List.cons_ne_nil _ _) p.isWord_words
  have htext : p.text = (p.head ++ byte ')' :: (32 :: blanks p.words)) ++ [10] := by simp [text_eq]
  have hfirst : p.head ++ byte ')' :: (32 :: blanks p.words) =
      c :: (digits ++ (ascii " (" ++ (p.comm ++ byte ')' :: (32 :: blanks p.words)))) := by simp [head, hdigits]
  have hend : p.head ++ byte ')' :: (32 :: blanks p.words) = (p.head ++ byte ')' :: (32 :: init)) ++ [d] := by
    have hwords : blanks p.words = init ++ [d] := hlast
    simp [hwords]
  rw [htext]
  apply strip_newline hfirst hend
  · exact isSpace_of_mem_decimal (hdigits ▸ List.mem_cons_self)
  · exact hd

/-- The columns of the code are those of the file, after the ones of the name. -/
theorem columns_text : ((strip p.text).sliceFrom ((strip p.text).find (byte ')') + 2)).splitOn 32 = lost p.comm ++ p.words := by
  have hhead : byte ')' ∉ decimal p.pid ++ ascii " (" := by
    rw [List.mem_append, not_or]
    exact ⟨fun h => absurd (isDigit_of_mem_decimal h) (by decide), by decide⟩
  have hwords : (blanks p.words).splitOn 32 = p.words := splitOn_blanks (List.cons_ne_nil _ _) p.isWord_words
  rw [strip_text, lost]
  rcases comm_cases p.comm with ⟨hno, h⟩ | ⟨x, rest, hno, hcomm, h⟩
  · have hfirst : byte ')' ∉ p.head := by
      rw [head, List.mem_append, not_or]
      exact ⟨hhead, hno⟩
    have hcut : p.head ++ byte ')' :: (32 :: blanks p.words) = (p.head ++ [byte ')', 32]) ++ blanks p.words := by simp
    rw [h, find_append hfirst]
    rw [hcut, sliceFrom_append _ _ (by simp), hwords, List.nil_append]
  · have hfirst : byte ')' ∉ decimal p.pid ++ ascii " (" ++ x := by
      rw [List.mem_append, not_or]
      exact ⟨hhead, hno⟩
    have hone : ((rest ++ [byte ')']).take 1).length = 1 := by simp
    have hcut : p.head ++ byte ')' :: (32 :: blanks p.words) =
        (decimal p.pid ++ ascii " (" ++ x ++ byte ')' :: (rest ++ [byte ')']).take 1) ++
          ((rest ++ [byte ')']).drop 1 ++ 32 :: blanks p.words) := by
      have hsplit := List.take_append_drop 1 (rest ++ [byte ')'])
      simp only [head, hcomm, List.append_assoc, List.cons_append]
      rw [← List.append_assoc (List.take 1 _), hsplit]
      simp
    have hfind : find (p.head ++ byte ')' :: (32 :: blanks p.words)) (byte ')') = (decimal p.pid ++ ascii " (" ++ x).length := by
      rw [head, hcomm, show decimal p.pid ++ ascii " (" ++ (x ++ byte ')' :: rest) ++ byte ')' :: (32 :: blanks p.words) =
        (decimal p.pid ++ ascii " (" ++ x) ++ byte ')' :: (rest ++ byte ')' :: (32 :: blanks p.words)) by simp]
      exact find_append hfirst _
    rw [h, hfind, hcut, sliceFrom_append _ _ (by
      simp only [List.length_append, List.length_cons, hone]
      push_cast
      omega), splitOn_append_cons, hwords]

/-- A column that holds a number. -/
def Holds (columns : List Bytes) (i : Nat) (n : Int) : Prop := ∃ x, columns[i]? = some x ∧ float x = .ok (n : ℚ)

/-- After the lost columns come the state, which is no number, and the fields. -/
theorem holds_field {l : List Bytes} {i : Nat} (h : i < p.fields.length) {n : Int} :
    Holds (l ++ p.words) (l.length + (i + 1)) n ↔ p.field (i + 4) = n := by
  have hget : (l ++ p.words)[l.length + (i + 1)]? = some (decimalInt (p.field (i + 4))) := by
    have hword := p.getItem_words h
    rw [List.getElem?_append_right (Nat.le_add_right _ _), Nat.add_sub_cancel_left]
    rw [getItem] at hword
    cases hw : p.words[i + 1]? with
    | none =>
      rw [hw] at hword
      cases hword
    | some x =>
      rw [hw] at hword
      rw [Except.ok.inj hword]
  simp [Holds, hget]

theorem not_holds_state {l : List Bytes} {n : Int} : ¬Holds (l ++ p.words) l.length n := by
  rintro ⟨x, hx, hfloat⟩
  have hstate : x = [p.state] := by simpa [words] using hx.symm
  have hletter := p.state_letter
  obtain hs | hd | hu | hm | hp := (float_ok hfloat).2 p.state (hstate ▸ List.mem_cons_self)
  · rw [p.isSpace_state] at hs
    cases hs
  · simp only [isDigit, byte] at *
    grind
  all_goals
    simp only [byte] at *
    grind

theorem threadTimes_eq_iff {clockTicks : Nat} (hclock : 0 < clockTicks) :
    Psutil.threadTimes clockTicks (decimal p.pid) p.text = .ok (p.threadTimes clockTicks) ↔
      Holds (lost p.comm ++ p.words) 11 (p.field 14) ∧ Holds (lost p.comm ++ p.words) 12 (p.field 15) := by
  have hclock' : (clockTicks : ℚ) ≠ 0 := Nat.cast_ne_zero.2 hclock.ne'
  simp only [Psutil.threadTimes, p.columns_text, getItem, Holds, bind, Except.bind, threadTimes]
  cases h11 : (lost p.comm ++ p.words)[11]? with
  | none => simp
  | some x =>
    cases h12 : (lost p.comm ++ p.words)[12]? with
    | none =>
      cases hx : float x with
      | error e => simp [hx]
      | ok u => simp [hx]
    | some y =>
      cases hx : float x with
      | error e => simp [hx]
      | ok u =>
        cases hy : float y with
        | error e => simp [hx, hy]
        | ok v => simp [hx, hy, pure, Except.pure, div_left_inj' hclock']

end ProcStat

/-- In a name of at most 15 bytes there is no room for a number in that column. -/
theorem lost_short {comm : Bytes} (hlen : comm.length ≤ 15) {x : Bytes} (hx : (lost comm)[12]? = some x) : x = [] ∨ byte ')' ∈ x := by
  rw [lost] at hx
  rcases comm_cases comm with ⟨-, h⟩ | ⟨y, rest, -, rfl, h⟩
  · rw [h] at hx
    cases hx
  · rw [h] at hx
    cases rest with
    | nil => cases hx
    | cons c rest =>
      have hrest : rest.length ≤ 13 := by
        simp only [List.length_append, List.length_cons] at hlen
        omega
      obtain ⟨init, w, hsplit⟩ := exists_last_splitOn (c := 32) (d := byte ')') (by decide) rest
      have hcount : init.length = rest.count 32 := by
        have hlength := length_splitOn 32 (rest ++ [byte ')'])
        rw [hsplit, List.length_append, List.count_append] at hlength
        exact Nat.succ.inj hlength
      simp only [List.cons_append, List.drop_one, List.tail_cons] at hx
      obtain ⟨hlt, -⟩ := List.getElem?_eq_some_iff.1 hx
      by_cases hlast : init.length = 12
      · rw [hsplit, List.getElem?_append_right (by omega), hlast] at hx
        right
        simp [← Option.some.inj hx]
      · -- thirteen blanks fill the name
        have hle := List.count_le_length (a := (32 : UInt8)) (l := rest)
        rw [hsplit, List.length_append, List.length_singleton] at hlt
        have hthirteen : rest = List.replicate 13 32 := by
          rw [List.eq_replicate_iff]
          refine ⟨by omega, fun d hd => ?_⟩
          exact (List.count_eq_length.1 (by omega) d hd).symm
        rw [hthirteen] at hx
        exact Or.inl (Option.some.inj (hx.symm.trans (by decide)))

namespace ProcStat

variable (p : ProcStat)

/-- **One thread**: the columns must not have moved too far, and must hold the same numbers. -/
theorem threadTimes_iff {clockTicks : Nat} (hclock : 0 < clockTicks) (hcomm : p.comm.length ≤ 15) :
    Psutil.threadTimes clockTicks (decimal p.pid) p.text = .ok (p.threadTimes clockTicks) ↔
      shift p.comm ≤ 10 ∧ p.field (14 - shift p.comm) = p.field 14 ∧ p.field (15 - shift p.comm) = p.field 15 := by
  have hfields := p.length_fields
  rw [p.threadTimes_eq_iff hclock]
  have hlost := length_lost p.comm
  by_cases hfar : shift p.comm ≤ 10
  · have h11 := p.holds_field (l := lost p.comm) (i := 10 - shift p.comm) (n := p.field 14) (by omega)
    have h12 := p.holds_field (l := lost p.comm) (i := 11 - shift p.comm) (n := p.field 15) (by omega)
    rw [show (lost p.comm).length + (10 - shift p.comm + 1) = 11 by omega, show 10 - shift p.comm + 4 = 14 - shift p.comm by omega] at h11
    rw [show (lost p.comm).length + (11 - shift p.comm + 1) = 12 by omega, show 11 - shift p.comm + 4 = 15 - shift p.comm by omega] at h12
    rw [h11, h12]
    simp only [hfar, true_and]
  · simp only [hfar, false_and, iff_false]
    rintro ⟨h11, h12⟩
    -- the state stands in one of the columns, or a part of the name does
    rcases Nat.lt_trichotomy (shift p.comm) 12 with hlt | heq | hgt
    · have heq : (lost p.comm).length = 11 := by omega
      exact p.not_holds_state (heq ▸ h11)
    · exact p.not_holds_state (hlost.trans heq ▸ h12)
    · obtain ⟨x, hx, hfloat⟩ := h12
      rw [List.getElem?_append_left (by omega)] at hx
      obtain ⟨hne, hnumeric⟩ := float_ok hfloat
      rcases lost_short hcomm hx with hnil | hpar
      · exact hne hnil
      · exact absurd (hnumeric _ hpar) (by unfold IsNumeric; decide)

/-- A name without `)` moves no column. -/
theorem threadTimes_of_notMem {clockTicks : Nat} (hclock : 0 < clockTicks) (hcomm : byte ')' ∉ p.comm) :
    Psutil.threadTimes clockTicks (decimal p.pid) p.text = .ok (p.threadTimes clockTicks) := by
  have hfields := p.length_fields
  have hlost : lost p.comm = [] := by
    rcases comm_cases p.comm with ⟨-, h⟩ | ⟨x, rest, -, heq, -⟩
    · rw [lost, h]
    · exact absurd (heq ▸ by simp) hcomm
  rw [p.threadTimes_eq_iff hclock, hlost]
  exact ⟨(p.holds_field (l := []) (i := 10) (by omega)).2 rfl, (p.holds_field (l := []) (i := 11) (by omega)).2 rfl⟩

end ProcStat

/-! ## All threads -/

/-- The loop returns what is to be returned exactly when each file gives it. -/
theorem TaskDir.threads_eq_iff {d : TaskDir} {threads : List ProcStat} (h : d.Shows threads) (clockTicks : Nat) :
    d.threads clockTicks = .ok ((byName threads).map (ProcStat.threadTimes clockTicks)) ↔
      ∀ t ∈ threads, threadTimes clockTicks (decimal t.pid) t.text = .ok (t.threadTimes clockTicks) := by
  have hsort : (threads.map fun t => decimal t.pid).mergeSort (fun x y => decide (x ≤ y)) = (byName threads).map fun t => decimal t.pid :=
    (List.map_mergeSort (f := fun t : ProcStat => decimal t.pid) (s := fun x y => decide (x ≤ y)) fun _ _ _ _ => rfl).symm
  have hmem : ∀ t, t ∈ byName threads ↔ t ∈ threads := fun t => List.mem_mergeSort
  have hstep : ∀ t ∈ byName threads, ∀ done, d.threadsStep clockTicks (done, false) (decimal t.pid) =
      (threadTimes clockTicks (decimal t.pid) t.text).map fun r => (done ++ [r], false) := by
    intro t ht done
    simp only [threadsStep, h.stat t ((hmem t).1 ht)]
    cases threadTimes clockTicks (decimal t.pid) t.text <;> rfl
  have hloop : ((byName threads).map fun t => decimal t.pid).foldlM (d.threadsStep clockTicks) ([], false) =
      ((byName threads).mapM fun t => threadTimes clockTicks (decimal t.pid) t.text).map fun ret => (ret, false) := by
    rw [List.foldlM_map]
    exact foldlM_append hstep []
  have hret : d.threads clockTicks = (byName threads).mapM fun t => threadTimes clockTicks (decimal t.pid) t.text := by
    rw [TaskDir.threads, h.names]
    simp only [hsort, hloop]
    cases (byName threads).mapM fun t => threadTimes clockTicks (decimal t.pid) t.text <;> rfl
  rw [hret, mapM_ok_iff]
  exact forall_congr' fun t => imp_congr_left (hmem t)

/-- **`threads()` is right exactly when** no name moves the columns of its thread too far, and those it moves hold the
numbers of the right ones. -/
theorem threads_iff {d : TaskDir} {threads : List ProcStat} {clockTicks : Nat} (h : d.Shows threads) (hclock : 0 < clockTicks)
    (hcomm : ∀ t ∈ threads, t.comm.length ≤ 15) :
    d.threads clockTicks = .ok ((byName threads).map (ProcStat.threadTimes clockTicks)) ↔
      ∀ t ∈ threads, shift t.comm ≤ 10 ∧ t.field (14 - shift t.comm) = t.field 14 ∧ t.field (15 - shift t.comm) = t.field 15 := by
  rw [d.threads_eq_iff h clockTicks]
  exact forall_congr' fun t => forall_congr' fun ht => t.threadTimes_iff hclock (hcomm t ht)

/-- Names without `)`, of any length. -/
theorem threads_of_notMem {d : TaskDir} {threads : List ProcStat} {clockTicks : Nat} (h : d.Shows threads) (hclock : 0 < clockTicks)
    (hcomm : ∀ t ∈ threads, byte ')' ∉ t.comm) :
    d.threads clockTicks = .ok ((byName threads).map (ProcStat.threadTimes clockTicks)) :=
  (d.threads_eq_iff h clockTicks).2 fun t ht => t.threadTimes_of_notMem hclock (hcomm t ht)

/-- A thread with the name `comm` that has used 300 ticks in user mode and 200 in the system. -/
def namedThread (comm : Bytes) : ProcStat where
  pid := 7
  comm := comm
  state := byte 'S'
  fields := [1, 7, 7, 0, -1, 64, 100, 0, 5, 0, 300, 200] ++ List.replicate 37 0
  state_letter := by decide
  length_fields := by decide

/-- The directory of that thread. -/
def namedDir (comm : Bytes) : TaskDir := ⟨.ok [decimal 7], fun _ => .ok (namedThread comm).text, .ok ()⟩

theorem namedDir_shows (comm : Bytes) : (namedDir comm).Shows [namedThread comm] := by
  refine ⟨rfl, fun t ht => ?_⟩
  rw [List.mem_singleton.1 ht]
  rfl

/-- The helper of systemd: the page faults of its children are taken for its user time, and that for its system time. -/
theorem threads_moves_columns : ¬∀ (d : TaskDir) (threads : List ProcStat) (clockTicks : Nat), d.Shows threads → 0 < clockTicks →
    (∀ t ∈ threads, t.comm.length ≤ 15) →
    d.threads clockTicks = .ok ((byName threads).map (ProcStat.threadTimes clockTicks)) := by
  intro h
  have hshows := namedDir_shows (ascii "(sd-pam)")
  have hret := (TaskDir.threads_eq_iff hshows 100).1 (h _ _ 100 hshows (by decide) (by decide)) _ List.mem_cons_self
  have hcolumns := ((namedThread (ascii "(sd-pam)")).threadTimes_iff (by decide) (by decide)).1 hret
  exact absurd hcolumns (by decide)

theorem threads_python : (namedDir (ascii "python3")).threads 100 = .ok ((byName [namedThread (ascii "python3")]).map (ProcStat.threadTimes 100)) :=
  (threads_iff (namedDir_shows _) (by decide) (by decide)).2 (by decide)

end Psutil
