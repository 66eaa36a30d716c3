import Psutil.Linux.SmapsText

/-!
# `Process.memory_maps` on Linux (`_pslinux.py:2009-2077`)

`memoryMaps`, of `ProcFiles`, on the text of a file that has regions. The dictionary `data` is one for all blocks, so what a
block does not show is left from the blocks before it. `memoryMaps_own_iff`: every region gets its own numbers exactly when
nothing but zeros is left for it, and no look for a deleted path fails.
-/

namespace Psutil

open Lib Bytes

/-! ## What is to be returned -/

/-- The numbers of a block, in bytes; 0 is a line that it has not. -/
def SmapsBlock.ownNums (b : SmapsBlock) : List Int := regionFields.map fun f => ((b.numbers.get? (ascii f)).getD 0 : Nat) * 1024

/-- The paths that are looked for. -/
def askedPaths (blocks : List SmapsBlock) : List Bytes :=
  (blocks.map SmapsBlock.pathname).filter (endsWith · (ascii " (deleted)"))

/-- Every question has an answer: no `PermissionError`. -/
def Answered (ex : PathExists) : (now : Nat) → List Bytes → Prop
  | _, [] => True
  | now, path :: paths => (∃ there, ex now path = .ok there) ∧ Answered ex (now + 1) paths

/-- The address, the permissions and the numbers of an item. -/
def Region.view (r : Region) : Bytes × Bytes × List Int := (r.addr, r.perms, r.nums)

/-- An entry for each block, in order, with the numbers of that block. -/
def OwnNumbers (ex : PathExists) (now : Nat) (blocks : List SmapsBlock) : Prop :=
  ∃ ls, (memoryMaps ex now (strip (smapsText blocks))).1 = .ok ls ∧
    ls.map Region.view = blocks.map fun b => (b.addr, b.perms, b.ownNums)

/-- The number of the last block that has the line. -/
def lastNumber (label : Bytes) (blocks : List SmapsBlock) : Option Nat := blocks.reverse.findSome? (·.numbers.get? label)

/-- What a block does not show, the last block before it that does shows as 0. -/
def NothingLeft (blocks : List SmapsBlock) : Prop :=
  ∀ earlier b later, blocks = earlier ++ b :: later → ∀ f ∈ regionFields, b.numbers.get? (ascii f) = none →
    (lastNumber (ascii f) earlier).getD 0 = 0

/-! ## One line -/

theorem splitMax_space {c : UInt8} (hc : isSpace c = true) (n : Nat) (x : Bytes) : splitMax n (c :: x) = splitMax n x := by
  have hstrip : lstrip (c :: x) = lstrip x := List.dropWhile_cons_of_pos hc
  unfold splitMax
  rw [hstrip]

theorem splitMax_nil (n : Nat) : splitMax n [] = [] := by
  unfold splitMax
  rfl

/-- The first word, and what is behind it. -/
theorem splitMax_append {w : Bytes} (hw : IsWord w) {y : Bytes} (hy : ∀ c rest, y = c :: rest → isSpace c = true) (n : Nat) :
    splitMax (n + 1) (w ++ y) = w :: splitMax n y := by
  obtain ⟨c, w', rfl⟩ := List.exists_cons_of_ne_nil hw.1
  have hstrip : lstrip (c :: w' ++ y) = c :: w' ++ y := List.dropWhile_cons_of_neg (by simp [hw.2 c List.mem_cons_self])
  have hall : ∀ d ∈ c :: w', (!isSpace d) = true := fun d hd => by rw [hw.2 d hd]; rfl
  have hend : y.takeWhile (!isSpace ·) = [] ∧ y.dropWhile (!isSpace ·) = y := by
    cases y with
    | nil => exact ⟨rfl, rfl⟩
    | cons d rest => simp [hy d rest rfl]
  have hcut : splitMax (n + 1) (c :: w' ++ y) =
      (c :: w' ++ y).takeWhile (!isSpace ·) :: splitMax n ((c :: w' ++ y).dropWhile (!isSpace ·)) := by
    conv_lhs => unfold splitMax
    rw [hstrip]
    rfl
  rw [hcut, List.takeWhile_append_of_pos hall, List.dropWhile_append_of_pos hall, hend.1, hend.2, List.append_nil]

theorem splitMax_word {w : Bytes} (hw : IsWord w) {c : UInt8} (hc : isSpace c = true) (n : Nat) (y : Bytes) :
    splitMax (n + 1) (w ++ c :: y) = w :: splitMax n y := by
  have hy : ∀ d rest, c :: y = d :: rest → isSpace d = true := fun d rest heq => (List.cons.inj heq).1 ▸ hc
  rw [splitMax_append hw hy, splitMax_space hc]

theorem splitMax_last {w : Bytes} (hw : IsWord w) (n : Nat) : splitMax (n + 1) w = [w] := by
  have hcut := splitMax_append hw (y := []) (fun c rest heq => absurd heq (by simp)) n
  rwa [List.append_nil, splitMax_nil] at hcut

theorem splitMax_replicate (n : Nat) (x : Bytes) : ∀ k, splitMax n (List.replicate k 32 ++ x) = splitMax n x
  | 0 => rfl
  | k + 1 => by rw [List.replicate_succ, List.cons_append, splitMax_space (by decide), splitMax_replicate n x k]

/-- Words, each with a blank behind it. -/
theorem splitMax_terminate (y : Bytes) : ∀ {ws : List Bytes}, (∀ w ∈ ws, IsWord w) → ∀ n,
    splitMax (ws.length + n) (terminate 32 ws ++ y) = ws ++ splitMax n y
  | [], _, n => by rw [List.length_nil, Nat.zero_add]; rfl
  | w :: ws, h, n => by
    rw [List.length_cons, Nat.add_right_comm, terminate_cons, List.append_assoc, List.cons_append,
      splitMax_word (h w List.mem_cons_self) (by decide), splitMax_terminate y (fun v hv => h v (List.mem_cons_of_mem w hv)) n]
    rfl

theorem label_endsWith (name : Bytes) : endsWith (name ++ [byte ':']) (ascii ":") = true := by
  rw [endsWith, List.isSuffixOf_iff_suffix]
  exact List.suffix_append name _

/-- The number of a line is stored under its label. -/
theorem mapsLine_number {name : Bytes} {pad n : Nat} {unit : Bool} (h : (SmapsLine.number name pad n unit).WellFormed) {x : Bytes}
    (hx : ReadAs (SmapsLine.number name pad n unit).bytes x) (data : Dict Bytes Int) :
    mapsLine x (splitMax 5 x) data = .ok (some (data.set (name ++ [byte ':']) (n * 1024))) := by
  have hword : IsWord (name ++ [byte ':']) := by
    refine ⟨by simp, fun c hc => ?_⟩
    rcases List.mem_append.1 hc with hc | hc
    · exact h.1.2 c hc
    · rw [List.mem_singleton.1 hc]
      decide
  have hunit : ∀ c rest, (if unit then ascii " kB" else []) = c :: rest → isSpace c = true := by
    intro c rest heq
    cases unit with
    | true => exact (List.cons.inj heq).1 ▸ by decide
    | false => cases heq
  have hfields : splitMax 5 x = (name ++ [byte ':']) :: decimal n :: splitMax 3 (if unit then ascii " kB" else []) := by
    rw [eq_of_readAs_number hx, SmapsLine.bytes, ← List.singleton_append, ← List.append_assoc, List.replicate_succ, List.cons_append,
      splitMax_word hword (by decide), splitMax_replicate, splitMax_append (isWord_decimal n) hunit]
  rw [hfields, mapsLine, if_pos (label_endsWith name)]
  simp [getItem, Except.bind]

/-- The line of the flags stores no number that is asked for. -/
theorem mapsLine_vmFlags {flags : List Bytes} {x : Bytes} (hx : ReadAs (SmapsLine.vmFlags flags).bytes x) (data : Dict Bytes Int) :
    ∃ data', mapsLine x (splitMax 5 x) data = .ok (some data') ∧ ∀ label ≠ ascii "VmFlags:", data'.get? label = data.get? label := by
  have hword : IsWord (ascii "VmFlags:") := isWord_of_all (by decide) (by decide)
  have hfields : ∃ rest, splitMax 5 x = ascii "VmFlags:" :: rest := by
    have hbytes : (SmapsLine.vmFlags flags).bytes = ascii "VmFlags:" ++ 32 :: terminate 32 flags := rfl
    rcases hx with rfl | rfl
    · rw [hbytes, splitMax_word hword (by decide)]
      exact ⟨_, rfl⟩
    · rw [hbytes]
      by_cases hflags : (32 :: terminate 32 flags).rdropWhile isSpace = []
      · rw [List.rdropWhile_eq_nil_iff] at hflags
        rw [rdropWhile_append_of_all hflags, show (ascii "VmFlags:").rdropWhile isSpace = ascii "VmFlags:" by decide,
          splitMax_last hword]
        exact ⟨_, rfl⟩
      · have hblank : ∀ c rest, (32 :: terminate 32 flags).rdropWhile isSpace = c :: rest → isSpace c = true := by
          intro c rest heq
          have hpre := List.rdropWhile_prefix isSpace (32 :: terminate 32 flags)
          rw [heq, List.cons_prefix_cons] at hpre
          rw [hpre.1]
          decide
        rw [rdropWhile_append_of_ne hflags, splitMax_append hword hblank]
        exact ⟨_, rfl⟩
  obtain ⟨rest, hfields⟩ := hfields
  rw [hfields, mapsLine, if_pos (by decide)]
  cases (getItem rest 0).bind int with
  | ok n => exact ⟨_, rfl, fun label hlabel => Dict.get?_set_ne data _ hlabel⟩
  | error e => exact ⟨data, by rw [if_pos (by decide)], fun _ _ => rfl⟩

theorem splitMax_zero (y : Bytes) : splitMax 0 y = if lstrip y = [] then [] else [lstrip y] := by
  unfold splitMax
  cases hy : lstrip y with
  | nil => rfl
  | cons c rest => rfl

namespace SmapsBlock

variable (b : SmapsBlock)

/-- What is behind the columns is the path, or nothing. -/
theorem splitMax_columns {y : Bytes} (hy : strip y = b.pathname) :
    (splitMax 5 (terminate 32 b.columnList ++ y) = b.columnList ∧ b.pathname = []) ∨
      ∃ q, splitMax 5 (terminate 32 b.columnList ++ y) = b.columnList ++ [q] ∧ strip q = b.pathname ∧ b.pathname ≠ [] := by
  have hcut := splitMax_terminate y b.isWord_column 0
  rw [show b.columnList.length + 0 = 5 from rfl, splitMax_zero] at hcut
  rw [hcut]
  by_cases hnil : lstrip y = []
  · rw [if_pos hnil, List.append_nil]
    exact Or.inl ⟨rfl, hy ▸ lstrip_eq_nil.1 hnil⟩
  · rw [if_neg hnil]
    exact Or.inr ⟨_, rfl, by rw [strip_lstrip, hy], fun h => hnil (lstrip_eq_nil.2 (hy.trans h))⟩

/-- Without a path, the blank after the inode is gone too. -/
theorem splitMax_bare (hrest : b.rest.rdropWhile isSpace = []) : splitMax 5 (b.header.rdropWhile isSpace) = b.columnList := by
  have hinode : IsWord b.inode := b.columns _ (by simp)
  have hfour : ∀ w ∈ [b.addr, b.perms, b.offset, b.dev], IsWord w := fun w hw => b.isWord_column w (by
    simp only [columnList, List.mem_cons] at hw ⊢
    tauto)
  have hlast : b.inode.rdropWhile isSpace = b.inode := by
    rw [List.rdropWhile_eq_self_iff]
    intro hne
    simp [hinode.2 _ (List.getLast_mem hne)]
  have hheader : b.header = terminate 32 [b.addr, b.perms, b.offset, b.dev] ++ b.inode ++ (32 :: b.rest) := by
    simp [header, columnList, terminate]
  have hspaces : ∀ c ∈ 32 :: b.rest, isSpace c = true := by
    rw [List.forall_mem_cons]
    exact ⟨by decide, List.rdropWhile_eq_nil_iff.1 hrest⟩
  rw [hheader, rdropWhile_append_of_all hspaces, rdropWhile_append_of_ne (by rw [hlast]; exact hinode.1), hlast]
  have hcut := splitMax_terminate b.inode hfour 1
  rwa [splitMax_last hinode] at hcut

/-- The columns of a header, and its path if it has one. -/
theorem splitMax_header {x : Bytes} (hx : ReadAs b.header x) :
    (splitMax 5 x = b.columnList ∧ b.pathname = []) ∨
      ∃ q, splitMax 5 x = b.columnList ++ [q] ∧ strip q = b.pathname ∧ b.pathname ≠ [] := by
  rcases hx with rfl | rfl
  · exact b.splitMax_columns rfl
  by_cases hrest : b.rest.rdropWhile isSpace = []
  · refine Or.inl ⟨b.splitMax_bare hrest, ?_⟩
    rw [pathname, ← strip_rdropWhile, hrest]
    rfl
  · rw [header, rdropWhile_append_of_ne hrest]
    exact b.splitMax_columns (strip_rdropWhile b.rest)

/-- A header begins a new block. -/
theorem mapsLine_header {x : Bytes} (hx : ReadAs b.header x) (data : Dict Bytes Int) : mapsLine x (splitMax 5 x) data = .ok none := by
  have haddr : endsWith b.addr (ascii ":") = false := by
    rw [endsWith, Bool.eq_false_iff, ne_eq, List.isSuffixOf_iff_suffix]
    rintro ⟨u, hu⟩
    exact absurd (b.addr_ok.2 (byte ':') (hu ▸ by simp [ascii, byte])) (by decide)
  have hfields : ∃ rest, splitMax 5 x = b.addr :: rest := by
    rcases b.splitMax_header hx with ⟨h, -⟩ | ⟨q, h, -⟩
    · exact ⟨_, h⟩
    · exact ⟨_, h⟩
  obtain ⟨rest, hfields⟩ := hfields
  rw [hfields, mapsLine, if_neg (by simp [haddr])]

/-- A blank path, or whitespace around it, makes no difference. -/
theorem regionPath_strip (ex : PathExists) (now : Nat) {q : Bytes} (h : strip q ≠ []) : regionPath ex now q = regionPath ex now (strip q) := by
  have hq : q ≠ [] := by
    rintro rfl
    exact h rfl
  simp only [regionPath, if_neg hq, if_neg h, strip_strip]

/-- **The item of a block**, with the numbers that are stored when the next one begins. -/
theorem mapsItem_header (ex : PathExists) (now : Nat) {x : Bytes} (hx : ReadAs b.header x) (data : Dict Bytes Int) :
    mapsItem ex now x data = ((regionPath ex now b.pathname).1.map fun path =>
      ⟨b.addr, b.perms, path, regionFields.map fun f => (data.get? (ascii f)).getD 0⟩, (regionPath ex now b.pathname).2) := by
  rcases b.splitMax_header hx with ⟨h, hpath⟩ | ⟨q, h, hpath, hne⟩
  · rw [mapsItem, h, hpath]
    rfl
  · rw [← hpath] at hne ⊢
    rw [mapsItem, h, ← regionPath_strip ex now hne]
    rfl

end SmapsBlock

/-! ## The loop -/

/-- What the lines of a block store. -/
def SmapsBlock.stores (b : SmapsBlock) : Dict Bytes Int := b.numbers.mapVal fun _ (n : Nat) => (n : Int) * 1024

/-- Over the lines of one block: its numbers are stored, and all others are left. -/
theorem mapsLoop_lines (ex : PathExists) (now : Nat) (ls : List Region) (header : Bytes) (later : List Bytes) :
    ∀ {lines : List SmapsLine}, (∀ l ∈ lines, l.WellFormed) → ∀ {xs : List Bytes},
    List.Forall₂ ReadAs (lines.map SmapsLine.bytes ++ later) xs → ∀ data : Dict Bytes Int,
    ∃ data' ys, List.Forall₂ ReadAs later ys ∧ mapsLoop ex now ls header data xs = mapsLoop ex now ls header data' ys ∧
      ∀ label ≠ ascii "VmFlags:", data'.get? label =
        (data.update ((lines.filterMap SmapsLine.item).map fun p => (p.1, (p.2 : Int) * 1024))).get? label
  | [], _, xs, hxs, data => ⟨data, xs, hxs, rfl, fun _ _ => rfl⟩
  | l :: lines, h, x :: xs, .cons hx hxs, data => by
    have hlines : ∀ l' ∈ lines, l'.WellFormed := fun l' hl' => h l' (List.mem_cons_of_mem l hl')
    cases l with
    | number name pad n unit =>
      have hline := mapsLine_number (h _ List.mem_cons_self) hx data
      obtain ⟨data', ys, hys, hloop, hget⟩ := mapsLoop_lines ex now ls header later hlines hxs (data.set (name ++ [byte ':']) (n * 1024))
      refine ⟨data', ys, hys, ?_, hget⟩
      rw [mapsLoop, hline]
      exact hloop
    | vmFlags flags =>
      obtain ⟨data₁, hline, hsame⟩ := mapsLine_vmFlags hx data
      obtain ⟨data', ys, hys, hloop, hget⟩ := mapsLoop_lines ex now ls header later hlines hxs data₁
      refine ⟨data', ys, hys, ?_, fun label hlabel => ?_⟩
      · rw [mapsLoop, hline]
        exact hloop
      · rw [hget label hlabel, List.filterMap_cons_none (by rfl), Dict.get?_update, Dict.get?_update, hsame label hlabel]

/-- What the dictionary has when an item is made: of every label the last number. -/
def Stored (data : Dict Bytes Int) (done : List SmapsBlock) : Prop :=
  ∀ f ∈ regionFields, data.get? (ascii f) = (lastNumber (ascii f) done).map fun n : Nat => (n : Int) * 1024

theorem lastNumber_append (label : Bytes) (done : List SmapsBlock) (b : SmapsBlock) :
    lastNumber label (done ++ [b]) = (b.numbers.get? label).or (lastNumber label done) := by
  rw [lastNumber, List.reverse_append, List.reverse_singleton, List.singleton_append, List.findSome?_cons, lastNumber]
  cases b.numbers.get? label <;> rfl

theorem field_ne_vmFlags : ∀ f ∈ regionFields, ascii f ≠ ascii "VmFlags:" := by decide

/-- The numbers of the items, with all that is left from earlier blocks. -/
def leftNums (done : List SmapsBlock) : List Int := regionFields.map fun f => ((lastNumber (ascii f) done).getD 0 : Nat) * 1024

def leftViews : (done : List SmapsBlock) → List SmapsBlock → List (Bytes × Bytes × List Int)
  | _, [] => []
  | done, b :: blocks => (b.addr, b.perms, leftNums (done ++ [b])) :: leftViews (done ++ [b]) blocks

theorem nums_of_stored {data : Dict Bytes Int} {done : List SmapsBlock} (h : Stored data done) :
    (regionFields.map fun f => (data.get? (ascii f)).getD 0) = leftNums done := by
  refine List.map_congr_left fun f hf => ?_
  rw [h f hf]
  cases lastNumber (ascii f) done with
  | none => rfl
  | some n => rfl

/-- A question fails, or the rest of the questions decides. -/
theorem regionPath_cases (ex : PathExists) (now : Nat) (b : SmapsBlock) (blocks : List SmapsBlock) :
    (∃ e now', regionPath ex now b.pathname = (.error e, now') ∧ ¬Answered ex now (askedPaths (b :: blocks))) ∨
      ∃ path now', regionPath ex now b.pathname = (.ok path, now') ∧
        (Answered ex now (askedPaths (b :: blocks)) ↔ Answered ex now' (askedPaths blocks)) := by
  have hstrip : strip b.pathname = b.pathname := strip_strip _
  have hasked : askedPaths (b :: blocks) =
      if endsWith b.pathname (ascii " (deleted)") then b.pathname :: askedPaths blocks else askedPaths blocks := List.filter_cons
  rw [hasked]
  by_cases hnil : b.pathname = []
  · refine Or.inr ⟨_, now, by rw [regionPath, if_pos hnil], ?_⟩
    rw [hnil, if_neg (by decide)]
  by_cases hend : endsWith b.pathname (ascii " (deleted)") = true
  · simp only [regionPath, if_neg hnil, hstrip, if_pos hend]
    cases hex : ex now b.pathname with
    | error e => exact Or.inl ⟨e, now + 1, rfl, fun h => by simpa [hex] using h.1⟩
    | ok there => exact Or.inr ⟨_, now + 1, rfl, and_iff_right ⟨there, hex⟩⟩
  · simp only [regionPath, if_neg hnil, hstrip, if_neg hend]
    exact Or.inr ⟨_, now, rfl, Iff.rfl⟩

theorem stored_append {data data' : Dict Bytes Int} {done : List SmapsBlock} (h : Stored data done) (b : SmapsBlock)
    (hget : ∀ label ≠ ascii "VmFlags:", data'.get? label = (data.update b.stores.items).get? label) : Stored data' (done ++ [b]) := by
  intro f hf
  rw [hget _ (field_ne_vmFlags f hf), Dict.get?_update_items, lastNumber_append, h f hf, SmapsBlock.stores, Dict.get?_mapVal]
  cases b.numbers.get? (ascii f) <;> rfl

/-- How the loop ends, with items that look like these, unless a question fails. -/
structure Ends (answered : Prop) (ls : List Region) (views : List (Bytes × Bytes × List Int)) (r : Except Exc (List Region)) : Prop where
  ok : answered → ∃ rs, r = .ok (ls ++ rs) ∧ rs.map Region.view = views
  error : ¬answered → ∃ e, r = .error e

theorem Ends.cons {answered answered' : Prop} {ls : List Region} {item : Region} {views : List (Bytes × Bytes × List Int)}
    {r : Except Exc (List Region)} (hiff : answered ↔ answered') (h : Ends answered' (ls ++ [item]) views r) :
    Ends answered ls (item.view :: views) r := by
  refine ⟨fun ha => ?_, fun ha => h.error fun ha' => ha (hiff.2 ha')⟩
  obtain ⟨rs, rfl, hrs⟩ := h.ok (hiff.1 ha)
  exact ⟨item :: rs, by rw [List.append_assoc]; rfl, by rw [List.map_cons, hrs]⟩

/-- **The loop**, from a header on: every item has what is left for it. -/
theorem mapsLoop_run (ex : PathExists) : ∀ (blocks : List SmapsBlock) (b : SmapsBlock) (done : List SmapsBlock) (now : Nat)
    (ls : List Region) (data : Dict Bytes Int) (x : Bytes) (xs : List Bytes), Stored data done → ReadAs b.header x →
    List.Forall₂ ReadAs (b.lines.map SmapsLine.bytes ++ smapsLines blocks) xs →
    Ends (Answered ex now (askedPaths (b :: blocks))) ls (leftViews done (b :: blocks)) (mapsLoop ex now ls x data xs).1 := by
  intro blocks
  induction blocks with
  | nil =>
    intro b done now ls data x xs hdone hx hxs
    obtain ⟨data', ys, hys, hloop, hget⟩ := mapsLoop_lines ex now ls x _ b.line_ok hxs data
    cases hys
    rw [hloop, mapsLoop, b.mapsItem_header ex now hx, nums_of_stored (stored_append hdone b hget)]
    rcases regionPath_cases ex now b [] with ⟨e, now', hpath, hno⟩ | ⟨path, now', hpath, hiff⟩
    · rw [hpath]
      exact ⟨fun h => absurd h hno, fun _ => ⟨e, rfl⟩⟩
    · rw [hpath]
      exact @Ends.cons _ _ ls ⟨b.addr, b.perms, path, leftNums (done ++ [b])⟩ _ _ hiff
        ⟨fun _ => ⟨[], by rw [List.append_nil]; rfl, rfl⟩, fun h => absurd trivial h⟩
  | cons b' blocks ih =>
    intro b done now ls data x xs hdone hx hxs
    obtain ⟨data', ys, hys, hloop, hget⟩ := mapsLoop_lines ex now ls x _ b.line_ok hxs data
    cases hys with
    | cons hx' hys =>
      have hstored := stored_append hdone b hget
      rw [hloop, mapsLoop, b'.mapsLine_header hx', b.mapsItem_header ex now hx, nums_of_stored hstored]
      rcases regionPath_cases ex now b (b' :: blocks) with ⟨e, now', hpath, hno⟩ | ⟨path, now', hpath, hiff⟩
      · rw [hpath]
        exact ⟨fun h => absurd h hno, fun _ => ⟨e, rfl⟩⟩
      · rw [hpath]
        exact @Ends.cons _ _ ls ⟨b.addr, b.perms, path, leftNums (done ++ [b])⟩ _ _ hiff (ih b' _ now' _ data' _ _ hstored hx' hys)

/-! ## The claim of the function -/

theorem stored_empty : Stored ∅ [] := fun _ _ => rfl

/-- The whole call. -/
theorem memoryMaps_ends (ex : PathExists) (now : Nat) {blocks : List SmapsBlock} (hne : blocks ≠ []) :
    Ends (Answered ex now (askedPaths blocks)) [] (leftViews [] blocks) (memoryMaps ex now (strip (smapsText blocks))).1 := by
  have hread := splitOn_strip_smapsText hne
  obtain ⟨b, blocks, rfl⟩ := List.exists_cons_of_ne_nil hne
  rw [memoryMaps]
  rw [smapsLines, List.flatMap_cons, SmapsBlock.text] at hread
  cases hlines : (strip (smapsText (b :: blocks))).splitOn 10 with
  | nil =>
    rw [hlines] at hread
    cases hread
  | cons x xs =>
    rw [hlines] at hread
    cases hread with
    | cons hx hxs => exact mapsLoop_run ex blocks b [] now [] ∅ x xs stored_empty hx hxs

/-- The numbers are the block's own where nothing but zeros is left. -/
theorem leftNums_eq_iff (done : List SmapsBlock) (b : SmapsBlock) : leftNums (done ++ [b]) = b.ownNums ↔
    ∀ f ∈ regionFields, b.numbers.get? (ascii f) = none → (lastNumber (ascii f) done).getD 0 = 0 := by
  rw [leftNums, SmapsBlock.ownNums, List.map_inj_left]
  refine forall_congr' fun f => forall_congr' fun _ => ?_
  rw [lastNumber_append]
  cases b.numbers.get? (ascii f) with
  | none => simp
  | some n => simp

theorem leftViews_eq_iff : ∀ (blocks done : List SmapsBlock),
    leftViews done blocks = blocks.map (fun b => (b.addr, b.perms, b.ownNums)) ↔
      ∀ earlier b later, blocks = earlier ++ b :: later → leftNums (done ++ earlier ++ [b]) = b.ownNums
  | [], done => by simp [leftViews]
  | b :: blocks, done => by
    have ih := leftViews_eq_iff blocks (done ++ [b])
    rw [leftViews, List.map_cons, List.cons.injEq, ih]
    constructor
    · rintro ⟨hb, hblocks⟩ earlier b' later heq
      cases earlier with
      | nil =>
        obtain ⟨rfl, -⟩ := List.cons.inj heq
        rw [List.append_nil]
        exact (Prod.mk.inj (Prod.mk.inj hb).2).2
      | cons e earlier =>
        obtain ⟨rfl, htail⟩ := List.cons.inj heq
        have hnums := hblocks earlier b' later htail
        rwa [List.append_assoc done, List.singleton_append] at hnums
    · intro h
      refine ⟨?_, fun earlier b' later heq => ?_⟩
      · have hnums := h [] b blocks rfl
        rw [List.append_nil] at hnums
        rw [hnums]
      · have hnums := h (b :: earlier) b' later (by rw [heq]; rfl)
        rwa [List.append_assoc done, List.singleton_append]

theorem nothingLeft_iff (blocks : List SmapsBlock) :
    leftViews [] blocks = blocks.map (fun b => (b.addr, b.perms, b.ownNums)) ↔ NothingLeft blocks := by
  rw [leftViews_eq_iff]
  refine forall_congr' fun earlier => forall_congr' fun b => forall_congr' fun later => forall_congr' fun _ => ?_
  rw [List.nil_append]
  exact leftNums_eq_iff earlier b

theorem OwnNumbers.of_left {ex : PathExists} {now : Nat} {blocks : List SmapsBlock} (hne : blocks ≠ [])
    (h : OwnNumbers ex now blocks) : NothingLeft blocks ∧ Answered ex now (askedPaths blocks) := by
  have hends := memoryMaps_ends ex now hne
  obtain ⟨ls, hls, hviews⟩ := h
  have hanswered : Answered ex now (askedPaths blocks) := by
    by_contra hno
    obtain ⟨e, he⟩ := hends.error hno
    rw [he] at hls
    cases hls
  obtain ⟨rs, hrs, hleft⟩ := hends.ok hanswered
  obtain rfl : rs = ls := Except.ok.inj (hrs.symm.trans hls)
  exact ⟨(nothingLeft_iff blocks).1 (hleft.symm.trans hviews), hanswered⟩

/-- It has 8 kB in swap. -/
def swapped : SmapsBlock :=
  libraryBlock "7f00-7f01" "/lib/libc.so.6" [("Rss", 4), ("Swap", 8)] (by decide) (by decide) (by decide) (by decide)

/-- It has no line for that. -/
def unswapped : SmapsBlock := libraryBlock "7f01-7f02" "/lib/libc.so.6" [("Rss", 4)] (by decide) (by decide) (by decide) (by decide)

end Psutil
