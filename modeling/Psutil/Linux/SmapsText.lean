import Psutil.Linux.ProcFiles
import Psutil.Linux.Text

/-!
# `/proc/PID/smaps` as the kernel prints it

A block is a header and lines with a label, most of them with a number of kB. `_read_smaps_file` (`_pslinux.py:1747`) takes the
whitespace at both ends of the text away, so the last line may be read without its end (`ReadAs`). `mapsItem_header` and the
lemmas about `mapsLine` say what `memory_maps` (`:2009`) makes of one line.
-/

namespace Psutil

open Lib Bytes

/-- A line after the header. -/
inductive SmapsLine where
  /-- `unit`: the kernel does not write ` kB` behind every number. -/
  | number (name : Bytes) (pad n : Nat) (unit : Bool)
  | vmFlags (flags : List Bytes)

namespace SmapsLine

def bytes : SmapsLine → Bytes
  | number name pad n unit => name ++ byte ':' :: (List.replicate (pad + 1) 32 ++ (decimal n ++ if unit then ascii " kB" else []))
  | vmFlags flags => ascii "VmFlags: " ++ terminate 32 flags

/-- The label, with its colon, and the number. -/
def item : SmapsLine → Option (Bytes × Nat)
  | number name _ n _ => some (name ++ [byte ':'], n)
  | vmFlags _ => none

def WellFormed : SmapsLine → Prop
  | number name _ _ _ => IsWord name ∧ byte ':' ∉ name
  | vmFlags flags => ∀ w ∈ flags, IsWord w

end SmapsLine

/-- A byte of `%08lx-%08lx`. -/
def isAddrByte (c : UInt8) : Bool := isDigit c || (97 ≤ c && c ≤ 102) || c = byte '-'

/-- A region. -/
structure SmapsBlock where
  addr : Bytes
  perms : Bytes
  offset : Bytes
  dev : Bytes
  inode : Bytes
  /-- The blanks before the path. -/
  pad : Nat
  path : Option Bytes
  lines : List SmapsLine
  addr_ok : addr ≠ [] ∧ ∀ c ∈ addr, isAddrByte c = true
  columns : ∀ w ∈ [perms, offset, dev, inode], IsWord w
  path_newline : ∀ p, path = some p → 10 ∉ p
  line_ok : ∀ l ∈ lines, l.WellFormed
  labels_nodup : ((lines.filterMap SmapsLine.item).map Prod.fst).Nodup

namespace SmapsBlock

variable (b : SmapsBlock)

/-- What is behind the inode and its blank. -/
def rest : Bytes :=
  match b.path with
  | none => []
  | some p => List.replicate b.pad 32 ++ p

def columnList : List Bytes := [b.addr, b.perms, b.offset, b.dev, b.inode]

def header : Bytes := terminate 32 b.columnList ++ b.rest

def text : List Bytes := b.header :: b.lines.map SmapsLine.bytes

/-- The numbers by their labels. -/
def numbers : Dict Bytes Nat := ⟨b.lines.filterMap SmapsLine.item, b.labels_nodup⟩

/-- The path, without whitespace at its ends. -/
def pathname : Bytes := strip b.rest

end SmapsBlock

def smapsLines (blocks : List SmapsBlock) : List Bytes := blocks.flatMap SmapsBlock.text

def smapsText (blocks : List SmapsBlock) : Bytes := unlines (smapsLines blocks)

/-! ## Whitespace at the ends -/

/-- A line, or what `strip` leaves of the last one. -/
def ReadAs (line x : Bytes) : Prop := x = line ∨ x = line.rdropWhile isSpace

/-- Of a text of lines, `strip` cuts the last one only. -/
theorem strip_unlines {lines : List Bytes} {last : Bytes} (hfirst : ∃ c rest, unlines (lines ++ [last]) = c :: rest ∧ isSpace c = false)
    (hlast : last.rdropWhile isSpace ≠ []) : strip (unlines (lines ++ [last])) = unlines lines ++ last.rdropWhile isSpace := by
  obtain ⟨c, rest, heq, hc⟩ := hfirst
  have hleft : (unlines (lines ++ [last])).dropWhile isSpace = unlines lines ++ (last ++ [10]) := by
    rw [heq, List.dropWhile_cons_of_neg (by simp [hc]), ← heq, unlines, List.flatMap_append, List.flatMap_singleton]
    rfl
  have hnewline : ∀ c ∈ [(10 : UInt8)], isSpace c = true := by
    intro c hc
    rw [List.mem_singleton.1 hc]
    rfl
  have hend : (last ++ [10]).rdropWhile isSpace = last.rdropWhile isSpace := rdropWhile_append_of_all hnewline
  rw [strip_eq_rdropWhile, hleft, rdropWhile_append_of_ne (hend ▸ hlast), hend]

/-! ## The lines that are read -/

theorem isSpace_of_isAddrByte {c : UInt8} (h : isAddrByte c = true) : isSpace c = false := by
  simp only [isAddrByte, isDigit, isSpace, byte] at *
  grind

theorem ReadAs.refl (line : Bytes) : ReadAs line line := Or.inl rfl

namespace SmapsBlock

variable (b : SmapsBlock)

theorem isWord_column : ∀ w ∈ b.columnList, IsWord w := by
  rw [columnList, List.forall_mem_cons]
  exact ⟨⟨b.addr_ok.1, fun c hc => isSpace_of_isAddrByte (b.addr_ok.2 c hc)⟩, b.columns⟩

/-- A header begins with the address. -/
theorem header_first : ∃ c rest, b.header = c :: rest ∧ isAddrByte c = true := by
  obtain ⟨c, addr, haddr⟩ := List.exists_cons_of_ne_nil b.addr_ok.1
  have hc := b.addr_ok.2 c (haddr ▸ List.mem_cons_self)
  rw [header, columnList, terminate_cons, haddr]
  exact ⟨c, _, rfl, hc⟩

theorem newline_notMem_header : 10 ∉ b.header := by
  rw [header, List.mem_append, not_or]
  constructor
  · intro h
    rcases mem_terminate h with hblank | ⟨w, hw, hc⟩
    · exact absurd hblank (by decide)
    · exact absurd ((b.isWord_column w hw).2 10 hc) (by decide)
  · rw [rest]
    cases hp : b.path with
    | none => exact List.not_mem_nil
    | some p =>
      rw [List.mem_append, List.mem_replicate, not_or]
      exact ⟨fun h => absurd h.2 (by decide), b.path_newline p hp⟩

end SmapsBlock

theorem newline_notMem_smapsLine {l : SmapsLine} (h : l.WellFormed) : 10 ∉ l.bytes := by
  cases l with
  | number name pad n unit =>
    have hname : 10 ∉ name := fun hc => absurd (h.1.2 10 hc) (by decide)
    have hnumber : 10 ∉ decimal n := fun hc => absurd (isSpace_of_mem_decimal hc) (by decide)
    have hunit : 10 ∉ (if unit then ascii " kB" else []) := by cases unit <;> decide
    simp only [SmapsLine.bytes, List.mem_append, List.mem_cons, List.mem_replicate, not_or]
    exact ⟨hname, by decide, fun h => absurd h.2 (by decide), hnumber, hunit⟩
  | vmFlags flags =>
    rw [SmapsLine.bytes, List.mem_append, not_or]
    refine ⟨by decide, fun hc => ?_⟩
    rcases mem_terminate hc with hblank | ⟨w, hw, hc⟩
    · exact absurd hblank (by decide)
    · exact absurd ((h w hw).2 10 hc) (by decide)

theorem newline_notMem_smapsLines {blocks : List SmapsBlock} : ∀ l ∈ smapsLines blocks, 10 ∉ l := by
  intro l hl
  obtain ⟨b, -, hl⟩ := List.mem_flatMap.1 hl
  rcases List.mem_cons.1 hl with rfl | hl
  · exact b.newline_notMem_header
  · obtain ⟨x, hx, rfl⟩ := List.mem_map.1 hl
    exact newline_notMem_smapsLine (b.line_ok x hx)

/-- A line has more than whitespace. -/
theorem rdropWhile_ne_nil {blocks : List SmapsBlock} : ∀ l ∈ smapsLines blocks, l.rdropWhile isSpace ≠ [] := by
  intro l hl hnil
  rw [List.rdropWhile_eq_nil_iff] at hnil
  obtain ⟨b, -, hl⟩ := List.mem_flatMap.1 hl
  rcases List.mem_cons.1 hl with rfl | hl
  · obtain ⟨c, rest, heq, hc⟩ := b.header_first
    have hspace := hnil c (heq ▸ List.mem_cons_self)
    rw [isSpace_of_isAddrByte hc] at hspace
    cases hspace
  · obtain ⟨x, -, rfl⟩ := List.mem_map.1 hl
    cases x with
    | number name pad n unit => exact absurd (hnil (byte ':') (by simp [SmapsLine.bytes])) (by decide)
    | vmFlags flags => exact absurd (hnil (byte ':') (List.mem_append_left _ (by decide))) (by decide)

/-- A line with a number ends with a digit or a `B`. -/
theorem eq_of_readAs_number {name : Bytes} {pad n : Nat} {unit : Bool} {x : Bytes}
    (h : ReadAs (SmapsLine.number name pad n unit).bytes x) : x = (SmapsLine.number name pad n unit).bytes := by
  have hend : ∀ u : Bytes, (u ++ (decimal n ++ if unit then ascii " kB" else [])).rdropWhile isSpace =
      u ++ (decimal n ++ if unit then ascii " kB" else []) := by
    intro u
    have hdigits : (decimal n).rdropWhile isSpace = decimal n := by
      rw [List.rdropWhile_eq_self_iff]
      intro hne
      simp [isSpace_of_mem_decimal (List.getLast_mem hne)]
    cases unit with
    | true =>
      have hunit : (ascii " kB").rdropWhile isSpace = ascii " kB" := by decide
      rw [if_pos rfl, ← List.append_assoc, rdropWhile_append_of_ne (by rw [hunit]; decide), hunit]
    | false => rw [if_neg (by decide), List.append_nil, rdropWhile_append_of_ne (by simp [hdigits]), hdigits]
  rcases h with rfl | rfl
  · rfl
  · have hcut := hend (name ++ byte ':' :: List.replicate (pad + 1) 32)
    rwa [List.append_assoc, List.cons_append] at hcut

/-- **The lines as they are read**: those of the file, the last one perhaps without its end. -/
theorem splitOn_strip_smapsText {blocks : List SmapsBlock} (hne : blocks ≠ []) :
    List.Forall₂ ReadAs (smapsLines blocks) ((strip (smapsText blocks)).splitOn 10) := by
  have hlines : smapsLines blocks ≠ [] := by
    obtain ⟨b, blocks, rfl⟩ := List.exists_cons_of_ne_nil hne
    simp [smapsLines, SmapsBlock.text]
  have hfirst : ∃ c rest, smapsText blocks = c :: rest ∧ isSpace c = false := by
    obtain ⟨b, blocks, rfl⟩ := List.exists_cons_of_ne_nil hne
    obtain ⟨c, rest, heq, hc⟩ := b.header_first
    rw [smapsText, smapsLines, List.flatMap_cons, SmapsBlock.text, unlines, List.cons_append, List.flatMap_cons, heq]
    exact ⟨c, _, rfl, isSpace_of_isAddrByte hc⟩
  obtain ⟨init, last, hsplit⟩ : ∃ init last, smapsLines blocks = init ++ [last] :=
    ⟨_, _, (List.dropLast_append_getLast hlines).symm⟩
  have hnewline := @newline_notMem_smapsLines blocks
  have hend := @rdropWhile_ne_nil blocks last (by simp [hsplit])
  rw [smapsText] at hfirst ⊢
  rw [hsplit] at hfirst hnewline ⊢
  have hlast : 10 ∉ last.rdropWhile isSpace :=
    fun hc => hnewline last (by simp) ((List.rdropWhile_prefix _ _).subset hc)
  have hinit : ∀ l ∈ init, 10 ∉ l := fun l hl => hnewline l (by simp [hl])
  rw [strip_unlines hfirst hend, show unlines init = terminate 10 init from rfl, splitOn_terminate_append hlast hinit]
  exact List.rel_append (List.forall₂_same.2 fun l _ => ReadAs.refl l) (.cons (Or.inr rfl) .nil)

/-! ## Regions of a library -/

/-- Lines of a number. -/
def numberLines (l : List (String × Nat)) : List SmapsLine := l.map fun p => .number (ascii p.1) 8 p.2 true

theorem wellFormed_numberLines {l : List (String × Nat)}
    (h : l.all (fun p => ascii p.1 ≠ [] && (ascii p.1).all (fun c => !isSpace c && c ≠ byte ':')) = true) :
    ∀ x ∈ numberLines l, x.WellFormed := by
  intro x hx
  obtain ⟨p, hp, rfl⟩ := List.mem_map.1 hx
  have hname := List.all_eq_true.1 h p hp
  simp only [Bool.and_eq_true, decide_eq_true_eq, List.all_eq_true, Bool.not_eq_true'] at hname
  exact ⟨⟨hname.1, fun c hc => (hname.2 c hc).1⟩, fun hc => (hname.2 _ hc).2 rfl⟩

def libraryBlock (addr path : String) (l : List (String × Nat)) (haddr : ascii addr ≠ [] ∧ (ascii addr).all isAddrByte = true)
    (hpath : 10 ∉ ascii path) (hl : l.all (fun p => ascii p.1 ≠ [] && (ascii p.1).all (fun c => !isSpace c && c ≠ byte ':')) = true)
    (hnodup : (((numberLines l).filterMap SmapsLine.item).map Prod.fst).Nodup) : SmapsBlock where
  addr := ascii addr
  perms := ascii "r--p"
  offset := ascii "00000000"
  dev := ascii "08:01"
  inode := ascii "131"
  pad := 26
  path := some (ascii path)
  lines := numberLines l
  addr_ok := ⟨haddr.1, List.all_eq_true.1 haddr.2⟩
  columns := by
    simp only [List.forall_mem_cons]
    refine ⟨?_, ?_, ?_, ?_, fun _ h => absurd h List.not_mem_nil⟩ <;> exact isWord_of_all (by decide) (by decide)
  path_newline p hp := Option.some.inj hp ▸ hpath
  line_ok := wellFormed_numberLines hl
  labels_nodup := hnodup

end Psutil
