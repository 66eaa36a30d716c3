import Mathlib.Tactic.Ring
import Psutil.Lib.Group
import Psutil.Linux.SmapsText
import Psutil.Linux.StatusText

/-!
# The two readers of a process's footprint (`_pslinux.py:1941-2004`)

`parseSmaps`, of `ProcFiles`, looks with three patterns through the text that `_read_smaps_file` (`:1747`) has stripped;
`parseSmapsRollup` looks at the beginning of each line. `Reads`: on a line of the kernel, such a pattern is a test of the
label. `parseSmapsRollup_eq_parseSmaps`: a file of sums gives the footprint of the file that was summed.
-/

namespace Psutil

open Lib Bytes

/-! ## What is summed -/

/-- `Private_Clean`, `Private_Dirty`, `Private_Hugetlb`. -/
def isPrivate (label : Bytes) : Bool := startsWith label (ascii "Private_")

/-- The kernel has no other label that begins with `Private`. -/
def SmapsBlock.KernelLabels (b : SmapsBlock) : Prop := ∀ label ∈ b.numbers, startsWith label (ascii "Private") = true → isPrivate label = true

/-- The number of a line; 0 is a line that it has not. -/
def SmapsBlock.kb (b : SmapsBlock) (label : Bytes) : Nat := (b.numbers.get? label).getD 0

/-- The lines that are read, of the block of `smaps_rollup`, are sums over the regions. -/
def IsRollup (blocks : List SmapsBlock) (r : SmapsBlock) : Prop :=
  ∀ label, isPrivate label = true ∨ label = ascii "Pss:" ∨ label = ascii "Swap:" → r.kb label = (blocks.map (·.kb label)).sum

/-- The sum of all lines with a label of this kind. -/
def totalKb (sel : Bytes → Bool) (blocks : List SmapsBlock) : Nat :=
  ((blocks.flatMap fun b => b.numbers.items.filter fun p => sel p.1).map Prod.snd).sum

/-- The footprint: it depends on the lines of three kinds, and on no others. -/
def ownFootprint (blocks : List SmapsBlock) : Value :=
  .footprint (totalKb isPrivate blocks * 1024 : Nat) ((blocks.map (·.kb (ascii "Pss:"))).sum * 1024 : Nat)
    ((blocks.map (·.kb (ascii "Swap:"))).sum * 1024 : Nat)

/-! ## One line -/

/-- The pattern reads the number of a line, if its label is of this kind. -/
structure Reads (r : Pattern UInt8) (sel : Bytes → Bool) : Prop where
  number : ∀ name pad n unit, (SmapsLine.number name pad n unit).WellFormed → ∀ y, Pattern.LineEnd 10 y →
    r.matchAt ((SmapsLine.number name pad n unit).bytes ++ y) =
      if sel (name ++ [byte ':']) = true then some ([decimal n], (if unit then ascii " kB" else []) ++ y) else none
  other : ∀ c rest, isAddrByte c = true ∨ c = byte 'V' → r.matchAt (c :: rest) = none

/-- A number, at the end of its line or before its unit. -/
theorem matchAt_kbTail (pad n : Nat) (unit : Bool) {y : Bytes} (hy : Pattern.LineEnd 10 y) :
    kbTail.matchAt (List.replicate (pad + 1) 32 ++ (decimal n ++ ((if unit then ascii " kB" else []) ++ y))) =
      some ([decimal n], (if unit then ascii " kB" else []) ++ y) := by
  have hblank : ∀ c ∈ List.replicate (pad + 1) (32 : UInt8), isSpace c = true := by
    intro c hc
    rw [List.eq_of_mem_replicate hc]
    decide
  have hdrop : ∀ z, (List.replicate (pad + 1) 32 ++ (decimal n ++ z)).dropWhile isSpace = decimal n ++ z := by
    intro z
    obtain ⟨d, rest, hd⟩ := List.exists_cons_of_ne_nil (decimal_ne_nil n)
    have hdigit : isSpace d = false := isSpace_of_mem_decimal (hd ▸ List.mem_cons_self)
    rw [List.dropWhile_append_of_pos hblank, hd, List.cons_append, List.dropWhile_cons_of_neg (by simp [hdigit])]
  have hbehind : ∀ z, (∀ c z', z = c :: z' → isDigit c = false) → Pattern.matchAt [digitGroup] (decimal n ++ z) = some ([decimal n], z) := by
    intro z hz
    cases z with
    | nil =>
      have hall : ∀ d ∈ decimal n, isDigit d = true := fun _ => isDigit_of_mem_decimal
      rw [List.append_nil, digitGroup, Pattern.matchAt_group_last, List.takeWhile_eq_self_iff.2 hall, List.dropWhile_eq_nil_iff.2 hall,
        if_neg (decimal_ne_nil n)]
    | cons c z => exact matchAt_number_last n (hz c z rfl) z
  rw [kbTail, spaces, Pattern.matchAt_plus apart_spaces, hdrop, if_neg (by simp [List.replicate_succ, isSpace]), hbehind]
  intro c z hz
  cases unit with
  | true =>
    rw [← (List.cons.inj hz).1]
    decide
  | false =>
    rw [hy c z hz]
    decide

theorem number_bytes_append (name : Bytes) (pad n : Nat) (unit : Bool) (y : Bytes) : (SmapsLine.number name pad n unit).bytes ++ y =
    name ++ byte ':' :: (List.replicate (pad + 1) 32 ++ (decimal n ++ ((if unit then ascii " kB" else []) ++ y))) := by
  simp [SmapsLine.bytes]

/-- The first byte of a label that is read begins no header and no line of flags. -/
theorem matchAt_other {c d : UInt8} (hc : isAddrByte c = false ∧ c ≠ byte 'V') (hd : isAddrByte d = true ∨ d = byte 'V')
    (r : Pattern UInt8) (rest : Bytes) : Pattern.matchAt (.one (· = c) :: r) (d :: rest) = none := by
  have hne : d ≠ c := by
    rintro rfl
    rcases hd with hd | hd
    · rw [hc.1] at hd
      cases hd
    · exact hc.2 hd
  exact if_neg (by simpa using hne)

/-- A label that is written out. -/
theorem reads_label {c : UInt8} {w : Bytes} (hc : isAddrByte c = false ∧ c ≠ byte 'V') (hw : byte ':' ∉ c :: w) :
    Reads (Pattern.literal (c :: w ++ [byte ':']) ++ kbTail) (· = c :: w ++ [byte ':']) where
  number name pad n unit hline y hy := by
    rw [number_bytes_append]
    by_cases hname : name = c :: w
    · rw [← matchAt_kbTail pad n unit hy, hname]
      simp only [decide_true, if_true]
      rw [← Pattern.matchAt_literal_append (r := kbTail) (c :: w ++ [byte ':']), List.append_assoc]
      rfl
    · have hsel : ¬name ++ [byte ':'] = c :: w ++ [byte ':'] := fun h => hname (List.append_cancel_right h)
      simp only [decide_eq_true_eq, hsel, if_false]
      by_contra hmatch
      exact hname (Pattern.eq_of_common_start hw hline.2 (Pattern.prefix_of_matchAt hmatch)).symm
  other d rest hd := matchAt_other hc hd _ rest

theorem takeWhile_line {x y : Bytes} (hy : Pattern.LineEnd 10 y) : (x ++ y).takeWhile (· ≠ 10) = x.takeWhile (· ≠ 10) := by
  cases y with
  | nil => rw [List.append_nil]
  | cons c y =>
    rw [hy c y rfl]
    exact Pattern.takeWhile_cons_of_neg (by decide) x y

theorem colon_notMem_tail (pad n : Nat) (unit : Bool) :
    byte ':' ∉ List.replicate (pad + 1) 32 ++ decimal n ++ if unit then ascii " kB" else [] := by
  have hunit : byte ':' ∉ if unit then ascii " kB" else [] := by cases unit <;> decide
  intro h
  rw [List.mem_append, List.mem_append, List.mem_replicate] at h
  rcases h with (⟨-, hblank⟩ | hdigit) | hkb
  · exact absurd hblank (by decide)
  · exact absurd (isDigit_of_mem_decimal hdigit) (by decide)
  · exact hunit hkb

/-- The label goes on up to its colon, the only one of the line. -/
theorem reads_private : Reads (Pattern.literal (ascii "Private") ++ dotStar :: .one (· = byte ':') :: kbTail) (startsWith · (ascii "Private")) where
  number name pad n unit hline y hy := by
    rw [number_bytes_append]
    by_cases hname : ascii "Private" <+: name
    · obtain ⟨u, rfl⟩ := hname
      have hsel : startsWith (ascii "Private" ++ u ++ [byte ':']) (ascii "Private") = true := by
        rw [startsWith, List.isPrefixOf_iff_prefix, List.append_assoc]
        exact List.prefix_append _ _
      have hu : ∀ d ∈ u, decide (d ≠ 10) = true ∧ d ≠ byte ':' := by
        intro d hd
        have hname : d ∈ ascii "Private" ++ u := List.mem_append_right _ hd
        refine ⟨decide_eq_true ?_, ?_⟩
        · rintro rfl
          exact absurd (hline.1.2 10 hname) (by decide)
        · rintro rfl
          exact hline.2 hname
      simp only [hsel, if_true]
      rw [List.append_assoc, Pattern.matchAt_literal_append, ← matchAt_kbTail pad n unit hy]
      refine Pattern.matchAt_star_one hu fun hcolon => ?_
      rw [← List.append_assoc, ← List.append_assoc, takeWhile_line hy] at hcolon
      exact colon_notMem_tail pad n unit (List.takeWhile_subset _ hcolon)
    · have hsel : ¬startsWith (name ++ [byte ':']) (ascii "Private") = true := by
        rw [startsWith, List.isPrefixOf_iff_prefix]
        exact fun h => hname (Pattern.prefix_of_prefix_append (by decide) h)
      simp only [hsel]
      by_contra hmatch
      exact hname (Pattern.prefix_of_prefix_append (by decide) (Pattern.prefix_of_matchAt hmatch))
  other d rest hd := matchAt_other (by decide) hd _ rest

/-! ## All lines -/

theorem first_of_readAs {line x rest : Bytes} {c : UInt8} (h : ReadAs line x) (hline : line = c :: rest) (hc : isSpace c = false) :
    ∃ rest', x = c :: rest' := by
  rcases h with rfl | rfl
  · exact ⟨rest, hline⟩
  · have hpre := List.rdropWhile_prefix isSpace line
    cases hx : line.rdropWhile isSpace with
    | nil =>
      rw [List.rdropWhile_eq_nil_iff] at hx
      rw [hx c (hline ▸ List.mem_cons_self)] at hc
      cases hc
    | cons d rest' =>
      rw [hx, hline, List.cons_prefix_cons] at hpre
      exact ⟨rest', by rw [hpre.1]⟩

theorem subset_of_readAs {line x : Bytes} (h : ReadAs line x) : x ⊆ line := by
  rcases h with rfl | rfl
  · exact List.Subset.refl _
  · exact (List.rdropWhile_prefix _ _).subset

theorem exists_of_readAs : ∀ {lines xs : List Bytes}, List.Forall₂ ReadAs lines xs → ∀ x ∈ xs, ∃ l ∈ lines, ReadAs l x
  | _, _, .cons (a := l) hl h, x, hx => by
    rcases List.mem_cons.1 hx with rfl | hx
    · exact ⟨l, List.mem_cons_self, hl⟩
    · obtain ⟨l', hl', hread⟩ := exists_of_readAs h x hx
      exact ⟨l', List.mem_cons_of_mem l hl', hread⟩

theorem filterMap_readAs {β : Type} {f : Bytes → Option β} : ∀ {lines xs : List Bytes}, List.Forall₂ ReadAs lines xs →
    (∀ l ∈ lines, ∀ x, ReadAs l x → f x = f l) → xs.filterMap f = lines.filterMap f
  | _, _, .nil, _ => rfl
  | _, _, .cons (a := l) (b := x) hl h, hf => by
    rw [List.filterMap_cons, List.filterMap_cons, hf l List.mem_cons_self x hl,
      filterMap_readAs h fun l' hl' => hf l' (List.mem_cons_of_mem l hl')]

/-- The text that is read: its first line is a header. -/
theorem strip_smapsText_cons (b : SmapsBlock) (blocks : List SmapsBlock) : ∃ x xs,
    strip (smapsText (b :: blocks)) = x ++ xs.flatMap (10 :: ·) ∧ List.Forall₂ ReadAs (smapsLines (b :: blocks)) (x :: xs) ∧
      ReadAs b.header x := by
  have hread := splitOn_strip_smapsText (List.cons_ne_nil b blocks)
  have htext := @List.intercalate_splitOn _ (strip (smapsText (b :: blocks))) _ _ 10
  obtain ⟨x, xs, hsplit⟩ := List.exists_cons_of_ne_nil (splitOn_ne_nil 10 (strip (smapsText (b :: blocks))))
  rw [hsplit] at hread htext
  rw [intercalate_cons] at htext
  refine ⟨x, xs, htext.symm, hread, ?_⟩
  cases hread with
  | cons hx _ => exact hx

namespace Reads

variable {r : Pattern UInt8} {sel : Bytes → Bool}

/-- What is found in a line of a block. -/
theorem found_line (h : Reads r sel) {l : SmapsLine} (hl : l.WellFormed) :
    (r.matchAt l.bytes).map Prod.fst = (l.item.filter fun p => sel p.1).map fun p => [decimal p.2] := by
  cases l with
  | number name pad n unit =>
    have hmatch := h.number name pad n unit hl [] fun d y' hy => absurd hy (by simp)
    rw [List.append_nil] at hmatch
    rw [hmatch, SmapsLine.item, Option.filter_some]
    split_ifs <;> rfl
  | vmFlags flags =>
    have hmatch : r.matchAt (SmapsLine.vmFlags flags).bytes = none := h.other (byte 'V') _ (Or.inr rfl)
    rw [hmatch]
    rfl

theorem found_block (h : Reads r sel) (b : SmapsBlock) :
    (b.text.filterMap fun x => (r.matchAt x).map Prod.fst) = (b.numbers.items.filter fun p => sel p.1).map fun p => [decimal p.2] := by
  obtain ⟨c, rest, hheader, hc⟩ := b.header_first
  have hnone : (r.matchAt b.header).map Prod.fst = none := by
    rw [hheader, h.other c rest (Or.inl hc)]
    rfl
  have hlines : ∀ lines : List SmapsLine, (∀ l ∈ lines, l.WellFormed) →
      ((lines.map SmapsLine.bytes).filterMap fun x => (r.matchAt x).map Prod.fst) =
        ((lines.filterMap SmapsLine.item).filter fun p => sel p.1).map fun p => [decimal p.2] := by
    intro lines hwf
    rw [List.filterMap_map, ← List.filterMap_eq_map, ← List.filterMap_eq_filter, List.filterMap_filterMap, List.filterMap_filterMap]
    refine List.filterMap_congr fun l hl => ?_
    rw [Function.comp_apply, h.found_line (hwf l hl)]
    cases l.item with
    | none => rfl
    | some p =>
      rw [Option.filter_some, Option.bind_some, Option.guard]
      split_ifs <;> rfl
  rw [SmapsBlock.text, List.filterMap_cons, hnone]
  exact hlines b.lines b.line_ok

theorem lined_of_first (h : Reads r sel) {c : UInt8} (hc : isAddrByte c = true ∨ c = byte 'V') (rest : Bytes) :
    Pattern.Lined r 10 (c :: rest) ∧ r.matchAt (c :: rest) = none := by
  refine ⟨fun y _ => ?_, h.other c rest hc⟩
  rw [List.cons_append, h.other c rest hc, h.other c (rest ++ y) hc]
  rfl

/-- The last line may be read without its end. -/
theorem lined_of_readAs (h : Reads r sel) {blocks : List SmapsBlock} {line x : Bytes} (hline : line ∈ smapsLines blocks) (hx : ReadAs line x) :
    Pattern.Lined r 10 x ∧ r.matchAt x = r.matchAt line := by
  have hfirst : ∀ c rest, line = c :: rest → (isAddrByte c = true ∨ c = byte 'V') → isSpace c = false →
      Pattern.Lined r 10 x ∧ r.matchAt x = r.matchAt line := by
    intro c rest heq hc hspace
    obtain ⟨rest', rfl⟩ := first_of_readAs hx heq hspace
    rw [(h.lined_of_first hc rest').2, heq, (h.lined_of_first hc rest).2]
    exact ⟨(h.lined_of_first hc rest').1, rfl⟩
  obtain ⟨b, -, hl⟩ := List.mem_flatMap.1 hline
  rcases List.mem_cons.1 hl with rfl | hl
  · obtain ⟨c, rest, heq, hc⟩ := b.header_first
    exact hfirst c rest heq (Or.inl hc) (isSpace_of_isAddrByte hc)
  · obtain ⟨l, hmem, rfl⟩ := List.mem_map.1 hl
    cases l with
    | number name pad n unit =>
      have hnumber := h.number name pad n unit (b.line_ok _ hmem)
      rw [eq_of_readAs_number hx]
      refine ⟨fun y hy => ?_, rfl⟩
      have halone := hnumber [] fun d y' hy' => absurd hy' (by simp)
      rw [List.append_nil, List.append_nil] at halone
      rw [hnumber y hy, halone]
      split_ifs <;> rfl
    | vmFlags flags => exact hfirst (byte 'V') _ rfl (Or.inr rfl) (by decide)

theorem found_blocks (h : Reads r sel) (blocks : List SmapsBlock) : ((smapsLines blocks).filterMap fun x => (r.matchAt x).map Prod.fst) =
    (blocks.flatMap fun b => b.numbers.items.filter fun p => sel p.1).map fun p => [decimal p.2] := by
  rw [smapsLines, List.filterMap_flatMap, List.map_flatMap]
  exact List.flatMap_congr fun b _ => h.found_block b

/-- **The sum of a pattern**: that of the lines with a label of its kind. -/
theorem sumKb_eq (h : Reads r sel) (blocks : List SmapsBlock) :
    sumKb (.one (· = 10) :: r) (strip (smapsText blocks)) = totalKb sel blocks * 1024 := by
  cases blocks with
  | nil => rfl
  | cons b blocks =>
    obtain ⟨x, xs, htext, hread, hx⟩ := strip_smapsText_cons b blocks
    have hfound := filterMap_readAs (f := fun x => (r.matchAt x).map Prod.fst) hread fun l hl x hx => by
      rw [(h.lined_of_readAs hl hx).2]
    -- no newline is before the first line, and it is a header
    have hnewline : ∀ d ∈ x, decide (d = 10) = false := by
      intro d hd
      refine decide_eq_false fun hd10 => b.newline_notMem_header ?_
      rw [← hd10]
      exact subset_of_readAs hx hd
    have hnone : (r.matchAt x).map Prod.fst = none := by
      obtain ⟨c, rest, hheader, hc⟩ := b.header_first
      obtain ⟨rest', rfl⟩ := first_of_readAs hx hheader (isSpace_of_isAddrByte hc)
      rw [(h.lined_of_first (Or.inl hc) rest').2]
      rfl
    have hlined : ∀ l ∈ xs, 10 ∉ l ∧ Pattern.Lined r 10 l := by
      intro l hl
      obtain ⟨line, hline, hl⟩ := exists_of_readAs hread l (List.mem_cons_of_mem x hl)
      exact ⟨fun hd => newline_notMem_smapsLines line hline (subset_of_readAs hl hd), (h.lined_of_readAs hline hl).1⟩
    have hrest : xs.filterMap (fun x => (r.matchAt x).map Prod.fst) = (x :: xs).filterMap fun x => (r.matchAt x).map Prod.fst := by
      rw [List.filterMap_cons, hnone]
    rw [sumKb, htext, Pattern.findall_skip hnewline, Pattern.findall_lines hlined, hrest, hfound, h.found_blocks, totalKb, List.map_map]
    simp [Function.comp_def]

end Reads

/-! ## `smaps_rollup` -/

/-- What a line adds. -/
def rollupItem (acc : Int × Int × Int) (p : Bytes × Nat) : Int × Int × Int :=
  if isPrivate p.1 then (acc.1 + p.2 * 1024, acc.2.1, acc.2.2)
  else if p.1 = ascii "Pss:" then (acc.1, p.2 * 1024, acc.2.2)
  else if p.1 = ascii "Swap:" then (acc.1, acc.2.1, p.2 * 1024)
  else acc

theorem startsWith_bytes {w : Bytes} (hw : byte ':' ∉ w) (name v : Bytes) : startsWith (name ++ byte ':' :: v) w = startsWith name w := by
  rw [Bool.eq_iff_iff, startsWith, startsWith, List.isPrefixOf_iff_prefix, List.isPrefixOf_iff_prefix]
  exact ⟨Pattern.prefix_of_prefix_append hw, fun h => h.trans (List.prefix_append _ _)⟩

theorem startsWith_label {w name : Bytes} (hw : byte ':' ∉ w) (hname : byte ':' ∉ name) (v : Bytes) :
    startsWith (name ++ byte ':' :: v) (w ++ [byte ':']) = true ↔ name ++ [byte ':'] = w ++ [byte ':'] := by
  rw [startsWith, List.isPrefixOf_iff_prefix]
  constructor
  · intro h
    rw [Pattern.eq_of_common_start hw hname h]
  · intro h
    obtain rfl := List.append_cancel_right h
    exact ⟨v, by simp⟩

/-- The second word of a line is its number. -/
theorem getItem_split_number {name : Bytes} {pad n : Nat} {unit : Bool} (h : (SmapsLine.number name pad n unit).WellFormed) :
    getItem (split (SmapsLine.number name pad n unit).bytes) 1 = .ok (decimal n) := by
  have hname : IsWord (name ++ [byte ':']) := by
    refine ⟨by simp, fun c hc => ?_⟩
    rcases List.mem_append.1 hc with hc | hc
    · exact h.1.2 c hc
    · rw [List.mem_singleton.1 hc]
      decide
  have hnumber : ∃ words, split (List.replicate pad 32 ++ (decimal n ++ if unit then ascii " kB" else [])) = decimal n :: words := by
    rw [split, ← wordsBy, wordsBy_replicate (by decide)]
    cases unit with
    | true =>
      have hcut := split_append (c := 32) (by decide) (decimal n) (ascii "kB")
      rw [split_word (isWord_decimal n).1 (isWord_decimal n).2] at hcut
      exact ⟨_, hcut⟩
    | false =>
      have hcut := split_word (isWord_decimal n).1 (isWord_decimal n).2
      rw [if_neg (by decide), List.append_nil]
      exact ⟨[], hcut⟩
  obtain ⟨words, hwords⟩ := hnumber
  rw [SmapsLine.bytes, List.append_cons, List.replicate_succ, List.cons_append, split_append (by decide), split_word hname.1 hname.2, hwords]
  rfl

theorem rollupLine_number (acc : Int × Int × Int) {name : Bytes} {pad n : Nat} {unit : Bool}
    (h : (SmapsLine.number name pad n unit).WellFormed) :
    rollupLine acc (SmapsLine.number name pad n unit).bytes = .ok (rollupItem acc (name ++ [byte ':'], n)) := by
  have hprivate : startsWith (SmapsLine.number name pad n unit).bytes (ascii "Private_") = isPrivate (name ++ [byte ':']) := by
    rw [isPrivate, SmapsLine.bytes, startsWith_bytes (by decide), startsWith_bytes (by decide)]
  have hpss : startsWith (SmapsLine.number name pad n unit).bytes (ascii "Pss:") = true ↔ name ++ [byte ':'] = ascii "Pss:" :=
    startsWith_label (w := ascii "Pss") (by decide) h.2 _
  have hswap : startsWith (SmapsLine.number name pad n unit).bytes (ascii "Swap:") = true ↔ name ++ [byte ':'] = ascii "Swap:" :=
    startsWith_label (w := ascii "Swap") (by decide) h.2 _
  simp only [rollupLine, rollupItem, hprivate, hpss, hswap, getItem_split_number h]
  split_ifs <;> simp [bind, Except.bind, pure, Except.pure]

theorem rollupLine_other (acc : Int × Int × Int) {c : UInt8} (hc : isAddrByte c = true ∨ c = byte 'V') (rest : Bytes) :
    rollupLine acc (c :: rest) = .ok acc := by
  have hstart : ∀ d w, isAddrByte d = false ∧ d ≠ byte 'V' → startsWith (c :: rest) (d :: w) = false := by
    intro d w hd
    rw [startsWith, Bool.eq_false_iff, ne_eq, List.isPrefixOf_iff_prefix, List.cons_prefix_cons]
    rintro ⟨rfl, -⟩
    rcases hc with hc | hc
    · rw [hd.1] at hc
      cases hc
    · exact hd.2 hc
  have hprivate := hstart (byte 'P') (ascii "rivate_") (by decide)
  have hpss := hstart (byte 'P') (ascii "ss:") (by decide)
  have hswap := hstart (byte 'S') (ascii "wap:") (by decide)
  obtain ⟨uss, pss, swap⟩ := acc
  have hif : ∀ {a b d : Bool} {x y z w : Except Exc (Int × Int × Int)}, a = false → b = false → d = false →
      (if a then x else if b then y else if d then z else w) = w := by
    rintro _ _ _ x y z w rfl rfl rfl
    rfl
  exact hif hprivate hpss hswap

/-- Over the lines of a block, whatever comes behind them. -/
theorem foldlM_rollupLine (rest : List Bytes) : ∀ {lines : List SmapsLine}, (∀ l ∈ lines, l.WellFormed) → ∀ acc : Int × Int × Int,
    (lines.map SmapsLine.bytes ++ rest).foldlM rollupLine acc = rest.foldlM rollupLine ((lines.filterMap SmapsLine.item).foldl rollupItem acc)
  | [], _, _ => rfl
  | l :: lines, h, acc => by
    have hl := h l List.mem_cons_self
    have ih := foldlM_rollupLine rest fun l' hl' => h l' (List.mem_cons_of_mem l hl')
    rw [List.map_cons, List.cons_append, List.foldlM_cons]
    cases l with
    | number name pad n unit =>
      rw [rollupLine_number acc hl]
      exact ih _
    | vmFlags flags =>
      rw [show rollupLine acc (SmapsLine.vmFlags flags).bytes = .ok acc from rollupLine_other acc (Or.inr rfl) _]
      exact ih acc

theorem parseSmapsRollup_block (r : SmapsBlock) : parseSmapsRollup (smapsText [r]) =
    .ok (.footprint (r.numbers.items.foldl rollupItem (0, 0, 0)).1 (r.numbers.items.foldl rollupItem (0, 0, 0)).2.1
      (r.numbers.items.foldl rollupItem (0, 0, 0)).2.2) := by
  obtain ⟨c, rest, hheader, hc⟩ := r.header_first
  have hlines : smapsLines [r] = r.header :: r.lines.map SmapsLine.bytes := by
    rw [smapsLines, List.flatMap_singleton, SmapsBlock.text]
  have hfold : ((smapsText [r]).splitOn 10).foldlM rollupLine (0, 0, 0) = .ok (r.numbers.items.foldl rollupItem (0, 0, 0)) := by
    rw [smapsText, splitOn_unlines newline_notMem_smapsLines, hlines, List.cons_append, List.foldlM_cons, hheader,
      rollupLine_other _ (Or.inl hc)]
    exact foldlM_rollupLine [[]] r.line_ok (0, 0, 0)
  rw [parseSmapsRollup, hfold]
  rfl

/-- No label stands twice, so that a line does not replace the number of an earlier one. -/
theorem foldl_rollupItem : ∀ (items : List (Bytes × Nat)) (hnd : (items.map Prod.fst).Nodup) (acc : Int × Int × Int),
    items.foldl rollupItem acc = (acc.1 + ((items.filter fun p => isPrivate p.1).map Prod.snd).sum * 1024,
      (((Dict.mk items hnd).get? (ascii "Pss:")).map fun n : Nat => (n : Int) * 1024).getD acc.2.1,
      (((Dict.mk items hnd).get? (ascii "Swap:")).map fun n : Nat => (n : Int) * 1024).getD acc.2.2)
  | [], _, acc => by simp [Dict.get?]
  | (label, n) :: items, hnd, acc => by
    have htail := List.nodup_cons.1 hnd
    have hlater : ∀ w, label = w → (Dict.mk items htail.2).get? w = none := fun w hw => Dict.get?_eq_none.2 (hw ▸ htail.1)
    rw [List.foldl_cons, foldl_rollupItem items htail.2, rollupItem, Dict.get?_mk_cons, Dict.get?_mk_cons]
    by_cases hprivate : isPrivate label = true
    · have hpss : ascii "Pss:" ≠ label := by
        rintro rfl
        exact absurd hprivate (by decide)
      have hswap : ascii "Swap:" ≠ label := by
        rintro rfl
        exact absurd hprivate (by decide)
      simp [hprivate, hpss, hswap]
      ring
    by_cases hpss : label = ascii "Pss:"
    · have hlabel : isPrivate (ascii "Pss:") = false ∧ ascii "Swap:" ≠ ascii "Pss:" := by decide
      subst hpss
      simp [hlabel, hlater _ rfl]
    by_cases hswap : label = ascii "Swap:"
    · have hlabel : isPrivate (ascii "Swap:") = false ∧ ascii "Swap:" ≠ ascii "Pss:" := by decide
      subst hswap
      simp [hlabel, hlabel.2.symm, hlater _ rfl]
    · simp [hprivate, hpss, hswap, Ne.symm hpss, Ne.symm hswap]

/-! ## The same footprint -/

theorem parseSmapsRollup_eq (r : SmapsBlock) : parseSmapsRollup (smapsText [r]) = .ok (ownFootprint [r]) := by
  have hkb : ∀ label, ((r.numbers.get? label).map fun n : Nat => (n : Int) * 1024).getD 0 = ((r.kb label * 1024 : Nat) : Int) := by
    intro label
    rw [SmapsBlock.kb]
    cases r.numbers.get? label <;> simp
  rw [parseSmapsRollup_block, foldl_rollupItem r.numbers.items r.numbers.nodup]
  simp only [hkb]
  simp [ownFootprint, totalKb]

theorem totalKb_eq_sum {sel : Bytes → Bool} {S : Finset Bytes} (hsel : ∀ label ∈ S, sel label = true) : ∀ blocks : List SmapsBlock,
    (∀ b ∈ blocks, ∀ label ∈ b.numbers, sel label = true → label ∈ S) → totalKb sel blocks = ∑ label ∈ S, (blocks.map (·.kb label)).sum
  | [], _ => by simp [totalKb]
  | b :: blocks, h => by
    have ih := totalKb_eq_sum hsel blocks fun b' hb' => h b' (List.mem_cons_of_mem b hb')
    have hb := sum_filter_items hsel b.numbers (h b List.mem_cons_self)
    rw [totalKb] at ih ⊢
    rw [List.flatMap_cons, List.map_append, List.sum_append, hb, ih, ← Finset.sum_add_distrib]
    rfl

theorem totalKb_label (label : Bytes) (blocks : List SmapsBlock) : totalKb (· = label) blocks = (blocks.map (·.kb label)).sum := by
  have hsel : ∀ l ∈ ({label} : Finset Bytes), decide (l = label) = true := by simp
  have hsum := totalKb_eq_sum hsel blocks (by simp)
  rwa [Finset.sum_singleton] at hsum

theorem startsWith_private {label : Bytes} (h : isPrivate label = true) : startsWith label (ascii "Private") = true := by
  rw [isPrivate, startsWith, List.isPrefixOf_iff_prefix] at h
  rw [startsWith, List.isPrefixOf_iff_prefix]
  exact (List.prefix_append (ascii "Private") [byte '_']).trans h

theorem parseSmaps_eq {blocks : List SmapsBlock} (h : ∀ b ∈ blocks, b.KernelLabels) :
    parseSmaps (strip (smapsText blocks)) = ownFootprint blocks := by
  have hprivate : totalKb (startsWith · (ascii "Private")) blocks = totalKb isPrivate blocks := by
    have hfilter : ∀ b ∈ blocks, (b.numbers.items.filter fun p => startsWith p.1 (ascii "Private")) =
        b.numbers.items.filter fun p => isPrivate p.1 := by
      intro b hb
      refine List.filter_congr fun p hp => ?_
      rw [Bool.eq_iff_iff]
      exact ⟨h b hb p.1 (List.mem_map_of_mem hp), startsWith_private⟩
    rw [totalKb, totalKb, List.flatMap_congr hfilter]
  have huss : sumKb (lit "\nPrivate" ++ dotStar :: lit ":" ++ [spaces, digitGroup]) (strip (smapsText blocks)) = _ :=
    reads_private.sumKb_eq blocks
  have hpss : sumKb (lit "\nPss:" ++ [spaces, digitGroup]) (strip (smapsText blocks)) = _ :=
    (reads_label (c := byte 'P') (w := ascii "ss") (by decide) (by decide)).sumKb_eq blocks
  have hswap : sumKb (lit "\nSwap:" ++ [spaces, digitGroup]) (strip (smapsText blocks)) = _ :=
    (reads_label (c := byte 'S') (w := ascii "wap") (by decide) (by decide)).sumKb_eq blocks
  rw [totalKb_label] at hpss hswap
  rw [parseSmaps, huss, hpss, hswap, hprivate]
  rfl

theorem totalKb_rollup {blocks : List SmapsBlock} {r : SmapsBlock} (h : IsRollup blocks r) :
    totalKb isPrivate [r] = totalKb isPrivate blocks := by
  have hmem : ∀ label, label ∈ (((r :: blocks).flatMap fun b => b.numbers.keys).filter isPrivate).toFinset ↔
      (∃ b ∈ r :: blocks, label ∈ b.numbers) ∧ isPrivate label = true := by
    intro label
    rw [List.mem_toFinset, List.mem_filter, List.mem_flatMap]
    rfl
  have hsel : ∀ label ∈ (((r :: blocks).flatMap fun b => b.numbers.keys).filter isPrivate).toFinset, isPrivate label = true :=
    fun label hl => ((hmem label).1 hl).2
  rw [totalKb_eq_sum hsel [r], totalKb_eq_sum hsel blocks]
  · refine Finset.sum_congr rfl fun label hl => ?_
    rw [← h label (Or.inl (hsel label hl)), List.map_singleton, List.sum_singleton]
  · exact fun b hb label hl hprivate => (hmem label).2 ⟨⟨b, List.mem_cons_of_mem r hb, hl⟩, hprivate⟩
  · intro b hb label hl hprivate
    rw [List.mem_singleton.1 hb] at hl
    exact (hmem label).2 ⟨⟨r, List.mem_cons_self, hl⟩, hprivate⟩

/-- **A file of sums gives the footprint** of the file that was summed, and no other lines count. -/
theorem parseSmapsRollup_eq_parseSmaps {blocks : List SmapsBlock} {r : SmapsBlock} (hlabels : ∀ b ∈ blocks, b.KernelLabels)
    (hr : IsRollup blocks r) : parseSmapsRollup (smapsText [r]) = .ok (parseSmaps (strip (smapsText blocks))) ∧
      parseSmaps (strip (smapsText blocks)) = ownFootprint blocks := by
  have hown : ownFootprint [r] = ownFootprint blocks := by
    have hpss := hr (ascii "Pss:") (Or.inr (Or.inl rfl))
    have hswap := hr (ascii "Swap:") (Or.inr (Or.inr rfl))
    rw [ownFootprint, ownFootprint, totalKb_rollup hr, ← hpss, ← hswap]
    simp
  rw [parseSmaps_eq hlabels, parseSmapsRollup_eq, hown]
  exact ⟨rfl, rfl⟩

def libcText : SmapsBlock :=
  libraryBlock "7e00-7e01" "/usr/lib/libc.so.6" [("Pss", 9), ("Pss_Dirty", 2), ("Shared_Clean", 40), ("Private_Clean", 4),
    ("Private_Dirty", 2), ("Swap", 0), ("SwapPss", 0)] (by decide) (by decide) (by decide) (by decide)

def libcData : SmapsBlock :=
  libraryBlock "7e01-7e02" "/usr/lib/libc.so.6 (deleted)" [("Pss", 3), ("Private_Dirty", 3), ("Swap", 8), ("SwapPss", 5)]
    (by decide) (by decide) (by decide) (by decide)

def libcRollup : SmapsBlock :=
  libraryBlock "7e00-7eff" "[rollup]" [("Pss", 12), ("Private_Clean", 4), ("Private_Dirty", 5), ("Private_Hugetlb", 0), ("Swap", 8)]
    (by decide) (by decide) (by decide) (by decide)

/-- Two regions of a library. -/
theorem parseSmapsRollup_libc : parseSmapsRollup (smapsText [libcRollup]) = .ok (parseSmaps (strip (smapsText [libcText, libcData]))) ∧
    parseSmaps (strip (smapsText [libcText, libcData])) = ownFootprint [libcText, libcData] := by
  refine parseSmapsRollup_eq_parseSmaps (r := libcRollup) ?_ ?_
  · intro b hb label hlabel
    have hall : ∀ b ∈ [libcText, libcData], ∀ label ∈ b.numbers.keys, startsWith label (ascii "Private") = true → isPrivate label = true := by
      decide
    exact hall b hb label hlabel
  · intro label hlabel
    by_cases hknown : ∃ b ∈ [libcRollup, libcText, libcData], label ∈ b.numbers.keys
    · have hall : ∀ b ∈ [libcRollup, libcText, libcData], ∀ label ∈ b.numbers.keys,
          isPrivate label = true ∨ label = ascii "Pss:" ∨ label = ascii "Swap:" →
            libcRollup.kb label = ([libcText, libcData].map (·.kb label)).sum := by
        decide
      obtain ⟨b, hb, hl⟩ := hknown
      exact hall b hb label hl hlabel
    · have hzero : ∀ b ∈ [libcRollup, libcText, libcData], b.kb label = 0 := by
        intro b hb
        rw [SmapsBlock.kb, Dict.get?_eq_none.2 fun hl => hknown ⟨b, hb, hl⟩]
        rfl
      simp [hzero]

end Psutil
