import Psutil.Common.Text
import Psutil.Lib.Fold
import Psutil.Linux.Text

/-!
# Columns of a text file

`Text.decimal` is a number in a text; a `TextRow` is the words of a line with the blanks before each. `Text.int_decimal`,
`TextRow.split_text` and `lines_rows` read them back with the methods of `str`.
-/

namespace Psutil.Common

open Lib

/-- `%llu`. -/
def Text.decimal (n : Nat) : Text := (Nat.toDigits 10 n).map Char.toNat

/-- `data.rfind(c)`. -/
def Text.rfind (data : Text) (c : Nat) : Int :=
  match data.reverse.findIdx? (· = c) with
  | some i => (data.length : Int) - 1 - i
  | none => -1

/-- `data.strip()`. -/
def Text.strip (data : Text) : Text := ((data.dropWhile Text.isSpace).reverse.dropWhile Text.isSpace).reverse

def Text.IsWord (t : Text) : Prop := t ≠ [] ∧ ∀ c ∈ t, Text.isSpace c = false

/-- The words of a line, each with the blanks before it. -/
structure TextRow where
  cols : List (Text × Text)
  blank : ∀ c ∈ cols, ∀ b ∈ c.1, b = 32 ∨ b = 9
  word : ∀ c ∈ cols, Text.IsWord c.2
  apart : ∀ c ∈ cols.tail, c.1 ≠ []

namespace TextRow

def text (r : TextRow) : Text := r.cols.flatMap fun c => c.1 ++ c.2

def words (r : TextRow) : List Text := r.cols.map Prod.snd

/-- With one blank before each word. -/
def ofWords (words : List Text) (h : ∀ w ∈ words, Text.IsWord w) : TextRow where
  cols := words.map fun w => ([32], w)
  blank := by
    intro c hc b hb
    obtain ⟨w, -, rfl⟩ := List.mem_map.1 hc
    exact Or.inl (List.mem_singleton.1 hb)
  word := by
    intro c hc
    obtain ⟨w, hw, rfl⟩ := List.mem_map.1 hc
    exact h w hw
  apart := by
    intro c hc
    obtain ⟨w, -, rfl⟩ := List.mem_map.1 (List.mem_of_mem_tail hc)
    exact List.cons_ne_nil _ _

theorem words_ofWords {words : List Text} (h : ∀ w ∈ words, Text.IsWord w) : (ofWords words h).words = words := by
  simp [ofWords, TextRow.words]

end TextRow

/-- No digits but those of ASCII. -/
def UnicodeData.ascii : UnicodeData where
  decimal := fun c => if c < 48 then none else if c < 58 then some (c - 48) else none
  decimal_ascii := by
    intro c _
    split_ifs <;> first | rfl | omega
  repr := fun t => String.ofList (t.map Char.ofNat)

/-! ## Numbers -/

theorem Text.digit_of_mem_decimal {n c : Nat} (h : c ∈ Text.decimal n) : 48 ≤ c ∧ c < 58 := by
  obtain ⟨d, hd, rfl⟩ := List.mem_map.1 h
  have hdigit := isDigit_byte (Nat.isDigit_of_mem_toDigits (by decide) (by decide) hd)
  have hrange := hdigit.1
  simp only [Bytes.isDigit, Bool.and_eq_true, decide_eq_true_eq, UInt8.le_iff_toNat_le, hdigit.2] at hrange
  exact ⟨hrange.1, Nat.lt_succ_of_le hrange.2⟩

theorem Text.decimal_ne_nil (n : Nat) : Text.decimal n ≠ [] := by
  simp [Text.decimal]

theorem Text.isWord_decimal (n : Nat) : Text.IsWord (Text.decimal n) := by
  refine ⟨Text.decimal_ne_nil n, fun c hc => ?_⟩
  have hdigit := Text.digit_of_mem_decimal hc
  simp [Text.isSpace]
  omega

theorem Text.int_decimal (U : UnicodeData) (n : Nat) : Text.int U (Text.decimal n) = .ok n := by
  -- the digits as numbers
  obtain ⟨digits, hdigits⟩ : ∃ digits, digits = (Text.decimal n).map (· - 48) := ⟨_, rfl⟩
  have hback : Text.decimal n = digits.map (48 + ·) := by
    rw [hdigits, List.map_map]
    refine (List.map_id _).symm.trans (List.map_congr_left fun c hc => ?_)
    have hdigit := Text.digit_of_mem_decimal hc
    simp only [id, Function.comp]
    omega
  have hlt : ∀ d ∈ digits, d < 10 := by
    intro d hd
    rw [hdigits] at hd
    obtain ⟨c, hc, rfl⟩ := List.mem_map.1 hd
    have hdigit := Text.digit_of_mem_decimal hc
    omega
  have hne : digits ≠ [] := by
    intro hnil
    rw [hnil] at hback
    exact Text.decimal_ne_nil n hback
  have hvalue : ofDigits digits = n := by
    have hchars := Nat.ofDigitChars_ten_toDigits (n := n)
    rw [Nat.ofDigitChars_eq_foldl] at hchars
    rw [hdigits, Text.decimal, ofDigits, List.map_map, List.foldl_map]
    exact hchars
  rw [hback, int_digits U hne hlt, hvalue]

theorem Text.mapM_int_decimal (U : UnicodeData) (l : List Nat) : (l.map Text.decimal).mapM (Text.int U) = .ok (l.map Int.ofNat) := by
  rw [List.mapM_map]
  exact mapM_ok fun n _ => Text.int_decimal U n

/-! ## Words -/

theorem Text.isSpace_blank {b : Nat} (h : b = 32 ∨ b = 9) : Text.isSpace b = true := by
  rcases h with rfl | rfl <;> decide

theorem Text.rfind_append {y : Text} {c : Nat} (h : c ∉ y) (x : Text) : Text.rfind (x ++ c :: y) c = x.length := by
  have hrev : (x ++ c :: y).reverse = y.reverse ++ c :: x.reverse := by simp
  rw [Text.rfind, hrev, findIdx?_append_cons (by simpa using h)]
  simp
  omega

theorem Text.dropWhile_of_noSpace {t : Text} (h : ∀ c ∈ t, Text.isSpace c = false) : t.dropWhile Text.isSpace = t := by
  cases t with
  | nil => rfl
  | cons c t => rw [List.dropWhile_cons_of_neg (by simp [h c List.mem_cons_self])]

/-- Blanks before a word are stripped. -/
theorem Text.strip_append {g w : Text} (hg : ∀ b ∈ g, b = 32 ∨ b = 9) (hw : Text.IsWord w) : Text.strip (g ++ w) = w := by
  rw [Text.strip, List.dropWhile_append_of_pos fun b hb => Text.isSpace_blank (hg b hb), Text.dropWhile_of_noSpace hw.2,
    Text.dropWhile_of_noSpace fun c hc => hw.2 c (List.mem_reverse.1 hc), List.reverse_reverse]

/-- White space around a text is stripped. -/
theorem Text.strip_pad {g g' : Text} (hg : ∀ b ∈ g, Text.isSpace b = true) (hg' : ∀ b ∈ g', Text.isSpace b = true) (t : Text) :
    Text.strip (g ++ (t ++ g')) = Text.strip t := by
  have hrev : ∀ b ∈ g'.reverse, Text.isSpace b = true := fun b hb => hg' b (List.mem_reverse.1 hb)
  rw [Text.strip, Text.strip, List.dropWhile_append_of_pos hg, List.dropWhile_append]
  split_ifs with hnil
  · rw [List.isEmpty_iff.1 hnil, List.dropWhile_eq_nil_iff.2 hg']
  · rw [List.reverse_append, List.dropWhile_append_of_pos hrev]

theorem Text.exists_pad_strip (t : Text) : ∃ g g', (∀ b ∈ g, Text.isSpace b = true) ∧ (∀ b ∈ g', Text.isSpace b = true) ∧
    t = g ++ (Text.strip t ++ g') := by
  refine ⟨t.takeWhile Text.isSpace, ((t.dropWhile Text.isSpace).reverse.takeWhile Text.isSpace).reverse,
    fun b hb => List.mem_takeWhile_imp hb, fun b hb => List.mem_takeWhile_imp (List.mem_reverse.1 hb), ?_⟩
  rw [Text.strip, ← List.reverse_append, List.takeWhile_append_dropWhile, List.reverse_reverse, List.takeWhile_append_dropWhile]

theorem Text.strip_word {w : Text} (hw : Text.IsWord w) : Text.strip w = w := Text.strip_append (g := []) (by simp) hw

/-- White space before a text is nothing to `split()`. -/
theorem Text.split_blanks {g : Text} (h : ∀ b ∈ g, Text.isSpace b = true) (t : Text) : Text.split (g ++ t) = Text.split t := by
  induction g with
  | nil => rfl
  | cons b g ih =>
    have hrest := ih fun c hc => h c (List.mem_cons_of_mem b hc)
    rw [List.cons_append, Text.split, wordsBy_cons (h b List.mem_cons_self)]
    exact hrest

theorem Text.split_word {w : Text} (hw : Text.IsWord w) : Text.split w = [w] := wordsBy_word hw.1 hw.2

/-- A word, then white space. -/
theorem Text.split_word_append {w : Text} (hw : Text.IsWord w) {b : Nat} (hb : Text.isSpace b = true) (t : Text) :
    Text.split (w ++ b :: t) = w :: Text.split t := by
  rw [Text.split, wordsBy_append hb, wordsBy_word hw.1 hw.2]
  rfl

/-- The words behind a word or at the start. -/
theorem Text.split_cols {tail : Text} (htail : ∀ b ∈ tail, Text.isSpace b = true) : ∀ (cols : List (Text × Text)),
    (∀ c ∈ cols, ∀ b ∈ c.1, b = 32 ∨ b = 9) → (∀ c ∈ cols, Text.IsWord c.2) → (∀ c ∈ cols.tail, c.1 ≠ []) →
      Text.split (cols.flatMap (fun c => c.1 ++ c.2) ++ tail) = cols.map Prod.snd
  | [], _, _, _ => by
    have hsplit := Text.split_blanks htail []
    rwa [List.append_nil] at hsplit
  | [(g, w)], hblank, hword, _ => by
    have hw := hword (g, w) List.mem_cons_self
    have hg : ∀ b ∈ g, Text.isSpace b = true := fun b hb => Text.isSpace_blank (hblank (g, w) List.mem_cons_self b hb)
    rw [List.flatMap_singleton, List.append_assoc, Text.split_blanks hg]
    cases tail with
    | nil => rw [List.append_nil, Text.split_word hw]; rfl
    | cons b tail =>
      have hrest := Text.split_blanks (fun c hc => htail c (List.mem_cons_of_mem b hc)) []
      rw [List.append_nil] at hrest
      rw [Text.split_word_append hw (htail b List.mem_cons_self), hrest]
      rfl
  | (g, w) :: (g', w') :: cols, hblank, hword, hapart => by
    have hw := hword (g, w) List.mem_cons_self
    have hg : ∀ b ∈ g, Text.isSpace b = true := fun b hb => Text.isSpace_blank (hblank (g, w) List.mem_cons_self b hb)
    have ih := Text.split_cols htail ((g', w') :: cols) (fun c hc => hblank c (List.mem_cons_of_mem _ hc))
      (fun c hc => hword c (List.mem_cons_of_mem _ hc)) (fun c hc => hapart c (List.mem_cons_of_mem _ hc))
    -- the blanks between the two words
    obtain ⟨b, g'', rfl⟩ := List.exists_cons_of_ne_nil (hapart (g', w') List.mem_cons_self)
    have hb := Text.isSpace_blank (hblank (b :: g'', w') (by simp) b List.mem_cons_self)
    rw [List.flatMap_cons, List.append_assoc, List.append_assoc, Text.split_blanks hg, List.flatMap_cons] at *
    simp only [List.append_assoc, List.cons_append] at ih ⊢
    rw [Text.split_word_append hw hb]
    rw [Text.split, wordsBy_cons hb] at ih
    rw [Text.split, ih]
    rfl

namespace TextRow

variable (r : TextRow)

/-- White space may follow. -/
theorem split_text {tail : Text} (htail : ∀ b ∈ tail, Text.isSpace b = true) : Text.split (r.text ++ tail) = r.words :=
  Text.split_cols htail r.cols r.blank r.word r.apart

theorem newline_notMem : 10 ∉ r.text := by
  intro h
  obtain ⟨c, hc, h10⟩ := List.mem_flatMap.1 h
  rcases List.mem_append.1 h10 with h10 | h10
  · rcases r.blank c hc 10 h10 with h | h <;> cases h
  · exact absurd ((r.word c hc).2 10 h10) (by decide)

end TextRow

/-- A file of rows, as it is iterated over. -/
theorem lines_rows (rows : List TextRow) : lines (terminate 10 (rows.map TextRow.text)) = rows.map fun r => r.text ++ [10] := by
  rw [lines_terminate, List.map_map]
  · rfl
  · intro t ht
    obtain ⟨r, -, rfl⟩ := List.mem_map.1 ht
    exact r.newline_notMem

end Psutil.Common
