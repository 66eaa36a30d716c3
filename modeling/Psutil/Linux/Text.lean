import Mathlib.Data.List.DropRight
import Mathlib.Data.List.TakeWhile
import Psutil.Lib.Cut
import Psutil.Linux.Bytes

/-!
# Numbers, words and lines as the kernel prints them

`decimal` and `decimalInt` are `%llu` and `%lld`, `blanks` is a line of words and `unlines` a text of lines. `int_decimalInt`,
`split_blanks` and `splitOn_unlines` read them back with the methods of `bytes`; `find_append` and `rfind_append` say where a
delimiter is found.
-/

namespace Psutil

open Lib Bytes

def decimal (n : Nat) : Bytes := (Nat.toDigits 10 n).map byte

def decimalInt : Int → Bytes
  | .ofNat n => decimal n
  | .negSucc n => byte '-' :: decimal (n + 1)

/-- Words with one blank between two of them. -/
def blanks (words : List Bytes) : Bytes := [32].intercalate words

example : blanks [decimal 4096, decimalInt (-1)] = ascii "4096 -1" := by decide

/-! ## Digits -/

theorem isNumeral_of_all : ∀ {x : Bytes} (afterDigit : Bool), x.all isDigit = true → (x ≠ [] ∨ afterDigit = true) →
    isNumeral afterDigit x = true
  | [], afterDigit, _, hne => by simpa [isNumeral] using hne
  | c :: x, afterDigit, h, _ => by
    simp only [List.all_cons, Bool.and_eq_true] at h
    rw [isNumeral, if_pos h.1]
    exact isNumeral_of_all true h.2 (Or.inr rfl)

theorem isSpace_of_isDigit {c : UInt8} (h : isDigit c = true) : isSpace c = false := by
  simp only [isDigit, isSpace] at *
  grind

theorem not_sign_of_isDigit {c : UInt8} (h : isDigit c = true) : c ≠ byte '-' ∧ c ≠ byte '+' := by
  constructor <;> rintro rfl <;> exact absurd h (by decide)

theorem lstrip_of_digits {x : Bytes} (h : ∀ c ∈ x, isDigit c = true) : lstrip x = x := by
  cases x with
  | nil => rfl
  | cons c x => simp [lstrip, isSpace_of_isDigit (h c List.mem_cons_self)]

theorem strip_of_digits {x : Bytes} (h : ∀ c ∈ x, isDigit c = true) : strip x = x := by
  have hrev : ∀ c ∈ x.reverse, isDigit c = true := fun c hc => h c (List.mem_reverse.1 hc)
  rw [strip, lstrip_of_digits h, lstrip_of_digits hrev, List.reverse_reverse]

theorem numeral_of_digits {x : Bytes} (hne : x ≠ []) (h : ∀ c ∈ x, isDigit c = true) : numeral x = some (digits x) := by
  rw [numeral, if_pos (isNumeral_of_all false (List.all_eq_true.2 h) (Or.inl hne)), List.filter_eq_self.2 h]

/-- A text of digits is a number. -/
theorem int_of_digits {x : Bytes} (hne : x ≠ []) (h : ∀ c ∈ x, isDigit c = true) : int x = .ok (digits x) := by
  obtain ⟨c, rest, rfl⟩ := List.exists_cons_of_ne_nil hne
  obtain ⟨hminus, hplus⟩ := not_sign_of_isDigit (h c List.mem_cons_self)
  simp only [int, strip_of_digits h, hminus, hplus, if_false, numeral_of_digits hne h, Option.map_some, Int.ofNat_eq_natCast]

/-! ## Numbers -/

theorem isDigit_byte {c : Char} (h : c.isDigit = true) : isDigit (byte c) = true ∧ (byte c).toNat = c.toNat := by
  have hrange : 48 ≤ c.toNat ∧ c.toNat ≤ 57 := by
    simpa [Char.isDigit, UInt32.le_iff_toNat_le] using h
  have hval : (byte c).toNat = c.toNat := by
    simp only [byte, Nat.toUInt8, UInt8.toNat_ofNat']
    omega
  refine ⟨?_, hval⟩
  simp only [isDigit, Bool.and_eq_true, decide_eq_true_eq, UInt8.le_iff_toNat_le, hval]
  exact hrange

theorem isDigit_of_mem_decimal {n : Nat} {c : UInt8} (h : c ∈ decimal n) : isDigit c = true := by
  obtain ⟨d, hd, rfl⟩ := List.mem_map.1 h
  exact (isDigit_byte (Nat.isDigit_of_mem_toDigits (by decide) (by decide) hd)).1

@[simp] theorem decimal_ne_nil (n : Nat) : decimal n ≠ [] := by
  simp [decimal]

theorem digits_map_byte : ∀ (cs : List Char) (init : Nat), (∀ c ∈ cs, c.isDigit = true) →
    (cs.map byte).foldl (fun n c => 10 * n + (c.toNat - 48)) init = Nat.ofDigitChars 10 cs init
  | [], _, _ => rfl
  | c :: cs, init, h => by
    rw [List.map_cons, List.foldl_cons, (isDigit_byte (h c List.mem_cons_self)).2, Nat.ofDigitChars_cons]
    exact digits_map_byte cs _ fun d hd => h d (List.mem_cons_of_mem c hd)

@[simp] theorem digits_decimal (n : Nat) : digits (decimal n) = n := by
  have hdigits : ∀ c ∈ Nat.toDigits 10 n, c.isDigit = true :=
    fun c hc => Nat.isDigit_of_mem_toDigits (by decide) (by decide) hc
  rw [digits, decimal, digits_map_byte _ 0 hdigits, Nat.ofDigitChars_ten_toDigits]

@[simp] theorem int_decimal (n : Nat) : int (decimal n) = .ok n := by
  rw [int_of_digits (decimal_ne_nil n) fun _ => isDigit_of_mem_decimal, digits_decimal]

theorem isSpace_of_mem_decimal {n : Nat} {c : UInt8} (h : c ∈ decimal n) : isSpace c = false :=
  isSpace_of_isDigit (isDigit_of_mem_decimal h)

theorem isDigit_or_of_mem_decimalInt : ∀ {z : Int} {c : UInt8}, c ∈ decimalInt z → isDigit c = true ∨ c = byte '-'
  | .ofNat _, _, h => Or.inl (isDigit_of_mem_decimal h)
  | .negSucc _, _, h => by
    rcases List.mem_cons.1 h with hc | hc
    · exact Or.inr hc
    · exact Or.inl (isDigit_of_mem_decimal hc)

theorem isSpace_of_mem_decimalInt {z : Int} {c : UInt8} (h : c ∈ decimalInt z) : isSpace c = false := by
  rcases isDigit_or_of_mem_decimalInt h with hd | rfl
  · exact isSpace_of_isDigit hd
  · decide

@[simp] theorem decimalInt_ne_nil : ∀ z : Int, decimalInt z ≠ []
  | .ofNat n => decimal_ne_nil n
  | .negSucc _ => List.cons_ne_nil _ _

theorem lstrip_of_noSpace {x : Bytes} (h : ∀ c ∈ x, isSpace c = false) : lstrip x = x := by
  cases x with
  | nil => rfl
  | cons c x => simp [lstrip, h c List.mem_cons_self]

theorem strip_of_noSpace {x : Bytes} (h : ∀ c ∈ x, isSpace c = false) : strip x = x := by
  have hrev : ∀ c ∈ x.reverse, isSpace c = false := fun c hc => h c (List.mem_reverse.1 hc)
  rw [strip, lstrip_of_noSpace h, lstrip_of_noSpace hrev, List.reverse_reverse]

@[simp] theorem int_decimalInt : ∀ z : Int, int (decimalInt z) = .ok z
  | .ofNat n => int_decimal n
  | .negSucc n => by
    have hstrip : strip (decimalInt (.negSucc n)) = byte '-' :: decimal (n + 1) :=
      strip_of_noSpace fun _ => isSpace_of_mem_decimalInt
    have hnum : numeral (decimal (n + 1)) = some (n + 1) := by
      rw [numeral_of_digits (decimal_ne_nil _) fun _ => isDigit_of_mem_decimal, digits_decimal]
    simp only [int, hstrip, if_pos, hnum, Option.map_some]
    rfl

@[simp] theorem float_decimalInt (z : Int) : float (decimalInt z) = .ok z := by
  rw [float, int_decimalInt]

@[simp] theorem float_decimal (n : Nat) : float (decimal n) = .ok n := by
  rw [float, int_decimal]
  rfl

theorem mem_lstrip {x : Bytes} {c : UInt8} (h : c ∈ x) : isSpace c = true ∨ c ∈ lstrip x := by
  rw [← List.takeWhile_append_dropWhile (p := isSpace) (l := x), List.mem_append] at h
  exact h.imp_left fun ht => List.mem_takeWhile_imp ht

theorem mem_strip {x : Bytes} {c : UInt8} (h : c ∈ x) : isSpace c = true ∨ c ∈ strip x := by
  rcases mem_lstrip h with hs | hl
  · exact Or.inl hs
  · exact (mem_lstrip (List.mem_reverse.2 hl)).imp_right List.mem_reverse.2

theorem mem_of_isNumeral : ∀ {x : Bytes} {afterDigit : Bool}, isNumeral afterDigit x = true → ∀ c ∈ x, isDigit c = true ∨ c = byte '_'
  | c :: x, afterDigit, h, d, hd => by
    by_cases hc : isDigit c = true
    · rw [isNumeral, if_pos hc] at h
      rcases List.mem_cons.1 hd with rfl | hd
      · exact Or.inl hc
      · exact mem_of_isNumeral h d hd
    · rw [isNumeral, if_neg hc, Bool.and_eq_true, Bool.and_eq_true, decide_eq_true_eq] at h
      rcases List.mem_cons.1 hd with rfl | hd
      · exact Or.inr h.1.2
      · exact mem_of_isNumeral h.2 d hd

/-- The bytes that a number may have. -/
def IsNumeric (c : UInt8) : Prop := isSpace c = true ∨ isDigit c = true ∨ c = byte '_' ∨ c = byte '-' ∨ c = byte '+'

theorem numeral_some {x : Bytes} {n : Nat} (h : numeral x = some n) : ∀ c ∈ x, IsNumeric c := by
  rw [numeral] at h
  split_ifs at h with hn
  intro c hc
  rcases mem_of_isNumeral hn c hc with hd | hd
  · exact Or.inr (Or.inl hd)
  · exact Or.inr (Or.inr (Or.inl hd))

/-- A text that is a number. -/
theorem int_ok {x : Bytes} {n : Int} (h : int x = .ok n) : x ≠ [] ∧ ∀ c ∈ x, IsNumeric c := by
  have hstrip : strip x ≠ [] ∧ ∀ c ∈ strip x, IsNumeric c := by
    unfold int at h
    cases hs : strip x with
    | nil =>
      simp only [hs] at h
      cases h
    | cons c rest =>
      refine ⟨List.cons_ne_nil c rest, ?_⟩
      simp only [hs] at h
      -- a sign, or a digit
      by_cases hminus : c = byte '-'
      · cases hn : numeral rest with
        | none => simp [hminus, hn] at h
        | some n =>
          rw [hminus, List.forall_mem_cons]
          exact ⟨by simp [IsNumeric], numeral_some hn⟩
      by_cases hplus : c = byte '+'
      · cases hn : numeral rest with
        | none => simp [hplus, hn, show byte '+' ≠ byte '-' by decide] at h
        | some n =>
          rw [hplus, List.forall_mem_cons]
          exact ⟨by simp [IsNumeric], numeral_some hn⟩
      · cases hn : numeral (c :: rest) with
        | none => simp [hminus, hplus, hn] at h
        | some n => exact numeral_some hn
  refine ⟨?_, fun c hc => ?_⟩
  · rintro rfl
    exact hstrip.1 rfl
  · rcases mem_strip hc with hs | hs
    · exact Or.inl hs
    · exact hstrip.2 c hs

theorem float_ok {x : Bytes} {q : ℚ} (h : float x = .ok q) : x ≠ [] ∧ ∀ c ∈ x, IsNumeric c := by
  rw [float] at h
  cases hn : int x with
  | ok n => exact int_ok hn
  | error e =>
    rw [hn] at h
    cases h

/-! ## Words -/

/-- A blank ends a word. -/
theorem split_append {c : UInt8} (hc : isSpace c = true) (x y : Bytes) : split (x ++ c :: y) = split x ++ split y :=
  wordsBy_append hc x y

theorem split_word {x : Bytes} (hne : x ≠ []) (h : ∀ c ∈ x, isSpace c = false) : split x = [x] := wordsBy_word hne h

theorem split_space {c : UInt8} (hc : isSpace c = true) (x : Bytes) : split (c :: x) = split x := wordsBy_cons hc x

/-- What `split` takes as a word. -/
def IsWord (x : Bytes) : Prop := x ≠ [] ∧ ∀ c ∈ x, isSpace c = false

theorem isWord_of_all {w : Bytes} (hne : w ≠ []) (h : w.all (!isSpace ·) = true) : IsWord w :=
  ⟨hne, fun c hc => by simpa using List.all_eq_true.1 h c hc⟩

theorem isWord_decimal (n : Nat) : IsWord (decimal n) := ⟨decimal_ne_nil n, fun _ => isSpace_of_mem_decimal⟩

theorem isWord_map_decimal (ns : List Nat) : ∀ x ∈ ns.map decimal, IsWord x := by
  intro x hx
  obtain ⟨n, -, rfl⟩ := List.mem_map.1 hx
  exact isWord_decimal n

theorem isWord_decimalInt (z : Int) : IsWord (decimalInt z) := ⟨decimalInt_ne_nil z, fun _ => isSpace_of_mem_decimalInt⟩

theorem blanks_cons (x y : Bytes) (words : List Bytes) : blanks (x :: y :: words) = x ++ 32 :: blanks (y :: words) := by
  simp [blanks]

/-- A line of words. -/
theorem split_blanks : ∀ {words : List Bytes}, (∀ x ∈ words, IsWord x) → split (blanks words) = words
  | [], _ => by simp [blanks, split]
  | [x], h => by
    obtain ⟨hne, hx⟩ := h x List.mem_cons_self
    rw [show blanks [x] = x from List.intercalate_singleton, split_word hne hx]
  | x :: y :: words, h => by
    obtain ⟨hne, hx⟩ := h x List.mem_cons_self
    rw [blanks_cons, split_append (by decide), split_word hne hx, split_blanks fun z hz => h z (List.mem_cons_of_mem x hz)]
    rfl

theorem split_blanks_newline {words : List Bytes} (h : ∀ x ∈ words, IsWord x) : split (blanks words ++ [10]) = words := by
  rw [split_append (by decide), split_blanks h]
  simp [split]

theorem mem_blanks {c : UInt8} : ∀ {words : List Bytes}, c ∈ blanks words → c = 32 ∨ ∃ x ∈ words, c ∈ x
  | [], h => by simp [blanks] at h
  | [x], h => Or.inr ⟨x, List.mem_cons_self, by simpa [blanks] using h⟩
  | x :: y :: words, h => by
    rw [blanks_cons, List.mem_append, List.mem_cons] at h
    rcases h with hx | rfl | h
    · exact Or.inr ⟨x, List.mem_cons_self, hx⟩
    · exact Or.inl rfl
    · exact (mem_blanks h).imp_right fun ⟨z, hz, hc⟩ => ⟨z, List.mem_cons_of_mem x hz, hc⟩

/-- Words do not break the line they are in. -/
theorem newline_notMem_blanks {words : List Bytes} (h : ∀ x ∈ words, IsWord x) : 10 ∉ blanks words := by
  intro hc
  rcases mem_blanks hc with hblank | ⟨x, hx, hc⟩
  · exact absurd hblank (by decide)
  · exact absurd ((h x hx).2 10 hc) (by decide)

/-- A line of words ends with a byte of the last word. -/
theorem exists_last_blanks : ∀ {words : List Bytes}, words ≠ [] → (∀ x ∈ words, IsWord x) →
    ∃ init d, blanks words = init ++ [d] ∧ isSpace d = false
  | [x], _, h => by
    obtain ⟨hne, hx⟩ := h x List.mem_cons_self
    refine ⟨x.dropLast, x.getLast hne, ?_, hx _ (List.getLast_mem hne)⟩
    rw [List.dropLast_append_getLast, show blanks [x] = x from List.intercalate_singleton]
  | x :: y :: words, _, h => by
    obtain ⟨init, d, heq, hd⟩ := exists_last_blanks (List.cons_ne_nil y words) fun z hz => h z (List.mem_cons_of_mem x hz)
    exact ⟨x ++ 32 :: init, d, by rw [blanks_cons, heq, List.append_assoc, List.cons_append], hd⟩

/-- `strip` takes the newline, and no more. -/
theorem strip_newline {x : Bytes} {c d : UInt8} {rest init : Bytes} (hfirst : x = c :: rest) (hlast : x = init ++ [d])
    (hc : isSpace c = false) (hd : isSpace d = false) : strip (x ++ [10]) = x := by
  have hleft : lstrip (x ++ [10]) = x ++ [10] := by
    rw [hfirst]
    simp [lstrip, hc]
  have hright : lstrip (x ++ [10]).reverse = x.reverse := by
    rw [List.reverse_append, hlast]
    simp [lstrip, hd, show isSpace 10 = true by decide]
  rw [strip, hleft, hright, List.reverse_reverse]

/-- At single blanks too, a line of words is its words. -/
theorem splitOn_blanks : ∀ {words : List Bytes}, words ≠ [] → (∀ x ∈ words, IsWord x) → (blanks words).splitOn 32 = words
  | [x], _, h => by
    rw [show blanks [x] = x from List.intercalate_singleton]
    refine splitOn_of_notMem fun hc => ?_
    exact absurd ((h x List.mem_cons_self).2 32 hc) (by decide)
  | x :: y :: words, _, h => by
    have hblank : 32 ∉ x := fun hc => absurd ((h x List.mem_cons_self).2 32 hc) (by decide)
    rw [blanks_cons, splitOn_append_cons, splitOn_of_notMem hblank,
      splitOn_blanks (List.cons_ne_nil y words) fun z hz => h z (List.mem_cons_of_mem x hz)]
    rfl

/-! ## Whitespace at the ends -/

theorem strip_eq_rdropWhile (x : Bytes) : strip x = (x.dropWhile isSpace).rdropWhile isSpace := rfl

theorem rdropWhile_append_of_all {x y : Bytes} (h : ∀ c ∈ y, isSpace c = true) :
    (x ++ y).rdropWhile isSpace = x.rdropWhile isSpace := by
  induction y using List.reverseRecOn with
  | nil => rw [List.append_nil]
  | append_singleton y c ih =>
    rw [← List.append_assoc, List.rdropWhile_concat_pos _ _ c (h c (by simp)), ih fun d hd => h d (by simp [hd])]

theorem rdropWhile_append_of_ne {x y : Bytes} (h : y.rdropWhile isSpace ≠ []) :
    (x ++ y).rdropWhile isSpace = x ++ y.rdropWhile isSpace := by
  induction y using List.reverseRecOn with
  | nil => exact absurd (List.rdropWhile_nil _) h
  | append_singleton y c ih =>
    rw [← List.append_assoc]
    by_cases hc : isSpace c = true
    · rw [List.rdropWhile_concat_pos _ _ c hc] at h ⊢
      rw [List.rdropWhile_concat_pos _ _ c hc, ih h]
    · rw [List.rdropWhile_concat_neg _ _ c hc, List.rdropWhile_concat_neg _ _ c hc, List.append_assoc]

/-- A text is its middle, with whitespace around it. -/
theorem exists_strip (x : Bytes) : ∃ u v, x = u ++ (strip x ++ v) ∧ (∀ c ∈ u, isSpace c = true) ∧ ∀ c ∈ v, isSpace c = true := by
  refine ⟨x.takeWhile isSpace, (x.dropWhile isSpace).rtakeWhile isSpace, ?_, fun c => List.mem_takeWhile_imp,
    fun c => List.mem_rtakeWhile_imp⟩
  rw [strip_eq_rdropWhile, List.rdropWhile_append_rtakeWhile, List.takeWhile_append_dropWhile]

theorem strip_append_right {x y : Bytes} (h : ∀ c ∈ y, isSpace c = true) : strip (x ++ y) = strip x := by
  rw [strip_eq_rdropWhile, strip_eq_rdropWhile, List.dropWhile_append]
  split_ifs with hx
  · rw [List.isEmpty_iff.1 hx, List.dropWhile_eq_nil_iff.2 h]
  · exact rdropWhile_append_of_all h

theorem strip_append_left {x y : Bytes} (h : ∀ c ∈ x, isSpace c = true) : strip (x ++ y) = strip y := by
  rw [strip_eq_rdropWhile, strip_eq_rdropWhile, List.dropWhile_append_of_pos h]

theorem strip_strip (x : Bytes) : strip (strip x) = strip x := by
  obtain ⟨u, v, hx, hu, hv⟩ := exists_strip x
  have hmiddle := congrArg strip hx
  rw [strip_append_left hu, strip_append_right hv] at hmiddle
  exact hmiddle.symm

theorem strip_lstrip (x : Bytes) : strip (lstrip x) = strip x := by
  have hcut := congrArg strip (List.takeWhile_append_dropWhile (p := isSpace) (l := x))
  rw [strip_append_left fun c => List.mem_takeWhile_imp] at hcut
  exact hcut

theorem strip_rdropWhile (x : Bytes) : strip (x.rdropWhile isSpace) = strip x := by
  have hcut := congrArg strip (List.rdropWhile_append_rtakeWhile (p := isSpace) (l := x))
  rw [strip_append_right fun c => List.mem_rtakeWhile_imp] at hcut
  exact hcut

theorem lstrip_eq_nil {x : Bytes} : lstrip x = [] ↔ strip x = [] := by
  constructor
  · intro h
    rw [← strip_lstrip, h]
    rfl
  · intro h
    obtain ⟨u, v, hx, hu, hv⟩ := exists_strip x
    rw [h, List.nil_append] at hx
    rw [lstrip, List.dropWhile_eq_nil_iff, hx]
    exact fun c hc => (List.mem_append.1 hc).elim (hu c) (hv c)

/-! ## Lines -/

/-- Every line with its newline. -/
def unlines (lines : List Bytes) : Bytes := lines.flatMap (· ++ [10])

/-- The lines of a text, with the empty one after the last newline. -/
theorem splitOn_unlines {lines : List Bytes} (h : ∀ l ∈ lines, 10 ∉ l) : (unlines lines).splitOn 10 = lines ++ [[]] :=
  splitOn_terminate h

theorem fileLines_unlines {lines : List Bytes} (h : ∀ l ∈ lines, 10 ∉ l) : fileLines (unlines lines) = lines.map (· ++ [10]) := by
  rw [fileLines, splitOn_unlines h]
  simp

theorem splitOnce_append {x : Bytes} {c : UInt8} (h : c ∉ x) (y : Bytes) : splitOnce (x ++ c :: y) c = .ok (x, y) := by
  rw [splitOnce, findIdx?_append_cons h]
  simp

/-! ## Positions -/

/-- The slice between two positions. -/
theorem slice_append (a b c : Bytes) {i j : Int} (hi : i = a.length) (hj : j = (a.length + b.length : Nat)) :
    slice (a ++ (b ++ c)) i j = b := by
  subst hi hj
  rw [slice, if_neg (by omega), Int.toNat_natCast, Int.toNat_natCast, drop_take_append]

theorem sliceFrom_append (a b : Bytes) {i : Int} (hi : i = a.length) : sliceFrom (a ++ b) i = b := by
  rw [sliceFrom, hi, Int.toNat_natCast, List.drop_left]

/-- The first place of a byte. -/
theorem find_append {x : Bytes} {b : UInt8} (h : b ∉ x) (y : Bytes) : find (x ++ b :: y) b = x.length := by
  rw [find, findIdx?_append_cons h]

/-- The last place of a byte. -/
theorem rfind_append {y : Bytes} {b : UInt8} (h : b ∉ y) (x : Bytes) : rfind (x ++ b :: y) b = x.length := by
  have hrev : (x ++ b :: y).reverse = y.reverse ++ b :: x.reverse := by simp
  rw [rfind, hrev, findIdx?_append_cons (by simpa using h)]
  simp only [List.length_append, List.length_cons, List.length_reverse]
  omega

end Psutil
