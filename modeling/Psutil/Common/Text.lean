import Psutil.Common.Environ
import Psutil.Lib.Utf8
import Psutil.Linux.Bytes

/-!
# Text files

| here | there |
| --- | --- |
| `FsEncoding.decode` | `ENCODING` with `ENCODING_ERRS`, the latter `surrogateescape` (`_common.py:73`) |
| `universalNewlines` | what `open()` does to newlines unless it is told otherwise |
| `FsEncoding.readText`, `lines` | a file that `open_text` (`_common.py:574`) opened, read as a whole or by lines |
| `Text.split`, `Text.int` | `str.split()` and `int()` of a `str` |

A text is its code points. An encoding is any that leaves ASCII alone and decodes no two texts alike; `FsEncoding.utf8` is the
usual one.
-/

namespace Psutil.Common

open Lib

/-- A `str`; the code points may be surrogates. -/
abbrev Text := List Nat

/-- A literal. -/
def text (s : String) : Text := s.toList.map Char.toNat

/-- A file system encoding. -/
structure FsEncoding where
  decode : Bytes → Text
  nil : decode [] = []
  /-- An ASCII character cuts a text. -/
  append : ∀ {b : UInt8}, b.toNat < 128 → ∀ x y, decode (x ++ b :: y) = decode x ++ b.toNat :: decode y
  /-- It stands for its byte only. -/
  mem : ∀ {b : UInt8}, b.toNat < 128 → ∀ {x}, b.toNat ∈ decode x → b ∈ x
  injective : Function.Injective decode

def FsEncoding.utf8 : FsEncoding where
  decode := Utf8.decode
  nil := Utf8.decode_nil
  append := Utf8.decode_append
  mem := Utf8.mem_of_mem_decode
  injective := Utf8.decode_injective

/-- The text, after a `\r` that is written already or not. -/
def newlinesFrom : (afterCr : Bool) → Text → Text
  | _, [] => []
  | afterCr, c :: t =>
    if c = 13 then 10 :: newlinesFrom true t
    else if c = 10 ∧ afterCr then newlinesFrom false t
    else c :: newlinesFrom false t

/-- `\r\n` and `\r` become `\n`. -/
def universalNewlines (t : Text) : Text := newlinesFrom false t

/-- `f.read()`. -/
def FsEncoding.readText (C : FsEncoding) (data : Bytes) : Text := universalNewlines (C.decode data)

/-- `list(f)`, of a file with that text: every line with its newline, the last one perhaps without. -/
def lines (t : Text) : List Text :=
  let pieces := t.splitOn 10
  pieces.dropLast.map (· ++ [10]) ++ (if pieces.getLastD [] = [] then [] else [pieces.getLastD []])

example : universalNewlines (text "a\r\nb\rc\n\r\r") = text "a\nb\nc\n\n\n" := by decide

example : lines (text "a\n\nb") = [text "a\n", text "\n", text "b"] := by decide

/-! ## Decoding -/

namespace FsEncoding

variable (C : FsEncoding)

/-- ASCII bytes are their characters. -/
theorem decode_ascii {w : Bytes} (h : ∀ b ∈ w, b.toNat < 128) (rest : Bytes) :
    C.decode (w ++ rest) = w.map UInt8.toNat ++ C.decode rest := by
  induction w with
  | nil => rfl
  | cons b w ih =>
    have hcut := C.append (h b List.mem_cons_self) [] (w ++ rest)
    rw [C.nil] at hcut
    rw [List.cons_append, ← List.nil_append (b :: (w ++ rest)), hcut, ih fun d hd => h d (List.mem_cons_of_mem b hd)]
    rfl

theorem mem_decode {b : UInt8} (hb : b.toNat < 128) {x : Bytes} : b.toNat ∈ C.decode x ↔ b ∈ x := by
  constructor
  · exact C.mem hb
  · intro hx
    obtain ⟨y, z, rfl⟩ := List.append_of_mem hx
    rw [C.append hb]
    exact List.mem_append_right _ List.mem_cons_self

theorem decode_eq_nil {x : Bytes} : C.decode x = [] ↔ x = [] := by
  rw [← C.nil, C.injective.eq_iff]

/-- Strings with their NULs. -/
theorem decode_terminate (l : List Bytes) : C.decode (terminate 0 l) = terminate 0 (l.map C.decode) :=
  map_terminate C.nil (C.append (by decide)) l

end FsEncoding

/-! ## Newlines -/

theorem newlinesFrom_append {c : Nat} (hcr : c ≠ 13) (hlf : c ≠ 10) (u : Text) :
    ∀ (afterCr : Bool) (t : Text), newlinesFrom afterCr (t ++ c :: u) = newlinesFrom afterCr t ++ c :: newlinesFrom false u
  | afterCr, [] => by
    have hc : newlinesFrom afterCr (c :: u) = c :: newlinesFrom false u := by
      rw [newlinesFrom, if_neg hcr, if_neg fun h => hlf h.1]
    exact hc
  | afterCr, d :: t => by
    rw [List.cons_append, newlinesFrom, newlinesFrom, newlinesFrom_append hcr hlf u true t, newlinesFrom_append hcr hlf u false t]
    split_ifs <;> rfl

/-- Any other character cuts a text. -/
theorem universalNewlines_append {c : Nat} (hcr : c ≠ 13) (hlf : c ≠ 10) (t u : Text) :
    universalNewlines (t ++ c :: u) = universalNewlines t ++ c :: universalNewlines u :=
  newlinesFrom_append hcr hlf u false t

theorem newlinesFrom_eq_nil {t : Text} : newlinesFrom false t = [] ↔ t = [] := by
  cases t with
  | nil => simp [newlinesFrom]
  | cons c t =>
    rw [newlinesFrom]
    split_ifs <;> simp_all

/-- Only newlines are new. -/
theorem mem_of_mem_newlinesFrom {c : Nat} (hlf : c ≠ 10) : ∀ {afterCr : Bool} {t : Text}, c ∈ newlinesFrom afterCr t → c ∈ t
  | _, [], h => h
  | afterCr, d :: t, h => by
    rw [newlinesFrom] at h
    split_ifs at h
    · exact List.mem_cons_of_mem d (mem_of_mem_newlinesFrom hlf ((List.mem_cons.1 h).resolve_left hlf))
    · exact List.mem_cons_of_mem d (mem_of_mem_newlinesFrom hlf h)
    · exact (List.mem_cons.1 h).elim (fun hd => hd ▸ List.mem_cons_self) fun h => List.mem_cons_of_mem d (mem_of_mem_newlinesFrom hlf h)

theorem cr_notMem_newlinesFrom : ∀ (afterCr : Bool) (t : Text), 13 ∉ newlinesFrom afterCr t
  | _, [] => List.not_mem_nil
  | afterCr, c :: t => by
    have htrue := cr_notMem_newlinesFrom true t
    have hfalse := cr_notMem_newlinesFrom false t
    rw [newlinesFrom]
    split_ifs with hcr
    · simpa using htrue
    · exact hfalse
    · simpa [Ne.symm hcr] using hfalse

theorem newline_mem_newlinesFrom : ∀ {afterCr : Bool} {t : Text}, 13 ∈ t → 10 ∈ newlinesFrom afterCr t
  | afterCr, c :: t, h => by
    rw [newlinesFrom]
    split_ifs with hcr hlf
    · exact List.mem_cons_self
    · exact newline_mem_newlinesFrom ((List.mem_cons.1 h).resolve_left (Ne.symm hcr))
    · exact List.mem_cons_of_mem c (newline_mem_newlinesFrom ((List.mem_cons.1 h).resolve_left (Ne.symm hcr)))

theorem newlinesFrom_of_notMem : ∀ {t : Text}, 13 ∉ t → newlinesFrom false t = t
  | [], _ => rfl
  | c :: t, h => by
    rw [List.mem_cons, not_or] at h
    rw [newlinesFrom, if_neg (Ne.symm h.1), if_neg (by simp), newlinesFrom_of_notMem h.2]

/-- Exactly the texts without a `\r` stay what they are. -/
theorem universalNewlines_eq_self {t : Text} : universalNewlines t = t ↔ 13 ∉ t := by
  constructor
  · intro h
    rw [← h]
    exact cr_notMem_newlinesFrom false t
  · exact newlinesFrom_of_notMem

/-- What has no `\n` begins a text that is read only if it begins the text that was written. -/
theorem prefix_universalNewlines_iff {u : Text} (hlf : 10 ∉ u) (t : Text) : u <+: universalNewlines t ↔ 13 ∉ u ∧ u <+: t := by
  induction u generalizing t with
  | nil => simp
  | cons c u ih =>
    rw [List.mem_cons, not_or] at hlf
    cases t with
    | nil => simp [universalNewlines, newlinesFrom]
    | cons d t =>
      have ih := ih hlf.2 t
      rw [universalNewlines] at ih ⊢
      rw [newlinesFrom, List.mem_cons, not_or]
      by_cases hcr : d = 13
      · rw [if_pos hcr]
        refine iff_of_false (fun h => hlf.1 (List.cons_prefix_cons.1 h).1.symm) fun h => h.1.1 ?_
        rw [(List.cons_prefix_cons.1 h.2).1, hcr]
      · rw [if_neg hcr, if_neg (by simp), List.cons_prefix_cons, List.cons_prefix_cons, ih]
        constructor
        · rintro ⟨rfl, hu, hpre⟩
          exact ⟨⟨Ne.symm hcr, hu⟩, rfl, hpre⟩
        · rintro ⟨⟨-, hu⟩, rfl, hpre⟩
          exact ⟨rfl, hu, hpre⟩

theorem universalNewlines_eq_iff {u : Text} (hlf : 10 ∉ u) (t : Text) : universalNewlines t = u ↔ 13 ∉ u ∧ t = u := by
  constructor
  · intro h
    have hcr : 13 ∉ t := fun hmem => by
      have hlf' : 10 ∈ universalNewlines t := newline_mem_newlinesFrom hmem
      exact hlf (h ▸ hlf')
    rw [universalNewlines_eq_self.2 hcr] at h
    exact ⟨h ▸ hcr, h⟩
  · rintro ⟨hcr, rfl⟩
    exact universalNewlines_eq_self.2 hcr

/-- What is before a character that is no newline. -/
theorem takeWhile_universalNewlines {c : Nat} (hcr : c ≠ 13) (hlf : c ≠ 10) (t : Text) :
    (universalNewlines t).takeWhile (· ≠ c) = universalNewlines (t.takeWhile (· ≠ c)) := by
  have hbefore : ∀ {x : Text}, c ∉ x → x.takeWhile (· ≠ c) = x := fun hx =>
    List.takeWhile_eq_self_iff.2 fun d hd => decide_eq_true fun hdc => hx (hdc ▸ hd)
  by_cases ht : c ∈ t
  · obtain ⟨x, y, rfl, hx⟩ := List.eq_append_cons_of_mem ht
    have hux : c ∉ universalNewlines x := fun h => hx (mem_of_mem_newlinesFrom hlf h)
    rw [universalNewlines_append hcr hlf]
    exact (congrArg Prod.fst (cutAt_append hux _)).trans (congrArg universalNewlines (congrArg Prod.fst (cutAt_append hx y))).symm
  · have hut : c ∉ universalNewlines t := fun h => ht (mem_of_mem_newlinesFrom hlf h)
    rw [hbefore ht, hbefore hut]

/-- A text that is read as it was written. -/
theorem FsEncoding.readText_eq_decode (C : FsEncoding) {x : Bytes} : C.readText x = C.decode x ↔ 13 ∉ x := by
  have hcr : (13 : Nat) ∈ C.decode x ↔ (13 : UInt8) ∈ x := C.mem_decode (b := 13) (by decide)
  rw [readText, universalNewlines_eq_self, hcr]

/-- What is read has no `\r`. -/
theorem FsEncoding.cr_notMem_of_readText (C : FsEncoding) {x y : Bytes} (h : C.readText x = C.decode y) : 13 ∉ y := by
  intro hy
  have hmem := (C.mem_decode (b := 13) (by decide)).2 hy
  rw [← h] at hmem
  exact cr_notMem_newlinesFrom false _ hmem

theorem FsEncoding.readText_eq_nil (C : FsEncoding) {x : Bytes} : C.readText x = [] ↔ x = [] := by
  rw [readText, universalNewlines, newlinesFrom_eq_nil, C.decode_eq_nil]

theorem FsEncoding.mem_of_mem_readText (C : FsEncoding) {b : UInt8} (hb : b.toNat < 128) (hlf : b.toNat ≠ 10) {x : Bytes}
    (h : b.toNat ∈ C.readText x) : b ∈ x :=
  C.mem hb (mem_of_mem_newlinesFrom hlf h)

/-- Every other ASCII character cuts a text. -/
theorem FsEncoding.readText_append (C : FsEncoding) {b : UInt8} (hb : b.toNat < 128) (hcr : b.toNat ≠ 13) (hlf : b.toNat ≠ 10)
    (x y : Bytes) : C.readText (x ++ b :: y) = C.readText x ++ b.toNat :: C.readText y := by
  rw [readText, C.append hb, universalNewlines_append hcr hlf]
  rfl

/-- Strings with their NULs. -/
theorem FsEncoding.readText_terminate (C : FsEncoding) (l : List Bytes) :
    C.readText (terminate 0 l) = terminate 0 (l.map C.readText) :=
  map_terminate (by rw [C.readText_eq_nil]) (C.readText_append (b := 0) (by decide) (by decide) (by decide)) l

/-! ## Lines -/

/-- The lines that a line becomes; after a `\r` there need not be one more. -/
def splitCr : (afterCr : Bool) → Text → List Text
  | true, [] => []
  | false, [] => [[]]
  | _, c :: t => if c = 13 then [] :: splitCr true t else (splitCr false t).modifyHead (c :: ·)

def crLines (t : Text) : List Text := splitCr false t

example : [crLines (text "a\r\rb"), crLines (text "a\r")] = [[text "a", [], text "b"], [text "a"]] := by decide

theorem exists_cons_splitCr : ∀ t : Text, ∃ x xs, splitCr false t = x :: xs
  | [] => ⟨[], [], rfl⟩
  | c :: t => by
    obtain ⟨x, xs, h⟩ := exists_cons_splitCr t
    rw [splitCr]
    split_ifs
    · exact ⟨[], _, rfl⟩
    · exact ⟨c :: x, xs, by rw [h]; rfl⟩

/-- A line is translated on its own. -/
theorem newlinesFrom_line (rest : Text) : ∀ (afterCr : Bool) {t : Text}, 10 ∉ t →
    newlinesFrom afterCr (t ++ 10 :: rest) = terminate 10 (splitCr afterCr t) ++ newlinesFrom false rest
  | true, [], _ => by simp [newlinesFrom, splitCr, terminate]
  | false, [], _ => by simp [newlinesFrom, splitCr, terminate]
  | afterCr, c :: t, h => by
    rw [List.mem_cons, not_or] at h
    rw [List.cons_append, newlinesFrom, newlinesFrom_line rest true h.2, newlinesFrom_line rest false h.2,
      if_neg fun hc : c = 10 ∧ afterCr = true => h.1 hc.1.symm]
    by_cases hc : c = 13
    · have hsplit : splitCr afterCr (c :: t) = [] :: splitCr true t := by cases afterCr <;> simp [splitCr, hc]
      rw [if_pos hc, hsplit, terminate_cons]
      rfl
    · have hsplit : splitCr afterCr (c :: t) = (splitCr false t).modifyHead (c :: ·) := by cases afterCr <;> simp [splitCr, hc]
      obtain ⟨x, xs, hx⟩ := exists_cons_splitCr t
      rw [if_neg hc, hsplit, hx, List.modifyHead_cons, terminate_cons, terminate_cons]
      rfl

/-- What is before the first `\r` stays at the start of the first line. -/
theorem crLines_append : ∀ {x : Text}, 13 ∉ x → ∀ t, crLines (x ++ t) = (crLines t).modifyHead (x ++ ·)
  | [], _, t => by
    obtain ⟨y, ys, hy⟩ := exists_cons_splitCr t
    rw [List.nil_append, crLines, hy]
    rfl
  | c :: x, h, t => by
    rw [List.mem_cons, not_or] at h
    have ih := crLines_append h.2 t
    have hsplit : crLines (c :: x ++ t) = (crLines (x ++ t)).modifyHead (c :: ·) := if_neg (Ne.symm h.1)
    obtain ⟨y, ys, hy⟩ := exists_cons_splitCr t
    rw [hsplit, ih, crLines, hy]
    rfl

theorem crLines_of_notMem {t : Text} (h : 13 ∉ t) : crLines t = [t] := by
  have happend := crLines_append h []
  rwa [List.append_nil, show crLines [] = [[]] from rfl, List.modifyHead_cons, List.append_nil] at happend

theorem mem_of_mem_splitCr {c : Nat} : ∀ {afterCr : Bool} {t x : Text}, x ∈ splitCr afterCr t → c ∈ x → c ∈ t
  | false, [], x, hx, hc => by
    obtain rfl := List.mem_singleton.1 hx
    cases hc
  | afterCr, d :: t, x, hx, hc => by
    have hsplit : splitCr afterCr (d :: t) = if d = 13 then [] :: splitCr true t else (splitCr false t).modifyHead (d :: ·) := by
      cases afterCr <;> rfl
    rw [hsplit] at hx
    obtain ⟨y, ys, hy⟩ := exists_cons_splitCr t
    split_ifs at hx
    · rcases List.mem_cons.1 hx with rfl | hx
      · cases hc
      · exact List.mem_cons_of_mem d (mem_of_mem_splitCr hx hc)
    · rw [hy, List.modifyHead_cons] at hx
      rcases List.mem_cons.1 hx with rfl | hx
      · have hmem : y ∈ splitCr false t := hy ▸ List.mem_cons_self
        rcases List.mem_cons.1 hc with rfl | hc
        · exact List.mem_cons_self
        · exact List.mem_cons_of_mem d (mem_of_mem_splitCr hmem hc)
      · have hmem : x ∈ splitCr false t := hy ▸ List.mem_cons_of_mem y hx
        exact List.mem_cons_of_mem d (mem_of_mem_splitCr hmem hc)

/-- The lines of a file. -/
theorem universalNewlines_terminate : ∀ {l : List Text}, (∀ t ∈ l, 10 ∉ t) →
    universalNewlines (terminate 10 l) = terminate 10 (l.flatMap crLines)
  | [], _ => rfl
  | t :: l, h => by
    rw [terminate_cons, universalNewlines, newlinesFrom_line _ false (h t List.mem_cons_self), List.flatMap_cons, terminate_append]
    exact congrArg _ (universalNewlines_terminate fun u hu => h u (List.mem_cons_of_mem t hu))

theorem lines_terminate {l : List Text} (h : ∀ t ∈ l, 10 ∉ t) : lines (terminate 10 l) = l.map (· ++ [10]) := by
  rw [lines, splitOn_terminate h]
  simp

/-- A file of lines, as it is iterated over. -/
theorem FsEncoding.lines_readText (C : FsEncoding) {l : List Bytes} (h : ∀ line ∈ l, 10 ∉ line) :
    lines (C.readText (terminate 10 l)) = (l.flatMap fun line => crLines (C.decode line)).map (· ++ [10]) := by
  have hlf : ∀ t ∈ l.map C.decode, 10 ∉ t := by
    intro t ht hc
    obtain ⟨line, hline, rfl⟩ := List.mem_map.1 ht
    exact h line hline (C.mem (b := 10) (by decide) hc)
  have hdecode : C.decode (terminate 10 l) = terminate 10 (l.map C.decode) := map_terminate C.nil (C.append (b := 10) (by decide)) l
  rw [readText, hdecode, universalNewlines_terminate hlf, lines_terminate, List.flatMap_map]
  intro t ht hc
  obtain ⟨u, hu, ht⟩ := List.mem_flatMap.1 ht
  exact hlf u hu (mem_of_mem_splitCr ht hc)

/-! ## Words and numbers -/

/-- `c.isspace()`, as `split()` and `int()` have it. -/
def Text.isSpace (c : Nat) : Bool :=
  (9 ≤ c && c ≤ 13) || (28 ≤ c && c ≤ 32) || c = 0x85 || c = 0xA0 || c = 0x1680 || (0x2000 ≤ c && c ≤ 0x200A) ||
    c = 0x2028 || c = 0x2029 || c = 0x202F || c = 0x205F || c = 0x3000

/-- `data.split()`. -/
def Text.split (data : Text) : List Text := wordsBy Text.isSpace data

/-- What the interpreter knows of the characters above ASCII: the digits of other scripts, and how a text is printed. -/
structure UnicodeData where
  decimal : Nat → Option Nat
  decimal_ascii : ∀ c < 128, decimal c = if 48 ≤ c ∧ c ≤ 57 then some (c - 48) else none
  repr : Text → String

/-- Digits, with single underscores between them. -/
def Text.numeral (U : UnicodeData) : (afterDigit : Bool) → (n : Nat) → Text → Option Nat
  | afterDigit, n, [] => if afterDigit then some n else none
  | afterDigit, n, c :: t => match U.decimal c with
    | some d => Text.numeral U true (10 * n + d) t
    | none => if afterDigit && c = 95 then Text.numeral U false n t else none

/-- `int(data)`. -/
def Text.int (U : UnicodeData) (data : Text) : Except Exc Int :=
  let strip := ((data.dropWhile isSpace).reverse.dropWhile isSpace).reverse
  let n := match strip with
    | [] => none
    | c :: rest =>
      if c = 45 then (Text.numeral U false 0 rest).map fun n => -(n : Int)
      else if c = 43 then (Text.numeral U false 0 rest).map Int.ofNat
      else (Text.numeral U false 0 (c :: rest)).map Int.ofNat
  match n with
  | some n => .ok n
  | none => .error (.valueError ("invalid literal for int() with base 10: " ++ U.repr data))

/-- The number that decimal digits stand for. -/
def ofDigits (digits : List Nat) : Nat := digits.foldl (fun n d => 10 * n + d) 0

theorem numeral_digits (U : UnicodeData) : ∀ {digits : List Nat} (n : Nat) (afterDigit : Bool), (∀ d ∈ digits, d < 10) →
    (digits ≠ [] ∨ afterDigit = true) →
    Text.numeral U afterDigit n (digits.map (48 + ·)) = some (digits.foldl (fun n d => 10 * n + d) n)
  | [], n, afterDigit, _, hne => by simpa [Text.numeral] using hne
  | d :: digits, n, afterDigit, h, _ => by
    have hd := h d List.mem_cons_self
    have hdecimal : U.decimal (48 + d) = some d := by
      rw [U.decimal_ascii _ (by omega), if_pos (by omega), Nat.add_sub_cancel_left]
    rw [List.map_cons, Text.numeral, hdecimal]
    exact numeral_digits U (10 * n + d) true (fun e he => h e (List.mem_cons_of_mem d he)) (Or.inr rfl)

theorem int_digits (U : UnicodeData) {digits : List Nat} (hne : digits ≠ []) (h : ∀ d ∈ digits, d < 10) :
    Text.int U (digits.map (48 + ·)) = .ok (ofDigits digits) := by
  have hspace : ∀ c ∈ digits.map (48 + ·), Text.isSpace c = false := by
    intro c hc
    obtain ⟨d, hd, rfl⟩ := List.mem_map.1 hc
    have hlt := h d hd
    simp [Text.isSpace]
    omega
  have hstrip : ((((digits.map (48 + ·)).dropWhile Text.isSpace).reverse).dropWhile Text.isSpace).reverse = digits.map (48 + ·) := by
    have hdrop : ∀ {t : Text}, (∀ c ∈ t, Text.isSpace c = false) → t.dropWhile Text.isSpace = t := by
      intro t ht
      cases t with
      | nil => rfl
      | cons c t => rw [List.dropWhile_cons_of_neg (by simp [ht c List.mem_cons_self])]
    rw [hdrop hspace, hdrop fun c hc => hspace c (List.mem_reverse.1 hc), List.reverse_reverse]
  obtain ⟨d, rest, rfl⟩ := List.exists_cons_of_ne_nil hne
  have hnumeral := numeral_digits U 0 false h (Or.inl hne)
  unfold Text.int
  simp only [hstrip]
  rw [List.map_cons] at hnumeral ⊢
  simp only [show ¬ 48 + d = 45 by omega, show ¬ 48 + d = 43 by omega, if_false, hnumeral]
  rfl

/-! ## Blocks -/

/-- `\0` and `=`, as bytes. -/
def byteDelims : Delims UInt8 := ⟨0, byte '=', by decide⟩

/-- `\0` and `=`, as characters. -/
def textDelims : Delims Nat := ⟨0, 61, by decide⟩

end Psutil.Common
