import Mathlib.Data.List.Basic

/-!
# UTF-8 with escapes

Code points are numbers, since a byte that is in no character is decoded to a surrogate: `0xDC00` and the byte. A text is read
by `decode_induction`: a character, or a byte that starts none. ASCII characters cut a text into parts that are decoded alone
(`decode_append`), and no two texts are decoded alike (`decode_injective`).
-/

namespace Lib.Utf8

/-- The character that a text begins with. -/
def decodeChar? (l : List UInt8) : Option Char := l.toByteArray.utf8DecodeChar? 0

/-- After `skip` bytes that are read already. -/
def decodeFrom : (skip : Nat) → List UInt8 → List Nat
  | _, [] => []
  | skip + 1, _ :: l => decodeFrom skip l
  | 0, b :: l => match decodeChar? (b :: l) with
    | some c => c.toNat :: decodeFrom (c.utf8Size - 1) l
    | none => (0xDC00 + b.toNat) :: decodeFrom 0 l

def decode (l : List UInt8) : List Nat := decodeFrom 0 l

/-- Without escapes. -/
def decodeStrictFrom : (skip : Nat) → List UInt8 → Option (List Nat)
  | _, [] => some []
  | skip + 1, _ :: l => decodeStrictFrom skip l
  | 0, b :: l => match decodeChar? (b :: l) with
    | some c => (decodeStrictFrom (c.utf8Size - 1) l).map (c.toNat :: ·)
    | none => none

def decodeStrict (l : List UInt8) : Option (List Nat) := decodeStrictFrom 0 l

def encodeOne (n : Nat) : List UInt8 :=
  if 0xDC80 ≤ n ∧ n ≤ 0xDCFF then [(n - 0xDC00).toUInt8] else String.utf8EncodeChar (Char.ofNat n)

def encode (t : List Nat) : List UInt8 := t.flatMap encodeOne

-- a letter with an accent, a byte that starts no character, half of a character
example : decode [0xC3, 0xA9, 0xFF, 0x41, 0xE2, 0x82] = [0xE9, 0xDCFF, 0x41, 0xDCE2, 0xDC82] := by decide

/-! ## One character -/

theorem decodeChar?_append (c : Char) (l : List UInt8) : decodeChar? (String.utf8EncodeChar c ++ l) = some c := by
  rw [decodeChar?, List.toByteArray_append]
  exact ByteArray.utf8DecodeChar?_utf8EncodeChar_append

theorem eq_append_of_decodeChar? {l : List UInt8} {c : Char} (h : decodeChar? l = some c) :
    ∃ rest, l = String.utf8EncodeChar c ++ rest := by
  obtain ⟨rest, hl⟩ := ByteArray.exists_of_utf8DecodeChar?_eq_some h
  refine ⟨rest.data.toList, ?_⟩
  have hdata := congrArg (fun b => b.data.toList) hl
  simpa using hdata

theorem encodeChar_of_lt {c : Char} (h : c.toNat < 128) : String.utf8EncodeChar c = [UInt8.ofNat c.toNat] := by
  have hc : c.val.toNat ≤ 127 := Nat.le_of_lt_succ h
  rw [String.utf8EncodeChar]
  simp only [if_pos hc]
  rfl

/-- The other characters have no ASCII byte. -/
theorem le_of_mem_encodeChar {c : Char} (h : 128 ≤ c.toNat) {b : UInt8} (hb : b ∈ String.utf8EncodeChar c) : 128 ≤ b.toNat := by
  have hc : ¬ c.val.toNat ≤ 127 := Nat.not_le_of_lt h
  have hhigh : ∀ n : Nat, 128 ≤ n % 256 → b = UInt8.ofNat n → 128 ≤ b.toNat := by
    rintro n hn rfl
    rwa [UInt8.toNat_ofNat']
  rw [String.utf8EncodeChar] at hb
  simp only [if_neg hc] at hb
  split_ifs at hb <;> simp only [List.mem_cons, List.not_mem_nil, or_false] at hb
  · rcases hb with hb | hb <;> exact hhigh _ (by omega) hb
  · rcases hb with hb | hb | hb <;> exact hhigh _ (by omega) hb
  · rcases hb with hb | hb | hb | hb <;> exact hhigh _ (by omega) hb

/-- An ASCII byte occurs in its own character only. -/
theorem ascii_of_mem {c : Char} {b : UInt8} (h : b ∈ String.utf8EncodeChar c) (hb : b.toNat < 128) :
    String.utf8EncodeChar c = [b] ∧ c.toNat = b.toNat := by
  have hc : c.toNat < 128 := Nat.lt_of_not_le fun hc => Nat.not_le_of_lt hb (le_of_mem_encodeChar hc h)
  rw [encodeChar_of_lt hc, List.mem_singleton] at h
  rw [encodeChar_of_lt hc, h, UInt8.toNat_ofNat', Nat.mod_eq_of_lt (by omega)]
  exact ⟨rfl, rfl⟩

/-- An ASCII byte is a character. -/
theorem exists_ascii {b : UInt8} (hb : b.toNat < 128) : ∃ c : Char, String.utf8EncodeChar c = [b] ∧ c.toNat = b.toNat := by
  have hvalid : b.toNat.isValidChar := Or.inl (by omega)
  have hnat : (Char.ofNat b.toNat).toNat = b.toNat := by
    rw [Char.ofNat, dif_pos hvalid]
    rfl
  refine ⟨Char.ofNat b.toNat, ?_, hnat⟩
  rw [encodeChar_of_lt (by omega), hnat, UInt8.ofNat_toNat]

/-! ## A text -/

/-- What is read already is gone. -/
theorem decodeFrom_eq : ∀ (skip : Nat) (l : List UInt8), decodeFrom skip l = decode (l.drop skip)
  | 0, _ => rfl
  | _ + 1, [] => rfl
  | skip + 1, _ :: l => decodeFrom_eq skip l

theorem decode_nil : decode [] = [] := rfl

theorem encodeChar_eq_cons (c : Char) : ∃ b l, String.utf8EncodeChar c = b :: l ∧ l.length = c.utf8Size - 1 := by
  cases h : String.utf8EncodeChar c with
  | nil => exact absurd h String.utf8EncodeChar_ne_nil
  | cons b l =>
    have hlen := String.length_utf8EncodeChar c
    rw [h, List.length_cons] at hlen
    exact ⟨b, l, rfl, by omega⟩

/-- A text that begins with a character. -/
theorem decode_char (c : Char) (l : List UInt8) : decode (String.utf8EncodeChar c ++ l) = c.toNat :: decode l := by
  obtain ⟨b, m, hc, hm⟩ := encodeChar_eq_cons c
  have hchar := decodeChar?_append c l
  rw [hc, List.cons_append] at hchar ⊢
  rw [decode, decodeFrom, hchar]
  dsimp only
  rw [decodeFrom_eq, List.drop_append, ← hm, List.drop_length, Nat.sub_self]
  rfl

/-- A text that begins with none. -/
theorem decode_escape {b : UInt8} {l : List UInt8} (h : decodeChar? (b :: l) = none) :
    decode (b :: l) = (0xDC00 + b.toNat) :: decode l := by
  rw [decode, decodeFrom, h]
  rfl

/-- A text is read one character or one escape at a time. -/
@[elab_as_elim] theorem decode_induction {motive : List UInt8 → Prop} (nil : motive [])
    (char : ∀ c l, motive l → motive (String.utf8EncodeChar c ++ l))
    (escape : ∀ b l, decodeChar? (b :: l) = none → motive l → motive (b :: l)) (l : List UInt8) : motive l := by
  induction hn : l.length using Nat.strongRecOn generalizing l with
  | _ n ih =>
    cases l with
    | nil => exact nil
    | cons b l =>
      cases h : decodeChar? (b :: l) with
      | none =>
        rw [List.length_cons] at hn
        exact escape b l h (ih l.length (by omega) l rfl)
      | some c =>
        obtain ⟨rest, hrest⟩ := eq_append_of_decodeChar? h
        have hpos := List.length_pos_of_ne_nil (String.utf8EncodeChar_ne_nil (c := c))
        rw [hrest, List.length_append] at hn
        rw [hrest]
        exact char c rest (ih rest.length (by omega) rest rfl)

/-- An ASCII byte after it does not make it a character. -/
theorem decodeChar?_append_of_none {l : List UInt8} (hne : l ≠ []) (h : decodeChar? l = none) {b : UInt8} (hb : b.toNat < 128)
    (rest : List UInt8) : decodeChar? (l ++ b :: rest) = none := by
  cases hsome : decodeChar? (l ++ b :: rest) with
  | none => rfl
  | some c =>
    obtain ⟨tail, htail⟩ := eq_append_of_decodeChar? hsome
    rcases List.append_eq_append_iff.1 htail with ⟨x, hx, hrest⟩ | ⟨x, hx, -⟩
    · cases x with
      | nil =>
        rw [List.append_nil] at hx
        rw [← List.append_nil l, ← hx, decodeChar?_append] at h
        cases h
      | cons y x =>
        -- the character goes on with `b`
        obtain rfl : b = y := (List.cons.inj hrest).1
        have hone := (ascii_of_mem (hx ▸ List.mem_append_right l List.mem_cons_self) hb).1
        have hlen := congrArg List.length (hx.symm.trans hone)
        have hpos := List.length_pos_of_ne_nil hne
        simp only [List.length_append, List.length_cons, List.length_nil] at hlen
        omega
    · rw [hx, decodeChar?_append] at h
      cases h

/-- An ASCII character cuts a text. -/
theorem decode_append {b : UInt8} (hb : b.toNat < 128) (l rest : List UInt8) :
    decode (l ++ b :: rest) = decode l ++ b.toNat :: decode rest := by
  induction l using decode_induction with
  | nil =>
    obtain ⟨c, hc, hcb⟩ := exists_ascii hb
    have hchar := decode_char c rest
    rw [hc, hcb] at hchar
    exact hchar
  | char c l ih => rw [List.append_assoc, decode_char, decode_char, ih, List.cons_append]
  | escape d l hnone ih =>
    have hnone' := decodeChar?_append_of_none (List.cons_ne_nil d l) hnone hb rest
    rw [List.cons_append] at hnone' ⊢
    rw [decode_escape hnone', decode_escape hnone, ih, List.cons_append]

/-- An ASCII character stands for its byte. -/
theorem mem_of_mem_decode {b : UInt8} (hb : b.toNat < 128) {l : List UInt8} (h : b.toNat ∈ decode l) : b ∈ l := by
  induction l using decode_induction with
  | nil => cases h
  | char c l ih =>
    rw [decode_char, List.mem_cons] at h
    rw [List.mem_append]
    rcases h with hc | h
    · left
      rw [encodeChar_of_lt (by omega), ← hc, UInt8.ofNat_toNat]
      exact List.mem_singleton_self b
    · exact Or.inr (ih h)
  | escape d l hnone ih =>
    rw [decode_escape hnone, List.mem_cons] at h
    rcases h with hd | h
    · omega
    · exact List.mem_cons_of_mem d (ih h)

/-! ## Back -/

theorem encode_char (c : Char) (t : List Nat) : encode (c.toNat :: t) = String.utf8EncodeChar c ++ encode t := by
  have hone : encodeOne c.toNat = String.utf8EncodeChar c := by
    have hvalid : c.toNat < 0xD800 ∨ 0xDFFF < c.toNat := c.valid.imp id And.left
    rw [encodeOne, if_neg (by omega), Char.ofNat_toNat]
  rw [encode, List.flatMap_cons, hone]
  rfl

/-- Only a byte above ASCII is escaped. -/
theorem encode_escape {b : UInt8} {l : List UInt8} (h : decodeChar? (b :: l) = none) (t : List Nat) :
    encode ((0xDC00 + b.toNat) :: t) = b :: encode t := by
  have hhigh : 128 ≤ b.toNat := by
    by_contra hlt
    obtain ⟨c, hc, -⟩ := exists_ascii (Nat.lt_of_not_le hlt)
    have hchar := decodeChar?_append c l
    rw [hc, List.singleton_append, h] at hchar
    cases hchar
  have hone : encodeOne (0xDC00 + b.toNat) = [b] := by
    have hlt := b.toNat_lt
    rw [encodeOne, if_pos (by omega), Nat.add_sub_cancel_left]
    exact congrArg (fun x => [x]) UInt8.ofNat_toNat
  rw [encode, List.flatMap_cons, hone]
  rfl

theorem encode_decode (l : List UInt8) : encode (decode l) = l := by
  induction l using decode_induction with
  | nil => rfl
  | char c l ih => rw [decode_char, encode_char, ih]
  | escape b l hnone ih => rw [decode_escape hnone, encode_escape hnone, ih]

theorem decode_injective : Function.Injective decode := Function.LeftInverse.injective encode_decode

/-! ## Characters -/

def encodeChars (l : List Char) : List UInt8 := l.flatMap String.utf8EncodeChar

theorem encodeChars_append (l l' : List Char) : encodeChars (l ++ l') = encodeChars l ++ encodeChars l' :=
  List.flatMap_append

theorem encodeChars_cons (c : Char) (l : List Char) : encodeChars (c :: l) = String.utf8EncodeChar c ++ encodeChars l := rfl

theorem decode_encodeChars (l : List Char) : decode (encodeChars l) = l.map Char.toNat := by
  induction l with
  | nil => rfl
  | cons c l ih => rw [encodeChars_cons, decode_char, ih, List.map_cons]

theorem length_le_encodeChars (l : List Char) : l.length ≤ (encodeChars l).length := by
  induction l with
  | nil => simp
  | cons c l ih =>
    have hpos := c.utf8Size_pos
    rw [encodeChars_cons, List.length_append, String.length_utf8EncodeChar, List.length_cons]
    omega

/-- ASCII characters are one byte each, -/
theorem length_encodeChars_of_ascii {l : List Char} (h : ∀ c ∈ l, c.toNat < 128) : (encodeChars l).length = l.length := by
  induction l with
  | nil => rfl
  | cons c l ih =>
    have ih := ih fun d hd => h d (List.mem_cons_of_mem c hd)
    rw [encodeChars_cons, encodeChar_of_lt (h c List.mem_cons_self)]
    simp [ih]

/-- and no others are. -/
theorem ascii_of_length_le {l : List Char} (h : (encodeChars l).length ≤ l.length) : ∀ c ∈ l, c.toNat < 128 := by
  induction l with
  | nil => simp
  | cons c l ih =>
    have hpos := c.utf8Size_pos
    have hle := length_le_encodeChars l
    rw [encodeChars_cons, List.length_append, String.length_utf8EncodeChar, List.length_cons] at h
    intro d hd
    rcases List.mem_cons.1 hd with rfl | hd
    · have hone : d.utf8Size = 1 := by omega
      have hval := Char.utf8Size_eq_one_iff.1 hone
      exact Nat.lt_succ_of_le hval
    · exact ih (by omega) d hd

/-! ## Without escapes -/

theorem decodeStrictFrom_eq : ∀ (skip : Nat) (l : List UInt8), decodeStrictFrom skip l = decodeStrict (l.drop skip)
  | 0, _ => rfl
  | _ + 1, [] => rfl
  | skip + 1, _ :: l => decodeStrictFrom_eq skip l

theorem decodeStrict_char (c : Char) (l : List UInt8) :
    decodeStrict (String.utf8EncodeChar c ++ l) = (decodeStrict l).map (c.toNat :: ·) := by
  obtain ⟨b, m, hc, hm⟩ := encodeChar_eq_cons c
  have hchar := decodeChar?_append c l
  rw [hc, List.cons_append] at hchar ⊢
  rw [decodeStrict, decodeStrictFrom, hchar]
  dsimp only
  rw [decodeStrictFrom_eq, List.drop_append, ← hm, List.drop_length, Nat.sub_self]
  rfl

/-- Where there is nothing to escape, both are the same. -/
theorem decode_of_decodeStrict {l : List UInt8} {t : List Nat} (h : decodeStrict l = some t) : decode l = t := by
  induction l using decode_induction generalizing t with
  | nil => exact Option.some.inj h
  | char c l ih =>
    rw [decodeStrict_char, Option.map_eq_some_iff] at h
    obtain ⟨u, hu, rfl⟩ := h
    rw [decode_char, ih hu]
  | escape b l hnone ih =>
    rw [decodeStrict, decodeStrictFrom, hnone] at h
    cases h

end Lib.Utf8
