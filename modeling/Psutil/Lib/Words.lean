import Mathlib.Data.Nat.Digits.Defs

/-!
# Numbers as bytes

A number of `size` bytes as it lies in memory, with its lowest or its highest byte first: `wordBytes` writes it and `wordOf` reads
it. `VectorAt` says that some bytes begin with a vector of such numbers.
-/

namespace Lib

def wordOf (bigEndian : Bool) (bytes : List UInt8) : Nat :=
  Nat.ofDigits 256 ((if bigEndian then bytes.reverse else bytes).map UInt8.toNat)

/-- The number at an offset. -/
def wordAt (bigEndian : Bool) (size : Nat) (data : List UInt8) (offset : Nat) : Nat := wordOf bigEndian ((data.drop offset).take size)

section

variable {bigEndian : Bool} {a b : List UInt8} {size offset : Nat}

theorem wordAt_append_left (h : offset + size ≤ a.length) : wordAt bigEndian size (a ++ b) offset = wordAt bigEndian size a offset := by
  have hle : size ≤ (a.drop offset).length := by
    rw [List.length_drop]
    omega
  rw [wordAt, wordAt, List.drop_append_of_le_length (by omega), List.take_append_of_le_length hle]

theorem wordAt_append_right : wordAt bigEndian size (a ++ b) (a.length + offset) = wordAt bigEndian size b offset := by
  rw [wordAt, wordAt, List.drop_append, List.drop_of_length_le (Nat.le_add_right _ _), List.nil_append, Nat.add_sub_cancel_left]

end

/-- The low bytes of a number, the lowest first. -/
def leWord : Nat → Nat → List UInt8
  | 0, _ => []
  | size + 1, n => (n % 256).toUInt8 :: leWord size (n / 256)

/-- A number as the host stores it. -/
def wordBytes (bigEndian : Bool) (size n : Nat) : List UInt8 := if bigEndian then (leWord size n).reverse else leWord size n

theorem ofDigits_leWord {size n : Nat} (h : n < 256 ^ size) : Nat.ofDigits 256 ((leWord size n).map UInt8.toNat) = n := by
  induction size generalizing n with
  | zero =>
    rw [Nat.pow_zero] at h
    simp [leWord, Nat.lt_one_iff.1 h]
  | succ size ih =>
    have hdiv : n / 256 < 256 ^ size := Nat.div_lt_of_lt_mul (by rwa [Nat.pow_succ, Nat.mul_comm] at h)
    have hmod : (n % 256).toUInt8.toNat = n % 256 := by simp
    rw [leWord, List.map_cons, Nat.ofDigits_cons, ih hdiv, hmod]
    exact Nat.mod_add_div n 256

@[simp] theorem length_leWord (size n : Nat) : (leWord size n).length = size := by
  induction size generalizing n with
  | zero => rfl
  | succ size ih => rw [leWord, List.length_cons, ih]

@[simp] theorem length_wordBytes (bigEndian : Bool) (size n : Nat) : (wordBytes bigEndian size n).length = size := by
  rw [wordBytes]
  split_ifs <;> simp

theorem wordOf_wordBytes {size n : Nat} (h : n < 256 ^ size) (bigEndian : Bool) : wordOf bigEndian (wordBytes bigEndian size n) = n := by
  cases bigEndian with
  | false => exact ofDigits_leWord h
  | true => simpa [wordOf, wordBytes] using ofDigits_leWord h

theorem all_zero_wordBytes {size n : Nat} (h : n < 256 ^ size) (bigEndian : Bool) :
    (wordBytes bigEndian size n).all (· = 0) = true ↔ n = 0 := by
  constructor
  · intro hall
    have hzeros : wordBytes bigEndian size n = List.replicate size 0 := by
      refine List.eq_replicate_iff.2 ⟨length_wordBytes .., fun b hb => ?_⟩
      simpa using List.all_eq_true.1 hall b hb
    rw [← wordOf_wordBytes h bigEndian, hzeros, wordOf, List.reverse_replicate, ite_self, List.map_replicate]
    exact Nat.ofDigits_replicate_zero
  · rintro rfl
    have hzero : leWord size 0 = List.replicate size 0 := by
      clear h
      induction size with
      | zero => rfl
      | succ size ih => rw [leWord, List.replicate_succ, ← ih]; rfl
    rw [wordBytes, hzero, List.reverse_replicate, ite_self]
    simp

/-- The numbers of a vector at the beginning of some bytes. -/
structure VectorAt (bigEndian : Bool) (size : Nat) (data : List UInt8) (words : List Nat) : Prop where
  bytes : data.take (size * words.length) = words.flatMap (wordBytes bigEndian size)
  lt : ∀ w ∈ words, w < 256 ^ size

namespace VectorAt

variable {bigEndian : Bool} {size : Nat} {data : List UInt8} {words : List Nat}

theorem length_flatMap (words : List Nat) : (words.flatMap (wordBytes bigEndian size)).length = size * words.length := by
  induction words with
  | nil => rfl
  | cons w words ih => rw [List.flatMap_cons, List.length_append, ih, length_wordBytes, List.length_cons, Nat.mul_succ, Nat.add_comm]

theorem le_length (h : VectorAt bigEndian size data words) : size * words.length ≤ data.length := by
  have hlen := congrArg List.length h.bytes
  rw [List.length_take, length_flatMap] at hlen
  omega

theorem tail {w : Nat} (h : VectorAt bigEndian size data (w :: words)) :
    data.take size = wordBytes bigEndian size w ∧ VectorAt bigEndian size (data.drop size) words := by
  have hbytes := h.bytes
  rw [List.length_cons, Nat.mul_succ, Nat.add_comm, List.take_add, List.flatMap_cons] at hbytes
  have hle := h.le_length
  rw [List.length_cons, Nat.mul_succ] at hle
  obtain ⟨hhead, htail⟩ := List.append_inj hbytes (by rw [List.length_take, length_wordBytes]; omega)
  exact ⟨hhead, htail, fun w' hw' => h.lt w' (List.mem_cons_of_mem w hw')⟩

/-- The `i`-th number. -/
theorem chunk (h : VectorAt bigEndian size data words) {i : Nat} {w : Nat} (hw : words[i]? = some w) :
    (data.drop (size * i)).take size = wordBytes bigEndian size w := by
  induction words generalizing data i with
  | nil => cases hw
  | cons w' words ih =>
    obtain ⟨hhead, htail⟩ := h.tail
    cases i with
    | zero =>
      cases hw
      exact hhead
    | succ i =>
      rw [Nat.mul_succ, Nat.add_comm, ← List.drop_drop]
      exact ih htail hw

theorem reads (h : VectorAt bigEndian size data words) :
    (List.range words.length).map (fun i => wordAt bigEndian size (data.take (size * words.length)) (size * i)) = words := by
  apply List.ext_getElem?
  intro i
  rw [List.getElem?_map]
  cases hw : words[i]? with
  | none => rw [List.getElem?_eq_none (by simpa using List.getElem?_eq_none_iff.1 hw), Option.map_none]
  | some w =>
    have hi := (List.getElem?_eq_some_iff.1 hw).1
    have hle : size ≤ size * words.length - size * i := by
      rw [← Nat.mul_sub]
      exact Nat.le_mul_of_pos_right size (Nat.sub_pos_of_lt hi)
    rw [List.getElem?_range hi, Option.map_some, wordAt, List.drop_take, List.take_take, Nat.min_eq_left hle, h.chunk hw,
      wordOf_wordBytes (h.lt w (List.mem_of_getElem? hw))]

end VectorAt

end Lib
