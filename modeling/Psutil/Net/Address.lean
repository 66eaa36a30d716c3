import Mathlib.Data.Nat.Digits.Lemmas
import Psutil.Lib.Cut
import Psutil.Net.ProcNet

/-!
# Addresses as `/proc/net/tcp` and `/proc/net/udp` print them

| here | there |
| --- | --- |
| `hex` | `%08X` and `%04X` of the kernel |
| `Word.value` | one `__be32` of an address, read as an integer of the host |
| `IpAddress.printed` | the column `local_address` or `rem_address` |
| `decodeAddress` | `decode_address` (`_pslinux.py:789`), of `ProcNet` |

`encode` prints bytes one after the other. A word is printed as the bytes that the host takes for it, the last one first on a
little-endian machine (`hex_ofDigits`). `decodeAddress_printed`: the address and the port come back.
-/

namespace Psutil

open Lib Bytes

/-! ## Hexadecimal numbers -/

def hexChar (d : Nat) : UInt8 := (if d < 10 then 48 + d else 55 + d).toUInt8

/-- `%0*X`, of a number that has no more digits than that. -/
def hex (width n : Nat) : Bytes := (Nat.digitsAppend 16 width n).reverse.map hexChar

/-- The two digits of every byte. -/
def encode (bytes : Bytes) : Bytes := bytes.flatMap fun b => [hexChar (b.toNat / 16), hexChar (b.toNat % 16)]

theorem hexDigit_hexChar {d : Nat} (h : d < 16) : hexDigit (hexChar d) = some d := by
  have hall : ∀ d : Fin 16, hexDigit (hexChar d) = some (d : Nat) := by decide
  exact hall ⟨d, h⟩

theorem hexChar_ne_colon {d : Nat} (h : d < 16) : hexChar d ≠ byte ':' := by
  have hall : ∀ d : Fin 16, hexChar d ≠ byte ':' := by decide
  exact hall ⟨d, h⟩

theorem mapM_hexDigit : ∀ {ds : List Nat}, (∀ d ∈ ds, d < 16) → (ds.map hexChar).mapM hexDigit = some ds
  | [], _ => rfl
  | d :: ds, h => by
    rw [List.map_cons, List.mapM_cons, hexDigit_hexChar (h d List.mem_cons_self),
      mapM_hexDigit fun e he => h e (List.mem_cons_of_mem d he)]
    rfl

theorem length_digitsAppend {width n : Nat} (h : n < 16 ^ width) : (Nat.digitsAppend 16 width n).length = width :=
  Nat.length_digitsAppend (by decide) width h

/-- A number is read back. -/
theorem hexInt_hex {width n : Nat} (hpos : 0 < width) (h : n < 16 ^ width) : hexInt (hex width n) = .ok n := by
  have hdigits : ∀ d ∈ (Nat.digitsAppend 16 width n).reverse, d < 16 :=
    fun d hd => Nat.lt_of_mem_digitsAppend (by decide) width d (List.mem_reverse.1 hd)
  have hvalue : (Nat.digitsAppend 16 width n).reverse.foldl (fun n d => 16 * n + d) 0 = n := by
    have hfold : ∀ l : List Nat, l.reverse.foldl (fun n d => 16 * n + d) 0 = Nat.ofDigits 16 l := by
      intro l
      rw [List.foldl_reverse, Nat.ofDigits_eq_foldr]
      simp only [Nat.cast_id, Nat.add_comm]
    rw [hfold, Nat.digitsAppend, Nat.ofDigits_append_replicate_zero, Nat.ofDigits_digits]
  rw [hexInt, hex, mapM_hexDigit hdigits]
  cases hl : (Nat.digitsAppend 16 width n).reverse with
  | nil =>
    have hlen := length_digitsAppend h
    rw [List.reverse_eq_nil_iff.1 hl] at hlen
    simp at hlen
    omega
  | cons d ds =>
    rw [hl] at hvalue
    simp only [hvalue]

/-- Bytes are read back. -/
theorem b16decode_encode : ∀ bytes : Bytes, b16decode (encode bytes) = .ok bytes
  | [] => rfl
  | b :: bytes => by
    have hlt := b.toNat_lt
    have hbyte : (16 * (b.toNat / 16) + b.toNat % 16).toUInt8 = b := by
      rw [Nat.div_add_mod]
      simp
    have hread := b16decode_encode bytes
    rw [encode] at hread ⊢
    rw [List.flatMap_cons, List.cons_append, List.cons_append, List.nil_append, b16decode, hexDigit_hexChar (by omega),
      hexDigit_hexChar (by omega), hread]
    exact congrArg (fun c => Except.ok (c :: bytes)) hbyte

/-- The digits of a byte, the lower one first. -/
theorem ofDigits_halves : ∀ bytes : Bytes,
    Nat.ofDigits 16 (bytes.flatMap fun b => [b.toNat % 16, b.toNat / 16]) = Nat.ofDigits 256 (bytes.map UInt8.toNat)
  | [] => rfl
  | b :: bytes => by
    have ih := ofDigits_halves bytes
    simp only [List.flatMap_cons, List.cons_append, List.nil_append, Nat.ofDigits_cons, List.map_cons, ih]
    omega

/-- **A number is printed as its bytes**, the highest first. -/
theorem hex_ofDigits (bytes : Bytes) :
    hex (2 * bytes.length) (Nat.ofDigits 256 (bytes.map UInt8.toNat)) = encode bytes.reverse := by
  have hlt : Nat.ofDigits 256 (bytes.map UInt8.toNat) < 16 ^ (2 * bytes.length) := by
    have hdigits : ∀ d ∈ bytes.map UInt8.toNat, d < 256 := by
      intro d hd
      obtain ⟨b, -, rfl⟩ := List.mem_map.1 hd
      exact b.toNat_lt
    have hpow := Nat.ofDigits_lt_base_pow_length (by decide) hdigits
    rwa [List.length_map, show 256 = 16 ^ 2 by decide, ← Nat.pow_mul] at hpow
  -- digits of one length that stand for one number
  have hdigits : Nat.digitsAppend 16 (2 * bytes.length) (Nat.ofDigits 256 (bytes.map UInt8.toNat)) =
      bytes.flatMap fun b => [b.toNat % 16, b.toNat / 16] := by
    refine Nat.ofDigits_inj_of_len_eq (b := 16) (by decide) ?_ ?_ ?_ ?_
    · rw [length_digitsAppend hlt]
      simp [Nat.mul_comm]
    · exact fun d => Nat.lt_of_mem_digitsAppend (by decide) _ d
    · intro d hd
      obtain ⟨b, -, hd⟩ := List.mem_flatMap.1 hd
      have hb := b.toNat_lt
      simp only [List.mem_cons, List.not_mem_nil, or_false] at hd
      omega
    · rw [Nat.digitsAppend, Nat.ofDigits_append_replicate_zero, Nat.ofDigits_digits, ofDigits_halves]
  rw [hex, hdigits, encode, List.reverse_flatMap, List.map_flatMap]
  rfl

/-! ## Addresses -/

/-- Four bytes in the order of the network. -/
structure Word where
  b0 : UInt8
  b1 : UInt8
  b2 : UInt8
  b3 : UInt8

def Word.bytes (w : Word) : Bytes := [w.b0, w.b1, w.b2, w.b3]

/-- The integer that the host takes for the four bytes. -/
def Word.value (littleEndian : Bool) (w : Word) : Nat :=
  Nat.ofDigits 256 ((if littleEndian then w.bytes else w.bytes.reverse).map UInt8.toNat)

inductive IpAddress where
  | v4 (word : Word)
  | v6 (word0 word1 word2 word3 : Word)

namespace IpAddress

def family : IpAddress → Family
  | v4 _ => .inet
  | v6 _ _ _ _ => .inet6

def words : IpAddress → List Word
  | v4 w => [w]
  | v6 w0 w1 w2 w3 => [w0, w1, w2, w3]

/-- What `inet_ntop` takes. -/
def bytes (a : IpAddress) : Bytes := a.words.flatMap Word.bytes

/-- `%08X` of every word, a colon, and `%04X` of the port. -/
def printed (littleEndian : Bool) (a : IpAddress) (port : Nat) : Bytes :=
  (a.words.flatMap fun w => hex 8 (w.value littleEndian)) ++ byte ':' :: hex 4 port

end IpAddress

-- 10.0.0.5:22, and ::1 port 80, as a little-endian kernel prints them
example : (IpAddress.v4 ⟨10, 0, 0, 5⟩).printed true 22 = ascii "0500000A:0016" ∧
    (IpAddress.v6 ⟨0, 0, 0, 0⟩ ⟨0, 0, 0, 0⟩ ⟨0, 0, 0, 0⟩ ⟨0, 0, 0, 1⟩).printed true 80 =
      ascii "00000000000000000000000001000000:0050" := by decide +kernel

namespace IpAddress

variable (a : IpAddress) (littleEndian : Bool)

/-- The bytes as they are printed. -/
def hostBytes : Bytes := a.words.flatMap fun w => if littleEndian then w.bytes.reverse else w.bytes

theorem hex_value (w : Word) : hex 8 (w.value littleEndian) = encode (if littleEndian then w.bytes.reverse else w.bytes) := by
  cases littleEndian with
  | true => exact hex_ofDigits w.bytes
  | false => exact hex_ofDigits w.bytes.reverse

theorem printed_eq (port : Nat) : a.printed littleEndian port = encode (a.hostBytes littleEndian) ++ byte ':' :: hex 4 port := by
  simp only [printed, hex_value, hostBytes, encode, List.flatMap_assoc]

/-- The order of the bytes is undone: they are reversed, or left alone. -/
theorem reverse_hostBytes (w : Word) :
    (if littleEndian then ((v4 w).hostBytes littleEndian).reverse else (v4 w).hostBytes littleEndian) = (v4 w).bytes := by
  cases littleEndian <;> rfl

/-- Or they are reversed in each of four words. -/
theorem repack_hostBytes (w0 w1 w2 w3 : Word) :
    repack littleEndian ((v6 w0 w1 w2 w3).hostBytes littleEndian) = .ok (v6 w0 w1 w2 w3).bytes := by
  cases littleEndian <;> rfl

theorem colon_notMem_encode (bytes : Bytes) : byte ':' ∉ encode bytes := by
  intro h
  obtain ⟨b, -, hb⟩ := List.mem_flatMap.1 h
  have hlt := b.toNat_lt
  simp only [List.mem_cons, List.not_mem_nil, or_false] at hb
  rcases hb with hb | hb
  · exact hexChar_ne_colon (by omega) hb.symm
  · exact hexChar_ne_colon (by omega) hb.symm

theorem colon_notMem_hex (width n : Nat) : byte ':' ∉ hex width n := by
  intro h
  obtain ⟨d, hd, hcolon⟩ := List.mem_map.1 h
  exact hexChar_ne_colon (Nat.lt_of_mem_digitsAppend (by decide) width d (List.mem_reverse.1 hd)) hcolon

theorem splitOn_printed (port : Nat) :
    (a.printed littleEndian port).splitOn (byte ':') = [encode (a.hostBytes littleEndian), hex 4 port] := by
  rw [printed_eq, splitOn_append_cons, splitOn_of_notMem (colon_notMem_encode _), splitOn_of_notMem (colon_notMem_hex 4 port)]
  rfl

end IpAddress

/-- **An address and a port come back**, on machines of both orders. -/
theorem decodeAddress_printed (plat : NetPlatform) (a : IpAddress) (port : Nat) (hport : port < 65536) :
    (port = 0 → decodeAddress plat (a.printed plat.littleEndian port) a.family = .ok (some .none)) ∧
    (port ≠ 0 → ∀ ip, plat.inetNtop a.family a.bytes = .ok ip →
      decodeAddress plat (a.printed plat.littleEndian port) a.family = .ok (some (.inet ip port))) := by
  have hread : hexInt (hex 4 port) = .ok port := hexInt_hex (by decide) (by simpa using hport)
  constructor
  · rintro rfl
    simp only [decodeAddress, a.splitOn_printed, hread]
    rfl
  · intro hne ip hntop
    simp only [decodeAddress, a.splitOn_printed, hread, b16decode_encode, bind, Except.bind, pure, Except.pure, if_neg hne]
    cases a with
    | v4 w =>
      have hfamily : (IpAddress.v4 w).family = .inet := rfl
      rw [hfamily] at hntop ⊢
      rw [if_pos rfl, IpAddress.reverse_hostBytes, hntop]
    | v6 w0 w1 w2 w3 =>
      have hfamily : (IpAddress.v6 w0 w1 w2 w3).family = .inet6 := rfl
      rw [hfamily] at hntop ⊢
      rw [if_neg (by decide), IpAddress.repack_hostBytes]
      dsimp only
      rw [hntop]

/-- A little-endian machine; what `inet_ntop` makes of `::1`. -/
def loopbackPlatform : NetPlatform where
  littleEndian := true
  inetNtop family packed :=
    if family = .inet6 ∧ packed = List.replicate 15 0 ++ [1] then .ok (ascii "::1") else .error (.valueError "invalid length of packed IP address string")
  supportsIpv6 := true

/-- `::1`, port 80. -/
theorem decodeAddress_loopback : decodeAddress loopbackPlatform (ascii "00000000000000000000000001000000:0050") .inet6 =
    .ok (some (.inet (ascii "::1") 80)) := by
  have hprinted : (IpAddress.v6 ⟨0, 0, 0, 0⟩ ⟨0, 0, 0, 0⟩ ⟨0, 0, 0, 0⟩ ⟨0, 0, 0, 1⟩).printed true 80 =
      ascii "00000000000000000000000001000000:0050" := by decide +kernel
  have hdecode := (decodeAddress_printed loopbackPlatform (.v6 ⟨0, 0, 0, 0⟩ ⟨0, 0, 0, 0⟩ ⟨0, 0, 0, 0⟩ ⟨0, 0, 0, 1⟩) 80
    (by decide)).2 (by decide) (ascii "::1") (by decide)
  rw [← hprinted]
  exact hdecode

end Psutil
