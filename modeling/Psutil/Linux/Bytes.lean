import Psutil.Exc
import Psutil.Lib.Pattern
import Mathlib.Data.Rat.Floor

/-!
# Byte strings

The methods of `bytes` and the conversions that the readers of `/proc` use.
-/

namespace Psutil

open Lib

abbrev Bytes := List UInt8

/-- A bytes literal. -/
def ascii (s : String) : Bytes := s.toList.map fun c => c.toNat.toUInt8

/-- One byte of a literal. -/
def byte (c : Char) : UInt8 := c.toNat.toUInt8

namespace Bytes

/-- `\s`, and what `split()` and `strip()` take away. -/
def isSpace (c : UInt8) : Bool := c = 32 || (9 ≤ c && c ≤ 13)

/-- `\d`. -/
def isDigit (c : UInt8) : Bool := 48 ≤ c && c ≤ 57

/-- `data.find(b)`. -/
def find (data : Bytes) (b : UInt8) : Int :=
  match data.findIdx? (· = b) with
  | some i => i
  | none => -1

/-- `data.rfind(b)`. -/
def rfind (data : Bytes) (b : UInt8) : Int :=
  match data.reverse.findIdx? (· = b) with
  | some i => (data.length : Int) - 1 - i
  | none => -1

/-- `data[i:]`, for `i ≥ 0`. -/
def sliceFrom (data : Bytes) (i : Int) : Bytes := data.drop i.toNat

/-- `data[i:j]`, for `i ≥ 0`; a negative `j` counts from the end. -/
def slice (data : Bytes) (i j : Int) : Bytes :=
  (data.take (if j < 0 then j + data.length else j).toNat).drop i.toNat

def lstrip (data : Bytes) : Bytes := data.dropWhile isSpace

def strip (data : Bytes) : Bytes := (lstrip (lstrip data).reverse).reverse

/-- `data.split()`. -/
def split (data : Bytes) : List Bytes := (data.splitOnP isSpace).filter (· ≠ [])

/-- `data.split(None, n)`. -/
def splitMax : (n : Nat) → Bytes → List Bytes
  | n, data => match n, lstrip data with
    | _, [] => []
    | 0, rest => [rest]
    | n + 1, rest => rest.takeWhile (!isSpace ·) :: splitMax n (rest.dropWhile (!isSpace ·))

def startsWith (data pre : Bytes) : Bool := pre.isPrefixOf data

def endsWith (data suf : Bytes) : Bool := suf.isSuffixOf data

/-- One byte as `repr` writes it between quotes. -/
def reprByte (quote : UInt8) (c : UInt8) : String :=
  if c = quote || c = 92 then String.ofList ['\\', Char.ofNat c.toNat]
  else if c = 9 then "\\t" else if c = 10 then "\\n" else if c = 13 then "\\r"
  else if 32 ≤ c && c < 127 then String.ofList [Char.ofNat c.toNat]
  else String.ofList ('\\' :: 'x' :: (Nat.toDigits 16 (256 + c.toNat)).tail)

/-- `repr(data)`. -/
def repr (data : Bytes) : String :=
  -- double quotes for a text with single quotes only
  let quote : UInt8 := if data.contains 39 && !data.contains 34 then 34 else 39
  let q := String.ofList [Char.ofNat quote.toNat]
  "b" ++ q ++ String.join (data.map (reprByte quote)) ++ q

/-- The number a text of digits stands for. -/
def digits (data : Bytes) : Nat := data.foldl (fun n c => 10 * n + (c.toNat - 48)) 0

/-- Digits, with single underscores between them. -/
def isNumeral : (afterDigit : Bool) → Bytes → Bool
  | afterDigit, [] => afterDigit
  | afterDigit, c :: data =>
    if isDigit c then isNumeral true data else afterDigit && c = byte '_' && isNumeral false data

def numeral (data : Bytes) : Option Nat :=
  if isNumeral false data then some (digits (data.filter isDigit)) else none

/-- `int(data)`. -/
def int (data : Bytes) : Except Exc Int :=
  let n := match strip data with
    | [] => none
    | c :: rest =>
      if c = byte '-' then (numeral rest).map fun n => -(n : Int)
      else if c = byte '+' then (numeral rest).map Int.ofNat
      else (numeral (c :: rest)).map Int.ofNat
  match n with
  | some n => .ok n
  | none => .error (.valueError ("invalid literal for int() with base 10: " ++ repr data))

/-- `float(data)`; the kernel prints integers where the code calls it. -/
def float (data : Bytes) : Except Exc ℚ :=
  match int data with
  | .ok n => .ok n
  | .error _ => .error (.valueError ("could not convert string to float: " ++ repr data))

/-- `int(x)` of a float. -/
def truncate (x : ℚ) : Int := if 0 ≤ x then ⌊x⌋ else ⌈x⌉

/-- The lines of a file that is open in binary mode, each with its newline. -/
def fileLines (data : Bytes) : List Bytes :=
  let pieces := data.splitOn 10
  pieces.dropLast.map (· ++ [10]) ++ (if pieces.getLastD [] = [] then [] else [pieces.getLastD []])

/-- `a, b = data.split(c, 1)`. -/
def splitOnce (data : Bytes) (c : UInt8) : Except Exc (Bytes × Bytes) :=
  match data.findIdx? (· = c) with
  | some i => .ok (data.take i, data.drop (i + 1))
  | none => .error (.valueError "not enough values to unpack (expected 2, got 1)")

/-- `l[i]`. -/
def getItem (l : List Bytes) (i : Nat) : Except Exc Bytes :=
  match l[i]? with
  | some x => .ok x
  | none => .error .indexError

/-- `data.decode()`. -/
def decode (data : Bytes) : Except Exc String :=
  match String.fromUTF8? ⟨data.toArray⟩ with
  | some s => .ok s
  | none => .error .unicodeDecodeError

/-! ## Regular expressions -/

/-- A literal part of a pattern. -/
def lit (s : String) : Pattern UInt8 := (ascii s).map fun b => .one (· = b)

/-- `(\d+)`. -/
def digitGroup : Piece UInt8 := .group isDigit

/-- `\s+`. -/
def spaces : Piece UInt8 := .plus isSpace

/-- `.*`. -/
def dotStar : Piece UInt8 := .star (· ≠ 10)

example : Pattern.findall (lit "Uid:\t" ++ [digitGroup]) (ascii "Name:\tx\nUid:\t10\t20\nUid:\t7\n") =
    [[ascii "10"], [ascii "7"]] := by decide

end Bytes

end Psutil
