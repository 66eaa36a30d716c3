import Psutil.Common.Columns
import Psutil.Exc
import Psutil.Lib.Dict
import Psutil.Lib.Fold

/-!
# `net_io_counters()` on Linux (`_pslinux.py:954-998`)

| here | there |
| --- | --- |
| `netDevLine`, `netIoCounters` | a round of the loop, the function on the text of `/proc/net/dev` |
| `NicLine` | a line of the file |

The name goes up to the last `:`, and the numbers have none: `netIoCounters_columns`.
-/

namespace Psutil.Linux

open Lib Common

def netDevLine (U : UnicodeData) (retdict : Dict Text (List Int)) (line : Text) : Except Exc (Dict Text (List Int)) := do
  let colon := Text.rfind line 58
  if colon ≤ 0 then throw .assertionError
  let name := Text.strip (line.take colon.toNat)
  let fields := Text.split (line.drop (colon + 1).toNat)
  match ← fields.mapM (Text.int U) with
  | [bytesRecv, packetsRecv, errin, dropin, _fifoin, _framein, _compressedin, _multicastin,
      bytesSent, packetsSent, errout, dropout, _fifoout, _collisionsout, _carrierout, _compressedout] =>
    return retdict.set name [bytesSent, bytesRecv, packetsSent, packetsRecv, errin, errout, dropin, dropout]
  | _ => throw (.valueError "not enough values to unpack")

def netIoCounters (U : UnicodeData) (dev : Text) : Except Exc (Dict Text (List Int)) :=
  ((lines dev).drop 2).foldlM (netDevLine U) ∅

example : (netIoCounters .ascii (text "Inter-|\n face |\n  eth0:1:7 1 2 3 4 5 6 8 9 10 11 12 13 14 15 16\n")).map Dict.items =
    .ok [(text "eth0:1", [9, 7, 10, 1, 2, 11, 3, 12])] := by decide

/-! ## The file -/

/-- Blanks, a name, a colon and sixteen numbers; before the first one there need not be a blank. -/
structure NicLine where
  lead : Text
  name : Text
  row : TextRow
  counters : Fin 16 → Nat
  lead_ok : ∀ b ∈ lead, b = 32 ∨ b = 9
  name_ok : Text.IsWord name
  row_ok : row.words = (List.ofFn counters).map Text.decimal

namespace NicLine

variable (n : NicLine)

def text : Text := n.lead ++ n.name ++ 58 :: n.row.text

/-- A column, counted from 1. -/
def column (i : Fin 16) : Int := n.counters (i - 1)

/-- `bytes_sent`, `bytes_recv`, `packets_sent`, `packets_recv`, `errin`, `errout`, `dropin`, `dropout`. -/
def tuple : List Int := [n.column 9, n.column 1, n.column 10, n.column 2, n.column 3, n.column 11, n.column 4, n.column 12]

end NicLine

/-! ## One line -/

namespace NicLine

variable (n : NicLine)

theorem mem_row {c : Nat} (h : c ∈ n.row.text) : c = 32 ∨ c = 9 ∨ (48 ≤ c ∧ c < 58) := by
  obtain ⟨col, hcol, hc⟩ := List.mem_flatMap.1 h
  rcases List.mem_append.1 hc with hc | hc
  · rcases n.row.blank col hcol c hc with h32 | h9
    · exact Or.inl h32
    · exact Or.inr (Or.inl h9)
  · have hword : col.2 ∈ n.row.words := List.mem_map_of_mem hcol
    rw [n.row_ok] at hword
    obtain ⟨k, -, hk⟩ := List.mem_map.1 hword
    exact Or.inr (Or.inr (Text.digit_of_mem_decimal (hk ▸ hc)))

theorem colon_notMem : 58 ∉ n.row.text ++ [10] := by
  intro h
  rcases List.mem_append.1 h with h | h
  · have hrow := n.mem_row h
    omega
  · cases List.mem_singleton.1 h

theorem newline_notMem : 10 ∉ n.text := by
  simp only [text, List.mem_append, List.mem_cons, not_or]
  refine ⟨⟨fun h => ?_, fun h => ?_⟩, by decide, fun h => ?_⟩
  · have hlead := n.lead_ok 10 h
    omega
  · exact absurd (n.name_ok.2 10 h) (by decide)
  · have hrow := n.mem_row h
    omega

theorem mapM_words (U : UnicodeData) : n.row.words.mapM (Text.int U) = .ok ((List.ofFn n.counters).map Int.ofNat) := by
  rw [n.row_ok, Text.mapM_int_decimal]

/-- **A line sets its name** to the eight columns. -/
theorem netDevLine_text (U : UnicodeData) (retdict : Dict Text (List Int)) :
    netDevLine U retdict (n.text ++ [10]) = .ok (retdict.set n.name n.tuple) := by
  have htext : n.text ++ [10] = (n.lead ++ n.name) ++ 58 :: (n.row.text ++ [10]) := by simp [text]
  have hlen : 0 < (n.lead ++ n.name).length := by
    rw [List.length_append]
    have hpos := List.length_pos_of_ne_nil n.name_ok.1
    omega
  have hcolon := Text.rfind_append n.colon_notMem (n.lead ++ n.name)
  have hpos : ¬((n.lead ++ n.name).length : Int) ≤ 0 := by omega
  have htake : ((n.lead ++ n.name) ++ 58 :: (n.row.text ++ [10])).take ((n.lead ++ n.name).length : Int).toNat = n.lead ++ n.name := by
    rw [Int.toNat_natCast, List.take_left]
  have hdrop : ((n.lead ++ n.name) ++ 58 :: (n.row.text ++ [10])).drop (((n.lead ++ n.name).length : Int) + 1).toNat = n.row.text ++ [10] := by
    have hnat : (((n.lead ++ n.name).length : Int) + 1).toNat = (n.lead ++ n.name).length + 1 := by omega
    rw [hnat, List.drop_append]
    simp
  have hnums : (n.row.words.mapM (Text.int U)) = .ok [(n.counters 0 : Int), n.counters 1, n.counters 2, n.counters 3, n.counters 4,
      n.counters 5, n.counters 6, n.counters 7, n.counters 8, n.counters 9, n.counters 10, n.counters 11, n.counters 12, n.counters 13,
      n.counters 14, n.counters 15] := by
    rw [mapM_words]
    rfl
  have hsplit : Text.split (n.row.text ++ [10]) = n.row.words := n.row.split_text (by decide)
  simp only [netDevLine, htext, hcolon, hpos, if_false, htake, hdrop, Text.strip_append n.lead_ok n.name_ok, hsplit, hnums,
    bind, Except.bind, pure, Except.pure]
  rfl

end NicLine

/-! ## The file -/

theorem foldlM_netDevLine (U : UnicodeData) : ∀ (nics : List NicLine) (retdict : Dict Text (List Int)),
    (nics.map fun n => n.text ++ [10]).foldlM (netDevLine U) retdict = .ok (retdict.update (nics.map fun n => (n.name, n.tuple)))
  | [], _ => rfl
  | n :: nics, retdict => by
    rw [List.map_cons, List.foldlM_cons, n.netDevLine_text]
    exact foldlM_netDevLine U nics _

/-- **The counters are read from the right columns**: one entry for a name, with these eight. -/
theorem netIoCounters_columns (U : UnicodeData) (header1 header2 : Text) (h1 : 10 ∉ header1) (h2 : 10 ∉ header2) (nics : List NicLine)
    (hnd : (nics.map NicLine.name).Nodup) :
    ∃ d, netIoCounters U (terminate 10 (header1 :: header2 :: nics.map NicLine.text)) = .ok d ∧
      d.items = nics.map fun n => (n.name, [n.column 9, n.column 1, n.column 10, n.column 2, n.column 3, n.column 11, n.column 4, n.column 12]) := by
  have hlines : lines (terminate 10 (header1 :: header2 :: nics.map NicLine.text)) =
      (header1 ++ [10]) :: (header2 ++ [10]) :: nics.map fun n => n.text ++ [10] := by
    rw [lines_terminate, List.map_cons, List.map_cons, List.map_map]
    · rfl
    · intro t ht
      rcases List.mem_cons.1 ht with rfl | ht
      · exact h1
      rcases List.mem_cons.1 ht with rfl | ht
      · exact h2
      · obtain ⟨n, -, rfl⟩ := List.mem_map.1 ht
        exact n.newline_notMem
  refine ⟨(∅ : Dict Text (List Int)).update (nics.map fun n => (n.name, n.tuple)), ?_, ?_⟩
  · rw [netIoCounters, hlines]
    exact foldlM_netDevLine U nics ∅
  · have hkeys : ((nics.map fun n => (n.name, n.tuple)).map Prod.fst).Nodup := by
      rw [List.map_map]
      exact hnd
    rw [Dict.items_update hkeys fun _ _ => Dict.not_mem_empty _]
    rfl

/-- An alias, with its counters right behind the colon. -/
def aliasLine : NicLine where
  lead := text "  "
  name := text "eth0:1"
  row :=
    { cols := ([], Text.decimal 100) :: (List.range 15).map fun i => ([32, 9], Text.decimal i)
      blank := by decide
      word := by
        intro c hc
        rcases List.mem_cons.1 hc with rfl | hc
        · exact Text.isWord_decimal 100
        · obtain ⟨i, -, rfl⟩ := List.mem_map.1 hc
          exact Text.isWord_decimal i
      apart := by decide }
  counters := fun i => if i = 0 then 100 else i.val - 1
  lead_ok := by decide
  name_ok := ⟨by decide, by decide⟩
  row_ok := by decide

theorem netIoCounters_columns_alias : ∃ d, netIoCounters .ascii (terminate 10 (text "Inter-|" :: text " face |bytes" :: [aliasLine].map NicLine.text)) = .ok d ∧
    d.items = [aliasLine].map fun n => (n.name, [n.column 9, n.column 1, n.column 10, n.column 2, n.column 3, n.column 11, n.column 4, n.column 12]) :=
  netIoCounters_columns .ascii (text "Inter-|") (text " face |bytes") (by decide) (by decide) [aliasLine] (by decide)

end Psutil.Linux
