import Mathlib.Data.Finset.Sort
import Mathlib.Data.Int.ConditionallyCompleteOrder
import Mathlib.Order.Interval.Finset.Nat
import Mathlib.Data.Int.Interval
import Psutil.Common.Columns
import Psutil.Lib.Fold

/-!
# CPU lists (`_pslinux.py:496-516`)

`parseChunk` and `parseCpulist` are `_parse_cpulist`. `Runs` are the runs of a set as the kernel prints them, each as long as it
can be; `Expands` says what the items of a list stand for. `parseCpulist_inverts`: the kernel's list of a set is read back, and
any other text gives what its items stand for, a `ValueError`, or an `OverflowError` for an item that no list can be extended by.
-/

namespace Psutil.Linux

open Lib Common

/-- `range(start, stop)`. -/
def range (start stop : Int) : List Int := (List.range (stop - start).toNat).map fun n : Nat => start + n

/-- The lengths of lists end here, on 64-bit systems. -/
def pySsizeTMax : Nat := 9223372036854775807

/-- `cpus.extend(range(start, stop))`: the list asks the range for its length first. -/
def extend (start stop : Int) : Except Exc (List Int) :=
  if stop - start ≤ pySsizeTMax then .ok (range start stop) else .error .overflowError

/-- A chunk that is not blank. -/
def parseItem (U : UnicodeData) (chunk : Text) : Except Exc (List Int) := do
  if 45 ∈ chunk then
    let (start, end_) := cutAt 45 chunk
    let start ← Text.int U start
    let end_ ← Text.int U end_
    if end_ < start then .error (.valueError ("invalid CPU range " ++ U.repr chunk))
    else extend start (end_ + 1)
  else return [← Text.int U chunk]

/-- What the loop adds for `chunk`. -/
def parseChunk (U : UnicodeData) (chunk : Text) : Except Exc (List Int) :=
  let chunk := Text.strip chunk
  if chunk = [] then .ok [] else parseItem U chunk

def parseCpulist (U : UnicodeData) (cpulist : Text) : Except Exc (List Int) :=
  let cpulist := Text.strip cpulist
  if cpulist = [] then .ok []
  else ((cpulist.splitOn 44).mapM (parseChunk U)).map List.flatten

example : parseCpulist UnicodeData.ascii (text "0-3,8,10-11\n") = .ok [0, 1, 2, 3, 8, 10, 11] := by decide

/-! ## What the kernel prints -/

/-- The runs of `s` in ascending order, with a gap between two of them. -/
structure Runs (s : Finset ℕ) where
  runs : List (ℕ × ℕ)
  le : ∀ r ∈ runs, r.1 ≤ r.2
  apart : runs.Pairwise fun r r' => r.2 + 1 < r'.1
  mem : ∀ n, n ∈ s ↔ ∃ r ∈ runs, r.1 ≤ n ∧ n ≤ r.2

/-- A run, as it is printed. -/
def runText (r : ℕ × ℕ) : Text := if r.1 = r.2 then Text.decimal r.1 else Text.decimal r.1 ++ 45 :: Text.decimal r.2

def Runs.text {s : Finset ℕ} (k : Runs s) : Text := [44].intercalate (k.runs.map runText)

/-- One more number in front of the runs. -/
def consRun (n : ℕ) : List (ℕ × ℕ) → List (ℕ × ℕ)
  | [] => [(n, n)]
  | (a, b) :: rest => if n + 1 = a then (n, b) :: rest else (n, n) :: (a, b) :: rest

/-- The runs of an ascending list. -/
def runsOf (l : List ℕ) : List (ℕ × ℕ) := l.foldr consRun []

example : runsOf [0, 1, 2, 3, 8, 10, 11] = [(0, 3), (8, 8), (10, 11)] := by decide

theorem mem_consRun {n m : ℕ} {rs : List (ℕ × ℕ)} (hle : ∀ r ∈ rs, r.1 ≤ r.2) :
    (∃ r ∈ consRun n rs, r.1 ≤ m ∧ m ≤ r.2) ↔ m = n ∨ ∃ r ∈ rs, r.1 ≤ m ∧ m ≤ r.2 := by
  cases rs with
  | nil =>
    simp [consRun]
    omega
  | cons r rest =>
    obtain ⟨a, b⟩ := r
    have hab : a ≤ b := hle (a, b) List.mem_cons_self
    rw [consRun]
    split_ifs with h <;> simp only [List.exists_mem_cons_iff, ← or_assoc]
    · exact or_congr_left (by omega)
    · exact or_congr_left (by omega)

theorem consRun_spec {n : ℕ} {rs : List (ℕ × ℕ)} (hle : ∀ r ∈ rs, r.1 ≤ r.2) (hapart : rs.Pairwise fun r r' => r.2 + 1 < r'.1)
    (hn : ∀ r ∈ rs, n < r.1) :
    (∀ r ∈ consRun n rs, r.1 ≤ r.2) ∧ (consRun n rs).Pairwise fun r r' => r.2 + 1 < r'.1 := by
  cases rs with
  | nil => simp [consRun]
  | cons r rest =>
    obtain ⟨a, b⟩ := r
    have hab : a ≤ b := hle (a, b) List.mem_cons_self
    have hna : n < a := hn (a, b) List.mem_cons_self
    rw [List.forall_mem_cons] at hle
    rw [consRun]
    split_ifs with h
    · -- the first run grows
      rw [List.pairwise_cons] at hapart ⊢
      rw [List.forall_mem_cons]
      exact ⟨⟨by omega, hle.2⟩, hapart⟩
    · rw [List.forall_mem_cons, List.forall_mem_cons, List.pairwise_cons]
      refine ⟨⟨le_refl n, hab, hle.2⟩, fun r hr => ?_, hapart⟩
      rcases List.mem_cons.1 hr with rfl | hr
      · show n + 1 < a
        omega
      · have hrest := (List.pairwise_cons.1 hapart).1 r hr
        have hlt := hn r (List.mem_cons_of_mem _ hr)
        show n + 1 < r.1
        omega

theorem runsOf_spec : ∀ {l : List ℕ}, l.SortedLT → (∀ r ∈ runsOf l, r.1 ≤ r.2) ∧
    ((runsOf l).Pairwise fun r r' => r.2 + 1 < r'.1) ∧ ∀ n, n ∈ l ↔ ∃ r ∈ runsOf l, r.1 ≤ n ∧ n ≤ r.2
  | [], _ => by simp [runsOf]
  | n :: l, h => by
    have hpair := List.pairwise_cons.1 h.pairwise
    obtain ⟨hle, hapart, hmem⟩ := runsOf_spec (l := l) hpair.2.sortedLT
    have hn : ∀ r ∈ runsOf l, n < r.1 := fun r hr => hpair.1 r.1 ((hmem r.1).2 ⟨r, hr, le_refl _, hle r hr⟩)
    obtain ⟨hle', hapart'⟩ := consRun_spec hle hapart hn
    refine ⟨hle', hapart', fun m => ?_⟩
    rw [List.mem_cons, hmem m]
    exact (mem_consRun hle).symm

def Runs.of (s : Finset ℕ) : Runs s where
  runs := runsOf s.sort
  le := (runsOf_spec s.sortedLT_sort).1
  apart := (runsOf_spec s.sortedLT_sort).2.1
  mem := fun n => by rw [← (runsOf_spec s.sortedLT_sort).2.2 n, Finset.mem_sort]

/-- The list of `s`. -/
def kernelList (s : Finset ℕ) : Text := (Runs.of s).text

/-! ## What the items stand for -/

/-- The items of a list, without the blank ones. -/
def items (t : Text) : List Text := ((t.splitOn 44).map Text.strip).filter (· ≠ [])

/-- `a` is a number; `a-b` are the numbers from `a` to `b`. -/
inductive Item (U : UnicodeData) : Text → List Int → Prop
  | number {x : Text} {a : Int} (hx : 45 ∉ x) (ha : Text.int U x = .ok a) : Item U x [a]
  | range {x y : Text} {a b : Int} (hx : 45 ∉ x) (ha : Text.int U x = .ok a) (hb : Text.int U y = .ok b) (hab : a ≤ b) :
    Item U (x ++ 45 :: y) (Finset.Icc a b).sort

/-- Items, one after the other. -/
inductive Expands (U : UnicodeData) : List Text → List Int → Prop
  | nil : Expands U [] []
  | cons {x : Text} {xs : List Text} {l m : List Int} (hx : Item U x l) (hxs : Expands U xs m) : Expands U (x :: xs) (l ++ m)

/-- A list can be extended by what the item stands for. -/
def Fits (U : UnicodeData) (x : Text) : Prop := ∀ l, Item U x l → l.length ≤ pySsizeTMax

/-- The first item that is not read is too long. -/
inductive Overlong (U : UnicodeData) : List Text → Prop
  | here {x : Text} {xs : List Text} (hx : ¬Fits U x) : Overlong U (x :: xs)
  | later {x : Text} {xs : List Text} {l : List Int} (hx : Item U x l) (hfits : Fits U x) (hxs : Overlong U xs) : Overlong U (x :: xs)

theorem cut_unique {x y x' y' : Text} (hx : 45 ∉ x) (hx' : 45 ∉ x') (h : x ++ 45 :: y = x' ++ 45 :: y') : x = x' ∧ y = y' :=
  Prod.mk.inj (show (x, y) = (x', y') by rw [← cutAt_append hx y, h, cutAt_append hx'])

/-- An item stands for one list. -/
theorem Item.unique {U : UnicodeData} {x : Text} {l l' : List Int} (h : Item U x l) (h' : Item U x l') : l = l' := by
  have hdash : ∀ y z : Text, 45 ∈ y ++ 45 :: z := fun y z => List.mem_append_right y List.mem_cons_self
  cases h with
  | number hx ha =>
    cases h' with
    | number hx' ha' => rw [Except.ok.inj (ha.symm.trans ha')]
    | range hx' ha' hb' hab' => exact absurd (hdash _ _) hx
  | @range x y a b hx ha hb hab =>
    generalize hz : x ++ 45 :: y = z at h'
    cases h' with
    | number hx' ha' => exact absurd (hz ▸ hdash x y) hx'
    | range hx' ha' hb' hab' =>
      obtain ⟨rfl, rfl⟩ := cut_unique hx hx' hz
      rw [Except.ok.inj (ha.symm.trans ha'), Except.ok.inj (hb.symm.trans hb')]

theorem Expands.unique {U : UnicodeData} {xs : List Text} {l l' : List Int} (h : Expands U xs l) : Expands U xs l' → l = l' := by
  induction h generalizing l' with
  | nil => rintro ⟨⟩; rfl
  | cons hx _ ih =>
    rintro (_ | ⟨hx', hxs'⟩)
    rw [hx.unique hx', ih hxs']

theorem Item.fits_iff {U : UnicodeData} {x : Text} {l : List Int} (h : Item U x l) : Fits U x ↔ l.length ≤ pySsizeTMax :=
  ⟨fun hfits => hfits l h, fun hle _ hl => h.unique hl ▸ hle⟩

theorem range_eq_sort (a b : Int) : range a (b + 1) = (Finset.Icc a b).sort := by
  have hsorted : (range a (b + 1)).SortedLT := by
    refine List.Pairwise.sortedLT (List.pairwise_map.2 (List.pairwise_lt_range.imp fun {n m} h => ?_))
    show a + (n : Int) < a + m
    omega
  refine hsorted.eq_of_mem_iff (Finset.sortedLT_sort _) fun n => ?_
  rw [Finset.mem_sort, Finset.mem_Icc, range, List.mem_map]
  constructor
  · rintro ⟨i, hi, rfl⟩
    rw [List.mem_range] at hi
    omega
  · intro h
    exact ⟨(n - a).toNat, List.mem_range.2 (by omega), by omega⟩

theorem extend_eq (a b : Int) (hab : a ≤ b) : extend a (b + 1) =
    if (Finset.Icc a b).sort.length ≤ pySsizeTMax then .ok (Finset.Icc a b).sort else .error .overflowError := by
  have hlen : b + 1 - a ≤ pySsizeTMax ↔ (Finset.Icc a b).sort.length ≤ pySsizeTMax := by
    rw [Finset.length_sort, Int.card_Icc]
    omega
  simp only [extend, range_eq_sort, hlen]

theorem parseItem_dash (U : UnicodeData) {x : Text} (hx : 45 ∉ x) (y : Text) : parseItem U (x ++ 45 :: y) =
    (Text.int U x).bind fun a => (Text.int U y).bind fun b =>
      if b < a then .error (.valueError ("invalid CPU range " ++ U.repr (x ++ 45 :: y))) else extend a (b + 1) := by
  rw [parseItem, if_pos (List.mem_append_right _ List.mem_cons_self), cutAt_append hx]
  rfl

theorem parseItem_number (U : UnicodeData) {x : Text} (hx : 45 ∉ x) :
    parseItem U x = (Text.int U x).bind fun a => .ok [a] := by
  rw [parseItem, if_neg hx]
  rfl

theorem int_error (U : UnicodeData) {t : Text} {e : Exc} (h : Text.int U t = .error e) : ∃ msg, e = .valueError msg := by
  unfold Text.int at h
  grind

theorem parseItem_of_item {U : UnicodeData} {x : Text} {l : List Int} (h : Item U x l) :
    parseItem U x = if l.length ≤ pySsizeTMax then .ok l else .error .overflowError := by
  cases h with
  | @number x a hx ha =>
    have hone : [a].length ≤ pySsizeTMax := show 1 ≤ pySsizeTMax by decide
    rw [parseItem_number U hx, ha, if_pos hone]
    rfl
  | @range x y a b hx ha hb hab =>
    rw [parseItem_dash U hx, ha, hb, ← extend_eq a b hab]
    exact if_neg (not_lt.2 hab)

/-- What stands for nothing is a `ValueError`. -/
theorem parseItem_spec (U : UnicodeData) (x : Text) : (∃ l, Item U x l) ∨ ∃ msg, parseItem U x = .error (.valueError msg) := by
  by_cases hdash : 45 ∈ x
  · obtain ⟨y, z, rfl, hy⟩ := List.eq_append_cons_of_mem hdash
    rw [parseItem_dash U hy]
    cases ha : Text.int U y with
    | error e =>
      obtain ⟨msg, rfl⟩ := int_error U ha
      exact Or.inr ⟨msg, rfl⟩
    | ok a => cases hb : Text.int U z with
      | error e =>
        obtain ⟨msg, rfl⟩ := int_error U hb
        exact Or.inr ⟨msg, rfl⟩
      | ok b =>
        by_cases hab : b < a
        · exact Or.inr ⟨_, if_pos hab⟩
        · exact Or.inl ⟨_, .range hy ha hb (not_lt.1 hab)⟩
  · rw [parseItem_number U hdash]
    cases ha : Text.int U x with
    | error e =>
      obtain ⟨msg, rfl⟩ := int_error U ha
      exact Or.inr ⟨msg, rfl⟩
    | ok a => exact Or.inl ⟨_, .number hdash ha⟩

theorem parseItem_ok_iff (U : UnicodeData) (x : Text) (l : List Int) : parseItem U x = .ok l ↔ Item U x l ∧ Fits U x := by
  constructor
  · intro h
    rcases parseItem_spec U x with ⟨l', hitem⟩ | ⟨msg, hmsg⟩
    · rw [parseItem_of_item hitem] at h
      split_ifs at h with hlen
      obtain rfl := Except.ok.inj h
      exact ⟨hitem, hitem.fits_iff.2 hlen⟩
    · rw [hmsg] at h
      cases h
  · rintro ⟨hitem, hfits⟩
    rw [parseItem_of_item hitem, if_pos (hfits l hitem)]

theorem parseItem_overflow_iff (U : UnicodeData) (x : Text) : parseItem U x = .error .overflowError ↔ ¬Fits U x := by
  rcases parseItem_spec U x with ⟨l, hitem⟩ | ⟨msg, hmsg⟩
  · rw [parseItem_of_item hitem, hitem.fits_iff]
    split_ifs with hlen <;> simp [hlen]
  · have hnone : ∀ l, ¬Item U x l := fun l hitem => by
      rw [parseItem_of_item hitem] at hmsg
      split_ifs at hmsg
      cases hmsg
    rw [hmsg]
    exact iff_of_false (by rintro ⟨⟩) fun h => h fun l hitem => absurd hitem (hnone l)

theorem parseItem_error (U : UnicodeData) {x : Text} {e : Exc} (h : parseItem U x = .error e) :
    (∃ msg, e = .valueError msg) ∨ e = .overflowError := by
  rcases parseItem_spec U x with ⟨l, hitem⟩ | ⟨msg, hmsg⟩
  · rw [parseItem_of_item hitem] at h
    split_ifs at h
    exact Or.inr (Except.error.inj h).symm
  · exact Or.inl ⟨msg, Except.error.inj (h.symm.trans hmsg)⟩

theorem expands_cons_iff (U : UnicodeData) (x : Text) (xs : List Text) (r : List Int) :
    Expands U (x :: xs) r ↔ ∃ l m, Item U x l ∧ Expands U xs m ∧ l ++ m = r := by
  constructor
  · intro h
    cases h with
    | cons hx hxs => exact ⟨_, _, hx, hxs, rfl⟩
  · rintro ⟨l, m, hx, hxs, rfl⟩
    exact .cons hx hxs

/-- The loop. -/
theorem mapM_parseChunk_iff (U : UnicodeData) : ∀ (chunks : List Text) (r : List Int),
    (chunks.mapM (parseChunk U)).map List.flatten = .ok r ↔ Expands U ((chunks.map Text.strip).filter (· ≠ [])) r ∧
      ∀ x ∈ (chunks.map Text.strip).filter (· ≠ []), Fits U x
  | [], r => by
    constructor
    · intro h
      obtain rfl := Except.ok.inj h
      exact ⟨.nil, fun x hx => absurd hx List.not_mem_nil⟩
    · rintro ⟨h, -⟩
      cases h
      rfl
  | chunk :: chunks, r => by
    have ih := mapM_parseChunk_iff U chunks
    by_cases hnil : Text.strip chunk = []
    · have hfirst : parseChunk U chunk = .ok [] := if_pos hnil
      rw [List.map_cons, List.filter_cons_of_neg (by simpa using hnil), ← ih r, List.mapM_cons, hfirst]
      cases chunks.mapM (parseChunk U) <;> rfl
    · have hfirst : parseChunk U chunk = parseItem U (Text.strip chunk) := if_neg hnil
      have hcons : (Expands U (Text.strip chunk :: (chunks.map Text.strip).filter (· ≠ [])) r ∧
          ∀ x ∈ Text.strip chunk :: (chunks.map Text.strip).filter (· ≠ []), Fits U x) ↔
          ∃ l m, (Item U (Text.strip chunk) l ∧ Fits U (Text.strip chunk)) ∧
            (Expands U ((chunks.map Text.strip).filter (· ≠ [])) m ∧ ∀ x ∈ (chunks.map Text.strip).filter (· ≠ []), Fits U x) ∧
            l ++ m = r := by
        rw [expands_cons_iff, List.forall_mem_cons]
        constructor
        · rintro ⟨⟨l, m, hl, hm, hr⟩, hfits, hall⟩
          exact ⟨l, m, ⟨hl, hfits⟩, ⟨hm, hall⟩, hr⟩
        · rintro ⟨l, m, ⟨hl, hfits⟩, ⟨hm, hall⟩, hr⟩
          exact ⟨⟨l, m, hl, hm, hr⟩, hfits, hall⟩
      rw [List.map_cons, List.filter_cons_of_pos (by simpa using hnil), hcons, List.mapM_cons, hfirst]
      simp only [← ih, ← parseItem_ok_iff]
      cases parseItem U (Text.strip chunk) with
      | error e => simp [bind, Except.bind, Except.map]
      | ok l => cases chunks.mapM (parseChunk U) with
        | error e => simp [bind, Except.bind, Except.map]
        | ok ls => simp [bind, Except.bind, Except.map, pure, Except.pure]

theorem overlong_cons_iff (U : UnicodeData) (x : Text) (xs : List Text) :
    Overlong U (x :: xs) ↔ ¬Fits U x ∨ (∃ l, Item U x l ∧ Fits U x) ∧ Overlong U xs := by
  constructor
  · intro h
    cases h with
    | here hx => exact Or.inl hx
    | later hx hfits hxs => exact Or.inr ⟨⟨_, hx, hfits⟩, hxs⟩
  · rintro (hx | ⟨⟨l, hx, hfits⟩, hxs⟩)
    · exact .here hx
    · exact .later hx hfits hxs

/-- How the loop overflows. -/
theorem mapM_parseChunk_overflow_iff (U : UnicodeData) : ∀ chunks : List Text,
    (chunks.mapM (parseChunk U)).map List.flatten = .error .overflowError ↔ Overlong U ((chunks.map Text.strip).filter (· ≠ []))
  | [] => iff_of_false (by rintro ⟨⟩) (by rintro ⟨⟩)
  | chunk :: chunks => by
    have ih := mapM_parseChunk_overflow_iff U chunks
    by_cases hnil : Text.strip chunk = []
    · have hfirst : parseChunk U chunk = .ok [] := if_pos hnil
      rw [List.map_cons, List.filter_cons_of_neg (by simpa using hnil), ← ih, List.mapM_cons, hfirst]
      cases chunks.mapM (parseChunk U) <;> rfl
    · have hfirst : parseChunk U chunk = parseItem U (Text.strip chunk) := if_neg hnil
      rw [List.map_cons, List.filter_cons_of_pos (by simpa using hnil), overlong_cons_iff, ← ih, ← parseItem_overflow_iff,
        List.mapM_cons, hfirst]
      simp only [← parseItem_ok_iff]
      cases parseItem U (Text.strip chunk) with
      | error e => simp [bind, Except.bind, Except.map]
      | ok l => cases chunks.mapM (parseChunk U) with
        | error e => simp [bind, Except.bind, Except.map]
        | ok ls => simp [bind, Except.bind, Except.map, pure, Except.pure]

/-- Blanks around the text are blanks around its items. -/
theorem items_pad {g g' : Text} (hg : ∀ b ∈ g, Text.isSpace b = true) (hg' : ∀ b ∈ g', Text.isSpace b = true) (t : Text) :
    items (g ++ (t ++ g')) = items t := by
  have hcomma : ∀ {u : Text}, (∀ b ∈ u, Text.isSpace b = true) → 44 ∉ u := fun hu h => absurd (hu 44 h) (by decide)
  suffices hstrip : ((g ++ (t ++ g')).splitOn 44).map Text.strip = (t.splitOn 44).map Text.strip by rw [items, hstrip, items]
  have hnil : ∀ b ∈ ([] : Text), Text.isSpace b = true := fun b hb => absurd hb List.not_mem_nil
  have hleft : ∀ u : Text, ((g ++ u).splitOn 44).map Text.strip = (u.splitOn 44).map Text.strip := by
    intro u
    by_cases hu : 44 ∈ u
    · obtain ⟨x, y, rfl, hx⟩ := List.eq_append_cons_of_mem hu
      have hgx : 44 ∉ g ++ x := fun h => (List.mem_append.1 h).elim (hcomma hg) hx
      have hpad := Text.strip_pad hg hnil x
      rw [List.append_nil] at hpad
      rw [← List.append_assoc, splitOn_append_cons, splitOn_append_cons, splitOn_of_notMem hgx, splitOn_of_notMem hx,
        List.map_append, List.map_append, List.map_singleton, hpad, List.map_singleton]
    · have hgu : 44 ∉ g ++ u := fun h => (List.mem_append.1 h).elim (hcomma hg) hu
      have hpad := Text.strip_pad hg hnil u
      rw [List.append_nil] at hpad
      rw [splitOn_of_notMem hgu, splitOn_of_notMem hu, List.map_singleton, List.map_singleton, hpad]
  rw [hleft]
  by_cases ht : 44 ∈ t
  · -- the last comma
    obtain ⟨y, x, hxy, hy⟩ := List.eq_append_cons_of_mem (List.mem_reverse.2 ht)
    have hrev : t = x.reverse ++ 44 :: y.reverse := by
      rw [← List.reverse_reverse t, hxy]
      simp
    have hy' : 44 ∉ y.reverse := fun h => hy (List.mem_reverse.1 h)
    have hyg : 44 ∉ y.reverse ++ g' := fun h => (List.mem_append.1 h).elim hy' (hcomma hg')
    have hpad := Text.strip_pad hnil hg' y.reverse
    rw [List.nil_append] at hpad
    rw [hrev, List.append_assoc, List.cons_append, splitOn_append_cons, splitOn_append_cons, splitOn_of_notMem hyg,
      splitOn_of_notMem hy', List.map_append, List.map_append, List.map_singleton, List.map_singleton, hpad]
  · have htg : 44 ∉ t ++ g' := fun h => (List.mem_append.1 h).elim ht (hcomma hg')
    have hpad := Text.strip_pad hnil hg' t
    rw [List.nil_append] at hpad
    rw [splitOn_of_notMem htg, splitOn_of_notMem ht, List.map_singleton, List.map_singleton, hpad]

theorem items_strip (t : Text) : items (Text.strip t) = items t := by
  obtain ⟨g, g', hg, hg', ht⟩ := Text.exists_pad_strip t
  conv_rhs => rw [ht]
  exact (items_pad hg hg' _).symm

theorem parseCpulist_ok_iff (U : UnicodeData) (t : Text) (l : List Int) :
    parseCpulist U t = .ok l ↔ Expands U (items t) l ∧ ∀ x ∈ items t, Fits U x := by
  rw [← items_strip, parseCpulist]
  by_cases hnil : Text.strip t = []
  · have hnone : items [] = [] := by decide
    rw [if_pos hnil, hnil, hnone]
    constructor
    · intro h
      obtain rfl := Except.ok.inj h
      exact ⟨.nil, fun x hx => absurd hx List.not_mem_nil⟩
    · rintro ⟨h, -⟩
      cases h
      rfl
  · rw [if_neg hnil]
    exact mapM_parseChunk_iff U _ l

/-! ## Errors -/

theorem parseCpulist_overflow_iff (U : UnicodeData) (t : Text) : parseCpulist U t = .error .overflowError ↔ Overlong U (items t) := by
  rw [← items_strip, parseCpulist]
  by_cases hnil : Text.strip t = []
  · have hnone : items [] = [] := by decide
    rw [if_pos hnil, hnil, hnone]
    exact iff_of_false (by rintro ⟨⟩) (by rintro ⟨⟩)
  · rw [if_neg hnil]
    exact mapM_parseChunk_overflow_iff U _

theorem parseCpulist_error (U : UnicodeData) {t : Text} {e : Exc} (h : parseCpulist U t = .error e) :
    (∃ msg, e = .valueError msg) ∨ e = .overflowError := by
  simp only [parseCpulist] at h
  split_ifs at h
  cases hloop : ((Text.strip t).splitOn 44).mapM (parseChunk U) with
  | error d =>
    rw [hloop] at h
    obtain rfl := Except.error.inj h
    obtain ⟨chunk, -, hchunk⟩ := exists_of_mapM_error hloop
    simp only [parseChunk] at hchunk
    split_ifs at hchunk
    exact parseItem_error U hchunk
  | ok ls =>
    rw [hloop] at h
    cases h

/-! ## The kernel's list -/

theorem isWord_runText (r : ℕ × ℕ) : Text.IsWord (runText r) := by
  have hfirst := Text.isWord_decimal r.1
  rw [runText]
  split_ifs
  · exact hfirst
  · refine ⟨by simp [hfirst.1], fun c hc => ?_⟩
    rcases List.mem_append.1 hc with hc | hc
    · exact hfirst.2 c hc
    · rcases List.mem_cons.1 hc with rfl | hc
      · decide
      · exact (Text.isWord_decimal r.2).2 c hc

theorem decimal_notMem {n c : ℕ} (hc : ¬ (48 ≤ c ∧ c < 58)) : c ∉ Text.decimal n := fun h => hc (Text.digit_of_mem_decimal h)

theorem comma_notMem_runText (r : ℕ × ℕ) : 44 ∉ runText r := by
  have hdigits : ∀ n, 44 ∉ Text.decimal n := fun n => decimal_notMem (by decide)
  rw [runText]
  split_ifs
  · exact hdigits r.1
  · simp [hdigits]

theorem item_runText (U : UnicodeData) {r : ℕ × ℕ} (hr : r.1 ≤ r.2) : Item U (runText r) (Finset.Icc (r.1 : Int) r.2).sort := by
  have hdash : 45 ∉ Text.decimal r.1 := decimal_notMem (by decide)
  rw [runText]
  split_ifs with heq
  · rw [← heq, Finset.Icc_self, Finset.sort_singleton]
    exact .number hdash (Text.int_decimal U r.1)
  · exact .range hdash (Text.int_decimal U r.1) (Text.int_decimal U r.2) (by exact_mod_cast hr)

theorem expands_runs (U : UnicodeData) : ∀ {rs : List (ℕ × ℕ)}, (∀ r ∈ rs, r.1 ≤ r.2) →
    Expands U (rs.map runText) (rs.flatMap fun r => (Finset.Icc (r.1 : Int) r.2).sort)
  | [], _ => .nil
  | r :: rs, h => by
    rw [List.forall_mem_cons] at h
    exact .cons (item_runText U h.1) (expands_runs U h.2)

namespace Runs

variable {s : Finset ℕ} (k : Runs s)

theorem items_text : items k.text = k.runs.map runText := by
  have hstrip : (k.runs.map runText).map Text.strip = k.runs.map runText := by
    rw [List.map_map]
    exact List.map_congr_left fun r _ => Text.strip_word (isWord_runText r)
  have hnone : (k.runs.map runText).filter (· ≠ []) = k.runs.map runText := by
    refine List.filter_eq_self.2 fun x hx => ?_
    obtain ⟨r, -, rfl⟩ := List.mem_map.1 hx
    exact decide_eq_true (isWord_runText r).1
  by_cases hnil : k.runs = []
  · simp [text, hnil, items, Text.strip]
  · have hsplit : k.text.splitOn 44 = k.runs.map runText := by
      refine List.splitOn_intercalate 44 (fun x hx => ?_) (by simpa using hnil)
      obtain ⟨r, -, rfl⟩ := List.mem_map.1 hx
      exact comma_notMem_runText r
    rw [items, hsplit, hstrip, hnone]

/-- The numbers of the runs, one run after the other, are those of the set. -/
theorem flatMap_runs : (k.runs.flatMap fun r => (Finset.Icc (r.1 : Int) r.2).sort) = s.sort.map Int.ofNat := by
  have hruns : (k.runs.flatMap fun r => (Finset.Icc (r.1 : Int) r.2).sort).SortedLT := by
    refine List.Pairwise.sortedLT (List.pairwise_flatMap.2 ⟨fun r _ => (Finset.sortedLT_sort _).pairwise, ?_⟩)
    refine k.apart.imp fun {r r'} h n hn m hm => ?_
    rw [Finset.mem_sort, Finset.mem_Icc] at hn hm
    omega
  have hset : (s.sort.map Int.ofNat).SortedLT :=
    List.Pairwise.sortedLT (List.pairwise_map.2 (s.sortedLT_sort.pairwise.imp fun {n m} h => Int.ofNat_lt.2 h))
  refine hruns.eq_of_mem_iff hset fun n => ?_
  rw [List.mem_flatMap, List.mem_map]
  constructor
  · rintro ⟨r, hr, hn⟩
    rw [Finset.mem_sort, Finset.mem_Icc] at hn
    exact ⟨n.toNat, (Finset.mem_sort _).2 ((k.mem _).2 ⟨r, hr, by omega⟩), by simp; omega⟩
  · rintro ⟨m, hm, rfl⟩
    obtain ⟨r, hr, hle⟩ := (k.mem m).1 ((Finset.mem_sort _).1 hm)
    exact ⟨r, hr, (Finset.mem_sort _).2 (Finset.mem_Icc.2 (by simp; omega))⟩

end Runs

/-- A run of a set is not longer than the set. -/
theorem fits_runs (U : UnicodeData) {s : Finset ℕ} (k : Runs s) (hs : s.card ≤ pySsizeTMax) : ∀ x ∈ k.runs.map runText, Fits U x := by
  intro x hx
  obtain ⟨r, hr, rfl⟩ := List.mem_map.1 hx
  have hitem := item_runText U (k.le r hr)
  have hsub : Finset.Icc r.1 r.2 ⊆ s := fun n hn => (k.mem n).2 ⟨r, hr, Finset.mem_Icc.1 hn⟩
  have hcard := Finset.card_le_card hsub
  rw [Nat.card_Icc] at hcard
  rw [hitem.fits_iff, Finset.length_sort, Int.card_Icc]
  omega

/-- **The list that the kernel prints of a set**, with blanks around it, is read back, unless no list could hold it; any text is
read as what its items stand for, or a `ValueError`, or an `OverflowError` if the first item that is not read is too long. -/
theorem parseCpulist_inverts (U : UnicodeData) :
    (∀ s : Finset ℕ, s.card ≤ pySsizeTMax → ∀ g g' : Text, (∀ b ∈ g, Text.isSpace b = true) → (∀ b ∈ g', Text.isSpace b = true) →
      parseCpulist U (g ++ (kernelList s ++ g')) = .ok (s.sort.map Int.ofNat)) ∧
    ∀ t, (∀ l, parseCpulist U t = .ok l ↔ Expands U (items t) l ∧ ∀ x ∈ items t, Fits U x) ∧
      (parseCpulist U t = .error .overflowError ↔ Overlong U (items t)) ∧
      ∀ e, parseCpulist U t = .error e → (∃ msg, e = .valueError msg) ∨ e = .overflowError := by
  refine ⟨fun s hs g g' hg hg' => ?_, fun t => ⟨parseCpulist_ok_iff U t, parseCpulist_overflow_iff U t, fun e => parseCpulist_error U⟩⟩
  rw [parseCpulist_ok_iff, items_pad hg hg', kernelList, Runs.items_text, ← Runs.flatMap_runs (Runs.of s)]
  exact ⟨expands_runs U (Runs.of s).le, fits_runs U (Runs.of s) hs⟩

theorem parseCpulist_inverts_padded :
    parseCpulist UnicodeData.ascii ([32] ++ (kernelList {0, 1, 2, 3, 8} ++ [10])) = .ok (({0, 1, 2, 3, 8} : Finset ℕ).sort.map Int.ofNat) :=
  (parseCpulist_inverts UnicodeData.ascii).1 {0, 1, 2, 3, 8} (by decide) [32] [10] (by decide) (by decide)

/-- A range of `2 ^ 63` numbers raises an `OverflowError`. -/
theorem parseCpulist_overflows : ¬∀ (U : UnicodeData) (t : Text),
    (∃ l, parseCpulist U t = .ok l ∧ Expands U (items t) l) ∨ ∃ msg, parseCpulist U t = .error (.valueError msg) := by
  intro h
  have hrun : parseCpulist UnicodeData.ascii (text "0-9223372036854775807") = .error .overflowError := by decide
  rcases h UnicodeData.ascii (text "0-9223372036854775807") with ⟨l, hl, -⟩ | ⟨msg, hmsg⟩
  · rw [hrun] at hl
    cases hl
  · rw [hrun] at hmsg
    cases hmsg

end Psutil.Linux
