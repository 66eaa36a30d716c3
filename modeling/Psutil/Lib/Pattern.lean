import Mathlib.Data.List.Basic
import Mathlib.Data.List.TakeWhile

/-!
# Regular expressions of a simple shape

A pattern is a sequence of pieces, each one class of characters taken once or repeated. Repetition is greedy
and backtracks: the longest repetition after which the rest of the pattern matches is the one taken.
-/

namespace Lib

inductive Piece (α : Type) where
  | one (p : α → Bool)
  | star (p : α → Bool)
  | plus (p : α → Bool)
  /-- A group `(p+)`. -/
  | group (p : α → Bool)

abbrev Pattern (α : Type) := List (Piece α)

namespace Pattern

variable {α : Type}

/-- The lengths of a repetition of `p` at the start of a text, longest first. -/
def lengths (p : α → Bool) (s : List α) : List Nat := (List.range ((s.takeWhile p).length + 1)).reverse

/-- The groups of the match at the start of a text, and the text after it. -/
def matchAt : Pattern α → List α → Option (List (List α) × List α)
  | [], s => some ([], s)
  | .one _ :: _, [] => none
  | .one p :: r, c :: s => if p c then matchAt r s else none
  | .star p :: r, s => (lengths p s).findSome? fun n => matchAt r (s.drop n)
  | .plus p :: r, s => (lengths p s).findSome? fun n => if n = 0 then none else matchAt r (s.drop n)
  | .group p :: r, s => (lengths p s).findSome? fun n =>
    if n = 0 then none else (matchAt r (s.drop n)).map fun m => (s.take n :: m.1, m.2)

/-- `findall` from a position on, for a pattern that matches no empty text; the first `skip` characters
belong to the match before. -/
def findallFrom (pat : Pattern α) : (skip : Nat) → List α → List (List (List α))
  | _, [] => []
  | skip + 1, _ :: s => findallFrom pat skip s
  | 0, c :: s => match pat.matchAt (c :: s) with
    | some (groups, rest) => groups :: findallFrom pat (s.length - rest.length) s
    | none => findallFrom pat 0 s

/-- The groups of the matches, from left to right, without overlaps. -/
def findall (pat : Pattern α) (s : List α) : List (List (List α)) := pat.findallFrom 0 s

/-- The groups of the first match, for a pattern that matches no empty text. -/
def search (pat : Pattern α) : List α → Option (List (List α))
  | [] => none
  | c :: s => match pat.matchAt (c :: s) with
    | some (groups, _) => some groups
    | none => search pat s

/-- `sub` from a position on; the first `skip` characters belong to the match before. -/
def subFrom (pat : Pattern α) (repl : List α) : (skip : Nat) → List α → List α
  | _, [] => []
  | skip + 1, _ :: s => subFrom pat repl skip s
  | 0, c :: s => match pat.matchAt (c :: s) with
    | some (_, rest) => repl ++ subFrom pat repl (s.length - rest.length) s
    | none => c :: subFrom pat repl 0 s

/-- The text with `repl` for every match, for a pattern that matches no empty text. -/
def sub (pat : Pattern α) (repl s : List α) : List α := pat.subFrom repl 0 s

theorem head?_findall (pat : Pattern α) (s : List α) : (pat.findall s).head? = pat.search s := by
  induction s with
  | nil => rfl
  | cons c s ih =>
    rw [findall, findallFrom, search]
    cases h : pat.matchAt (c :: s) with
    | none => exact ih
    | some m => rfl

def isGroup : Piece α → Bool
  | .group _ => true
  | _ => false

/-- A match has the groups of the pattern. -/
theorem length_of_matchAt : ∀ {pat : Pattern α} {s : List α} {m : List (List α) × List α}, pat.matchAt s = some m →
    m.1.length = pat.countP isGroup
  | [], s, m, h => by
    rw [matchAt, Option.some.injEq] at h
    rw [← h]
    rfl
  | .one p :: r, [], m, h => by cases h
  | .one p :: r, c :: s, m, h => by
    rw [matchAt] at h
    split_ifs at h
    rw [length_of_matchAt h]
    rfl
  | .star p :: r, s, m, h => by
    obtain ⟨n, -, hn⟩ := List.exists_of_findSome?_eq_some h
    rw [length_of_matchAt hn]
    rfl
  | .plus p :: r, s, m, h => by
    obtain ⟨n, -, hn⟩ := List.exists_of_findSome?_eq_some h
    split_ifs at hn
    rw [length_of_matchAt hn]
    rfl
  | .group p :: r, s, m, h => by
    obtain ⟨n, -, hn⟩ := List.exists_of_findSome?_eq_some h
    split_ifs at hn
    obtain ⟨m', hm', rfl⟩ := Option.map_eq_some_iff.1 hn
    rw [List.length_cons, length_of_matchAt hm', List.countP_cons_of_pos rfl]

theorem length_of_search {pat : Pattern α} {groups : List (List α)} : ∀ {s : List α}, pat.search s = some groups →
    groups.length = pat.countP isGroup
  | c :: s, h => by
    rw [search] at h
    cases hm : pat.matchAt (c :: s) with
    | none =>
      rw [hm] at h
      exact length_of_search h
    | some m =>
      rw [hm] at h
      obtain rfl : m.1 = groups := Option.some.inj h
      exact length_of_matchAt hm

/-! ## Repetitions that cannot give a character back -/

variable {p : α → Bool} {r : Pattern α}

theorem takeWhile_cons_of_neg {c : α} (hc : p c = false) (x y : List α) :
    (x ++ c :: y).takeWhile p = x.takeWhile p := by
  induction x with
  | nil => simp [hc]
  | cons d x ih => cases hd : p d <;> simp [hd, ih]

theorem dropWhile_cons_of_neg {c : α} (hc : p c = false) (x y : List α) :
    (x ++ c :: y).dropWhile p = x.dropWhile p ++ c :: y := by
  induction x with
  | nil => simp [hc]
  | cons d x ih => cases hd : p d <;> simp [hd, ih]

theorem drop_of_lt_takeWhile : ∀ {s : List α} {n : Nat}, n < (s.takeWhile p).length → ∃ c rest, s.drop n = c :: rest ∧ p c = true
  | c :: s, 0, h => by
    cases hc : p c with
    | true => exact ⟨c, s, rfl, hc⟩
    | false => simp [hc] at h
  | c :: s, n + 1, h => by
    cases hc : p c with
    | true =>
      rw [List.takeWhile_cons_of_pos hc, List.length_cons] at h
      exact @drop_of_lt_takeWhile s n (Nat.lt_of_succ_lt_succ h)
    | false => simp [hc] at h

/-- Only the longest repetition counts, when no shorter one goes on. -/
theorem findSome?_lengths {β : Type} {f : Nat → Option β} {s : List α} (h : ∀ n < (s.takeWhile p).length, f n = none) :
    (lengths p s).findSome? f = f (s.takeWhile p).length := by
  rw [lengths, List.range_succ, List.reverse_append, List.reverse_singleton, List.singleton_append, List.findSome?_cons]
  cases hf : f (s.takeWhile p).length with
  | some b => rfl
  | none =>
    rw [List.findSome?_eq_none_iff]
    exact fun n hn => h n (List.mem_range.1 (List.mem_reverse.1 hn))

/-- The rest of the pattern does not begin with a character of the repetition. -/
def Apart (p : α → Bool) (r : Pattern α) : Prop := ∀ c s, p c = true → r.matchAt (c :: s) = none

theorem matchAt_drop_of_lt (h : Apart p r) {s : List α} {n : Nat} (hn : n < (s.takeWhile p).length) : r.matchAt (s.drop n) = none := by
  obtain ⟨c, rest, hdrop, hc⟩ := drop_of_lt_takeWhile hn
  rw [hdrop]
  exact h c rest hc

theorem drop_length_takeWhile (s : List α) : s.drop (s.takeWhile p).length = s.dropWhile p := by
  have hdrop : (s.takeWhile p ++ s.dropWhile p).drop (s.takeWhile p).length = s.dropWhile p := List.drop_left
  rwa [List.takeWhile_append_dropWhile] at hdrop

theorem take_length_takeWhile (s : List α) : s.take (s.takeWhile p).length = s.takeWhile p := by
  have htake : (s.takeWhile p ++ s.dropWhile p).take (s.takeWhile p).length = s.takeWhile p := List.take_left
  rwa [List.takeWhile_append_dropWhile] at htake

theorem matchAt_plus (h : Apart p r) (s : List α) :
    matchAt (.plus p :: r) s = if s.takeWhile p = [] then none else matchAt r (s.dropWhile p) := by
  rw [matchAt, findSome?_lengths fun n hn => by rw [matchAt_drop_of_lt h hn, ite_self], drop_length_takeWhile]
  simp only [List.length_eq_zero_iff]

theorem matchAt_group (h : Apart p r) (s : List α) : matchAt (.group p :: r) s =
    if s.takeWhile p = [] then none else (matchAt r (s.dropWhile p)).map fun m => (s.takeWhile p :: m.1, m.2) := by
  rw [matchAt, findSome?_lengths fun n hn => by rw [matchAt_drop_of_lt h hn, Option.map_none, ite_self], drop_length_takeWhile,
    take_length_takeWhile]
  simp only [List.length_eq_zero_iff]

/-- A group at the end takes all it can. -/
theorem matchAt_group_last (s : List α) : matchAt [.group p] s =
    if s.takeWhile p = [] then none else some ([s.takeWhile p], s.dropWhile p) := by
  have hlongest : ∀ k, ((List.range (k + 1)).reverse.findSome? fun n =>
      if n = 0 then none else (matchAt ([] : Pattern α) (s.drop n)).map fun m => (s.take n :: m.1, m.2)) =
      if k = 0 then none else some ([s.take k], s.drop k) := by
    intro k
    rw [List.range_succ, List.reverse_append, List.reverse_singleton, List.singleton_append, List.findSome?_cons]
    cases k with
    | zero => rfl
    | succ k => rfl
  rw [matchAt, lengths, hlongest, drop_length_takeWhile, take_length_takeWhile]
  simp only [List.length_eq_zero_iff]

/-! ## Lines -/

/-- What the pattern finds before a separator `c` does not depend on what comes after it. -/
def Local (pat : Pattern α) (c : α) (y : List α) : Prop :=
  ∀ x, c ∉ x → (pat.matchAt (x ++ c :: y)).map Prod.fst = (pat.matchAt x).map Prod.fst

variable {c : α} {y : List α}

theorem Local.one (hp : p c = false) (hr : Local r c y) : Local (.one p :: r) c y := by
  intro x hx
  cases x with
  | nil => simp [matchAt, hp]
  | cons d x =>
    rw [List.cons_append, matchAt, matchAt]
    split_ifs
    · exact hr x fun h => hx (List.mem_cons_of_mem d h)
    · rfl

theorem Local.group_last (hp : p c = false) : Local [.group p] c y := by
  intro x _
  rw [matchAt_group_last, matchAt_group_last, takeWhile_cons_of_neg hp]
  split_ifs <;> rfl

theorem Local.group (hp : p c = false) (hapart : Apart p r) (hr : Local r c y) : Local (.group p :: r) c y := by
  intro x hx
  have hrest := hr (x.dropWhile p) fun h => hx (List.dropWhile_subset p h)
  rw [matchAt_group hapart, matchAt_group hapart, takeWhile_cons_of_neg hp, dropWhile_cons_of_neg hp]
  split_ifs
  · rfl
  · have hgroups : ∀ o : Option (List (List α) × List α), (o.map fun m => (x.takeWhile p :: m.1, m.2)).map Prod.fst =
        (o.map Prod.fst).map (x.takeWhile p :: ·) := by
      intro o
      cases o <;> rfl
    rw [hgroups, hgroups, hrest]

/-- A repetition may go over the separator, if the rest of the pattern does not match there. -/
theorem Local.plus (hapart : Apart p r) (hr : Local r c y) (hend : r.matchAt [] = none) (hover : r.matchAt (y.dropWhile p) = none) :
    Local (.plus p :: r) c y := by
  intro x hx
  rw [matchAt_plus hapart, matchAt_plus hapart]
  by_cases hall : ∀ d ∈ x, p d = true
  · have hleft : (if x.takeWhile p = [] then none else r.matchAt (x.dropWhile p)) = none := by
      rw [List.dropWhile_eq_nil_iff.2 hall, hend, ite_self]
    have hright : (x ++ c :: y).dropWhile p = (c :: y).dropWhile p := List.dropWhile_append_of_pos hall
    rw [hleft, hright]
    cases hc : p c with
    | true => rw [List.dropWhile_cons_of_pos hc, hover, ite_self]
    | false =>
      have hzero := hr [] List.not_mem_nil
      rw [hend, List.nil_append, Option.map_none, Option.map_eq_none_iff] at hzero
      rw [List.dropWhile_cons_of_neg (by simp [hc]), hzero, ite_self]
  · have hsplit : (x ++ c :: y).takeWhile p = x.takeWhile p ∧ (x ++ c :: y).dropWhile p = x.dropWhile p ++ c :: y := by
      push Not at hall
      obtain ⟨d, hd, hpd⟩ := hall
      obtain ⟨u, v, rfl⟩ := List.append_of_mem hd
      have hpd' : p d = false := by simpa using hpd
      rw [List.append_assoc, List.cons_append, takeWhile_cons_of_neg hpd', takeWhile_cons_of_neg hpd', dropWhile_cons_of_neg hpd',
        dropWhile_cons_of_neg hpd', List.append_assoc]
      exact ⟨rfl, rfl⟩
    rw [hsplit.1, hsplit.2]
    split_ifs
    · rfl
    · exact hr _ fun h => hx (List.dropWhile_subset p h)

/-- The first match is in the first line that has one. -/
theorem search_append {pat : Pattern α} (hpat : Local pat c y) (hend : pat.matchAt [] = none) : ∀ {x : List α}, c ∉ x →
    pat.search (x ++ c :: y) = (pat.search x).or (pat.search y)
  | [], _ => by
    have hzero := hpat [] List.not_mem_nil
    rw [hend, List.nil_append, Option.map_none, Option.map_eq_none_iff] at hzero
    simp [search, hzero]
  | d :: x, hx => by
    have hmatch := hpat (d :: x) hx
    rw [List.mem_cons, not_or] at hx
    rw [List.cons_append] at hmatch ⊢
    rw [search, search]
    cases h : pat.matchAt (d :: x) with
    | none =>
      rw [h, Option.map_none, Option.map_eq_none_iff] at hmatch
      rw [hmatch]
      exact search_append hpat hend hx.2
    | some m =>
      rw [h, Option.map_some, Option.map_eq_some_iff] at hmatch
      obtain ⟨m', hm', hfst⟩ := hmatch
      rw [hm']
      exact congrArg some hfst

/-- Nothing is found where no character begins a match. -/
theorem search_skip : ∀ {x : List α}, (∀ d ∈ x, p d = false) → ∀ s : List α, search (.one p :: r) (x ++ s) = search (.one p :: r) s
  | [], _, _ => rfl
  | d :: x, h, s => by
    have hd : matchAt (.one p :: r) (d :: (x ++ s)) = none := by
      simp [matchAt, h d List.mem_cons_self]
    rw [List.cons_append, search, hd]
    exact search_skip (fun e he => h e (List.mem_cons_of_mem d he)) s

theorem findSome?_of_unique {β : Type} {f : α → Option β} {a : α} : ∀ {l : List α}, a ∈ l → (∀ b ∈ l, b ≠ a → f b = none) →
    l.findSome? f = f a
  | b :: l, ha, h => by
    rw [List.findSome?_cons]
    by_cases hb : b = a
    · rw [hb]
      cases hf : f a with
      | some c => rfl
      | none =>
        rw [List.findSome?_eq_none_iff]
        intro c hc
        by_cases hca : c = a
        · rw [hca, hf]
        · exact h c (List.mem_cons_of_mem b hc) hca
    · rw [h b List.mem_cons_self hb]
      exact findSome?_of_unique ((List.mem_cons.1 ha).resolve_left (Ne.symm hb)) fun c hc => h c (List.mem_cons_of_mem b hc)

/-! ## All matches -/

theorem suffix_of_matchAt : ∀ {pat : Pattern α} {s : List α} {m : List (List α) × List α}, pat.matchAt s = some m → m.2 <:+ s
  | [], s, m, h => by
    rw [matchAt, Option.some.injEq] at h
    exact h ▸ List.suffix_rfl
  | .one p :: r, c :: s, m, h => by
    rw [matchAt] at h
    split_ifs at h
    exact (suffix_of_matchAt h).trans (List.suffix_cons c s)
  | .star p :: r, s, m, h => by
    obtain ⟨n, -, hn⟩ := List.exists_of_findSome?_eq_some h
    exact (suffix_of_matchAt hn).trans (List.drop_suffix n s)
  | .plus p :: r, s, m, h => by
    obtain ⟨n, -, hn⟩ := List.exists_of_findSome?_eq_some h
    split_ifs at hn
    exact (suffix_of_matchAt hn).trans (List.drop_suffix n s)
  | .group p :: r, s, m, h => by
    obtain ⟨n, -, hn⟩ := List.exists_of_findSome?_eq_some h
    split_ifs at hn
    obtain ⟨m', hm', rfl⟩ := Option.map_eq_some_iff.1 hn
    exact (suffix_of_matchAt hm').trans (List.drop_suffix n s)

theorem findallFrom_eq_findall_drop (pat : Pattern α) : ∀ (skip : Nat) (s : List α), pat.findallFrom skip s = pat.findall (s.drop skip)
  | 0, _ => rfl
  | _ + 1, [] => rfl
  | skip + 1, _ :: s => findallFrom_eq_findall_drop pat skip s

theorem findall_cons_none {pat : Pattern α} {d : α} {s : List α} (h : pat.matchAt (d :: s) = none) :
    pat.findall (d :: s) = pat.findall s := by
  rw [findall, findallFrom, h]
  rfl

theorem findall_cons_some {pat : Pattern α} {d : α} {s : List α} {m : List (List α) × List α} (h : pat.matchAt (d :: s) = some m)
    (hrest : m.2 <:+ s) : pat.findall (d :: s) = m.1 :: pat.findall m.2 := by
  obtain ⟨u, rfl⟩ := hrest
  have hskip : (u ++ m.2).length - m.2.length = u.length := by
    rw [List.length_append, Nat.add_sub_cancel]
  rw [findall, findallFrom, h]
  simp only [hskip, findallFrom_eq_findall_drop, List.drop_left]

/-- Nothing is found where no character begins a match. -/
theorem findall_skip : ∀ {x : List α}, (∀ d ∈ x, p d = false) → ∀ s : List α, findall (.one p :: r) (x ++ s) = findall (.one p :: r) s
  | [], _, _ => rfl
  | d :: x, h, s => by
    have hd : matchAt (.one p :: r) (d :: (x ++ s)) = none := by
      simp [matchAt, h d List.mem_cons_self]
    rw [List.cons_append, findall_cons_none hd]
    exact findall_skip (fun e he => h e (List.mem_cons_of_mem d he)) s

/-- The rest of a text, at the end of a line. -/
def LineEnd (c : α) (y : List α) : Prop := ∀ d y', y = d :: y' → d = c

/-- The pattern reads a line alone, whatever comes after it. -/
def Lined (r : Pattern α) (c : α) (l : List α) : Prop :=
  ∀ y, LineEnd c y → r.matchAt (l ++ y) = (r.matchAt l).map fun m => (m.1, m.2 ++ y)

/-- **Line by line**: a pattern that begins with the separator finds what the rest of it finds at the beginning of each line. -/
theorem findall_lines [DecidableEq α] {c : α} : ∀ {ls : List (List α)}, (∀ l ∈ ls, c ∉ l ∧ Lined r c l) →
    findall (.one (· = c) :: r) (ls.flatMap (c :: ·)) = ls.filterMap fun l => (r.matchAt l).map Prod.fst
  | [], _ => rfl
  | l :: ls, h => by
    obtain ⟨hc, hlined⟩ := h l List.mem_cons_self
    have ih := findall_lines fun l' hl' => h l' (List.mem_cons_of_mem l hl')
    have hother : ∀ {u : List α}, u <:+ l → ∀ d ∈ u, decide (d = c) = false :=
      fun hu d hd => decide_eq_false fun hdc => hc (hdc ▸ hu.subset hd)
    have hend : LineEnd c (ls.flatMap (c :: ·)) := by
      intro d y hy
      cases ls with
      | nil => cases hy
      | cons l' ls => exact (List.cons.inj hy).1.symm
    have hmatch : matchAt (.one (· = c) :: r) (c :: (l ++ ls.flatMap (c :: ·))) =
        (r.matchAt l).map fun m => (m.1, m.2 ++ ls.flatMap (c :: ·)) := by
      rw [← hlined _ hend, matchAt, if_pos (by simp)]
    rw [List.flatMap_cons, List.cons_append]
    cases hm : r.matchAt l with
    | none =>
      rw [hm] at hmatch
      rw [findall_cons_none hmatch, findall_skip (hother List.suffix_rfl), ih, List.filterMap_cons_none (by rw [hm]; rfl)]
    | some m =>
      obtain ⟨u, hu⟩ := suffix_of_matchAt hm
      rw [hm] at hmatch
      rw [findall_cons_some hmatch ⟨u, by rw [← List.append_assoc, hu]⟩, findall_skip (hother ⟨u, hu⟩), ih,
        List.filterMap_cons_some (by rw [hm]; rfl)]

/-- A character at which a repetition may end stands before its end. -/
theorem mem_takeWhile_of_drop {v rest : List α} {d : α} {k : Nat} (hdrop : v.drop k = d :: rest) (hd : p d = true)
    (hk : k ≤ (v.takeWhile p).length) : d ∈ v.takeWhile p := by
  rcases Nat.lt_or_eq_of_le hk with hlt | rfl
  · have hcut : (v.takeWhile p).drop k ++ v.dropWhile p = d :: rest := by
      rw [← hdrop, ← List.drop_append_of_le_length hk, List.takeWhile_append_dropWhile]
    cases hhead : (v.takeWhile p).drop k with
    | nil => exact absurd (List.drop_eq_nil_iff.1 hhead) (Nat.not_le.2 hlt)
    | cons e rest' =>
      rw [hhead, List.cons_append] at hcut
      rw [← (List.cons.inj hcut).1]
      exact List.mem_of_mem_drop (i := k) (by rw [hhead]; exact List.mem_cons_self)
  · rw [drop_length_takeWhile] at hdrop
    have hhead := List.head?_dropWhile_not p v
    rw [hdrop] at hhead
    simp [hd] at hhead

/-- A repetition up to a character that comes once. -/
theorem matchAt_star_one [DecidableEq α] {c : α} {u v : List α} (hu : ∀ d ∈ u, p d = true ∧ d ≠ c) (hv : c ∉ v.takeWhile p) :
    matchAt (.star p :: .one (· = c) :: r) (u ++ c :: v) = matchAt r v := by
  have htake : (u ++ c :: v).takeWhile p = u ++ (c :: v).takeWhile p := List.takeWhile_append_of_pos fun d hd => (hu d hd).1
  have hmem : u.length ∈ lengths p (u ++ c :: v) := by
    rw [lengths, List.mem_reverse, List.mem_range, htake, List.length_append]
    omega
  have hother : ∀ n ∈ lengths p (u ++ c :: v), n ≠ u.length → matchAt (.one (· = c) :: r) ((u ++ c :: v).drop n) = none := by
    intro n hn hne
    rw [lengths, List.mem_reverse, List.mem_range, htake, List.length_append] at hn
    rcases Nat.lt_or_gt_of_ne hne with hlt | hgt
    · -- before it: a character of `u`
      cases hdrop : u.drop n with
      | nil => exact absurd (List.drop_eq_nil_iff.1 hdrop) (Nat.not_le.2 hlt)
      | cons d rest =>
        have hd : d ∈ u := List.mem_of_mem_drop (i := n) (by rw [hdrop]; exact List.mem_cons_self)
        rw [List.drop_append_of_le_length hlt.le, hdrop, List.cons_append, matchAt, if_neg (by simpa using (hu d hd).2)]
    · -- behind it
      obtain ⟨k, rfl⟩ : ∃ k, n = u.length + (k + 1) := ⟨n - u.length - 1, by omega⟩
      rw [List.drop_length_add_append, List.drop_succ_cons]
      cases hdrop : v.drop k with
      | nil => rfl
      | cons d rest =>
        rw [matchAt, if_neg]
        intro hdc
        rw [decide_eq_true_eq] at hdc
        cases hc : p c with
        | true =>
          rw [List.takeWhile_cons_of_pos hc, List.length_cons] at hn
          exact hv (hdc ▸ mem_takeWhile_of_drop hdrop (hdc ▸ hc) (by omega))
        | false =>
          rw [List.takeWhile_cons_of_neg (by simp [hc]), List.length_nil] at hn
          omega
  rw [matchAt, findSome?_of_unique hmem hother, List.drop_left, matchAt, if_pos (by simp)]

/-! ## Labels -/

theorem prefix_of_prefix_append {w u v : List α} (hw : c ∉ w) (h : w <+: u ++ c :: v) : w <+: u := by
  rcases List.prefix_or_prefix_of_prefix h (List.prefix_append u (c :: v)) with h' | ⟨t, rfl⟩
  · exact h'
  · cases t with
    | nil =>
      simp
    | cons d t =>
      rw [List.prefix_append_right_inj, List.cons_prefix_cons] at h
      exact absurd (by simp [h.1]) hw

/-- A text that stands for itself. -/
def literal (w : List α) [DecidableEq α] : Pattern α := w.map fun c => .one (· = c)

variable [DecidableEq α]

theorem matchAt_literal_append (w s : List α) : matchAt (literal w ++ r) (w ++ s) = matchAt r s := by
  induction w with
  | nil => rfl
  | cons c w ih => simpa [literal, matchAt] using ih

theorem prefix_of_matchAt : ∀ {w s : List α}, matchAt (literal w ++ r) s ≠ none → w <+: s
  | [], s, _ => List.nil_prefix
  | c :: w, [], h => absurd rfl h
  | c :: w, d :: s, h => by
    rw [literal, List.map_cons, List.cons_append, matchAt] at h
    split_ifs at h with hdc
    · rw [List.cons_prefix_cons]
      exact ⟨(of_decide_eq_true hdc).symm, prefix_of_matchAt h⟩
    · exact absurd rfl h

theorem Local.literal (hr : Local r c y) : ∀ {w : List α}, c ∉ w → Local (Pattern.literal w ++ r) c y
  | [], _ => hr
  | d :: w, h => by
    rw [List.mem_cons, not_or] at h
    exact Local.one (by simpa using h.1) (Local.literal hr h.2)

theorem eq_of_common_start {w u v : List α} (hw : c ∉ w) (hu : c ∉ u) (h : w ++ [c] <+: u ++ c :: v) : w = u := by
  obtain ⟨t, ht⟩ := h
  have htake : ∀ {x : List α}, c ∉ x → ∀ z, (x ++ c :: z).takeWhile (· ≠ c) = x := by
    intro x hx z
    rw [takeWhile_cons_of_neg (by simp), List.takeWhile_eq_self_iff]
    intro d hd
    simpa using fun hdc : d = c => hx (hdc ▸ hd)
  rw [List.append_assoc, List.singleton_append] at ht
  rw [← htake hw t, ht, htake hu v]

theorem search_of_notMem {w : List α} : ∀ {s : List α}, c ∉ s → search (literal (w ++ [c]) ++ r) s = none
  | [], _ => rfl
  | d :: s, h => by
    have hmatch : matchAt (literal (w ++ [c]) ++ r) (d :: s) = none := by
      by_contra hne
      exact h ((prefix_of_matchAt hne).subset (by simp))
    rw [search, hmatch]
    exact search_of_notMem fun hc => h (List.mem_cons_of_mem d hc)

/-- A line of a label, a separator and a text without it: what is found is found after a label that ends like the pattern's. -/
theorem search_label {w v : List α} (hne : w ≠ []) (hw : c ∉ w) (hv : c ∉ v) : ∀ {u : List α}, c ∉ u →
    search (literal (w ++ [c]) ++ r) (u ++ c :: v) = if w <:+ u then (matchAt r v).map Prod.fst else none
  | [], hu => by
    have hmatch : matchAt (literal (w ++ [c]) ++ r) (c :: v) = none := by
      by_contra h
      exact hne (eq_of_common_start hw hu (prefix_of_matchAt h))
    rw [List.nil_append, search, hmatch, if_neg (by simpa using hne)]
    exact search_of_notMem hv
  | d :: u, hu => by
    have ih := @search_label w v hne hw hv u fun h => hu (List.mem_cons_of_mem d h)
    rw [List.cons_append, search]
    by_cases heq : w = d :: u
    · have hmatch : matchAt (literal (w ++ [c]) ++ r) (d :: (u ++ c :: v)) = matchAt r v := by
        rw [← List.cons_append, ← heq, show w ++ c :: v = (w ++ [c]) ++ v by simp]
        exact matchAt_literal_append _ v
      have hlonger : ¬w <:+ u := by
        intro h
        have hle := h.length_le
        rw [heq, List.length_cons] at hle
        omega
      rw [hmatch, ih, if_neg hlonger, if_pos (heq ▸ List.suffix_rfl)]
      cases matchAt r v <;> rfl
    · have hmatch : matchAt (literal (w ++ [c]) ++ r) (d :: (u ++ c :: v)) = none := by
        by_contra h
        exact heq (eq_of_common_start hw hu (prefix_of_matchAt h))
      rw [hmatch]
      simp only [List.suffix_cons_iff, heq, false_or]
      exact ih

end Pattern

end Lib
