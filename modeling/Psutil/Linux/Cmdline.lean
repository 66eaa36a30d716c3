import Psutil.Common.Text

/-!
# `Process.cmdline()` and `Process.environ()` on Linux (`_pslinux.py:1774-1804`)

| here | there |
| --- | --- |
| `cmdline`, `environ` | the methods, on the content of the file |

The files are opened as text, so that `\r` and `\r\n` in a string become `\n`. `cmdline_environ_iff`: that is all that is lost, of any
command line with two arguments or more and of any environment.
-/

namespace Psutil.Linux

open Lib Common

/-- What `cmdline()` makes of a text that is not empty. -/
def splitCmdline (data : Text) : List Text :=
  -- processes that change their command line use blanks
  let sep := if data.getLast? = some 0 then 0 else 32
  let data := if data.getLast? = some sep then data.dropLast else data
  let cmdline := data.splitOn sep
  if sep = 0 ∧ cmdline.length = 1 ∧ 32 ∈ data then data.splitOn 32 else cmdline

/-- `data` is what the file has, or the error of reading it, and `zombie` what `_raise_if_zombie()` raises. -/
def cmdline (C : FsEncoding) (zombie : Option Exc) (data : Except Exc Bytes) : Except Exc (List Text) :=
  match data with
  | .error e => .error e
  | .ok data =>
    if C.readText data ≠ [] then .ok (splitCmdline (C.readText data))
    else match zombie with
      | some e => .error e
      | none => .ok []

/-- The dictionary is there if the parser comes to an end. -/
def environ (C : FsEncoding) (data : Except Exc Bytes) : Except Exc (Option (Dict Text Text)) :=
  data.map fun data => parseEnvironBlock textDelims none (C.readText data)

-- a title that its process has set
example : cmdline .utf8 none (.ok (ascii "nginx: master process\x00")) =
    .ok [text "nginx:", text "master", text "process"] := by decide

/-! ## The command line -/

/-- A text that ends with a NUL. -/
theorem splitCmdline_nul (data : Text) : splitCmdline (data ++ [0]) =
    if (data.splitOn 0).length = 1 ∧ 32 ∈ data then data.splitOn 32 else data.splitOn 0 := by
  simp [splitCmdline]

theorem cmdline_ok (C : FsEncoding) (zombie : Option Exc) {data : Bytes} (h : C.readText data ≠ []) :
    cmdline C zombie (.ok data) = .ok (splitCmdline (C.readText data)) :=
  if_pos h

/-- Two arguments or more are what is between the NULs. -/
theorem cmdline_terminate (C : FsEncoding) (zombie : Option Exc) {argv : List Bytes} (hlen : 2 ≤ argv.length)
    (hnul : ∀ a ∈ argv, 0 ∉ a) : cmdline C zombie (.ok (terminate 0 argv)) = .ok (argv.map C.readText) := by
  rcases List.eq_nil_or_concat argv with rfl | ⟨init, last, rfl⟩
  · simp at hlen
  rw [List.concat_eq_append] at hlen hnul ⊢
  have hnul' : ∀ a ∈ init ++ [last], 0 ∉ C.readText a := fun a ha h => hnul a ha (C.mem_of_mem_readText (b := 0) (by decide) (by decide) h)
  have hdata : C.readText (terminate 0 (init ++ [last])) = (terminate 0 (init.map C.readText) ++ C.readText last) ++ [0] := by
    rw [C.readText_terminate, List.map_append, terminate_append]
    simp [terminate]
  have hsplit : (terminate 0 (init.map C.readText) ++ C.readText last).splitOn 0 = (init ++ [last]).map C.readText := by
    rw [splitOn_terminate_append (hnul' last (by simp)), List.map_append]
    · rfl
    · intro x hx
      obtain ⟨a, ha, rfl⟩ := List.mem_map.1 hx
      exact hnul' a (List.mem_append_left _ ha)
  have hone : ¬ ((init ++ [last]).map C.readText).length = 1 := by
    rw [List.length_map]
    omega
  rw [cmdline_ok C zombie (by simp [hdata]), hdata, splitCmdline_nul, hsplit, if_neg fun h => hone h.1]

/-- The first argument; of an only one, what is before its first blank. -/
def shownArg (arg : Text) (alone : Bool) : Text := if alone then arg.takeWhile (· ≠ 32) else arg

theorem cmdline_first (C : FsEncoding) (zombie : Option Exc) {arg : Bytes} {args : List Bytes} (hnul : ∀ a ∈ arg :: args, 0 ∉ a) :
    ∃ rest, cmdline C zombie (.ok (terminate 0 (arg :: args))) =
      .ok (universalNewlines (shownArg (C.decode arg) args.isEmpty) :: rest) := by
  cases args with
  | cons a args => exact ⟨_, cmdline_terminate C zombie (by simp) hnul⟩
  | nil =>
    have hzero : 0 ∉ C.readText arg := fun h =>
      hnul arg List.mem_cons_self (C.mem_of_mem_readText (b := 0) (by decide) (by decide) h)
    have hdata : C.readText (terminate 0 [arg]) = C.readText arg ++ [0] := by
      rw [C.readText_terminate]
      simp [terminate]
    have hshown : universalNewlines (shownArg (C.decode arg) true) = (C.readText arg).takeWhile (· ≠ 32) :=
      (takeWhile_universalNewlines (by decide) (by decide) _).symm
    rw [cmdline_ok C zombie (by simp [hdata]), hdata, splitCmdline_nul, splitOn_of_notMem hzero, List.isEmpty_nil, hshown]
    by_cases hblank : 32 ∈ C.readText arg
    · obtain ⟨x, y, hxy, hx⟩ := List.eq_append_cons_of_mem hblank
      have htake : (C.readText arg).takeWhile (· ≠ 32) = x := by
        rw [hxy]
        exact congrArg Prod.fst (cutAt_append hx y)
      rw [if_pos ⟨rfl, hblank⟩, htake, hxy, splitOn_append_cons, splitOn_of_notMem hx]
      exact ⟨_, rfl⟩
    · have htake : (C.readText arg).takeWhile (· ≠ 32) = C.readText arg :=
        List.takeWhile_eq_self_iff.2 fun d hd => decide_eq_true fun h => hblank (h ▸ hd)
      rw [if_neg fun h => hblank h.2, htake]
      exact ⟨[], rfl⟩

/-! ## The environment -/

theorem isEnviron_read (C : FsEncoding) {env : List (Bytes × Bytes)} (h : IsEnviron byteDelims env) :
    IsEnviron textDelims (env.map fun p => (C.readText p.1, C.readText p.2)) := by
  constructor
  · rintro q hq
    obtain ⟨p, hp, rfl⟩ := List.mem_map.1 hq
    obtain ⟨hne, heq, hnul⟩ := h.key p hp
    exact ⟨mt C.readText_eq_nil.1 hne, fun hc => heq (C.mem_of_mem_readText (b := byte '=') (by decide) (by decide) hc),
      fun hc => hnul (C.mem_of_mem_readText (b := 0) (by decide) (by decide) hc)⟩
  · rintro q hq hc
    obtain ⟨p, hp, rfl⟩ := List.mem_map.1 hq
    exact h.value p hp (C.mem_of_mem_readText (b := 0) (by decide) (by decide) hc)

/-- An environment is read one variable after the other. -/
theorem environ_block (C : FsEncoding) {env : List (Bytes × Bytes)} (h : IsEnviron byteDelims env) :
    environ C (.ok (block byteDelims env)) = .ok (some (Dict.update ∅ (env.map fun p => (C.readText p.1, C.readText p.2)))) := by
  have hblock : C.readText (block byteDelims env) = block textDelims (env.map fun p => (C.readText p.1, C.readText p.2)) := by
    rw [block_eq_terminate, block_eq_terminate, List.map_map]
    refine (C.readText_terminate _).trans (congrArg (terminate 0) ?_)
    rw [List.map_map]
    exact List.map_congr_left fun p _ => C.readText_append (b := byte '=') (by decide) (by decide) (by decide) p.1 p.2
  have hassign := assignments_block textDelims none (isEnviron_read C h) (List.not_mem_nil (a := textDelims.nul))
  rw [List.append_nil] at hassign
  rw [environ, Except.map, hblock, parseEnvironBlock_assignments, hassign, List.map_map]
  rfl

/-- The environment as it is. -/
def decoded (C : FsEncoding) (env : List (Bytes × Bytes)) : Dict Text Text :=
  Dict.update ∅ (env.map fun p => (C.decode p.1, C.decode p.2))

/-- A variable that is read as it is has no `\r`. -/
theorem cr_notMem_of_read (C : FsEncoding) {env : List (Bytes × Bytes)} {p : Bytes × Bytes}
    (h : (C.decode p.1, C.decode p.2) ∈
      (Dict.update ∅ (env.map fun p => (C.readText p.1, C.readText p.2)) : Dict Text Text).items) : 13 ∉ p.1 ∧ 13 ∉ p.2 := by
  rcases Dict.mem_or_of_get?_update (Dict.mem_items.1 h) with hread | hempty
  · obtain ⟨q, -, hq⟩ := List.mem_map.1 hread
    obtain ⟨hkey, hvalue⟩ := Prod.mk.inj hq
    exact ⟨C.cr_notMem_of_readText hkey, C.cr_notMem_of_readText hvalue⟩
  · cases hempty

/-- Without a `\r` in a name, every variable has its name. -/
theorem read_names (C : FsEncoding) {env : List (Bytes × Bytes)}
    (h : ∀ p ∈ (Dict.update ∅ env : Dict Bytes Bytes).items, 13 ∉ p.1) :
    env.map (fun p => (C.readText p.1, C.readText p.2)) = env.map fun p => (C.decode p.1, C.readText p.2) := by
  refine List.map_congr_left fun p hp => ?_
  have hmem : p.1 ∈ (Dict.update ∅ env : Dict Bytes Bytes) := Dict.mem_update.2 (Or.inl (List.mem_map_of_mem hp))
  obtain ⟨value, hvalue⟩ := Dict.mem_iff_get?.1 hmem
  rw [C.readText_eq_decode.2 (h _ (Dict.mem_items.2 hvalue))]

/-- Which environments are read as they are. -/
theorem update_readText_eq_iff (C : FsEncoding) (env : List (Bytes × Bytes)) :
    Dict.update ∅ (env.map fun p => (C.readText p.1, C.readText p.2)) = decoded C env ↔
      ∀ p ∈ (Dict.update ∅ env : Dict Bytes Bytes).items, 13 ∉ p.1 ∧ 13 ∉ p.2 := by
  have hdecoded := Dict.items_update_map C.injective C.decode env
  constructor
  · intro h p hp
    refine cr_notMem_of_read C (?_ : _ ∈ (Dict.update ∅ (env.map fun p => (C.readText p.1, C.readText p.2)) : Dict Text Text).items)
    rw [h, decoded, hdecoded]
    exact List.mem_map_of_mem hp
  · intro h
    rw [read_names C fun p hp => (h p hp).1]
    refine Dict.ext ?_
    rw [Dict.items_update_map C.injective C.readText env, decoded, hdecoded]
    exact List.map_congr_left fun p hp => by rw [C.readText_eq_decode.2 (h p hp).2]

/-! ## Both -/

/-- **A command line and an environment are read as they are, exactly when** no argument, and no variable in its last setting,
has a `\r`. -/
theorem cmdline_environ_iff (C : FsEncoding) :
    (∀ (zombie : Option Exc) (argv : List Bytes), 2 ≤ argv.length → (∀ a ∈ argv, 0 ∉ a) →
      (cmdline C zombie (.ok (terminate 0 argv)) = .ok (argv.map C.decode) ↔ ∀ a ∈ argv, 13 ∉ a)) ∧
    ∀ env : List (Bytes × Bytes), IsEnviron byteDelims env →
      (environ C (.ok (block byteDelims env)) = .ok (some (Dict.update ∅ (env.map fun p => (C.decode p.1, C.decode p.2)))) ↔
        ∀ p ∈ (Dict.update ∅ env : Dict Bytes Bytes).items, 13 ∉ p.1 ∧ 13 ∉ p.2) := by
  constructor
  · intro zombie argv hlen hnul
    rw [cmdline_terminate C zombie hlen hnul, Except.ok.injEq, List.map_inj_left]
    exact forall₂_congr fun a _ => C.readText_eq_decode
  · intro env henv
    rw [environ_block C henv, Except.ok.injEq, Option.some.injEq]
    exact update_readText_eq_iff C env

theorem cmdline_environ_plain :
    cmdline .utf8 none (.ok (terminate 0 [ascii "ls", [], ascii "a b"])) = .ok [text "ls", [], text "a b"] ∧
    environ .utf8 (.ok (block byteDelims [(ascii "A", ascii "x=1"), (ascii "B", [])])) =
      .ok (some (Dict.update ∅ [(text "A", text "x=1"), (text "B", [])])) := by
  constructor
  · exact ((cmdline_environ_iff .utf8).1 none _ (by decide) (by decide)).2 (by decide)
  · exact ((cmdline_environ_iff .utf8).2 _ ⟨by decide, by decide⟩).2 (by decide)

/-- `["a\r", "b"]`, and `A=x\r\n`. -/
theorem cmdline_environ_cr :
    cmdline .utf8 none (.ok (terminate 0 [ascii "a\r", ascii "b"])) = .ok [text "a\n", text "b"] ∧
    cmdline .utf8 none (.ok (terminate 0 [ascii "a\r", ascii "b"])) ≠ .ok [text "a\r", text "b"] ∧
    environ .utf8 (.ok (block byteDelims [(ascii "A", ascii "x\r\n")])) = .ok (some (Dict.update ∅ [(text "A", text "x\n")])) ∧
    environ .utf8 (.ok (block byteDelims [(ascii "A", ascii "x\r\n")])) ≠ .ok (some (Dict.update ∅ [(text "A", text "x\r\n")])) := by
  decide

end Psutil.Linux
