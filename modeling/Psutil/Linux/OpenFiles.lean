import Psutil.Common.Text
import Psutil.Lib.Fold
import Psutil.Linux.Text

/-!
# `Process.open_files()` on Linux (`_pslinux.py:131-162`, `:2268-2314`)

| here | there |
| --- | --- |
| `Fd.link`, `Fd.isfileStrict` | `readlink`, `isfile_strict` (`_common.py:297`) |
| `Fd.readFdinfo` | the two `readline()` of `fdinfo` |
| `fileFlagsToMode` | `file_flags_to_mode` |
| `Fd.step`, `openFiles` | a round of the loop, the method under its decorator |

Every access to a descriptor has its own answer, so that it may be closed before any of them. What it is open on is none of
the answers: `readlink` prints a text, and `stat` is asked about that text. `openFiles_clean_iff`: the result is right exactly
if access mode 3 is never met, and every file is still found under its link.
-/

namespace Psutil.Linux

open Lib Common Bytes

/-! ## Numbers in base 8 -/

def isOctDigit (c : UInt8) : Bool := 48 ≤ c && c ≤ 55

/-- Digits, with single underscores between them. -/
def isOctal : (afterDigit : Bool) → Bytes → Bool
  | afterDigit, [] => afterDigit
  | afterDigit, c :: data =>
    if isOctDigit c then isOctal true data else afterDigit && c = byte '_' && isOctal false data

def octalNumeral (data : Bytes) : Option Nat :=
  let body := if startsWith data (ascii "0o") || startsWith data (ascii "0O") then
      if startsWith (data.drop 2) (ascii "_") then data.drop 3 else data.drop 2
    else data
  if isOctal false body then some ((body.filter isOctDigit).foldl (fun n c => 8 * n + (c.toNat - 48)) 0) else none

/-- `int(data, 8)`. -/
def int8 (data : Bytes) : Except Exc Int :=
  let n := match strip data with
    | [] => none
    | c :: rest =>
      if c = byte '-' then (octalNumeral rest).map fun n => -(n : Int)
      else if c = byte '+' then (octalNumeral rest).map Int.ofNat
      else (octalNumeral (c :: rest)).map Int.ofNat
  match n with
  | some n => .ok n
  | none => .error (.valueError ("invalid literal for int() with base 8: " ++ Bytes.repr data))

/-- `%o`. -/
def octal (n : Nat) : Bytes := (Nat.toDigits 8 n).map byte

example : [int8 (ascii "0102001"), int8 (ascii " -0o_17\n")] = [.ok 33793, .ok (-15)] := by decide

/-! ## The code -/

/-- `s.replace(old, new, count)`; the first `skip` characters are done already. -/
def replaceFrom {α : Type} [DecidableEq α] (old new : List α) : (count skip : Nat) → List α → List α
  | _, _, [] => []
  | count, skip + 1, _ :: s => replaceFrom old new count skip s
  | 0, 0, c :: s => c :: s
  | count + 1, 0, c :: s =>
    if old.isPrefixOf (c :: s) then new ++ replaceFrom old new count (old.length - 1) s
    else c :: replaceFrom old new (count + 1) 0 s

/-- The two lowest bits of the flags are `O_RDONLY`, `O_WRONLY` or `O_RDWR`, and bit 10 is `O_APPEND`. -/
def fileFlagsToMode (flags : Int) : Except Exc Text := do
  let mode ← match flags % 4 with
    | 0 => Except.ok (text "r")
    | 1 => .ok (text "w")
    | 2 => .ok (text "w+")
    | _ => .error .keyError
  let mode := if flags / 1024 % 2 = 1 then replaceFrom (text "w") (text "a") 1 0 mode else mode
  return replaceFrom (text "w+") (text "r+") mode.length 0 mode

structure PopenFile where
  path : Text
  fd : Nat
  position : Int
  mode : Text
  flags : Int
  deriving DecidableEq

/-- What the kernel prints for a descriptor. -/
structure FdInfo where
  pos : Int
  flags : Nat
  rest : Bytes

def FdInfo.text (info : FdInfo) : Bytes :=
  ascii "pos:\t" ++ decimalInt info.pos ++ 10 :: (ascii "flags:\t0" ++ octal info.flags ++ 10 :: info.rest)

/-- `EINVAL`: the descriptor is not a link. -/
def einval : Errno := .other 22

def enametoolong : Errno := .other 36

/-- Closed meanwhile, or denied. -/
def fdErrors : List Errno := [.enoent, .esrch, .eacces, .eperm]

inductive FileType
  | regular | directory | charDevice | blockDevice | fifo | socket | anonInode
  deriving DecidableEq

/-- A descriptor that is listed, and the answers to the accesses. -/
structure Fd where
  fd : Nat
  /-- What it is open on, and under which path (the last one, if it was unlinked). -/
  type : FileType
  path : Text
  readlink : Except Errno Text
  /-- `os.stat` of a path with ` (deleted)` at its end. -/
  statDeleted : Text → Except Errno Unit
  /-- `os.stat` of the path: is it a regular file? -/
  stat : Text → Except Errno Bool
  fdinfo : Except Errno FdInfo
  readlink_error : ∀ e, readlink = .error e → e ∈ einval :: enametoolong :: fdErrors
  fdinfo_error : ∀ e, fdinfo = .error e → e ∈ fdErrors

/-- `f.readline()`, and what is left of the file. -/
def readline (data : Bytes) : Bytes × Bytes :=
  match data.dropWhile (· ≠ 10) with
  | [] => (data, [])
  | c :: rest => (data.takeWhile (· ≠ 10) ++ [c], rest)

def isDenial : Errno → Bool
  | .eacces | .eperm => true
  | _ => false

namespace Fd

variable (d : Fd)

/-- The function `readlink`. -/
def link : Except Errno Text := do
  let path := (← d.readlink).takeWhile (· ≠ 0)
  if (text " (deleted)").isSuffixOf path then
    match d.statDeleted path with
    | .ok () => return path
    | .error e => if isDenial e then throw e else return path.take (path.length - 10)
  else return path

def isfileStrict (path : Text) : Except Errno Bool :=
  match d.stat path with
  | .ok isreg => .ok isreg
  | .error e => if isDenial e then .error e else .ok false

/-- The position and the flags. -/
def readFdinfo : Except Exc (Int × Int) :=
  match d.fdinfo with
  | .error e => .error (.osError e)
  | .ok info => do
    let (line1, rest) := readline info.text
    let (line2, _) := readline rest
    return (← int (← getItem (split line1) 1), ← int8 (← getItem (split line2) 1))

/-- `retlist` and `hit_enoent` after a descriptor. -/
def step (acc : List PopenFile × Bool) : Except Exc (List PopenFile × Bool) :=
  match d.link with
  | .error .enoent | .error .esrch => .ok (acc.1, true)
  -- `EINVAL`, `ENAMETOOLONG`
  | .error (.other 22) | .error (.other 36) => .ok acc
  | .error e => .error (.osError e)
  | .ok path =>
    if path.head? = some 47 then
      match d.isfileStrict path with
      | .error e => .error (.osError e)
      | .ok false => .ok acc
      | .ok true => match d.readFdinfo with
        | .error (.osError .enoent) | .error (.osError .esrch) => .ok (acc.1, true)
        | .error e => .error e
        | .ok (pos, flags) => do
          let mode ← fileFlagsToMode flags
          return (acc.1 ++ [⟨path, d.fd, pos, mode, flags⟩], acc.2)
    else .ok acc

end Fd

/-- The process: `/proc/PID/fd`, and what is asked when something went wrong. -/
structure FdDir where
  pid : Nat
  name : Option String
  files : Except Errno (List Fd)
  nodup : ∀ l, files = .ok l → (l.map Fd.fd).Nodup
  /-- `os.stat("/proc/PID")`, after the loop. -/
  alive : Except Errno Unit
  zombie : Bool
  statExists : Bool

namespace FdDir

variable (p : FdDir)

/-- What `wrap_exceptions` raises instead. -/
def translate (e : Exc) : Exc :=
  let gone : Exc := if p.zombie then .zombieProcess p.pid p.name none else .noSuchProcess p.pid p.name noSuchProcessMsg
  match e with
  | .osError .eacces | .osError .eperm => .accessDenied p.pid p.name
  | .osError .esrch => gone
  | .osError .enoent => if p.zombie || !p.statExists then gone else e
  | e => e

def openFiles : Except Exc (List PopenFile) :=
  let r : Except Exc (List PopenFile) := match p.files with
    | .error e => .error (.osError e)
    | .ok files => do
      let (retlist, hitEnoent) ← files.foldlM (fun acc d => d.step acc) ([], false)
      if hitEnoent then
        match p.alive with
        | .error e => .error (.osError e)
        | .ok () => return retlist
      else return retlist
  r.mapError p.translate

end FdDir

/-! ## Reading back -/

theorem isOctDigit_of_mem_toDigits : ∀ (n : Nat) {c : Char}, c ∈ Nat.toDigits 8 n → c.toNat < 56 := by
  intro n
  induction n using Nat.strongRecOn with
  | _ n ih =>
    intro c hc
    have hdigit : ∀ k < 8, (Nat.digitChar k).toNat < 56 := by decide
    by_cases hn : n < 8
    · rw [Nat.toDigits_of_lt_base hn, List.mem_singleton] at hc
      exact hc ▸ hdigit n hn
    · rw [Nat.toDigits_of_base_le (by decide) (Nat.le_of_not_lt hn), List.mem_append, List.mem_singleton] at hc
      rcases hc with hc | rfl
      · exact ih (n / 8) (by omega) hc
      · exact hdigit _ (Nat.mod_lt n (by decide))

theorem mem_octal {n : Nat} {c : UInt8} (h : c ∈ octal n) : isDigit c = true ∧ isOctDigit c = true := by
  obtain ⟨d, hd, rfl⟩ := List.mem_map.1 h
  have hdigit := isDigit_byte (Nat.isDigit_of_mem_toDigits (by decide) (by decide) hd)
  have hlt := isOctDigit_of_mem_toDigits n hd
  refine ⟨hdigit.1, ?_⟩
  have hle := hdigit.1
  simp only [isDigit, isOctDigit, Bool.and_eq_true, decide_eq_true_eq, UInt8.le_iff_toNat_le, hdigit.2] at hle ⊢
  exact ⟨hle.1, Nat.le_of_lt_succ hlt⟩

theorem isOctal_of_all : ∀ {x : Bytes} (afterDigit : Bool), (∀ c ∈ x, isOctDigit c = true) → (x ≠ [] ∨ afterDigit = true) →
    isOctal afterDigit x = true
  | [], afterDigit, _, hne => by simpa [isOctal] using hne
  | c :: x, afterDigit, h, _ => by
    rw [isOctal, if_pos (h c List.mem_cons_self)]
    exact isOctal_of_all true (fun d hd => h d (List.mem_cons_of_mem c hd)) (Or.inr rfl)

theorem octDigits_map_byte : ∀ (cs : List Char) (init : Nat), (∀ c ∈ cs, c.isDigit = true) →
    (cs.map byte).foldl (fun n c => 8 * n + (c.toNat - 48)) init = Nat.ofDigitChars 8 cs init
  | [], _, _ => rfl
  | c :: cs, init, h => by
    rw [List.map_cons, List.foldl_cons, (isDigit_byte (h c List.mem_cons_self)).2, Nat.ofDigitChars_cons]
    exact octDigits_map_byte cs _ fun d hd => h d (List.mem_cons_of_mem c hd)

/-- The kernel puts a 0 before the number. -/
theorem int8_octal (n : Nat) : int8 (byte '0' :: octal n) = .ok n := by
  have hall : ∀ c ∈ byte '0' :: octal n, isDigit c = true ∧ isOctDigit c = true := by
    rw [List.forall_mem_cons]
    exact ⟨by decide, fun _ => mem_octal⟩
  have hprefix : ∀ x : UInt8, isDigit x = false → startsWith (byte '0' :: octal n) [byte '0', x] = false := by
    intro x hx
    cases ho : octal n with
    | nil => rfl
    | cons d rest =>
      have hd := (mem_octal (ho ▸ List.mem_cons_self : d ∈ octal n)).1
      have hne : x ≠ d := fun h => by rw [h, hd] at hx; cases hx
      simp [startsWith, List.isPrefixOf, hne]
  have hbody : octalNumeral (byte '0' :: octal n) = some n := by
    have hdigits : ∀ c ∈ Nat.toDigits 8 n, c.isDigit = true := fun c hc => Nat.isDigit_of_mem_toDigits (by decide) (by decide) hc
    have hfilter : (byte '0' :: octal n).filter isOctDigit = byte '0' :: octal n :=
      List.filter_eq_self.2 fun c hc => (hall c hc).2
    have hvalue := octDigits_map_byte (Nat.toDigits 8 n) 0 hdigits
    rw [Nat.ofDigitChars_toDigits (by decide) (by decide)] at hvalue
    have hlower : startsWith (byte '0' :: octal n) (ascii "0o") = false := hprefix (byte 'o') (by decide)
    have hupper : startsWith (byte '0' :: octal n) (ascii "0O") = false := hprefix (byte 'O') (by decide)
    simp only [octalNumeral, hlower, hupper, Bool.or_self, Bool.false_eq_true, if_false]
    rw [if_pos (isOctal_of_all false (fun c hc => (hall c hc).2) (Or.inl (List.cons_ne_nil _ _))), hfilter]
    exact congrArg some hvalue
  have hstrip := strip_of_digits fun c hc => (hall c hc).1
  have hminus : byte '0' ≠ byte '-' := by decide
  have hplus : byte '0' ≠ byte '+' := by decide
  simp only [int8, hstrip, hminus, hplus, if_false, hbody, Option.map_some]
  rfl

theorem readline_append {x : Bytes} (h : 10 ∉ x) (rest : Bytes) : readline (x ++ 10 :: rest) = (x ++ [10], rest) := by
  have hne : ∀ c ∈ x, (decide (c ≠ 10)) = true := fun c hc => decide_eq_true fun h10 => h (h10 ▸ hc)
  rw [readline, List.dropWhile_append_of_pos hne, List.takeWhile_append_of_pos hne]
  simp

/-- What is read is what is printed. -/
theorem Fd.readFdinfo_ok {d : Fd} {info : FdInfo} (h : d.fdinfo = .ok info) : d.readFdinfo = .ok (info.pos, info.flags) := by
  have hpos : ∀ x ∈ [ascii "pos:", decimalInt info.pos], IsWord x := by
    intro x hx
    rcases List.mem_pair.1 hx with rfl | rfl
    · exact isWord_of_all (by decide) (by decide)
    · exact isWord_decimalInt _
  have hoct : IsWord (byte '0' :: octal info.flags) := by
    refine ⟨List.cons_ne_nil _ _, fun c hc => ?_⟩
    rcases List.mem_cons.1 hc with rfl | hc
    · decide
    · exact isSpace_of_isDigit (mem_octal hc).1
  have hsplit : ∀ (label w : Bytes), IsWord label → IsWord w → split (label ++ 9 :: (w ++ [10])) = [label, w] := by
    intro label w hl hw
    rw [split_append (by decide), split_word hl.1 hl.2, split_append (by decide), split_word hw.1 hw.2]
    rfl
  have hline1 : 10 ∉ ascii "pos:" ++ 9 :: decimalInt info.pos := by
    rw [List.mem_append, List.mem_cons, not_or, not_or]
    exact ⟨by decide, by decide, fun hc => absurd (isSpace_of_mem_decimalInt hc) (by decide)⟩
  have hline2 : 10 ∉ ascii "flags:" ++ 9 :: (byte '0' :: octal info.flags) := by
    rw [List.mem_append, List.mem_cons, not_or, not_or]
    exact ⟨by decide, by decide, fun hc => absurd (hoct.2 _ hc) (by decide)⟩
  have htext : info.text = (ascii "pos:" ++ 9 :: decimalInt info.pos) ++ 10 ::
      ((ascii "flags:" ++ 9 :: (byte '0' :: octal info.flags)) ++ 10 :: info.rest) := by
    simp [FdInfo.text, ascii, byte]
  have hwords1 := hsplit (ascii "pos:") (decimalInt info.pos) (isWord_of_all (by decide) (by decide)) (isWord_decimalInt _)
  have hwords2 := hsplit (ascii "flags:") (byte '0' :: octal info.flags) (isWord_of_all (by decide) (by decide)) hoct
  simp only [Fd.readFdinfo, h, htext, readline_append hline1, readline_append hline2]
  rw [List.append_assoc, List.cons_append, hwords1, List.append_assoc, List.cons_append, hwords2]
  simp only [getItem, List.getElem?_cons_succ, List.getElem?_cons_zero, bind, Except.bind, int_decimalInt, int8_octal, pure, Except.pure]

/-! ## The right answer -/

def appends (flags : Nat) : Bool := flags / 1024 % 2 = 1

/-- Access mode 3 neither reads nor writes, so that any mode will do. -/
structure Reflects (flags : Nat) (mode : Text) : Prop where
  mem : mode ∈ [text "r", text "w", text "a", text "r+", text "a+"]
  rdonly : flags % 4 = 0 → mode = text "r"
  wronly : flags % 4 = 1 → mode = if appends flags then text "a" else text "w"
  rdwr : flags % 4 = 2 → mode = if appends flags then text "a+" else text "r+"

namespace Fd

variable (d : Fd)

/-- A regular file that is open until `fdinfo` is read, and may be read. -/
def regular : Option (Text × FdInfo) :=
  match d.type, d.fdinfo with
  | .regular, .ok info => some (d.path, info)
  | _, _ => none

/-- What the code takes for one. -/
def listed : Option (Text × FdInfo) :=
  match d.link, d.fdinfo with
  | .ok path, .ok info => if path.head? = some 47 ∧ d.stat path = .ok true then some (path, info) else none
  | _, _ => none

/-- The code is denied something that it needs. -/
def denied : Bool :=
  match d.link with
  | .error e => isDenial e
  | .ok path => path.head? = some 47 && match d.stat path with
    | .error e => isDenial e
    | .ok false => false
    | .ok true => match d.fdinfo with
      | .error e => isDenial e
      | .ok _ => false

/-- It would be listed, but is open with access mode 3. -/
def ioctlOnly : Bool := d.listed.any fun r => r.2.flags % 4 = 3

/-- The entry of a file. -/
def Entry (file : Option (Text × FdInfo)) (x : PopenFile) : Prop :=
  ∃ info, file = some (x.path, info) ∧ x.fd = d.fd ∧ x.position = info.pos ∧ x.flags = info.flags ∧ Reflects info.flags x.mode

def Shows (x : PopenFile) : Prop := d.Entry d.regular x

/-- The link leads back to what the descriptor is open on. -/
structure LeadsBack : Prop where
  /-- A regular file is found under its path. -/
  found : ∀ info, d.type = .regular → d.fdinfo = .ok info →
    d.link = .ok d.path ∧ d.path.head? = some 47 ∧ d.stat d.path = .ok true
  /-- Where anything else leads to, there is no regular file. -/
  other : ∀ info path, d.type ≠ .regular → d.fdinfo = .ok info → d.link = .ok path → path.head? = some 47 →
    d.stat path ≠ .ok true

end Fd

/-- One entry for every regular file, or `AccessDenied` if something was denied. -/
def FdDir.Clean (p : FdDir) (files : List Fd) (r : Except Exc (List PopenFile)) : Prop :=
  (∃ l, r = .ok l ∧ List.Forall₂ Fd.Shows (files.filter fun d => d.regular.isSome) l) ∨
    (∃ d ∈ files, d.denied = true) ∧ r = .error (.accessDenied p.pid p.name)

/-! ## One descriptor -/

theorem fileFlagsToMode_ok {flags : Nat} (h : flags % 4 ≠ 3) : ∃ mode, fileFlagsToMode flags = .ok mode ∧ Reflects flags mode := by
  have happend : ((flags : Int) / 1024 % 2 = 1) ↔ appends flags = true := by
    rw [appends, decide_eq_true_eq]
    omega
  have hmode : (flags : Int) % 4 = (flags % 4 : Nat) := by omega
  have hcases : flags % 4 = 0 ∨ flags % 4 = 1 ∨ flags % 4 = 2 := by omega
  unfold fileFlagsToMode
  simp only [hmode, happend]
  rcases hcases with h0 | h1 | h2
  · rw [h0]
    refine ⟨text "r", by cases appends flags <;> rfl, by decide, fun _ => rfl, ?_, ?_⟩ <;> omega
  · rw [h1]
    cases ha : appends flags
    · refine ⟨text "w", rfl, by decide, ?_, fun _ => by rw [ha]; rfl, ?_⟩ <;> omega
    · refine ⟨text "a", rfl, by decide, ?_, fun _ => by rw [ha]; rfl, ?_⟩ <;> omega
  · rw [h2]
    cases ha : appends flags
    · refine ⟨text "r+", rfl, by decide, ?_, ?_, fun _ => by rw [ha]; rfl⟩ <;> omega
    · refine ⟨text "a+", rfl, by decide, ?_, ?_, fun _ => by rw [ha]; rfl⟩ <;> omega

theorem fileFlagsToMode_ioctl {flags : Nat} (h : flags % 4 = 3) : fileFlagsToMode flags = .error .keyError := by
  have hmode : (flags : Int) % 4 = (3 : Nat) := by omega
  unfold fileFlagsToMode
  rw [hmode]
  rfl

namespace Fd

variable {d : Fd} {acc : List PopenFile × Bool}

theorem link_error {e : Errno} (h : d.link = .error e) : e ∈ einval :: enametoolong :: fdErrors := by
  unfold link at h
  cases hr : d.readlink with
  | error e' =>
    simp only [hr, bind, Except.bind, Except.error.injEq] at h
    exact h ▸ d.readlink_error e' hr
  | ok target =>
    simp only [hr, bind, Except.bind] at h
    split at h
    · split at h
      · cases h
      · rename_i e' _
        split at h
        · cases h
          cases e <;> simp_all [isDenial, fdErrors]
        · cases h
    · cases h

/-- The ways a descriptor is dealt with. -/
inductive Outcome (d : Fd) (acc : List PopenFile × Bool) : Except Exc (List PopenFile × Bool) → Prop
  | denied (e : Errno) : isDenial e = true → d.denied = true → Outcome d acc (.error (.osError e))
  | ioctlOnly : d.denied = false → d.ioctlOnly = true → Outcome d acc (.error .keyError)
  | shown (x : PopenFile) : d.denied = false → d.ioctlOnly = false → d.Entry d.listed x → Outcome d acc (.ok (acc.1 ++ [x], acc.2))
  | passed (hit : Bool) : d.denied = false → d.listed = none → Outcome d acc (.ok (acc.1, hit))

/-- An error is raised again exactly if it is a denial. -/
theorem outcome_of_errno {e : Errno} (hreg : d.listed = none) (hden : d.denied = isDenial e)
    (hraise : isDenial e = true → d.step acc = .error (.osError e))
    (hpass : isDenial e = false → ∃ hit, d.step acc = .ok (acc.1, hit)) : d.Outcome acc (d.step acc) := by
  cases he : isDenial e with
  | true =>
    rw [hraise he]
    exact .denied e he (hden.trans he)
  | false =>
    obtain ⟨hit, hstep⟩ := hpass he
    rw [hstep]
    exact .passed hit (hden.trans he) hreg

theorem outcome_link_error {e : Errno} (hl : d.link = .error e) : d.Outcome acc (d.step acc) := by
  have hmem := link_error hl
  simp only [fdErrors, einval, enametoolong, List.mem_cons, List.not_mem_nil, or_false] at hmem
  refine outcome_of_errno (e := e) (by simp [listed, hl]) (by simp [denied, hl]) (fun he => ?_) fun he => ?_
  · cases e <;> simp_all [step, isDenial]
  · rcases hmem with rfl | rfl | rfl | rfl | rfl | rfl
    · exact ⟨acc.2, by simp [step, hl]⟩
    · exact ⟨acc.2, by simp [step, hl]⟩
    · exact ⟨true, by simp [step, hl]⟩
    · exact ⟨true, by simp [step, hl]⟩
    · cases he
    · cases he

variable {path : Text}

theorem outcome_relative (hl : d.link = .ok path) (habs : path.head? ≠ some 47) : d.Outcome acc (d.step acc) := by
  have hreg : d.listed = none := by cases hf : d.fdinfo <;> simp [listed, hl, hf, habs]
  have hstep : d.step acc = .ok (acc.1, acc.2) := by simp [step, hl, habs]
  rw [hstep]
  exact .passed acc.2 (by simp [denied, hl, habs]) hreg

theorem outcome_stat (hl : d.link = .ok path) (habs : path.head? = some 47) (hs : d.stat path ≠ .ok true) :
    d.Outcome acc (d.step acc) := by
  have hreg : d.listed = none := by cases hf : d.fdinfo <;> simp [listed, hl, hf, habs, hs]
  cases hst : d.stat path with
  | error e =>
    refine outcome_of_errno (e := e) hreg (by simp [denied, hl, habs, hst]) (fun he => ?_) fun he => ⟨acc.2, ?_⟩
    · simp [step, hl, habs, isfileStrict, hst, he]
    · simp [step, hl, habs, isfileStrict, hst, he]
  | ok isreg =>
    obtain rfl : isreg = false := by
      by_contra htrue
      rw [Bool.not_eq_false] at htrue
      exact hs (htrue ▸ hst)
    have hstep : d.step acc = .ok (acc.1, acc.2) := by simp [step, hl, habs, isfileStrict, hst]
    rw [hstep]
    exact .passed acc.2 (by simp [denied, hl, habs, hst]) hreg

theorem outcome_fdinfo_error {e : Errno} (hl : d.link = .ok path) (habs : path.head? = some 47) (hs : d.stat path = .ok true)
    (hf : d.fdinfo = .error e) : d.Outcome acc (d.step acc) := by
  have hread : d.readFdinfo = .error (.osError e) := by simp [readFdinfo, hf]
  have hmem := d.fdinfo_error e hf
  simp only [fdErrors, List.mem_cons, List.not_mem_nil, or_false] at hmem
  refine outcome_of_errno (e := e) (by simp [listed, hl, hf]) (by simp [denied, hl, habs, hs, hf]) (fun he => ?_) fun he => ⟨true, ?_⟩
  · rcases hmem with rfl | rfl | rfl | rfl
    · cases he
    · cases he
    · simp [step, hl, habs, isfileStrict, hs, hread]
    · simp [step, hl, habs, isfileStrict, hs, hread]
  · rcases hmem with rfl | rfl | rfl | rfl
    · simp [step, hl, habs, isfileStrict, hs, hread]
    · simp [step, hl, habs, isfileStrict, hs, hread]
    · cases he
    · cases he

theorem outcome_regular {info : FdInfo} (hl : d.link = .ok path) (habs : path.head? = some 47) (hs : d.stat path = .ok true)
    (hf : d.fdinfo = .ok info) : d.Outcome acc (d.step acc) := by
  have hreg : d.listed = some (path, info) := by simp [listed, hl, hf, habs, hs]
  have hden : d.denied = false := by simp [denied, hl, habs, hs, hf]
  have hread := readFdinfo_ok hf
  by_cases h3 : info.flags % 4 = 3
  · have hstep : d.step acc = .error .keyError := by
      simp [step, hl, habs, isfileStrict, hs, hread, fileFlagsToMode_ioctl h3, bind, Except.bind]
    rw [hstep]
    exact .ioctlOnly hden (by simp [ioctlOnly, hreg, h3])
  · obtain ⟨mode, hmode, hrefl⟩ := fileFlagsToMode_ok h3
    have hstep : d.step acc = .ok (acc.1 ++ [⟨path, d.fd, info.pos, mode, info.flags⟩], acc.2) := by
      simp [step, hl, habs, isfileStrict, hs, hread, hmode, bind, Except.bind, pure, Except.pure]
    rw [hstep]
    exact .shown _ hden (by simp [ioctlOnly, hreg, h3]) ⟨info, hreg, rfl, rfl, rfl, hrefl⟩

/-- **One round.** -/
theorem step_outcome (d : Fd) (acc : List PopenFile × Bool) : d.Outcome acc (d.step acc) := by
  cases hl : d.link with
  | error e => exact outcome_link_error hl
  | ok path =>
    by_cases habs : path.head? = some 47
    · by_cases hs : d.stat path = .ok true
      · cases hf : d.fdinfo with
        | error e => exact outcome_fdinfo_error hl habs hs hf
        | ok info => exact outcome_regular hl habs hs hf
      · exact outcome_stat hl habs hs
    · exact outcome_relative hl habs

theorem ioctlOnly_of_listed (h : d.listed = none) : d.ioctlOnly = false := by simp [ioctlOnly, h]

end Fd

/-! ## The loop -/

/-- Up to the first denial. -/
def reached (files : List Fd) : List Fd := files.takeWhile fun d => !d.denied

theorem loop_ok : ∀ {files : List Fd} (acc : List PopenFile × Bool), (∀ d ∈ reached files, d.ioctlOnly = false) →
    (∃ l hit, files.foldlM (fun acc d => d.step acc) acc = .ok (acc.1 ++ l, hit) ∧
      (∀ d ∈ files, d.denied = false) ∧ List.Forall₂ (fun d x => d.Entry d.listed x) (files.filter fun d => d.listed.isSome) l) ∨
    (∃ d ∈ files, d.denied = true) ∧ ∃ e, isDenial e = true ∧ files.foldlM (fun acc d => d.step acc) acc = .error (.osError e)
  | [], acc, _ => Or.inl ⟨[], acc.2, by simp [pure, Except.pure], by simp, .nil⟩
  | d :: files, acc, h => by
    have hstep := d.step_outcome acc
    rw [List.foldlM_cons]
    generalize d.step acc = r at hstep
    cases hstep with
    | denied e he hd => exact Or.inr ⟨⟨d, List.mem_cons_self, hd⟩, e, he, rfl⟩
    | ioctlOnly hd hio =>
      have hfirst := h d (by simp [reached, hd])
      rw [hio] at hfirst
      cases hfirst
    | shown x hd hio hx =>
      have hrest : ∀ d' ∈ reached files, d'.ioctlOnly = false := fun d' hd' => h d' (by simp [reached, hd]; exact Or.inr hd')
      rcases loop_ok (acc.1 ++ [x], acc.2) hrest with ⟨l, hit, hl, hnone, hall⟩ | ⟨⟨d', hmem, hd'⟩, e, he, hl⟩
      · obtain ⟨info, hreg, hx'⟩ := hx
        refine Or.inl ⟨x :: l, hit, by simpa [bind, Except.bind] using hl, List.forall_mem_cons.2 ⟨hd, hnone⟩, ?_⟩
        rw [List.filter_cons_of_pos (by simp [hreg])]
        exact .cons ⟨info, hreg, hx'⟩ hall
      · exact Or.inr ⟨⟨d', List.mem_cons_of_mem d hmem, hd'⟩, e, he, hl⟩
    | passed hit hd hreg =>
      have hrest : ∀ d' ∈ reached files, d'.ioctlOnly = false := fun d' hd' => h d' (by simp [reached, hd]; exact Or.inr hd')
      rcases loop_ok (acc.1, hit) hrest with ⟨l, hit', hl, hnone, hall⟩ | ⟨⟨d', hmem, hd'⟩, e, he, hl⟩
      · refine Or.inl ⟨l, hit', hl, List.forall_mem_cons.2 ⟨hd, hnone⟩, ?_⟩
        rw [List.filter_cons_of_neg (by simp [hreg])]
        exact hall
      · exact Or.inr ⟨⟨d', List.mem_cons_of_mem d hmem, hd'⟩, e, he, hl⟩

theorem loop_keyError : ∀ {files : List Fd} {acc : List PopenFile × Bool}, (∃ d ∈ reached files, d.ioctlOnly = true) →
    files.foldlM (fun acc d => d.step acc) acc = .error .keyError
  | [], acc, h => by simp [reached] at h
  | d :: files, acc, h => by
    obtain ⟨d', hmem, hio⟩ := h
    have hd : d.denied = false := by
      by_contra hd
      simp [reached, hd] at hmem
    have hmem' : d' = d ∨ d' ∈ reached files := by simpa [reached, hd] using hmem
    have hstep := d.step_outcome acc
    rw [List.foldlM_cons]
    generalize d.step acc = r at hstep
    -- it is this one, or one of the others
    have hrest : d.ioctlOnly = false → ∀ acc', files.foldlM (fun acc d => d.step acc) acc' = .error .keyError := by
      intro hfirst acc'
      rcases hmem' with rfl | hmem'
      · rw [hfirst] at hio
        cases hio
      · exact loop_keyError ⟨d', hmem', hio⟩
    cases hstep with
    | denied e he hd' =>
      rw [hd'] at hd
      cases hd
    | ioctlOnly hd' hio' => rfl
    | shown x hd' hio' hx => exact hrest hio' _
    | passed hit hd' hreg => exact hrest (Fd.ioctlOnly_of_listed hreg) _

/-! ## What is listed, and what is there -/

namespace Fd

variable {d : Fd}

theorem LeadsBack.listed_eq (h : d.LeadsBack) : d.listed = d.regular := by
  cases hf : d.fdinfo with
  | error e =>
    have hregular : d.regular = none := by simp [regular, hf]
    rw [hregular]
    cases hl : d.link <;> simp [listed, hl, hf]
  | ok info =>
    by_cases ht : d.type = .regular
    · obtain ⟨hl, habs, hs⟩ := h.found info ht hf
      simp [listed, regular, hl, hf, habs, hs, ht]
    · have hregular : d.regular = none := by cases htype : d.type <;> simp_all [regular]
      rw [hregular]
      cases hl : d.link with
      | error e => simp [listed, hl]
      | ok path =>
        have hother : path.head? = some 47 → d.stat path ≠ .ok true := h.other info path ht hf hl
        simpa [listed, hl, hf] using hother

theorem leadsBack_of_listed_eq (h : d.listed = d.regular) : d.LeadsBack where
  found := by
    intro info ht hf
    have hregular : d.listed = some (d.path, info) := by simp [h, regular, ht, hf]
    cases hl : d.link with
    | error e => simp [listed, hl] at hregular
    | ok path =>
      obtain ⟨⟨habs, hs⟩, rfl⟩ : (path.head? = some 47 ∧ d.stat path = .ok true) ∧ path = d.path := by
        simpa [listed, hl, hf] using hregular
      exact ⟨rfl, habs, hs⟩
  other := by
    intro info path ht hf hl habs hs
    have hregular : d.listed = none := by
      rw [h]
      cases htype : d.type <;> simp_all [regular]
    simp [listed, hl, hf, habs, hs] at hregular

/-- A file that is still found under the path that its link prints. -/
theorem leadsBack_of_path (hlink : d.link = .ok d.path) (habs : d.path.head? = some 47)
    (hstat : d.stat d.path = .ok (d.type = .regular)) : d.LeadsBack where
  found := fun _ ht _ => ⟨hlink, habs, by simpa [ht] using hstat⟩
  other := by
    intro _ path ht _ hl _
    obtain rfl : d.path = path := Except.ok.inj (hlink.symm.trans hl)
    simp [hstat, ht]

theorem exists_entry {files : List Fd} {l : List PopenFile} {file : Fd → Option (Text × FdInfo)}
    (h : List.Forall₂ (fun d x => d.Entry (file d) x) (files.filter fun d => (file d).isSome) l) (hd : d ∈ files)
    (hfile : (file d).isSome) : ∃ x ∈ l, d.Entry (file d) x :=
  exists_of_forall₂ h (List.mem_filter.2 ⟨hd, hfile⟩)

theorem exists_fd {files : List Fd} {l : List PopenFile} {file : Fd → Option (Text × FdInfo)}
    (h : List.Forall₂ (fun d x => d.Entry (file d) x) (files.filter fun d => (file d).isSome) l) {x : PopenFile} (hx : x ∈ l) :
    ∃ d ∈ files, d.Entry (file d) x := by
  obtain ⟨d, hd, he⟩ := exists_of_forall₂ h.flip hx
  exact ⟨d, (List.mem_filter.1 hd).1, he⟩

/-- Two readings that have the same entries are the same, since an entry has the number of its descriptor. -/
theorem eq_of_entries {files : List Fd} (hnodup : (files.map Fd.fd).Nodup) {l : List PopenFile} {f g : Fd → Option (Text × FdInfo)}
    (hf : List.Forall₂ (fun d x => d.Entry (f d) x) (files.filter fun d => (f d).isSome) l)
    (hg : List.Forall₂ (fun d x => d.Entry (g d) x) (files.filter fun d => (g d).isSome) l) (hd : d ∈ files) {path : Text}
    {info : FdInfo} (hfd : f d = some (path, info)) : ∃ info', g d = some (path, info') := by
  obtain ⟨x, hx, info₁, hinfo₁, hxd, -⟩ := exists_entry hf hd (by simp [hfd])
  obtain ⟨d', hd', info₂, hinfo₂, hxd', -⟩ := exists_fd hg hx
  obtain rfl : d' = d := List.inj_on_of_nodup_map hnodup hd' hd (hxd'.symm.trans hxd)
  obtain ⟨rfl, -⟩ := Prod.mk.inj (Option.some.inj (hfd.symm.trans hinfo₁))
  exact ⟨info₂, hinfo₂⟩

theorem fdinfo_of_listed {path : Text} {info : FdInfo} (h : d.listed = some (path, info)) : d.fdinfo = .ok info := by
  unfold listed at h
  split at h
  · split at h
    · simp_all
    · cases h
  · cases h

theorem fdinfo_of_regular {path : Text} {info : FdInfo} (h : d.regular = some (path, info)) : d.fdinfo = .ok info := by
  unfold regular at h
  split at h
  · simp_all
  · cases h

end Fd

/-- The entries are those of the regular files exactly if every link leads back. -/
theorem shows_iff {files : List Fd} (hnodup : (files.map Fd.fd).Nodup) {l : List PopenFile}
    (hlisted : List.Forall₂ (fun d x => d.Entry d.listed x) (files.filter fun d => d.listed.isSome) l) :
    List.Forall₂ Fd.Shows (files.filter fun d => d.regular.isSome) l ↔ ∀ d ∈ files, d.LeadsBack := by
  constructor
  · intro hshows d hd
    refine Fd.leadsBack_of_listed_eq ?_
    cases hl : d.listed with
    | some file =>
      obtain ⟨info, hr⟩ := Fd.eq_of_entries hnodup hlisted hshows hd hl
      have hinfo := (Fd.fdinfo_of_listed hl).symm.trans (Fd.fdinfo_of_regular hr)
      rw [hr, ← Except.ok.inj hinfo]
    | none =>
      cases hr : d.regular with
      | none => rfl
      | some file =>
        obtain ⟨info, hl'⟩ := Fd.eq_of_entries hnodup hshows hlisted hd hr
        rw [hl] at hl'
        cases hl'
  · intro h
    have heq : ∀ d ∈ files, d.listed = d.regular := fun d hd => (h d hd).listed_eq
    have hfilter : (files.filter fun d => d.listed.isSome) = files.filter fun d => d.regular.isSome :=
      List.filter_congr fun d hd => by rw [heq d hd]
    rw [hfilter] at hlisted
    have hagree : ∀ d ∈ files.filter fun d => d.regular.isSome, d.listed = d.regular :=
      fun d hd => heq d (List.mem_filter.1 hd).1
    refine ((List.forall₂_and_left _ _).2 ⟨hagree, hlisted⟩).imp ?_
    rintro d x ⟨hd, he⟩
    rwa [Fd.Shows, ← hd]

/-- **`open_files()` is right exactly if** access mode 3 is not met, as far as the loop comes, and every link leads back to what
its descriptor is open on, unless something is denied. -/
theorem openFiles_clean_iff (p : FdDir) (files : List Fd) (hfiles : p.files = .ok files) (halive : p.alive = .ok ()) :
    p.Clean files p.openFiles ↔ (∀ d ∈ files.takeWhile (fun d => !d.denied), d.ioctlOnly = false) ∧
      ((∀ d ∈ files, d.denied = false) → ∀ d ∈ files, d.LeadsBack) := by
  change _ ↔ (∀ d ∈ reached files, d.ioctlOnly = false) ∧ _
  by_cases h : ∀ d ∈ reached files, d.ioctlOnly = false
  · rw [and_iff_right h]
    rcases loop_ok ([], false) h with ⟨l, hit, hl, hnone, hall⟩ | ⟨hden, e, he, hl⟩
    · have hopen : p.openFiles = .ok l := by
        simp only [FdDir.openFiles, hfiles, hl, halive, bind, Except.bind, pure, Except.pure, List.nil_append, ite_self]
        rfl
      refine Iff.trans ?_ ((shows_iff (p.nodup files hfiles) hall).trans ⟨fun h _ => h, fun h => h hnone⟩)
      constructor
      · rintro (⟨l', hl', hshows⟩ | ⟨⟨d, hd, hdenied⟩, -⟩)
        · obtain rfl := Except.ok.inj (hopen.symm.trans hl')
          exact hshows
        · rw [hnone d hd] at hdenied
          cases hdenied
      · exact fun hshows => Or.inl ⟨l, hopen, hshows⟩
    · refine iff_of_true (Or.inr ⟨hden, ?_⟩) fun hnone => ?_
      · simp only [FdDir.openFiles, hfiles, hl, bind, Except.bind, Except.mapError]
        cases e <;> simp_all [isDenial, FdDir.translate]
      · obtain ⟨d, hd, hdenied⟩ := hden
        rw [hnone d hd] at hdenied
        cases hdenied
  · refine iff_of_false ?_ fun hcond => h hcond.1
    simp only [not_forall, Bool.not_eq_false] at h
    obtain ⟨d, hd, hio⟩ := h
    have hopen : p.openFiles = .error .keyError := by
      simp only [FdDir.openFiles, hfiles, loop_keyError ⟨d, hd, hio⟩, bind, Except.bind]
      rfl
    rintro (⟨l, hl, -⟩ | ⟨-, hl⟩)
    · rw [hopen] at hl
      cases hl
    · rw [hopen] at hl
      cases hl

/-- A regular file that stays open and where it is, with these flags. -/
def openFd (fd : Nat) (path : Text) (flags : Nat) : Fd where
  fd := fd
  type := .regular
  path := path
  readlink := .ok path
  statDeleted := fun _ => .ok ()
  stat := fun _ => .ok true
  fdinfo := .ok ⟨0, flags, ascii "mnt_id:\t29\n"⟩
  readlink_error := by simp
  fdinfo_error := by simp

/-- A process that stays alive, with one descriptor. -/
def fdDir (d : Fd) : FdDir := ⟨7, none, .ok [d], by simp, .ok (), false, true⟩

/-- An open file that was unlinked is left out. -/
example : (fdDir { openFd 4 (text "/tmp/x") 2 with
    readlink := .ok (text "/tmp/x (deleted)"), readlink_error := by simp,
    statDeleted := fun _ => .error .enoent, stat := fun _ => .error .enoent }).openFiles = .ok [] := by decide

/-- A block device tool opens its file for `ioctl` only. -/
theorem openFiles_ioctl : ¬∀ (p : FdDir) (files : List Fd), p.files = .ok files → p.alive = .ok () → p.Clean files p.openFiles := by
  intro h
  have hclean := h (fdDir (openFd 4 (text "/tmp/x") 3)) _ rfl rfl
  have hkey : (fdDir (openFd 4 (text "/tmp/x") 3)).openFiles = .error .keyError := by decide
  rw [hkey] at hclean
  rcases hclean with ⟨l, hl, -⟩ | ⟨-, hl⟩
  · cases hl
  · cases hl

theorem openFiles_clean_log : (fdDir (openFd 3 (text "/var/log/syslog") 33793)).Clean [openFd 3 (text "/var/log/syslog") 33793]
    (fdDir (openFd 3 (text "/var/log/syslog") 33793)).openFiles :=
  (openFiles_clean_iff (fdDir (openFd 3 (text "/var/log/syslog") 33793)) _ rfl rfl).2 ⟨by decide, fun _ => by
    rw [List.forall_mem_singleton]
    exact Fd.leadsBack_of_path (by decide) (by decide) (by decide)⟩

end Psutil.Linux
