import Psutil.Common.Text
import Psutil.Linux.Cmdline
import Psutil.Linux.StatText

/-!
# `Process.name()` (`__init__.py:815-845`)

| here | there |
| --- | --- |
| `platformName` | `name` of `_pslinux.py:1763` |
| `name` | `name`; `cmdline` is what `self.cmdline()` returns or raises |

The kernel keeps 15 bytes of a name, and the code looks for 15 characters; the command line has been read as text, and one with
an only argument has been split at blanks: `name_full_iff`.
-/

namespace Psutil.Linux

open Lib Common

/-- `os.path.basename(p)`. -/
def basename (p : Text) : Text := (p.reverse.takeWhile (· ≠ 47)).reverse

def platformName (C : FsEncoding) (stat : Except Exc Bytes) : Except Exc Text := do
  let fields ← StatFields.parse (← stat)
  return C.decode fields.name

def name (C : FsEncoding) (stat : Except Exc Bytes) (cmdline : Except Exc (List Text)) : Except Exc Text := do
  let name ← platformName C stat
  if 15 ≤ name.length then
    match cmdline with
    | .error (.accessDenied _ _) | .error (.zombieProcess _ _ _) => return name
    | .error e => throw e
    | .ok [] => return name
    | .ok (arg :: _) =>
      let extendedName := basename arg
      return if name.isPrefixOf extendedName then extendedName else name
  else return name

/-- `TASK_COMM_LEN` without the NUL. -/
def comm (b : Bytes) : Bytes := b.take 15

example : name .utf8 (.ok (ascii "7 (gnome-keyring-d) S 1 7 7 0 -1 0 0 0 0 0 0 0 0 0 20 0 1 0 9 0 0 0 0 0 0 0 0 0 0 0 0 0 0 0 17 0 0 0 0"))
    (.ok [text "/usr/bin/gnome-keyring-daemon"]) = .ok (text "gnome-keyring-daemon") := by decide

theorem basename_append {dir b : Text} (hdir : dir = [] ∨ dir.getLast? = some 47) (hb : 47 ∉ b) : basename (dir ++ b) = b := by
  have htake : ∀ l : Text, l = [] ∨ l.head? = some 47 → (b.reverse ++ l).takeWhile (· ≠ 47) = b.reverse := by
    intro l hl
    rw [List.takeWhile_append_of_pos fun c hc => by simpa using fun h : c = 47 => hb (h ▸ List.mem_reverse.1 hc)]
    cases l with
    | nil => simp
    | cons c l =>
      obtain rfl : c = 47 := by simpa using hl
      simp
  rw [basename, List.reverse_append, htake, List.reverse_reverse]
  simpa [List.head?_reverse] using hdir

theorem basename_universalNewlines (t : Text) : basename (universalNewlines t) = universalNewlines (basename t) := by
  by_cases ht : 47 ∈ t
  · -- the last slash
    obtain ⟨y, x, hxy, hy⟩ := List.eq_append_cons_of_mem (List.mem_reverse.2 ht)
    have hcut : t = (x.reverse ++ [47]) ++ y.reverse := by
      rw [← List.reverse_reverse t, hxy]
      simp
    have hslash : 47 ∉ y.reverse := fun h => hy (List.mem_reverse.1 h)
    have hread : universalNewlines t = (universalNewlines x.reverse ++ [47]) ++ universalNewlines y.reverse := by
      rw [hcut, List.append_assoc, List.singleton_append, universalNewlines_append (by decide) (by decide)]
      simp
    have hslash' : 47 ∉ universalNewlines y.reverse := fun h => hslash (mem_of_mem_newlinesFrom (by decide) h)
    rw [hread, basename_append (Or.inr List.getLast?_concat) hslash', hcut, basename_append (Or.inr List.getLast?_concat) hslash]
  · have hread : 47 ∉ universalNewlines t := fun h => ht (mem_of_mem_newlinesFrom (by decide) h)
    have hwhole := basename_append (Or.inl rfl) hread
    have hwhole' := basename_append (Or.inl rfl) ht
    rw [List.nil_append] at hwhole hwhole'
    rw [hwhole, hwhole']

/-- What the first argument says of the name. -/
def shownBase (arg : Bytes) (args : List Bytes) : Text := basename (shownArg (Utf8.decode arg) args.isEmpty)

/-- The name of a process with that command line. -/
theorem name_of_comm (p : ProcStat) (zombie : Option Exc) {arg : Bytes} {args : List Bytes} (hnul : ∀ a ∈ arg :: args, 0 ∉ a) :
    name .utf8 (.ok p.text) (cmdline .utf8 zombie (.ok (terminate 0 (arg :: args)))) =
      .ok (if 15 ≤ (Utf8.decode p.comm).length ∧ Utf8.decode p.comm <+: universalNewlines (shownBase arg args)
        then universalNewlines (shownBase arg args) else Utf8.decode p.comm) := by
  have hname : platformName .utf8 (.ok p.text) = .ok (Utf8.decode p.comm) := by
    simp only [platformName, p.parse_text, bind, Except.bind, pure, Except.pure]
    rfl
  obtain ⟨rest, hrest⟩ := cmdline_first .utf8 zombie hnul
  have hbase : basename (universalNewlines (shownArg (FsEncoding.utf8.decode arg) args.isEmpty)) =
      universalNewlines (shownBase arg args) := basename_universalNewlines _
  simp only [name, hname, hrest, hbase, bind, Except.bind, pure, Except.pure, List.isPrefixOf_iff_prefix]
  split_ifs <;> simp_all

/-- A name that the kernel has cut comes back exactly if it was cut behind 15 ASCII characters. -/
theorem prefix_of_comm_iff {b : List Char} (hlong : 15 < (Utf8.encodeChars b).length) :
    15 ≤ (Utf8.decode (comm (Utf8.encodeChars b))).length ∧ Utf8.decode (comm (Utf8.encodeChars b)) <+: b.map Char.toNat ↔
      ∀ c ∈ b.take 15, c.toNat < 128 := by
  have hcut : b = b.take 15 ++ b.drop 15 := (List.take_append_drop 15 b).symm
  constructor
  · rintro ⟨hlen, hpre⟩
    -- its characters are characters of the name, with 15 bytes together
    have htake := List.prefix_iff_eq_take.1 hpre
    generalize hk : (Utf8.decode (comm (Utf8.encodeChars b))).length = k at hlen htake
    rw [← List.map_take, ← Utf8.decode_encodeChars] at htake
    have hbytes := congrArg List.length (Utf8.decode_injective htake)
    rw [comm, List.length_take, min_eq_left hlong.le] at hbytes
    have hkb : k ≤ b.length := by
      have hle := hpre.length_le
      rwa [hk, List.length_map] at hle
    have hall := Utf8.ascii_of_length_le (l := b.take k) (by rw [← hbytes, List.length_take]; omega)
    exact fun c hc => hall c (List.take_subset_take_left b hlen hc)
  · intro hascii
    have hone := Utf8.length_encodeChars_of_ascii hascii
    have hlen : (b.take 15).length = 15 := by
      rw [List.length_take]
      by_contra hshort
      rw [List.take_of_length_le (by omega)] at hone
      omega
    have hcomm : comm (Utf8.encodeChars b) = Utf8.encodeChars (b.take 15) := by
      rw [hlen] at hone
      conv_lhs => rw [hcut, Utf8.encodeChars_append]
      exact List.take_left' hone
    rw [hcomm, Utf8.decode_encodeChars, List.length_map, hlen, List.map_take]
    exact ⟨le_rfl, List.take_prefix 15 _⟩

/-- When `b` comes back in full, and `base` is what the first argument says of it. -/
def ComesBack (b : List Char) (base : Text) : Prop :=
  ((Utf8.encodeChars b).length ≤ 15 ∧
    ¬(b.length = 15 ∧ '\r' ∉ b ∧ b.map Char.toNat <+: base ∧ base ≠ b.map Char.toNat)) ∨
  ((∀ c ∈ b.take 15, c.toNat < 128) ∧ '\r' ∉ b ∧ base = b.map Char.toNat)

theorem mem_map_toNat (b : List Char) (c : Char) : c.toNat ∈ b.map Char.toNat ↔ c ∈ b := by
  rw [List.mem_map]
  constructor
  · rintro ⟨d, hd, hdc⟩
    exact Char.toNat_inj.1 hdc ▸ hd
  · exact fun hc => ⟨c, hc, rfl⟩

/-- A name that the kernel has not cut. -/
theorem whole_comesBack_iff {b : List Char} (hnl : '\n' ∉ b) (hshort : (Utf8.encodeChars b).length ≤ 15) (base : Text) :
    (if 15 ≤ (b.map Char.toNat).length ∧ b.map Char.toNat <+: universalNewlines base then universalNewlines base
      else b.map Char.toNat) = b.map Char.toNat ↔ ComesBack b base := by
  have hlf : 10 ∉ b.map Char.toNat := mt (mem_map_toNat b '\n').1 hnl
  have hcr : 13 ∉ b.map Char.toNat ↔ '\r' ∉ b := not_congr (mem_map_toNat b '\r')
  have hlen : 15 ≤ (b.map Char.toNat).length ↔ b.length = 15 := by
    have hle := Utf8.length_le_encodeChars b
    rw [List.length_map]
    omega
  have hpre := prefix_universalNewlines_iff hlf base
  have heq := universalNewlines_eq_iff hlf base
  rw [hcr] at hpre heq
  split_ifs with hasked
  · obtain ⟨hlong, hb, hbegins⟩ := hasked.imp hlen.1 hpre.1
    rw [heq]
    constructor
    · exact fun h => Or.inl ⟨hshort, fun hno => hno.2.2.2 h.2⟩
    · rintro (⟨-, hno⟩ | ⟨-, h⟩)
      · exact ⟨hb, not_not.1 fun hne => hno ⟨hlong, hb, hbegins, hne⟩⟩
      · exact h
  · exact iff_of_true rfl (Or.inl ⟨hshort, fun hno => hasked ⟨hlen.2 hno.1, hpre.2 ⟨hno.2.1, hno.2.2.1⟩⟩⟩)

/-- A name that the kernel has cut. -/
theorem cut_comesBack_iff {b : List Char} (hnl : '\n' ∉ b) (hlong : 15 < (Utf8.encodeChars b).length) (base : Text) :
    (if 15 ≤ (Utf8.decode (comm (Utf8.encodeChars b))).length ∧ Utf8.decode (comm (Utf8.encodeChars b)) <+: universalNewlines base
      then universalNewlines base else Utf8.decode (comm (Utf8.encodeChars b))) = b.map Char.toNat ↔ ComesBack b base := by
  have hlf : 10 ∉ b.map Char.toNat := mt (mem_map_toNat b '\n').1 hnl
  have hcr : 13 ∉ b.map Char.toNat ↔ '\r' ∉ b := not_congr (mem_map_toNat b '\r')
  have heq := universalNewlines_eq_iff hlf base
  have hcut := prefix_of_comm_iff hlong
  have hne : Utf8.decode (comm (Utf8.encodeChars b)) ≠ b.map Char.toNat := by
    rw [← Utf8.decode_encodeChars, Utf8.decode_injective.ne_iff]
    intro h
    have hbytes := congrArg List.length h
    rw [comm, List.length_take] at hbytes
    omega
  have hback : ComesBack b base ↔ (∀ c ∈ b.take 15, c.toNat < 128) ∧ universalNewlines base = b.map Char.toNat := by
    rw [ComesBack, or_iff_right fun h => Nat.not_le_of_lt hlong h.1, heq, hcr]
  rw [hback]
  by_cases hbase : universalNewlines base = b.map Char.toNat
  · rw [hbase, and_iff_left rfl]
    split_ifs with hascii
    · exact iff_of_true rfl (hcut.1 hascii)
    · exact iff_of_false hne (mt hcut.2 hascii)
  · refine iff_of_false (fun h => ?_) fun h => hbase h.2
    split_ifs at h
    · exact hbase h
    · exact hne h

/-- **The name comes back in full exactly if** the kernel has not cut it, and it is not taken for the beginning of another one, or
the kernel has cut it behind 15 ASCII characters, and the command line has it unchanged. -/
theorem name_full_iff (p : ProcStat) (b : List Char) (dir : Bytes) (args : List Bytes) (zombie : Option Exc) (hnl : '\n' ∉ b)
    (hnul : ∀ a ∈ (dir ++ Utf8.encodeChars b) :: args, 0 ∉ a) (hcomm : p.comm = comm (Utf8.encodeChars b)) :
    name .utf8 (.ok p.text) (cmdline .utf8 zombie (.ok (terminate 0 ((dir ++ Utf8.encodeChars b) :: args)))) =
      .ok (b.map Char.toNat) ↔ ComesBack b (shownBase (dir ++ Utf8.encodeChars b) args) := by
  rw [name_of_comm p zombie hnul, hcomm, Except.ok.injEq]
  by_cases hshort : (Utf8.encodeChars b).length ≤ 15
  · have hwhole : comm (Utf8.encodeChars b) = Utf8.encodeChars b := List.take_of_length_le hshort
    rw [hwhole, Utf8.decode_encodeChars]
    exact whole_comesBack_iff hnl hshort _
  · exact cut_comesBack_iff hnl (Nat.lt_of_not_le hshort) _

/-- Without a blank in an only argument, it says the name. -/
theorem shownBase_eq {b : List Char} (hslash : '/' ∉ b) {dir : Bytes} (hdir : dir = [] ∨ dir.getLast? = some (byte '/'))
    {args : List Bytes} (hblank : args = [] → 32 ∉ dir ++ Utf8.encodeChars b) :
    shownBase (dir ++ Utf8.encodeChars b) args = b.map Char.toNat := by
  have hshown : shownArg (Utf8.decode (dir ++ Utf8.encodeChars b)) args.isEmpty = Utf8.decode (dir ++ Utf8.encodeChars b) := by
    cases args with
    | cons a args => rfl
    | nil =>
      have hno : 32 ∉ Utf8.decode (dir ++ Utf8.encodeChars b) := fun h => hblank rfl (Utf8.mem_of_mem_decode (b := 32) (by decide) h)
      exact List.takeWhile_eq_self_iff.2 fun c hc => decide_eq_true fun h => hno (h ▸ hc)
  have hb : 47 ∉ b.map Char.toNat := mt (mem_map_toNat b '/').1 hslash
  rw [shownBase, hshown]
  rcases hdir with rfl | hlast
  · rw [List.nil_append, Utf8.decode_encodeChars]
    exact basename_append (Or.inl rfl) hb
  · obtain ⟨init, rfl⟩ := List.getLast?_eq_some_iff.1 hlast
    rw [List.append_assoc, List.singleton_append, Utf8.decode_append (by decide), Utf8.decode_encodeChars]
    have hdir : (Utf8.decode init ++ [47]).getLast? = some 47 := List.getLast?_concat
    have happend := basename_append (Or.inr hdir) hb
    rwa [List.append_assoc, List.singleton_append] at happend

/-- `/proc/PID/stat` of a process with that name. -/
def statOf (b : Bytes) : ProcStat where
  pid := 7
  comm := comm b
  state := byte 'R'
  fields := List.replicate 39 0
  state_letter := by decide
  length_fields := by decide

/-- Eleven letters with accents are 22 bytes; seven and a half of them are left. -/
theorem name_stays_cut : ¬∀ (p : ProcStat) (b : List Char) (dir : Bytes) (args : List Bytes), '/' ∉ b → '\x00' ∉ b → '\n' ∉ b →
    (dir = [] ∨ dir.getLast? = some (byte '/')) → (∀ a ∈ (dir ++ Utf8.encodeChars b) :: args, 0 ∉ a) →
      p.comm = comm (Utf8.encodeChars b) →
      name .utf8 (.ok p.text) (cmdline .utf8 none (.ok (terminate 0 ((dir ++ Utf8.encodeChars b) :: args)))) =
        .ok (b.map Char.toNat) := by
  intro h
  have hfull := h (statOf (Utf8.encodeChars (List.replicate 11 'é'))) (List.replicate 11 'é') (ascii "/opt/") [] (by decide)
    (by decide) (by decide) (Or.inr (by decide)) (by decide) rfl
  rw [name_of_comm _ _ (by decide), Except.ok.injEq] at hfull
  exact absurd hfull (by decide)

theorem name_full_daemon : name .utf8 (.ok (statOf (ascii "gnome-keyring-daemon")).text)
    (cmdline .utf8 none (.ok (terminate 0 [ascii "/usr/bin/" ++ Utf8.encodeChars "gnome-keyring-daemon".toList, ascii "--login"]))) =
      .ok (("gnome-keyring-daemon".toList).map Char.toNat) :=
  (name_full_iff (statOf (ascii "gnome-keyring-daemon")) "gnome-keyring-daemon".toList (ascii "/usr/bin/") [ascii "--login"] none
    (by decide) (by decide) (by decide)).2 (Or.inr ⟨fun c hc =>
      of_decide_eq_true ((List.all_eq_true (p := fun c : Char => decide (c.toNat < 128))).1 (by decide) c hc), by decide,
      shownBase_eq (by decide) (Or.inr (by decide)) nofun⟩)

/-- A blank in an only argument cuts it. -/
example : name .utf8 (.ok (statOf (ascii "my long program name")).text)
    (cmdline .utf8 none (.ok (ascii "/opt/my long program name\x00"))) = .ok (text "my long program") := by decide

end Psutil.Linux
