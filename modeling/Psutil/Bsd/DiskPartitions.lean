import Mathlib.Data.List.Flatten
import Psutil.Common.Str
import Psutil.Lib.Cut
import Psutil.Linux.Text

/-!
# The options of `disk_partitions()` on macOS and the BSDs

| here | there |
| --- | --- |
| `StatfsOs.options`, `StatfsOs.optsSize` | the `if`s over `flags` and `sizeof(opts)` (`arch/osx/disk.c:27`, `:70-126`, `arch/bsd/disk.c:29`, `:80-161`) |
| `mountOpts` | what one round of the loop leaves in `opts` |

`flags` and the masks are those of `sys/mount.h`; a mask that the system does not define is zero, which no flag meets.
`mount_opts_split`: no options are lost, although nobody looks at what `str_append` returns.
-/

namespace Psutil

open Lib Bytes

/-- The systems with `statfs`, or `statvfs`. -/
inductive StatfsOs where
  | macos | freebsd | netbsd | openbsd
  deriving DecidableEq, Repr

/-- A mask, and the option it stands for. -/
abbrev MountOption := String × String

def bsdOptions : List MountOption :=
  [("MNT_SYNCHRONOUS", "sync"), ("MNT_NOEXEC", "noexec"), ("MNT_NOSUID", "nosuid"), ("MNT_ASYNC", "async"), ("MNT_NOATIME", "noatime"),
    ("MNT_SOFTDEP", "softdep")]

/-- The masks after `MNT_RDONLY`, in their order. -/
def StatfsOs.options : StatfsOs → List MountOption
  | .macos =>
    [("MNT_SYNCHRONOUS", "sync"), ("MNT_NOEXEC", "noexec"), ("MNT_NOSUID", "nosuid"), ("MNT_UNION", "union"), ("MNT_ASYNC", "async"),
      ("MNT_EXPORTED", "exported"), ("MNT_LOCAL", "local"), ("MNT_QUOTA", "quota"), ("MNT_ROOTFS", "rootfs"), ("MNT_DOVOLFS", "dovolfs"),
      ("MNT_DONTBROWSE", "dontbrowse"), ("MNT_IGNORE_OWNERSHIP", "ignore-ownership"), ("MNT_AUTOMOUNTED", "automounted"),
      ("MNT_JOURNALED", "journaled"), ("MNT_NOUSERXATTR", "nouserxattr"), ("MNT_DEFWRITE", "defwrite"), ("MNT_UPDATE", "update"),
      ("MNT_RELOAD", "reload"), ("MNT_FORCE", "force"), ("MNT_CMDFLAGS", "cmdflags"), ("MNT_QUARANTINE", "quarantine"),
      ("MNT_MULTILABEL", "multilabel"), ("MNT_NOATIME", "noatime")]
  | .freebsd => bsdOptions ++
    [("MNT_UNION", "union"), ("MNT_SUIDDIR", "suiddir"), ("MNT_NOSYMFOLLOW", "nosymfollow"), ("MNT_GJOURNAL", "gjournal"),
      ("MNT_MULTILABEL", "multilabel"), ("MNT_ACLS", "acls"), ("MNT_NOCLUSTERR", "noclusterr"), ("MNT_NOCLUSTERW", "noclusterw"),
      ("MNT_NFS4ACLS", "nfs4acls")]
  | .netbsd => bsdOptions ++
    [("MNT_NODEV", "nodev"), ("MNT_UNION", "union"), ("MNT_NOCOREDUMP", "nocoredump"), ("MNT_RELATIME", "relatime"), ("MNT_IGNORE", "ignore"),
      ("MNT_DISCARD", "discard"), ("MNT_EXTATTR", "extattr"), ("MNT_LOG", "log"), ("MNT_SYMPERM", "symperm"), ("MNT_NODEVMTIME", "nodevmtime")]
  | .openbsd => bsdOptions

def StatfsOs.optsSize : StatfsOs → Nat
  | .macos => 400
  | .freebsd | .netbsd | .openbsd => 200

/-- A string literal, up to its NUL. -/
def literal (s : String) : CString := ⟨(ascii s).takeWhile (· ≠ 0), fun h => by simpa using List.mem_takeWhile_imp h⟩

/-- `opts` after the `if`s. `opts` comes in with whatever was there, and `mnt` has the masks. -/
def mountOpts (os : StatfsOs) (mnt : String → Nat) (flags : Nat) (opts : Bytes) : Bytes :=
  let opts := memcpy opts 0 [0]
  let opts := (strAppend opts (literal (if flags &&& mnt "MNT_RDONLY" ≠ 0 then "ro" else "rw"))).2
  appendAll opts ((os.options.filter fun o => flags &&& mnt o.1 ≠ 0).map fun o => literal ("," ++ o.2))

/-- The options that the flags stand for. -/
def optionNames (os : StatfsOs) (mnt : String → Nat) (flags : Nat) : List Bytes :=
  ascii (if flags &&& mnt "MNT_RDONLY" ≠ 0 then "ro" else "rw") :: (os.options.filter fun o => flags &&& mnt o.1 ≠ 0).map fun o => ascii o.2

/-! ## The texts -/

theorem ascii_append (s t : String) : ascii (s ++ t) = ascii s ++ ascii t := by simp [ascii]

theorem literal_bytes {s : String} (h : 0 ∉ ascii s) : (literal s).bytes = ascii s :=
  List.takeWhile_eq_self_iff.2 fun c hc => by simpa using ne_of_mem_of_not_mem hc h

/-- No option has a comma or a NUL, and all of them together fit. -/
theorem options_ok (os : StatfsOs) : (∀ o ∈ os.options, byte ',' ∉ ascii o.2 ∧ 0 ∉ ascii o.2) ∧
    2 + ((os.options.map fun o => byte ',' :: ascii o.2).flatten).length < os.optsSize := by
  cases os <;> decide +kernel

theorem ascii_comma (s : String) : ascii ("," ++ s) = byte ',' :: ascii s := by
  rw [ascii_append]
  rfl

section
variable {os : StatfsOs} {mnt : String → Nat} {flags : Nat}

theorem intercalate_optionNames : [byte ','].intercalate (optionNames os mnt flags) =
    ascii (if flags &&& mnt "MNT_RDONLY" ≠ 0 then "ro" else "rw") ++
      ((os.options.filter fun o => flags &&& mnt o.1 ≠ 0).map fun o => byte ',' :: ascii o.2).flatten := by
  rw [optionNames, intercalate_cons, List.flatMap_map, List.flatMap_def]

/-- What is appended behind the first option. -/
theorem appended_bytes : (((os.options.filter fun o => flags &&& mnt o.1 ≠ 0).map fun o => literal ("," ++ o.2)).map CString.bytes) =
    (os.options.filter fun o => flags &&& mnt o.1 ≠ 0).map fun o => byte ',' :: ascii o.2 := by
  rw [List.map_map]
  refine List.map_congr_left fun o ho => ?_
  have hno := ((options_ok os).1 o (List.mem_of_mem_filter ho)).2
  have hliteral : (literal ("," ++ o.2)).bytes = ascii ("," ++ o.2) := literal_bytes (by
    rw [ascii_comma, List.mem_cons, not_or]
    exact ⟨by decide, hno⟩)
  rw [Function.comp_apply, hliteral, ascii_comma]

theorem length_first : (ascii (if flags &&& mnt "MNT_RDONLY" ≠ 0 then "ro" else "rw")).length = 2 := by split <;> rfl

theorem literal_first : (literal (if flags &&& mnt "MNT_RDONLY" ≠ 0 then "ro" else "rw")).bytes =
    ascii (if flags &&& mnt "MNT_RDONLY" ≠ 0 then "ro" else "rw") := by split <;> decide

/-- The buffer holds the options. -/
theorem mountOpts_holds {opts : Bytes} (hopts : opts.length = os.optsSize) :
    Holds (mountOpts os mnt flags opts) ([byte ','].intercalate (optionNames os mnt flags)) ∧
      (mountOpts os mnt flags opts).length = os.optsSize := by
  have hfits := (options_ok os).2
  have hsub : (((os.options.filter fun o => flags &&& mnt o.1 ≠ 0).map fun o => byte ',' :: ascii o.2).flatten).length ≤
      ((os.options.map fun o => byte ',' :: ascii o.2).flatten).length := ((List.filter_sublist.map _).flatten).length_le
  have hempty : Holds (memcpy opts 0 [0]) [] ∧ (memcpy opts 0 [0]).length = opts.length :=
    holds_memcpy (s := []) (y := opts) (t := []) List.not_mem_nil List.not_mem_nil (by rw [List.length_nil]; omega)
  obtain ⟨hfirst, hlen, -⟩ := holds_strAppend hempty.1 (literal (if flags &&& mnt "MNT_RDONLY" ≠ 0 then "ro" else "rw"))
  have hall := appendAll_holds ((os.options.filter fun o => flags &&& mnt o.1 ≠ 0).map fun o => literal ("," ++ o.2)) hfirst
  rw [List.nil_append, literal_first, hlen, hempty.2, hopts, appended_bytes,
    List.take_of_length_le (l := ascii _) (by rw [length_first]; omega), ← intercalate_optionNames,
    List.take_of_length_le (by rw [intercalate_optionNames, List.length_append, length_first]; omega)] at hall
  exact hall

/-- **No option is lost**: for all flags, and whatever was in the buffer, it holds the options with commas between them, and they are
found again at the commas. -/
theorem mount_opts_split (os : StatfsOs) (mnt : String → Nat) (flags : Nat) (opts : Bytes) (hopts : opts.length = os.optsSize) :
    (mountOpts os mnt flags opts).length = os.optsSize ∧
      (mountOpts os mnt flags opts).takeWhile (· ≠ 0) = [byte ','].intercalate (optionNames os mnt flags) ∧
      ((mountOpts os mnt flags opts).takeWhile (· ≠ 0)).splitOn (byte ',') = optionNames os mnt flags := by
  obtain ⟨hholds, hlen⟩ : Holds (mountOpts os mnt flags opts) ([byte ','].intercalate (optionNames os mnt flags)) ∧
      (mountOpts os mnt flags opts).length = os.optsSize := mountOpts_holds hopts
  refine ⟨hlen, hholds.read, ?_⟩
  rw [hholds.read]
  refine List.splitOn_intercalate _ (fun x hx => ?_) (List.cons_ne_nil _ _)
  rcases List.mem_cons.1 hx with rfl | hx
  · split <;> decide
  · obtain ⟨o, ho, rfl⟩ := List.mem_map.1 hx
    exact ((options_ok os).1 o (List.mem_of_mem_filter ho)).1

end

/-- A read-only mount with `MNT_NOSUID`, in a buffer that is full of garbage. -/
theorem mount_opts_split_nosuid :
    let mnt := fun name => if name = "MNT_RDONLY" then 1 else if name = "MNT_NOSUID" then 8 else 0
    ((mountOpts .freebsd mnt 9 (List.replicate 200 7)).takeWhile (· ≠ 0)).splitOn (byte ',') = [ascii "ro", ascii "nosuid"] := by
  intro mnt
  have hsplit := (mount_opts_split .freebsd mnt 9 (List.replicate 200 7) List.length_replicate).2.2
  rw [hsplit]
  decide

end Psutil
