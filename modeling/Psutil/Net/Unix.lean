import Psutil.Common.Text
import Psutil.Lib.Fold
import Psutil.Net.ProcNet

/-!
# `NetConnections.process_unix` (`_pslinux.py:881-915`)

| here | there |
| --- | --- |
| `yieldPairs` | the inner loop, with what it does to `type_` |
| `processLine`, `processUnix` | the body of the outer loop, and the generator |
| `Socket`, `SocketFile` | `unix_seq_show` of the kernel: a line of `/proc/net/unix`, and the file |

The generator is run to its end, and an error takes the tuples before it away. The path is the eighth word of the line if there
are eight. `processUnix_iff`: the tuples are right exactly when no socket that is listed has whitespace in its path, and no other
has a path that goes on, after a `\r`, with a text that is taken for a line.
-/

namespace Psutil.Unix

open Lib Common

/-- A tuple that is yielded. -/
structure Tuple where
  fd : Int
  family : Family
  type : Int
  laddr : Text
  raddr : Text
  status : ConnectionStatus
  pid : Option Nat
  deriving DecidableEq

/-- `_, _, _, _, type_, _, inode = tokens[0:7]`. -/
def unpack (tokens : List Text) : Option (Text × Text) :=
  match tokens.take 7 with
  | [_, _, _, _, type, _, inode] => some (type, inode)
  | _ => none

/-- `tokens[-1] if len(tokens) == 8 else ''`. -/
def pathOf (tokens : List Text) : Text := if tokens.length = 8 then tokens.getLastD [] else []

/-- `int(type_)`, of the word or of the number that it has become. -/
def intOf (U : UnicodeData) : Text ⊕ Int → Except Exc Int
  | .inl word => Text.int U word
  | .inr n => .ok n

section

variable (U : UnicodeData) (family : Family) (filterPid : Option Nat)

/-- `socktype_to_enum` keeps the number. -/
def yieldPairs (tokens : List Text) : List (Option Nat × Int) → (type : Text ⊕ Int) → Except Exc (List Tuple)
  | [], _ => .ok []
  | (pid, fd) :: pairs, type =>
    if filteredOut filterPid pid then yieldPairs tokens pairs type
    else
      let path := pathOf tokens
      match intOf U type with
      | .error e => .error e
      | .ok type => (yieldPairs tokens pairs (.inr type)).map (⟨fd, family, type, path, [], .none, pid⟩ :: ·)

variable (file : String) (inodes : Dict Text (List (Nat × Nat)))

def processLine (line : Text) : Except Exc (List Tuple) :=
  let tokens := Text.split line
  match unpack tokens with
  | none =>
    if 32 ∉ line then .ok []
    else .error (.runtimeError ("error while parsing " ++ file ++ "; malformed line " ++ U.repr line))
  | some (type, inode) => yieldPairs U family filterPid tokens (allOwners (inodes.get? inode)) (.inl type)

/-- `content` is what the file has. -/
def processUnix (C : FsEncoding) (content : Bytes) : Except Exc (List Tuple) :=
  -- skip the first line
  (((lines (C.readText content)).drop 1).mapM (processLine U family filterPid file inodes)).map List.flatten

end

/-! ## The file -/

/-- A word of visible ASCII characters. -/
def IsColumn (w : Bytes) : Prop := w ≠ [] ∧ ∀ b ∈ w, 33 ≤ b.toNat ∧ b.toNat ≤ 126

instance (w : Bytes) : Decidable (IsColumn w) :=
  decidable_of_iff (w ≠ [] ∧ w.all (fun b => 33 ≤ b.toNat ∧ b.toNat ≤ 126) = true) (by simp [IsColumn])

/-- A line. -/
structure Socket where
  num : Bytes
  refCount : Bytes
  protocol : Bytes
  flags : Bytes
  /-- The digits of the type; for every type there is, decimal ones. -/
  type : List Nat
  st : Bytes
  /-- The blanks that make the inode wider. -/
  pad : Nat
  inode : Bytes
  path : Option Bytes
  columns : ∀ w ∈ [num, refCount, protocol, flags, st, inode], IsColumn w
  digits : type ≠ [] ∧ ∀ d ∈ type, d < 10
  path_ok : ∀ p, path = some p → p ≠ [] ∧ 10 ∉ p

namespace Socket

variable (s : Socket)

def typeColumn : Bytes := s.type.map fun d => (48 + d).toUInt8

/-- The columns, with one blank after each. -/
def head : Bytes :=
  terminate 32 [s.num, s.refCount, s.protocol, s.flags, s.typeColumn, s.st] ++ (List.replicate s.pad 32 ++ s.inode)

def bytes : Bytes :=
  match s.path with
  | none => s.head
  | some p => s.head ++ 32 :: p

/-- What the local address is to be. -/
def laddr (C : FsEncoding) : Text := C.decode (s.path.getD [])

end Socket

structure SocketFile where
  header : Bytes
  sockets : List Socket
  header_ok : 10 ∉ header ∧ 13 ∉ header

def SocketFile.bytes (f : SocketFile) : Bytes := terminate 10 (f.header :: f.sockets.map Socket.bytes)

/-- Inodes with the descriptors that refer to them; none without any. -/
structure InodeTable where
  inodes : Dict Text (List (Nat × Nat))
  nonempty : ∀ inode, inodes.get? inode ≠ some []

/-- The `(pid, fd)` pairs that refer to a socket. -/
def Socket.pairs (C : FsEncoding) (table : InodeTable) (s : Socket) : List (Nat × Nat) :=
  (table.inodes.get? (C.decode s.inode)).getD []

/-- What a socket is listed under: these pairs, or `(None, -1)` if there are none, as far as the PID is asked for. -/
def Socket.owners (C : FsEncoding) (table : InodeTable) (filterPid : Option Nat) (s : Socket) : List (Option Nat × Int) :=
  let all := if s.pairs C table = [] then [(none, -1)] else (s.pairs C table).map fun p => (some p.1, (p.2 : Int))
  all.filter fun o => filterPid = none ∨ o.1 = filterPid

/-- **What is to be yielded for a socket**: its type and its path, under every such descriptor. -/
def Socket.tuples (C : FsEncoding) (family : Family) (table : InodeTable) (filterPid : Option Nat) (s : Socket) : List Tuple :=
  (s.owners C table filterPid).map fun o => ⟨o.2, family, ofDigits s.type, s.laddr C, [], .none, o.1⟩

/-! ## The table

`get_proc_inodes` and `get_all_inodes` return no inode without a pair.
-/

theorem addFd_nonempty {pid : Nat} {inodes inodes' : Inodes} {item : Nat × Except Errno Bytes}
    (h : ∀ inode, inodes.get? inode ≠ some []) (hok : addFd pid inodes item = .ok inodes') : ∀ inode, inodes'.get? inode ≠ some [] := by
  rw [addFd] at hok
  cases hlink : linkInode item.2 with
  | error e =>
    rw [hlink] at hok
    cases hok
  | ok found =>
    rw [hlink] at hok
    cases found with
    | none =>
      obtain rfl := Except.ok.inj hok
      exact h
    | some inode =>
      obtain rfl := Except.ok.inj hok
      intro i
      rw [Dict.get?_set]
      split_ifs
      · simp
      · exact h i

theorem getProcInodes_nonempty {N : NetSystem} {pid : Nat} {inodes : Inodes} (h : N.getProcInodes pid = .ok inodes) :
    ∀ inode, inodes.get? inode ≠ some [] := by
  rw [NetSystem.getProcInodes] at h
  cases hfds : N.fds pid with
  | error e =>
    rw [hfds] at h
    cases h
  | ok d =>
    rw [hfds] at h
    exact foldlM_inv (fun inodes : Inodes => ∀ inode, inodes.get? inode ≠ some []) (fun _ _ _ => addFd_nonempty) (fun _ => by simp) h

theorem getAllInodes_nonempty {N : NetSystem} {inodes : Inodes} (h : N.getAllInodes = .ok inodes) :
    ∀ inode, inodes.get? inode ≠ some [] := by
  refine foldlM_inv (fun inodes : Inodes => ∀ inode, inodes.get? inode ≠ some []) ?_ (fun _ => by simp) h
  intro done pid done' hdone hok
  rw [NetSystem.addInodes] at hok
  cases hown : N.getProcInodes pid with
  | error e =>
    rw [hown] at hok
    dsimp only at hok
    split_ifs at hok
    obtain rfl := Except.ok.inj hok
    exact hdone
  | ok own =>
    rw [hown] at hok
    obtain rfl := Except.ok.inj hok
    intro inode
    rw [Dict.get?_update_items]
    cases hget : own.get? inode with
    | none => exact hdone inode
    | some pairs => exact fun hnil => getProcInodes_nonempty hown inode (by rw [hget]; exact hnil)

/-- The inodes as `readlink` has them. -/
def InodeTable.ofInodes (C : FsEncoding) (inodes : Inodes) (h : ∀ inode, inodes.get? inode ≠ some []) : InodeTable where
  inodes := Dict.update ∅ (inodes.items.map fun p => (C.decode p.1, id p.2))
  nonempty := by
    intro inode hget
    have hmem := Dict.mem_items.2 hget
    rw [Dict.items_update_map C.injective id, Dict.update_empty_items] at hmem
    obtain ⟨⟨key, pairs⟩, hp, heq⟩ := List.mem_map.1 hmem
    obtain ⟨-, rfl⟩ := Prod.mk.inj heq
    exact h key (Dict.mem_items.1 hp)

/-- An inode has the same pairs under both names. -/
theorem InodeTable.get?_ofInodes (C : FsEncoding) {inodes : Inodes} (h : ∀ inode, inodes.get? inode ≠ some []) (inode : Bytes) :
    (InodeTable.ofInodes C inodes h).inodes.get? (C.decode inode) = inodes.get? inode := by
  ext pairs
  rw [← Dict.mem_items, ← Dict.mem_items, InodeTable.ofInodes, Dict.items_update_map C.injective id, Dict.update_empty_items, List.mem_map]
  constructor
  · rintro ⟨⟨key, value⟩, hp, heq⟩
    obtain ⟨hkey, rfl⟩ := Prod.mk.inj heq
    rwa [← C.injective hkey]
  · exact fun hp => ⟨_, hp, rfl⟩

/-! ## The inner loop -/

section

variable {U : UnicodeData} {family : Family} {filterPid : Option Nat} {tokens : List Text}

/-- With a type that is a number, every descriptor that is asked for has its tuple. -/
theorem yieldPairs_ok {n : Int} : ∀ {pairs : List (Option Nat × Int)} {type : Text ⊕ Int}, intOf U type = .ok n →
    yieldPairs U family filterPid tokens pairs type =
      .ok ((pairs.filter fun o => filterPid = none ∨ o.1 = filterPid).map fun o =>
        ⟨o.2, family, n, pathOf tokens, [], .none, o.1⟩)
  | [], _, _ => rfl
  | (pid, fd) :: pairs, type, h => by
    by_cases hf : filterPid = none ∨ pid = filterPid
    · have hout : filteredOut filterPid pid = false := by
        rcases hf with hf | hf <;> simp [filteredOut, hf]
      rw [yieldPairs, if_neg (by simp [hout]), h, List.filter_cons_of_pos (by simpa using hf), List.map_cons]
      dsimp only
      have hrest : intOf U (.inr n) = .ok n := rfl
      rw [yieldPairs_ok hrest]
      rfl
    · have hout : filteredOut filterPid pid = true := by
        rw [not_or] at hf
        simp [filteredOut, hf.1, Ne.symm hf.2]
      rw [yieldPairs, if_pos hout, List.filter_cons_of_neg (by simpa using hf), yieldPairs_ok h]

/-- Nothing is yielded where no descriptor is asked for. -/
theorem yieldPairs_eq_nil : ∀ {pairs : List (Option Nat × Int)} {type : Text ⊕ Int},
    yieldPairs U family filterPid tokens pairs type = .ok [] ↔ ∀ o ∈ pairs, filteredOut filterPid o.1 = true
  | [], _ => by simp [yieldPairs]
  | (pid, fd) :: pairs, type => by
    rw [yieldPairs, List.forall_mem_cons]
    by_cases hf : filteredOut filterPid pid = true
    · rw [if_pos hf, yieldPairs_eq_nil]
      exact ⟨fun h => ⟨hf, h⟩, And.right⟩
    · rw [if_neg hf]
      refine ⟨fun h => ?_, fun h => absurd h.1 hf⟩
      cases ht : intOf U type with
      | error e => simp [ht] at h
      | ok n =>
        rw [ht] at h
        dsimp only at h
        cases hrest : yieldPairs U family filterPid tokens pairs (.inr n) with
        | error e => simp [hrest, Except.map] at h
        | ok rest => simp [hrest, Except.map] at h

/-- The local address is the path of the line. -/
theorem laddr_of_yieldPairs : ∀ {pairs : List (Option Nat × Int)} {type : Text ⊕ Int} {tuples : List Tuple},
    yieldPairs U family filterPid tokens pairs type = .ok tuples → ∀ t ∈ tuples, t.laddr = pathOf tokens
  | [], _, _, h, t, ht => by
    obtain rfl := Except.ok.inj h
    cases ht
  | (pid, fd) :: pairs, type, tuples, h, t, ht => by
    rw [yieldPairs] at h
    by_cases hf : filteredOut filterPid pid = true
    · rw [if_pos hf] at h
      exact laddr_of_yieldPairs h t ht
    · rw [if_neg hf] at h
      cases hint : intOf U type with
      | error e => simp [hint] at h
      | ok n =>
        rw [hint] at h
        dsimp only at h
        cases hrest : yieldPairs U family filterPid tokens pairs (.inr n) with
        | error e => simp [hrest, Except.map] at h
        | ok rest =>
          rw [hrest] at h
          obtain rfl := Except.ok.inj h
          rcases List.mem_cons.1 ht with rfl | ht
          · rfl
          · exact laddr_of_yieldPairs hrest t ht

end

/-! ## One line -/

section

variable {U : UnicodeData} {family : Family} {filterPid : Option Nat} {file : String} {inodes : Dict Text (List (Nat × Nat))}

/-- A path that is read has no whitespace. -/
theorem isSpace_pathOf (line : Text) : ∀ c ∈ pathOf (Text.split line), Text.isSpace c = false := by
  rw [pathOf]
  split_ifs with hlen
  · have hne : Text.split line ≠ [] := by
      intro hnil
      rw [hnil] at hlen
      cases hlen
    rw [List.getLastD_eq_getLast?, List.getLast?_eq_some_getLast hne]
    exact (mem_wordsBy (List.getLast_mem hne)).2
  · exact fun c hc => absurd hc List.not_mem_nil

theorem processLine_none {line : Text} (h : unpack (Text.split line) = none) : processLine U family filterPid file inodes line =
    if 32 ∉ line then .ok [] else .error (.runtimeError ("error while parsing " ++ file ++ "; malformed line " ++ U.repr line)) := by
  unfold processLine
  simp only [h]

theorem processLine_some {line type inode : Text} (h : unpack (Text.split line) = some (type, inode)) :
    processLine U family filterPid file inodes line =
      yieldPairs U family filterPid (Text.split line) (allOwners (inodes.get? inode)) (.inl type) := by
  unfold processLine
  simp only [h]

theorem laddr_of_processLine {line : Text} {tuples : List Tuple} (h : processLine U family filterPid file inodes line = .ok tuples) :
    ∀ t ∈ tuples, ∀ c ∈ t.laddr, Text.isSpace c = false := by
  intro t ht
  cases hu : unpack (Text.split line) with
  | none =>
    rw [processLine_none hu] at h
    split_ifs at h
    obtain rfl := Except.ok.inj h
    cases ht
  | some columns =>
    rw [processLine_some hu] at h
    rw [laddr_of_yieldPairs h t ht]
    exact isSpace_pathOf line

/-- Nothing comes of the line: it has too few words and no blank, or an inode whose descriptors are not asked for. -/
def Silent (filterPid : Option Nat) (inodes : Dict Text (List (Nat × Nat))) (line : Text) : Prop :=
  match unpack (Text.split line) with
  | none => 32 ∉ line
  | some (_, inode) => ∀ o ∈ allOwners (inodes.get? inode), filteredOut filterPid o.1 = true

theorem processLine_eq_nil {line : Text} :
    processLine U family filterPid file inodes line = .ok [] ↔ Silent filterPid inodes line := by
  cases hu : unpack (Text.split line) with
  | none =>
    rw [processLine_none hu]
    simp only [Silent, hu]
    split_ifs with hblank <;> simp [hblank]
  | some columns =>
    rw [processLine_some hu, yieldPairs_eq_nil]
    simp only [Silent, hu]

end

namespace Socket

variable (s : Socket) (C : FsEncoding)

/-- The columns as words. -/
def words : List Text :=
  [s.num, s.refCount, s.protocol, s.flags, s.typeColumn, s.st, s.inode].map fun w => w.map UInt8.toNat

theorem typeColumn_toNat : s.typeColumn.map UInt8.toNat = s.type.map (48 + ·) := by
  rw [typeColumn, List.map_map]
  refine List.map_congr_left fun d hd => ?_
  have hlt := s.digits.2 d hd
  simp only [Function.comp_apply, Nat.toUInt8_eq, UInt8.toNat_ofNat']
  omega

theorem isColumn_type : IsColumn s.typeColumn := by
  refine ⟨fun hnil => s.digits.1 (List.map_eq_nil_iff.1 hnil), fun b hb => ?_⟩
  have hmem : b.toNat ∈ s.type.map (48 + ·) := typeColumn_toNat s ▸ List.mem_map_of_mem hb
  obtain ⟨d, hd, hdb⟩ := List.mem_map.1 hmem
  have hlt := s.digits.2 d hd
  omega

theorem isColumn_left : ∀ w ∈ [s.num, s.refCount, s.protocol, s.flags, s.typeColumn, s.st], IsColumn w := by
  have hcolumns := s.columns
  simp only [List.forall_mem_cons] at hcolumns ⊢
  exact ⟨hcolumns.1, hcolumns.2.1, hcolumns.2.2.1, hcolumns.2.2.2.1, s.isColumn_type, hcolumns.2.2.2.2.1, by simp⟩

theorem isColumn_inode : IsColumn s.inode := s.columns _ (by simp)

/-- Blanks and visible characters. -/
theorem mem_head {b : UInt8} (h : b ∈ s.head) : b = 32 ∨ 33 ≤ b.toNat ∧ b.toNat ≤ 126 := by
  rw [head, List.mem_append, List.mem_append] at h
  rcases h with h | h | h
  · rcases mem_terminate h with hblank | ⟨w, hw, hb⟩
    · exact Or.inl hblank
    · exact Or.inr ((s.isColumn_left w hw).2 b hb)
  · exact Or.inl (List.eq_of_mem_replicate h)
  · exact Or.inr (s.isColumn_inode.2 b h)

theorem head_ascii : ∀ b ∈ s.head, b.toNat < 128 := by
  intro b hb
  rcases s.mem_head hb with rfl | h
  · decide
  · omega

/-- A line starts with its columns, and they are no lines. -/
theorem notMem_head {b : UInt8} (hb : b.toNat < 32) : b.toNat ∉ s.head.map UInt8.toNat := by
  intro h
  obtain ⟨d, hd, hdb⟩ := List.mem_map.1 h
  rcases s.mem_head hd with rfl | hd
  · rw [← hdb] at hb
    exact absurd hb (by decide)
  · omega

theorem not_isSpace_of_isColumn {w : Bytes} (h : IsColumn w) :
    w.map UInt8.toNat ≠ [] ∧ ∀ c ∈ w.map UInt8.toNat, Text.isSpace c = false := by
  refine ⟨fun hnil => h.1 (List.map_eq_nil_iff.1 hnil), fun c hc => ?_⟩
  obtain ⟨b, hb, rfl⟩ := List.mem_map.1 hc
  have hrange := h.2 b hb
  simp [Text.isSpace]
  omega

/-- Whitespace ends the columns. -/
theorem split_head {c : Nat} (hc : Text.isSpace c = true) (rest : Text) :
    Text.split (s.head.map UInt8.toNat ++ c :: rest) = s.words ++ Text.split rest := by
  have hleft : ∀ w ∈ [s.num, s.refCount, s.protocol, s.flags, s.typeColumn, s.st].map (List.map UInt8.toNat),
      w ≠ [] ∧ ∀ d ∈ w, Text.isSpace d = false := by
    intro w hw
    obtain ⟨v, hv, rfl⟩ := List.mem_map.1 hw
    exact not_isSpace_of_isColumn (s.isColumn_left v hv)
  obtain ⟨hne, hinode⟩ := not_isSpace_of_isColumn s.isColumn_inode
  have hmap : ∀ l : List Bytes, (terminate 32 l).map UInt8.toNat = terminate 32 (l.map (List.map UInt8.toNat)) :=
    map_terminate rfl fun x y => by simp
  rw [head, List.map_append, List.map_append, hmap, List.map_replicate, List.append_assoc, List.append_assoc, Text.split,
    wordsBy_terminate (by decide) _ hleft]
  simp only [show UInt8.toNat 32 = 32 from rfl]
  rw [wordsBy_replicate (by decide), wordsBy_append hc, wordsBy_word hne hinode]
  rfl

/-- The path is the word behind the columns, if there is one only. -/
theorem pathOf_words (l : List Text) : pathOf (s.words ++ l) = if l.length = 1 then l.getLastD [] else [] := by
  have hlen : (s.words ++ l).length = 7 + l.length := by rw [List.length_append]; rfl
  rw [pathOf, hlen]
  by_cases h : l.length = 1
  · obtain ⟨w, rfl⟩ := List.length_eq_one_iff.1 h
    rfl
  · rw [if_neg h, if_neg (by omega)]

/-- The lines that a line becomes, and the words of the first one. -/
theorem crLines_bytes : ∃ x first, crLines (s.laddr C) = x :: (crLines (s.laddr C)).tail ∧
    crLines (C.decode s.bytes) = first :: (crLines (s.laddr C)).tail ∧ Text.split (first ++ [10]) = s.words ++ Text.split x := by
  have hcr : (13 : Nat) ∉ s.head.map UInt8.toNat := s.notMem_head (b := 13) (by decide)
  cases hp : s.path with
  | none =>
    have hdecode : C.decode s.bytes = s.head.map UInt8.toNat := by
      have hbytes : s.bytes = s.head := by rw [bytes, hp]
      have hascii := C.decode_ascii s.head_ascii []
      rw [List.append_nil, C.nil, List.append_nil] at hascii
      rw [hbytes, hascii]
    have hladdr : s.laddr C = [] := by rw [laddr, hp]; exact C.nil
    refine ⟨[], s.head.map UInt8.toNat, by rw [hladdr]; rfl, ?_, ?_⟩
    · rw [hdecode, crLines_of_notMem hcr, hladdr]
      rfl
    · rw [s.split_head (by decide)]
  | some p =>
    have hdecode : C.decode s.bytes = (s.head.map UInt8.toNat ++ [32]) ++ C.decode p := by
      have hbytes : s.bytes = s.head ++ 32 :: p := by rw [bytes, hp]
      have hblank := C.decode_ascii (w := [32]) (List.forall_mem_singleton.2 (by decide)) p
      rw [hbytes, C.decode_ascii s.head_ascii, List.append_assoc]
      exact congrArg _ hblank
    have hladdr : s.laddr C = C.decode p := by rw [laddr, hp]; rfl
    obtain ⟨x, xs, hx⟩ := exists_cons_splitCr (C.decode p)
    have hlines : crLines (C.decode p) = x :: xs := hx
    refine ⟨x, (s.head.map UInt8.toNat ++ [32]) ++ x, by rw [hladdr, hlines]; rfl, ?_, ?_⟩
    · rw [hdecode, crLines_append (by simpa using hcr), hladdr, hlines]
      rfl
    · have happend : Text.split (x ++ [10]) = Text.split x := by
        have hend := wordsBy_append (p := Text.isSpace) (c := 10) (by decide) x []
        rwa [wordsBy_nil, List.append_nil] at hend
      rw [List.append_assoc, List.append_assoc, List.singleton_append, s.split_head (by decide), happend]

/-- A word of the path, if it has no whitespace. -/
theorem pathOf_laddr (h : ∀ c ∈ s.laddr C, Text.isSpace c = false) :
    pathOf (s.words ++ Text.split (s.laddr C)) = s.laddr C := by
  by_cases hnil : s.laddr C = []
  · rw [hnil, Text.split, wordsBy_nil, pathOf_words]
    rfl
  · rw [Text.split, wordsBy_word hnil h, pathOf_words]
    rfl

theorem newline_notMem_bytes : 10 ∉ s.bytes := by
  have hhead : (10 : UInt8) ∉ s.head := fun h => s.notMem_head (b := 10) (by decide) (List.mem_map_of_mem h)
  cases hp : s.path with
  | none => rwa [bytes, hp]
  | some p =>
    rw [bytes, hp]
    simpa [hhead] using (s.path_ok p hp).2

/-! ## The lines of a socket -/

/-- All of them, with their newlines. -/
def lines : List Text := (crLines (C.decode s.bytes)).map (· ++ [10])

/-- Those after the first one. -/
def moreLines : List Text := (crLines (s.laddr C)).tail.map (· ++ [10])

variable (table : InodeTable) (filterPid : Option Nat)

/-- **When a socket is read as it is**: if it is listed, its path has no whitespace, and if not, nothing comes of what its path has
after a `\r`. -/
def Fits : Prop :=
  if s.owners C table filterPid ≠ [] then ∀ c ∈ s.laddr C, Text.isSpace c = false
  else ∀ line ∈ s.moreLines C, Silent filterPid table.inodes line

variable {table filterPid} {U : UnicodeData} {family : Family} {file : String}

theorem owners_eq : s.owners C table filterPid =
    (allOwners (table.inodes.get? (C.decode s.inode))).filter fun o => filterPid = none ∨ o.1 = filterPid := by
  rw [owners, pairs]
  cases hget : table.inodes.get? (C.decode s.inode) with
  | none => rfl
  | some pairs =>
    have hne : pairs ≠ [] := fun hnil => table.nonempty _ (hnil ▸ hget)
    rw [Option.getD_some, if_neg hne]
    rfl

/-- The tuples of a line that starts with the columns. -/
theorem processLine_words {line x : Text} (hsplit : Text.split line = s.words ++ Text.split x) :
    processLine U family filterPid file table.inodes line = .ok ((s.owners C table filterPid).map fun o =>
      ⟨o.2, family, ofDigits s.type, pathOf (s.words ++ Text.split x), [], .none, o.1⟩) := by
  have hinode : s.inode.map UInt8.toNat = C.decode s.inode := by
    have hascii := C.decode_ascii (w := s.inode) (fun b hb => by have := s.isColumn_inode.2 b hb; omega) []
    rw [List.append_nil, C.nil, List.append_nil] at hascii
    exact hascii.symm
  have hunpack : unpack (Text.split line) = some (s.type.map (48 + ·), C.decode s.inode) := by
    rw [hsplit, ← hinode, ← typeColumn_toNat]
    rfl
  have hint : intOf U (.inl (s.type.map (48 + ·))) = .ok (ofDigits s.type : Int) := int_digits U s.digits.1 s.digits.2
  rw [processLine_some hunpack, yieldPairs_ok hint, hsplit, owners_eq]

/-- The first line has the tuples of the socket, if it has any, unless there is whitespace in the path. -/
theorem processLine_first (U : UnicodeData) (family : Family) (file : String) (h : s.owners C table filterPid ≠ [] → ∀ c ∈ s.laddr C, Text.isSpace c = false) :
    ∃ first, s.lines C = first :: s.moreLines C ∧
      processLine U family filterPid file table.inodes first = .ok (s.tuples C family table filterPid) := by
  obtain ⟨x, first, hladdr, hlines, hsplit⟩ := s.crLines_bytes C
  refine ⟨first ++ [10], by rw [lines, hlines]; rfl, ?_⟩
  rw [s.processLine_words C hsplit, tuples]
  by_cases howners : s.owners C table filterPid = []
  · rw [howners]
    rfl
  · have hspace := h howners
    have hcr : 13 ∉ s.laddr C := fun hc => absurd (hspace 13 hc) (by decide)
    have hx : x = s.laddr C := by
      rw [crLines_of_notMem hcr] at hladdr
      exact (List.cons.inj hladdr).1.symm
    rw [hx, s.pathOf_laddr C hspace]

/-- A socket that is listed and read as it is has one line. -/
theorem moreLines_of_listed (h : ∀ c ∈ s.laddr C, Text.isSpace c = false) : s.moreLines C = [] := by
  have hcr : 13 ∉ s.laddr C := fun hc => absurd (h 13 hc) (by decide)
  rw [moreLines, crLines_of_notMem hcr]
  rfl

end Socket

/-! ## The file -/

/-- The lines that are read behind the header. -/
theorem SocketFile.lines_bytes (C : FsEncoding) (f : SocketFile) :
    (lines (C.readText f.bytes)).drop 1 = f.sockets.flatMap fun s => s.lines C := by
  have hlf : ∀ line ∈ f.header :: f.sockets.map Socket.bytes, 10 ∉ line := by
    rw [List.forall_mem_cons]
    refine ⟨f.header_ok.1, fun line hline => ?_⟩
    obtain ⟨s, -, rfl⟩ := List.mem_map.1 hline
    exact s.newline_notMem_bytes
  have hheader : crLines (C.decode f.header) = [C.decode f.header] :=
    crLines_of_notMem fun hc => f.header_ok.2 (C.mem (b := 13) (by decide) hc)
  rw [SocketFile.bytes, C.lines_readText hlf, List.flatMap_cons, hheader, List.map_append, List.map_singleton, List.singleton_append,
    List.drop_one, List.tail_cons, List.flatMap_map, List.map_flatMap]
  rfl

/-- The lines of a socket that is read as it is. -/
theorem Socket.Fits.lines_ok {s : Socket} {C : FsEncoding} {table : InodeTable} {filterPid : Option Nat} (h : s.Fits C table filterPid)
    (U : UnicodeData) (family : Family) (file : String) :
    (∀ line ∈ s.lines C, processLine U family filterPid file table.inodes line =
      .ok (okItems (processLine U family filterPid file table.inodes line))) ∧
    (s.lines C).flatMap (fun line => okItems (processLine U family filterPid file table.inodes line)) =
      s.tuples C family table filterPid := by
  rw [Socket.Fits] at h
  have hspace : s.owners C table filterPid ≠ [] → ∀ c ∈ s.laddr C, Text.isSpace c = false := by
    intro howners
    rwa [if_pos howners] at h
  have hmore : ∀ line ∈ s.moreLines C, processLine U family filterPid file table.inodes line = .ok [] := by
    intro line hline
    by_cases howners : s.owners C table filterPid = []
    · rw [if_neg (not_not_intro howners)] at h
      exact processLine_eq_nil.2 (h line hline)
    · rw [s.moreLines_of_listed C (hspace howners)] at hline
      cases hline
  obtain ⟨first, hlines, hfirst⟩ := s.processLine_first C U family file hspace
  have hnil : (s.moreLines C).flatMap (fun line => okItems (processLine U family filterPid file table.inodes line)) = [] :=
    List.flatMap_eq_nil_iff.2 fun line hline => by rw [hmore line hline]; rfl
  rw [hlines, List.forall_mem_cons, List.flatMap_cons, hfirst, hnil, List.append_nil]
  exact ⟨⟨rfl, fun line hline => by rw [hmore line hline]; rfl⟩, rfl⟩

/-- The paths that are yielded have no whitespace. -/
theorem not_isSpace_of_flatMap {U : UnicodeData} {C : FsEncoding} {family : Family} {filterPid : Option Nat} {file : String}
    {table : InodeTable} {sockets : List Socket}
    (hall : ∀ line ∈ sockets.flatMap fun s => s.lines C, processLine U family filterPid file table.inodes line =
      .ok (okItems (processLine U family filterPid file table.inodes line)))
    (hflat : (sockets.flatMap fun s => s.lines C).flatMap (fun line => okItems (processLine U family filterPid file table.inodes line)) =
      sockets.flatMap (Socket.tuples C family table filterPid)) :
    ∀ s ∈ sockets, s.owners C table filterPid ≠ [] → ∀ c ∈ s.laddr C, Text.isSpace c = false := by
  intro s hs howners
  obtain ⟨o, ho⟩ := List.exists_mem_of_ne_nil _ howners
  have htuple : ⟨o.2, family, ofDigits s.type, s.laddr C, [], .none, o.1⟩ ∈ s.tuples C family table filterPid :=
    List.mem_map.2 ⟨o, ho, rfl⟩
  have hmem := List.mem_flatMap.2 ⟨s, hs, htuple⟩
  rw [← hflat] at hmem
  obtain ⟨line, hline, ht⟩ := List.mem_flatMap.1 hmem
  exact laddr_of_processLine (hall line hline) _ ht

/-- **`process_unix` yields the tuples of the sockets, exactly when** every socket is read as it is. -/
theorem processUnix_iff (U : UnicodeData) (C : FsEncoding) (family : Family) (filterPid : Option Nat) (file : String)
    (table : InodeTable) (f : SocketFile) :
    processUnix U family filterPid file table.inodes C f.bytes = .ok (f.sockets.flatMap (Socket.tuples C family table filterPid)) ↔
      ∀ s ∈ f.sockets, s.Fits C table filterPid := by
  rw [processUnix, f.lines_bytes, mapM_flatten_ok_iff]
  constructor
  · rintro ⟨hall, hflat⟩
    have hspace := not_isSpace_of_flatMap hall hflat
    have hfirst : ∀ s ∈ f.sockets, ∃ first, s.lines C = first :: s.moreLines C ∧
        processLine U family filterPid file table.inodes first = .ok (s.tuples C family table filterPid) :=
      fun s hs => s.processLine_first C U family file (hspace s hs)
    -- the first lines have all the tuples, so that the others have none
    have hsum : f.sockets.flatMap (fun s => s.tuples C family table filterPid ++
        (s.moreLines C).flatMap fun line => okItems (processLine U family filterPid file table.inodes line)) =
        f.sockets.flatMap (Socket.tuples C family table filterPid) := by
      rw [← hflat, List.flatMap_assoc]
      refine List.flatMap_congr fun s hs => ?_
      obtain ⟨first, hlines, hok⟩ := hfirst s hs
      rw [hlines, List.flatMap_cons, hok]
      rfl
    intro s hs
    rw [Socket.Fits]
    split_ifs with howners
    · exact hspace s hs howners
    · intro line hline
      have hnil := List.flatMap_eq_nil_iff.1 (eq_nil_of_flatMap_eq hsum s hs) line hline
      obtain ⟨first, hlines, -⟩ := hfirst s hs
      have hok := hall line (List.mem_flatMap.2 ⟨s, hs, hlines ▸ List.mem_cons_of_mem first hline⟩)
      rw [hnil] at hok
      exact processLine_eq_nil.1 hok
  · intro hfits
    have hok : ∀ s ∈ f.sockets, _ := fun s hs => (hfits s hs).lines_ok U family file
    refine ⟨fun line hline => ?_, ?_⟩
    · obtain ⟨s, hs, hline⟩ := List.mem_flatMap.1 hline
      exact (hok s hs).1 line hline
    · rw [List.flatMap_assoc]
      exact List.flatMap_congr fun s hs => (hok s hs).2

/-- A listening socket below `/run`. -/
def listening (path : Bytes) (h : path ≠ [] ∧ 10 ∉ path) : Socket where
  num := ascii "ffff9d5a4b2c8000:"
  refCount := ascii "00000002"
  protocol := ascii "00000000"
  flags := ascii "00010000"
  type := [0, 0, 0, 1]
  st := ascii "01"
  pad := 0
  inode := ascii "17"
  path := some path
  columns := by decide
  digits := by decide
  path_ok := by
    rintro p ⟨rfl⟩
    exact h

/-- ASCII only. -/
def asciiData : UnicodeData := ⟨fun c => if 48 ≤ c ∧ c ≤ 57 then some (c - 48) else none, fun _ _ => rfl, fun _ => ""⟩

/-- The path of `/run/my app` is `''`. -/
theorem processUnix_blank :
    processUnix asciiData .unix none "/proc/net/unix" ∅ .utf8
      (SocketFile.bytes ⟨ascii "Num", [listening (ascii "/run/my app") (by decide)], by decide⟩) =
      .ok [⟨-1, .unix, 1, [], [], .none, none⟩] ∧
    (listening (ascii "/run/my app") (by decide)).tuples .utf8 .unix ⟨∅, fun _ => nofun⟩ none =
      [⟨-1, .unix, 1, text "/run/my app", [], .none, none⟩] := by
  decide

end Psutil.Unix
