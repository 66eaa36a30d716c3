import Mathlib.Data.List.Dedup
import Psutil.Lib.Fold
import Psutil.Net.ProcNet

/-!
# The two views of the connections

`get_all_inodes` merges the inodes of the processes with `update`, so of the processes that share a socket only the
last one keeps it, and the system-wide list names that process alone. `views_agree_iff`: the list of a process is its
part of the system-wide one exactly when it is the last holder of all its sockets of that kind.
-/

namespace Psutil

open Lib Bytes

/-- The descriptors among `links` that refer to a socket. -/
def linksTo (links : List (Nat × Except Errno Bytes)) (inode : Bytes) : List Nat :=
  links.filterMap fun item => if linkInode item.2 = .ok (some inode) then some item.1 else none

theorem mem_linksTo {links : List (Nat × Except Errno Bytes)} {inode : Bytes} {fd : Nat} :
    fd ∈ linksTo links inode ↔ ∃ link, (fd, link) ∈ links ∧ linkInode link = .ok (some inode) := by
  simp only [linksTo, List.mem_filterMap, Option.ite_none_right_eq_some, Option.some.injEq]
  constructor
  · rintro ⟨⟨fd', link⟩, hm, hl, rfl⟩
    exact ⟨link, hm, hl⟩
  · rintro ⟨link, hm, hl⟩
    exact ⟨(fd, link), hm, hl, rfl⟩

namespace NetSystem

variable (N : NetSystem)

/-- The descriptors of a process that refer to a socket. -/
def descriptors (pid : Nat) (inode : Bytes) : List Nat :=
  match N.fds pid with
  | .error _ => []
  | .ok d => linksTo d.items inode

/-- The last of the processes, in the order of `pids()`, that has a socket open. -/
def lastHolder (inode : Bytes) : Option Nat := (N.pids.filter fun pid => N.descriptors pid inode ≠ []).getLast?

variable {N}

/-- A descriptor refers to one file. -/
theorem descriptors_inj {pid fd : Nat} {inode inode' : Bytes} (h : fd ∈ N.descriptors pid inode)
    (h' : fd ∈ N.descriptors pid inode') : inode = inode' := by
  unfold descriptors at h h'
  cases hd : N.fds pid with
  | error e => rw [hd] at h; cases h
  | ok d =>
    rw [hd] at h h'
    obtain ⟨link, hm, hl⟩ := mem_linksTo.1 h
    obtain ⟨link', hm', hl'⟩ := mem_linksTo.1 h'
    obtain rfl : link = link' := Option.some.inj ((Dict.mem_items.1 hm).symm.trans (Dict.mem_items.1 hm'))
    exact Option.some.inj (Except.ok.inj (hl.symm.trans hl'))

/-! ## The inodes -/

/-- The pairs of a process, if it has any. -/
def pairs? (N : NetSystem) (pid : Nat) (inode : Bytes) : Option (List (Nat × Nat)) :=
  if N.descriptors pid inode = [] then none else some ((N.descriptors pid inode).map (pid, ·))

/-- `get_proc_inodes` of a process whose descriptors can be read. -/
theorem getProcInodes_spec {pid : Nat} {d : Dict Nat (Except Errno Bytes)} (hd : N.fds pid = .ok d)
    (hlinks : ∀ p ∈ d.items, ∃ r, linkInode p.2 = .ok r) :
    ∃ inodes, N.getProcInodes pid = .ok inodes ∧ ∀ i, inodes.get? i = N.pairs? pid i := by
  have hloop : ∃ inodes, d.items.foldlM (addFd pid) ∅ = .ok inodes ∧
      ∀ i, inodes.get? i = if linksTo d.items i = [] then none else some ((linksTo d.items i).map (pid, ·)) := by
    refine foldlM_ok (fun done (inodes : Inodes) => ∀ i, inodes.get? i =
      if linksTo done i = [] then none else some ((linksTo done i).map (pid, ·))) ?_ (by simp [linksTo])
    rintro done ⟨fd, link⟩ rest inodes hl hinv
    obtain ⟨r, hr⟩ := hlinks (fd, link) (by simp [hl])
    have hr : linkInode link = .ok r := hr
    cases r with
    | none =>
      refine ⟨inodes, by simp [addFd, hr, bind, Except.bind, pure, Except.pure], fun i => ?_⟩
      have hno : linksTo (done ++ [(fd, link)]) i = linksTo done i := by simp [linksTo, hr]
      rw [hno, hinv]
    | some inode =>
      refine ⟨inodes.set inode ((inodes.get? inode).getD [] ++ [(pid, fd)]),
        by simp [addFd, hr, bind, Except.bind, pure, Except.pure], fun i => ?_⟩
      rw [Dict.get?_set]
      by_cases hi : i = inode
      · subst hi
        have hyes : linksTo (done ++ [(fd, link)]) i = linksTo done i ++ [fd] := by simp [linksTo, hr]
        rw [hyes, hinv]
        by_cases he : linksTo done i = [] <;> simp [he]
      · have hno : linksTo (done ++ [(fd, link)]) i = linksTo done i := by simp [linksTo, hr, Ne.symm hi]
        rw [if_neg hi, hno, hinv]
  obtain ⟨inodes, hrun, hget⟩ := hloop
  refine ⟨inodes, by simp [getProcInodes, hd, hrun], fun i => ?_⟩
  have hlinks' : N.descriptors pid i = linksTo d.items i := by simp [descriptors, hd]
  rw [hget, pairs?, hlinks']

/-- `/proc/PID/fd` can be read, and so can the links in it. -/
def FdsReadable (N : NetSystem) : Prop :=
  ∀ pid ∈ N.pids, ∃ d, N.fds pid = .ok d ∧ ∀ p ∈ d.items, ∃ r, linkInode p.2 = .ok r

/-- `get_all_inodes`: a socket belongs to its last holder. -/
theorem getAllInodes_spec (h : N.FdsReadable) :
    ∃ inodes, N.getAllInodes = .ok inodes ∧ ∀ i, inodes.get? i = (N.lastHolder i).bind (N.pairs? · i) := by
  refine foldlM_ok (fun done (inodes : Inodes) => ∀ i, inodes.get? i =
    ((done.filter fun pid => N.descriptors pid i ≠ []).getLast?).bind (N.pairs? · i)) ?_ (by simp)
  intro done pid rest inodes hl hinv
  obtain ⟨d, hd, hlinks⟩ := h pid (by simp [hl])
  obtain ⟨own, hown, hget⟩ := getProcInodes_spec hd hlinks
  refine ⟨inodes.update own.items, by simp [addInodes, hown], fun i => ?_⟩
  rw [Dict.get?_update_items, hget, hinv, List.filter_append]
  by_cases he : N.descriptors pid i = []
  · simp [pairs?, he]
  · simp [pairs?, he]

end NetSystem

/-! ## The lines -/

/-- The columns of a line, apart from the descriptor. -/
structure Sock where
  inode : Bytes
  type : Int
  laddr : Addr
  raddr : Addr
  status : ConnectionStatus
  deriving DecidableEq

def Sock.conn (proto : Proto) (s : Sock) (fd : Int) : Conn := ⟨fd, proto.family, s.type, s.laddr, s.raddr, s.status⟩

/-- What a line shows: an error, nothing for a line that is passed over, or a socket. -/
def shown (plat : NetPlatform) (proto : Proto) (line : Bytes) : Option (Option Sock) :=
  if proto = .unix then
    match unixTokens (split line) with
    | none => if line.contains (byte ' ') then none else some none
    | some (type, inode) => match int type with
      | .error _ => none
      | .ok type => some (some ⟨inode, type, .path (unixPath (split line)), .path [], .none⟩)
  else
    match inetTokens line with
    | none => none
    | some (laddr, raddr, status, inode) => match inetColumns plat proto laddr raddr status with
      | .error _ => none
      | .ok none => some none
      | .ok (some (laddr, raddr, status)) => some (some ⟨inode, proto.type, laddr, raddr, status⟩)

/-- The owners under which a socket is listed: an inet socket under one descriptor only. -/
def Proto.owners (proto : Proto) (pairs : Option (List (Nat × Nat))) : List (Option Nat × Int) :=
  if proto = .unix then allOwners pairs else (allOwners pairs).take 1

/-- The rows of one socket. -/
def rowsOf (proto : Proto) (inodes : Inodes) (filterPid : Option Nat) (s : Sock) : List Row :=
  ((proto.owners (inodes.get? s.inode)).filter fun o => !filteredOut filterPid o.1).map fun o => (s.conn proto o.2, o.1)

/-- The rows of one line. -/
def rowsOfLine (plat : NetPlatform) (proto : Proto) (inodes : Inodes) (filterPid : Option Nat) (line : Bytes) : List Row :=
  (shown plat proto line).join.toList.flatMap (rowsOf proto inodes filterPid)

section
variable {plat : NetPlatform} {proto : Proto} {inodes : Inodes} {filterPid : Option Nat} {line : Bytes} {o : Option Sock}

theorem unixLine_spec (h : shown plat .unix line = some o) (n : Nat) :
    unixLine inodes filterPid (line, n) = .ok (o.toList.flatMap (rowsOf .unix inodes filterPid)) := by
  rw [shown, if_pos rfl] at h
  unfold unixLine
  dsimp only
  cases ht : unixTokens (split line) with
  | none =>
    simp only [ht] at h
    split at h
    · cases h
    · rename_i hsp
      cases h
      simp only [hsp, Bool.not_false, if_true]
      rfl
  | some tokens =>
    obtain ⟨type, inode⟩ := tokens
    simp only [ht] at h
    cases hint : int type with
    | error e =>
      rw [hint] at h
      cases h
    | ok t =>
      rw [hint] at h
      cases h
      simp only [hint, bind, Except.bind, pure, Except.pure]
      rw [mapM_ok fun _ _ => rfl]
      simp [rowsOf, Proto.owners, Sock.conn, Proto.family]

/-- An inet socket is listed under the first descriptor. -/
theorem firstOwner_eq {pairs : Option (List (Nat × Nat))} (hne : pairs ≠ some []) :
    ∃ x, firstOwner pairs = .ok x ∧ (allOwners pairs).take 1 = [x] := by
  cases pairs with
  | none => exact ⟨(none, -1), rfl, rfl⟩
  | some l =>
    cases l with
    | nil => exact absurd rfl hne
    | cons p l => exact ⟨(some p.1, p.2), rfl, rfl⟩

theorem inetLine_spec (hp : proto ≠ .unix) (hne : ∀ i, inodes.get? i ≠ some []) (h : shown plat proto line = some o) (n : Nat) :
    inetLine plat proto inodes filterPid (line, n) = .ok (o.toList.flatMap (rowsOf proto inodes filterPid)) := by
  rw [shown, if_neg hp] at h
  unfold inetLine
  split at h
  · cases h
  · rename_i laddr raddr status inode ht
    rw [ht]
    obtain ⟨x, hfirst, htake⟩ := firstOwner_eq (hne inode)
    simp only [hfirst, bind, Except.bind, pure, Except.pure]
    split at h
    · cases h
    · rename_i hc
      cases h
      simp [hc]
    · rename_i l r st hc
      cases h
      by_cases hf : filteredOut filterPid x.1 = true
      · simp [hf, rowsOf, Proto.owners, hp, htake]
      · simp [hf, hc, rowsOf, Proto.owners, hp, htake, Sock.conn]

end

namespace NetSystem

/-! ## The files -/

/-- The sockets that a file shows. -/
def socks (N : NetSystem) (proto : Proto) : List Sock :=
  match N.files proto with
  | none => []
  | some lines => lines.tail.filterMap fun line => (shown N.platform proto line).join

/-- The files are there, those of IPv6 apart, and their lines are as the kernel prints them. -/
structure FilesOk (N : NetSystem) : Prop where
  there : ∀ proto, N.files proto = none → proto = .tcp6 ∨ proto = .udp6
  lines : ∀ proto lines, N.files proto = some lines → ∀ line ∈ lines.tail, (shown N.platform proto line).isSome

variable {N : NetSystem} {inodes : Inodes}

theorem processProto_spec (h : N.FilesOk) (hne : ∀ i, inodes.get? i ≠ some []) (filterPid : Option Nat) (proto : Proto) :
    N.processProto proto inodes filterPid = .ok ((N.socks proto).flatMap (rowsOf proto inodes filterPid)) := by
  unfold processProto socks
  cases hl : N.files proto with
  | none => simp [h.there proto hl]
  | some lines =>
    have hline : ∀ item ∈ lines.tail.zipIdx 1, (if proto = .unix then unixLine inodes filterPid
        else inetLine N.platform proto inodes filterPid) item = .ok (rowsOfLine N.platform proto inodes filterPid item.1) := by
      rintro ⟨line, n⟩ hitem
      obtain ⟨o, ho⟩ := Option.isSome_iff_exists.1 (h.lines proto lines hl line (List.fst_mem_of_mem_zipIdx hitem))
      rw [rowsOfLine, ho, Option.join_some]
      split
      · rename_i hp
        subst hp
        exact unixLine_spec ho n
      · rename_i hp
        exact inetLine_spec hp hne ho n
    have hfst : (lines.tail.zipIdx 1).map (fun item => rowsOfLine N.platform proto inodes filterPid item.1) =
        lines.tail.map (rowsOfLine N.platform proto inodes filterPid) := by
      have hmap := congrArg (List.map (rowsOfLine N.platform proto inodes filterPid)) (List.zipIdx_map_fst 1 lines.tail)
      rwa [List.map_map] at hmap
    simp only [mapM_ok hline, bind, Except.bind, pure, Except.pure, hfst]
    rw [← List.flatMap_def, List.filterMap_eq_flatMap_toList, List.flatMap_assoc]
    rfl

/-- The rows of a kind. -/
def rows (N : NetSystem) (kind : ConnKind) (inodes : Inodes) (filterPid : Option Nat) : List Row :=
  (kind.protos.map fun proto => (N.socks proto).flatMap (rowsOf proto inodes filterPid)).flatten.dedup

theorem mem_rows {kind : ConnKind} {filterPid : Option Nat} {r : Row} : r ∈ N.rows kind inodes filterPid ↔
    ∃ proto ∈ kind.protos, ∃ s ∈ N.socks proto, r ∈ rowsOf proto inodes filterPid s := by
  simp only [rows, List.mem_dedup, List.mem_flatten, List.mem_map, exists_exists_and_eq_and, List.mem_flatMap]

/-- `retrieve`, once the inodes are there. -/
theorem protos_spec (h : N.FilesOk) (hne : ∀ i, inodes.get? i ≠ some []) (filterPid : Option Nat) (kind : ConnKind) :
    (do return (← kind.protos.mapM (N.processProto · inodes filterPid)).flatten.dedup : Except Exc (List Row)) =
      .ok (N.rows kind inodes filterPid) := by
  rw [mapM_ok fun proto _ => processProto_spec h hne filterPid proto]
  rfl

/-! ## The two views -/

/-- The descriptors under which a socket is listed for a process that holds it. -/
def listedFds (N : NetSystem) (proto : Proto) (pid : Nat) (inode : Bytes) : List Nat :=
  if proto = .unix then N.descriptors pid inode else (N.descriptors pid inode).take 1

theorem mem_of_listedFds {proto : Proto} {pid fd : Nat} {inode : Bytes} (h : fd ∈ N.listedFds proto pid inode) :
    fd ∈ N.descriptors pid inode := by
  unfold listedFds at h
  split at h
  · exact h
  · exact List.mem_of_mem_take h

theorem pairs?_ne_nil (pid : Nat) (i : Bytes) : N.pairs? pid i ≠ some [] := by
  unfold pairs?
  split <;> simp [*]

/-- The owners of a socket that belongs to the process `o`, if to any. -/
theorem mem_owners {proto : Proto} {o : Option Nat} {inode : Bytes} {pid : Nat} {fd : Int} :
    (some pid, fd) ∈ proto.owners (o.bind (N.pairs? · inode)) ↔ o = some pid ∧ ∃ n ∈ N.listedFds proto pid inode, fd = n := by
  cases o with
  | none => simp [Proto.owners, allOwners]
  | some q =>
    unfold Proto.owners listedFds
    rw [Option.bind_some, pairs?]
    by_cases he : N.descriptors q inode = []
    · rw [if_pos he]
      constructor
      · simp [allOwners]
      · rintro ⟨hq, n, hn, -⟩
        obtain rfl : q = pid := Option.some.inj hq
        simp [he] at hn
    · rw [if_neg he, allOwners, List.map_map]
      by_cases hp : proto = .unix
      · simp only [hp, if_true, List.mem_map, Function.comp_apply, Prod.mk.injEq, Option.some.injEq]
        constructor
        · rintro ⟨n, hn, rfl, rfl⟩
          exact ⟨rfl, n, hn, rfl⟩
        · rintro ⟨rfl, n, hn, rfl⟩
          exact ⟨n, hn, rfl, rfl⟩
      · simp only [hp, if_false, ← List.map_take, List.mem_map, Function.comp_apply, Prod.mk.injEq, Option.some.injEq]
        constructor
        · rintro ⟨n, hn, rfl, rfl⟩
          exact ⟨rfl, n, hn, rfl⟩
        · rintro ⟨rfl, n, hn, rfl⟩
          exact ⟨n, hn, rfl, rfl⟩

/-- **The rows of a socket** that belongs to the process `o`, if to any. -/
theorem mem_rowsOf {proto : Proto} {s : Sock} {o filterPid : Option Nat} {pid : Nat}
    (hget : inodes.get? s.inode = o.bind (N.pairs? · s.inode)) (hf : filterPid = none ∨ filterPid = some pid) {e : Conn} :
    (e, some pid) ∈ rowsOf proto inodes filterPid s ↔ o = some pid ∧ ∃ n ∈ N.listedFds proto pid s.inode, e = s.conn proto n := by
  have hpass : filteredOut filterPid (some pid) = false := by
    rcases hf with rfl | rfl <;> simp [filteredOut]
  simp only [rowsOf, hget, List.mem_map, List.mem_filter, Prod.exists, Prod.mk.injEq]
  constructor
  · rintro ⟨_, fd, ⟨hm, -⟩, rfl, rfl⟩
    obtain ⟨ho, n, hn, rfl⟩ := mem_owners.1 hm
    exact ⟨ho, n, hn, rfl⟩
  · rintro ⟨ho, n, hn, rfl⟩
    exact ⟨some pid, n, ⟨mem_owners.2 ⟨ho, n, hn, rfl⟩, by simp [hpass]⟩, rfl, rfl⟩

/-- A filter lets only its own PID through. -/
theorem eq_of_mem_rowsOf {proto : Proto} {s : Sock} {pid : Nat} {e : Conn} {p : Option Nat}
    (h : (e, p) ∈ rowsOf proto inodes (some pid) s) : some pid = p := by
  obtain ⟨o, ho, heq⟩ := List.mem_map.1 h
  have hpass := (List.mem_filter.1 ho).2
  obtain ⟨-, rfl⟩ := Prod.mk.inj heq
  simpa [filteredOut] using hpass

/-- The system-wide view: a socket is listed for its last holder. -/
theorem netConnections_spec (hfds : N.FdsReadable) (hfiles : N.FilesOk) (kind : ConnKind) :
    ∃ rows, N.netConnections kind = .ok rows ∧ ∀ pid e, (e, some pid) ∈ rows ↔ ∃ proto ∈ kind.protos, ∃ s ∈ N.socks proto,
      N.lastHolder s.inode = some pid ∧ ∃ n ∈ N.listedFds proto pid s.inode, e = s.conn proto n := by
  obtain ⟨inodes, hall, hget⟩ := getAllInodes_spec hfds
  have hne : ∀ i, inodes.get? i ≠ some [] := by
    intro i
    rw [hget]
    cases N.lastHolder i with
    | none => simp
    | some q => exact pairs?_ne_nil q i
  refine ⟨N.rows kind inodes none, ?_, fun pid e => ?_⟩
  · simp only [netConnections, retrieve, hall, bind, Except.bind, ne_eq, not_true_eq_false, false_and, if_false]
    exact protos_spec hfiles hne none kind
  · simp only [mem_rows, mem_rowsOf (hget _) (Or.inl rfl)]

/-- The view of one process: every socket it holds is listed. -/
theorem procNetConnections_spec (hfds : N.FdsReadable) (hfiles : N.FilesOk) (kind : ConnKind) {pid : Nat} (hpid : pid ∈ N.pids) :
    ∃ conns, N.procNetConnections kind pid = .ok conns ∧ ∀ e, e ∈ conns ↔ ∃ proto ∈ kind.protos, ∃ s ∈ N.socks proto,
      ∃ n ∈ N.listedFds proto pid s.inode, e = s.conn proto n := by
  obtain ⟨d, hd, hlinks⟩ := hfds pid hpid
  obtain ⟨inodes, hown, hget⟩ := getProcInodes_spec hd hlinks
  have hne : ∀ i, inodes.get? i ≠ some [] := fun i => hget i ▸ pairs?_ne_nil pid i
  by_cases hempty : inodes.isEmpty = true
  · refine ⟨[], ?_, fun e => ?_⟩
    · simp [procNetConnections, retrieve, hown, hempty, bind, Except.bind, pure, Except.pure]
    · -- no inodes, no descriptors
      have hno : ∀ proto i, N.listedFds proto pid i = [] := by
        intro proto i
        have hnone := Dict.get?_eq_none.2 (Dict.isEmpty_iff.1 hempty i)
        rw [hget, pairs?] at hnone
        have hd : N.descriptors pid i = [] := by
          by_contra hne
          simp [hne] at hnone
        simp [listedFds, hd]
      simp [hno]
  · refine ⟨((N.rows kind inodes (some pid)).map Prod.fst).dedup, ?_, fun e => ?_⟩
    · have hrun := protos_spec hfiles hne (some pid) kind
      simp only [bind, Except.bind, pure, Except.pure] at hrun
      simp only [procNetConnections, retrieve, hown, hempty, bind, Except.bind, ne_eq, reduceCtorEq, not_false_eq_true, true_and,
        Bool.false_eq_true, if_false, pure, Except.pure, hrun]
    · have hrow : e ∈ ((N.rows kind inodes (some pid)).map Prod.fst).dedup ↔ (e, some pid) ∈ N.rows kind inodes (some pid) := by
        rw [List.mem_dedup, List.mem_map]
        constructor
        · rintro ⟨⟨e, p⟩, hm, rfl⟩
          obtain ⟨proto, hproto, s, hs, hr⟩ := mem_rows.1 hm
          obtain rfl : some pid = p := eq_of_mem_rowsOf hr
          exact hm
        · exact fun hm => ⟨(e, some pid), hm, rfl⟩
      rw [hrow]
      have hget' : ∀ i, inodes.get? i = (some pid).bind (N.pairs? · i) := hget
      simp only [mem_rows, mem_rowsOf (hget' _) (Or.inr rfl), true_and]

/-! ## When they agree -/

/-- The two views of a process: its part of the system-wide list, and its own list. -/
def ViewsAgree (N : NetSystem) (kind : ConnKind) (pid : Nat) : Prop :=
  ∃ rows conns, N.netConnections kind = .ok rows ∧ N.procNetConnections kind pid = .ok conns ∧
    ∀ e, (e, some pid) ∈ rows ↔ e ∈ conns

/-- **The views agree exactly when** the process is the last holder of every socket of the kind that it holds. -/
theorem views_agree_iff (hfds : N.FdsReadable) (hfiles : N.FilesOk) (kind : ConnKind) {pid : Nat} (hpid : pid ∈ N.pids) :
    N.ViewsAgree kind pid ↔ ∀ proto ∈ kind.protos, ∀ s ∈ N.socks proto, N.descriptors pid s.inode ≠ [] →
      N.lastHolder s.inode = some pid := by
  obtain ⟨rows, hrows, hall⟩ := netConnections_spec hfds hfiles kind
  obtain ⟨conns, hconns, hown⟩ := procNetConnections_spec hfds hfiles kind hpid
  constructor
  · rintro ⟨rows', conns', hrows', hconns', hagree⟩ proto hproto s hs hheld
    obtain rfl : rows = rows' := Except.ok.inj (hrows.symm.trans hrows')
    obtain rfl : conns = conns' := Except.ok.inj (hconns.symm.trans hconns')
    -- what the process lists for its first descriptor of the socket
    obtain ⟨n, hn⟩ : ∃ n, n ∈ N.listedFds proto pid s.inode := by
      obtain ⟨n, ns, hns⟩ := List.exists_cons_of_ne_nil hheld
      exact ⟨n, by by_cases hp : proto = .unix <;> simp [listedFds, hns, hp]⟩
    obtain ⟨proto', -, s', -, hlast, n', hn', heq⟩ :=
      (hall pid _).1 ((hagree _).2 ((hown _).2 ⟨proto, hproto, s, hs, n, hn, rfl⟩))
    obtain rfl : n = n' := Int.ofNat.inj (congrArg Conn.fd heq)
    have hinode : s.inode = s'.inode := descriptors_inj (mem_of_listedFds hn) (mem_of_listedFds hn')
    rw [hinode, hlast]
  · intro h
    refine ⟨rows, conns, hrows, hconns, fun e => ?_⟩
    rw [hall, hown]
    constructor
    · rintro ⟨proto, hproto, s, hs, -, n, hn, rfl⟩
      exact ⟨proto, hproto, s, hs, n, hn, rfl⟩
    · rintro ⟨proto, hproto, s, hs, n, hn, rfl⟩
      exact ⟨proto, hproto, s, hs, h proto hproto s hs (List.ne_nil_of_mem (mem_of_listedFds hn)), n, hn, rfl⟩

/-- A UNIX socket that a process shares with the child it forked. -/
def forked : NetSystem where
  platform := ⟨true, fun _ ip => .ok ip, true⟩
  pids := [1, 2]
  fds _ := .ok (Dict.update ∅ [(3, .ok (ascii "socket:[5]"))])
  files
    | .unix => some [ascii "Num RefCount", ascii "00: 00000002 00000000 00010000 0001 01 5"]
    | _ => some [ascii "sl local_address"]

theorem forked_fdsReadable : forked.FdsReadable := by
  intro pid _
  refine ⟨Dict.update ∅ [(3, .ok (ascii "socket:[5]"))], rfl, fun p hp => ?_⟩
  obtain rfl : p = (3, .ok (ascii "socket:[5]")) := List.mem_singleton.1 hp
  exact ⟨some (ascii "5"), by decide⟩

theorem forked_filesOk : forked.FilesOk where
  there proto h := by cases proto <;> cases h
  lines proto lines h line hline := by
    cases proto <;> cases h
    case unix =>
      obtain rfl : line = ascii "00: 00000002 00000000 00010000 0001 01 5" := List.mem_singleton.1 hline
      decide
    all_goals cases hline

/-- The parent lists the socket, and the system-wide list has it under the child only. -/
theorem views_disagree : ¬∀ (N : NetSystem) (kind : ConnKind) (pid : Nat), N.FdsReadable → N.FilesOk → pid ∈ N.pids →
    N.ViewsAgree kind pid := by
  intro h
  obtain ⟨rows, conns, hrows, hconns, hagree⟩ := h forked .unix 1 forked_fdsReadable forked_filesOk (by decide)
  have hr : forked.netConnections .unix = .ok [(⟨3, .unix, 1, .path [], .path [], .none⟩, some 2)] := by decide
  have hc : forked.procNetConnections .unix 1 = .ok [⟨3, .unix, 1, .path [], .path [], .none⟩] := by decide
  obtain rfl := Except.ok.inj (hrows.symm.trans hr)
  obtain rfl := Except.ok.inj (hconns.symm.trans hc)
  exact absurd ((hagree _).2 List.mem_cons_self) (by decide)

theorem views_agree_child : forked.ViewsAgree .unix 2 := by
  refine (views_agree_iff forked_fdsReadable forked_filesOk .unix (by decide)).2 fun proto hproto s hs _ => ?_
  obtain rfl : proto = .unix := List.mem_singleton.1 hproto
  have hsocks : forked.socks .unix = [⟨ascii "5", 1, .path [], .path [], .none⟩] := by decide
  rw [hsocks, List.mem_singleton] at hs
  subst hs
  decide

end NetSystem

end Psutil
