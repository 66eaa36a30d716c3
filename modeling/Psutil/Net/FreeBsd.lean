import Psutil.Net.Conn

/-!
# `psutil_net_connections` on FreeBSD (`arch/freebsd/sys_socks.c`)

| here | there |
| --- | --- |
| `connTmap` | `conn_tmap` (`_common.py:80`) |
| `ConnFilters`, `parseConnFilters` | `psutil_conn_filters`, `psutil_parse_conn_filters` (`arch/all/utils.c:113`) |
| `FreeBsd.getFileFromSock` | `psutil_get_file_from_sock` (`:57`) |
| `FreeBsd.inetEntry`, `FreeBsd.gatherInet` | the body of the loop of `psutil_gather_inet` (`:74`), and the function |
| `FreeBsd.gatherUnix` | `psutil_gather_unix` (`:245`) |
| `FreeBsd.netConnections` | `psutil_net_connections` (`:360`) |

The tables do not change, so a `sysctl` gives its whole answer at once, or an error. `inet_consistent_iff`: the kinds of
both versions list what the kinds of one version list, exactly when no dual-stack socket is open.
-/

namespace Psutil

/-- `families, types = conn_tmap[kind]`. -/
def connTmap : ConnKind → List Family × List Int
  | .all => ([.inet, .inet6, .unix], [sockStream, sockDgram])
  | .tcp => ([.inet, .inet6], [sockStream])
  | .tcp4 => ([.inet], [sockStream])
  | .tcp6 => ([.inet6], [sockStream])
  | .udp => ([.inet, .inet6], [sockDgram])
  | .udp4 => ([.inet], [sockDgram])
  | .udp6 => ([.inet6], [sockDgram])
  | .unix => ([.unix], [sockStream, sockDgram])
  | .inet => ([.inet, .inet6], [sockStream, sockDgram])
  | .inet4 => ([.inet], [sockStream, sockDgram])
  | .inet6 => ([.inet6], [sockStream, sockDgram])

structure ConnFilters where
  v4 : Bool
  v6 : Bool
  unix : Bool
  tcp : Bool
  udp : Bool
  deriving DecidableEq

def parseConnFilters (afFilter : List Family) (typeFilter : List Int) : ConnFilters where
  v4 := .inet ∈ afFilter
  v6 := .inet6 ∈ afFilter
  unix := .unix ∈ afFilter
  tcp := sockStream ∈ typeFilter
  udp := sockDgram ∈ typeFilter

namespace FreeBsd

/-- `struct xfile`: the object behind a descriptor, by its address in the kernel. -/
structure XFile where
  data : Nat
  fd : Int
  pid : Int
  deriving DecidableEq

/-- `struct xinpcb` or `xtcpcb`; an IPv4 address is the end of the field of the IPv6 one. -/
structure Pcb where
  so : Nat
  /-- `inp_vflag & INP_IPV4` and `inp_vflag & INP_IPV6`. -/
  ipv4 : Bool
  ipv6 : Bool
  laddr : Bytes
  faddr : Bytes
  lport : Nat
  fport : Nat
  state : Int
  versioned : ipv4 = true ∨ ipv6 = true

/-- `struct xunpcb`. -/
structure UnixPcb where
  so : Nat
  path : Bytes

/-- `IPPROTO_TCP` and `IPPROTO_UDP`. -/
inductive IpProto where
  | tcp | udp
  deriving DecidableEq

def IpProto.type : IpProto → Int
  | .tcp => sockStream
  | .udp => sockDgram

end FreeBsd

open FreeBsd

/-- What the `sysctl`s give, and `inet_ntop`. -/
structure FreeBsd where
  xfiles : Except Exc (List XFile)
  pcbs : IpProto → Except Exc (List Pcb)
  unixPcbs : Int → Except Exc (List UnixPcb)
  ntop : Family → Bytes → Bytes

namespace FreeBsd

def getFileFromSock (sock : Nat) (files : List XFile) : Option XFile := files.find? (·.data = sock)

variable (T : FreeBsd)

/-- The body of the loop of `psutil_gather_inet`; `none` is a `continue`. -/
def inetEntry (filters : ConnFilters) (files : List XFile) (proto : IpProto) (inp : Pcb) : Option RawConn :=
  if inp.ipv4 && !filters.v4 then none
  else if inp.ipv6 && !filters.v6 then none
  else match getFileFromSock inp.so files with
    | none => none
    | some xf =>
      let family : Family := if inp.ipv4 then .inet else .inet6
      let addr (a : Bytes) : Bytes := T.ntop family (if inp.ipv4 then a.drop 12 else a)
      some
        { fd := xf.fd
          family := family
          type := proto.type
          laddr := .inet (addr inp.laddr) inp.lport
          raddr := if inp.fport ≠ 0 then .inet (addr inp.faddr) inp.fport else .none
          status := match proto with
            | .tcp => inp.state
            | .udp => connNone
          pid := xf.pid }

def gatherInet (proto : IpProto) (filters : ConnFilters) (files : List XFile) : Except Exc (List RawConn) := do
  return (← T.pcbs proto).filterMap (T.inetEntry filters files proto)

def gatherUnix (type : Int) (files : List XFile) : Except Exc (List RawConn) := do
  return (← T.unixPcbs type).filterMap fun xup => (getFileFromSock xup.so files).map fun xf =>
    ⟨xf.fd, .unix, type, .path xup.path, .path [], connNone, xf.pid⟩

def netConnections (afFilter : List Family) (typeFilter : List Int) : Except Exc (List RawConn) := do
  let filters := parseConnFilters afFilter typeFilter
  let files ← T.xfiles
  let tcp ← if filters.tcp then T.gatherInet .tcp filters files else .ok []
  let udp ← if filters.udp then T.gatherInet .udp filters files else .ok []
  let unix ← if filters.unix then do return (← T.gatherUnix sockStream files) ++ (← T.gatherUnix sockDgram files) else .ok []
  return tcp ++ udp ++ unix

/-- `psutil_net_connections` with the filters of a kind. -/
def connsOf (kind : ConnKind) : Except Exc (List RawConn) := T.netConnections (connTmap kind).1 (connTmap kind).2

/-! ## One version and both -/

/-- The kinds that are there for both versions and for each. -/
inductive IpKind where
  | inet | tcp | udp

namespace IpKind

def both : IpKind → ConnKind
  | inet => .inet
  | tcp => .tcp
  | udp => .udp

def v4 : IpKind → ConnKind
  | inet => .inet4
  | tcp => .tcp4
  | udp => .udp4

def v6 : IpKind → ConnKind
  | inet => .inet6
  | tcp => .tcp6
  | udp => .udp6

def protos : IpKind → List IpProto
  | inet => [.tcp, .udp]
  | tcp => [.tcp]
  | udp => [.udp]

end IpKind

/-- The kind of both versions gives what the kinds of one version give, each of them sockets of its own family. -/
def Consistent (k : IpKind) : Prop :=
  ∃ all four six, T.connsOf k.both = .ok all ∧ T.connsOf k.v4 = .ok four ∧ T.connsOf k.v6 = .ok six ∧
    all.Perm (four ++ six) ∧ (∀ e ∈ four, e.family = .inet) ∧ ∀ e ∈ six, e.family = .inet6

section
variable {T} {files : List XFile} {pcbs : IpProto → List Pcb}

/-- The filters of a kind, as far as the versions go. -/
def versions (v4 v6 : Bool) : ConnFilters := ⟨v4, v6, false, true, true⟩

/-- The blocks of a kind, with their protocols. -/
def blocks (pcbs : IpProto → List Pcb) (k : IpKind) : List (IpProto × Pcb) := k.protos.flatMap fun p => (pcbs p).map (p, ·)

/-- What is listed of these blocks. -/
def entries (T : FreeBsd) (files : List XFile) (v4 v6 : Bool) (items : List (IpProto × Pcb)) : List RawConn :=
  items.filterMap fun item => T.inetEntry (versions v4 v6) files item.1 item.2

/-- What the three kinds list. -/
theorem connsOf_eq (hfiles : T.xfiles = .ok files) (hpcbs : ∀ p, T.pcbs p = .ok (pcbs p)) (k : IpKind) :
    T.connsOf k.both = .ok (T.entries files true true (blocks pcbs k)) ∧
      T.connsOf k.v4 = .ok (T.entries files true false (blocks pcbs k)) ∧
      T.connsOf k.v6 = .ok (T.entries files false true (blocks pcbs k)) := by
  refine ⟨?_, ?_, ?_⟩
  all_goals
    cases k <;> simp [connsOf, connTmap, netConnections, parseConnFilters, IpKind.both, IpKind.v4, IpKind.v6, hfiles, gatherInet,
      hpcbs, entries, blocks, IpKind.protos, bind, Except.bind, pure, Except.pure, sockStream, sockDgram, List.filterMap_map]
    all_goals rfl

/-! ### One block -/

/-- The block of a dual-stack socket that is open. -/
def DualOpen (files : List XFile) (inp : Pcb) : Prop :=
  inp.ipv4 = true ∧ inp.ipv6 = true ∧ ∃ xf ∈ files, xf.data = inp.so

theorem getFileFromSock_isSome {sock : Nat} : (getFileFromSock sock files).isSome = true ↔ ∃ xf ∈ files, xf.data = sock := by
  simp [getFileFromSock, List.find?_isSome]

section
variable (T files)

/-- The filters of one version drop the dual-stack blocks. -/
theorem inetEntry_dual {inp : Pcb} (h4 : inp.ipv4 = true) (h6 : inp.ipv6 = true) (proto : IpProto) :
    T.inetEntry (versions true false) files proto inp = none ∧ T.inetEntry (versions false true) files proto inp = none ∧
      (T.inetEntry (versions true true) files proto inp).isSome = (getFileFromSock inp.so files).isSome := by
  refine ⟨by simp [inetEntry, versions, h6], by simp [inetEntry, versions, h4], ?_⟩
  simp only [inetEntry, versions, Bool.not_true, Bool.and_false, Bool.false_eq_true, if_false]
  cases getFileFromSock inp.so files <;> rfl

/-- A block of one version passes the filters of that version and of both, with the same entry. -/
theorem inetEntry_v4 {inp : Pcb} (h4 : inp.ipv4 = true) (h6 : inp.ipv6 = false) (proto : IpProto) :
    T.inetEntry (versions true true) files proto inp = T.inetEntry (versions true false) files proto inp ∧
      T.inetEntry (versions false true) files proto inp = none := by
  constructor
  · simp [inetEntry, versions, h4, h6]
  · simp [inetEntry, versions, h4]

theorem inetEntry_v6 {inp : Pcb} (h4 : inp.ipv4 = false) (h6 : inp.ipv6 = true) (proto : IpProto) :
    T.inetEntry (versions true true) files proto inp = T.inetEntry (versions false true) files proto inp ∧
      T.inetEntry (versions true false) files proto inp = none := by
  constructor
  · simp [inetEntry, versions, h4, h6]
  · simp [inetEntry, versions, h4, h6]

end

/-- Any other block is listed for both versions as it is for one of them. -/
theorem inetEntry_split {inp : Pcb} (h : ¬DualOpen files inp) (proto : IpProto) :
    (T.inetEntry (versions true true) files proto inp).toList =
      (T.inetEntry (versions true false) files proto inp).toList ++ (T.inetEntry (versions false true) files proto inp).toList := by
  cases h4 : inp.ipv4 with
  | false =>
    have h6 : inp.ipv6 = true := inp.versioned.resolve_left (by simp [h4])
    obtain ⟨hboth, hnone⟩ := inetEntry_v6 T files h4 h6 proto
    rw [hboth, hnone]
    rfl
  | true => cases h6 : inp.ipv6 with
    | false =>
      obtain ⟨hboth, hnone⟩ := inetEntry_v4 T files h4 h6 proto
      rw [hboth, hnone, Option.toList_none, List.append_nil]
    | true =>
      obtain ⟨hfour, hsix, hboth⟩ := inetEntry_dual T files h4 h6 proto
      have hnone : T.inetEntry (versions true true) files proto inp = none := by
        rw [← Option.not_isSome_iff_eq_none, hboth, getFileFromSock_isSome]
        exact fun hopen => h ⟨h4, h6, hopen⟩
      rw [hfour, hsix, hnone]
      rfl

/-- A dual-stack block that is open is listed for both versions only. -/
theorem inetEntry_dualOpen {inp : Pcb} (h : DualOpen files inp) (proto : IpProto) :
    ∃ e, T.inetEntry (versions true true) files proto inp = some e ∧ T.inetEntry (versions true false) files proto inp = none ∧
      T.inetEntry (versions false true) files proto inp = none := by
  obtain ⟨hfour, hsix, hboth⟩ := inetEntry_dual T files h.1 h.2.1 proto
  obtain ⟨e, he⟩ := Option.isSome_iff_exists.1 (hboth.trans (getFileFromSock_isSome.2 h.2.2))
  exact ⟨e, he, hfour, hsix⟩

/-! ### All blocks -/

theorem entries_cons (v4 v6 : Bool) (item : IpProto × Pcb) (items : List (IpProto × Pcb)) :
    T.entries files v4 v6 (item :: items) =
      (T.inetEntry (versions v4 v6) files item.1 item.2).toList ++ T.entries files v4 v6 items := by
  unfold entries
  rw [List.filterMap_cons]
  cases T.inetEntry (versions v4 v6) files item.1 item.2 <;> rfl

theorem entries_perm : ∀ {items : List (IpProto × Pcb)}, (∀ item ∈ items, ¬DualOpen files item.2) →
    (T.entries files true true items).Perm (T.entries files true false items ++ T.entries files false true items)
  | [], _ => .refl []
  | item :: items, h => by
    have ih := entries_perm fun i hi => h i (List.mem_cons_of_mem item hi)
    simp only [entries_cons, inetEntry_split (T := T) (h item List.mem_cons_self) item.1, List.append_assoc]
    apply List.Perm.append_left
    exact (ih.append_left _).trans (List.perm_append_comm_assoc _ _ _)

/-- The list of both versions is longer by one entry for each dual-stack socket that is open. -/
theorem entries_length : ∀ (items : List (IpProto × Pcb)),
    (T.entries files true false items).length + (T.entries files false true items).length ≤
        (T.entries files true true items).length ∧
      ((∃ item ∈ items, DualOpen files item.2) →
        (T.entries files true false items).length + (T.entries files false true items).length <
          (T.entries files true true items).length)
  | [] => ⟨le_rfl, by simp⟩
  | item :: items => by
    obtain ⟨hle, hlt⟩ := entries_length items
    simp only [entries_cons, List.length_append]
    by_cases hd : DualOpen files item.2
    · obtain ⟨e, hboth, hfour, hsix⟩ := inetEntry_dualOpen (T := T) hd item.1
      simp only [hboth, hfour, hsix, Option.toList_none, Option.toList_some, List.length_nil, List.length_singleton]
      exact ⟨by omega, fun _ => by omega⟩
    · have hsplit := congrArg List.length (inetEntry_split (T := T) hd item.1)
      rw [List.length_append] at hsplit
      refine ⟨by omega, ?_⟩
      rintro ⟨i, hi, hdi⟩
      rcases List.mem_cons.1 hi with rfl | hi
      · exact absurd hdi hd
      · have hmore := hlt ⟨i, hi, hdi⟩
        omega

theorem mem_entries {v4 v6 : Bool} {items : List (IpProto × Pcb)} {e : RawConn} : e ∈ T.entries files v4 v6 items ↔
    ∃ proto inp, (proto, inp) ∈ items ∧ T.inetEntry (versions v4 v6) files proto inp = some e := by
  simp [entries, List.mem_filterMap]

/-- What an entry shows of the block and of the file behind it. -/
theorem inetEntry_eq_some {v4 v6 : Bool} {proto : IpProto} {inp : Pcb} {e : RawConn}
    (h : T.inetEntry (versions v4 v6) files proto inp = some e) :
    (inp.ipv4 = true → v4 = true) ∧ (inp.ipv6 = true → v6 = true) ∧ (e.family = if inp.ipv4 then .inet else .inet6) ∧
      ∃ xf ∈ files, xf.data = inp.so ∧ xf.fd = e.fd ∧ xf.pid = e.pid := by
  unfold inetEntry versions at h
  split at h
  · cases h
  · rename_i h4
    split at h
    · cases h
    · rename_i h6
      split at h
      · cases h
      · rename_i xf hxf
        cases h
        refine ⟨by simpa using h4, by simpa using h6, rfl, xf, List.mem_of_find?_eq_some hxf, ?_, rfl, rfl⟩
        simpa using List.find?_some hxf

theorem family_v4 {items : List (IpProto × Pcb)} : ∀ e ∈ T.entries files true false items, e.family = .inet := by
  intro e he
  obtain ⟨proto, inp, -, hentry⟩ := mem_entries.1 he
  obtain ⟨-, h6, hfam, -⟩ := inetEntry_eq_some hentry
  have h4 : inp.ipv4 = true := inp.versioned.resolve_right fun h => Bool.false_ne_true (h6 h)
  rw [hfam, if_pos h4]

theorem family_v6 {items : List (IpProto × Pcb)} : ∀ e ∈ T.entries files false true items, e.family = .inet6 := by
  intro e he
  obtain ⟨proto, inp, -, hentry⟩ := mem_entries.1 he
  obtain ⟨h4, -, hfam, -⟩ := inetEntry_eq_some hentry
  rw [hfam, if_neg fun h => Bool.false_ne_true (h4 h)]

theorem forall_blocks {P : Pcb → Prop} {k : IpKind} :
    (∀ p ∈ k.protos, ∀ inp ∈ pcbs p, P inp) ↔ ∀ item ∈ blocks pcbs k, P item.2 := by
  simp only [blocks, List.mem_flatMap, List.mem_map]
  constructor
  · rintro h _ ⟨p, hp, inp, hinp, rfl⟩
    exact h p hp inp hinp
  · exact fun h p hp inp hinp => h (p, inp) ⟨p, hp, inp, hinp, rfl⟩

/-- **The kind of both versions lists what the kinds of one version list, exactly when** none of the dual-stack sockets
of its protocols is open. -/
theorem inet_consistent_iff (hfiles : T.xfiles = .ok files) (hpcbs : ∀ p, T.pcbs p = .ok (pcbs p)) (k : IpKind) :
    T.Consistent k ↔ ∀ p ∈ k.protos, ∀ inp ∈ pcbs p, ¬DualOpen files inp := by
  obtain ⟨hboth, hfour, hsix⟩ := connsOf_eq hfiles hpcbs k
  rw [forall_blocks]
  constructor
  · rintro ⟨all, four, six, hall, hv4, hv6, hperm, -⟩ item hitem hd
    obtain rfl := Except.ok.inj (hboth.symm.trans hall)
    obtain rfl := Except.ok.inj (hfour.symm.trans hv4)
    obtain rfl := Except.ok.inj (hsix.symm.trans hv6)
    have hlen := hperm.length_eq
    have hlt := (entries_length (T := T) (blocks pcbs k)).2 ⟨item, hitem, hd⟩
    rw [List.length_append] at hlen
    omega
  · intro h
    exact ⟨_, _, _, hboth, hfour, hsix, entries_perm h, family_v4, family_v6⟩

/-- The same for the entries as a set, when every block has a socket of its own and every descriptor one file. -/
theorem inet_union_iff (hfiles : T.xfiles = .ok files) (hpcbs : ∀ p, T.pcbs p = .ok (pcbs p)) (k : IpKind)
    (hsocks : ∀ a ∈ blocks pcbs k, ∀ b ∈ blocks pcbs k, a.2.so = b.2.so → a = b)
    (hfds : ∀ x ∈ files, ∀ y ∈ files, x.pid = y.pid → x.fd = y.fd → x = y) :
    (∃ all four six, T.connsOf k.both = .ok all ∧ T.connsOf k.v4 = .ok four ∧ T.connsOf k.v6 = .ok six ∧
      ∀ e, e ∈ all ↔ e ∈ four ∨ e ∈ six) ↔ ∀ p ∈ k.protos, ∀ inp ∈ pcbs p, ¬DualOpen files inp := by
  obtain ⟨hboth, hfour, hsix⟩ := connsOf_eq hfiles hpcbs k
  rw [forall_blocks]
  constructor
  · rintro ⟨all, four, six, hall, hv4, hv6, hunion⟩ ⟨p, inp⟩ hitem hd
    obtain rfl := Except.ok.inj (hboth.symm.trans hall)
    obtain rfl := Except.ok.inj (hfour.symm.trans hv4)
    obtain rfl := Except.ok.inj (hsix.symm.trans hv6)
    obtain ⟨e, he, -⟩ := inetEntry_dualOpen (T := T) hd p
    obtain ⟨-, -, -, xf, hxf, hso, hfd, hpid⟩ := inetEntry_eq_some he
    -- whoever else shows this descriptor shows the same file, so it is the same block
    have hsame : ∀ {v4 v6 : Bool}, e ∈ T.entries files v4 v6 (blocks pcbs k) → v4 = true ∧ v6 = true := by
      intro v4 v6 hm
      obtain ⟨p', inp', hitem', he'⟩ := mem_entries.1 hm
      obtain ⟨h4, h6, -, xf', hxf', hso', hfd', hpid'⟩ := inetEntry_eq_some he'
      obtain rfl : xf = xf' := hfds xf hxf xf' hxf' (hpid.trans hpid'.symm) (hfd.trans hfd'.symm)
      obtain ⟨-, rfl⟩ := Prod.mk.inj (hsocks _ hitem _ hitem' (hso.symm.trans hso'))
      exact ⟨h4 hd.1, h6 hd.2.1⟩
    rcases (hunion e).1 (mem_entries.2 ⟨p, inp, hitem, he⟩) with hm | hm
    · exact absurd (hsame hm).2 (by decide)
    · exact absurd (hsame hm).1 (by decide)
  · intro h
    exact ⟨_, _, _, hboth, hfour, hsix, fun e => (entries_perm h).mem_iff.trans List.mem_append⟩

end

/-- The block of a server that listens on port 80, over IPv4 and maybe over IPv6. -/
def serverPcbs (ipv6 : Bool) : IpProto → List Pcb
  | .tcp => [⟨100, true, ipv6, List.replicate 16 0, List.replicate 16 0, 80, 0, 1, Or.inl rfl⟩]
  | .udp => []

def server (ipv6 : Bool) : FreeBsd := ⟨.ok [⟨100, 3, 7⟩], fun p => .ok (serverPcbs ipv6 p), fun _ => .ok [], fun _ addr => addr⟩

/-- A dual-stack server is listed for `tcp`, and neither for `tcp4` nor for `tcp6`. -/
theorem inet_drops_dual : ¬∀ (T : FreeBsd) (files : List XFile) (pcbs : IpProto → List Pcb), T.xfiles = .ok files →
    (∀ p, T.pcbs p = .ok (pcbs p)) → ∀ k, T.Consistent k := by
  intro h
  obtain ⟨all, four, six, hall, hfour, hsix, hperm, -⟩ := h (server true) [⟨100, 3, 7⟩] (serverPcbs true) rfl (fun _ => rfl) .tcp
  obtain rfl : [] = four := Except.ok.inj hfour
  obtain rfl : [] = six := Except.ok.inj hsix
  obtain rfl := List.perm_nil.1 hperm
  cases hall

theorem inet_consistent_server4 : (server false).Consistent .tcp := by
  have hiff := @inet_consistent_iff (server false) [⟨100, 3, 7⟩] (serverPcbs false) rfl (fun _ => rfl) .tcp
  refine hiff.2 ?_
  intro p hp inp hinp hd
  obtain rfl : p = .tcp := List.mem_singleton.1 hp
  obtain rfl := List.mem_singleton.1 hinp
  cases hd.2.1

end FreeBsd

end Psutil
