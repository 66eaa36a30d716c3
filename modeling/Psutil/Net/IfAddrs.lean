import Psutil.Common.Text
import Psutil.Lib.Cut
import Psutil.Lib.Group
import Psutil.Lib.Sorted

/-!
# `net_if_addrs()` (`__init__.py:2526-2587`, `arch/posix/net.c:50-219`)

| here | there |
| --- | --- |
| `strFormat` | `str_format` (`arch/all/str.c:43`), on a part of a buffer |
| `writeHex`, `linkAddr`, `convertIpaddr` | `psutil_convert_ipaddr`, and its last part |
| `rawAddr`, `psutilNetIfAddrs` | `psutil_net_if_addrs` |
| `fillMac`, `completed`, `netIfAddrs` | the `while` loop, the body of the `for` loop, `net_if_addrs` |
| `broadcastAddr` | `broadcast_addr` (`_common.py:409`) |

`netIfAddrs_complete`: every entry is in its place, once, and a link-layer address is printed and filled up with `:00`.
-/

namespace Psutil.IfAddrs

open Lib Common

/-! ## The C functions -/

def hexChar (d : Nat) : UInt8 := (if d < 10 then 48 + d else 87 + d).toUInt8

/-- `%02x`. -/
def hexPair (b : UInt8) : Bytes := [hexChar (b.toNat / 16), hexChar (b.toNat % 16)]

/-- Writes `out` with a NUL, `size` bytes at most; `none` is a write outside of `buf`. -/
def strFormat (size : Nat) (out buf : Bytes) (ptr : Nat) : Option Bytes :=
  let out := out.take (size - 1) ++ [0]
  if ptr + out.length ≤ buf.length then some (buf.take ptr ++ (out ++ buf.drop (ptr + out.length))) else none

/-- The `for` loop, where `size` is `sizeof(ptr)`. -/
def writeHex (size : Nat) : Bytes → Bytes → Nat → Option (Bytes × Nat)
  | [], buf, ptr => some (buf, ptr)
  | b :: data, buf, ptr => match strFormat size (hexPair b ++ [58]) buf ptr with
    | some buf => writeHex size data buf (ptr + 3)
    | none => none

/-- `PyUnicode_FromString`, of ASCII. -/
def pyUnicode (buf : Bytes) : Text := (buf.takeWhile (· ≠ 0)).map UInt8.toNat

/-- The text of a link-layer address, in a buffer that may have anything in it. -/
def linkAddr (size : Nat) (buf data : Bytes) : Option (Option Text) :=
  if data = [] then some none
  else match writeHex size data buf 0 with
    | some (buf, ptr) => some (some (pyUnicode (buf.set (ptr - 1) 0)))
    | none => none

/-- A `struct sockaddr`. -/
inductive SockAddr where
  /-- `AF_INET` or `AF_INET6`, with what `getnameinfo` returns. -/
  | inet (host : Option Text)
  | link (data : Bytes)
  | other

structure IfAddr where
  name : Text
  family : Int
  addr : Option SockAddr
  netmask : Option SockAddr
  /-- `IFF_BROADCAST` and `IFF_POINTOPOINT`. -/
  broadcast : Bool
  pointopoint : Bool
  broadaddr : Option SockAddr
  dstaddr : Option SockAddr

/-- An entry of the list that C returns. -/
structure RawAddr where
  name : Text
  family : Int
  address : Option Text
  netmask : Option Text
  broadcast : Option Text
  ptp : Option Text
  deriving DecidableEq

def convertIpaddr (size : Nat) (buf : Bytes) : Option SockAddr → Option (Option Text)
  | none => some none
  | some (.inet host) => some host
  | some (.link data) => linkAddr size buf data
  | some .other => some none

/-- One round of the loop; `AF_UNSPEC` is 0. -/
def rawAddr (size : Nat) (buf : Bytes) (ifa : IfAddr) : Option RawAddr := do
  let address ← convertIpaddr size buf ifa.addr
  if address = none then return ⟨ifa.name, 0, none, none, none, none⟩
  let netmask ← convertIpaddr size buf ifa.netmask
  let broadcast ← if ifa.broadcast then convertIpaddr size buf ifa.broadaddr else some none
  let ptp ← if !ifa.broadcast && ifa.pointopoint then convertIpaddr size buf ifa.dstaddr else some none
  return ⟨ifa.name, ifa.family, address, netmask, broadcast, ptp⟩

def psutilNetIfAddrs (size : Nat) (buf : Bytes) (ifaddr : List IfAddr) : Option (List RawAddr) := ifaddr.mapM (rawAddr size buf)

/-! ## The Python function -/

structure SnicAddr where
  family : Int
  address : Option Text
  netmask : Option Text
  broadcast : Option Text
  ptp : Option Text
  deriving DecidableEq

/-- What the loop reads of an `ipaddress.IPv4Network` or `IPv6Network`. -/
structure IpNetwork where
  prefixlen : Nat
  maxPrefixlen : Nat
  broadcastAddress : Text

structure NetPlatform where
  windows : Bool
  afLink : Int
  afInet : Int
  afInet6 : Int
  /-- `socket.AddressFamily(fam)` raises no `ValueError`. -/
  isAddressFamily : Int → Bool
  /-- `ipaddress.IPv4Network(text, strict=False)`. -/
  ipv4Network : Text → Except Exc IpNetwork
  ipv6Network : Text → Except Exc IpNetwork
  /-- `_pswindows.py:67`. -/
  afLink_windows : windows = true → afLink = -1
  /-- `AF_UNSPEC` is another one. -/
  afLink_ne : afLink ≠ 0

/-- `while addr.count(separator) < 5: addr += f"{separator}00"`. -/
def fillMac (separator : Nat) : (fuel : Nat) → Text → Option Text
  | 0, _ => none
  | fuel + 1, addr => if addr.count separator < 5 then fillMac separator fuel (addr ++ [separator, 48, 48]) else some addr

/-- `not x`. -/
def falsy (x : Option Text) : Bool := x.getD [] = []

namespace NetPlatform

variable (P : NetPlatform)

def separator : Nat := if P.windows then 45 else 58

def famOf (fam : Int) : Int :=
  if P.isAddressFamily fam then fam
  else if P.windows && fam = -1 then P.afLink
  else if fam = P.afLink then P.afLink else fam

def broadcastAddr (addr : SnicAddr) : Except Exc (Option Text) :=
  if falsy addr.address || falsy addr.netmask then .ok none
  else
    let text := addr.address.getD [] ++ 47 :: addr.netmask.getD []
    let net : Except Exc (Option IpNetwork) :=
      if addr.family = P.afInet then (P.ipv4Network text).map some
      else if addr.family = P.afInet6 then (P.ipv6Network text).map some
      else .ok none
    net.map fun net => net.bind fun net => if net.prefixlen = net.maxPrefixlen then none else some net.broadcastAddress

/-- `nt` after the `if`; an exception becomes a warning. -/
def fixBroadcast (nt : SnicAddr) : SnicAddr :=
  if !falsy nt.netmask && (nt.family = P.afInet || P.windows && nt.family = P.afInet6) then
    match P.broadcastAddr nt with
    | .error _ => nt
    | .ok none => { nt with broadcast := none }
    | .ok (some calculated) => if P.windows then { nt with broadcast := some calculated } else nt
  else nt

/-- What is appended for an entry. -/
def completed (fuel : Nat) (e : RawAddr) : Option (Except Exc SnicAddr) :=
  let fam := P.famOf e.family
  if fam = P.afLink then
    match e.address with
    | none => some (.error (.attributeError "'NoneType' object has no attribute 'count'"))
    | some addr => (fillMac P.separator fuel addr).map fun addr => .ok (P.fixBroadcast ⟨fam, some addr, e.netmask, e.broadcast, e.ptp⟩)
  else some (.ok (P.fixBroadcast ⟨fam, e.address, e.netmask, e.broadcast, e.ptp⟩))

/-- The `for` loop. -/
def addEntries (fuel : Nat) : List RawAddr → List (Text × SnicAddr) → Option (Except Exc (List (Text × SnicAddr)))
  | [], ret => some (.ok ret)
  | e :: rest, ret => match P.completed fuel e with
    | none => none
    | some (.error err) => some (.error err)
    | some (.ok nt) => addEntries fuel rest (ret ++ [(e.name, nt)])

def netIfAddrs (fuel : Nat) (rawlist : List RawAddr) : Option (Except Exc (Dict Text (List SnicAddr))) :=
  (P.addEntries fuel (sortKey RawAddr.family rawlist) []).map fun ret => ret.map collect

end NetPlatform

/-! ## Link-layer addresses -/

/-- The bytes in hexadecimal, with a colon between two of them. -/
def macText (data : Bytes) : Text := [58].intercalate (data.map fun b => (hexPair b).map UInt8.toNat)

/-- `:00` as often as it is missing. -/
def filled (separator : Nat) (addr : Text) : Text := addr ++ (List.replicate (5 - addr.count separator) [separator, 48, 48]).flatten

example : filled 58 (macText [0x06, 0x3d, 0x29]) = text "06:3d:29:00:00:00" := by decide

theorem hexPair_ne {b c : UInt8} (h : c ∈ hexPair b) : c ≠ 0 ∧ c ≠ 58 := by
  have hall : ∀ d : Fin 16, hexChar d ≠ 0 ∧ hexChar d ≠ 58 := by decide
  have hlt := b.toNat_lt
  simp only [hexPair, List.mem_cons, List.not_mem_nil, or_false] at h
  rcases h with rfl | rfl
  · exact hall ⟨b.toNat / 16, by omega⟩
  · exact hall ⟨b.toNat % 16, by omega⟩

theorem length_terminate_hexPair : ∀ data : Bytes, (terminate 58 (data.map hexPair)).length = 3 * data.length
  | [] => rfl
  | b :: data => by
    have ih := length_terminate_hexPair data
    rw [List.map_cons, terminate_cons, List.length_append, List.length_cons, ih, List.length_cons, show (hexPair b).length = 2 from rfl]
    omega

/-- One `str_format`, where there is room. -/
theorem strFormat_append {size : Nat} (hsize : 4 ≤ size) (b : UInt8) {pre rest : Bytes} (hroom : 4 ≤ rest.length) :
    strFormat size (hexPair b ++ [58]) (pre ++ rest) pre.length = some ((pre ++ (hexPair b ++ [58])) ++ 0 :: rest.drop 4) := by
  have htake : (hexPair b ++ [58]).take (size - 1) = hexPair b ++ [58] := by
    refine List.take_of_length_le ?_
    simp [hexPair]
    omega
  have hlen : (hexPair b ++ [58] ++ [0]).length = 4 := rfl
  simp only [strFormat, htake, hlen]
  rw [if_pos (by rw [List.length_append]; omega), List.take_left, List.drop_append]
  simp

/-- **The loop**: it writes behind `pre`, and nothing outside of the buffer. -/
theorem writeHex_append {size : Nat} (hsize : 4 ≤ size) : ∀ (data pre rest : Bytes), 3 * data.length < rest.length →
    ∃ tail, writeHex size data (pre ++ rest) pre.length =
      some (pre ++ (terminate 58 (data.map hexPair) ++ tail), pre.length + 3 * data.length)
  | [], pre, rest, _ => ⟨rest, rfl⟩
  | b :: data, pre, rest, h => by
    rw [List.length_cons] at h
    have hpre : (pre ++ (hexPair b ++ [58])).length = pre.length + 3 := by simp [hexPair]
    obtain ⟨tail, htail⟩ := writeHex_append hsize data (pre ++ (hexPair b ++ [58])) (0 :: rest.drop 4) (by simp; omega)
    refine ⟨tail, ?_⟩
    rw [writeHex, strFormat_append hsize b (by omega)]
    show writeHex size data _ (pre.length + 3) = _
    rw [← hpre, htail, hpre, List.map_cons, terminate_cons, List.length_cons, show pre.length + 3 + 3 * data.length =
      pre.length + 3 * (data.length + 1) by omega]
    simp

/-- The text of an address of at least one byte. -/
theorem linkAddr_eq {size : Nat} (hsize : 4 ≤ size) {buf data : Bytes} (hne : data ≠ []) (hbuf : 3 * data.length < buf.length) :
    linkAddr size buf data = some (some (macText data)) := by
  obtain ⟨tail, hwrite⟩ := writeHex_append hsize data [] buf hbuf
  have hpairs : data.map hexPair ≠ [] := by simpa using hne
  have hlen : (terminate 58 (data.map hexPair)).length = 3 * data.length := length_terminate_hexPair data
  rw [List.nil_append, List.length_nil, Nat.zero_add, List.nil_append, ← hlen, terminate_eq_intercalate 58 hpairs] at hwrite
  have hzero : ∀ c ∈ [58].intercalate (data.map hexPair), decide (c ≠ 0) = true := by
    intro c hc
    have hmem : c ∈ terminate 58 (data.map hexPair) := by
      rw [terminate_eq_intercalate 58 hpairs]
      exact List.mem_append_left _ hc
    rcases mem_terminate hmem with rfl | ⟨x, hx, hcx⟩
    · decide
    · obtain ⟨b, -, rfl⟩ := List.mem_map.1 hx
      exact decide_eq_true (hexPair_ne hcx).1
  -- the NUL takes the place of the last colon
  have hset : (([58].intercalate (data.map hexPair) ++ [58]) ++ tail).set (([58].intercalate (data.map hexPair) ++ [58]).length - 1) 0 =
      [58].intercalate (data.map hexPair) ++ 0 :: tail := by
    rw [List.length_append, List.length_singleton, Nat.add_sub_cancel, List.append_assoc, List.set_append_right _ _ (le_refl _), Nat.sub_self]
    rfl
  simp only [linkAddr, hne, if_false, hwrite, hset, pyUnicode]
  rw [List.takeWhile_append_of_pos hzero, List.takeWhile_cons_of_neg (by simp), List.append_nil,
    map_intercalate, List.map_map]
  rfl

theorem count_macText {data : Bytes} (hne : data ≠ []) : (macText data).count 58 + 1 = data.length := by
  have hpairs : (data.map fun b => (hexPair b).map UInt8.toNat) ≠ [] := by simpa using hne
  have hterminate : (terminate 58 (data.map fun b => (hexPair b).map UInt8.toNat)).count 58 = data.length := by
    clear hne hpairs
    induction data with
    | nil => rfl
    | cons b data ih =>
      have hpair : ((hexPair b).map UInt8.toNat).count 58 = 0 := by
        refine List.count_eq_zero.2 fun hmem => ?_
        obtain ⟨c, hc, h58⟩ := List.mem_map.1 hmem
        exact (hexPair_ne hc).2 (UInt8.toNat_inj.1 h58)
      rw [List.map_cons, terminate_cons, List.count_append, hpair, List.count_cons_self, ih, List.length_cons, Nat.zero_add]
  rw [terminate_eq_intercalate 58 hpairs, List.count_append, List.count_singleton_self] at hterminate
  exact hterminate

/-- One group has one separator, so that the loop ends. -/
theorem fillMac_eq {separator : Nat} (hsep : separator ≠ 48) : ∀ {fuel : Nat} {addr : Text}, 5 - addr.count separator < fuel →
    fillMac separator fuel addr = some (filled separator addr)
  | fuel + 1, addr, h => by
    rw [fillMac]
    split_ifs with hlt
    · have hcount : (addr ++ [separator, 48, 48]).count separator = addr.count separator + 1 := by
        have hzeros : ([48, 48] : Text).count separator = 0 := List.count_eq_zero.2 (by simpa using hsep)
        rw [List.count_append, List.count_cons_self, hzeros]
      obtain ⟨k, hk⟩ : ∃ k, 5 - addr.count separator = k + 1 := ⟨4 - addr.count separator, by omega⟩
      have hrest : 5 - (addr.count separator + 1) = k := by omega
      rw [fillMac_eq hsep (by rw [hcount]; omega), filled, filled, hcount, hrest, hk, List.replicate_succ, List.flatten_cons, List.append_assoc]
    · have hnone : 5 - addr.count separator = 0 := by omega
      rw [filled, hnone, List.replicate_zero, List.flatten_nil, List.append_nil]

/-! ## The entries -/

namespace NetPlatform

variable (P : NetPlatform)

theorem famOf_eq (fam : Int) : P.famOf fam = fam := by
  unfold famOf
  split_ifs with hknown hwindows hlink
  · rfl
  · rw [Bool.and_eq_true, decide_eq_true_eq] at hwindows
    rw [P.afLink_windows hwindows.1, hwindows.2]
  · exact hlink.symm
  · rfl

theorem separator_ne : P.separator ≠ 48 := by
  unfold separator
  split_ifs <;> decide

/-- What becomes of an entry. -/
def finished (e : RawAddr) : SnicAddr :=
  P.fixBroadcast ⟨e.family, if e.family = P.afLink then e.address.map (filled P.separator) else e.address, e.netmask, e.broadcast, e.ptp⟩

theorem completed_eq {fuel : Nat} (hfuel : 5 < fuel) {e : RawAddr} (he : e.family = P.afLink → e.address ≠ none) :
    P.completed fuel e = some (.ok (P.finished e)) := by
  simp only [completed, finished, P.famOf_eq]
  split_ifs with hlink
  · obtain ⟨addr, haddr⟩ := Option.ne_none_iff_exists'.1 (he hlink)
    have hfill : fillMac P.separator fuel addr = some (filled P.separator addr) := fillMac_eq P.separator_ne (by omega)
    simp only [haddr, hfill, Option.map_some]
  · rfl

theorem addEntries_eq {fuel : Nat} (hfuel : 5 < fuel) : ∀ {es : List RawAddr}, (∀ e ∈ es, e.family = P.afLink → e.address ≠ none) →
    ∀ ret, P.addEntries fuel es ret = some (.ok (ret ++ es.map fun e => (e.name, P.finished e)))
  | [], _, ret => by simp [addEntries]
  | e :: es, h, ret => by
    rw [List.forall_mem_cons] at h
    rw [addEntries, P.completed_eq hfuel h.1]
    simp only [addEntries_eq hfuel h.2, List.map_cons, List.append_assoc, List.singleton_append]

end NetPlatform

/-- An entry as it is returned: nothing is lost but the broadcast address of a network of one host, and on Windows it is new. -/
structure Completes (P : NetPlatform) (e : RawAddr) (nt : SnicAddr) : Prop where
  family : nt.family = e.family
  address : nt.address = if e.family = P.afLink then e.address.map (filled P.separator) else e.address
  netmask : nt.netmask = e.netmask
  ptp : nt.ptp = e.ptp
  broadcast : nt.broadcast = e.broadcast ∨ (nt.broadcast = none ∧ e.family = P.afInet) ∨ P.windows = true

namespace NetPlatform

variable (P : NetPlatform)

theorem fixBroadcast_eq (nt : SnicAddr) : ∃ b, P.fixBroadcast nt = { nt with broadcast := b } ∧
    (b = nt.broadcast ∨ (b = none ∧ nt.family = P.afInet) ∨ P.windows = true) := by
  unfold fixBroadcast
  split
  · rename_i hif
    simp only [Bool.and_eq_true, Bool.or_eq_true, decide_eq_true_eq] at hif
    split
    · exact ⟨nt.broadcast, rfl, Or.inl rfl⟩
    · refine ⟨none, rfl, Or.inr ?_⟩
      rcases hif.2 with hinet | hinet6
      · exact Or.inl ⟨rfl, hinet⟩
      · exact Or.inr hinet6.1
    · split
      · rename_i hwindows
        exact ⟨_, rfl, Or.inr (Or.inr hwindows)⟩
      · exact ⟨nt.broadcast, rfl, Or.inl rfl⟩
  · exact ⟨nt.broadcast, rfl, Or.inl rfl⟩

theorem finished_completes (e : RawAddr) : Completes P e (P.finished e) := by
  obtain ⟨b, heq, hb⟩ := P.fixBroadcast_eq
    ⟨e.family, if e.family = P.afLink then e.address.map (filled P.separator) else e.address, e.netmask, e.broadcast, e.ptp⟩
  have hfinished : P.finished e = _ := heq
  rw [hfinished]
  exact ⟨rfl, rfl, rfl, rfl, hb⟩

end NetPlatform

/-- An entry without an address has the family `AF_UNSPEC`. -/
theorem address_of_rawAddr {size : Nat} {buf : Bytes} {ifa : IfAddr} {e : RawAddr} (h : rawAddr size buf ifa = some e) (hfamily : e.family ≠ 0) :
    e.address ≠ none := by
  simp only [rawAddr, Option.bind_eq_bind] at h
  obtain ⟨address, -, h⟩ := Option.bind_eq_some_iff.1 h
  by_cases hnone : address = none
  · rw [if_pos hnone] at h
    obtain rfl := Option.some.inj h
    exact absurd rfl hfamily
  · rw [if_neg hnone] at h
    obtain ⟨netmask, -, h⟩ := Option.bind_eq_some_iff.1 h
    split_ifs at h <;> simp only [Option.bind_eq_some_iff, Option.pure_def, Option.some.injEq] at h <;> grind

/-- C gives no link-layer entry without an address. -/
theorem linked_of_psutilNetIfAddrs (P : NetPlatform) {size : Nat} {buf : Bytes} : ∀ {ifaddr : List IfAddr} {rawlist : List RawAddr},
    psutilNetIfAddrs size buf ifaddr = some rawlist → ∀ e ∈ rawlist, e.family = P.afLink → e.address ≠ none
  | [], rawlist, h, e, he, _ => by
    obtain rfl := Option.some.inj h
    exact absurd he List.not_mem_nil
  | ifa :: ifaddr, rawlist, h, e, he, hlink => by
    simp only [psutilNetIfAddrs, List.mapM_cons, Option.bind_eq_bind, Option.bind_eq_some_iff, Option.pure_def, Option.some.injEq] at h
    obtain ⟨first, hfirst, rest, hrest, rfl⟩ := h
    rcases List.mem_cons.1 he with rfl | he
    · exact address_of_rawAddr hfirst (by rw [hlink]; exact P.afLink_ne)
    · exact linked_of_psutilNetIfAddrs P hrest e he hlink

/-- The entries of one NIC, in the order in which they are returned. -/
structure Listed (P : NetPlatform) (rawlist : List RawAddr) (name : Text) (es : List RawAddr) (nts : List SnicAddr) : Prop where
  completed : List.Forall₂ (Completes P) es nts
  once : es.Perm (rawlist.filter fun e => e.name = name)
  ordered : es.Pairwise fun e e' => e.family ≤ e'.family
  stable : ∀ family, (es.filter fun e => e.family = family) = rawlist.filter fun e => e.name = name ∧ e.family = family

theorem netIfAddrs_listed (P : NetPlatform) (rawlist : List RawAddr) (hlink : ∀ e ∈ rawlist, e.family = P.afLink → e.address ≠ none) :
    ∃ ret, (∀ fuel, 5 < fuel → P.netIfAddrs fuel rawlist = some (.ok ret)) ∧
      ∀ name, (name ∈ ret ↔ ∃ e ∈ rawlist, e.name = name) ∧ ∃ es, Listed P rawlist name es ((ret.get? name).getD []) := by
  have hperm := sortKey_perm RawAddr.family rawlist
  refine ⟨collect ((sortKey RawAddr.family rawlist).map fun e => (e.name, P.finished e)), fun fuel hfuel => ?_, fun name => ⟨?_, ?_⟩⟩
  · rw [NetPlatform.netIfAddrs, P.addEntries_eq hfuel fun e he => hlink e (hperm.mem_iff.1 he), List.nil_append]
    rfl
  · simp only [mem_collect, List.mem_map, exists_exists_and_eq_and, hperm.mem_iff]
  · refine ⟨(sortKey RawAddr.family rawlist).filter fun e => e.name = name, ⟨?_, hperm.filter _, (pairwise_sortKey _ _).filter _, fun family => ?_⟩⟩
    · rw [getD_collect, List.filter_map, List.map_map]
      exact List.forall₂_map_right_iff.2 (List.forall₂_same.2 fun e _ => P.finished_completes e)
    · have hfamily := congrArg (List.filter fun e => e.name = name) (filter_sortKey RawAddr.family family rawlist)
      rw [List.filter_filter] at hfamily ⊢
      rw [List.filter_filter] at hfamily
      simpa only [Bool.and_comm, Bool.decide_and] using hfamily

/-- `:00` groups up to six of them; the first address of at least six bytes is full. -/
theorem filled_macText {data : Bytes} (hne : data ≠ []) :
    filled 58 (macText data) = macText data ++ (List.replicate (6 - data.length) (text ":00")).flatten := by
  have hcount : 5 - (macText data).count 58 = 6 - data.length := by
    have hcount := count_macText hne
    omega
  rw [filled, hcount]
  rfl

/-- **Nothing is lost, and a link-layer address is only filled up.** `size` is `sizeof(ptr)`, and the buffer has `NI_MAXHOST` bytes.
The entries of each NIC are those of the list, by family, and in their order within a family; the list that C returns has what this
needs. The text of a link-layer address is its bytes in hexadecimal, and the `while` loop ends after five rounds at most. -/
theorem netIfAddrs_complete (P : NetPlatform) {size : Nat} (hsize : 4 ≤ size) {buf : Bytes} (hbuf : buf.length = 1025) :
    (∀ rawlist, (∀ e ∈ rawlist, e.family = P.afLink → e.address ≠ none) →
      ∃ ret, (∀ fuel, 5 < fuel → P.netIfAddrs fuel rawlist = some (.ok ret)) ∧
        ∀ name, (name ∈ ret ↔ ∃ e ∈ rawlist, e.name = name) ∧ ∃ es, Listed P rawlist name es ((ret.get? name).getD [])) ∧
    (∀ ifaddr rawlist, psutilNetIfAddrs size buf ifaddr = some rawlist → ∀ e ∈ rawlist, e.family = P.afLink → e.address ≠ none) ∧
    ∀ data : Bytes, 1 ≤ data.length → data.length ≤ 255 →
      convertIpaddr size buf (some (.link data)) = some (some (macText data)) ∧
      (P.windows = false → ∀ fuel, 5 < fuel → fillMac P.separator fuel (macText data) = some (filled P.separator (macText data)) ∧
        filled P.separator (macText data) = macText data ++ (List.replicate (6 - data.length) (text ":00")).flatten) := by
  refine ⟨netIfAddrs_listed P, fun ifaddr rawlist => linked_of_psutilNetIfAddrs P, fun data hpos hlen => ?_⟩
  have hne : data ≠ [] := List.length_pos_iff.1 hpos
  refine ⟨linkAddr_eq hsize hne (by omega), fun hposix fuel hfuel => ?_⟩
  have hsep : P.separator = 58 := by rw [NetPlatform.separator, hposix]; rfl
  rw [hsep]
  exact ⟨fillMac_eq (by decide) (by omega), filled_macText hne⟩

/-- A Linux machine with one network. -/
def linuxPlatform : NetPlatform where
  windows := false
  afLink := 17
  afInet := 2
  afInet6 := 10
  isAddressFamily fam := fam ∈ [0, 2, 10, 17]
  ipv4Network := fun addr => if addr = text "127.0.0.1/255.0.0.0" then .ok ⟨8, 32, text "127.255.255.255"⟩ else .error (.valueError "")
  ipv6Network := fun _ => .error (.valueError "")
  afLink_windows := by decide
  afLink_ne := by decide

theorem netIfAddrs_complete_linux :
    (∃ ret, linuxPlatform.netIfAddrs 6 [⟨text "ib0", 17, some (text "06:3d:29"), none, none, none⟩,
        ⟨text "lo", 2, some (text "127.0.0.1"), some (text "255.0.0.0"), none, none⟩] = some (.ok ret) ∧ text "ib0" ∈ ret) ∧
    convertIpaddr 8 (List.replicate 1025 7) (some (.link [0x06, 0x3d, 0x29])) = some (some (text "06:3d:29")) ∧
    fillMac linuxPlatform.separator 6 (text "06:3d:29") = some (filled linuxPlatform.separator (text "06:3d:29")) ∧
    filled linuxPlatform.separator (text "06:3d:29") = text "06:3d:29:00:00:00" := by
  have hbuf : (List.replicate 1025 7 : Bytes).length = 1025 := List.length_replicate
  obtain ⟨hlist, -, hmac⟩ := netIfAddrs_complete linuxPlatform (show 4 ≤ 8 by decide) hbuf
  obtain ⟨ret, hret, hkeys⟩ := hlist [⟨text "ib0", 17, some (text "06:3d:29"), none, none, none⟩,
    ⟨text "lo", 2, some (text "127.0.0.1"), some (text "255.0.0.0"), none, none⟩] (by decide)
  obtain ⟨hconvert, hfill⟩ := hmac [0x06, 0x3d, 0x29] (by decide) (by decide)
  exact ⟨⟨ret, hret 6 (by decide), (hkeys (text "ib0")).1.2 ⟨_, List.mem_cons_self, rfl⟩⟩, hconvert, hfill rfl 6 (by decide)⟩

end Psutil.IfAddrs
