import Psutil.Lib.Dict
import Psutil.Net.Conn

/-!
# `NetConnections` (`_pslinux.py:706-943`)

| here | there |
| --- | --- |
| `Proto`, `ConnKind.protos` | the entries of `tmap` (`:718`) |
| `NetSystem.getProcInodes`, `NetSystem.getAllInodes` | `get_proc_inodes` (`:745`), `get_all_inodes` (`:773`) |
| `decodeAddress` | `decode_address` (`:789`) |
| `inetLine`, `unixLine` | the bodies of the loops of `process_inet` (`:838`) and `process_unix` (`:882`) |
| `NetSystem.processProto` | both functions |
| `NetSystem.retrieve` | `retrieve` (`:916`) |

Nothing changes while a function runs: the PIDs, the descriptors and the files of `/proc/net` are given. Texts are the
bytes of the files, and a link is what the wrapper `readlink` makes of it.
-/

namespace Psutil

open Lib Bytes

/-- An entry of `tmap`: the name of a file below `/proc/net`, with a family and a type. -/
inductive Proto where
  | tcp4 | tcp6 | udp4 | udp6 | unix
  deriving DecidableEq, Repr

namespace Proto

def name : Proto → String
  | tcp4 => "tcp"
  | tcp6 => "tcp6"
  | udp4 => "udp"
  | udp6 => "udp6"
  | unix => "unix"

def family : Proto → Family
  | tcp4 | udp4 => .inet
  | tcp6 | udp6 => .inet6
  | unix => .unix

/-- The type of an inet socket. -/
def type : Proto → Int
  | tcp4 | tcp6 => sockStream
  | _ => sockDgram

end Proto

/-- `self.tmap[kind]`. -/
def ConnKind.protos : ConnKind → List Proto
  | .all => [.tcp4, .tcp6, .udp4, .udp6, .unix]
  | .tcp => [.tcp4, .tcp6]
  | .tcp4 => [.tcp4]
  | .tcp6 => [.tcp6]
  | .udp => [.udp4, .udp6]
  | .udp4 => [.udp4]
  | .udp6 => [.udp6]
  | .unix => [.unix]
  | .inet => [.tcp4, .tcp6, .udp4, .udp6]
  | .inet4 => [.tcp4, .udp4]
  | .inet6 => [.tcp6, .udp6]

/-- What the functions ask of the C library and the build. -/
structure NetPlatform where
  littleEndian : Bool
  inetNtop : Family → Bytes → Except Exc Bytes
  /-- `supports_ipv6()`. -/
  supportsIpv6 : Bool

structure NetSystem where
  platform : NetPlatform
  /-- `pids()`, in the order of the directory. -/
  pids : List Nat
  /-- `/proc/PID/fd`: the descriptors, and what `readlink` gives for each. -/
  fds : Nat → Except Errno (Dict Nat (Except Errno Bytes))
  /-- The lines of a file of `/proc/net`, if it is there. -/
  files : Proto → Option (List Bytes)

/-- `(pid, fd)` pairs by inode. -/
abbrev Inodes := Dict Bytes (List (Nat × Nat))

/-- A connection and the PID bound to it. -/
abbrev Row := Conn × Option Nat

/-! ## Inodes -/

/-- The socket inode behind a link; `none` for any other file, and for a link that is skipped. -/
def linkInode : Except Errno Bytes → Except Exc (Option Bytes)
  | .error .enoent | .error .esrch => .ok none
  | .error (.other code) =>
    -- EINVAL is not a link, ENAMETOOLONG a link that is too long
    if code = 22 ∨ code = 36 then .ok none else .error (.osError (.other code))
  | .error errno => .error (.osError errno)
  | .ok target => .ok (if startsWith target (ascii "socket:[") then some (target.drop 8).dropLast else none)

/-- The body of the loop of `get_proc_inodes`. -/
def addFd (pid : Nat) (inodes : Inodes) (item : Nat × Except Errno Bytes) : Except Exc Inodes := do
  match ← linkInode item.2 with
  | none => return inodes
  | some inode => return inodes.set inode ((inodes.get? inode).getD [] ++ [(pid, item.1)])

/-- The errors that `get_all_inodes` passes over. -/
def isGoneOrDenied : Exc → Bool
  | .osError .enoent | .osError .esrch | .osError .eacces | .osError .eperm => true
  | _ => false

namespace NetSystem

variable (N : NetSystem)

def getProcInodes (pid : Nat) : Except Exc Inodes :=
  match N.fds pid with
  | .error errno => .error (.osError errno)
  | .ok d => d.items.foldlM (addFd pid) ∅

/-- The body of the loop of `get_all_inodes`. -/
def addInodes (inodes : Inodes) (pid : Nat) : Except Exc Inodes :=
  match N.getProcInodes pid with
  | .ok d => .ok (inodes.update d.items)
  | .error e => if isGoneOrDenied e then .ok inodes else .error e

def getAllInodes : Except Exc Inodes := N.pids.foldlM N.addInodes ∅

end NetSystem

/-! ## Addresses -/

def hexDigit (c : UInt8) : Option Nat :=
  if isDigit c then some (c.toNat - 48)
  else if 65 ≤ c && c ≤ 70 then some (c.toNat - 55)
  else none

/-- `int(data, 16)`, as far as the kernel prints numbers. -/
def hexInt (data : Bytes) : Except Exc Nat :=
  match data.mapM hexDigit with
  | some (d :: ds) => .ok ((d :: ds).foldl (fun n d => 16 * n + d) 0)
  | _ => .error (.valueError ("invalid literal for int() with base 16: " ++ (Bytes.repr data).drop 1))

/-- `base64.b16decode(data)`. -/
def b16decode : Bytes → Except Exc Bytes
  | [] => .ok []
  | [_] => .error (.valueError "Odd-length string")
  | c :: c' :: data => match hexDigit c, hexDigit c' with
    | some d, some d' => do return (16 * d + d').toUInt8 :: (← b16decode data)
    | _, _ => .error (.valueError "Non-base16 digit found")

/-- The bytes of each word of four in reverse. -/
def swapWords : Bytes → Bytes
  | a :: b :: c :: d :: rest => d :: c :: b :: a :: swapWords rest
  | rest => rest

/-- `struct.pack(order, *struct.unpack('<4I', ip))`; a `struct.error` is not a `ValueError`. -/
def repack (littleEndian : Bool) (ip : Bytes) : Except Exc Bytes :=
  if ip.length = 16 then .ok (if littleEndian then swapWords ip else ip)
  else .error (.runtimeError "unpack requires a buffer of 16 bytes")

/-- `decode_address(addr, family)`; `none` is `_Ipv6UnsupportedError`. -/
def decodeAddress (plat : NetPlatform) (addr : Bytes) (family : Family) : Except Exc (Option Addr) :=
  match addr.splitOn (byte ':') with
  | [ip, port] => do
    let port ← hexInt port
    -- a socket in listen mode has no end point
    if port = 0 then return some .none
    let ip ← b16decode ip
    if family = .inet then
      return some (.inet (← plat.inetNtop family (if plat.littleEndian then ip.reverse else ip)) port)
    let packed ← repack plat.littleEndian ip
    match plat.inetNtop .inet6 packed with
    | .ok ip => return some (.inet ip port)
    | .error (.valueError msg) => if plat.supportsIpv6 then .error (.valueError msg) else return none
    | .error e => .error e
  | _ => .error (.valueError "wrong number of values to unpack (expected 2)")

/-! ## The files of `/proc/net` -/

/-- `TCP_STATUSES[status]` (`:112`). -/
def tcpStatuses (status : Bytes) : Except Exc ConnectionStatus :=
  if status = ascii "01" then .ok .established
  else if status = ascii "02" then .ok .synSent
  else if status = ascii "03" then .ok .synRecv
  else if status = ascii "04" then .ok .finWait1
  else if status = ascii "05" then .ok .finWait2
  else if status = ascii "06" then .ok .timeWait
  else if status = ascii "07" then .ok .close
  else if status = ascii "08" then .ok .closeWait
  else if status = ascii "09" then .ok .lastAck
  else if status = ascii "0A" then .ok .listen
  else if status = ascii "0B" then .ok .closing
  else .error .keyError

/-- `_, laddr, raddr, status, _, _, _, _, _, inode = line.split()[:10]`. -/
def inetTokens (line : Bytes) : Option (Bytes × Bytes × Bytes × Bytes) :=
  match (split line).take 10 with
  | [_, laddr, raddr, status, _, _, _, _, _, inode] => some (laddr, raddr, status, inode)
  | _ => none

/-- The columns of a line that is yielded; `none` if the system has no IPv6. -/
def inetColumns (plat : NetPlatform) (proto : Proto) (laddr raddr status : Bytes) :
    Except Exc (Option (Addr × Addr × ConnectionStatus)) := do
  let status ← if proto.type = sockStream then tcpStatuses status else .ok .none
  match ← decodeAddress plat laddr proto.family with
  | none => return none
  | some laddr => match ← decodeAddress plat raddr proto.family with
    | none => return none
    | some raddr => return some (laddr, raddr, status)

/-- `pid, fd = inodes[inode][0]`, or `None, -1`. -/
def firstOwner : Option (List (Nat × Nat)) → Except Exc (Option Nat × Int)
  | some ((pid, fd) :: _) => .ok (some pid, fd)
  | some [] => .error .indexError
  | none => .ok (none, -1)

/-- `filter_pid is not None and filter_pid != pid`. -/
def filteredOut (filterPid pid : Option Nat) : Bool := filterPid ≠ none && filterPid ≠ pid

def inetLine (plat : NetPlatform) (proto : Proto) (inodes : Inodes) (filterPid : Option Nat) (item : Bytes × Nat) :
    Except Exc (List Row) :=
  match inetTokens item.1 with
  | none => .error (.runtimeError ("error while parsing /proc/net/" ++ proto.name ++ "; malformed line " ++
      toString item.2 ++ " " ++ (Bytes.repr item.1).drop 1))
  | some (laddr, raddr, status, inode) => do
    let (pid, fd) ← firstOwner (inodes.get? inode)
    if filteredOut filterPid pid then return []
    match ← inetColumns plat proto laddr raddr status with
    | none => return []
    | some (laddr, raddr, status) => return [(⟨fd, proto.family, proto.type, laddr, raddr, status⟩, pid)]

/-- `_, _, _, _, type_, _, inode = tokens[0:7]`. -/
def unixTokens (tokens : List Bytes) : Option (Bytes × Bytes) :=
  match tokens.take 7 with
  | [_, _, _, _, type, _, inode] => some (type, inode)
  | _ => none

/-- `tokens[-1] if len(tokens) == 8 else ''`. -/
def unixPath (tokens : List Bytes) : Bytes := if tokens.length = 8 then tokens.getLastD [] else []

/-- `inodes[inode]`, or `[(None, -1)]`. -/
def allOwners : Option (List (Nat × Nat)) → List (Option Nat × Int)
  | some pairs => pairs.map fun p => (some p.1, (p.2 : Int))
  | none => [(none, -1)]

def unixLine (inodes : Inodes) (filterPid : Option Nat) (item : Bytes × Nat) : Except Exc (List Row) :=
  let tokens := split item.1
  match unixTokens tokens with
  | none =>
    if !item.1.contains (byte ' ') then .ok []
    else .error (.runtimeError ("error while parsing /proc/net/unix; malformed line " ++ (Bytes.repr item.1).drop 1))
  | some (type, inode) => ((allOwners (inodes.get? inode)).filter fun o => !filteredOut filterPid o.1).mapM fun o => do
    return (⟨o.2, .unix, ← int type, .path (unixPath tokens), .path [], .none⟩, o.1)

namespace NetSystem

variable (N : NetSystem)

/-- `process_inet` and `process_unix` on the file of an entry of `tmap`. -/
def processProto (proto : Proto) (inodes : Inodes) (filterPid : Option Nat) : Except Exc (List Row) :=
  match N.files proto with
  | none =>
    -- IPv6 not supported
    if proto = .tcp6 ∨ proto = .udp6 then .ok [] else .error (.osError .enoent)
  | some lines => do
    let line := if proto = .unix then unixLine inodes filterPid else inetLine N.platform proto inodes filterPid
    return (← (lines.tail.zipIdx 1).mapM line).flatten

/-- `retrieve(kind, pid)`, before the PID is dropped where one was given. -/
def retrieve (kind : ConnKind) (pid : Option Nat) : Except Exc (List Row) := do
  let inodes ← match pid with
    | some pid => N.getProcInodes pid
    | none => N.getAllInodes
  if pid ≠ none ∧ inodes.isEmpty then return []
  return (← kind.protos.mapM (N.processProto · inodes pid)).flatten.dedup

/-- `psutil.net_connections(kind)`. -/
def netConnections (kind : ConnKind) : Except Exc (List Row) := N.retrieve kind none

/-- `Process(pid).net_connections(kind)`, of a process that exists: no PID is 0. -/
def procNetConnections (kind : ConnKind) (pid : Nat) : Except Exc (List Conn) := do
  return ((← N.retrieve kind (some pid)).map Prod.fst).dedup

end NetSystem

-- 127.0.0.1:8080 on a little-endian machine, with the bytes of the address for its text
example : decodeAddress ⟨true, fun _ ip => .ok ip, true⟩ (ascii "0100007F:1F90") .inet =
    .ok (some (.inet [127, 0, 0, 1] 8080)) := by decide

end Psutil
