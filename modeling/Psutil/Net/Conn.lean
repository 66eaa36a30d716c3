import Psutil.Linux.Bytes

/-!
# Connections (`_common.py:82-100`, `_enums.py:72`, `_ntuples.py`)

The values of `pconn` and `sconn`, and the kinds that `net_connections` takes.
-/

namespace Psutil

/-- `socket.AF_INET`, `AF_INET6`, `AF_UNIX`. -/
inductive Family where
  | inet | inet6 | unix
  deriving DecidableEq, Repr

/-- `socket.SOCK_STREAM`. -/
def sockStream : Int := 1

/-- `socket.SOCK_DGRAM`. -/
def sockDgram : Int := 2

/-- `ConnectionStatus`. -/
inductive ConnectionStatus where
  | close | closeWait | closing | established | finWait1 | finWait2 | lastAck | listen | none | synRecv | synSent | timeWait
  deriving DecidableEq, Repr

/-- `()`, `addr(ip, port)`, or the path of a UNIX socket. -/
inductive Addr where
  | none
  | inet (ip : Bytes) (port : Nat)
  | path (path : Bytes)
  deriving DecidableEq, Repr

/-- `pconn`; with a PID beside it, `sconn`. -/
structure Conn where
  fd : Int
  family : Family
  type : Int
  laddr : Addr
  raddr : Addr
  status : ConnectionStatus
  deriving DecidableEq, Repr

/-- The tuples of the C functions; a status is a number of the system. -/
structure RawConn where
  fd : Int
  family : Family
  type : Int
  laddr : Addr
  raddr : Addr
  status : Int
  pid : Int
  deriving DecidableEq

/-- `int PSUTIL_CONN_NONE` (`arch/all/init.c:15`). -/
def connNone : Int := 128

/-- The *kind* argument. -/
inductive ConnKind where
  | all | tcp | tcp4 | tcp6 | udp | udp4 | udp6 | unix | inet | inet4 | inet6
  deriving DecidableEq, Repr

end Psutil
