import Mathlib.Logic.Function.Basic
import Psutil.Lib.Run
import Psutil.Net.Conn

/-!
# `psutil_net_connections` on NetBSD (`arch/netbsd/socks.c`)

| here | there |
| --- | --- |
| `Globals` | `kihead` and `kpcbhead` (`:28`, `:40`), the head first |
| `NetBsd.getFiles`, `NetBsd.getSockets` | `psutil_get_files` (`:84`), `psutil_get_sockets` (`:157`) |
| `pcblists`, `NetBsd.getInfo` | `psutil_get_info` (`:238`) |
| `NetBsd.collect` | the two loops of `psutil_net_connections` (`:354-461`) |
| `NetBsd.segment` | what a call does from one `Py_BEGIN_ALLOW_THREADS` to the next |

The tables do not change, so a `sysctl` gives its whole answer at once, or an error. A call lets other threads run in its
`sysctl`s only, and what it has inserted by then stays in the global lists. `unmixed_of_exclusive`: as long as no call
writes to the lists that another one is filling, every call returns what it returns when run alone.
-/

namespace Psutil

namespace NetBsd

structure Endpoint where
  addr : Bytes
  port : Nat
  deriving DecidableEq

/-- `ki_family`, and what it says of `ki_src` and `ki_dst`. -/
inductive KinfoAddrs where
  | inet (src dst : Endpoint)
  | inet6 (src dst : Endpoint)
  | unix (src dst : Bytes)
  | other
  deriving DecidableEq

/-- `struct kinfo_file`. -/
structure KinfoFile where
  fdata : Nat
  fd : Int
  pid : Nat
  deriving DecidableEq

/-- `struct kinfo_pcb`. -/
structure KinfoPcb where
  sockaddr : Nat
  type : Int
  tstate : Int
  addrs : KinfoAddrs
  deriving DecidableEq

structure Globals where
  kihead : List KinfoFile
  kpcbhead : List KinfoPcb
  deriving DecidableEq

namespace Globals

/-- `SLIST_INIT`; also what is left by the `clear` functions. -/
def empty : Globals := ⟨[], []⟩

/-- `SLIST_INSERT_HEAD` of one file after the other. -/
def insertFiles (g : Globals) (files : List KinfoFile) : Globals := { g with kihead := files.reverse ++ g.kihead }

def insertPcbs (g : Globals) (pcbs : List KinfoPcb) : Globals := { g with kpcbhead := pcbs.reverse ++ g.kpcbhead }

end Globals

/-- The tables a kind is made of. -/
def pcblists : String → Option (List String)
  | "inet" => some ["net.inet.tcp.pcblist", "net.inet.udp.pcblist", "net.inet6.tcp6.pcblist", "net.inet6.udp6.pcblist"]
  | "inet4" => some ["net.inet.tcp.pcblist", "net.inet.udp.pcblist"]
  | "inet6" => some ["net.inet6.tcp6.pcblist", "net.inet6.udp6.pcblist"]
  | "tcp" => some ["net.inet.tcp.pcblist", "net.inet6.tcp6.pcblist"]
  | "tcp4" => some ["net.inet.tcp.pcblist"]
  | "tcp6" => some ["net.inet6.tcp6.pcblist"]
  | "udp" => some ["net.inet.udp.pcblist", "net.inet6.udp6.pcblist"]
  | "udp4" => some ["net.inet.udp.pcblist"]
  | "udp6" => some ["net.inet6.udp6.pcblist"]
  | "unix" => some ["net.local.stream.pcblist", "net.local.seqpacket.pcblist", "net.local.dgram.pcblist"]
  | "all" => some ["net.inet.tcp.pcblist", "net.inet.udp.pcblist", "net.inet6.tcp6.pcblist", "net.inet6.udp6.pcblist",
      "net.local.stream.pcblist", "net.local.seqpacket.pcblist", "net.local.dgram.pcblist"]
  | _ => none

end NetBsd

open NetBsd

/-- What the `sysctl`s give (the size first, then the table), `sysctlnametomib`, and `inet_ntop`. -/
structure NetBsd where
  filesSize : Except Exc Unit
  files : Except Exc (List KinfoFile)
  mib : String → Except Exc Unit
  pcbsSize : String → Except Exc Unit
  pcbs : String → Except Exc (List KinfoPcb)
  ntop : Family → Bytes → Bytes

namespace NetBsd

variable (T : NetBsd)

/-- A file and the block of its socket; `none` is a `continue`. -/
def entry (k : KinfoFile) (kp : KinfoPcb) : Option RawConn :=
  let inet (family : Family) (src dst : Endpoint) : RawConn :=
    { fd := k.fd
      family := family
      type := kp.type
      laddr := .inet (T.ntop family src.addr) src.port
      raddr := if dst.port ≠ 0 then .inet (T.ntop family dst.addr) dst.port else .none
      status := if kp.type = sockStream then kp.tstate else connNone
      pid := k.pid }
  match kp.addrs with
  | .inet src dst => some (inet .inet src dst)
  | .inet6 src dst => some (inet .inet6 src dst)
  | .unix src dst => some ⟨k.fd, .unix, kp.type, .path src, .path dst, connNone, k.pid⟩
  | .other => none

/-- The PID is compared as an `unsigned int`. -/
def collect (pid : Int) (g : Globals) : List RawConn :=
  (g.kihead.filter fun k => pid = -1 || (k.pid : Int) = pid % 4294967296).flatMap fun k =>
    (g.kpcbhead.filter fun kp => k.fdata = kp.sockaddr).filterMap (T.entry k)

def getFiles (g : Globals) : Except Exc Globals := do
  T.filesSize
  return g.insertFiles (← T.files)

def getSockets (g : Globals) (name : String) : Except Exc Globals := do
  T.mib name
  T.pcbsSize name
  return g.insertPcbs (← T.pcbs name)

def invalidKind : Exc := .valueError "invalid kind value"

def getInfo (kind : String) (g : Globals) : Except Exc Globals :=
  match pcblists kind with
  | some names => names.foldlM T.getSockets g
  | none => .error invalidKind

def netConnections (pid : Int) (kind : String) : Except Exc (List RawConn) := do
  let g ← T.getFiles .empty
  let g ← T.getInfo kind g
  return T.collect pid g

/-! ## Calls in several threads -/

/-- The `sysctl` in which a call lets other threads run, and the tables that come after it. -/
inductive Pc where
  | filesSize
  | files
  | pcbsSize (name : String) (rest : List String)
  | pcbs (name : String) (rest : List String)

structure Call where
  pid : Int
  kind : String
  pc : Pc

/-- Either the next `sysctl`, with what is in the lists, or the end of the call, by which both lists are cleared. -/
inductive Segment where
  | release (g : Globals) (pc : Pc)
  | returns (r : Except Exc (List RawConn))

/-- The rest of `psutil_get_info`, and the loops. -/
def nextTable (pid : Int) (g : Globals) : List String → Segment
  | [] => .returns (.ok (T.collect pid g))
  | name :: rest => match T.mib name with
    | .error e => .returns (.error e)
    | .ok _ => .release g (.pcbsSize name rest)

def segment (call : Call) (g : Globals) : Segment :=
  match call.pc with
  | .filesSize => match T.filesSize with
    | .error e => .returns (.error e)
    | .ok _ => .release g .files
  | .files => match T.files with
    | .error e => .returns (.error e)
    | .ok files => match pcblists call.kind with
      | none => .returns (.error invalidKind)
      | some names => T.nextTable call.pid (g.insertFiles files) names
  | .pcbsSize name rest => match T.pcbsSize name with
    | .error e => .returns (.error e)
    | .ok _ => .release g (.pcbs name rest)
  | .pcbs name rest => match T.pcbs name with
    | .error e => .returns (.error e)
    | .ok pcbs => T.nextTable call.pid (g.insertPcbs pcbs) rest

/-- The lists, and the call each thread is in. -/
structure Threads where
  globals : Globals
  calls : Nat → Option Call

inductive ThreadEv where
  /-- A thread that is in no call enters one. -/
  | begin (c : Nat) (pid : Int) (kind : String)
  /-- The `sysctl` of a call is over. -/
  | resume (c : Nat)
  deriving DecidableEq

def ThreadEv.thread : ThreadEv → Nat
  | .begin c _ _ => c
  | .resume c => c

/-- The thread whose call ends, and what it gets. -/
abbrev ThreadOut := Option (Nat × Except Exc (List RawConn))

namespace Threads

def init : Threads := ⟨.empty, fun _ => none⟩

def step (s : Threads) : ThreadEv → Threads × ThreadOut
  | .begin c pid kind => match s.calls c with
    | none => (⟨.empty, Function.update s.calls c (some ⟨pid, kind, .filesSize⟩)⟩, none)
    | some _ => (s, none)
  | .resume c => match s.calls c with
    | none => (s, none)
    | some call => match T.segment call s.globals with
      | .release g pc => (⟨g, Function.update s.calls c (some { call with pc := pc })⟩, none)
      | .returns r => (⟨.empty, Function.update s.calls c none⟩, some (c, r))

end Threads

def machine : Lib.Machine Threads ThreadEv ThreadOut := ⟨Threads.step T⟩

abbrev ThreadLine := Lib.Line Threads ThreadEv ThreadOut

/-- What a call returns when no other thread is in one. -/
def Alone (pid : Int) (kind : String) (r : Except Exc (List RawConn)) : Prop :=
  ∃ n, some (0, r) ∈ T.machine.outs .init (.begin 0 pid kind :: List.replicate n (.resume 0))

/-- Every call of a run returns what it returns when run alone. -/
def Unmixed (es : List ThreadEv) : Prop :=
  ∀ l ∈ T.machine.trace .init es, ∀ c r, l.out = some (c, r) →
    ∃ call, l.pre.calls c = some call ∧ T.Alone call.pid call.kind r

/-- A call that has put something in the lists and will come back to it. -/
def Call.Filling (call : Call) : Prop :=
  match call.pc with
  | .filesSize | .files => False
  | .pcbsSize _ _ | .pcbs _ _ => True

/-- A step that initializes the lists, inserts or clears them. -/
def Writes (s : Threads) : ThreadEv → Prop
  | .begin c _ _ => s.calls c = none
  | .resume c => match s.calls c with
    | none => False
    | some call => match call.pc with
      | .filesSize => T.filesSize ≠ .ok ()
      | .pcbsSize name _ => T.pcbsSize name ≠ .ok ()
      | .files | .pcbs _ _ => True

/-- Nobody writes to the lists that another call is filling. -/
def Exclusive (l : ThreadLine) : Prop :=
  ∀ c call, l.pre.calls c = some call → call.Filling → l.ev.thread ≠ c → ¬T.Writes l.pre l.ev

/-! ## One segment -/

/-- What a call comes to if no other call writes to the lists any more. -/
def outcome (call : Call) (g : Globals) : Except Exc (List RawConn) :=
  match call.pc with
  | .filesSize => do
    let g ← T.getFiles g
    return T.collect call.pid (← T.getInfo call.kind g)
  | .files => do
    let files ← T.files
    return T.collect call.pid (← T.getInfo call.kind (g.insertFiles files))
  | .pcbsSize name rest => do
    T.pcbsSize name
    let pcbs ← T.pcbs name
    return T.collect call.pid (← rest.foldlM T.getSockets (g.insertPcbs pcbs))
  | .pcbs name rest => do
    let pcbs ← T.pcbs name
    return T.collect call.pid (← rest.foldlM T.getSockets (g.insertPcbs pcbs))

/-- How often a call is resumed at most. -/
def Call.left (call : Call) : Nat :=
  match call.pc with
  | .filesSize => 2 * ((pcblists call.kind).getD []).length + 2
  | .files => 2 * ((pcblists call.kind).getD []).length + 1
  | .pcbsSize _ rest => 2 * rest.length + 2
  | .pcbs _ rest => 2 * rest.length + 1

/-- A segment of `call` ends as it does when run alone, and the call gets nearer to its end. -/
def SegmentOk (call : Call) (g : Globals) : Segment → Prop
  | .release g' pc => T.outcome { call with pc := pc } g' = T.outcome call g ∧ Call.left { call with pc := pc } < call.left ∧
      (Call.Filling { call with pc := pc } ∨ call.pc = .filesSize ∧ T.filesSize = .ok () ∧ pc = .files ∧ g' = g)
  | .returns r => r = T.outcome call g

section
variable {T}

theorem nextTable_ok {call : Call} {g g' : Globals} {names : List String}
    (hout : T.outcome call g = do return T.collect call.pid (← names.foldlM T.getSockets g'))
    (hleft : 2 * names.length < call.left) : T.SegmentOk call g (T.nextTable call.pid g' names) := by
  cases names with
  | nil => exact hout.symm
  | cons name rest =>
    rw [nextTable]
    cases hmib : T.mib name with
    | error e =>
      show Except.error e = _
      rw [hout, List.foldlM_cons, getSockets, hmib]
      rfl
    | ok u =>
      refine ⟨?_, ?_, Or.inl trivial⟩
      · rw [hout, List.foldlM_cons, getSockets, hmib]
        cases hsize : T.pcbsSize name with
        | error e => simp [outcome, hsize, bind, Except.bind]
        | ok _ => cases hpcbs : T.pcbs name <;> simp [outcome, hsize, hpcbs, bind, Except.bind, pure, Except.pure]
      · rw [List.length_cons] at hleft
        show 2 * rest.length + 2 < call.left
        omega

theorem segment_ok (call : Call) (g : Globals) : T.SegmentOk call g (T.segment call g) := by
  obtain ⟨pid, kind, pc⟩ := call
  cases pc with
  | filesSize =>
    cases hsize : T.filesSize with
    | error e => simp [segment, SegmentOk, outcome, getFiles, hsize, bind, Except.bind]
    | ok u =>
      simp only [segment, hsize]
      refine ⟨?_, by simp [Call.left], Or.inr ⟨rfl, hsize, rfl, rfl⟩⟩
      cases hfiles : T.files <;> simp [outcome, getFiles, hsize, hfiles, bind, Except.bind, pure, Except.pure]
  | files =>
    cases hfiles : T.files with
    | error e => simp [segment, SegmentOk, outcome, hfiles, bind, Except.bind]
    | ok files =>
      cases hnames : pcblists kind with
      | none => simp [segment, SegmentOk, outcome, hfiles, getInfo, hnames, bind, Except.bind]
      | some names =>
        simp only [segment, hfiles, hnames]
        apply nextTable_ok
        · simp [outcome, hfiles, getInfo, hnames, bind, Except.bind]
        · simp [Call.left, hnames]
  | pcbsSize name rest =>
    cases hsize : T.pcbsSize name with
    | error e => simp [segment, SegmentOk, outcome, hsize, bind, Except.bind]
    | ok u =>
      simp only [segment, hsize]
      refine ⟨?_, by simp [Call.left], Or.inl trivial⟩
      simp [outcome, hsize, bind, Except.bind]
  | pcbs name rest =>
    cases hpcbs : T.pcbs name with
    | error e => simp [segment, SegmentOk, outcome, hpcbs, bind, Except.bind]
    | ok pcbs =>
      simp only [segment, hpcbs]
      apply nextTable_ok
      · simp [outcome, hpcbs, bind, Except.bind]
      · simp [Call.left]

/-! ## All threads -/

/-- What a call sees in the lists: what it has inserted itself. -/
def Threads.own (s : Threads) (call : Call) : Globals :=
  match call.pc with
  | .filesSize | .files => .empty
  | .pcbsSize _ _ | .pcbs _ _ => s.globals

theorem own_of_filling {s : Threads} {call : Call} (h : call.Filling) : s.own call = s.globals := by
  obtain ⟨pid, kind, pc⟩ := call
  cases pc with
  | filesSize => exact h.elim
  | files => exact h.elim
  | pcbsSize name rest => rfl
  | pcbs name rest => rfl

theorem own_of_not_filling {s : Threads} {call : Call} (h : ¬call.Filling) : s.own call = .empty := by
  obtain ⟨pid, kind, pc⟩ := call
  cases pc with
  | filesSize => rfl
  | files => rfl
  | pcbsSize name rest => exact absurd trivial h
  | pcbs name rest => exact absurd trivial h

structure Threads.Inv (T : NetBsd) (s : Threads) : Prop where
  outcome : ∀ c call, s.calls c = some call → T.outcome call (s.own call) = T.netConnections call.pid call.kind
  one : ∀ c c' call call', s.calls c = some call → s.calls c' = some call' → call.Filling → call'.Filling → c = c'
  cleared : (∀ c call, s.calls c = some call → ¬call.Filling) → s.globals = .empty

theorem inv_init : Threads.init.Inv T := by
  refine ⟨?_, ?_, ?_⟩
  · intro c call hc
    cases hc
  · intro c c' call call' hc
    cases hc
  · exact fun _ => rfl

/-- No call is filling the lists, except maybe that of `c`. -/
def Threads.OnlyFiller (s : Threads) (c : Nat) : Prop := ∀ c' call, c' ≠ c → s.calls c' = some call → ¬call.Filling

namespace Threads.Inv

variable {s : Threads} {c : Nat} {call : Call}

/-- The thread that may write to the lists takes a step. -/
theorem update (hs : s.Inv T) (honly : s.OnlyFiller c) {g : Globals} {new : Option Call}
    (hnew : ∀ call, new = some call → call.Filling ∧ T.outcome call g = T.netConnections call.pid call.kind ∨
      ¬call.Filling ∧ T.outcome call .empty = T.netConnections call.pid call.kind)
    (hg : (∀ call, new = some call → ¬call.Filling) → g = .empty) :
    Threads.Inv T ⟨g, Function.update s.calls c new⟩ := by
  have hother : ∀ c' call, c' ≠ c → Function.update s.calls c new c' = some call → s.calls c' = some call := by
    intro c' call hne h
    rwa [Function.update_of_ne hne] at h
  have hfiller : ∀ c' call, Function.update s.calls c new c' = some call → call.Filling → c' = c := by
    intro c' call h hf
    by_contra hne
    exact honly c' call hne (hother c' call hne h) hf
  refine ⟨?_, ?_, ?_⟩
  · intro c' call h
    by_cases hcc : c' = c
    · subst hcc
      rcases hnew call ((Function.update_self c' new s.calls).symm.trans h) with ⟨hf, hout⟩ | ⟨hf, hout⟩
      · rwa [own_of_filling hf]
      · rwa [own_of_not_filling hf]
    · have hf := honly c' call hcc (hother c' call hcc h)
      have hout := hs.outcome c' call (hother c' call hcc h)
      rw [own_of_not_filling hf] at hout ⊢
      exact hout
  · intro c₁ c₂ call₁ call₂ h₁ h₂ hf₁ hf₂
    rw [hfiller c₁ call₁ h₁ hf₁, hfiller c₂ call₂ h₂ hf₂]
  · intro hnone
    exact hg fun call hcall => hnone c call ((Function.update_self c new s.calls).trans hcall)

theorem onlyFiller_of_filling (hs : s.Inv T) (hc : s.calls c = some call) (hf : call.Filling) : s.OnlyFiller c := by
  intro c' call' hne hc' hf'
  exact hne (hs.one c' c call' call hc' hc hf' hf)

theorem globals_eq_own (hs : s.Inv T) (hc : s.calls c = some call) (honly : s.OnlyFiller c) : s.globals = s.own call := by
  by_cases hf : call.Filling
  · exact (own_of_filling hf).symm
  · rw [own_of_not_filling hf]
    apply hs.cleared
    intro c' call' hc'
    by_cases hcc : c' = c
    · subst hcc
      obtain rfl : call' = call := Option.some.inj (hc'.symm.trans hc)
      exact hf
    · exact honly c' call' hcc hc'

/-- The first size is there: nothing changes but the place of the call. -/
theorem resume_size (hs : s.Inv T) (hc : s.calls c = some call) (hpc : call.pc = .filesSize) (hsize : T.filesSize = .ok ()) :
    Threads.Inv T ⟨s.globals, Function.update s.calls c (some { call with pc := .files })⟩ := by
  have hcalls : ∀ c' call', Function.update s.calls c (some { call with pc := .files }) c' = some call' →
      c' = c ∧ call' = { call with pc := .files } ∨ s.calls c' = some call' := by
    intro c' call' h
    by_cases hcc : c' = c
    · subst hcc
      rw [Function.update_self] at h
      exact Or.inl ⟨rfl, (Option.some.inj h).symm⟩
    · exact Or.inr (by rwa [Function.update_of_ne hcc] at h)
  refine ⟨?_, ?_, ?_⟩
  · intro c' call' h
    rcases hcalls c' call' h with ⟨rfl, rfl⟩ | hc'
    · rw [← hs.outcome c' call hc]
      simp only [Threads.own, NetBsd.outcome, hpc, getFiles, hsize]
      cases T.files <;> rfl
    · exact hs.outcome c' call' hc'
  · intro c₁ c₂ call₁ call₂ h₁ h₂ hf₁ hf₂
    rcases hcalls c₁ call₁ h₁ with ⟨rfl, rfl⟩ | hc₁
    · exact hf₁.elim
    · rcases hcalls c₂ call₂ h₂ with ⟨rfl, rfl⟩ | hc₂
      · exact hf₂.elim
      · exact hs.one c₁ c₂ call₁ call₂ hc₁ hc₂ hf₁ hf₂
  · intro hnone
    apply hs.cleared
    intro c' call' hc' hf'
    by_cases hcc : c' = c
    · subst hcc
      obtain rfl : call' = call := Option.some.inj (hc'.symm.trans hc)
      simp only [Call.Filling, hpc] at hf'
    · exact hnone c' call' ((Function.update_of_ne hcc _ s.calls).trans hc') hf'

/-- A call that is filling the lists, or is about to write to them, is the only one to fill them. -/
theorem onlyFiller_of_exclusive (hs : s.Inv T) (hc : s.calls c = some call) (hsize : ¬(call.pc = .filesSize ∧ T.filesSize = .ok ()))
    {out : ThreadOut} (hC : T.Exclusive ⟨s, .resume c, out⟩) : s.OnlyFiller c := by
  by_cases hf : call.Filling
  · exact hs.onlyFiller_of_filling hc hf
  · intro c' call' hne hc' hf'
    apply hC c' call' hc' hf' hne.symm
    simp only [Writes, hc]
    obtain ⟨pid, kind, pc⟩ := call
    cases pc with
    | filesSize => exact fun hok => hsize ⟨rfl, hok⟩
    | files => trivial
    | pcbsSize name rest => exact absurd trivial hf
    | pcbs name rest => trivial

/-- The only call that fills the lists takes a segment. -/
theorem resume_filler (hs : s.Inv T) (hc : s.calls c = some call) (hsize : ¬(call.pc = .filesSize ∧ T.filesSize = .ok ()))
    (honly : s.OnlyFiller c) : (s.step T (.resume c)).1.Inv T ∧
      ∀ c' r, (s.step T (.resume c)).2 = some (c', r) → ∃ call, s.calls c' = some call ∧ r = T.netConnections call.pid call.kind := by
  have hout : T.outcome call s.globals = T.netConnections call.pid call.kind := by
    rw [hs.globals_eq_own hc honly]
    exact hs.outcome c call hc
  have hseg := segment_ok (T := T) call s.globals
  cases hsegm : T.segment call s.globals with
  | release g pc =>
    rw [hsegm] at hseg
    obtain ⟨hsame, -, hplace⟩ := hseg
    have hf : Call.Filling { call with pc := pc } := hplace.resolve_right fun h => hsize ⟨h.1, h.2.1⟩
    simp only [Threads.step, hc, hsegm]
    refine ⟨hs.update honly ?_ fun hnone => absurd hf (hnone _ rfl), ?_⟩
    · rintro new ⟨⟩
      exact Or.inl ⟨hf, hsame.trans hout⟩
    · intro c' r h
      cases h
  | returns r =>
    rw [hsegm] at hseg
    simp only [Threads.step, hc, hsegm]
    refine ⟨hs.update honly (fun new hnew => absurd hnew (by simp)) fun _ => rfl, ?_⟩
    rintro c' r' ⟨⟩
    exact ⟨call, hc, hseg.trans hout⟩

/-- **A step that writes to nobody else's lists** ends its call, if at all, as it ends when run alone. -/
theorem step (hs : s.Inv T) {e : ThreadEv} (hC : T.Exclusive ⟨s, e, (s.step T e).2⟩) : (s.step T e).1.Inv T ∧
    ∀ c r, (s.step T e).2 = some (c, r) → ∃ call, s.calls c = some call ∧ r = T.netConnections call.pid call.kind := by
  cases e with
  | begin c pid kind =>
    rw [Threads.step]
    cases hc : s.calls c with
    | some call =>
      refine ⟨hs, ?_⟩
      intro c' r h
      cases h
    | none =>
      have honly : s.OnlyFiller c := fun c' call' hne hc' hf' => hC c' call' hc' hf' hne.symm hc
      refine ⟨hs.update honly ?_ fun _ => rfl, ?_⟩
      · rintro call ⟨⟩
        exact Or.inr ⟨id, rfl⟩
      · intro c' r h
        cases h
  | resume c =>
    cases hc : s.calls c with
    | none =>
      simp only [Threads.step, hc]
      refine ⟨hs, ?_⟩
      intro c' r h
      cases h
    | some call =>
      by_cases hsize : call.pc = .filesSize ∧ T.filesSize = .ok ()
      · have hrel : T.segment call s.globals = .release s.globals .files := by rw [segment, hsize.1, hsize.2]
        simp only [Threads.step, hc, hrel]
        refine ⟨hs.resume_size hc hsize.1 hsize.2, ?_⟩
        intro c' r h
        cases h
      · exact hs.resume_filler hc hsize (hs.onlyFiller_of_exclusive hc hsize hC)

end Threads.Inv

/-! ### A call comes to its end -/

/-- A step leaves the calls of the other threads where they are. -/
theorem Threads.step_frame (s : Threads) {c : Nat} {e : ThreadEv} (he : e.thread ≠ c) : (s.step T e).1.calls c = s.calls c := by
  cases e with
  | begin c' pid kind =>
    rw [Threads.step]
    cases hc' : s.calls c' with
    | some call' => rfl
    | none => exact Function.update_of_ne (Ne.symm he) _ s.calls
  | resume c' =>
    rw [Threads.step]
    cases hc' : s.calls c' with
    | none => rfl
    | some call' =>
      cases hseg : T.segment call' s.globals with
      | release g pc =>
        simp only [hseg]
        exact Function.update_of_ne (Ne.symm he) _ s.calls
      | returns r =>
        simp only [hseg]
        exact Function.update_of_ne (Ne.symm he) _ s.calls

theorem run_frame {c : Nat} : ∀ {es : List ThreadEv} {s : Threads}, (∀ e ∈ es, e.thread ≠ c) →
    (T.machine.run s es).calls c = s.calls c
  | [], _, _ => rfl
  | _ :: _, s, h => (run_frame fun e he => h e (List.mem_cons_of_mem _ he)).trans (s.step_frame (h _ List.mem_cons_self))

theorem Threads.step_resume {s : Threads} {c : Nat} {call : Call} (hc : s.calls c = some call) :
    (∃ r, s.step T (.resume c) = (⟨.empty, Function.update s.calls c none⟩, some (c, r))) ∨
      ∃ g pc, s.step T (.resume c) = (⟨g, Function.update s.calls c (some { call with pc := pc })⟩, none) ∧
        Call.left { call with pc := pc } < call.left := by
  have hok := segment_ok (T := T) call s.globals
  cases hseg : T.segment call s.globals with
  | release g pc =>
    rw [hseg] at hok
    exact Or.inr ⟨g, pc, by simp only [Threads.step, hc, hseg], hok.2.1⟩
  | returns r => exact Or.inl ⟨r, by simp only [Threads.step, hc, hseg]⟩

/-- **Every call returns**, whatever the other threads do, once it was resumed as often as it has `sysctl`s. -/
theorem returns_of_resumed {c : Nat} : ∀ {es : List ThreadEv} {s : Threads} {call : Call}, s.calls c = some call →
    call.left ≤ es.count (.resume c) → ∃ r, some (c, r) ∈ T.machine.outs s es
  | [], s, call, hc, hleft => by
    have hpos : 0 < call.left := by
      unfold Call.left
      split <;> omega
    rw [List.count_nil] at hleft
    omega
  | e :: es, s, call, hc, hleft => by
    rw [Lib.Machine.outs_cons]
    by_cases he : e = .resume c
    · subst he
      rw [List.count_cons_self] at hleft
      rcases Threads.step_resume (T := T) hc with ⟨r, hstep⟩ | ⟨g, pc, hstep, hlt⟩
      · exact ⟨r, List.mem_cons.2 (Or.inl (congrArg Prod.snd hstep).symm)⟩
      · have hnew : (T.machine.step s (.resume c)).1.calls c = some { call with pc := pc } := by
          rw [show T.machine.step s (.resume c) = _ from hstep]
          exact Function.update_self c _ s.calls
        have hle : Call.left { call with pc := pc } ≤ es.count (.resume c) := by omega
        obtain ⟨r, hr⟩ := returns_of_resumed hnew hle
        exact ⟨r, List.mem_cons_of_mem _ hr⟩
    · rw [List.count_cons_of_ne he] at hleft
      have hnew : (T.machine.step s e).1.calls c = some call := by
        by_cases hthread : e.thread = c
        · cases e with
          | resume c' => exact absurd (congrArg ThreadEv.resume hthread) he
          | begin c' pid kind =>
            obtain rfl : c' = c := hthread
            simp only [machine, Threads.step, hc]
        · exact (s.step_frame hthread).trans hc
      obtain ⟨r, hr⟩ := returns_of_resumed hnew hleft
      exact ⟨r, List.mem_cons_of_mem _ hr⟩

/-! ### A call alone -/

/-- Only thread 0 is in a call, in one with these arguments. -/
def Threads.Solo (s : Threads) (pid : Int) (kind : String) : Prop :=
  ∀ c call, s.calls c = some call → c = 0 ∧ call.pid = pid ∧ call.kind = kind

theorem Threads.Solo.step {s : Threads} {pid : Int} {kind : String} (h : s.Solo pid kind) :
    (s.step T (.resume 0)).1.Solo pid kind := by
  cases hc : s.calls 0 with
  | none => simpa only [Threads.step, hc] using h
  | some call =>
    intro c call' hc'
    by_cases h0 : c = 0
    · subst h0
      refine ⟨rfl, ?_⟩
      rcases Threads.step_resume (T := T) hc with ⟨r, hstep⟩ | ⟨g, pc, hstep, -⟩
      · rw [hstep] at hc'
        cases (Function.update_self 0 _ s.calls).symm.trans hc'
      · rw [hstep] at hc'
        cases (Function.update_self 0 _ s.calls).symm.trans hc'
        exact (h 0 call hc).2
    · rcases Threads.step_resume (T := T) hc with ⟨r, hstep⟩ | ⟨g, pc, hstep, -⟩
      · rw [hstep] at hc'
        exact h c call' ((Function.update_of_ne h0 _ s.calls).symm.trans hc')
      · rw [hstep] at hc'
        exact h c call' ((Function.update_of_ne h0 _ s.calls).symm.trans hc')

/-- Nobody else is there to write to the lists. -/
theorem Threads.Solo.exclusive {s : Threads} {pid : Int} {kind : String} (h : s.Solo pid kind) {out : ThreadOut} :
    T.Exclusive ⟨s, .resume 0, out⟩ := by
  intro c call hc _ hne
  exact absurd (h c call hc).1.symm hne

/-- What the only call gives, if anything, is what the function computes. -/
theorem Threads.Solo.outs {s : Threads} {pid : Int} {kind : String} (hs : s.Inv T) (hsolo : s.Solo pid kind) {n : Nat}
    {r : Except Exc (List RawConn)} (hr : some (0, r) ∈ T.machine.outs s (List.replicate n (.resume 0))) :
    r = T.netConnections pid kind := by
  obtain ⟨l, hl, hout⟩ := List.mem_map.1 hr
  have hev : ∀ l ∈ T.machine.trace s (List.replicate n (.resume 0)), l.ev = .resume 0 := by
    intro l hl
    obtain ⟨es₁, es₂, hes, -⟩ := T.machine.mem_trace.1 hl
    exact List.eq_of_mem_replicate (hes ▸ List.mem_append_right es₁ List.mem_cons_self)
  have hkeep : ∀ s e, s.Inv T ∧ s.Solo pid kind → e = .resume 0 →
      (T.machine.step s e).1.Inv T ∧ (T.machine.step s e).1.Solo pid kind := by
    rintro s e ⟨hs, hsolo⟩ rfl
    exact ⟨(hs.step hsolo.exclusive).1, hsolo.step⟩
  obtain ⟨⟨hpre, hpsolo⟩, hstep⟩ := T.machine.lines_of_inv_of hkeep ⟨hs, hsolo⟩ hev hl
  rw [hev l hl] at hstep
  obtain ⟨call, hc, heq⟩ := (hpre.step hpsolo.exclusive).2 0 r (hstep.symm.trans hout)
  obtain ⟨-, rfl, rfl⟩ := hpsolo 0 call hc
  exact heq

/-- **Alone, a call returns** what the function computes. -/
theorem alone_iff {pid : Int} {kind : String} {r : Except Exc (List RawConn)} :
    T.Alone pid kind r ↔ r = T.netConnections pid kind := by
  let s₁ : Threads := ⟨.empty, Function.update (fun _ => none) 0 (some ⟨pid, kind, .filesSize⟩)⟩
  have hinv : s₁.Inv T := (inv_init.update (fun c' call _ h => absurd h (by simp [Threads.init])) (by
    rintro call ⟨⟩
    exact Or.inr ⟨id, rfl⟩) fun _ => rfl)
  have hsolo : s₁.Solo pid kind := by
    intro c call hc
    by_cases h0 : c = 0
    · subst h0
      cases (Function.update_self 0 _ fun _ => none).symm.trans hc
      exact ⟨rfl, rfl, rfl⟩
    · cases (Function.update_of_ne h0 _ fun _ => none).symm.trans hc
  have houts : ∀ n, T.machine.outs .init (.begin 0 pid kind :: List.replicate n (.resume 0)) =
      none :: T.machine.outs s₁ (List.replicate n (.resume 0)) := fun n => rfl
  constructor
  · rintro ⟨n, hr⟩
    rw [houts] at hr
    exact hsolo.outs hinv ((List.mem_cons.1 hr).resolve_left (by simp))
  · rintro rfl
    have hcall : s₁.calls 0 = some ⟨pid, kind, .filesSize⟩ := rfl
    have hcount := List.count_replicate_self (a := ThreadEv.resume 0) (n := Call.left ⟨pid, kind, .filesSize⟩)
    obtain ⟨r, hr⟩ := returns_of_resumed (T := T) hcall hcount.ge
    refine ⟨Call.left ⟨pid, kind, .filesSize⟩, ?_⟩
    rw [houts, ← hsolo.outs hinv hr]
    exact List.mem_cons_of_mem _ hr

/-- **Every call returns what it returns when run alone**, in a run in which nobody writes to the lists that another
call is filling. -/
theorem unmixed_of_exclusive {es : List ThreadEv} (h : ∀ l ∈ T.machine.trace .init es, T.Exclusive l) : T.Unmixed es := by
  intro l hl c r hout
  have hkeep : ∀ s e, s.Inv T → T.Exclusive ⟨s, e, (T.machine.step s e).2⟩ → (T.machine.step s e).1.Inv T :=
    fun s e hs hC => (hs.step hC).1
  obtain ⟨hinv, hstep⟩ := T.machine.lines_of_inv_of hkeep inv_init h hl
  have hline := h l hl
  obtain ⟨pre, ev, out⟩ := l
  obtain rfl : out = (pre.step T ev).2 := hstep
  obtain ⟨call, hc, hr⟩ := (hinv.step hline).2 c r hout
  exact ⟨call, hc, alone_iff.2 hr⟩

end

/-- One process, with a TCP socket that listens on port 80. -/
def listening : NetBsd where
  filesSize := .ok ()
  files := .ok [⟨100, 3, 7⟩]
  mib _ := .ok ()
  pcbsSize _ := .ok ()
  pcbs _ := .ok [⟨100, sockStream, 1, .inet ⟨[0, 0, 0, 0], 80⟩ ⟨[0, 0, 0, 0], 0⟩⟩]
  ntop _ addr := addr

/-- Thread 2 enters a call after thread 1 has inserted the files. -/
def overtaken : List ThreadEv :=
  [.begin 1 (-1) "tcp4", .resume 1, .resume 1, .begin 2 (-1) "tcp4", .resume 1, .resume 1]

/-- The call of thread 1 loses its files, and returns nothing. -/
theorem calls_mix : ¬∀ (T : NetBsd) (es : List ThreadEv), T.Unmixed es := by
  intro h
  let l : ThreadLine := ⟨listening.machine.run .init (overtaken.take 5), .resume 1, some (1, .ok [])⟩
  have hl : l ∈ listening.machine.trace .init overtaken :=
    listening.machine.mem_trace.2 ⟨overtaken.take 5, [], rfl, rfl, rfl⟩
  obtain ⟨call, hc, hr⟩ := h listening overtaken l hl 1 (.ok []) rfl
  obtain rfl : ⟨-1, "tcp4", .pcbs "net.inet.tcp.pcblist" []⟩ = call := Option.some.inj hc
  have hlist := Except.ok.inj (alone_iff.1 hr)
  exact absurd hlist (by decide)

/-- Thread 2 waits for its first size while thread 1 goes through its call. -/
def waiting : List ThreadEv :=
  [.begin 1 (-1) "tcp4", .begin 2 7 "udp", .resume 1, .resume 1, .resume 2, .resume 1, .resume 1]

theorem unmixed_waiting : listening.Unmixed waiting := by
  apply unmixed_of_exclusive
  intro l hl c call hc hf hne
  have hthread : c = 1 ∨ c = 2 := by
    by_contra hno
    obtain ⟨es₁, es₂, hes, hpre, -⟩ := listening.machine.mem_trace.1 hl
    have hevs : ∀ e ∈ waiting, e.thread = 1 ∨ e.thread = 2 := by decide
    have hnone : l.pre.calls c = none := by
      rw [hpre]
      refine run_frame fun e he hec => hno ?_
      rw [← hec]
      exact hevs e (hes ▸ List.mem_append_left _ he)
    rw [hnone] at hc
    cases hc
  simp only [waiting, Lib.Machine.trace, List.mem_cons, List.not_mem_nil, or_false] at hl
  rcases hl with rfl | rfl | rfl | rfl | rfl | rfl | rfl
  · cases hc
  · rcases hthread with rfl | rfl
    · cases hc
      exact hf.elim
    · cases hc
  · obtain rfl : c = 2 := hthread.resolve_left hne.symm
    cases hc
    exact hf.elim
  · obtain rfl : c = 2 := hthread.resolve_left hne.symm
    cases hc
    exact hf.elim
  · intro hw
    exact hw rfl
  · obtain rfl : c = 2 := hthread.resolve_left hne.symm
    cases hc
    exact hf.elim
  · obtain rfl : c = 2 := hthread.resolve_left hne.symm
    cases hc
    exact hf.elim

end NetBsd

end Psutil
