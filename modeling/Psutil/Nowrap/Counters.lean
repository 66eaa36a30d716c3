import Psutil.Nowrap.History

/-!
# `disk_io_counters` and `net_io_counters`

| here | there |
| --- | --- |
| `NetEntry`, `netRawDict` | one line of `/proc/net/dev` and the dictionary built from them (`_pslinux.py:954`) |
| `DiskEntry`, `DiskSnapshot`, `diskRawDict` | what `read_procfs` / `read_sysfs` yield and the loop over it (`_pslinux.py:1114-1139`) |
| `ioCounters` | the common body of the two public functions (`__init__.py:2424`, `:2475`) |
| `ApiCall`, `apiMachine` | runs of the public functions over the one object `_wn` |

Kernel counters are unsigned, hence `Nat`. A named tuple is a tuple, so `sdiskio(*fields)` and
`snetio(*fields)` are the tuples themselves.
-/

namespace Psutil

open Lib Unwrap

/-- The columns of a NIC, named as they are unpacked (`_pslinux.py:967-986`). -/
structure NetEntry where
  name : String
  bytesRecv : Nat
  packetsRecv : Nat
  errin : Nat
  dropin : Nat
  bytesSent : Nat
  packetsSent : Nat
  errout : Nat
  dropout : Nat

/-- The tuple of `_pslinux.py:988-997`, in the order of `snetio`. -/
def NetEntry.fields (e : NetEntry) : List Int :=
  [e.bytesSent, e.bytesRecv, e.packetsSent, e.packetsRecv, e.errin, e.errout, e.dropin, e.dropout]

/-- `retdict` of `_pslinux.net_io_counters`. -/
def netRawDict (entries : List NetEntry) : Dict String (List Int) :=
  Dict.update ∅ (entries.map fun e => (e.name, e.fields))

/-- What both readers yield for a device (`_pslinux.py:1078`, `:1094`); `rbytes` and `wbytes` are in
sectors. -/
structure DiskEntry where
  name : String
  reads : Nat
  writes : Nat
  rbytes : Nat
  wbytes : Nat
  rtime : Nat
  wtime : Nat
  readsMerged : Nat
  writesMerged : Nat
  busyTime : Nat

/-- `DISK_SECTOR_SIZE` (`_pslinux.py:71`). -/
def diskSectorSize : Int := 512

/-- The tuple of `_pslinux.py:1133-1136`, in the order of `sdiskio`. -/
def DiskEntry.fields (e : DiskEntry) : List Int :=
  [e.reads, e.writes, e.rbytes * diskSectorSize, e.wbytes * diskSectorSize, e.rtime, e.wtime, e.readsMerged,
    e.writesMerged, e.busyTime]

/-- `is_storage_device` (`_pslinux.py:165`); `sysBlock` tells which names exist under `/sys/block`. -/
def isStorageDevice (sysBlock : String → Bool) (name : String) : Bool :=
  sysBlock (String.ofList (name.toList.map fun c => if c = '/' then '!' else c))

/-- What the kernel shows to one call: the devices listed and the names under `/sys/block`. -/
structure DiskSnapshot where
  sysBlock : String → Bool
  entries : List DiskEntry

/-- `retdict` of `_pslinux.disk_io_counters`: partitions are skipped when totals are wanted. -/
def diskRawDict (snap : DiskSnapshot) (perdisk : Bool) : Dict String (List Int) :=
  Dict.update ∅ ((snap.entries.filter fun e => perdisk || isStorageDevice snap.sysBlock e.name).map
    fun e => (e.name, e.fields))

/-- `sum(x) for x in zip(*rows)`: `zip` stops at the shortest row. -/
def columnSums : List (List Int) → List Int
  | [] => []
  | [r] => r
  | r :: rs => List.zipWith (· + ·) r (columnSums rs)

/-- What the public functions return: `None`, one named tuple, or one for each device. -/
inductive Counters where
  | none
  | total (fields : List Int)
  | perKey (d : Dict String (List Int))

/-- The common body of `disk_io_counters` and `net_io_counters`, after the platform call. -/
def ioCounters (name : String) (rawdict : Dict String (List Int)) (perKey nowrap : Bool) (wn : WrapNumbers String) :
    Except Exc (Counters × WrapNumbers String) := do
  if rawdict.isEmpty then
    return (if perKey then .perKey ∅ else .none, wn)
  let (rawdict, wn) ← if nowrap then wn.run rawdict name else pure (rawdict, wn)
  if perKey then
    return (.perKey rawdict, wn)
  else
    return (.total (columnSums (rawdict.items.map Prod.snd)), wn)

def netName : String := "psutil.net_io_counters"

def diskName : String := "psutil.disk_io_counters"

/-- `net_io_counters(pernic, nowrap)` (`__init__.py:2449`). -/
def netIoCounters (entries : List NetEntry) (pernic nowrap : Bool) (wn : WrapNumbers String) :
    Except Exc (Counters × WrapNumbers String) :=
  ioCounters netName (netRawDict entries) pernic nowrap wn

/-- `disk_io_counters(perdisk, nowrap)` on Linux (`__init__.py:2394`). -/
def diskIoCounters (snap : DiskSnapshot) (perdisk nowrap : Bool) (wn : WrapNumbers String) :
    Except Exc (Counters × WrapNumbers String) :=
  ioCounters diskName (diskRawDict snap perdisk) perdisk nowrap wn

/-- A call of the public API, with what the kernel shows at that moment. -/
inductive ApiCall where
  | net (entries : List NetEntry) (pernic nowrap : Bool)
  | disk (snap : DiskSnapshot) (perdisk nowrap : Bool)
  | netCacheClear
  | diskCacheClear

/-- The state after a call and its answer; a call that raises leaves `_wn` alone. -/
def answer (wn : WrapNumbers String) : Except Exc (Counters × WrapNumbers String) →
    WrapNumbers String × Except Exc Counters
  | .ok (r, wn') => (wn', .ok r)
  | .error e => (wn, .error e)

def apiMachine : Machine (WrapNumbers String) ApiCall (Except Exc Counters) where
  step wn
    | .net entries pernic nowrap => answer wn (netIoCounters entries pernic nowrap wn)
    | .disk snap perdisk nowrap => answer wn (diskIoCounters snap perdisk nowrap wn)
    | .netCacheClear => (wn.cacheClear (some netName), .ok .none)
    | .diskCacheClear => (wn.cacheClear (some diskName), .ok .none)

/-- The answer to a call made after the calls `calls`. -/
def answerAfter (calls : List ApiCall) (c : ApiCall) : Except Exc Counters :=
  (apiMachine.step (apiMachine.run .init calls) c).2

/-! ## What reaches `_wn` -/

/-- An empty dictionary never reaches `wrap_numbers`: the public functions return before it. -/
def ioOp (name : String) (rawdict : Dict String (List Int)) (nowrap : Bool) : Option (WrapOp String) :=
  if rawdict.isEmpty || !nowrap then none else some (.run rawdict name)

def ApiCall.op : ApiCall → Option (WrapOp String)
  | .net entries _ nowrap => ioOp netName (netRawDict entries) nowrap
  | .disk snap perdisk nowrap => ioOp diskName (diskRawDict snap perdisk) nowrap
  | .netCacheClear => some (.cacheClear (some netName))
  | .diskCacheClear => some (.cacheClear (some diskName))

theorem ioCounters_empty {name : String} {rawdict : Dict String (List Int)} (h : rawdict.isEmpty = true)
    (perKey nowrap : Bool) (wn : WrapNumbers String) :
    ioCounters name rawdict perKey nowrap wn = .ok (if perKey then .perKey ∅ else .none, wn) := by
  simp [ioCounters, h, pure, Except.pure]

/-- A non-empty dictionary goes through `run`, and the rest of the body only arranges the result. -/
theorem ioCounters_nowrap {name : String} {rawdict : Dict String (List Int)} (h : rawdict.isEmpty = false)
    (perKey : Bool) (wn : WrapNumbers String) :
    ioCounters name rawdict perKey true wn = (wn.run rawdict name).map fun p =>
      (if perKey then .perKey p.1 else .total (columnSums (p.1.items.map Prod.snd)), p.2) := by
  simp only [ioCounters, h, Bool.false_eq_true, if_false, if_true, bind, Except.bind, pure, Except.pure]
  cases wn.run rawdict name <;> cases perKey <;> rfl

theorem ioCounters_raw {name : String} {rawdict : Dict String (List Int)} (h : rawdict.isEmpty = false)
    (perKey : Bool) (wn : WrapNumbers String) :
    ioCounters name rawdict perKey false wn =
      .ok (if perKey then .perKey rawdict else .total (columnSums (rawdict.items.map Prod.snd)), wn) := by
  simp only [ioCounters, h, Bool.false_eq_true, if_false, bind, Except.bind, pure, Except.pure]
  cases perKey <;> rfl

theorem answer_ioCounters (name : String) (rawdict : Dict String (List Int)) (perKey nowrap : Bool)
    (wn : WrapNumbers String) :
    (answer wn (ioCounters name rawdict perKey nowrap wn)).1 = match ioOp name rawdict nowrap with
      | some op => (wrapMachine.step wn op).1
      | none => wn := by
  cases he : rawdict.isEmpty with
  | true => simp [ioCounters_empty he, ioOp, he, answer]
  | false =>
    cases nowrap with
    | false => simp [ioCounters_raw he, ioOp, he, answer]
    | true =>
      rw [ioCounters_nowrap he]
      simp only [ioOp, he, Bool.not_true, Bool.or_false, Bool.false_eq_true, if_false, wrapMachine]
      cases wn.run rawdict name <;> rfl

/-- A call of the API changes `_wn` as the call it passes on, if any. -/
theorem apiMachine_step (wn : WrapNumbers String) (c : ApiCall) :
    (apiMachine.step wn c).1 = match c.op with
      | some op => (wrapMachine.step wn op).1
      | none => wn := by
  cases c with
  | net entries pernic nowrap => exact answer_ioCounters _ _ _ _ _
  | disk snap perdisk nowrap => exact answer_ioCounters _ _ _ _ _
  | netCacheClear => rfl
  | diskCacheClear => rfl

/-- **The API refines `_wn`**: a run of the API leaves the object where the calls passed on leave it. -/
theorem apiMachine_run (calls : List ApiCall) (wn : WrapNumbers String) :
    apiMachine.run wn calls = wrapMachine.run wn (calls.filterMap ApiCall.op) := by
  induction calls generalizing wn with
  | nil => rfl
  | cons c calls ih =>
    have hstep := apiMachine_step wn c
    cases hop : c.op with
    | none =>
      rw [hop] at hstep
      rw [List.filterMap_cons_none hop, ← ih]
      exact congrArg (apiMachine.run · calls) hstep
    | some op =>
      rw [hop] at hstep
      rw [List.filterMap_cons_some hop]
      exact (congrArg (apiMachine.run · calls) hstep).trans (ih _)

/-! ## Shape of the dictionaries -/

/-- The number of fields of `snetio` and of `sdiskio` on Linux. -/
def fieldCount (name : String) : Nat := if name = netName then 8 else 9

theorem netRawDict_entry {entries : List NetEntry} {k : String} {u : List Int}
    (h : (netRawDict entries).get? k = some u) : ∃ e ∈ entries, e.name = k ∧ e.fields = u := by
  rcases Dict.mem_or_of_get?_update h with hm | h0
  · obtain ⟨e, he, hp⟩ := List.mem_map.1 hm
    exact ⟨e, he, congrArg Prod.fst hp, congrArg Prod.snd hp⟩
  · cases h0

theorem diskRawDict_entry {snap : DiskSnapshot} {perdisk : Bool} {k : String} {u : List Int}
    (h : (diskRawDict snap perdisk).get? k = some u) : ∃ e ∈ snap.entries, e.name = k ∧ e.fields = u := by
  rcases Dict.mem_or_of_get?_update h with hm | h0
  · obtain ⟨e, he, hp⟩ := List.mem_map.1 hm
    exact ⟨e, List.mem_of_mem_filter he, congrArg Prod.fst hp, congrArg Prod.snd hp⟩
  · cases h0

/-- A device is in the dictionary when it is listed and, for totals, is a root device. -/
theorem mem_diskRawDict {snap : DiskSnapshot} {perdisk : Bool} {k : String} :
    k ∈ diskRawDict snap perdisk ↔
      k ∈ snap.entries.map DiskEntry.name ∧ (perdisk || isStorageDevice snap.sysBlock k) = true := by
  rw [diskRawDict, Dict.mem_update, List.map_map]
  simp only [Function.comp_def, List.mem_map, List.mem_filter, Dict.not_mem_empty, or_false]
  constructor
  · rintro ⟨e, ⟨he, hs⟩, rfl⟩
    exact ⟨⟨e, he, rfl⟩, hs⟩
  · rintro ⟨⟨e, he, rfl⟩, hs⟩
    exact ⟨e, ⟨he, hs⟩, rfl⟩

theorem fits_netRawDict (entries : List NetEntry) {k : String} {u : List Int}
    (h : (netRawDict entries).get? k = some u) : u.length = 8 := by
  obtain ⟨e, -, -, rfl⟩ := netRawDict_entry h
  rfl

theorem fits_diskRawDict (snap : DiskSnapshot) (perdisk : Bool) {k : String} {u : List Int}
    (h : (diskRawDict snap perdisk).get? k = some u) : u.length = 9 := by
  obtain ⟨e, -, -, rfl⟩ := diskRawDict_entry h
  rfl

/-- The tuples passed on have the length fixed for their function. -/
theorem ApiCall.op_fits {c : ApiCall} {op : WrapOp String} (h : c.op = some op) :
    op.Fits fun name _ => fieldCount name := by
  cases c with
  | net entries pernic nowrap =>
    simp only [ApiCall.op, ioOp, Option.ite_none_left_eq_some, Option.some.injEq] at h
    obtain ⟨-, rfl⟩ := h
    exact fun p hp => fits_netRawDict entries (Dict.mem_items.1 hp)
  | disk snap perdisk nowrap =>
    simp only [ApiCall.op, ioOp, Option.ite_none_left_eq_some, Option.some.injEq] at h
    obtain ⟨-, rfl⟩ := h
    exact fun p hp => fits_diskRawDict snap perdisk (Dict.mem_items.1 hp)
  | netCacheClear => cases h; trivial
  | diskCacheClear => cases h; trivial

theorem netRawDict_nonneg {entries : List NetEntry} {k : String} {u : List Int}
    (h : (netRawDict entries).get? k = some u) : ∀ x ∈ u, 0 ≤ x := by
  obtain ⟨e, -, -, rfl⟩ := netRawDict_entry h
  simp [NetEntry.fields]

theorem diskRawDict_nonneg {snap : DiskSnapshot} {perdisk : Bool} {k : String} {u : List Int}
    (h : (diskRawDict snap perdisk).get? k = some u) : ∀ x ∈ u, 0 ≤ x := by
  obtain ⟨e, -, -, rfl⟩ := diskRawDict_entry h
  intro x hx
  simp only [DiskEntry.fields, diskSectorSize, List.mem_cons, List.not_mem_nil, or_false] at hx
  omega

/-- The dictionaries of the function `name` that the calls passed on. -/
def passedOn (name : String) (calls : List ApiCall) : List (Dict String (List Int)) :=
  inputsOf name (calls.filterMap ApiCall.op)

theorem nonNeg_passedOn (name : String) (calls : List ApiCall) : NonNeg (passedOn name calls) := by
  intro d hd p hp
  obtain ⟨op, hop, hd⟩ := List.mem_filterMap.1 hd
  obtain ⟨c, -, hc⟩ := List.mem_filterMap.1 hop
  cases c with
  | net entries pernic nowrap =>
    simp only [ApiCall.op, ioOp, Option.ite_none_left_eq_some, Option.some.injEq] at hc
    obtain ⟨-, rfl⟩ := hc
    obtain rfl : netRawDict entries = d := (Option.ite_none_right_eq_some.1 hd).2 |> Option.some.inj
    exact netRawDict_nonneg (Dict.mem_items.1 hp)
  | disk snap perdisk nowrap =>
    simp only [ApiCall.op, ioOp, Option.ite_none_left_eq_some, Option.some.injEq] at hc
    obtain ⟨-, rfl⟩ := hc
    obtain rfl : diskRawDict snap perdisk = d := (Option.ite_none_right_eq_some.1 hd).2 |> Option.some.inj
    exact diskRawDict_nonneg (Dict.mem_items.1 hp)
  | netCacheClear => cases hc; cases hd
  | diskCacheClear => cases hc; cases hd

/-- No call of the list clears what is kept under `name`. -/
def NoClear (name : String) (calls : List ApiCall) : Prop := ∀ c ∈ calls, ∀ op, c.op = some op → op.Keeps name

/-- **The answer to any call** that passes its dictionary on: the dictionary, unwrapped over all those
passed on before it. -/
theorem run_after {name : String} {calls : List ApiCall} (h : NoClear name calls) {rawdict : Dict String (List Int)}
    (hlen : ∀ k u, rawdict.get? k = some u → u.length = fieldCount name) :
    ∃ out wn', (apiMachine.run .init calls).run rawdict name = .ok (out, wn') ∧
      ∀ key, out.get? key = (rawdict.get? key).map (unwrapTuple (passedOn name calls ++ [rawdict]) key) := by
  have hops : ∀ op ∈ calls.filterMap ApiCall.op, op.Keeps name ∧ op.Fits fun name _ => fieldCount name := by
    intro op hop
    obtain ⟨c, hc, hop⟩ := List.mem_filterMap.1 hop
    exact ⟨h c hc op hop, ApiCall.op_fits hop⟩
  have hknows := history (fun op hop => (hops op hop).1) (fun op hop => (hops op hop).2)
  obtain ⟨out, wn', hrun, -, hout⟩ := hknows.run hlen
  exact ⟨out, wn', by rw [apiMachine_run]; exact hrun, hout⟩

/-- The answer to a per-device call for a non-empty dictionary. -/
theorem answer_perKey {name : String} {calls : List ApiCall} (h : NoClear name calls)
    {rawdict : Dict String (List Int)} (hlen : ∀ k u, rawdict.get? k = some u → u.length = fieldCount name)
    (hne : rawdict.isEmpty = false) :
    ∃ out, (answer (apiMachine.run .init calls)
        (ioCounters name rawdict true true (apiMachine.run .init calls))).2 = .ok (.perKey out) ∧
      ∀ key, out.get? key = (rawdict.get? key).map (unwrapTuple (passedOn name calls ++ [rawdict]) key) := by
  obtain ⟨out, wn', hrun, hout⟩ := run_after h hlen
  refine ⟨out, ?_, hout⟩
  rw [ioCounters_nowrap hne, hrun]
  rfl

end Psutil
