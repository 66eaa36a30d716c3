import Psutil.Nowrap.Counters

/-!
# What is reported for one device

Two properties the documentation of `nowrap` promises, and the exact conditions under which the
public functions keep them. A device that was away restarts from its raw value, unless the snapshot
without it was empty: the early return of the public functions (`__init__.py:2426`, `:2476`) keeps
that one from `_wn`. And the values of a device never decrease, unless a `perdisk=False` call, which
shares the name of the function but leaves the partitions out, comes in between.
-/

namespace Psutil

open Lib Unwrap

/-- The tuple an answer reports for a device. -/
def reported : Except Exc Counters → String → Option (List Int)
  | .ok (.perKey d), dev => d.get? dev
  | _, _ => none

def perNic (entries : List NetEntry) : ApiCall := .net entries true true

def perDisk (snap : DiskSnapshot) : ApiCall := .disk snap true true

theorem reported_perKey {name : String} {calls : List ApiCall} (h : NoClear name calls)
    {rawdict : Dict String (List Int)} (hlen : ∀ k u, rawdict.get? k = some u → u.length = fieldCount name)
    {dev : String} {u : List Int} (hu : rawdict.get? dev = some u) :
    reported (answer (apiMachine.run .init calls)
      (ioCounters name rawdict true true (apiMachine.run .init calls))).2 dev =
      some (unwrapTuple (passedOn name calls ++ [rawdict]) dev u) := by
  obtain ⟨out, hout, hget⟩ := answer_perKey h hlen (Dict.isEmpty_eq_false (Dict.mem_of_get? hu))
  rw [hout, reported, hget, hu]
  rfl

theorem unwrapTuple_concat {ins : List (Dict String (List Int))} {rawdict : Dict String (List Int)} {dev : String}
    {u : List Int} (hu : rawdict.get? dev = some u) : unwrapTuple (ins ++ [rawdict]) dev u =
      u.mapIdx fun i x => x + drops (stretch (ins.map (readingOf · dev i)) ++ [u.getD i 0]) := by
  simp [unwrapTuple, readingOf, hu]

theorem getD_unwrapTuple {ins : List (Dict String (List Int))} {rawdict : Dict String (List Int)} {dev : String}
    {u : List Int} (hu : rawdict.get? dev = some u) {i : Nat} (hi : i < u.length) :
    (unwrapTuple (ins ++ [rawdict]) dev u).getD i 0 =
      u.getD i 0 + drops (stretch (ins.map (readingOf · dev i)) ++ [u.getD i 0]) := by
  rw [unwrapTuple_concat hu]
  simp [hi]

/-! ## A device that comes back -/

/-- Over these snapshots, since `dev` last appeared, and up to its tuple `u`, no field went down. -/
def NeverFell (snaps : List (Dict String (List Int))) (dev : String) (u : List Int) : Prop :=
  ∀ i < u.length, (stretch (snaps.map (readingOf · dev i)) ++ [u.getD i 0]).IsChain (· ≤ ·)

/-- The snapshots that list anything. -/
def nonEmpty (snaps : List (Dict String (List Int))) : List (Dict String (List Int)) :=
  snaps.filter fun d => !d.isEmpty

theorem mapIdx_eq_self_iff {u : List Int} {f : Nat → Int → Int} :
    u.mapIdx f = u ↔ ∀ i < u.length, f i (u.getD i 0) = u.getD i 0 := by
  refine ⟨?_, fun h => List.ext_getElem (by simp) ?_⟩
  · intro h i hi
    have hg := congrArg (·[i]?) h
    simpa [hi] using hg
  · intro i hi _
    have hi : i < u.length := by simpa using hi
    simpa [hi] using h i hi

theorem getD_nonneg {u : List Int} (hpos : ∀ x ∈ u, 0 ≤ x) (i : Nat) : 0 ≤ u.getD i 0 := by
  rw [List.getD_eq_getElem?_getD]
  cases hx : u[i]? with
  | none => simp
  | some x => exact hpos x (List.mem_of_getElem? hx)

theorem stretch_nonneg {ins : List (Dict String (List Int))} (hnn : NonNeg ins) (dev : String) (i : Nat)
    {y : Int} (hy : 0 ≤ y) : ∀ x ∈ stretch (ins.map (readingOf · dev i)) ++ [y], 0 ≤ x := by
  intro x hx
  rcases List.mem_append.1 hx with hx | hx
  · obtain ⟨d, hd, hread⟩ := List.mem_map.1 (mem_of_mem_stretch hx)
    obtain ⟨t, ht, rfl⟩ := Option.map_eq_some_iff.1 hread
    exact getD_nonneg (hnn d hd (dev, t) (Dict.mem_items.2 ht)) i
  · exact List.mem_singleton.1 hx ▸ hy

/-- The tuple comes out raw exactly when nothing was carried over. -/
theorem unwrapTuple_eq_self_iff {ins : List (Dict String (List Int))} (hnn : NonNeg ins)
    {rawdict : Dict String (List Int)} {dev : String} {u : List Int} (hu : rawdict.get? dev = some u)
    (hpos : ∀ x ∈ u, 0 ≤ x) : unwrapTuple (ins ++ [rawdict]) dev u = u ↔ NeverFell ins dev u := by
  rw [unwrapTuple_concat hu, mapIdx_eq_self_iff]
  apply forall₂_congr
  intro i hi
  rw [add_eq_left]
  exact drops_eq_zero_iff (stretch_nonneg hnn dev i (getD_nonneg hpos i))

/-- A non-empty snapshot without the device makes `_wn` forget it. -/
theorem neverFell_of_gone {snaps : List (Dict String (List Int))} {d : Dict String (List Int)} {dev : String}
    (hgone : dev ∉ d) (u : List Int) : NeverFell (snaps ++ [d]) dev u := by
  intro i hi
  have hnone : readingOf d dev i = none := by simp [readingOf, Dict.get?_eq_none.2 hgone]
  simp [hnone]

theorem nonEmpty_append (snaps snaps' : List (Dict String (List Int))) :
    nonEmpty (snaps ++ snaps') = nonEmpty snaps ++ nonEmpty snaps' := by
  simp [nonEmpty]

theorem nonEmpty_cons {d : Dict String (List Int)} (h : d.isEmpty = false) (snaps : List (Dict String (List Int))) :
    nonEmpty (d :: snaps) = d :: nonEmpty snaps := by
  simp [nonEmpty, h]

/-- What a list of calls passes on: the dictionaries that are not empty. -/
theorem passedOn_map {α : Type} {name : String} {call : α → ApiCall} {rawdict : α → Dict String (List Int)}
    (hop : ∀ a, (call a).op = ioOp name (rawdict a) true) (snaps : List α) :
    passedOn name (snaps.map call) = nonEmpty (snaps.map rawdict) := by
  induction snaps with
  | nil => rfl
  | cons a snaps ih =>
    cases he : (rawdict a).isEmpty <;> simpa [passedOn, inputsOf, nonEmpty, hop, ioOp, he] using ih

theorem noClear_map {α : Type} {call : α → ApiCall} (hop : ∀ a, ∃ name rawdict, (call a).op = ioOp name rawdict true)
    (name : String) (as : List α) : NoClear name (as.map call) := by
  intro c hc op hc'
  obtain ⟨a, -, rfl⟩ := List.mem_map.1 hc
  obtain ⟨name', rawdict, ha⟩ := hop a
  rw [ha, ioOp, Option.ite_none_left_eq_some, Option.some.injEq] at hc'
  obtain ⟨-, rfl⟩ := hc'
  trivial

/-- After a snapshot `gone` without the device, the tuple comes out raw exactly under this condition. -/
theorem raw_iff {α : Type} {name : String} (call : α → ApiCall) (rawdict : α → Dict String (List Int))
    (hop : ∀ a, (call a).op = ioOp name (rawdict a) true)
    (hstep : ∀ a wn, apiMachine.step wn (call a) = answer wn (ioCounters name (rawdict a) true true wn))
    (hlen : ∀ a k u, (rawdict a).get? k = some u → u.length = fieldCount name)
    (hpos : ∀ a k u, (rawdict a).get? k = some u → ∀ x ∈ u, 0 ≤ x)
    (snaps : List α) {gone back : α} {dev : String} {u : List Int} (hgone : dev ∉ rawdict gone)
    (hu : (rawdict back).get? dev = some u) :
    reported (answerAfter ((snaps ++ [gone]).map call) (call back)) dev = some u ↔
      (rawdict gone).isEmpty = false ∨ NeverFell (nonEmpty ((snaps ++ [gone]).map rawdict)) dev u := by
  have hclear := noClear_map (fun a => ⟨name, rawdict a, hop a⟩) name (snaps ++ [gone])
  have hon := passedOn_map hop (snaps ++ [gone])
  rw [answerAfter, hstep, reported_perKey hclear (hlen back) hu, Option.some_inj,
    unwrapTuple_eq_self_iff (nonNeg_passedOn name _) hu (hpos back dev u hu), hon]
  refine ⟨Or.inr, ?_⟩
  rintro (hne | hnf)
  · rw [List.map_append, List.map_singleton, nonEmpty_append, nonEmpty_cons hne]
    exact neverFell_of_gone hgone u
  · exact hnf

/-- **A device that goes away restarts from its raw value, exactly when** the snapshot without it
lists something, or none of its fields ever fell over the snapshots that do. -/
theorem io_counters_restart_iff (nics : List (List NetEntry)) (disks : List DiskSnapshot) :
    (∀ (gone back : List NetEntry) (nic : String) (u : List Int),
      nic ∉ netRawDict gone → (netRawDict back).get? nic = some u →
      (reported (answerAfter ((nics ++ [gone]).map perNic) (perNic back)) nic = some u ↔
        (netRawDict gone).isEmpty = false ∨ NeverFell (nonEmpty ((nics ++ [gone]).map netRawDict)) nic u)) ∧
    ∀ (gone back : DiskSnapshot) (disk : String) (u : List Int),
      disk ∉ diskRawDict gone true → (diskRawDict back true).get? disk = some u →
      (reported (answerAfter ((disks ++ [gone]).map perDisk) (perDisk back)) disk = some u ↔
        (diskRawDict gone true).isEmpty = false ∨
          NeverFell (nonEmpty ((disks ++ [gone]).map (diskRawDict · true))) disk u) := by
  constructor
  · intro gone back nic u hgone hu
    exact raw_iff perNic netRawDict (fun _ => rfl) (fun _ _ => rfl) (fun e _ _ => fits_netRawDict e)
      (fun _ _ _ => netRawDict_nonneg) nics hgone hu
  · intro gone back disk u hgone hu
    exact raw_iff perDisk (diskRawDict · true) (fun _ => rfl) (fun _ _ => rfl) (fun snap _ _ => fits_diskRawDict snap true)
      (fun _ _ _ => diskRawDict_nonneg) disks hgone hu

/-- A NIC that has sent so many bytes. -/
def nicSent (name : String) (bytesSent : Nat) : NetEntry := ⟨name, 0, 0, 0, 0, bytesSent, 0, 0, 0⟩

/-- A disk with so many reads. -/
def diskReads (name : String) (reads : Nat) : DiskEntry := ⟨name, reads, 0, 0, 0, 0, 0, 0, 0, 0⟩

/-- `eth0` wraps, the next snapshot is empty, and the old total is still added afterwards. -/
theorem net_io_counters_empty_snapshot : ¬∀ (snaps : List (List NetEntry)) (gone back : List NetEntry)
    (nic : String) (u : List Int), nic ∉ netRawDict gone → (netRawDict back).get? nic = some u →
    reported (answerAfter ((snaps ++ [gone]).map perNic) (perNic back)) nic = some u := fun h =>
  absurd (h [[nicSent "eth0" 100], [nicSent "eth0" 10]] [] [nicSent "eth0" 10] "eth0" [10, 0, 0, 0, 0, 0, 0, 0]
    (by decide) (by decide)) (by decide +kernel)

/-- With another device in the snapshot in between, both functions forget the wrap. -/
theorem io_counters_restart_partial :
    reported (answerAfter [perNic [nicSent "eth0" 100], perNic [nicSent "eth0" 10], perNic [nicSent "lo" 1]]
      (perNic [nicSent "eth0" 10])) "eth0" = some [10, 0, 0, 0, 0, 0, 0, 0] ∧
    reported (answerAfter [perDisk ⟨fun _ => true, [diskReads "sda" 100]⟩, perDisk ⟨fun _ => true, [diskReads "sda" 10]⟩,
      perDisk ⟨fun _ => true, [diskReads "sdb" 1]⟩] (perDisk ⟨fun _ => true, [diskReads "sda" 10]⟩)) "sda" =
      some [10, 0, 0, 0, 0, 0, 0, 0, 0] :=
  ⟨((io_counters_restart_iff [[nicSent "eth0" 100], [nicSent "eth0" 10]] []).1 [nicSent "lo" 1] [nicSent "eth0" 10] "eth0"
      [10, 0, 0, 0, 0, 0, 0, 0] (by decide) (by decide)).2 (Or.inl (by decide)),
    ((io_counters_restart_iff [] [⟨fun _ => true, [diskReads "sda" 100]⟩, ⟨fun _ => true, [diskReads "sda" 10]⟩]).2
      ⟨fun _ => true, [diskReads "sdb" 1]⟩ ⟨fun _ => true, [diskReads "sda" 10]⟩ "sda" [10, 0, 0, 0, 0, 0, 0, 0, 0]
      (by decide) (by decide)).2 (Or.inl (by decide))⟩

/-! ## A device that stays -/

/-- A call `disk_io_counters(perdisk, nowrap=True)`. -/
structure DiskCall where
  perdisk : Bool
  snap : DiskSnapshot

def DiskCall.call (c : DiskCall) : ApiCall := .disk c.snap c.perdisk true

/-- A call without its counters: the mode, the names listed and which of them are root devices. -/
structure DiskShape where
  perdisk : Bool
  sysBlock : String → Bool
  names : List String

def DiskCall.shape (c : DiskCall) : DiskShape := ⟨c.perdisk, c.snap.sysBlock, c.snap.entries.map DiskEntry.name⟩

/-- The dictionary of such a call holds `dev`, or it is empty and never reaches `_wn`. -/
def DiskShape.Keeps (dev : String) (s : DiskShape) : Prop :=
  s.perdisk = true ∨ isStorageDevice s.sysBlock dev = true ∨ ∀ n ∈ s.names, isStorageDevice s.sysBlock n = false

/-- The tuples of `dev` never go down from one `perdisk=True` call to a later one. -/
def NonDecreasing (dev : String) (calls : List DiskCall) : Prop :=
  ∀ pre a mid b post, calls = pre ++ a :: (mid ++ b :: post) → a.perdisk = true → b.perdisk = true →
    ∃ ta tb, reported (answerAfter (pre.map DiskCall.call) a.call) dev = some ta ∧
      reported (answerAfter ((pre ++ a :: mid).map DiskCall.call) b.call) dev = some tb ∧ List.Forall₂ (· ≤ ·) ta tb

/-- No `perdisk=False` call between two `perdisk=True` calls drops `dev`. -/
def KeptBetween (dev : String) (shapes : List DiskShape) : Prop :=
  ∀ pre a mid b post, shapes = pre ++ a :: (mid ++ b :: post) → a.perdisk = true → b.perdisk = true →
    ∀ s ∈ mid, s.Keeps dev

/-- The raw dictionary of a call. -/
def DiskCall.rawdict (c : DiskCall) : Dict String (List Int) := diskRawDict c.snap c.perdisk

theorem passedOn_diskCalls (calls : List DiskCall) :
    passedOn diskName (calls.map DiskCall.call) = nonEmpty (calls.map DiskCall.rawdict) :=
  passedOn_map (fun _ => rfl) calls

theorem mem_nonEmpty_rawdicts {calls : List DiskCall} {d : Dict String (List Int)}
    (h : d ∈ nonEmpty (calls.map DiskCall.rawdict)) : ∃ c ∈ calls, d = c.rawdict ∧ d.isEmpty = false := by
  obtain ⟨hd, he⟩ := List.mem_filter.1 h
  obtain ⟨c, hc, rfl⟩ := List.mem_map.1 hd
  exact ⟨c, hc, rfl, by simpa using he⟩

/-- What a `perdisk=True` call reports for a listed device. -/
theorem reported_diskCall (calls : List DiskCall) {c : DiskCall} (hc : c.perdisk = true) {dev : String}
    (hdev : dev ∈ c.shape.names) :
    ∃ u, c.rawdict.get? dev = some u ∧ u.length = 9 ∧ (∀ x ∈ u, 0 ≤ x) ∧
      reported (answerAfter (calls.map DiskCall.call) c.call) dev =
        some (unwrapTuple (nonEmpty (calls.map DiskCall.rawdict) ++ [c.rawdict]) dev u) := by
  have hraw : c.rawdict = diskRawDict c.snap true := by rw [DiskCall.rawdict, hc]
  have hcall : c.call = .disk c.snap true true := by rw [DiskCall.call, hc]
  obtain ⟨u, hu⟩ := Dict.mem_iff_get?.1 (mem_diskRawDict.2 ⟨hdev, rfl⟩ : dev ∈ diskRawDict c.snap true)
  rw [hraw, hcall, ← passedOn_diskCalls]
  exact ⟨u, hu, fits_diskRawDict _ _ hu, diskRawDict_nonneg hu,
    reported_perKey (noClear_map (fun c => ⟨diskName, c.rawdict, rfl⟩) _ calls) (fun _ _ => fits_diskRawDict c.snap true) hu⟩

theorem keeps_iff {c : DiskCall} {dev : String} (hdev : dev ∈ c.shape.names) :
    c.shape.Keeps dev ↔ dev ∈ c.rawdict ∨ c.rawdict.isEmpty = true := by
  have hdev : dev ∈ c.snap.entries.map DiskEntry.name := hdev
  rw [Dict.isEmpty_iff]
  simp only [DiskShape.Keeps, DiskCall.shape, DiskCall.rawdict, mem_diskRawDict, hdev, true_and]
  cases c.perdisk <;> simp

/-- Calls that keep the device read a value for it every time. -/
theorem readings_of_keeps {dev : String} (i : Nat) : ∀ {calls : List DiskCall}, (∀ c ∈ calls, dev ∈ c.shape.names) →
    (∀ c ∈ calls, c.shape.Keeps dev) → ∃ xs : List Int,
      (nonEmpty (calls.map DiskCall.rawdict)).map (readingOf · dev i) = xs.map some ∧ ∀ x ∈ xs, 0 ≤ x
  | [], _, _ => ⟨[], rfl, by simp⟩
  | c :: calls, hdev, hkeep => by
    obtain ⟨xs, hxs, hxs0⟩ := readings_of_keeps i (fun c' hc => hdev c' (List.mem_cons_of_mem _ hc))
      fun c' hc => hkeep c' (List.mem_cons_of_mem _ hc)
    rcases (keeps_iff (hdev c List.mem_cons_self)).1 (hkeep c List.mem_cons_self) with hmem | hempty
    · obtain ⟨u, hu⟩ := Dict.mem_iff_get?.1 hmem
      refine ⟨u.getD i 0 :: xs, ?_, List.forall_mem_cons.2 ⟨?_, hxs0⟩⟩
      · rw [List.map_cons, nonEmpty_cons (Dict.isEmpty_eq_false hmem), List.map_cons, hxs]
        simp [readingOf, hu]
      · exact getD_nonneg (diskRawDict_nonneg hu) i
    · exact ⟨xs, by simpa [nonEmpty, hempty] using hxs, hxs0⟩

theorem forall₂_of_getD {us vs : List Int} (hlen : us.length = vs.length)
    (h : ∀ i < us.length, us.getD i 0 ≤ vs.getD i 0) : List.Forall₂ (· ≤ ·) us vs := by
  refine List.forall₂_iff_get.2 ⟨hlen, fun i hu hv => ?_⟩
  have hi := h i hu
  simpa [hu, hv] using hi

theorem getD_le_of_forall₂ {us vs : List Int} (h : List.Forall₂ (· ≤ ·) us vs) (i : Nat) :
    us.getD i 0 ≤ vs.getD i 0 := by
  obtain ⟨hlen, h⟩ := List.forall₂_iff_get.1 h
  by_cases hi : i < us.length
  · simpa [hi, hlen ▸ hi] using h i hi (hlen ▸ hi)
  · simp [not_lt.1 hi, hlen ▸ not_lt.1 hi]

/-- If the calls in between keep the device, its counters go on from where they were. -/
theorem nonDecreasing_of_kept {dev : String} {calls : List DiskCall} (hdev : ∀ c ∈ calls, dev ∈ c.shape.names)
    (hkept : KeptBetween dev (calls.map DiskCall.shape)) : NonDecreasing dev calls := by
  rintro pre a mid b post rfl ha hb
  have hmid : ∀ c ∈ mid, c.shape.Keeps dev := fun c hc =>
    hkept (pre.map DiskCall.shape) a.shape (mid.map DiskCall.shape) b.shape (post.map DiskCall.shape) (by simp)
      ha hb _ (List.mem_map_of_mem hc)
  obtain ⟨ua, hua, hla, hpa, hta⟩ := reported_diskCall pre ha (hdev a (by simp))
  obtain ⟨ub, hub, hlb, hpb, htb⟩ := reported_diskCall (pre ++ a :: mid) hb (hdev b (by simp))
  refine ⟨_, _, hta, htb, forall₂_of_getD (by simp [unwrapTuple, hla, hlb]) fun i hi => ?_⟩
  have hi : i < 9 := by simpa [unwrapTuple, hla] using hi
  obtain ⟨xs, hxs, hx0⟩ := readings_of_keeps i (fun c hc => hdev c (by simp [hc])) hmid
  have hread : stretch ((nonEmpty ((pre ++ a :: mid).map DiskCall.rawdict)).map (readingOf · dev i)) =
      stretch ((nonEmpty (pre.map DiskCall.rawdict)).map (readingOf · dev i)) ++ ua.getD i 0 :: xs := by
    have hra : readingOf a.rawdict dev i = some (ua.getD i 0) := by simp [readingOf, hua]
    rw [List.map_append, List.map_cons, nonEmpty_append, nonEmpty_cons (Dict.isEmpty_eq_false (Dict.mem_of_get? hua)),
      List.map_append, List.map_cons, hxs, hra, ← List.map_cons, stretch_append_somes]
  rw [getD_unwrapTuple hua (hla ▸ hi), getD_unwrapTuple hub (hlb ▸ hi), hread, List.append_assoc, List.cons_append]
  exact last_add_drops_le (getD_nonneg hpb i) _ _ hx0

/-- The call of a given shape in which every device has been read so many times. -/
def DiskShape.fill (reads : Nat) (s : DiskShape) : DiskCall :=
  ⟨s.perdisk, s.sysBlock, s.names.map (diskReads · reads)⟩

theorem DiskShape.shape_fill (reads : Nat) (s : DiskShape) : (s.fill reads).shape = s := by
  simp [fill, DiskCall.shape, diskReads, Function.comp_def]

theorem reads_fill {reads : Nat} {s : DiskShape} {perdisk : Bool} {k : String} {u : List Int}
    (h : (diskRawDict (s.fill reads).snap perdisk).get? k = some u) : u.getD 0 0 = reads := by
  obtain ⟨e, he, -, rfl⟩ := diskRawDict_entry h
  obtain ⟨n, -, rfl⟩ := List.mem_map.1 he
  rfl

/-- Equal readings never fall. -/
theorem drops_replicate (x : Int) (hx : 0 ≤ x) (n : Nat) : drops (List.replicate n x) = 0 :=
  (drops_eq_zero_iff fun _ hy => (List.eq_of_mem_replicate hy).symm ▸ hx).2 (List.isChain_replicate_of_rel n le_rfl)

/-- After a call that drops the device, it starts from zero again. -/
theorem reads_after_drop {dev : String} (calls : List DiskCall) {s : DiskShape} (shapes : List DiskShape)
    (hdev : dev ∈ s.names) (hns : ¬s.Keeps dev) :
    ∃ n, stretch ((nonEmpty ((calls ++ s.fill 1 :: shapes.map (DiskShape.fill 0)).map DiskCall.rawdict)).map
      (readingOf · dev 0)) = List.replicate n 0 := by
  have hshape : (s.fill 1).shape = s := s.shape_fill 1
  have hkeep := keeps_iff (c := s.fill 1) (hshape.symm ▸ hdev)
  rw [hshape, iff_false_left hns, not_or, Bool.not_eq_true] at hkeep
  obtain ⟨hgone, hne⟩ := hkeep
  have hnone : readingOf (s.fill 1).rawdict dev 0 = none := by simp [readingOf, Dict.get?_eq_none.2 hgone]
  refine ⟨_, List.eq_replicate_of_mem fun x hx => ?_⟩
  rw [List.map_append, List.map_cons, nonEmpty_append, nonEmpty_cons hne, List.map_append, List.map_cons, hnone,
    stretch_append_none_append] at hx
  obtain ⟨d, hd, hread⟩ := List.mem_map.1 (mem_of_mem_stretch hx)
  obtain ⟨c, hc, rfl, -⟩ := mem_nonEmpty_rawdicts hd
  obtain ⟨s', -, rfl⟩ := List.mem_map.1 hc
  obtain ⟨t, ht, rfl⟩ := Option.map_eq_some_iff.1 hread
  exact reads_fill ht

/-- A call that drops the device: all counters read 1 up to there and 0 from then on. -/
theorem not_nonDecreasing_of_dropped {dev : String} {shapes : List DiskShape} (hdev : ∀ s ∈ shapes, dev ∈ s.names)
    (hdrop : ¬KeptBetween dev shapes) :
    ∃ calls : List DiskCall, calls.map DiskCall.shape = shapes ∧ ¬NonDecreasing dev calls := by
  simp only [KeptBetween, not_forall] at hdrop
  obtain ⟨pre, a, mid, b, post, rfl, ha, hb, s, hs, hns⟩ := hdrop
  obtain ⟨m₁, m₂, rfl⟩ := List.append_of_mem hs
  refine ⟨pre.map (DiskShape.fill 1) ++ a.fill 1 :: ((m₁.map (DiskShape.fill 1) ++ s.fill 1 ::
    m₂.map (DiskShape.fill 0)) ++ b.fill 0 :: post.map (DiskShape.fill 0)), ?_, fun hmono => ?_⟩
  · simp [DiskShape.shape_fill, Function.comp_def]
  obtain ⟨ta, tb, hta, htb, hle⟩ := hmono _ _ _ _ _ rfl ha hb
  obtain ⟨ua, hua, hla, hpa, hra⟩ := reported_diskCall (pre.map (DiskShape.fill 1)) (c := a.fill 1) ha
    (by rw [DiskShape.shape_fill]; exact hdev a (by simp))
  obtain ⟨ub, hub, hlb, -, hrb⟩ := reported_diskCall (pre.map (DiskShape.fill 1) ++ a.fill 1 ::
    (m₁.map (DiskShape.fill 1) ++ s.fill 1 :: m₂.map (DiskShape.fill 0))) (c := b.fill 0) hb
    (by rw [DiskShape.shape_fill]; exact hdev b (by simp))
  obtain rfl := Option.some.inj (hta.symm.trans hra)
  obtain rfl := Option.some.inj (htb.symm.trans hrb)
  -- the first call reports at least the 1 it read, the last one the 0 it read and nothing else
  have hfirst : 1 ≤ (unwrapTuple (nonEmpty ((pre.map (DiskShape.fill 1)).map DiskCall.rawdict) ++
      [(a.fill 1).rawdict]) dev ua).getD 0 0 := by
    have hd := drops_nonneg (stretch_nonneg (passedOn_diskCalls (pre.map (DiskShape.fill 1)) ▸ nonNeg_passedOn _ _) dev 0
      (getD_nonneg hpa 0))
    rw [getD_unwrapTuple hua (by omega), reads_fill hua]
    rw [reads_fill hua] at hd
    omega
  obtain ⟨n, hn⟩ := reads_after_drop (pre.map (DiskShape.fill 1) ++ a.fill 1 :: m₁.map (DiskShape.fill 1)) m₂
    (hdev s (by simp)) hns
  have hlast : (unwrapTuple (nonEmpty ((pre.map (DiskShape.fill 1) ++ a.fill 1 :: (m₁.map (DiskShape.fill 1) ++
      s.fill 1 :: m₂.map (DiskShape.fill 0))).map DiskCall.rawdict) ++ [(b.fill 0).rawdict]) dev ub).getD 0 0 = 0 := by
    rw [List.append_assoc, List.cons_append] at hn
    rw [getD_unwrapTuple hub (by omega), hn, reads_fill hub, Nat.cast_zero, ← List.replicate_one,
      List.replicate_append_replicate, drops_replicate 0 le_rfl, add_zero]
  have hle := getD_le_of_forall₂ hle 0
  omega

/-- **The values of a device never decrease, exactly when** every `perdisk=False` call between two
`perdisk=True` calls keeps it: it is a root device then, or none is listed. -/
theorem disk_io_counters_nonDecreasing_iff {dev : String} (shapes : List DiskShape)
    (hdev : ∀ s ∈ shapes, dev ∈ s.names) :
    (∀ calls : List DiskCall, calls.map DiskCall.shape = shapes → NonDecreasing dev calls) ↔
      KeptBetween dev shapes := by
  constructor
  · intro h
    by_contra hdrop
    obtain ⟨calls, hshape, hno⟩ := not_nonDecreasing_of_dropped hdev hdrop
    exact hno (h calls hshape)
  · rintro hkept calls rfl
    exact nonDecreasing_of_kept (fun c hc => hdev _ (List.mem_map_of_mem hc)) hkept

/-- A disk `sda` with one partition, both read so many times. -/
def sdaCall (perdisk : Bool) (reads : Nat) : DiskCall :=
  ⟨perdisk, fun n => n = "sda", [diskReads "sda" reads, diskReads "sda1" reads]⟩

/-- `sda1` wraps and is reported as 110; a call for the totals drops it, and then it is reported as 10. -/
theorem disk_io_counters_totals_between : ¬∀ (dev : String) (calls : List DiskCall),
    (∀ c ∈ calls, dev ∈ c.shape.names) → NonDecreasing dev calls := by
  intro h
  obtain ⟨ta, tb, hta, htb, hle⟩ := h "sda1" [sdaCall true 100, sdaCall true 10, sdaCall false 10, sdaCall true 10]
    (by decide) [sdaCall true 100] (sdaCall true 10) [sdaCall false 10] (sdaCall true 10) [] rfl rfl rfl
  have hbefore : ta = [110, 0, 0, 0, 0, 0, 0, 0, 0] := Option.some.inj (hta.symm.trans (by decide +kernel))
  have hafter : tb = [10, 0, 0, 0, 0, 0, 0, 0, 0] := Option.some.inj (htb.symm.trans (by decide +kernel))
  have h0 := getD_le_of_forall₂ hle 0
  rw [hbefore, hafter] at h0
  exact absurd h0 (by decide)

/-- The root device `sda` of the same calls is kept. -/
theorem disk_io_counters_nonDecreasing_root :
    NonDecreasing "sda" [sdaCall true 100, sdaCall true 10, sdaCall false 10, sdaCall true 10] := by
  refine (disk_io_counters_nonDecreasing_iff [(sdaCall true 100).shape, (sdaCall true 10).shape,
    (sdaCall false 10).shape, (sdaCall true 10).shape] (by decide)).2 (fun pre a mid b post h _ _ s hs => ?_) _ rfl
  have hmem : s ∈ [(sdaCall true 100).shape, (sdaCall true 10).shape, (sdaCall false 10).shape,
      (sdaCall true 10).shape] := h ▸ by simp [hs]
  have hroot : s.sysBlock = fun n => n = "sda" := by
    simp only [List.mem_cons, List.not_mem_nil, or_false] at hmem
    rcases hmem with rfl | rfl | rfl | rfl <;> rfl
  exact Or.inr (Or.inl (by rw [hroot]; decide))

end Psutil
