import Psutil.Nowrap.Devices

/-!
# Calls from several threads

Each call of `net_io_counters(pernic=True)` or `disk_io_counters(perdisk=True)` is two atomic steps: the
kernel snapshot is read without a lock, then `_wn.run` is entered with it under `_wn.lock`
(`_common.py:548`). Kernel counters only grow, over a fixed set of devices. `every_call_raw_iff` says when
no call sees a wrap: exactly when the snapshots reach the lock in an order in which no counter goes down.
-/

namespace Psutil

open Lib Unwrap

inductive IoFn where
  | net | disk
  deriving DecidableEq

def IoFn.name : IoFn → String
  | .net => netName
  | .disk => diskName

/-- What the kernel shows at one moment. -/
structure Kernel where
  net : List NetEntry
  disk : DiskSnapshot

/-- A call that has read its snapshot. -/
structure IoRead where
  fn : IoFn
  kernel : Kernel

/-- `rawdict` of the call. -/
def IoRead.rawdict (r : IoRead) : Dict String (List Int) :=
  match r.fn with
  | .net => netRawDict r.kernel.net
  | .disk => diskRawDict r.kernel.disk true

def IoRead.call (r : IoRead) : ApiCall :=
  match r.fn with
  | .net => perNic r.kernel.net
  | .disk => perDisk r.kernel.disk

/-- Field `i` of a device. -/
def counter (d : Dict String (List Int)) (dev : String) (i : Nat) : Int := ((d.get? dev).getD []).getD i 0

/-- No counter is lower in `d'` than in `d`. -/
def NotBelow (d d' : Dict String (List Int)) : Prop := ∀ dev i, counter d dev i ≤ counter d' dev i

def SameDevices (d d' : Dict String (List Int)) : Prop := ∀ dev, dev ∈ d ↔ dev ∈ d'

/-- The kernel counters grew: the devices are the same and no counter went down. -/
def Grows (k k' : Kernel) : Prop :=
  ∀ fn, SameDevices (IoRead.rawdict ⟨fn, k⟩) (IoRead.rawdict ⟨fn, k'⟩) ∧
    NotBelow (IoRead.rawdict ⟨fn, k⟩) (IoRead.rawdict ⟨fn, k'⟩)

/-- `pending` holds the calls that have read and not yet returned, by thread. -/
structure Threads where
  kernel : Kernel
  pending : Dict Nat IoRead
  wn : WrapNumbers String

inductive ThreadEv where
  | grow (kernel : Kernel)
  /-- Thread `c` calls the function and reads its snapshot. -/
  | read (c : Nat) (fn : IoFn)
  /-- Thread `c` runs `wrap_numbers` and returns. -/
  | wrap (c : Nat)

def threads : Machine Threads ThreadEv (Option (IoRead × Except Exc Counters)) where
  step s
    | .grow kernel => ({ s with kernel := kernel }, none)
    | .read c fn =>
      -- a thread makes one call at a time
      if c ∈ s.pending then (s, none) else ({ s with pending := s.pending.set c ⟨fn, s.kernel⟩ }, none)
    | .wrap c => match s.pending.get? c with
      | none => (s, none)
      | some r =>
        let (wn, ans) := apiMachine.step s.wn r.call
        ({ s with pending := s.pending.erase c, wn := wn }, some (r, ans))

def Threads.init (kernel : Kernel) : Threads := ⟨kernel, ∅, .init⟩

/-- The calls that returned, in the order in which they held the lock, and their results. -/
def returned (tr : List (Line Threads ThreadEv (Option (IoRead × Except Exc Counters)))) :
    List (IoRead × Except Exc Counters) := tr.filterMap Line.out

/-- The snapshots of one function among some calls. -/
def rawsOf (fn : IoFn) (reads : List IoRead) : List (Dict String (List Int)) :=
  (reads.filter (·.fn = fn)).map IoRead.rawdict

/-- The call returned exactly the raw snapshot it read. -/
def IsRaw (r : IoRead) (ans : Except Exc Counters) : Prop :=
  ∃ d, ans = .ok (.perKey d) ∧ ∀ dev, d.get? dev = r.rawdict.get? dev

/-! ## One call after some others -/

theorem IoFn.name_injective {fn fn' : IoFn} (h : fn.name = fn'.name) : fn = fn' := by
  cases fn <;> cases fn' <;> first | rfl | exact absurd h (by decide)

theorem IoRead.op_call (r : IoRead) : r.call.op = ioOp r.fn.name r.rawdict true := by
  obtain ⟨fn, k⟩ := r
  cases fn <;> rfl

theorem IoRead.fits (r : IoRead) {dev : String} {u : List Int} (h : r.rawdict.get? dev = some u) :
    u.length = fieldCount r.fn.name := by
  obtain ⟨fn, k⟩ := r
  cases fn with
  | net => exact fits_netRawDict _ h
  | disk => exact fits_diskRawDict _ _ h

theorem IoRead.nonneg (r : IoRead) {dev : String} {u : List Int} (h : r.rawdict.get? dev = some u) :
    ∀ x ∈ u, 0 ≤ x := by
  obtain ⟨fn, k⟩ := r
  cases fn with
  | net => exact netRawDict_nonneg h
  | disk => exact diskRawDict_nonneg h

theorem IoRead.step_call (r : IoRead) (wn : WrapNumbers String) :
    apiMachine.step wn r.call = answer wn (ioCounters r.fn.name r.rawdict true true wn) := by
  obtain ⟨fn, k⟩ := r
  cases fn <;> rfl

theorem passedOn_reads (fn : IoFn) (reads : List IoRead) :
    passedOn fn.name (reads.map IoRead.call) = nonEmpty (rawsOf fn reads) := by
  induction reads with
  | nil => rfl
  | cons r reads ih =>
    have hop := r.op_call
    cases he : r.rawdict.isEmpty with
    | true =>
      rw [ioOp, he, Bool.true_or, if_pos rfl] at hop
      by_cases hfn : r.fn = fn <;> simpa [passedOn, inputsOf, rawsOf, nonEmpty, hop, he, hfn] using ih
    | false =>
      have hop : r.call.op = some (.run r.rawdict r.fn.name) := by simpa [ioOp, he] using hop
      by_cases hfn : r.fn = fn
      · simpa [passedOn, inputsOf, rawsOf, nonEmpty, hop, he, hfn] using ih
      · have hname : r.fn.name ≠ fn.name := fun h => hfn (IoFn.name_injective h)
        simpa [passedOn, inputsOf, rawsOf, nonEmpty, hop, he, hfn, hname] using ih

/-- A call returns its raw snapshot iff none of its fields fell since its device appeared. -/
theorem isRaw_iff (reads : List IoRead) (r : IoRead) :
    IsRaw r (answerAfter (reads.map IoRead.call) r.call) ↔
      ∀ dev u, r.rawdict.get? dev = some u → NeverFell (nonEmpty (rawsOf r.fn reads)) dev u := by
  rw [answerAfter, r.step_call]
  cases he : r.rawdict.isEmpty with
  | true =>
    have hnone : ∀ dev, r.rawdict.get? dev = none := fun dev => Dict.get?_eq_none.2 (Dict.isEmpty_iff.1 he dev)
    refine iff_of_true ?_ fun dev u hu => absurd hu (by simp [hnone])
    rw [ioCounters_empty he]
    exact ⟨∅, rfl, fun dev => by rw [hnone]; rfl⟩
  | false =>
    obtain ⟨out, hout, hget⟩ := answer_perKey (noClear_map (fun r => ⟨_, _, IoRead.op_call r⟩) r.fn.name reads) (fun _ _ => r.fits) he
    rw [hout]
    have hraw : IsRaw r (.ok (.perKey out)) ↔ ∀ dev, out.get? dev = r.rawdict.get? dev := by
      constructor
      · rintro ⟨d, hd, h⟩
        cases hd
        exact h
      · exact fun h => ⟨out, rfl, h⟩
    rw [hraw]
    apply forall_congr'
    intro dev
    rw [hget]
    cases hu : r.rawdict.get? dev with
    | none => simp
    | some u =>
      have hiff := unwrapTuple_eq_self_iff (nonNeg_passedOn r.fn.name (reads.map IoRead.call)) hu (r.nonneg hu)
      rw [passedOn_reads] at hiff ⊢
      simpa using hiff

/-! ## All calls of a run -/

theorem counter_of_get? {d : Dict String (List Int)} {dev : String} {u : List Int} (h : d.get? dev = some u)
    (i : Nat) : counter d dev i = u.getD i 0 := by
  simp [counter, h]

theorem counter_of_not_mem {d : Dict String (List Int)} {dev : String} (h : dev ∉ d) (i : Nat) :
    counter d dev i = 0 := by
  simp [counter, Dict.get?_eq_none.2 h]

theorem isChain_of_zero {ds : List (Dict String (List Int))} {dev : String} {i : Nat}
    (h : ∀ d ∈ ds, counter d dev i = 0) : ds.IsChain fun a b => counter a dev i ≤ counter b dev i :=
  List.isChain_iff_getElem.2 fun j hj =>
    ((h _ (List.getElem_mem (by omega))).trans (h _ (List.getElem_mem hj)).symm).le

/-- The readings of a device that every snapshot lists form one stretch. -/
theorem stretch_counters {snaps : List (Dict String (List Int))} {dev : String} (h : ∀ d ∈ snaps, dev ∈ d) (i : Nat) :
    stretch ((nonEmpty snaps).map (readingOf · dev i)) = snaps.map (counter · dev i) := by
  have hsome : (nonEmpty snaps).map (readingOf · dev i) = (snaps.map (counter · dev i)).map some := by
    induction snaps with
    | nil => rfl
    | cons d snaps ih =>
      have hd := h d List.mem_cons_self
      obtain ⟨u, hu⟩ := Dict.mem_iff_get?.1 hd
      rw [nonEmpty_cons (Dict.isEmpty_eq_false hd), List.map_cons, ih fun d' hd' => h d' (List.mem_cons_of_mem _ hd')]
      simp [readingOf, hu, counter]
  have hst := stretch_append_somes [] (snaps.map (counter · dev i))
  rwa [List.nil_append, stretch_nil, List.nil_append, ← hsome] at hst

/-- Over a fixed set of devices, the condition on single fields is one order on dictionaries. -/
theorem neverFell_iff_isChain {snaps : List (Dict String (List Int))} {d : Dict String (List Int)}
    (hsame : ∀ d' ∈ snaps, SameDevices d d') {n : Nat}
    (hlen : ∀ d' ∈ snaps ++ [d], ∀ dev u, d'.get? dev = some u → u.length = n) :
    (∀ dev u, d.get? dev = some u → NeverFell (nonEmpty snaps) dev u) ↔ (snaps ++ [d]).IsChain NotBelow := by
  have hfields : (∀ dev u, d.get? dev = some u → NeverFell (nonEmpty snaps) dev u) ↔
      ∀ dev i, (snaps ++ [d]).IsChain fun a b => counter a dev i ≤ counter b dev i := by
    apply forall_congr'
    intro dev
    cases hu : d.get? dev with
    | none =>
      refine iff_of_true (by simp) fun i => isChain_of_zero fun d' hd' => counter_of_not_mem ?_ i
      have hd : dev ∉ d := Dict.get?_eq_none.1 hu
      rcases List.mem_append.1 hd' with hd' | hd'
      · exact fun hm => hd ((hsame d' hd' dev).2 hm)
      · rwa [List.mem_singleton.1 hd']
    | some u =>
      have hmem : ∀ d' ∈ snaps, dev ∈ d' := fun d' hd' => (hsame d' hd' dev).1 (Dict.mem_of_get? hu)
      have hrw : ∀ i, stretch ((nonEmpty snaps).map (readingOf · dev i)) ++ [u.getD i 0] =
          (snaps ++ [d]).map (counter · dev i) := fun i => by
        rw [stretch_counters hmem, List.map_append, List.map_singleton, counter_of_get? hu]
      simp only [Option.some.injEq, forall_eq', NeverFell, hrw, List.isChain_map]
      refine ⟨fun h i => ?_, fun h i _ => h i⟩
      by_cases hi : i < u.length
      · exact h i hi
      · -- past the last field every tuple reads 0
        apply isChain_of_zero
        intro d' hd'
        have hdev : dev ∈ d' := by
          rcases List.mem_append.1 hd' with hd' | hd'
          · exact hmem d' hd'
          · exact List.mem_singleton.1 hd' ▸ Dict.mem_of_get? hu
        obtain ⟨u', hu'⟩ := Dict.mem_iff_get?.1 hdev
        have hl := hlen d (by simp) dev u hu
        have hl' := hlen d' hd' dev u' hu'
        rw [counter_of_get? hu', List.getD_eq_getElem?_getD, List.getElem?_eq_none (by omega), Option.getD_none]
  rw [hfields]
  simp only [List.isChain_iff_getElem, NotBelow]
  exact ⟨fun h j hj dev i => h dev i j hj, fun h dev i j hj => h j hj dev i⟩

theorem rawsOf_concat_self (reads : List IoRead) (r : IoRead) :
    rawsOf r.fn (reads ++ [r]) = rawsOf r.fn reads ++ [r.rawdict] := by
  simp [rawsOf]

theorem rawsOf_concat_ne (reads : List IoRead) {r : IoRead} {fn : IoFn} (h : r.fn ≠ fn) :
    rawsOf fn (reads ++ [r]) = rawsOf fn reads := by
  simp [rawsOf, h]

/-- What holds after any run: `_wn` is where the calls in lock order leave it, and every snapshot read
so far lists the devices of the first one. -/
structure Inv (k₀ : Kernel) (reads : List IoRead) (s : Threads) : Prop where
  wn : s.wn = apiMachine.run .init (reads.map IoRead.call)
  kernel : ∀ fn, SameDevices (IoRead.rawdict ⟨fn, k₀⟩) (IoRead.rawdict ⟨fn, s.kernel⟩)
  pending : ∀ c r, s.pending.get? c = some r → SameDevices (IoRead.rawdict ⟨r.fn, k₀⟩) r.rawdict
  reads : ∀ r ∈ reads, SameDevices (IoRead.rawdict ⟨r.fn, k₀⟩) r.rawdict

/-- Every change of the kernel in the trace only makes its counters grow. -/
def OnlyGrows (tr : List (Line Threads ThreadEv (Option (IoRead × Except Exc Counters)))) : Prop :=
  ∀ l ∈ tr, ∀ k, l.ev = .grow k → Grows l.pre.kernel k

theorem returned_append_step (tr : List (Line Threads ThreadEv (Option (IoRead × Except Exc Counters)))) (s : Threads)
    (e : ThreadEv) : returned (tr ++ threads.trace s [e]) = returned tr ++ (threads.step s e).2.toList := by
  cases h : (threads.step s e).2 <;> simp [returned, Machine.trace, h]

theorem inv_init (k₀ : Kernel) : Inv k₀ [] (.init k₀) :=
  ⟨rfl, fun _ _ => Iff.rfl, fun _ _ h => by simp [Threads.init] at h, by simp⟩

/-- A step that returns nothing keeps the calls so far; one that returns adds its call, answered as if the
calls had been made one after the other in lock order. -/
theorem Inv.step {k₀ : Kernel} {reads : List IoRead} {s : Threads} (h : Inv k₀ reads s) {e : ThreadEv}
    (hg : ∀ k, e = .grow k → Grows s.kernel k) :
    ((threads.step s e).2 = none ∧ Inv k₀ reads (threads.step s e).1) ∨
      ∃ r, (threads.step s e).2 = some (r, answerAfter (reads.map IoRead.call) r.call) ∧
        Inv k₀ (reads ++ [r]) (threads.step s e).1 := by
  cases e with
  | grow k =>
    refine Or.inl ⟨rfl, h.wn, fun fn dev => ?_, h.pending, h.reads⟩
    exact (h.kernel fn dev).trans ((hg k rfl fn).1 dev)
  | read c fn =>
    refine Or.inl ?_
    by_cases hc : c ∈ s.pending
    · simpa [threads, hc] using h
    · refine ⟨by simp [threads, hc], ?_⟩
      simp only [threads, hc, if_false]
      refine ⟨h.wn, h.kernel, fun c' r hr => ?_, h.reads⟩
      rw [Dict.get?_set] at hr
      by_cases e : c' = c
      · rw [if_pos e, Option.some.injEq] at hr
        exact hr ▸ h.kernel fn
      · exact h.pending c' r (by rwa [if_neg e] at hr)
  | wrap c =>
    cases hp : s.pending.get? c with
    | none => exact Or.inl (by simpa [threads, hp] using h)
    | some r =>
      refine Or.inr ⟨r, by simp [threads, hp, answerAfter, h.wn], ?_⟩
      simp only [threads, hp]
      refine ⟨?_, h.kernel, ?_, ?_⟩
      · rw [h.wn, List.map_append, Machine.run_append]
        rfl
      · intro c' r' hr
        rw [Dict.get?_erase] at hr
        by_cases e : c' = c
        · simp [e] at hr
        · exact h.pending c' r' (by rwa [if_neg e] at hr)
      · intro r' hr
        rcases List.mem_append.1 hr with hr | hr
        · exact h.reads r' hr
        · exact List.mem_singleton.1 hr ▸ h.pending c r hp

/-- The condition under which one more call in lock order is answered with its raw snapshot. -/
theorem Inv.isRaw_iff {k₀ : Kernel} {reads : List IoRead} {r : IoRead} {s : Threads} (h : Inv k₀ (reads ++ [r]) s) :
    IsRaw r (answerAfter (reads.map IoRead.call) r.call) ↔ (rawsOf r.fn reads ++ [r.rawdict]).IsChain NotBelow := by
  have hof : ∀ d ∈ rawsOf r.fn reads ++ [r.rawdict], ∃ r' ∈ reads ++ [r], r'.fn = r.fn ∧ d = r'.rawdict := by
    intro d hd
    rw [← rawsOf_concat_self] at hd
    obtain ⟨r', hr', rfl⟩ := List.mem_map.1 hd
    obtain ⟨hr', hfn⟩ := List.mem_filter.1 hr'
    exact ⟨r', hr', by simpa using hfn, rfl⟩
  rw [Psutil.isRaw_iff]
  refine neverFell_iff_isChain (n := fieldCount r.fn.name) (fun d hd dev => ?_) fun d hd dev u hu => ?_
  · obtain ⟨r', hr', hfn, rfl⟩ := hof d (by simp [hd])
    exact (h.reads r (by simp) dev).symm.trans (hfn ▸ h.reads r' hr' dev)
  · obtain ⟨r', -, hfn, rfl⟩ := hof d hd
    exact hfn ▸ r'.fits hu

/-- **Every call returns its raw snapshot, exactly when** the snapshots of each function reach the lock in
an order in which no counter goes down. -/
theorem every_call_raw_iff (k₀ : Kernel) (evs : List ThreadEv)
    (hgrow : OnlyGrows (threads.trace (.init k₀) evs)) :
    (∀ p ∈ returned (threads.trace (.init k₀) evs), IsRaw p.1 p.2) ↔
      ∀ fn, (rawsOf fn ((returned (threads.trace (.init k₀) evs)).map Prod.fst)).IsChain NotBelow := by
  -- by induction on the run, together with the invariant of the state it reaches
  suffices h : Inv k₀ ((returned (threads.trace (.init k₀) evs)).map Prod.fst) (threads.run (.init k₀) evs) ∧
      ((∀ p ∈ returned (threads.trace (.init k₀) evs), IsRaw p.1 p.2) ↔
        ∀ fn, (rawsOf fn ((returned (threads.trace (.init k₀) evs)).map Prod.fst)).IsChain NotBelow) from h.2
  induction evs using List.reverseRecOn with
  | nil => exact ⟨inv_init k₀, by simp [Machine.trace, returned, rawsOf]⟩
  | append_singleton evs e ih =>
    rw [Machine.trace_append] at hgrow ⊢
    obtain ⟨hinv, hiff⟩ := ih fun l hl => hgrow l (List.mem_append_left _ hl)
    have hg : ∀ k, e = .grow k → Grows (threads.run (.init k₀) evs).kernel k := fun k hk =>
      hgrow ⟨_, e, (threads.step (threads.run (.init k₀) evs) e).2⟩
        (List.mem_append_right _ (by simp [Machine.trace])) k hk
    rw [Machine.run_append, returned_append_step]
    rcases hinv.step hg with ⟨hout, hinv'⟩ | ⟨r, hout, hinv'⟩
    · rw [hout, Option.toList_none, List.append_nil]
      exact ⟨hinv', hiff⟩
    · rw [hout, Option.toList_some, List.map_append, List.map_singleton, List.forall_mem_append,
        List.forall_mem_singleton, hiff, hinv'.isRaw_iff]
      refine ⟨hinv', ?_, fun hch => ⟨?_, rawsOf_concat_self _ r ▸ hch r.fn⟩⟩
      · rintro ⟨hch, hr⟩ fn
        by_cases hfn : r.fn = fn
        · subst hfn
          rwa [rawsOf_concat_self]
        · rw [rawsOf_concat_ne _ hfn]
          exact hch fn
      · intro fn
        by_cases hfn : r.fn = fn
        · subst hfn
          exact (rawsOf_concat_self _ r ▸ hch r.fn).left_of_append
        · exact rawsOf_concat_ne _ hfn ▸ hch fn

/-- A machine with one NIC that has sent so many bytes. -/
def eth0Kernel (bytesSent : Nat) : Kernel := ⟨[nicSent "eth0" bytesSent], fun _ => false, []⟩

theorem grows_eth0Kernel {m n : Nat} (h : m ≤ n) : Grows (eth0Kernel m) (eth0Kernel n) := by
  intro fn
  cases fn with
  | disk => exact ⟨fun _ => Iff.rfl, fun _ _ => le_rfl⟩
  | net =>
    refine ⟨fun _ => Iff.rfl, fun dev i => ?_⟩
    by_cases e : dev = "eth0"
    · subst e
      have hget : ∀ k : Nat, (netRawDict [nicSent "eth0" k]).get? "eth0" = some [(k : Int), 0, 0, 0, 0, 0, 0, 0] :=
        fun k => rfl
      simp only [counter, IoRead.rawdict, eth0Kernel, hget, Option.getD_some]
      rcases i with _ | i
      · simpa using h
      · simp
    · have hno : ∀ k : Nat, dev ∉ netRawDict [nicSent "eth0" k] := fun k hm => e (by
        simpa [netRawDict, Dict.update, nicSent, Dict.mem_set] using hm)
      simp only [IoRead.rawdict, eth0Kernel, counter_of_not_mem (hno m), counter_of_not_mem (hno n), le_rfl]

/-- The first thread reads 10, the counter grows to 100, the second thread reads 100 and is first at the lock:
the first call then returns 110, though no counter ever wrapped. -/
theorem wrap_out_of_order : ¬∀ (k₀ : Kernel) (evs : List ThreadEv), OnlyGrows (threads.trace (.init k₀) evs) →
    ∀ p ∈ returned (threads.trace (.init k₀) evs), IsRaw p.1 p.2 := by
  intro h
  have hraw := h (eth0Kernel 10) [.read 0 .net, .grow (eth0Kernel 100), .read 1 .net, .wrap 1, .wrap 0]
    (fun l hl k hk => by
      simp only [Machine.trace, List.mem_cons, List.not_mem_nil, or_false] at hl
      rcases hl with rfl | rfl | rfl | rfl | rfl <;> cases hk
      exact grows_eth0Kernel (by decide))
  obtain ⟨d, hd, hget⟩ := hraw (⟨.net, eth0Kernel 10⟩, answerAfter [perNic [nicSent "eth0" 100]] (perNic [nicSent "eth0" 10]))
    (List.mem_of_getElem? (i := 1) rfl)
  have h110 : reported (.ok (.perKey d)) "eth0" = some [110, 0, 0, 0, 0, 0, 0, 0] := hd ▸ by decide +kernel
  exact absurd ((hget "eth0").symm.trans h110) (by decide)

/-- The same calls, each finished before the next one reads. -/
theorem every_call_raw_in_order :
    ¬∃ p ∈ returned (threads.trace (.init (eth0Kernel 10))
      [.read 0 .net, .wrap 0, .grow (eth0Kernel 100), .read 1 .net, .wrap 1]), ¬IsRaw p.1 p.2 := by
  rintro ⟨p, hp, hraw⟩
  refine hraw ((every_call_raw_iff _ _ fun l hl k hk => ?_).2 (fun fn => ?_) p hp)
  · simp only [Machine.trace, List.mem_cons, List.not_mem_nil, or_false] at hl
    rcases hl with rfl | rfl | rfl | rfl | rfl <;> cases hk
    exact grows_eth0Kernel (by decide)
  · cases fn with
    | disk => exact List.IsChain.nil
    | net => exact .cons_cons (grows_eth0Kernel (m := 10) (n := 100) (by decide) .net).2 (.singleton _)

end Psutil
