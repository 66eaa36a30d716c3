import Psutil.Nowrap.Spec
import Psutil.Lib.Run

/-!
# Histories of `wrap_numbers` calls

Calls for any names in any order, with `cache_clear` calls in between. What the object knows of a name
depends on the inputs of that name alone (`history`), and each result is its input unwrapped over the
inputs so far (`history_outputs`). `wrap_numbers_unwraps` spells this out with positions and sums.
-/

namespace Psutil

open Lib Unwrap

variable {κ : Type} [DecidableEq κ]

/-- A call on the object `_wn`. -/
inductive WrapOp (κ : Type) where
  | run (input : Dict κ (List Int)) (name : String)
  | cacheClear (name : Option String)

/-- `_wn` behind its lock: one call at a time; a call that raises leaves the object as it was. -/
def wrapMachine : Machine (WrapNumbers κ) (WrapOp κ) (Except Exc (Option (Dict κ (List Int)))) where
  step wn
    | .run input name => match wn.run input name with
      | .ok (out, wn') => (wn', .ok (some out))
      | .error e => (wn, .error e)
    | .cacheClear name => (wn.cacheClear name, .ok none)

/-- The inputs given for one name, in order. -/
def inputsOf (name : String) (ops : List (WrapOp κ)) : List (Dict κ (List Int)) :=
  ops.filterMap fun
    | .run input n => if n = name then some input else none
    | .cacheClear _ => none

/-- The dictionaries returned for one name, in order. -/
def outputsOf (name : String) (tr : List (Line (WrapNumbers κ) (WrapOp κ) (Except Exc (Option (Dict κ (List Int)))))) :
    List (Dict κ (List Int)) :=
  tr.filterMap fun l => match l.ev, l.out with
    | .run _ n, .ok out => if n = name then out else none
    | _, _ => none

omit [DecidableEq κ] in
@[simp] theorem inputsOf_append (name : String) (ops ops' : List (WrapOp κ)) :
    inputsOf name (ops ++ ops') = inputsOf name ops ++ inputsOf name ops' := by
  simp [inputsOf]

omit [DecidableEq κ] in
@[simp] theorem outputsOf_append (name : String)
    (tr tr' : List (Line (WrapNumbers κ) (WrapOp κ) (Except Exc (Option (Dict κ (List Int)))))) :
    outputsOf name (tr ++ tr') = outputsOf name tr ++ outputsOf name tr' := by
  simp [outputsOf]

theorem step_run {wn wn' : WrapNumbers κ} {input out : Dict κ (List Int)} {name : String}
    (h : wn.run input name = .ok (out, wn')) :
    wrapMachine.step wn (.run input name) = (wn', .ok (some out)) := by
  simp [wrapMachine, h]

@[simp] theorem step_cacheClear (wn : WrapNumbers κ) (name : Option String) :
    wrapMachine.step wn (.cacheClear name) = (wn.cacheClear name, .ok none) := rfl

/-- The call does not clear what is kept under `name`. -/
def WrapOp.Keeps (name : String) : WrapOp κ → Prop
  | .run _ _ => True
  | .cacheClear n => n ≠ none ∧ n ≠ some name

/-- Every tuple of the input has the length fixed for its name and key. -/
def WrapOp.Fits (len : String → κ → Nat) : WrapOp κ → Prop
  | .run input n => ∀ p ∈ input.items, p.2.length = len n p.1
  | .cacheClear _ => True

instance (name : String) : ∀ op : WrapOp κ, Decidable (op.Keeps name)
  | .run _ _ => .isTrue trivial
  | .cacheClear n => inferInstanceAs (Decidable (n ≠ none ∧ n ≠ some name))

instance (len : String → κ → Nat) : ∀ op : WrapOp κ, Decidable (op.Fits len)
  | .run input n => inferInstanceAs (Decidable (∀ p ∈ input.items, p.2.length = len n p.1))
  | .cacheClear _ => .isTrue trivial

theorem WrapOp.Fits.length_eq {len : String → κ → Nat} {input : Dict κ (List Int)} {n : String}
    (h : (WrapOp.run input n).Fits len) {k : κ} {u : List Int} (hu : input.get? k = some u) :
    u.length = len n k := h (k, u) (Dict.mem_items.2 hu)

/-- The unwrapped form of a raw tuple `u` of `key`, the last of the inputs `ins`. -/
def unwrapTuple (ins : List (Dict κ (List Int))) (key : κ) (u : List Int) : List Int :=
  u.mapIdx fun i x => x + drops (stretch (ins.map (readingOf · key i)))

/-- What the object knows of a name is a function of the inputs of that name. -/
structure Knows (len : String → κ → Nat) (name : String) (ins : List (Dict κ (List Int))) (wn : WrapNumbers κ) :
    Prop where
  wf : wn.WF len
  watch : ∀ key i, wn.watch name key i = summary (stretch (ins.map (readingOf · key i)))

theorem knows_init (len : String → κ → Nat) (name : String) : Knows len name [] (.init : WrapNumbers κ) :=
  ⟨WrapNumbers.wf_init len, fun _ _ => rfl⟩

/-- One more call for the name. -/
theorem Knows.run {len : String → κ → Nat} {name : String} {ins : List (Dict κ (List Int))} {wn : WrapNumbers κ}
    (h : Knows len name ins wn) {input : Dict κ (List Int)}
    (hin : ∀ k u, input.get? k = some u → u.length = len name k) :
    ∃ out wn', wn.run input name = .ok (out, wn') ∧ Knows len name (ins ++ [input]) wn' ∧
      ∀ key, out.get? key = (input.get? key).map (unwrapTuple (ins ++ [input]) key) := by
  obtain ⟨out, wn', hrun, hok⟩ := WrapNumbers.run_spec h.wf hin
  have hwatch : ∀ key i, wn'.watch name key i =
      summary (stretch ((ins ++ [input]).map (readingOf · key i))) := by
    intro key i
    rw [hok.watch, h.watch, List.map_append, List.map_singleton]
    cases readingOf input key i with
    | none => simp [observe]
    | some r => rw [observe_summary, stretch_append_some]
  refine ⟨out, wn', hrun, ⟨hok.wf, hwatch⟩, fun key => ?_⟩
  rw [hok.out]
  apply Option.map_congr
  intro u hu
  have hu : input.get? key = some u := hu
  -- the reminder read back from the object is the total of the stretch
  have hcar : ∀ i, wn'.carried name (key, i) = drops (stretch ((ins ++ [input]).map (readingOf · key i))) := by
    intro i
    have hw := hwatch key i
    simp only [WrapNumbers.watch, hok.cache, Option.bind_some, hu, Option.map_some, List.map_append,
      List.map_singleton, readingOf, stretch_append_some, summary_concat, Option.some.injEq,
      Seen.mk.injEq] at hw
    simpa [readingOf, hu] using hw.2
  simp only [unwrapTuple, hcar]

/-- A call for another name, or a `cache_clear` of another name. -/
theorem Knows.of_same {len : String → κ → Nat} {name : String} {ins : List (Dict κ (List Int))}
    {wn wn' : WrapNumbers κ} (h : Knows len name ins wn) (hwf : wn'.WF len) (hs : wn.SameName wn' name) :
    Knows len name ins wn' :=
  ⟨hwf, fun key i => (WrapNumbers.watch_of_same hs key i).trans (h.watch key i)⟩

/-- One call of any kind: it raises nothing, and adds its input to what is known of its own name. -/
theorem Knows.step {len : String → κ → Nat} {name : String} {ins : List (Dict κ (List Int))}
    {wn : WrapNumbers κ} {op : WrapOp κ} (h : Knows len name ins wn) (hk : op.Keeps name) (hf : op.Fits len) :
    Knows len name (ins ++ inputsOf name [op]) (wrapMachine.step wn op).1 ∧
      ∃ o, (wrapMachine.step wn op).2 = .ok o := by
  cases op with
  | run input n =>
    have hin : ∀ k u, input.get? k = some u → u.length = len n k := fun k u hu => hf.length_eq hu
    by_cases e : n = name
    · subst e
      obtain ⟨out, wn', hrun, hknows, -⟩ := h.run hin
      simpa [step_run hrun, inputsOf] using hknows
    · obtain ⟨out, wn', hrun, hok⟩ := WrapNumbers.run_spec h.wf hin
      simpa [step_run hrun, inputsOf, e] using h.of_same hok.wf (hok.same name (Ne.symm e))
  | cacheClear n =>
    obtain ⟨hnone, hne⟩ := hk
    obtain ⟨n', rfl⟩ := Option.ne_none_iff_exists'.1 hnone
    have hne : name ≠ n' := fun e => hne (congrArg some e.symm)
    simpa [inputsOf] using h.of_same (WrapNumbers.cacheClear_wf h.wf _) (WrapNumbers.sameName_cacheClear hne)

/-- **The state after any history** is what its inputs of the name say. -/
theorem history {len : String → κ → Nat} {name : String} {ops : List (WrapOp κ)} (hk : ∀ op ∈ ops, op.Keeps name)
    (hf : ∀ op ∈ ops, op.Fits len) : Knows len name (inputsOf name ops) (wrapMachine.run .init ops) := by
  induction ops using List.reverseRecOn with
  | nil => exact knows_init len name
  | append_singleton ops op ih =>
    rw [List.forall_mem_append, List.forall_mem_singleton] at hk hf
    rw [Machine.run_append, inputsOf_append]
    exact ((ih hk.1 hf.1).step hk.2 hf.2).1

/-! ## The results of a history -/

/-- The tuple of `key` in the `n`-th dictionary. -/
def tupleAt (ds : List (Dict κ (List Int))) (n : Nat) (key : κ) : Option (List Int) := ds[n]?.bind (·.get? key)

/-- Field `i` of that tuple, 0 where there is none. -/
def field (ds : List (Dict κ (List Int))) (n : Nat) (key : κ) (i : Nat) : Int :=
  ((tupleAt ds n key).getD []).getD i 0

def PresentAt (ds : List (Dict κ (List Int))) (n : Nat) (key : κ) : Prop := (tupleAt ds n key).isSome

/-- `key` is in the `n`-th dictionary and not in the one before it. -/
def AppearsAt (ds : List (Dict κ (List Int))) (n : Nat) (key : κ) : Prop :=
  PresentAt ds n key ∧ (n = 0 ∨ ¬PresentAt ds (n - 1) key)

/-- The `n`-th result is the `n`-th input, every tuple unwrapped over the inputs up to there. -/
structure Unwrapped (ins outs : List (Dict κ (List Int))) : Prop where
  length_eq : outs.length = ins.length
  tuple : ∀ n key, tupleAt outs n key = (tupleAt ins n key).map (unwrapTuple (ins.take (n + 1)) key)

theorem Unwrapped.concat {ins outs : List (Dict κ (List Int))} (h : Unwrapped ins outs)
    {input out : Dict κ (List Int)}
    (hout : ∀ key, out.get? key = (input.get? key).map (unwrapTuple (ins ++ [input]) key)) :
    Unwrapped (ins ++ [input]) (outs ++ [out]) := by
  refine ⟨by simp [h.length_eq], fun n key => ?_⟩
  have hlen := h.length_eq
  rcases lt_trichotomy n ins.length with hn | rfl | hn
  · have htup := h.tuple n key
    rw [List.take_append_of_le_length (by omega)]
    simpa only [tupleAt, List.getElem?_append_left hn, List.getElem?_append_left (hlen ▸ hn)] using htup
  · rw [List.take_of_length_le (by simp)]
    have hout := hout key
    simpa [tupleAt, ← hlen] using hout
  · simp [tupleAt, List.getElem?_eq_none, hlen, Nat.succ_le_of_lt hn]

/-- **The results of any history** are its inputs, unwrapped. -/
theorem history_outputs {len : String → κ → Nat} {name : String} {ops : List (WrapOp κ)} (hk : ∀ op ∈ ops, op.Keeps name)
    (hf : ∀ op ∈ ops, op.Fits len) : Unwrapped (inputsOf name ops) (outputsOf name (wrapMachine.trace .init ops)) := by
  induction ops using List.reverseRecOn with
  | nil => exact ⟨rfl, fun _ _ => rfl⟩
  | append_singleton ops op ih =>
    rw [List.forall_mem_append, List.forall_mem_singleton] at hk hf
    have ih := ih hk.1 hf.1
    have hknows := history hk.1 hf.1
    rw [Machine.trace_append, inputsOf_append, outputsOf_append]
    cases op with
    | cacheClear n => simpa [Machine.trace, inputsOf, outputsOf] using ih
    | run input n =>
      have hin : ∀ k u, input.get? k = some u → u.length = len n k := fun k u hu => hf.2.length_eq hu
      by_cases e : n = name
      · subst e
        obtain ⟨out, wn', hrun, -, hout⟩ := hknows.run hin
        simpa [Machine.trace, step_run hrun, inputsOf, outputsOf] using ih.concat hout
      · obtain ⟨out, wn', hrun, -⟩ := WrapNumbers.run_spec hknows.wf hin
        simpa [Machine.trace, step_run hrun, inputsOf, outputsOf, e] using ih

/-- The reading of a field in the `n`-th dictionary. -/
def readingAt (ds : List (Dict κ (List Int))) (key : κ) (i n : Nat) : Option Int := ds[n]?.bind (readingOf · key i)

theorem readingAt_of_present {ds : List (Dict κ (List Int))} {n : Nat} {key : κ} (h : PresentAt ds n key) (i : Nat) :
    readingAt ds key i n = some (field ds n key i) := by
  obtain ⟨u, hu⟩ := Option.isSome_iff_exists.1 h
  obtain ⟨d, hd, hget⟩ := Option.bind_eq_some_iff.1 hu
  simp [readingAt, readingOf, field, tupleAt, hd, hget]

theorem readingAt_of_absent {ds : List (Dict κ (List Int))} {n : Nat} {key : κ} (h : ¬PresentAt ds n key) (i : Nat) :
    readingAt ds key i n = none := by
  have hnone : tupleAt ds n key = none := Option.not_isSome_iff_eq_none.1 h
  cases hd : ds[n]? with
  | none => simp [readingAt, hd]
  | some d => simpa [readingAt, readingOf, hd, tupleAt] using hnone

theorem lt_length_of_present {ds : List (Dict κ (List Int))} {n : Nat} {key : κ} (h : PresentAt ds n key) :
    n < ds.length := by
  by_contra hn
  simp [PresentAt, tupleAt, List.getElem?_eq_none (not_lt.1 hn)] at h

theorem map_take_eq_range (ds : List (Dict κ (List Int))) (key : κ) (i : Nat) {n : Nat} (hn : n ≤ ds.length) :
    (ds.take n).map (readingOf · key i) = ((List.range n).map (readingAt ds key i)) := by
  apply List.ext_getElem (by simp [hn])
  intro j hj _
  have hj : j < ds.length := by simp at hj; omega
  simp [readingAt, hj]

/-- The readings of a field since its key last appeared, up to the `n`-th dictionary. -/
def sinceAppearance (ds : List (Dict κ (List Int))) (key : κ) (i n : Nat) : List Int :=
  stretch ((List.range (n + 1)).map (readingAt ds key i))

/-- A field of a result is the raw field plus the drops since its key last appeared. -/
theorem Unwrapped.field_eq {ins outs : List (Dict κ (List Int))} (h : Unwrapped ins outs) {n : Nat} {key : κ}
    (hp : PresentAt ins n key) {i : Nat} (hi : ∀ u, tupleAt ins n key = some u → i < u.length) :
    field outs n key i = field ins n key i + drops (sinceAppearance ins key i n) := by
  obtain ⟨u, hu⟩ := Option.isSome_iff_exists.1 hp
  have hn := lt_length_of_present hp
  have hlen := hi u hu
  rw [sinceAppearance, ← map_take_eq_range ins key i (Nat.succ_le_of_lt hn)]
  simp [field, h.tuple, hu, unwrapTuple, hlen]

theorem Unwrapped.tuple_length {ins outs : List (Dict κ (List Int))} (h : Unwrapped ins outs) (n : Nat) (key : κ) :
    (tupleAt outs n key).map List.length = (tupleAt ins n key).map List.length := by
  rw [h.tuple]
  cases tupleAt ins n key <;> simp [unwrapTuple]

theorem sinceAppearance_succ {ds : List (Dict κ (List Int))} {n : Nat} {key : κ} (h : PresentAt ds (n + 1) key)
    (i : Nat) : sinceAppearance ds key i (n + 1) = sinceAppearance ds key i n ++ [field ds (n + 1) key i] := by
  rw [sinceAppearance, List.range_succ, List.map_append, List.map_singleton, readingAt_of_present h,
    stretch_append_some]
  rfl

theorem sinceAppearance_eq {ds : List (Dict κ (List Int))} {m n : Nat} {key : κ} (hmn : m ≤ n)
    (hm : AppearsAt ds m key) (h : ∀ j, m ≤ j → j ≤ n → PresentAt ds j key) (i : Nat) :
    sinceAppearance ds key i n = (List.range' m (n - m + 1)).map (field ds · key i) :=
  stretch_range hmn (hm.2.imp_right fun hno => readingAt_of_absent hno i)
    fun j h₁ h₂ => readingAt_of_present (h j h₁ h₂) i

theorem sinceAppearance_of_appears {ds : List (Dict κ (List Int))} {n : Nat} {key : κ} (h : AppearsAt ds n key)
    (i : Nat) : sinceAppearance ds key i n = [field ds n key i] := by
  have hone := sinceAppearance_eq le_rfl h (fun j h₁ h₂ => le_antisymm h₂ h₁ ▸ h.1) i
  simpa using hone

/-- Every integer of every dictionary is non-negative. -/
def NonNeg (ds : List (Dict κ (List Int))) : Prop := ∀ d ∈ ds, ∀ p ∈ d.items, ∀ x ∈ p.2, 0 ≤ x

instance (ds : List (Dict κ (List Int))) : Decidable (NonNeg ds) :=
  inferInstanceAs (Decidable (∀ d ∈ ds, ∀ p ∈ d.items, ∀ x ∈ p.2, 0 ≤ x))

theorem field_nonneg {ds : List (Dict κ (List Int))} (h : NonNeg ds) (n : Nat) (key : κ) (i : Nat) :
    0 ≤ field ds n key i := by
  unfold field
  cases hu : tupleAt ds n key with
  | none => simp
  | some u =>
    obtain ⟨d, hd, hget⟩ := Option.bind_eq_some_iff.1 hu
    rw [Option.getD_some, List.getD_eq_getElem?_getD]
    cases hx : u[i]? with
    | none => simp
    | some x => exact h d (List.mem_of_getElem? hd) (key, u) (Dict.mem_items.2 hget) x (List.mem_of_getElem? hx)

/-- A tuple of an input has the length fixed for its key. -/
theorem length_tupleAt {len : String → κ → Nat} {name : String} {ops : List (WrapOp κ)} (hf : ∀ op ∈ ops, op.Fits len)
    {n : Nat} {key : κ} {u : List Int} (hu : tupleAt (inputsOf name ops) n key = some u) :
    u.length = len name key := by
  obtain ⟨d, hd, hget⟩ := Option.bind_eq_some_iff.1 hu
  obtain ⟨op, hop, hsome⟩ := List.mem_filterMap.1 (List.mem_of_getElem? hd)
  cases op with
  | cacheClear n => cases hsome
  | run input n =>
    obtain ⟨rfl, rfl⟩ : n = name ∧ input = d := by simpa using hsome
    exact (hf _ hop).length_eq hget

/-- While the key stays, the drops between two calls are added once more. -/
theorem Unwrapped.le_succ {ins outs : List (Dict κ (List Int))} (h : Unwrapped ins outs) (hnn : NonNeg ins)
    {n : Nat} {key : κ} (hp : PresentAt ins n key) (hp' : PresentAt ins (n + 1) key) {i : Nat}
    (hi : ∀ j u, tupleAt ins j key = some u → i < u.length) : field outs n key i ≤ field outs (n + 1) key i := by
  rw [h.field_eq hp (hi n), h.field_eq hp' (hi (n + 1)), sinceAppearance_succ hp' i]
  obtain ⟨xs, hxs⟩ : ∃ xs, sinceAppearance ins key i n = xs ++ [field ins n key i] := by
    rw [sinceAppearance, List.range_succ, List.map_append, List.map_singleton, readingAt_of_present hp,
      stretch_append_some]
    exact ⟨_, rfl⟩
  rw [hxs, List.append_assoc, List.singleton_append]
  exact last_add_drops_le_succ xs _ (field_nonneg hnn (n + 1) key i)

/-- The results `outs` are the inputs `ins` with every counter unwrapped; `len` is the number of fields. -/
structure UnwrapsTo (len : κ → Nat) (ins outs : List (Dict κ (List Int))) : Prop where
  length_eq : outs.length = ins.length
  shape : ∀ n key, (tupleAt outs n key).map List.length = (tupleAt ins n key).map List.length
  /-- A key absent from the previous input comes back raw. -/
  raw : ∀ n key, AppearsAt ins n key → tupleAt outs n key = tupleAt ins n key
  /-- A key present since input `m` comes back with the readings it fell from added. -/
  unwrapped : ∀ m n key i, m ≤ n → AppearsAt ins m key → (∀ j, m ≤ j → j ≤ n → PresentAt ins j key) → i < len key →
    field outs n key i = field ins n key i +
      ∑ j ∈ Finset.Ioc m n, if field ins j key i < field ins (j - 1) key i then field ins (j - 1) key i else 0
  mono : ∀ n key i, PresentAt ins n key → PresentAt ins (n + 1) key → i < len key →
    field outs n key i ≤ field outs (n + 1) key i

/-- **`wrap_numbers` computes the unwrapped counter**: no call of a history raises, and the results
for a name are its inputs unwrapped, whatever is done with the other names in between. -/
theorem wrap_numbers_unwraps {len : String → κ → Nat} {name : String} {ops : List (WrapOp κ)} (hk : ∀ op ∈ ops, op.Keeps name)
    (hf : ∀ op ∈ ops, op.Fits len) (hnn : NonNeg (inputsOf name ops)) :
    (∀ l ∈ wrapMachine.trace .init ops, ∃ o, l.out = .ok o) ∧
      UnwrapsTo (len name) (inputsOf name ops) (outputsOf name (wrapMachine.trace .init ops)) := by
  have hout := history_outputs hk hf
  have hlen : ∀ {key i}, i < len name key → ∀ j u, tupleAt (inputsOf name ops) j key = some u → i < u.length :=
    fun hi j u hu => length_tupleAt hf hu ▸ hi
  refine ⟨?_, hout.length_eq, hout.tuple_length, ?_, ?_, fun n key i hp hp' hi => hout.le_succ hnn hp hp' (hlen hi)⟩
  · intro l hl
    obtain ⟨es₁, es₂, rfl, hpre, hl⟩ := Machine.mem_trace _ |>.1 hl
    rw [List.forall_mem_append, List.forall_mem_cons] at hk hf
    rw [hl, hpre]
    exact ((history hk.1 hf.1).step hk.2.1 hf.2.1).2
  · intro n key ha
    rw [hout.tuple]
    refine (Option.map_congr fun u hu => ?_).trans Option.map_id'
    rw [unwrapTuple]
    apply mapIdx_eq_self
    intro i x
    rw [map_take_eq_range _ _ _ (Nat.succ_le_of_lt (lt_length_of_present ha.1))]
    have hone := sinceAppearance_of_appears ha i
    rw [sinceAppearance] at hone
    simp [hone]
  · intro m n key i hmn hm hp hi
    rw [hout.field_eq (hp n hmn le_rfl) (hlen hi n), sinceAppearance_eq hmn hm hp, drops_range',
      Nat.add_sub_cancel' hmn]

/-- `disk1` wraps, goes away and comes back, while another function uses the same object. -/
theorem wrap_numbers_unwraps_test_wrap :
    let ops : List (WrapOp String) := [.run (Dict.update ∅ [("disk1", [100])]) "disk", .cacheClear (some "net"),
      .run (Dict.update ∅ [("disk1", [10])]) "disk", .run (Dict.update ∅ [("eth0", [7])]) "net",
      .run ∅ "disk", .run (Dict.update ∅ [("disk1", [8])]) "disk"]
    (∀ l ∈ wrapMachine.trace .init ops, ∃ o, l.out = .ok o) ∧
      UnwrapsTo (fun _ => 1) (inputsOf "disk" ops) (outputsOf "disk" (wrapMachine.trace .init ops)) := by
  exact @wrap_numbers_unwraps String _ (fun _ _ => 1) "disk" _ (by decide) (by decide) (by decide)

end Psutil
