import Mathlib.Tactic.LinearCombination
import Psutil.Sensors.ThermalZone

/-!
# `sensors_temperatures` (`__init__.py:2617-2648`)

`convert`, `fillIn` and `sensorsTemperatures` are the body of the function, on the dictionary of any platform. A threshold that
is not shown is filled in from the other one after the conversion, and by truthiness: `fahrenheit_pointwise_iff` says for which
values that depends on the unit.
-/

namespace Psutil

open Lib

/-! ## The code -/

/-- `bool(x)`. -/
def truthy (x : Option ℚ) : Bool :=
  match x with
  | some q => q ≠ 0
  | none => false

def convert (fahrenheit : Bool) (n : Option ℚ) : Option ℚ := n.map fun n => if fahrenheit then n * 9 / 5 + 32 else n

/-- `high` and `critical`, with the one for the other. -/
def fillIn (high critical : Option ℚ) : Option ℚ × Option ℚ :=
  if truthy high && !truthy critical then (high, high)
  else if truthy critical && !truthy high then (critical, critical)
  else (high, critical)

/-- The body of the loop. -/
def shwTemp (fahrenheit : Bool) (value : ShwTemp) : ShwTemp :=
  let (high, critical) := fillIn (convert fahrenheit value.high) (convert fahrenheit value.critical)
  ⟨value.label, convert fahrenheit value.current, high, critical⟩

def sensorsTemperatures (fahrenheit : Bool) (rawdict : Dict Bytes (List ShwTemp)) : Dict Bytes (List ShwTemp) :=
  collect (rawdict.items.flatMap fun p => p.2.map fun value => (p.1, shwTemp fahrenheit value))

/-! ## What is to be returned -/

def ShwTemp.toFahrenheit (t : ShwTemp) : ShwTemp :=
  ⟨t.label, convert true t.current, convert true t.high, convert true t.critical⟩

/-- Both thresholds, or none. -/
def ShwTemp.Paired (t : ShwTemp) : Prop := t.high = none ↔ t.critical = none

/-- The unit makes a difference to the numbers, and to nothing else. -/
structure PointwiseFahrenheit (rawdict : Dict Bytes (List ShwTemp)) : Prop where
  converted : sensorsTemperatures true rawdict = (sensorsTemperatures false rawdict).mapVal fun _ ts => ts.map ShwTemp.toFahrenheit
  paired : ∀ fahrenheit, ∀ p ∈ (sensorsTemperatures fahrenheit rawdict).items, ∀ t ∈ p.2, t.Paired

/-- Neither the one nor the other threshold alone is 0 in one of the two units. -/
def ShwTemp.Unambiguous (t : ShwTemp) : Prop := ∀ x ∈ [(0 : ℚ), -160 / 9], t.high = some x ↔ t.critical = some x

/-! ## One entry -/

/-- The temperature in the other unit. -/
def fahrenheitOf (q : ℚ) : ℚ := q * 9 / 5 + 32

theorem fahrenheitOf_eq_zero {q : ℚ} : fahrenheitOf q = 0 ↔ q = -160 / 9 := by
  rw [fahrenheitOf]
  constructor <;> intro h
  · linear_combination (5 / 9) * h
  · linear_combination (9 / 5) * h

theorem fahrenheitOf_inj {q q' : ℚ} : fahrenheitOf q = fahrenheitOf q' ↔ q = q' := by
  rw [fahrenheitOf, fahrenheitOf]
  constructor <;> intro h
  · linear_combination (5 / 9) * h
  · rw [h]

theorem convert_true (n : Option ℚ) : convert true n = n.map fahrenheitOf := rfl

theorem convert_false (n : Option ℚ) : convert false n = n := by
  cases n <;> rfl

/-- The unit makes no difference to what is filled in, and both are there or none. -/
def FillsAlike (high critical : Option ℚ) : Prop :=
  fillIn (high.map fahrenheitOf) (critical.map fahrenheitOf) =
      ((fillIn high critical).1.map fahrenheitOf, (fillIn high critical).2.map fahrenheitOf) ∧
    ((fillIn high critical).1 = none ↔ (fillIn high critical).2 = none)

theorem fillIn_some_none (q : ℚ) : fillIn (some q) none = if q = 0 then (some q, none) else (some q, some q) := by
  by_cases hq : q = 0 <;> simp [fillIn, truthy, hq]

theorem fillIn_none_some (q : ℚ) : fillIn none (some q) = if q = 0 then (none, some q) else (some q, some q) := by
  by_cases hq : q = 0 <;> simp [fillIn, truthy, hq]

theorem fillIn_some_some (a b : ℚ) : fillIn (some a) (some b) =
    if a = 0 then (some b, some b) else if b = 0 then (some a, some a) else (some a, some b) := by
  by_cases ha : a = 0 <;> by_cases hb : b = 0 <;> simp [fillIn, truthy, ha, hb]

/-- Both are there in either unit, and only the numbers may differ. -/
theorem fillsAlike_both (a b : ℚ) : FillsAlike (some a) (some b) ↔ (a = 0 ↔ b = 0) ∧ (a = -160 / 9 ↔ b = -160 / 9) := by
  have hzero : (0 : ℚ) ≠ -160 / 9 := by norm_num
  have hboth : FillsAlike (some a) (some b) ↔ fillIn (some (fahrenheitOf a)) (some (fahrenheitOf b)) =
      ((fillIn (some a) (some b)).1.map fahrenheitOf, (fillIn (some a) (some b)).2.map fahrenheitOf) := by
    refine and_iff_left ?_
    rw [fillIn_some_some]
    split_ifs <;> simp
  rw [hboth, fillIn_some_some, fillIn_some_some]
  simp only [fahrenheitOf_eq_zero]
  by_cases ha : a = 0
  · subst ha
    by_cases hb : b = 0
    · simp [hb, hzero]
    · by_cases hb' : b = -160 / 9
      · simp [hb', hzero, fahrenheitOf_inj]
      · simp [hb, hb', hzero, fahrenheitOf_inj, Ne.symm hb]
  by_cases hb : b = 0
  · subst hb
    by_cases ha' : a = -160 / 9
    · simp [ha', hzero, fahrenheitOf_inj]
    · simp [ha, ha', hzero, fahrenheitOf_inj, Ne.symm ha]
  · by_cases ha' : a = -160 / 9
    · subst ha'
      simp [hb, fahrenheitOf_inj]
    · by_cases hb' : b = -160 / 9
      · simp [ha, ha', hb', fahrenheitOf_inj]
      · simp [ha, hb, ha', hb']

theorem fillsAlike_iff (high critical : Option ℚ) :
    FillsAlike high critical ↔ ∀ x ∈ [(0 : ℚ), -160 / 9], high = some x ↔ critical = some x := by
  cases high with
  | none =>
    cases critical with
    | none => simp [FillsAlike, fillIn, truthy]
    | some b =>
      by_cases hb : b = 0
      · simp [FillsAlike, fillIn_none_some, hb]
      · simp [FillsAlike, fillIn_none_some, hb, fahrenheitOf_eq_zero]
  | some a =>
    cases critical with
    | none =>
      by_cases ha : a = 0
      · simp [FillsAlike, fillIn_some_none, ha]
      · simp [FillsAlike, fillIn_some_none, ha, fahrenheitOf_eq_zero]
    | some b => simp [fillsAlike_both]

theorem shwTemp_true (t : ShwTemp) : shwTemp true t = ⟨t.label, t.current.map fahrenheitOf,
    (fillIn (t.high.map fahrenheitOf) (t.critical.map fahrenheitOf)).1, (fillIn (t.high.map fahrenheitOf) (t.critical.map fahrenheitOf)).2⟩ := rfl

theorem shwTemp_false (t : ShwTemp) : shwTemp false t = ⟨t.label, t.current, (fillIn t.high t.critical).1, (fillIn t.high t.critical).2⟩ := by
  simp only [shwTemp, convert_false]

/-- **One entry**: it is converted as a whole, and has both thresholds or none. -/
theorem entry_iff (t : ShwTemp) : (shwTemp true t = (shwTemp false t).toFahrenheit ∧ ∀ fahrenheit, (shwTemp fahrenheit t).Paired) ↔
    t.Unambiguous := by
  rw [ShwTemp.Unambiguous, ← fillsAlike_iff, FillsAlike, Bool.forall_bool, shwTemp_true, shwTemp_false, ShwTemp.toFahrenheit,
    convert_true, convert_true, convert_true, ShwTemp.mk.injEq, ShwTemp.Paired, ShwTemp.Paired, Prod.ext_iff]
  constructor
  · rintro ⟨⟨-, -, hhigh, hcritical⟩, hpaired, -⟩
    exact ⟨⟨hhigh, hcritical⟩, hpaired⟩
  · rintro ⟨⟨hhigh, hcritical⟩, hpaired⟩
    refine ⟨⟨rfl, rfl, hhigh, hcritical⟩, hpaired, ?_⟩
    change (fillIn _ _).1 = none ↔ (fillIn _ _).2 = none
    rw [hhigh, hcritical, Option.map_eq_none_iff, Option.map_eq_none_iff]
    exact hpaired

/-! ## The dictionary -/

/-- The sensors, each with the name of its list. -/
def flatSensors (rawdict : Dict Bytes (List ShwTemp)) : List (Bytes × ShwTemp) := rawdict.items.flatMap fun p => p.2.map fun t => (p.1, t)

theorem sensorsTemperatures_eq (fahrenheit : Bool) (rawdict : Dict Bytes (List ShwTemp)) :
    sensorsTemperatures fahrenheit rawdict = collect ((flatSensors rawdict).map fun p => (p.1, shwTemp fahrenheit p.2)) := by
  rw [sensorsTemperatures, flatSensors, List.map_flatMap]
  simp only [List.map_map, Function.comp_def]

theorem converted_iff (rawdict : Dict Bytes (List ShwTemp)) :
    sensorsTemperatures true rawdict = (sensorsTemperatures false rawdict).mapVal (fun _ ts => ts.map ShwTemp.toFahrenheit) ↔
      ∀ p ∈ flatSensors rawdict, shwTemp true p.2 = (shwTemp false p.2).toFahrenheit := by
  rw [sensorsTemperatures_eq, sensorsTemperatures_eq, mapVal_collect, List.map_map]
  constructor
  · intro h p hp
    have hlists := collect_inj (by rw [List.map_map, List.map_map]; rfl) h
    exact (Prod.mk.inj (List.map_inj_left.1 hlists p hp)).2
  · exact fun h => congrArg collect (List.map_congr_left fun p hp => congrArg (Prod.mk p.1) (h p hp))

/-- **Fahrenheit is a pointwise conversion exactly when** no threshold of an entry is 0 in one of the two units, or both thresholds of
the entry are. -/
theorem fahrenheit_pointwise_iff (rawdict : Dict Bytes (List ShwTemp)) :
    PointwiseFahrenheit rawdict ↔ ∀ p ∈ rawdict.items, ∀ t ∈ p.2, t.Unambiguous := by
  have hpaired : (∀ fahrenheit, ∀ p ∈ (sensorsTemperatures fahrenheit rawdict).items, ∀ t ∈ p.2, t.Paired) ↔
      ∀ p ∈ flatSensors rawdict, ∀ fahrenheit, (shwTemp fahrenheit p.2).Paired := by
    have hone : ∀ fahrenheit, (∀ p ∈ (sensorsTemperatures fahrenheit rawdict).items, ∀ t ∈ p.2, t.Paired) ↔
        ∀ p ∈ flatSensors rawdict, (shwTemp fahrenheit p.2).Paired := by
      intro fahrenheit
      rw [sensorsTemperatures_eq, forall_collect_iff, List.forall_mem_map]
    simp only [hone]
    exact ⟨fun h p hp fahrenheit => h fahrenheit p hp, fun h fahrenheit p hp => h p hp fahrenheit⟩
  have hflat : (∀ p ∈ rawdict.items, ∀ t ∈ p.2, t.Unambiguous) ↔ ∀ p ∈ flatSensors rawdict, p.2.Unambiguous := by
    rw [flatSensors, List.forall_mem_flatMap]
    refine forall_congr' fun p => forall_congr' fun _ => ?_
    rw [List.forall_mem_map]
  constructor
  · intro h
    rw [hflat]
    exact fun p hp => (entry_iff p.2).1 ⟨(converted_iff rawdict).1 h.converted p hp, hpaired.1 h.paired p hp⟩
  · intro h
    rw [hflat] at h
    exact ⟨(converted_iff rawdict).2 fun p hp => ((entry_iff p.2).2 (h p hp)).1, hpaired.2 fun p hp => ((entry_iff p.2).2 (h p hp)).2⟩

/-- A critical temperature of 0 degrees is replaced by the high one, and one of 32 degrees is not. -/
theorem fahrenheit_not_pointwise : ¬∀ rawdict : Dict Bytes (List ShwTemp), PointwiseFahrenheit rawdict := by
  intro h
  have hpointwise := h ⟨[(ascii "nvme", [⟨[], some 30, some 80, some 0⟩])], by decide⟩
  have hentry := (converted_iff _).1 hpointwise.converted _ List.mem_cons_self
  exact absurd hentry (by decide +kernel)

end Psutil
