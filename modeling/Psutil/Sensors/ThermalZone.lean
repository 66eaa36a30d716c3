import Mathlib.Algebra.Order.Ring.Rat
import Mathlib.Data.List.DropRight
import Mathlib.Tactic.NormNum
import Psutil.Lib.Group
import Psutil.Linux.Text

/-!
# `sensors_temperatures` on Linux (`_pslinux.py:1274-1397`)

| here | there |
| --- | --- |
| `hwmonNames`, `hwmonEntry` | the first loop, over `/sys/class/hwmon` |
| `zones`, `zoneEntry` | the second one, over `/sys/class/thermal`, when the first has found nothing |
| `tripStep` | the loop over the trip points of a zone |
| `ownTemperatures` | what the second loop is to return: every temperature divided by 1000 once |

The two variables of a zone are divided at the end of every round of `tripStep`, and not only in the round that reads them.
`sensorsTemperatures_own_iff`: that makes no difference exactly for a trip point that comes last, or has temperature 0.
-/

namespace Psutil

open Lib Bytes

/-! ## Paths -/

/-- `os.path.dirname(p)`. -/
def Bytes.dirname (p : Bytes) : Bytes :=
  let head := p.take (p.rfind (byte '/') + 1).toNat
  if head.all (· = byte '/') then head else head.rdropWhile (· = byte '/')

/-- `os.path.basename(p)`. -/
def Bytes.basename (p : Bytes) : Bytes := p.drop (p.rfind (byte '/') + 1).toNat

/-- `os.path.join(a, b)`. -/
def joinPath (a b : Bytes) : Bytes :=
  if b.startsWith (ascii "/") then b else if a = [] || a.endsWith (ascii "/") then a ++ b else a ++ ascii "/" ++ b

example : (ascii "/sys/class/hwmon/hwmon0/temp1").dirname = ascii "/sys/class/hwmon/hwmon0" := by decide

/-- `sorted(set(l))` of paths. -/
def sortedPaths (l : List Bytes) : List Bytes := l.eraseDups.mergeSort (· ≤ ·)

/-! ## The code -/

/-- `/sys` in one call, with ASCII texts. -/
structure Sysfs where
  /-- What `glob.glob` returns, in its order. -/
  glob : Bytes → List Bytes
  /-- The content of a file; `none` is an `OSError`. -/
  read : Bytes → Option Bytes
  /-- A set, in the order of its iteration. -/
  listSet : List Bytes → List Bytes
  nodup_listSet : ∀ l, (listSet l).Nodup
  mem_listSet : ∀ l x, x ∈ listSet l ↔ x ∈ l

structure ShwTemp where
  label : Bytes
  current : Option ℚ
  high : Option ℚ
  critical : Option ℚ
  deriving DecidableEq

/-- `float(data) / 1000.0`; `none` is a `ValueError`. -/
def celsius (data : Bytes) : Option ℚ := (float data).toOption.map (· / 1000)

namespace Sysfs

variable (fs : Sysfs)

/-- `float(bcat(path)) / 1000.0`, with `none` for both exceptions. -/
def temp (path : Bytes) : Option ℚ := (fs.read path).bind celsius

def hwmonNames : List Bytes :=
  let basenames := fs.glob (ascii "/sys/class/hwmon/hwmon*/temp*_*") ++ fs.glob (ascii "/sys/class/hwmon/hwmon*/device/temp*_*")
  let basenames := sortedPaths (basenames.map fun x => (x.splitOn (byte '_')).headD [])
  let repl := lit "/sys/devices/platform/coretemp" ++ dotStar :: lit "/hwmon/"
  (fs.glob (ascii "/sys/devices/platform/coretemp.*/hwmon/hwmon*/temp*_*")).foldl (fun basenames name =>
    if repl.sub (ascii "/sys/class/hwmon/") name ∈ basenames then basenames else basenames ++ [name]) basenames

def hwmonEntry (base : Bytes) : Option (Bytes × ShwTemp) := do
  let current ← fs.temp (base ++ ascii "_input")
  let unitName ← fs.read (joinPath base.dirname (ascii "name"))
  let high := fs.temp (base ++ ascii "_max")
  let critical := fs.temp (base ++ ascii "_crit")
  let label := strip ((fs.read (base ++ ascii "_label")).getD [])
  return (strip unitName, ⟨label, some current, high, critical⟩)

def zones : List Bytes := sortedPaths (fs.glob (ascii "/sys/class/thermal/thermal_zone*"))

/-- The names in the set of the trip points. -/
def tripNames (base : Bytes) : List Bytes :=
  (fs.glob (base ++ ascii "/trip_point*")).map fun p => [byte '_'].intercalate ((p.basename.splitOn (byte '_')).take 3)

def tripType (base tripPoint : Bytes) : Bytes := strip ((fs.read (joinPath base (tripPoint ++ ascii "_type"))).getD [])

/-- What a variable of the loop holds: the bytes of a file, or a number. -/
abbrev TripValue := Option (Bytes ⊕ ℚ)

/-- `float(x) / 1000.0`, if there is something. -/
def scale : TripValue → Option ℚ
  | none => none
  | some (.inl data) => celsius data
  | some (.inr x) => some (x / 1000)

/-- One round, with `critical` and `high` from the rounds before. -/
def tripStep (base : Bytes) (acc : Option ℚ × Option ℚ) (tripPoint : Bytes) : Option ℚ × Option ℚ :=
  let temp : TripValue := (fs.read (joinPath base (tripPoint ++ ascii "_temp"))).map Sum.inl
  let critical : TripValue := if fs.tripType base tripPoint = ascii "critical" then temp else acc.1.map Sum.inr
  let high : TripValue :=
    if fs.tripType base tripPoint = ascii "critical" then acc.2.map Sum.inr
    else if fs.tripType base tripPoint = ascii "high" then temp else acc.2.map Sum.inr
  (scale critical, scale high)

def zoneEntry (base : Bytes) : Option (Bytes × ShwTemp) := do
  let current ← fs.temp (joinPath base (ascii "temp"))
  let unitName ← fs.read (joinPath base (ascii "type"))
  let (critical, high) := (fs.listSet (fs.tripNames base)).foldl (fs.tripStep base) (none, none)
  return (strip unitName, ⟨[], some current, high, critical⟩)

def sensorsTemperatures : Dict Bytes (List ShwTemp) :=
  let basenames := fs.hwmonNames
  collect (basenames.filterMap fs.hwmonEntry ++ if basenames = [] then fs.zones.filterMap fs.zoneEntry else [])

/-! ## What is to be returned -/

/-- The temperature of the trip point of a type. -/
def tripTemp (base kind : Bytes) : Option ℚ :=
  ((fs.tripNames base).find? fun t => fs.tripType base t = kind).bind fun t => fs.temp (joinPath base (t ++ ascii "_temp"))

def ownEntry (base : Bytes) : Option (Bytes × ShwTemp) := do
  let current ← fs.temp (joinPath base (ascii "temp"))
  let unitName ← fs.read (joinPath base (ascii "type"))
  return (strip unitName, ⟨[], some current, fs.tripTemp base (ascii "high"), fs.tripTemp base (ascii "critical")⟩)

def ownTemperatures : Dict Bytes (List ShwTemp) := collect (fs.zones.filterMap fs.ownEntry)

/-- At most one trip point of a type, and its temperature is an integer. -/
structure KindOk (base kind : Bytes) : Prop where
  unique : ∀ t ∈ fs.tripNames base, ∀ t' ∈ fs.tripNames base, fs.tripType base t = kind → fs.tripType base t' = kind → t = t'
  number : ∀ t ∈ fs.tripNames base, fs.tripType base t = kind → ∃ data z, fs.read (joinPath base (t ++ ascii "_temp")) = some data ∧
    int data = .ok z

/-- The trip point of a type comes last, or its temperature is 0. -/
def LastOrZero (base kind : Bytes) : Prop := ∀ t ∈ fs.tripNames base, fs.tripType base t = kind →
  (fs.listSet (fs.tripNames base)).getLast? = some t ∨ fs.temp (joinPath base (t ++ ascii "_temp")) = some 0

/-! ## The loop over the trip points -/

/-- What a round makes of one of the two variables. -/
def kindStep (base kind : Bytes) (x : Option ℚ) (tripPoint : Bytes) : Option ℚ :=
  if fs.tripType base tripPoint = kind then fs.temp (joinPath base (tripPoint ++ ascii "_temp")) else x.map (· / 1000)

theorem scale_map_inl (data : Option Bytes) : scale (data.map Sum.inl) = data.bind celsius := by
  cases data <;> rfl

theorem scale_map_inr (x : Option ℚ) : scale (x.map Sum.inr) = x.map (· / 1000) := by
  cases x <;> rfl

/-- The variables do not touch each other. -/
theorem tripStep_eq (base : Bytes) (acc : Option ℚ × Option ℚ) (t : Bytes) :
    fs.tripStep base acc t = (fs.kindStep base (ascii "critical") acc.1 t, fs.kindStep base (ascii "high") acc.2 t) := by
  have hne : ascii "critical" ≠ ascii "high" := by decide
  simp only [tripStep, kindStep]
  by_cases hcritical : fs.tripType base t = ascii "critical"
  · simp [hcritical, hne, scale_map_inl, scale_map_inr, temp]
  by_cases hhigh : fs.tripType base t = ascii "high"
  · simp [hhigh, hne.symm, scale_map_inl, scale_map_inr, temp]
  · simp [hcritical, hhigh, scale_map_inr]

theorem foldl_tripStep (base : Bytes) : ∀ (points : List Bytes) (acc : Option ℚ × Option ℚ), points.foldl (fs.tripStep base) acc =
    (points.foldl (fs.kindStep base (ascii "critical")) acc.1, points.foldl (fs.kindStep base (ascii "high")) acc.2)
  | [], _ => rfl
  | t :: points, acc => by
    rw [List.foldl_cons, foldl_tripStep base points, tripStep_eq]
    rfl

/-- Every round divides. -/
theorem foldl_kindStep_other {base kind : Bytes} : ∀ {points : List Bytes}, (∀ t ∈ points, fs.tripType base t ≠ kind) → ∀ x : Option ℚ,
    points.foldl (fs.kindStep base kind) x = x.map (· / 1000 ^ points.length)
  | [], _, x => by simp
  | t :: points, h, x => by
    have ht := h t List.mem_cons_self
    rw [List.foldl_cons, foldl_kindStep_other fun t' ht' => h t' (List.mem_cons_of_mem t ht'), kindStep, if_neg ht, List.length_cons,
      Option.map_map]
    refine congrFun (congrArg _ (funext fun q => ?_)) x
    rw [Function.comp_apply, div_div, pow_succ']

/-- The trip point of the type counts, and the number of those after it. -/
theorem foldl_kindStep {base kind t : Bytes} {earlier later : List Bytes} (ht : fs.tripType base t = kind)
    (hlater : ∀ t' ∈ later, fs.tripType base t' ≠ kind) (x : Option ℚ) : (earlier ++ t :: later).foldl (fs.kindStep base kind) x =
      (fs.temp (joinPath base (t ++ ascii "_temp"))).map (· / 1000 ^ later.length) := by
  rw [List.foldl_append, List.foldl_cons, fs.foldl_kindStep_other hlater, kindStep, if_pos ht]

theorem div_pow_eq_self_iff {q : ℚ} {n : Nat} : q / 1000 ^ n = q ↔ n = 0 ∨ q = 0 := by
  have hpow : (1000 : ℚ) ^ n ≠ 0 := pow_ne_zero n (by norm_num)
  have hone : (1000 : ℚ) ^ n = 1 ↔ n = 0 := by
    constructor
    · intro h
      by_contra hn
      exact absurd h (one_lt_pow₀ (by norm_num) hn).ne'
    · rintro rfl
      exact pow_zero _
  rw [div_eq_iff hpow, eq_comm, mul_right_eq_self₀, hone]

theorem getLast?_eq_some_iff {t : Bytes} {earlier later : List Bytes} (h : (earlier ++ t :: later).Nodup) :
    (earlier ++ t :: later).getLast? = some t ↔ later.length = 0 := by
  rw [List.length_eq_zero_iff]
  constructor
  · intro hlast
    by_contra hne
    rw [List.getLast?_append_of_ne_nil _ (List.cons_ne_nil t later), List.getLast?_cons, Option.some.injEq,
      List.getLast?_eq_some_getLast hne, Option.getD_some] at hlast
    exact (List.nodup_cons.1 (List.nodup_append.1 h).2.1).1 (hlast ▸ List.getLast_mem hne)
  · rintro rfl
    simp

/-- A type with a trip point has its temperature. -/
theorem tripTemp_of_mem {base kind t : Bytes} (h : fs.KindOk base kind) (ht : t ∈ fs.tripNames base) (htype : fs.tripType base t = kind) :
    fs.tripTemp base kind = fs.temp (joinPath base (t ++ ascii "_temp")) := by
  rw [tripTemp]
  cases hfind : (fs.tripNames base).find? fun t => fs.tripType base t = kind with
  | none => exact absurd htype (by simpa using List.find?_eq_none.1 hfind t ht)
  | some t' =>
    have htype' : fs.tripType base t' = kind := by simpa using List.find?_some hfind
    rw [h.unique t ht t' (List.mem_of_find?_eq_some hfind) htype htype']
    rfl

/-- The variable is right at the end. -/
theorem foldl_kindStep_iff {base kind : Bytes} (h : fs.KindOk base kind) :
    (fs.listSet (fs.tripNames base)).foldl (fs.kindStep base kind) none = fs.tripTemp base kind ↔ fs.LastOrZero base kind := by
  by_cases hkind : ∃ t ∈ fs.tripNames base, fs.tripType base t = kind
  · obtain ⟨t, ht, htype⟩ := hkind
    obtain ⟨data, z, hread, hint⟩ := h.number t ht htype
    have htemp : fs.temp (joinPath base (t ++ ascii "_temp")) = some ((z : ℚ) / 1000) := by
      rw [temp, hread, Option.bind_some, celsius, float, hint]
      rfl
    obtain ⟨earlier, later, hsplit⟩ := List.append_of_mem ((fs.mem_listSet (fs.tripNames base) t).2 ht)
    have hnodup := fs.nodup_listSet (fs.tripNames base)
    rw [hsplit] at hnodup
    have hlater : ∀ t' ∈ later, fs.tripType base t' ≠ kind := by
      intro t' ht' htype'
      have hmem : t' ∈ fs.tripNames base := (fs.mem_listSet _ _).1 (by rw [hsplit]; simp [ht'])
      rw [h.unique t' hmem t ht htype' htype] at ht'
      exact (List.nodup_cons.1 (List.nodup_append.1 hnodup).2.1).1 ht'
    have honly : fs.LastOrZero base kind ↔ later.length = 0 ∨ (z : ℚ) / 1000 = 0 := by
      have hzero : fs.temp (joinPath base (t ++ ascii "_temp")) = some 0 ↔ (z : ℚ) / 1000 = 0 := by rw [htemp, Option.some.injEq]
      rw [← getLast?_eq_some_iff hnodup, ← hsplit, ← hzero]
      constructor
      · exact fun hlast => hlast t ht htype
      · intro hlast t' ht' htype'
        rwa [h.unique t' ht' t ht htype' htype]
    rw [honly, hsplit, fs.foldl_kindStep htype hlater, fs.tripTemp_of_mem h ht htype, htemp, Option.map_some, Option.some.injEq,
      div_pow_eq_self_iff]
  · push Not at hkind
    have hother : ∀ t ∈ fs.listSet (fs.tripNames base), fs.tripType base t ≠ kind := fun t ht => hkind t ((fs.mem_listSet _ _).1 ht)
    have hnone : fs.tripTemp base kind = none := by
      rw [tripTemp, List.find?_eq_none.2 fun t ht => by simpa using hkind t ht]
      rfl
    rw [fs.foldl_kindStep_other hother, hnone, Option.map_none]
    exact iff_of_true rfl fun t ht htype => absurd htype (hkind t ht)

/-! ## All zones -/

/-- The zone has an entry. -/
def Reported (base : Bytes) : Prop :=
  (fs.temp (joinPath base (ascii "temp"))).isSome = true ∧ (fs.read (joinPath base (ascii "type"))).isSome = true

theorem zoneEntry_eq_iff {base : Bytes} (hcritical : fs.KindOk base (ascii "critical")) (hhigh : fs.KindOk base (ascii "high")) :
    fs.zoneEntry base = fs.ownEntry base ↔
      (fs.Reported base → fs.LastOrZero base (ascii "critical") ∧ fs.LastOrZero base (ascii "high")) := by
  rw [← fs.foldl_kindStep_iff hcritical, ← fs.foldl_kindStep_iff hhigh, Reported, zoneEntry, ownEntry, foldl_tripStep]
  cases fs.temp (joinPath base (ascii "temp")) with
  | none => simp
  | some current =>
    cases fs.read (joinPath base (ascii "type")) with
    | none => simp
    | some unitName =>
      rw [forall_prop_of_true ⟨rfl, rfl⟩, and_comm]
      simp

theorem map_fst_zoneEntry (base : Bytes) : (fs.zoneEntry base).map Prod.fst = (fs.ownEntry base).map Prod.fst := by
  rw [zoneEntry, ownEntry]
  cases fs.temp (joinPath base (ascii "temp")) with
  | none => rfl
  | some current => cases fs.read (joinPath base (ascii "type")) <;> rfl

/-- Entries that come for the same items are the same for each of them, or the lists differ. -/
theorem filterMap_eq_iff {α κ ν : Type} {f g : α → Option (κ × ν)} (h : ∀ a, (f a).map Prod.fst = (g a).map Prod.fst) :
    ∀ {l : List α}, l.filterMap f = l.filterMap g ↔ ∀ a ∈ l, f a = g a
  | [] => by simp
  | a :: l => by
    have ih := filterMap_eq_iff h (l := l)
    have ha := h a
    rw [List.filterMap_cons, List.filterMap_cons, List.forall_mem_cons, ← ih]
    cases hf : f a with
    | none =>
      cases hg : g a with
      | none => simp
      | some q => simp [hf, hg] at ha
    | some p =>
      cases hg : g a with
      | none => simp [hf, hg] at ha
      | some q => simp

/-- Nothing is lost in the dictionary. -/
theorem sensorsTemperatures_eq_iff (hhwmon : fs.hwmonNames = []) :
    fs.sensorsTemperatures = fs.ownTemperatures ↔ ∀ base ∈ fs.zones, fs.zoneEntry base = fs.ownEntry base := by
  have hkeys : (fs.zones.filterMap fs.zoneEntry).map Prod.fst = (fs.zones.filterMap fs.ownEntry).map Prod.fst := by
    rw [List.map_filterMap, List.map_filterMap]
    exact List.filterMap_congr fun base _ => fs.map_fst_zoneEntry base
  have hcollect : fs.sensorsTemperatures = collect (fs.zones.filterMap fs.zoneEntry) := by
    rw [sensorsTemperatures, hhwmon]
    rfl
  rw [← filterMap_eq_iff fs.map_fst_zoneEntry, hcollect, ownTemperatures]
  exact ⟨collect_inj hkeys, fun h => by rw [h]⟩

/-- **The zones are reported with their own temperatures exactly when**, for every zone that is reported, the trip point of
`critical` is the last one of the set in its order, or has temperature 0, and so is that of `high`. -/
theorem sensorsTemperatures_own_iff (hhwmon : fs.hwmonNames = [])
    (hkind : ∀ base ∈ fs.zones, fs.KindOk base (ascii "critical") ∧ fs.KindOk base (ascii "high")) :
    fs.sensorsTemperatures = fs.ownTemperatures ↔ ∀ base ∈ fs.zones, fs.Reported base →
      fs.LastOrZero base (ascii "critical") ∧ fs.LastOrZero base (ascii "high") := by
  rw [fs.sensorsTemperatures_eq_iff hhwmon]
  exact forall_congr' fun base => forall_congr' fun hbase => fs.zoneEntry_eq_iff (hkind base hbase).1 (hkind base hbase).2

end Sysfs

/-- A machine with the files of one zone. -/
def oneZone (files : List (String × String)) : Sysfs where
  glob p :=
    if p = ascii "/sys/class/thermal/thermal_zone*" then [ascii "/z0"]
    else if p = ascii "/z0/trip_point*" then (files.map fun f => ascii f.1).filter (startsWith · (ascii "/z0/trip_point"))
    else []
  read p := (files.find? fun f => ascii f.1 = p).map fun f => ascii f.2
  listSet := List.dedup
  nodup_listSet := List.nodup_dedup
  mem_listSet _ _ := List.mem_dedup

theorem hwmonNames_oneZone (files : List (String × String)) : (oneZone files).hwmonNames = [] := by
  have hnone : ∀ p, p ≠ ascii "/sys/class/thermal/thermal_zone*" → p ≠ ascii "/z0/trip_point*" → (oneZone files).glob p = [] := by
    intro p hp hp'
    exact (if_neg hp).trans (if_neg hp')
  rw [Sysfs.hwmonNames, hnone _ (by decide) (by decide), hnone _ (by decide) (by decide), hnone _ (by decide) (by decide)]
  simp [sortedPaths]

theorem zones_oneZone (files : List (String × String)) : (oneZone files).zones = [ascii "/z0"] := by
  have hglob : (oneZone files).glob (ascii "/sys/class/thermal/thermal_zone*") = [ascii "/z0"] := by
    simp only [oneZone, if_true]
  rw [Sysfs.zones, hglob, sortedPaths, show [ascii "/z0"].eraseDups = [ascii "/z0"] from rfl, List.mergeSort_singleton]

theorem forall_zones_oneZone {files : List (String × String)} {P : Bytes → Prop} (h : P (ascii "/z0")) :
    ∀ base ∈ (oneZone files).zones, P base := by
  intro base hbase
  rw [zones_oneZone, List.mem_singleton] at hbase
  rwa [hbase]

/-- One trip point of a type, and no other. -/
theorem kindOk_oneZone {files : List (String × String)} {kind : Bytes} (t : Bytes)
    (hone : ∀ t' ∈ (oneZone files).tripNames (ascii "/z0"), (oneZone files).tripType (ascii "/z0") t' = kind → t' = t)
    (z : Int) (hz : ((oneZone files).read (joinPath (ascii "/z0") (t ++ ascii "_temp"))).map int = some (.ok z)) :
    (oneZone files).KindOk (ascii "/z0") kind where
  unique t₁ h₁ t₂ h₂ htype₁ htype₂ := (hone t₁ h₁ htype₁).trans (hone t₂ h₂ htype₂).symm
  number t' ht' htype := by
    obtain rfl := hone t' ht' htype
    obtain ⟨data, hdata, hint⟩ := Option.map_eq_some_iff.1 hz
    exact ⟨data, z, hdata, hint⟩

/-- A zone that is critical at 90 degrees, with a passive trip point behind. -/
def criticalFirst : Sysfs := oneZone [("/z0/temp", "30000\n"), ("/z0/type", "acpitz\n"), ("/z0/trip_point_0_type", "critical\n"),
  ("/z0/trip_point_0_temp", "90000\n"), ("/z0/trip_point_1_type", "passive\n"), ("/z0/trip_point_1_temp", "80000\n")]

/-- It is reported as critical at 0.09 degrees. -/
theorem sensorsTemperatures_scaled : ¬∀ fs : Sysfs, fs.hwmonNames = [] →
    (∀ base ∈ fs.zones, fs.KindOk base (ascii "critical") ∧ fs.KindOk base (ascii "high")) →
    fs.sensorsTemperatures = fs.ownTemperatures := by
  intro h
  have hkind : ∀ base ∈ criticalFirst.zones, criticalFirst.KindOk base (ascii "critical") ∧ criticalFirst.KindOk base (ascii "high") :=
    forall_zones_oneZone ⟨kindOk_oneZone (ascii "trip_point_0") (by decide) 90000 (by decide),
      kindOk_oneZone (ascii "trip_point_0") (by decide) 90000 (by decide)⟩
  have hown := h criticalFirst (hwmonNames_oneZone _) hkind
  have hzone : ascii "/z0" ∈ criticalFirst.zones := by
    rw [criticalFirst, zones_oneZone]
    exact List.mem_singleton_self _
  have hentry := (criticalFirst.sensorsTemperatures_eq_iff (hwmonNames_oneZone _)).1 hown _ hzone
  have hlast := (criticalFirst.zoneEntry_eq_iff (hkind _ hzone).1 (hkind _ hzone).2).1 hentry ⟨by decide, by decide⟩
  exact absurd (hlast.1 (ascii "trip_point_0") (by decide) (by decide)) (by decide +kernel)

/-- The same zone, with the critical trip point behind. -/
def criticalLast : Sysfs := oneZone [("/z0/temp", "30000\n"), ("/z0/type", "acpitz\n"), ("/z0/trip_point_0_type", "passive\n"),
  ("/z0/trip_point_0_temp", "80000\n"), ("/z0/trip_point_1_type", "critical\n"), ("/z0/trip_point_1_temp", "90000\n")]

theorem sensorsTemperatures_last : criticalLast.sensorsTemperatures = criticalLast.ownTemperatures := by
  have hkind : ∀ base ∈ criticalLast.zones, criticalLast.KindOk base (ascii "critical") ∧ criticalLast.KindOk base (ascii "high") :=
    forall_zones_oneZone ⟨kindOk_oneZone (ascii "trip_point_1") (by decide) 90000 (by decide),
      kindOk_oneZone (ascii "trip_point_1") (by decide) 90000 (by decide)⟩
  have hcritical : ∀ t ∈ criticalLast.tripNames (ascii "/z0"), criticalLast.tripType (ascii "/z0") t = ascii "critical" →
      (criticalLast.listSet (criticalLast.tripNames (ascii "/z0"))).getLast? = some t := by
    decide
  have hhigh : ∀ t ∈ criticalLast.tripNames (ascii "/z0"), criticalLast.tripType (ascii "/z0") t ≠ ascii "high" := by
    decide
  refine (criticalLast.sensorsTemperatures_own_iff (hwmonNames_oneZone _) hkind).2 (forall_zones_oneZone fun _ => ?_)
  exact ⟨fun t ht htype => Or.inl (hcritical t ht htype), fun t ht htype => absurd htype (hhigh t ht)⟩

end Psutil
