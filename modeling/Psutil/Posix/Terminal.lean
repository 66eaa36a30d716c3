import Psutil.Exc
import Psutil.Lib.Dict
import Psutil.Lib.Run
import Psutil.Lib.Versions

/-!
# Terminals

| here | there |
| --- | --- |
| `Terminals.stepCall` | `_get_terminal_map` under `functools.lru_cache`, and `get_terminal` (`_psposix.py:343-369`) |

Devices come and go at any time, also while the map is made, and any number of threads ask. `lru_cache` calls the function outside its
lock: a map that another thread has stored meanwhile stays in the cache.
-/

namespace Psutil.Terminal

open Lib

/-- The directories that are listed. -/
inductive DevDir where
  | dev | pts
  deriving DecidableEq

/-- `/dev/name` or `/dev/pts/name`. -/
structure DevPath where
  dir : DevDir
  name : List Char
  deriving DecidableEq

/-- The nodes of the two directories, with their `st_rdev`. -/
abbrev Devices := List (DevPath × Nat)

/-- `glob.glob('/dev/tty*')` -/
def ttyGlob (p : DevPath) : Bool := p.dir = .dev && "tty".toList.isPrefixOf p.name

/-- `glob.glob('/dev/pts/*')`, which leaves out what begins with a dot. -/
def ptsGlob (p : DevPath) : Bool := p.dir = .pts && !".".toList.isPrefixOf p.name

def Devices.glob (devices : Devices) (pattern : DevPath → Bool) : List DevPath := (devices.map Prod.fst).filter pattern

/-- `os.stat(name).st_rdev`; `none` is `FileNotFoundError`. -/
def Devices.stat (devices : Devices) (p : DevPath) : Option Nat := devices.lookup p

/-- The next statement of `_get_terminal_map`. -/
inductive Scan where
  | globTty
  | globPts (ls : List DevPath)
  | stat (ls : List DevPath) (ret : Dict Nat DevPath)

/-- Which of its two lookups `get_terminal` is at. `clearedAt` and `alone` are ghosts: the version of the devices at the `cache_clear`,
and whether nobody was making a map then. -/
inductive Phase where
  | first
  | again (clearedAt : Nat) (alone : Bool)
  deriving DecidableEq

/-- The next thing a thread does. `since` is a ghost: the version when the map was begun. -/
inductive TermCall where
  | lookup (ttyNr : Nat) (phase : Phase)
  | scan (ttyNr : Nat) (phase : Phase) (since : Nat) (next : Scan)
  /-- The cache keeps the map, if it has none by now. -/
  | store (ttyNr : Nat) (phase : Phase) (since : Nat) (tmap : Dict Nat DevPath)
  /-- `if tty_nr in tmap`, with `cache_clear` if it is not, or the last `get`. -/
  | use (ttyNr : Nat) (phase : Phase) (since : Nat) (tmap : Dict Nat DevPath)

/-- `versions` and `scanners` are ghosts: what the devices have been, and the threads that are making a map. -/
structure Terminals where
  devices : Devices
  versions : List Devices
  cache : Option (Dict Nat DevPath × Nat)
  scanners : List Nat
  calls : Nat → Option TermCall

def Terminals.start (devices : Devices) : Terminals := ⟨devices, [devices], none, [], fun _ => none⟩

/-- The number of the version that the devices are in. -/
def Terminals.now (s : Terminals) : Nat := s.versions.length - 1

def Terminals.at (s : Terminals) (t : Nat) (c : Option TermCall) : Terminals := { s with calls := Function.update s.calls t c }

abbrev TermAnswer := Except Exc (Option DevPath)

/-- `fails`: `os.stat` fails, and not because there is no such file. -/
def Terminals.stepCall (s : Terminals) (t : Nat) (fails : Option Errno) : TermCall → Terminals × Option (Nat × TermAnswer)
  | .lookup ttyNr phase => match s.cache with
    | some (tmap, since) => (s.at t (some (.use ttyNr phase since tmap)), none)
    | none => ({ s.at t (some (.scan ttyNr phase s.now .globTty)) with scanners := t :: s.scanners }, none)
  | .scan ttyNr phase since .globTty => (s.at t (some (.scan ttyNr phase since (.globPts (s.devices.glob ttyGlob)))), none)
  | .scan ttyNr phase since (.globPts ls) => (s.at t (some (.scan ttyNr phase since (.stat (ls ++ s.devices.glob ptsGlob) ∅))), none)
  | .scan ttyNr phase since (.stat [] ret) => (s.at t (some (.store ttyNr phase since ret)), none)
  | .scan ttyNr phase since (.stat (name :: ls) ret) => match fails with
    | some errno => ({ s.at t none with scanners := s.scanners.filter (· ≠ t) }, some (t, .error (.osError errno)))
    | none => match s.devices.stat name with
      | some rdev => (s.at t (some (.scan ttyNr phase since (.stat ls (ret.set rdev name)))), none)
      | none => (s.at t (some (.scan ttyNr phase since (.stat ls ret))), none)
  | .store ttyNr phase since tmap =>
    ({ s.at t (some (.use ttyNr phase since tmap)) with
        cache := s.cache.or (some (tmap, since)), scanners := s.scanners.filter (· ≠ t) }, none)
  | .use ttyNr phase _ tmap => match tmap.get? ttyNr, phase with
    | some path, _ => (s.at t none, some (t, .ok (some path)))
    | none, .again _ _ => (s.at t none, some (t, .ok none))
    | none, .first => ({ s.at t (some (.lookup ttyNr (.again s.now s.scanners.isEmpty))) with cache := none }, none)

inductive TermEv where
  | call (t ttyNr : Nat)
  | step (t : Nat) (fails : Option Errno)
  /-- Devices come and go. -/
  | change (devices : Devices)

def termMachine : Machine Terminals TermEv (Option (Nat × TermAnswer)) where
  step s
    | .call t ttyNr => (if (s.calls t).isSome then s else s.at t (some (.lookup ttyNr .first)), none)
    | .step t fails => match s.calls t with
      | none => (s, none)
      | some c => s.stepCall t fails c
    | .change devices => ({ s with devices := devices, versions := s.versions ++ [devices] }, none)

/-! ## What a map says -/

/-- A device has had a number ever since a version. -/
def Lasting (versions : List Devices) (since ttyNr : Nat) (p : DevPath) : Prop := ∀ devices ∈ versions.drop since, devices.stat p = some ttyNr

/-- The numbers in a map are those of some moment since it was begun. -/
def Sound (versions : List Devices) (since : Nat) (tmap : Dict Nat DevPath) : Prop :=
  ∀ ttyNr p, tmap.get? ttyNr = some p → ∃ devices ∈ versions.drop since, devices.stat p = some ttyNr

/-- Every device that has been there since then is in the map, or still to be looked at. -/
def Complete (versions : List Devices) (since : Nat) (ls : List DevPath) (tmap : Dict Nat DevPath) : Prop :=
  ∀ ttyNr p, (ttyGlob p || ptsGlob p) = true → Lasting versions since ttyNr p → p ∈ ls ∨ ttyNr ∈ tmap

def Scan.Good (versions : List Devices) (since : Nat) : Scan → Prop
  | .globTty => True
  | .globPts ls => ∀ ttyNr p, ttyGlob p = true → Lasting versions since ttyNr p → p ∈ ls
  | .stat ls ret => Sound versions since ret ∧ Complete versions since ls ret

def TermCall.Good (versions : List Devices) : TermCall → Prop
  | .lookup _ _ => True
  | .scan _ _ since next => next.Good versions since
  | .store _ _ since tmap | .use _ _ since tmap => Sound versions since tmap ∧ Complete versions since [] tmap

/-- The map that a thread is making was begun in this version. -/
def TermCall.scanning : TermCall → Option Nat
  | .scan _ _ since _ | .store _ _ since _ => some since
  | .lookup _ _ | .use _ _ _ _ => none

def TermCall.phase : TermCall → Phase
  | .lookup _ phase | .scan _ phase _ _ | .store _ phase _ _ | .use _ phase _ _ => phase

/-- No map that can be found or is being made is older than a version. -/
structure Terminals.Newer (s : Terminals) (b : Nat) : Prop where
  cache : ∀ tmap since, s.cache = some (tmap, since) → b ≤ since
  scanning : ∀ t c since, s.calls t = some c → c.scanning = some since → b ≤ since

structure TermInv (s : Terminals) : Prop where
  current : s.versions.getLast? = some s.devices
  cache : ∀ tmap since, s.cache = some (tmap, since) → Sound s.versions since tmap ∧ Complete s.versions since [] tmap
  good : ∀ t c, s.calls t = some c → c.Good s.versions
  since : ∀ t c since, s.calls t = some c → c.scanning = some since → since < s.versions.length
  scanners : ∀ t c, s.calls t = some c → c.scanning.isSome = true → t ∈ s.scanners
  /-- After a `cache_clear` with nobody making a map, there are only newer maps. -/
  newer : ∀ t c b, s.calls t = some c → c.phase = .again b true → b ≤ s.now ∧ s.Newer b ∧
    ∀ ttyNr since tmap, c = .use ttyNr (.again b true) since tmap → b ≤ since

section

variable {s : Terminals} {t : Nat} {c : TermCall} {versions : List Devices} {since : Nat}

/-! ### Later versions -/

theorem Lasting.before {ttyNr : Nat} {p : DevPath} {d : Devices} (h : Lasting (versions ++ [d]) since ttyNr p) : Lasting versions since ttyNr p :=
  fun _ hd => h _ (Versions.mem_drop_append hd [d])

theorem Sound.later {tmap : Dict Nat DevPath} (h : Sound versions since tmap) (d : Devices) : Sound (versions ++ [d]) since tmap := by
  intro ttyNr p hp
  obtain ⟨devices, hdevices, hstat⟩ := h ttyNr p hp
  exact ⟨devices, Versions.mem_drop_append hdevices [d], hstat⟩

theorem Complete.later {ls : List DevPath} {tmap : Dict Nat DevPath} (h : Complete versions since ls tmap) (d : Devices) :
    Complete (versions ++ [d]) since ls tmap := fun ttyNr p hp hlasting => h ttyNr p hp hlasting.before

theorem TermCall.Good.later (h : c.Good versions) (d : Devices) : c.Good (versions ++ [d]) := by
  cases c with
  | lookup ttyNr phase => trivial
  | store ttyNr phase since tmap | use ttyNr phase since tmap => exact ⟨h.1.later d, h.2.later d⟩
  | scan ttyNr phase since next =>
    cases next with
    | globTty => trivial
    | globPts ls => exact fun ttyNr p hp hlasting => h ttyNr p hp hlasting.before
    | stat ls ret => exact ⟨h.1.later d, h.2.later d⟩

/-! ### The map as it is made -/

theorem Devices.mem_glob {devices : Devices} {p : DevPath} {ttyNr : Nat} {pattern : DevPath → Bool} (h : devices.stat p = some ttyNr)
    (hp : pattern p = true) : p ∈ devices.glob pattern := by
  refine List.mem_filter.2 ⟨?_, hp⟩
  by_contra hnot
  rw [Devices.stat, Dict.lookup_eq_none_iff'.2 hnot] at h
  cases h

theorem Sound.empty : Sound versions since ∅ := fun ttyNr p hp => by
  rw [Dict.get?_empty] at hp
  cases hp

theorem Sound.set {ret : Dict Nat DevPath} (h : Sound versions since ret) {devices : Devices} (hmem : devices ∈ versions.drop since)
    {name : DevPath} {rdev : Nat} (hstat : devices.stat name = some rdev) : Sound versions since (ret.set rdev name) := by
  intro ttyNr p hp
  rw [Dict.get?_set] at hp
  split_ifs at hp with heq
  · cases hp
    exact ⟨devices, hmem, heq ▸ hstat⟩
  · exact h ttyNr p hp

/-- `os.stat` of the first name that is left. -/
theorem Complete.stat {ls : List DevPath} {ret : Dict Nat DevPath} {name : DevPath} (h : Complete versions since (name :: ls) ret)
    {devices : Devices} (hmem : devices ∈ versions.drop since) :
    Complete versions since ls (match devices.stat name with
      | some rdev => ret.set rdev name
      | none => ret) := by
  intro ttyNr p hp hlasting
  have hstat := hlasting devices hmem
  rcases h ttyNr p hp hlasting with hls | hret
  · rcases List.mem_cons.1 hls with rfl | hls
    · rw [hstat]
      exact Or.inr (Dict.mem_set.2 (Or.inl rfl))
    · exact Or.inl hls
  · right
    cases devices.stat name with
    | none => exact hret
    | some rdev => exact Dict.mem_set.2 (Or.inr hret)

/-! ### The steps -/

@[simp] theorem Terminals.at_calls (c : Option TermCall) : (s.at t c).calls = Function.update s.calls t c := rfl
@[simp] theorem Terminals.at_versions (c : Option TermCall) : (s.at t c).versions = s.versions := rfl

/-- What a step may put into the cache, and what a thread may be scanning after it. -/
def Terminals.NotOlder (s : Terminals) (since : Nat) : Prop := ∀ b, b ≤ s.now → s.Newer b → b ≤ since

theorem Terminals.Newer.move {b : Nat} (h : s.Newer b) (hb : b ≤ s.now) (c' : Option TermCall) {cache : Option (Dict Nat DevPath × Nat)}
    {scanners : List Nat} (hcache : ∀ tmap since, cache = some (tmap, since) → s.NotOlder since)
    (hscanning : ∀ d since, c' = some d → d.scanning = some since → s.NotOlder since) :
    { s.at t c' with cache := cache, scanners := scanners }.Newer b := by
  refine ⟨fun tmap since hc => hcache tmap since hc b hb h, fun u d since hd hsince => ?_⟩
  rcases moved hd with ⟨-, hd⟩ | ⟨-, hd⟩
  · exact hscanning d since hd hsince b hb h
  · exact h.scanning u d since hd hsince

theorem TermInv.move (h : TermInv s) (c' : Option TermCall) {cache : Option (Dict Nat DevPath × Nat)} {scanners : List Nat}
    (hcache : ∀ tmap since, cache = some (tmap, since) → (Sound s.versions since tmap ∧ Complete s.versions since [] tmap) ∧ s.NotOlder since)
    (hscanners : ∀ u, u ≠ t → u ∈ s.scanners → u ∈ scanners) (hgood : ∀ d, c' = some d → d.Good s.versions)
    (hscanning : ∀ d since, c' = some d → d.scanning = some since → since < s.versions.length ∧ t ∈ scanners ∧ s.NotOlder since)
    (hphase : ∀ d b, c' = some d → d.phase = .again b true → b ≤ s.now ∧ { s.at t c' with cache := cache, scanners := scanners }.Newer b ∧
      ∀ ttyNr since tmap, d = .use ttyNr (.again b true) since tmap → b ≤ since) :
    TermInv { s.at t c' with cache := cache, scanners := scanners } := by
  refine ⟨h.current, fun tmap since hc => (hcache tmap since hc).1, fun u d hd => ?_, fun u d since hd hsince => ?_, fun u d hd hsome => ?_,
    fun u d b hd hb => ?_⟩
  · rcases moved hd with ⟨-, hd⟩ | ⟨-, hd⟩
    · exact hgood d hd
    · exact h.good u d hd
  · rcases moved hd with ⟨-, hd⟩ | ⟨-, hd⟩
    · exact (hscanning d since hd hsince).1
    · exact h.since u d since hd hsince
  · rcases moved hd with ⟨hut, hd⟩ | ⟨hne, hd⟩
    · obtain ⟨since, hsince⟩ := Option.isSome_iff_exists.1 hsome
      exact hut ▸ (hscanning d since hd hsince).2.1
    · exact hscanners u hne (h.scanners u d hd hsome)
  · rcases moved hd with ⟨-, hd⟩ | ⟨-, hd⟩
    · exact hphase d b hd hb
    · obtain ⟨hle, hnewer, huse⟩ := h.newer u d b hd hb
      exact ⟨hle, hnewer.move hle c' (fun tmap since hc => (hcache tmap since hc).2) fun d since hd hsince =>
        (hscanning d since hd hsince).2.2, huse⟩

/-- The devices are those of a version since the map was begun. -/
theorem TermInv.devices_mem (h : TermInv s) (hsince : since < s.versions.length) : s.devices ∈ s.versions.drop since :=
  Versions.current_mem_drop h.current hsince

theorem TermInv.notOlder_cache (h : TermInv s) (tmap : Dict Nat DevPath) (since : Nat) (hc : s.cache = some (tmap, since)) :
    (Sound s.versions since tmap ∧ Complete s.versions since [] tmap) ∧ s.NotOlder since :=
  ⟨h.cache tmap since hc, fun _ _ hnewer => hnewer.cache tmap since hc⟩

/-- A thread that goes on with its map. -/
theorem TermInv.scan (h : TermInv s) {ttyNr : Nat} {phase : Phase} {next : Scan} (hc : s.calls t = some (.scan ttyNr phase since next))
    {c' : TermCall} (hc' : (∃ next', c' = .scan ttyNr phase since next') ∨ ∃ tmap, c' = .store ttyNr phase since tmap)
    (hgood : c'.Good s.versions) :
    TermInv (s.at t (some c')) := by
  have hold : s.NotOlder since := fun b _ hnewer => hnewer.scanning t _ since hc rfl
  have hsame : c'.scanning = some since ∧ c'.phase = phase ∧ ∀ ttyNr phase since tmap, c' ≠ .use ttyNr phase since tmap := by
    rcases hc' with ⟨next', rfl⟩ | ⟨tmap, rfl⟩ <;> exact ⟨rfl, rfl, by simp⟩
  have hscanning : ∀ d since', some c' = some d → d.scanning = some since' →
      since' < s.versions.length ∧ t ∈ s.scanners ∧ s.NotOlder since' := by
    rintro d since' heq hsince
    cases heq
    rw [hsame.1] at hsince
    cases hsince
    exact ⟨h.since t _ since hc rfl, h.scanners t _ hc rfl, hold⟩
  refine h.move (some c') h.notOlder_cache (fun u _ hu => hu) (fun d heq => Option.some.inj heq ▸ hgood) hscanning fun d b heq hb => ?_
  cases heq
  rw [hsame.2.1] at hb
  obtain ⟨hle, hnewer, -⟩ := h.newer t _ b hc hb
  exact ⟨hle, hnewer.move hle _ (fun tmap since hc => (h.notOlder_cache tmap since hc).2) fun d since hd hsince =>
      (hscanning d since hd hsince).2.2,
    fun ttyNr since tmap huse => (hsame.2.2 _ _ _ _ huse).elim⟩

/-- A thread that answers. -/
theorem TermInv.leave (h : TermInv s) {scanners : List Nat} (hscanners : ∀ u, u ≠ t → u ∈ s.scanners → u ∈ scanners) :
    TermInv { s.at t none with scanners := scanners } :=
  h.move none h.notOlder_cache hscanners (fun d hd => by cases hd) (fun d since hd => by cases hd) fun d b hd => by cases hd

theorem mem_filter_ne {l : List Nat} {u : Nat} (hne : u ≠ t) (hu : u ∈ l) : u ∈ l.filter (· ≠ t) :=
  List.mem_filter.2 ⟨hu, by simpa using hne⟩

theorem TermInv.stepCall (h : TermInv s) (hc : s.calls t = some c) (fails : Option Errno) : TermInv (s.stepCall t fails c).1 := by
  have hgood := h.good t c hc
  cases c with
  | lookup ttyNr phase =>
    rw [Terminals.stepCall]
    cases hcache : s.cache with
    | some entry =>
      obtain ⟨tmap, since⟩ := entry
      refine h.move (some _) h.notOlder_cache (fun u _ hu => hu) (fun d heq => ?_) (fun d since heq hsince => ?_) fun d b heq hb => ?_
      · cases heq
        exact h.cache tmap since hcache
      · cases heq
        cases hsince
      · cases heq
        obtain ⟨hle, hnewer, -⟩ := h.newer t _ b hc hb
        refine ⟨hle, hnewer.move hle _ (fun tmap since hc => (h.notOlder_cache tmap since hc).2) fun d since hd hsince => ?_, ?_⟩
        · cases hd
          cases hsince
        · rintro _ _ _ heq
          cases heq
          exact hnewer.cache tmap since hcache
    | none =>
      have hscanning : ∀ d since, some (TermCall.scan ttyNr phase s.now .globTty) = some d → d.scanning = some since →
          since < s.versions.length ∧ t ∈ t :: s.scanners ∧ s.NotOlder since := by
        rintro d since heq hsince
        cases heq
        cases hsince
        exact ⟨Nat.sub_lt (Versions.length_pos h.current) Nat.one_pos, List.mem_cons_self, fun b hb _ => hb⟩
      refine h.move (some _) h.notOlder_cache (fun u _ hu => List.mem_cons_of_mem t hu) (fun d heq => ?_) hscanning fun d b heq hb => ?_
      · cases heq
        trivial
      · cases heq
        obtain ⟨hle, hnewer, -⟩ := h.newer t _ b hc hb
        refine ⟨hle, hnewer.move hle _ (fun tmap since hc => (h.notOlder_cache tmap since hc).2) fun d since hd hsince => ?_, ?_⟩
        · exact (hscanning d since hd hsince).2.2
        · rintro _ _ _ heq
          cases heq
  | scan ttyNr phase since next =>
    have hmem := h.devices_mem (h.since t _ since hc rfl)
    cases next with
    | globTty => exact h.scan hc (Or.inl ⟨_, rfl⟩) fun ttyNr p hp hlasting => Devices.mem_glob (hlasting _ hmem) hp
    | globPts ls =>
      refine h.scan hc (Or.inl ⟨_, rfl⟩) ⟨.empty, fun ttyNr p hp hlasting => Or.inl (List.mem_append.2 ?_)⟩
      rw [Bool.or_eq_true] at hp
      rcases hp with hp | hp
      · exact Or.inl (hgood ttyNr p hp hlasting)
      · exact Or.inr (Devices.mem_glob (hlasting _ hmem) hp)
    | stat ls ret =>
      obtain ⟨hsound, hcomplete⟩ := hgood
      cases ls with
      | nil => exact h.scan hc (Or.inr ⟨ret, rfl⟩) ⟨hsound, hcomplete⟩
      | cons name ls =>
        have hrest := hcomplete.stat hmem
        cases fails with
        | some errno => exact h.leave fun u hne hu => mem_filter_ne hne hu
        | none =>
          dsimp only [Terminals.stepCall]
          cases hstat : s.devices.stat name with
          | none =>
            rw [hstat] at hrest
            exact h.scan hc (Or.inl ⟨_, rfl⟩) ⟨hsound, hrest⟩
          | some rdev =>
            rw [hstat] at hrest
            exact h.scan hc (Or.inl ⟨_, rfl⟩) ⟨hsound.set hmem hstat, hrest⟩
  | store ttyNr phase since tmap =>
    have hold : s.NotOlder since := fun b _ hnewer => hnewer.scanning t _ since hc rfl
    have hcache : ∀ tmap' since', s.cache.or (some (tmap, since)) = some (tmap', since') →
        (Sound s.versions since' tmap' ∧ Complete s.versions since' [] tmap') ∧ s.NotOlder since' := fun tmap' since' heq => by
      cases hs : s.cache with
      | some entry =>
        rw [hs] at heq
        cases heq
        exact h.notOlder_cache _ _ hs
      | none =>
        rw [hs] at heq
        cases heq
        exact ⟨hgood, hold⟩
    refine h.move (some _) hcache (fun u hne hu => mem_filter_ne hne hu) (fun d heq => ?_) (fun d since heq hsince => ?_) fun d b heq hb => ?_
    · cases heq
      exact hgood
    · cases heq
      cases hsince
    · cases heq
      obtain ⟨hle, hnewer, -⟩ := h.newer t _ b hc hb
      refine ⟨hle, hnewer.move hle _ (fun tmap since hc => (hcache tmap since hc).2) fun d since hd hsince => ?_, ?_⟩
      · cases hd
        cases hsince
      · rintro _ _ _ heq
        cases heq
        exact hold b hle hnewer
  | use ttyNr phase since tmap =>
    dsimp only [Terminals.stepCall]
    cases tmap.get? ttyNr with
    | some path => exact h.leave fun u _ hu => hu
    | none =>
      cases phase with
      | again clearedAt alone => exact h.leave fun u _ hu => hu
      | first =>
        have hcleared : ∀ tmap since, (none : Option (Dict Nat DevPath × Nat)) = some (tmap, since) →
            (Sound s.versions since tmap ∧ Complete s.versions since [] tmap) ∧ s.NotOlder since := fun tmap since hc => by cases hc
        refine h.move (some _) hcleared (fun u _ hu => hu) (fun d heq => ?_) (fun d since heq hsince => ?_) fun d b heq hb => ?_
        · cases heq
          trivial
        · cases heq
          cases hsince
        · cases heq
          obtain ⟨hnow, halone⟩ : s.now = b ∧ s.scanners.isEmpty = true := by simpa [TermCall.phase] using hb
          refine ⟨hnow.ge, ⟨fun tmap since hc => (by cases hc), fun u d since hd hsince => ?_⟩, fun _ _ _ huse => by cases huse⟩
          -- nobody is making a map
          rcases moved hd with ⟨-, hd⟩ | ⟨-, hd⟩
          · cases hd
            cases hsince
          · have hscanner := h.scanners u d hd (Option.isSome_of_eq_some hsince)
            rw [List.isEmpty_iff.1 halone] at hscanner
            cases hscanner

theorem TermInv.step (h : TermInv s) (e : TermEv) : TermInv (termMachine.step s e).1 := by
  cases e with
  | call t ttyNr =>
    dsimp only [termMachine]
    split_ifs with hin
    · exact h
    · refine h.move (some (.lookup ttyNr .first)) h.notOlder_cache (fun u _ hu => hu) (fun d heq => ?_) (fun d since heq hsince => ?_)
        fun d b heq hb => ?_
      · cases heq
        trivial
      · cases heq
        cases hsince
      · cases heq
        cases hb
  | step t fails =>
    dsimp only [termMachine]
    cases hc : s.calls t with
    | none => exact h
    | some c => exact h.stepCall hc fails
  | change devices =>
    have hlen : (s.versions ++ [devices]).length = s.versions.length + 1 := by rw [List.length_append, List.length_singleton]
    refine ⟨List.getLast?_concat, fun tmap since hc => ?_, fun u c hc => (h.good u c hc).later devices, fun u c since hc hsince => ?_, h.scanners,
      fun u c b hc hb => ?_⟩
    · exact ⟨(h.cache tmap since hc).1.later devices, (h.cache tmap since hc).2.later devices⟩
    · have := h.since u c since hc hsince
      dsimp only [termMachine]
      omega
    · obtain ⟨hle, hnewer, huse⟩ := h.newer u c b hc hb
      refine ⟨?_, ⟨hnewer.cache, hnewer.scanning⟩, huse⟩
      simp only [Terminals.now, termMachine] at hle ⊢
      omega

theorem termInv_start (devices : Devices) : TermInv (.start devices) where
  current := rfl
  cache _ _ hc := by cases hc
  good _ _ hc := by cases hc
  since _ _ _ hc := by cases hc
  scanners _ _ hc := by cases hc
  newer _ _ _ hc := by cases hc

/-! ## The answers -/

theorem Lasting.of_le {b ttyNr : Nat} {p : DevPath} (h : Lasting versions b ttyNr p) (hle : b ≤ since) : Lasting versions since ttyNr p := by
  obtain ⟨k, rfl⟩ := Nat.exists_eq_add_of_le hle
  intro devices hdevices
  rw [← List.drop_drop] at hdevices
  exact h devices (List.mem_of_mem_drop hdevices)

/-- What a call answers with, and from which map. -/
inductive Answers (versions : List Devices) (ttyNr since : Nat) (ans : TermAnswer) : Phase → Prop
  | found {phase : Phase} (p : DevPath) (hans : ans = .ok (some p)) (hstat : ∃ devices ∈ versions.drop since, devices.stat p = some ttyNr) :
    Answers versions ttyNr since ans phase
  | missed {b : Nat} {alone : Bool} (hans : ans = .ok none)
    (hnone : ∀ p, (ttyGlob p || ptsGlob p) = true → ¬Lasting versions (if alone then b else since) ttyNr p) :
    Answers versions ttyNr since ans (.again b alone)

theorem TermInv.answer (h : TermInv s) (hc : s.calls t = some c) {fails : Option Errno} {u : Nat} {ans : TermAnswer}
    (hout : (s.stepCall t fails c).2 = some (u, ans)) :
    u = t ∧ ((∃ errno, fails = some errno ∧ ans = .error (.osError errno)) ∨
      ∃ ttyNr phase since tmap, c = .use ttyNr phase since tmap ∧ Answers s.versions ttyNr since ans phase) := by
  cases c with
  | lookup ttyNr phase =>
    rw [Terminals.stepCall] at hout
    cases hcache : s.cache <;> rw [hcache] at hout <;> cases hout
  | store ttyNr phase since tmap => cases hout
  | scan ttyNr phase since next =>
    cases next with
    | globTty | globPts ls => cases hout
    | stat ls ret =>
      cases ls with
      | nil => cases hout
      | cons name ls =>
        cases fails with
        | some errno =>
          cases hout
          exact ⟨rfl, Or.inl ⟨errno, rfl, rfl⟩⟩
        | none =>
          dsimp only [Terminals.stepCall] at hout
          cases hstat : s.devices.stat name <;> rw [hstat] at hout <;> cases hout
  | use ttyNr phase since tmap =>
    obtain ⟨hsound, hcomplete⟩ := h.good t _ hc
    dsimp only [Terminals.stepCall] at hout
    cases hget : tmap.get? ttyNr with
    | some p =>
      rw [hget] at hout
      cases hout
      exact ⟨rfl, Or.inr ⟨ttyNr, phase, since, tmap, rfl, .found p rfl (hsound ttyNr p hget)⟩⟩
    | none =>
      rw [hget] at hout
      cases phase with
      | first => cases hout
      | again b alone =>
        cases hout
        refine ⟨rfl, Or.inr ⟨ttyNr, .again b alone, since, tmap, rfl, .missed rfl fun p hp hlasting => ?_⟩⟩
        have hnone : ¬Lasting s.versions since ttyNr p := fun hsince => by
          rcases hcomplete ttyNr p hp hsince with hls | htmap
          · cases hls
          · exact Dict.get?_eq_none.1 hget htmap
        cases alone with
        | false => exact hnone hlasting
        | true => exact hnone (hlasting.of_le ((h.newer t _ b hc rfl).2.2 ttyNr since tmap rfl))

end

/-- **What a terminal answer means**: in every order of steps of the threads and of changes of the devices, a path that `get_terminal`
returns was that of the device at some moment since its map was begun. `None` is only the answer of a second lookup, and no device has had
the number ever since that map was begun; if nobody was making a map when the call cleared the cache, then ever since it cleared it. -/
theorem get_terminal_answer (devices : Devices) (es : List TermEv) :
    ∀ l ∈ termMachine.trace (.start devices) es, ∀ t ans, l.out = some (t, ans) →
      ∃ c fails, l.pre.calls t = some c ∧ l.ev = .step t fails ∧
        ((∃ errno, fails = some errno ∧ ans = .error (.osError errno)) ∨
          ∃ ttyNr phase since tmap, c = .use ttyNr phase since tmap ∧ Answers l.pre.versions ttyNr since ans phase) := by
  intro l hl t ans hout
  have hstep : ∀ s e, TermInv s → TermInv (termMachine.step s e).1 := fun _ e h => h.step e
  obtain ⟨hpre, hanswer⟩ := termMachine.lines_of_inv hstep (termInv_start devices) hl
  rw [hout] at hanswer
  obtain ⟨s, ev, out⟩ := l
  cases ev with
  | call u ttyNr => cases hanswer
  | change d => cases hanswer
  | step u fails =>
    dsimp only [termMachine] at hanswer hpre ⊢
    cases hc : s.calls u with
    | none =>
      rw [hc] at hanswer
      cases hanswer
    | some c =>
      rw [hc] at hanswer
      obtain ⟨rfl, hans⟩ := hpre.answer hc hanswer.symm
      exact ⟨c, fails, hc, rfl, hans⟩

def tty7 : DevPath := ⟨.dev, "tty7".toList⟩

/-- Threads 0 and 2 list the directories, and then the device comes. Thread 1, which asks for it afterwards, finds the map of thread 0
first, and after its `cache_clear` that of thread 2. -/
def race : List TermEv :=
  [.call 0 5, .call 2 5, .step 0 none, .step 2 none, .step 0 none, .step 2 none, .step 0 none, .step 2 none, .change [(tty7, 7)],
    .step 0 none, .step 0 none, .call 1 7, .step 1 none, .step 1 none, .step 2 none, .step 2 none, .step 1 none]

/-- With other threads the map can be too old twice. -/
theorem get_terminal_answer_race :
    (termMachine.step (termMachine.run (.start []) race) (.step 1 none)).2 = some (1, .ok none) ∧
      Lasting (termMachine.run (.start []) race).versions 1 7 tty7 ∧
      ∀ p, (ttyGlob p || ptsGlob p) = true → ¬Lasting (termMachine.run (.start []) race).versions 0 7 p := by
  obtain ⟨c, fails, hc, -, hans⟩ := get_terminal_answer [] (race ++ [.step 1 none]) ⟨termMachine.run (.start []) race, .step 1 none, _⟩
    ((Machine.mem_trace _).2 ⟨race, [], rfl, rfl, rfl⟩) 1 (.ok none) rfl
  have hlasting : Lasting (termMachine.run (.start []) race).versions 1 7 tty7 := fun devices hdevices => by
    obtain rfl := List.mem_singleton.1 hdevices
    rfl
  refine ⟨rfl, hlasting, ?_⟩
  obtain rfl : c = .use 7 (.again 1 false) 0 ∅ := (Option.some.inj hc).symm
  rcases hans with ⟨errno, -, hans⟩ | ⟨ttyNr, phase, since, tmap, heq, hans⟩
  · cases hans
  · cases heq
    cases hans with
    | found p hans => cases hans
    | missed _ hnone => exact hnone

end Psutil.Terminal
