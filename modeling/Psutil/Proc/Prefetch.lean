import Psutil.Proc.Tree
import Psutil.Proc.World

/-!
# Prefetched attributes and their placeholder (`__init__.py:369-388`, `:672-725`, `:1846-1866`)

| here | there |
| --- | --- |
| `PyObj` | the argument `ad_value`, an object of any type |
| `Got`, `usePrefetch` | a value a getter hands out; `_use_prefetch` (`:369`) |
| `Listed.asDict`, `Listed.prefetched` | `as_dict` (`:672`), the body of the loop of `process_iter` (`:1853`) |
| `Listed.name`, `Listed.exe`, `Listed.parent` | `:815`, `:847`, `:727` |
| `Listed.username`, `Listed.memoryInfoEx`, `Listed.memoryFullInfo`, `Listed.memoryPercent` | `:904`, `:1320`, `:1356`, `:1378` |

The getters of the platform answer the same during the pass and after it. `_prefetch` and `_ad_value` are set together,
so `_is_ad_value` is the test for `Got.ad`. Exceptions carry no process name here. A getter says besides its outcome
whether it computed with the placeholder: indexed it, used it as a PID, or met an exception when it asked for its truth.
-/

namespace Psutil

/-- An object, by what the getters may ask it. -/
structure PyObj where
  isNone : Bool
  /-- `bool(x)`. -/
  truth : Except Exc Bool
  /-- `x[0]`, a string or something that is not a path. -/
  item : Except Exc (Option String)
  /-- The PID that `Process(x)` looks for, if `x` is not `None`. -/
  asPid : Except Exc Nat

namespace PyObj

def pyNone : PyObj := ⟨true, .ok false, .error (.typeError "'NoneType' object is not subscriptable"),
  .error (.typeError "'<' not supported between instances of 'NoneType' and 'int'")⟩

def pyInt (i : Int) : PyObj := ⟨false, .ok (decide (i ≠ 0)), .error (.typeError "'int' object is not subscriptable"),
  if i < 0 then .error (.valueError ("pid must be a positive integer (got " ++ toString i ++ ")"))
  else if pidMax < i.toNat then .error (.noSuchProcess i.toNat none "process PID out of range")
  else .ok i.toNat⟩

def pyStr (s : String) : PyObj := ⟨false, .ok (decide (s ≠ "")), match s.toList with
    | [] => .error .indexError
    | c :: _ => .ok (some c.toString),
  .error (.typeError "'<' not supported between instances of 'str' and 'int'")⟩

/-- A list of strings. -/
def pyList (l : List String) : PyObj := ⟨false, .ok (decide (l ≠ [])), match l with
    | [] => .error .indexError
    | s :: _ => .ok (some s),
  .error (.typeError "'<' not supported between instances of 'list' and 'int'")⟩

end PyObj

/-- What a getter hands out: the placeholder, or a value of its own. -/
inductive Got (α : Type) where
  | ad
  | val (value : α)
  deriving DecidableEq

def Got.isAd {α : Type} : Got α → Bool
  | .ad => true
  | .val _ => false

/-- The answers of a getter of the platform. -/
inductive Reply (α : Type) where
  | ok (value : α)
  | denied
  | zombie

/-- The fields of a named tuple. -/
abbrev Fields := List (String × Nat)

/-- What the getters read besides the process. -/
structure Host where
  posix : Bool
  lowestPid : Nat
  /-- `pwd.getpwuid(uid).pw_name`; `none` without the module. -/
  pwd : Option (Nat → Option String)
  /-- `isabs`, `isfile` and `access(X_OK)`. -/
  executable : String → Bool
  /-- `Process(pid).create_time()`. -/
  createTime : Nat → Except Exc ℚ
  pmemFields : List String
  pmemExFields : Option (List String)
  pfootprintFields : Option (List String)
  totalPhymem : ℚ

/-- `self._proc`: of `puids` only `real` is read. -/
structure Platform where
  name : Reply String
  exe : Reply String
  cmdline : Reply (List String)
  ppid : Reply Nat
  uids : Reply Nat
  username : Reply String
  memoryInfo : Reply Fields
  memoryInfoEx : Option (Reply Fields)
  memoryFootprint : Option (Reply Fields)

/-- The entries of `_prefetch` that a getter below reads. -/
structure Prefetch where
  name : Option (Got String)
  exe : Option (Got String)
  cmdline : Option (Got (List String))
  ppid : Option (Got Nat)
  uids : Option (Got Nat)
  username : Option (Got String)
  memoryInfo : Option (Got Fields)
  memoryInfoEx : Option (Got Fields)
  memoryFootprint : Option (Got Fields)
  memoryPercent : Option (Got ℚ)

def Prefetch.empty : Prefetch := ⟨none, none, none, none, none, none, none, none, none, none⟩

/-- A `Process` that is listed by `process_iter`; `nameCache` and `exeCache` are `_name` and `_exe`. -/
structure Listed where
  pid : Nat
  nameCache : Option String
  exeCache : Option String
  plat : Platform
  prefetch : Prefetch

/-- The outcome of a getter, and whether it computed with the placeholder. -/
structure Ran (α : Type) where
  result : Except Exc (Got α)
  computed : Bool

/-- The wrapper of `_use_prefetch`. -/
def usePrefetch {α : Type} (entry : Option (Got α)) (body : Ran α) : Ran α :=
  match entry with
  | some value => ⟨.ok value, false⟩
  | none => body

/-- `os.path.basename(p)`. -/
def basename (p : String) : String := String.ofList (p.toList.reverse.takeWhile (· ≠ '/')).reverse

def notAPathMsg : String := "expected str, bytes or os.PathLike object"

namespace Listed

variable (h : Host) (ad : PyObj) (p : Listed)

/-- A getter of the platform. -/
def call {α : Type} (p : Listed) : Reply α → Except Exc α
  | .ok value => .ok value
  | .denied => .error (.accessDenied p.pid none)
  | .zombie => .error (.zombieProcess p.pid none none)

/-- A getter that only calls the platform. -/
def plain {α : Type} (p : Listed) (entry : Option (Got α)) (reply : Reply α) : Except Exc (Got α) :=
  match entry with
  | some value => .ok value
  | none => (p.call reply).map .val

def cmdline : Except Exc (Got (List String)) := p.plain p.prefetch.cmdline p.plat.cmdline

def ppid : Except Exc (Got Nat) := p.plain p.prefetch.ppid p.plat.ppid

def uids : Except Exc (Got Nat) := p.plain p.prefetch.uids p.plat.uids

def memoryInfo : Except Exc (Got Fields) := p.plain p.prefetch.memoryInfo p.plat.memoryInfo

/-- `bool(cmdline)`. -/
def truthOf : Got (List String) → Except Exc Bool
  | .ad => ad.truth
  | .val l => .ok (decide (l ≠ []))

/-- `cmdline[0]`. -/
def itemOf : Got (List String) → Except Exc (Option String)
  | .ad => ad.item
  | .val [] => .error .indexError
  | .val (s :: _) => .ok (some s)

/-! ## `name`, `exe` and `parent` -/

/-- The name of a process whose name was truncated, from its command line. -/
def extendedName (name : String) : Ran String :=
  match p.cmdline with
  | .error (.accessDenied _ _) | .error (.zombieProcess _ _ _) => ⟨.ok (.val name), false⟩
  | .error e => ⟨.error e, false⟩
  | .ok cmdline => match truthOf ad cmdline with
    | .error e => ⟨.error e, cmdline.isAd⟩
    | .ok false => ⟨.ok (.val name), false⟩
    | .ok true => ⟨match itemOf ad cmdline with
      | .error e => .error e
      | .ok none => .error (.typeError notAPathMsg)
      | .ok (some arg) =>
        if name.toList.isPrefixOf (basename arg).toList then .ok (.val (basename arg)) else .ok (.val name),
      cmdline.isAd⟩

def nameBody : Ran String :=
  match if h.posix then none else p.nameCache with
  | some name => ⟨.ok (.val name), false⟩
  | none => match p.call p.plat.name with
    | .error e => ⟨.error e, false⟩
    | .ok name =>
      if h.posix ∧ 15 ≤ name.length then p.extendedName ad name else ⟨.ok (.val name), false⟩

def name : Ran String := usePrefetch p.prefetch.name (p.nameBody h ad)

/-- `guess_it(fallback)`. -/
def guessIt (fallback : Except Exc String) : Ran String :=
  match p.cmdline with
  | .error e => ⟨.error e, false⟩
  | .ok cmdline => match truthOf ad cmdline with
    | .error e => ⟨.error e, cmdline.isAd⟩
    | .ok false => ⟨fallback.map .val, false⟩
    | .ok true => ⟨match itemOf ad cmdline with
      | .error e => .error e
      | .ok none => .error (.typeError notAPathMsg)
      | .ok (some exe) => if h.executable exe then .ok (.val exe) else fallback.map .val,
      cmdline.isAd⟩

/-- `exe = guess_it(fallback=exe)`, where `AccessDenied` changes nothing. -/
def guessEmpty (exe : String) : Ran String :=
  match (p.guessIt h ad (.ok exe)).result with
  | .error (.accessDenied _ _) => ⟨.ok (.val exe), (p.guessIt h ad (.ok exe)).computed⟩
  | _ => p.guessIt h ad (.ok exe)

def exeBody : Ran String :=
  match p.exeCache with
  | some exe => ⟨.ok (.val exe), false⟩
  | none => match p.call p.plat.exe with
    | .error (.accessDenied pid name) => p.guessIt h ad (.error (.accessDenied pid name))
    | .error e => ⟨.error e, false⟩
    | .ok exe => if exe = "" then p.guessEmpty h ad exe else ⟨.ok (.val exe), false⟩

def exe : Ran String := usePrefetch p.prefetch.exe (p.exeBody h ad)

/-- `ppid is None`, and `Process(ppid)`. -/
def isNone : Got Nat → Bool
  | .ad => ad.isNone
  | .val _ => false

def asPid : Got Nat → Except Exc Nat
  | .ad => ad.asPid
  | .val n => .ok n

def parent : Ran (Option Nat) :=
  if p.pid = h.lowestPid then ⟨.ok (.val none), false⟩
  else match p.ppid with
  | .error e => ⟨.error e, false⟩
  | .ok ppid =>
    if isNone ad ppid then ⟨.ok (.val none), false⟩
    else match h.createTime p.pid with
      | .error e => ⟨.error e, false⟩
      | .ok procCtime => ⟨match asPid ad ppid with
        | .error e => if e.isGone then .ok (.val none) else .error e
        | .ok parent => match h.createTime parent with
          | .error e => if e.isGone then .ok (.val none) else .error e
          | .ok ctime => if ctime ≤ procCtime then .ok (.val (some parent)) else .ok (.val none),
        ppid.isAd⟩

/-! ## The getters that ask `_is_ad_value` -/

def username : Ran String := usePrefetch p.prefetch.username <|
  if h.posix then
    match h.pwd with
    | none => ⟨.error (.importError "requires pwd module shipped with standard python"), false⟩
    | some getpwuid => match p.uids with
      | .error e => ⟨.error e, false⟩
      | .ok .ad => ⟨.ok .ad, false⟩
      | .ok (.val realUid) => ⟨.ok (.val ((getpwuid realUid).getD (toString realUid))), false⟩
  else ⟨(p.call p.plat.username).map .val, false⟩

def memoryInfoEx : Ran Fields := usePrefetch p.prefetch.memoryInfoEx <|
  match p.memoryInfo with
  | .error e => ⟨.error e, false⟩
  | .ok .ad => ⟨.ok .ad, false⟩
  | .ok (.val base) => match p.plat.memoryInfoEx with
    | none => ⟨.ok (.val base), false⟩
    | some reply => ⟨(p.call reply).map fun extras => .val (base ++ extras), false⟩

/-- `memory_footprint`, on the platforms that have it. -/
def memoryFootprint (reply : Reply Fields) : Except Exc (Got Fields) := p.plain p.prefetch.memoryFootprint reply

def memoryFullInfo : Ran Fields :=
  match p.memoryInfo with
  | .error e => ⟨.error e, false⟩
  | .ok .ad => ⟨.ok .ad, false⟩
  | .ok (.val basicMem) => match p.plat.memoryFootprint with
    | none => ⟨.ok (.val basicMem), false⟩
    | some reply => match p.memoryFootprint reply with
      | .error e => ⟨.error e, false⟩
      | .ok .ad => ⟨.ok .ad, false⟩
      | .ok (.val fp) => ⟨.ok (.val (basicMem ++ fp)), false⟩

end Listed

/-- `valid_types`. -/
def Host.validTypes (h : Host) : List String :=
  let valid := h.pmemFields
  let valid := valid ++ (h.pmemExFields.getD []).filter (· ∉ valid)
  valid ++ (h.pfootprintFields.getD []).filter (· ∉ valid)

/-- `repr` of a string without quotes, and of a tuple of such strings. -/
def pyRepr (s : String) : String := "'" ++ s ++ "'"

def pyReprTuple (l : List String) : String := "(" ++ ", ".intercalate (l.map pyRepr) ++ ")"

namespace Listed

variable (h : Host) (ad : PyObj) (p : Listed)

/-- `metrics = fun()`. -/
def metrics (memtype : String) : Ran Fields :=
  if memtype ∈ h.pmemFields then ⟨p.memoryInfo, false⟩
  else if memtype ∈ h.pfootprintFields.getD [] then
    match p.plat.memoryFootprint with
    | none => ⟨.error (.attributeError "'Process' object has no attribute 'memory_footprint'"), false⟩
    | some reply => ⟨p.memoryFootprint reply, false⟩
  else p.memoryInfoEx

def memoryPercentOf (memtype : String) : Ran ℚ :=
  if memtype ∉ h.validTypes then
    ⟨.error (.valueError ("invalid memtype " ++ pyRepr memtype ++ "; valid types are " ++ pyReprTuple h.validTypes)), false⟩
  else match p.metrics h memtype with
  | ⟨.error e, computed⟩ => ⟨.error e, computed⟩
  | ⟨.ok .ad, computed⟩ => ⟨.ok .ad, computed⟩
  | ⟨.ok (.val metrics), computed⟩ => match metrics.lookup memtype with
    | none => ⟨.error (.attributeError ("no attribute " ++ pyRepr memtype)), computed⟩
    | some value =>
      if 0 < h.totalPhymem then ⟨.ok (.val (value / h.totalPhymem * 100)), computed⟩
      else ⟨.error (.valueError ("can't calculate process memory percent because total physical system memory is not " ++
        "positive (" ++ toString h.totalPhymem ++ ")")), computed⟩

/-- `memory_percent(memtype="rss")`: only a call without argument is answered from `_prefetch`. -/
def memoryPercent (memtype : Option String) : Ran ℚ :=
  match memtype with
  | none => usePrefetch p.prefetch.memoryPercent (p.memoryPercentOf h "rss")
  | some memtype => p.memoryPercentOf h memtype

end Listed

/-! ## The pass of `process_iter` -/

/-- The names that can be prefetched and that a getter above reads. -/
inductive Attr where
  | name | exe | cmdline | ppid | uids | username | memoryInfo | memoryInfoEx | memoryFootprint | memoryPercent
  deriving DecidableEq

/-- One turn of the loop of `as_dict`. -/
def fetch {α : Type} (attrs : List Attr) (attr : Attr) (ret : Except Exc (Got α)) : Except Exc (Option (Got α)) :=
  if attr ∈ attrs then match ret with
    | .ok value => .ok (some value)
    | .error (.accessDenied _ _) | .error (.zombieProcess _ _ _) => .ok (some .ad)
    | .error e => .error e
  else .ok none

namespace Listed

/-- `as_dict(attrs, ad_value)`. -/
def asDict (h : Host) (ad : PyObj) (attrs : List Attr) (p : Listed) : Except Exc Prefetch := do
  let nameEntry ← fetch attrs .name (p.name h ad).result
  let exe ← fetch attrs .exe (p.exe h ad).result
  let cmdline ← fetch attrs .cmdline p.cmdline
  let ppid ← fetch attrs .ppid p.ppid
  let uids ← fetch attrs .uids p.uids
  let username ← fetch attrs .username (p.username h).result
  let memoryInfo ← fetch attrs .memoryInfo p.memoryInfo
  let memoryInfoEx ← fetch attrs .memoryInfoEx p.memoryInfoEx.result
  let memoryFootprint ← match p.plat.memoryFootprint with
    | none => .ok none
    | some reply => fetch attrs .memoryFootprint (p.memoryFootprint reply)
  let memoryPercent ← fetch attrs .memoryPercent (p.memoryPercent h none).result
  return ⟨nameEntry, exe, cmdline, ppid, uids, username, memoryInfo, memoryInfoEx, memoryFootprint, memoryPercent⟩

/-- A process that `process_iter(attrs, ad_value)` yields. -/
def prefetched (h : Host) (ad : PyObj) (attrs : List Attr) (p : Listed) : Except Exc Listed :=
  let p := { p with prefetch := .empty }
  (p.asDict h ad attrs).map fun prefetch => { p with prefetch := prefetch }

end Listed

/-! ## A placeholder and nothing else -/

/-- The getters that call others. -/
inductive Getter where
  | name | exe | parent | username | memoryInfoEx | memoryFullInfo
  | memoryPercent (memtype : Option String)

/-- The attribute is not prefetched. -/
def forget {α : Type} : Option (Got α) → Option (Got α)
  | some .ad => none
  | entry => entry

/-- The getter of the platform raises `AccessDenied`. -/
def deny {α β : Type} : Option (Got α) → Reply β → Reply β
  | some .ad, _ => .denied
  | _, reply => reply

/-- The process as it is if the getters of the attributes with a placeholder raise `AccessDenied`. -/
def Listed.denied (p : Listed) : Listed :=
  { p with
    plat := { p.plat with
      cmdline := deny p.prefetch.cmdline p.plat.cmdline
      ppid := deny p.prefetch.ppid p.plat.ppid
      uids := deny p.prefetch.uids p.plat.uids
      memoryInfo := deny p.prefetch.memoryInfo p.plat.memoryInfo
      memoryInfoEx := p.plat.memoryInfoEx.map (deny p.prefetch.memoryInfoEx)
      memoryFootprint := p.plat.memoryFootprint.map (deny p.prefetch.memoryFootprint) }
    prefetch := { p.prefetch with
      cmdline := forget p.prefetch.cmdline
      ppid := forget p.prefetch.ppid
      uids := forget p.prefetch.uids
      memoryInfo := forget p.prefetch.memoryInfo
      memoryInfoEx := forget p.prefetch.memoryInfoEx
      memoryFootprint := forget p.prefetch.memoryFootprint } }

/-- The outcome is the placeholder, or what it is with `AccessDenied`, and nothing was computed with the placeholder.
`isAd` tells which values of the getter are the placeholder as well. -/
def Only {α : Type} (isAd : α → Prop) (run denied : Ran α) : Prop :=
  (run.result = .ok .ad ∨ (∃ value, run.result = .ok (.val value) ∧ isAd value) ∨ run.result = denied.result) ∧
    run.computed = false

/-- What the getter is to do; `None` is the placeholder if that is `None`. -/
def PlaceholderOnly (h : Host) (ad : PyObj) (p : Listed) : Getter → Prop
  | .name => Only (fun _ => False) (p.name h ad) (p.denied.name h ad)
  | .exe => Only (fun _ => False) (p.exe h ad) (p.denied.exe h ad)
  | .parent => Only (fun parent => ad.isNone = true ∧ parent = none) (p.parent h ad) (p.denied.parent h ad)
  | .username => Only (fun _ => False) (p.username h) (p.denied.username h)
  | .memoryInfoEx => Only (fun _ => False) p.memoryInfoEx p.denied.memoryInfoEx
  | .memoryFullInfo => Only (fun _ => False) p.memoryFullInfo p.denied.memoryFullInfo
  | .memoryPercent memtype => Only (fun _ => False) (p.memoryPercent h memtype) (p.denied.memoryPercent h memtype)

/-- The inputs on which the getters that do not ask `_is_ad_value` get by without it. -/
def GetsBy (h : Host) (ad : PyObj) (p : Listed) : Getter → Prop
  | .name => p.prefetch.name = none → p.prefetch.cmdline = some .ad → h.posix = true →
      (∃ name, p.plat.name = .ok name ∧ 15 ≤ name.length) → ad.truth = .ok false
  | .exe => p.prefetch.exe = none → p.prefetch.cmdline = some .ad → p.exeCache = none →
      (p.plat.exe = .denied ∨ p.plat.exe = .ok "") → ad.truth = .ok false
  | .parent => p.prefetch.ppid = some .ad → p.pid ≠ h.lowestPid →
      ad.isNone = true ∨ h.createTime p.pid = .error (.accessDenied p.pid none)
  | _ => True

namespace Listed

variable {h : Host} {ad : PyObj} {p : Listed}

@[simp] theorem denied_pid : p.denied.pid = p.pid := rfl
@[simp] theorem denied_nameCache : p.denied.nameCache = p.nameCache := rfl
@[simp] theorem denied_exeCache : p.denied.exeCache = p.exeCache := rfl
@[simp] theorem denied_plat_name : p.denied.plat.name = p.plat.name := rfl
@[simp] theorem denied_plat_exe : p.denied.plat.exe = p.plat.exe := rfl
@[simp] theorem denied_plat_username : p.denied.plat.username = p.plat.username := rfl
@[simp] theorem denied_prefetch_name : p.denied.prefetch.name = p.prefetch.name := rfl
@[simp] theorem denied_prefetch_exe : p.denied.prefetch.exe = p.prefetch.exe := rfl
@[simp] theorem denied_prefetch_username : p.denied.prefetch.username = p.prefetch.username := rfl
@[simp] theorem denied_prefetch_memoryPercent : p.denied.prefetch.memoryPercent = p.prefetch.memoryPercent := rfl
@[simp] theorem denied_call {α : Type} (reply : Reply α) : p.denied.call reply = p.call reply := by cases reply <;> rfl

/-! ## The inner getters -/

/-- A getter with a placeholder is denied, any other is as it was. -/
theorem plain_denied {α : Type} (p : Listed) (entry : Option (Got α)) (reply : Reply α) :
    (p.plain entry reply = .ok .ad ∧ p.denied.plain (forget entry) (deny entry reply) = .error (.accessDenied p.pid none)) ∨
      (p.plain entry reply ≠ .ok .ad ∧ p.denied.plain (forget entry) (deny entry reply) = p.plain entry reply) := by
  rcases entry with _ | _ | value
  · refine Or.inr ⟨?_, ?_⟩
    · cases reply <;> simp [plain, call, Except.map]
    · simp [plain, forget, deny]
  · exact Or.inl ⟨rfl, rfl⟩
  · exact Or.inr ⟨by simp [plain], rfl⟩

theorem plain_eq_ad {α : Type} {entry : Option (Got α)} {reply : Reply α} :
    p.plain entry reply = .ok .ad ↔ entry = some .ad := by
  rcases entry with _ | value
  · cases reply <;> simp [plain, call, Except.map]
  · simp [plain]

theorem cmdline_denied : (p.cmdline = .ok .ad ∧ p.denied.cmdline = .error (.accessDenied p.pid none)) ∨
    (p.cmdline ≠ .ok .ad ∧ p.denied.cmdline = p.cmdline) := p.plain_denied _ _

theorem cmdline_eq_ad : p.cmdline = .ok .ad ↔ p.prefetch.cmdline = some .ad := plain_eq_ad

theorem ppid_eq_ad : p.ppid = .ok .ad ↔ p.prefetch.ppid = some .ad := plain_eq_ad

theorem ppid_denied : (p.ppid = .ok .ad ∧ p.denied.ppid = .error (.accessDenied p.pid none)) ∨
    (p.ppid ≠ .ok .ad ∧ p.denied.ppid = p.ppid) := p.plain_denied _ _

theorem uids_denied : (p.uids = .ok .ad ∧ p.denied.uids = .error (.accessDenied p.pid none)) ∨
    (p.uids ≠ .ok .ad ∧ p.denied.uids = p.uids) := p.plain_denied _ _

theorem memoryInfo_denied : (p.memoryInfo = .ok .ad ∧ p.denied.memoryInfo = .error (.accessDenied p.pid none)) ∨
    (p.memoryInfo ≠ .ok .ad ∧ p.denied.memoryInfo = p.memoryInfo) := p.plain_denied _ _

/-! ## The getters that do not ask -/

theorem only_refl {α : Type} {isAd : α → Prop} {run : Ran α} (h : run.computed = false) : Only isAd run run :=
  ⟨Or.inr (Or.inr rfl), h⟩

theorem extendedName_computed (name : String) (hc : p.cmdline ≠ .ok .ad) : (p.extendedName ad name).computed = false := by
  unfold extendedName
  split
  · rfl
  · rfl
  · rfl
  · rename_i cmdline hcmdline
    cases cmdline with
    | ad => exact absurd hcmdline hc
    | val l => split <;> rfl

theorem guessIt_computed (fallback : Except Exc String) (hc : p.cmdline ≠ .ok .ad) :
    (p.guessIt h ad fallback).computed = false := by
  unfold guessIt
  split
  · rfl
  · rename_i cmdline hcmdline
    cases cmdline with
    | ad => exact absurd hcmdline hc
    | val l => split <;> rfl

theorem extendedName_only_iff (name : String) :
    Only (fun _ => False) (p.extendedName ad name) (p.denied.extendedName ad name) ↔
      (p.cmdline = .ok .ad → ad.truth = .ok false) := by
  rcases p.cmdline_denied with ⟨hc, hd⟩ | ⟨hc, hd⟩
  · rw [extendedName, extendedName, hc, hd]
    cases ht : ad.truth with
    | error e => simp [truthOf, ht, Only, Got.isAd]
    | ok b => cases b <;> simp [truthOf, ht, Only, Got.isAd]
  · have hsame : p.denied.extendedName ad name = p.extendedName ad name := by rw [extendedName, extendedName, hd]
    rw [hsame]
    exact iff_of_true (only_refl (extendedName_computed name hc)) fun had => absurd had hc

theorem name_only_iff : PlaceholderOnly h ad p .name ↔ GetsBy h ad p .name := by
  unfold PlaceholderOnly GetsBy
  rw [← cmdline_eq_ad]
  cases hown : p.prefetch.name with
  | some value => simp [name, usePrefetch, hown, Only]
  | none =>
    simp only [name, denied_prefetch_name, hown, usePrefetch, true_imp_iff, nameBody, denied_nameCache, denied_plat_name,
      denied_call]
    cases hposix : h.posix with
    | false =>
      refine iff_of_true ?_ (by simp)
      cases p.nameCache with
      | some name => exact only_refl rfl
      | none => cases p.call p.plat.name <;> exact only_refl rfl
    | true =>
      cases hname : p.plat.name with
      | denied => exact iff_of_true (only_refl rfl) (by simp)
      | zombie => exact iff_of_true (only_refl rfl) (by simp)
      | ok name =>
        by_cases hlen : 15 ≤ name.length
        · simp [call, hlen, extendedName_only_iff]
        · simp [call, hlen, only_refl]

/-- With nothing but `fallback` to return, `guess_it` raises it. -/
theorem guessIt_denied_iff :
    Only (fun _ => False) (p.guessIt h ad (.error (.accessDenied p.pid none)))
        (p.denied.guessIt h ad (.error (.accessDenied p.pid none))) ↔
      (p.cmdline = .ok .ad → ad.truth = .ok false) := by
  rcases p.cmdline_denied with ⟨hc, hd⟩ | ⟨hc, hd⟩
  · rw [guessIt, guessIt, hc, hd]
    cases ht : ad.truth with
    | error e => simp [truthOf, ht, Only, Got.isAd]
    | ok b => cases b <;> simp [truthOf, ht, Only, Got.isAd, Except.map]
  · have hsame : p.denied.guessIt h ad (.error (.accessDenied p.pid none)) =
        p.guessIt h ad (.error (.accessDenied p.pid none)) := by rw [guessIt, guessIt, hd]
    rw [hsame]
    exact iff_of_true (only_refl (guessIt_computed _ hc)) fun had => absurd had hc

theorem guessEmpty_computed (exe : String) : (p.guessEmpty h ad exe).computed = (p.guessIt h ad (.ok exe)).computed := by
  unfold guessEmpty
  split <;> rfl

theorem guessEmpty_only_iff (exe : String) :
    Only (fun _ => False) (p.guessEmpty h ad exe) (p.denied.guessEmpty h ad exe) ↔
      (p.cmdline = .ok .ad → ad.truth = .ok false) := by
  rcases p.cmdline_denied with ⟨hc, hd⟩ | ⟨hc, hd⟩
  · have hdenied : p.denied.guessEmpty h ad exe = ⟨.ok (.val exe), false⟩ := by simp [guessEmpty, guessIt, hd]
    rw [hdenied]
    cases ht : ad.truth with
    | error e => simp [Only, guessEmpty_computed, guessIt, hc, truthOf, ht, Got.isAd]
    | ok b =>
      cases b
      · simp [guessEmpty, guessIt, hc, truthOf, ht, Only, Except.map]
      · simp [Only, guessEmpty_computed, guessIt, hc, truthOf, ht, Got.isAd]
  · have hsame : p.denied.guessEmpty h ad exe = p.guessEmpty h ad exe := by
      rw [guessEmpty, guessEmpty, guessIt, guessIt, hd]
    rw [hsame]
    refine iff_of_true (only_refl ?_) fun had => absurd had hc
    rw [guessEmpty_computed]
    exact guessIt_computed _ hc

theorem exe_only_iff : PlaceholderOnly h ad p .exe ↔ GetsBy h ad p .exe := by
  unfold PlaceholderOnly GetsBy
  rw [← cmdline_eq_ad]
  cases hown : p.prefetch.exe with
  | some value => simp [exe, usePrefetch, hown, Only]
  | none =>
    simp only [exe, denied_prefetch_exe, hown, usePrefetch, true_imp_iff, exeBody, denied_exeCache, denied_plat_exe,
      denied_call]
    cases hcache : p.exeCache with
    | some exe => exact iff_of_true (only_refl rfl) (by simp)
    | none =>
      cases hexe : p.plat.exe with
      | zombie => exact iff_of_true (only_refl rfl) (by simp)
      | denied =>
        simp only [call, guessIt_denied_iff]
        simp
      | ok exe =>
        by_cases hempty : exe = ""
        · simp only [call, if_pos hempty, guessEmpty_only_iff]
          simp [hempty]
        · simp only [call, if_neg hempty]
          exact iff_of_true (only_refl rfl) (by simp [hempty])

theorem parent_only_iff : PlaceholderOnly h ad p .parent ↔ GetsBy h ad p .parent := by
  show Only _ (p.parent h ad) (p.denied.parent h ad) ↔ (p.prefetch.ppid = some .ad → p.pid ≠ h.lowestPid →
    ad.isNone = true ∨ h.createTime p.pid = .error (.accessDenied p.pid none))
  rw [← ppid_eq_ad, parent, parent, denied_pid]
  by_cases hlow : p.pid = h.lowestPid
  · rw [if_pos hlow, if_pos hlow]
    exact iff_of_true (only_refl rfl) fun _ hne => absurd hlow hne
  · rw [if_neg hlow, if_neg hlow]
    rcases p.ppid_denied with ⟨hp, hd⟩ | ⟨hp, hd⟩
    · rw [hp, hd]
      cases hnone : ad.isNone with
      | true => simp [isNone, hnone, Only]
      | false =>
        cases hc : h.createTime p.pid with
        | error e => simp [isNone, hnone, Only, hlow]
        | ok procCtime => simp [isNone, hnone, Only, Got.isAd, hlow]
    · rw [hd]
      refine iff_of_true (only_refl ?_) fun had => absurd had hp
      split
      · rfl
      · rename_i ppid hppid
        cases ppid with
        | ad => exact absurd hppid hp
        | val n =>
          split
          · rfl
          · split <;> rfl

/-! ## The getters that ask -/

/-- A getter that returns the placeholder it gets. -/
theorem only_ad {α : Type} {isAd : α → Prop} {run run' : Ran α} (h : run = ⟨.ok .ad, false⟩) : Only isAd run run' :=
  h ▸ ⟨Or.inl rfl, rfl⟩

theorem username_only : PlaceholderOnly h ad p .username := by
  show Only _ (p.username h) (p.denied.username h)
  unfold username
  rw [denied_prefetch_username]
  cases p.prefetch.username with
  | some value => exact only_refl rfl
  | none =>
    simp only [usePrefetch, denied_plat_username, denied_call]
    cases h.posix with
    | false => exact only_refl rfl
    | true =>
      cases h.pwd with
      | none => exact only_refl rfl
      | some getpwuid =>
        rcases p.uids_denied with ⟨hu, hd⟩ | ⟨hu, hd⟩
        · exact only_ad (by rw [hu]; rfl)
        · rw [hd]
          refine only_refl ?_
          simp only [if_true]
          split <;> rfl

/-- `memory_info_ex` hands on the placeholder, is denied, or does not meet one. -/
theorem memoryInfoEx_denied : p.memoryInfoEx = ⟨.ok .ad, false⟩ ∨
    (p.memoryInfoEx.computed = false ∧ p.denied.memoryInfoEx = p.memoryInfoEx) := by
  unfold memoryInfoEx
  cases hentry : p.prefetch.memoryInfoEx with
  | some value =>
    cases value with
    | ad => exact Or.inl rfl
    | val fields =>
      have hd : p.denied.prefetch.memoryInfoEx = some (.val fields) := by simp [denied, hentry, forget]
      rw [hd]
      exact Or.inr ⟨rfl, rfl⟩
  | none =>
    have hd : p.denied.prefetch.memoryInfoEx = none := by simp [denied, hentry, forget]
    have hplat : p.denied.plat.memoryInfoEx = p.plat.memoryInfoEx := by
      cases hex : p.plat.memoryInfoEx <;> simp [denied, hentry, deny, hex]
    rw [hd, hplat]
    rcases p.memoryInfo_denied with ⟨hm, hdm⟩ | ⟨hm, hdm⟩
    · exact Or.inl (by rw [hm]; rfl)
    · rw [hdm]
      refine Or.inr ⟨?_, ?_⟩
      · simp only [usePrefetch]
        split <;> first | rfl | (split <;> rfl)
      · simp only [denied_call]

theorem memoryInfoEx_only : PlaceholderOnly h ad p .memoryInfoEx := by
  rcases p.memoryInfoEx_denied with hr | ⟨hc, hd⟩
  · exact only_ad hr
  · show Only _ p.memoryInfoEx p.denied.memoryInfoEx
    rw [hd]
    exact only_refl hc

theorem memoryFootprint_denied (reply : Reply Fields) :
    (p.memoryFootprint reply = .ok .ad ∧ p.denied.memoryFootprint (deny p.prefetch.memoryFootprint reply) =
      .error (.accessDenied p.pid none)) ∨
    (p.memoryFootprint reply ≠ .ok .ad ∧ p.denied.memoryFootprint (deny p.prefetch.memoryFootprint reply) =
      p.memoryFootprint reply) := p.plain_denied _ _

theorem memoryFullInfo_only : PlaceholderOnly h ad p .memoryFullInfo := by
  show Only _ p.memoryFullInfo p.denied.memoryFullInfo
  unfold memoryFullInfo
  rcases p.memoryInfo_denied with ⟨hm, hdm⟩ | ⟨hm, hdm⟩
  · exact only_ad (by rw [hm])
  · rw [hdm]
    have hplat : p.denied.plat.memoryFootprint = p.plat.memoryFootprint.map (deny p.prefetch.memoryFootprint) := rfl
    rw [hplat]
    cases hfp : p.plat.memoryFootprint with
    | none =>
      refine only_refl ?_
      split <;> rfl
    | some reply =>
      cases hmi : p.memoryInfo with
      | error e => exact only_refl rfl
      | ok base =>
        cases base with
        | ad => exact only_ad rfl
        | val basicMem =>
          rcases p.memoryFootprint_denied reply with ⟨hf, hdf⟩ | ⟨hf, hdf⟩
          · exact only_ad (by dsimp only; rw [hf])
          · dsimp only [Option.map_some]
            rw [hdf]
            refine only_refl ?_
            split <;> rfl

/-- The metrics hand on the placeholder, or do not meet one. -/
theorem metrics_denied (memtype : String) : p.metrics h memtype = ⟨.ok .ad, false⟩ ∨
    ((p.metrics h memtype).computed = false ∧ p.denied.metrics h memtype = p.metrics h memtype) := by
  unfold metrics
  by_cases hmem : memtype ∈ h.pmemFields
  · rw [if_pos hmem, if_pos hmem]
    rcases p.memoryInfo_denied with ⟨hm, -⟩ | ⟨-, hdm⟩
    · exact Or.inl (by rw [hm])
    · exact Or.inr ⟨rfl, by rw [hdm]⟩
  · rw [if_neg hmem, if_neg hmem]
    by_cases hfoot : memtype ∈ h.pfootprintFields.getD []
    · rw [if_pos hfoot, if_pos hfoot]
      have hplat : p.denied.plat.memoryFootprint = p.plat.memoryFootprint.map (deny p.prefetch.memoryFootprint) := rfl
      rw [hplat]
      cases p.plat.memoryFootprint with
      | none => exact Or.inr ⟨rfl, rfl⟩
      | some reply =>
        rcases p.memoryFootprint_denied reply with ⟨hf, -⟩ | ⟨-, hdf⟩
        · exact Or.inl (by dsimp only; rw [hf])
        · exact Or.inr ⟨rfl, by dsimp only [Option.map_some]; rw [hdf]⟩
    · rw [if_neg hfoot, if_neg hfoot]
      exact p.memoryInfoEx_denied

theorem memoryPercentOf_only (memtype : String) :
    Only (fun _ => False) (p.memoryPercentOf h memtype) (p.denied.memoryPercentOf h memtype) := by
  unfold memoryPercentOf
  by_cases hvalid : memtype ∉ h.validTypes
  · rw [if_pos hvalid, if_pos hvalid]
    exact only_refl rfl
  · rw [if_neg hvalid, if_neg hvalid]
    rcases p.metrics_denied memtype with hm | ⟨hc, hd⟩
    · exact only_ad (by rw [hm])
    · rw [hd]
      refine only_refl ?_
      split
      · rename_i hm
        rwa [hm] at hc
      · rename_i hm
        rwa [hm] at hc
      · rename_i hm
        rw [hm] at hc
        split
        · exact hc
        · split <;> exact hc

theorem memoryPercent_only (memtype : Option String) : PlaceholderOnly h ad p (.memoryPercent memtype) := by
  show Only _ (p.memoryPercent h memtype) (p.denied.memoryPercent h memtype)
  cases memtype with
  | some memtype => exact memoryPercentOf_only memtype
  | none =>
    unfold memoryPercent
    rw [denied_prefetch_memoryPercent]
    cases p.prefetch.memoryPercent with
    | some value => exact only_refl rfl
    | none => exact memoryPercentOf_only "rss"

end Listed

/-- **`ad_value` is only a placeholder** for the getters that ask `_is_ad_value`; for `name`, `exe` and `parent` it is
one exactly on the inputs of `GetsBy`. -/
theorem placeholder_only_iff (h : Host) (ad : PyObj) (p : Listed) (g : Getter) :
    PlaceholderOnly h ad p g ↔ GetsBy h ad p g := by
  cases g with
  | name => exact Listed.name_only_iff
  | exe => exact Listed.exe_only_iff
  | parent => exact Listed.parent_only_iff
  | username => exact iff_of_true Listed.username_only trivial
  | memoryInfoEx => exact iff_of_true Listed.memoryInfoEx_only trivial
  | memoryFullInfo => exact iff_of_true Listed.memoryFullInfo_only trivial
  | memoryPercent memtype => exact iff_of_true (Listed.memoryPercent_only memtype) trivial

/-- A process with a truncated name, whose command line is denied. -/
def keyring : Listed where
  pid := 5
  nameCache := none
  exeCache := none
  plat := ⟨.ok "gnome-keyring-d", .denied, .denied, .denied, .ok 0, .ok "root", .ok [("rss", 10)], none, none⟩
  prefetch := .empty

def linuxHost : Host := ⟨true, 1, none, fun _ => false, fun _ => .ok 0, ["rss"], none, none, 100⟩

/-- The process after a pass with `attrs=["cmdline"]`. -/
def keyringListed : Listed := { keyring with prefetch := { Prefetch.empty with cmdline := some .ad } }

/-- With `ad_value=-1` the name is looked for in `-1[0]`. -/
theorem name_indexes_placeholder : ¬∀ (h : Host) (ad : PyObj) (attrs : List Attr) (p p' : Listed),
    p.prefetched h ad attrs = .ok p' → ∀ g, PlaceholderOnly h ad p' g := by
  intro hall
  obtain ⟨hresult, -⟩ := hall linuxHost (PyObj.pyInt (-1)) [.cmdline] keyring keyringListed rfl .name
  have hraised : (keyringListed.name linuxHost (PyObj.pyInt (-1))).result =
      .error (.typeError "'int' object is not subscriptable") := rfl
  have hdenied : (keyringListed.denied.name linuxHost (PyObj.pyInt (-1))).result = .ok (.val "gnome-keyring-d") := rfl
  rw [hraised, hdenied] at hresult
  rcases hresult with h | ⟨_, h, _⟩ | h <;> cases h

end Psutil
