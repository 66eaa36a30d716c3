import Psutil.Oneshot.Getters

/-!
# What the log of a program shows

The log alone tells which outermost block is open and what was read in it: `openBlock` counts the blocks that are
entered and left. `Faithful` says of an event what must hold of it after the events before; `Consistent` says it of a
whole log. `Synced` ties the caches of the object to its log: they are there exactly while a block is open, and hold
exactly the contents read in it.
-/

namespace Psutil.Oneshot

open Lib

/-! ## Reading the log -/

/-- Nested blocks that are open, and the events of the outermost one; `none` outside. -/
def blockStep : Option (Nat × List Event) → Event → Option (Nat × List Event)
  | none, .enter => some (0, [])
  | none, _ => none
  | some (n, b), .enter => some (n + 1, b ++ [.enter])
  | some (0, _), .leave => none
  | some (n + 1, b), .leave => some (n, b ++ [.leave])
  | some (n, b), e => some (n, b ++ [e])

def block (log : List Event) : Option (Nat × List Event) := log.foldl blockStep none

/-- The events of the outermost block that is open. -/
def openBlock (log : List Event) : Option (List Event) := (block log).map Prod.snd

/-- How many blocks are open. -/
def depth (log : List Event) : Nat :=
  match block log with
  | none => 0
  | some (n, _) => n + 1

/-- The events after the last one that is a `start`. -/
def since (start : Event → Bool) (log : List Event) : List Event :=
  log.foldl (fun evs e => if start e then [] else evs ++ [e]) []

def Event.isCall : Event → Bool
  | .call _ => true
  | _ => false

def Event.isAsk : Event → Bool
  | .ask _ => true
  | _ => false

/-- What a memoized reader makes of a look at its file, if it succeeds. -/
def Event.success (f : File) : Event → Option f.Content
  | .look (.memoized f') (.ok data) => if f' = f then (f.parse data).toOption else none
  | _ => none

/-- The content that the memoized reader of a file was first to read. -/
def kept (f : File) (evs : List Event) : Option f.Content := evs.findSome? (Event.success f)

/-- What is in view: the open block, or outside of blocks what happened since the last `start`. -/
def view (start : Event → Bool) (log : List Event) (f : File) : Option f.Content :=
  kept f ((openBlock log).getD (since start log))

/-! ## What a getter makes of a content -/

def Getter.file : Getter → File
  | .ppid | .status | .cpuTimes | .cpuNum | .pageFaults | .createTime => .stat
  | .uids | .gids | .numThreads | .numCtxSwitches => .status
  | .memoryFootprint | .memoryMaps _ => .smaps

def regionsOf (ex : PathExists) (now : Nat) (c : Bytes) : Except Exc (List Region) :=
  if c = [] then .ok [] else (Psutil.memoryMaps ex now c).1

/-- The value for a content; `memory_maps` also depends on which deleted paths exist. -/
def Getter.value (h : LinuxHost) (ex : PathExists) (now : Nat) : (g : Getter) → g.file.Content → Except Exc Value
  | .ppid, c => StatFields.ppidOf c
  | .status, c => StatFields.statusOf c
  | .cpuTimes, c => StatFields.cpuTimesOf h.clockTicks c
  | .cpuNum, c => StatFields.cpuNumOf c
  | .pageFaults, c => StatFields.pageFaultsOf c
  | .createTime, c => (StatFields.starttime h.clockTicks c).map .time
  | .uids, c => Psutil.uids c
  | .gids, c => Psutil.gids c
  | .numThreads, c => Psutil.numThreads c
  | .numCtxSwitches, c => Psutil.numCtxSwitches (Plat.statusPath h) c
  | .memoryFootprint, c => .ok (Psutil.parseSmaps c)
  | .memoryMaps grouped, c =>
    (regionsOf ex now c).map (PyProcess.mapsValue grouped)

/-- `v` is what the getter computes from the content `c`. -/
def Shows (h : LinuxHost) (g : Getter) (c : g.file.Content) (v : Value) : Prop := ∃ ex now, g.value h ex now c = .ok v

/-- `_is_zombie` saw a zombie in this call. -/
def Probed (log : List Event) : Prop :=
  ∃ data, Event.look .zombie (.ok data) ∈ since Event.isCall log ∧ showsZombie data = true

/-- Where the value of a getter comes from: the content in view, or (for two getters) a look that is never cached.
`create_time` answers what it answered before. -/
def Sourced (h : LinuxHost) (log : List Event) (g : Getter) (v : Value) : Prop :=
  (∃ c, view Event.isCall log g.file = some c ∧ Shows h g c v) ∨
    (g = .createTime ∧ ∀ v', Event.ret .createTime (.ok v') ∈ log → v' = v) ∨
    (g = .status ∧ v = .status (some .zombie) ∧ Probed log) ∨
    g = .memoryFootprint ∧ ∃ data, Event.look .smapsRollup (.ok data) ∈ since Event.isCall log ∧
      Psutil.parseSmapsRollup data = .ok v

/-- What must hold of an event that comes after a log. -/
def Faithful (h : LinuxHost) (log : List Event) : Event → Prop
  | .look (.memoized f) _ => ∀ b, openBlock log = some b → kept f b = none
  | .answer f (.ok c) => view Event.isAsk log f = some c
  | .answer f (.error _) => ∃ data, .look (.memoized f) data ∈ since Event.isAsk log ∧
      Event.success f (.look (.memoized f) data) = none
  | .ret g (.ok v) => Sourced h log g v
  | _ => True

def Consistent (h : LinuxHost) (log : List Event) : Prop := ∀ pre e post, log = pre ++ e :: post → Faithful h pre e

/-! ## One more event -/

theorem block_concat (log : List Event) (e : Event) : block (log ++ [e]) = blockStep (block log) e := by
  simp [block]

theorem since_concat (start : Event → Bool) (log : List Event) (e : Event) :
    since start (log ++ [e]) = if start e then [] else since start log ++ [e] := by
  simp [since]

theorem kept_append (f : File) (a b : List Event) : kept f (a ++ b) = (kept f a).or (kept f b) :=
  List.findSome?_append

theorem kept_concat (f : File) (evs : List Event) (e : Event) :
    kept f (evs ++ [e]) = (kept f evs).or (e.success f) := by
  rw [kept_append]
  cases h : e.success f <;> simp [kept, h]

/-- An event that neither begins nor ends a block. -/
def Event.inner : Event → Bool
  | .enter | .leave => false
  | _ => true

theorem block_inner {e : Event} (h : e.inner = true) (log : List Event) :
    block (log ++ [e]) = (block log).map fun nb => (nb.1, nb.2 ++ [e]) := by
  rw [block_concat]
  rcases block log with _ | ⟨_ | n, b⟩ <;> cases e <;> first | rfl | cases h

theorem openBlock_inner {e : Event} (h : e.inner = true) (log : List Event) :
    openBlock (log ++ [e]) = (openBlock log).map (· ++ [e]) := by
  simp only [openBlock, block_inner h, Option.map_map]
  rfl

theorem depth_inner {e : Event} (h : e.inner = true) (log : List Event) : depth (log ++ [e]) = depth log := by
  simp only [depth, block_inner h]
  cases block log <;> rfl

theorem depth_eq_zero {log : List Event} : depth log = 0 ↔ openBlock log = none := by
  simp only [depth, openBlock]
  cases block log <;> simp

/-- What is in view after an event that is neither a block nor a `start`. -/
theorem view_inner {start : Event → Bool} {e : Event} (h : e.inner = true) (hs : start e = false) (log : List Event) (f : File) :
    view start (log ++ [e]) f = (view start log f).or (e.success f) := by
  rw [view, openBlock_inner h, since_concat, hs, view]
  cases openBlock log <;> exact kept_concat f _ e

theorem consistent_nil (h : LinuxHost) : Consistent h [] := fun pre e post heq => by simp at heq

theorem consistent_concat {h : LinuxHost} {log : List Event} {e : Event} :
    Consistent h (log ++ [e]) ↔ Consistent h log ∧ Faithful h log e := by
  constructor
  · refine fun hc => ⟨fun pre e' post heq => hc pre e' (post ++ [e]) (by simp [heq]), hc log e [] rfl⟩
  · rintro ⟨hc, he⟩ pre e' post heq
    rcases List.eq_nil_or_concat post with rfl | ⟨post', e'', rfl⟩
    · obtain ⟨rfl, h1⟩ := List.append_inj' heq rfl
      cases h1
      exact he
    · have heq' : log ++ [e] = (pre ++ e' :: post') ++ [e''] := by simpa using heq
      exact hc pre e' post' (List.append_inj' heq' rfl).1

/-! ## The caches and the log -/

structure Synced (h : LinuxHost) (s : Obj) : Prop where
  opened : (openBlock s.log).isSome = s.cache.isSome
  procOpened : s.procCache.isSome = s.cache.isSome
  proc : ∀ d f start, s.procCache = some d → d f = view start s.log f
  self : ∀ d g v start, s.cache = some d → d g = some v → ∃ c, view start s.log g.file = some c ∧ Shows h g c v
  known : ∀ v, Event.ret .createTime (.ok v) ∈ s.log → s.createTime.map Value.time = some v

/-- What holds between any two steps of a program; the number of open blocks and the creation time are named. -/
structure Good (h : LinuxHost) (n : Nat) (t : Option ℚ) (s : Obj) : Prop where
  consistent : Consistent h s.log
  synced : Synced h s
  level : depth s.log = n
  createTime : s.createTime = t

/-- Nothing of the file is in view outside of blocks. -/
def Fresh (f : File) (s : Obj) : Prop := s.procCache = none → view Event.isCall s.log f = none

theorem view_open {start : Event → Bool} {log b : List Event} (h : openBlock log = some b) (f : File) :
    view start log f = kept f b := by rw [view, h, Option.getD_some]

/-- The event is one more of the block that is open, if one is. -/
def Extends (log : List Event) (e : Event) : Prop := openBlock (log ++ [e]) = (openBlock log).map (· ++ [e])

/-- In a block the view grows with every event. -/
theorem Extends.view {start : Event → Bool} {e : Event} {log : List Event} (h : Extends log e)
    (ho : (openBlock log).isSome = true) (f : File) :
    view start (log ++ [e]) f = (view start log f).or (e.success f) := by
  obtain ⟨b, hb⟩ := Option.isSome_iff_exists.1 ho
  rw [view_open (b := b ++ [e]) (by rw [h, hb]; rfl), view_open hb, kept_concat]

theorem Synced.isOpen {h : LinuxHost} {s : Obj} (hs : Synced h s) {d : Cache File File.Content} (hd : s.procCache = some d) :
    (openBlock s.log).isSome = true := by
  rw [hs.opened, ← hs.procOpened, hd]
  rfl

/-- Without caches no block is open. -/
theorem Synced.closed {h : LinuxHost} {s : Obj} (hs : Synced h s) (hc : s.procCache = none) : openBlock s.log = none := by
  rw [← Option.isNone_iff_eq_none, ← Option.not_isSome, hs.opened, ← hs.procOpened, hc]
  rfl

theorem Synced.cache_eq_none {h : LinuxHost} {s : Obj} (hs : Synced h s) (hc : s.procCache = none) : s.cache = none := by
  rw [← Option.isNone_iff_eq_none, ← Option.not_isSome, ← hs.procOpened, hc]
  rfl

/-- Outside of blocks nothing is in view after a `start`. -/
theorem Synced.view_start {h : LinuxHost} {s : Obj} (hs : Synced h s) (hc : s.procCache = none) {start : Event → Bool}
    {e : Event} (hi : e.inner = true) (he : start e = true) (f : File) : view start (s.log ++ [e]) f = none := by
  rw [view, openBlock_inner hi, hs.closed hc, since_concat, he]
  rfl

/-- Only a return of `create_time` adds to what is known. -/
theorem Synced.known_concat {h : LinuxHost} {s : Obj} (hs : Synced h s) {e : Event}
    (hk : ∀ v, e = .ret .createTime (.ok v) → s.createTime.map Value.time = some v) :
    ∀ v, Event.ret .createTime (.ok v) ∈ s.log ++ [e] → s.createTime.map Value.time = some v := by
  intro v hv
  rcases List.mem_append.1 hv with hv | hv
  · exact hs.known v hv
  · exact hk v (List.mem_singleton.1 hv).symm

/-- An event that shows no content changes no cache and no view in a block. -/
theorem Synced.emit {h : LinuxHost} {s : Obj} (hs : Synced h s) {e : Event} (hi : Extends s.log e)
    (hn : ∀ f, e.success f = none) (hk : ∀ v, e = .ret .createTime (.ok v) → s.createTime.map Value.time = some v) :
    Synced h (s.emit e) where
  opened := by
    rw [Obj.emit, hi, Option.isSome_map]
    exact hs.opened
  procOpened := hs.procOpened
  proc d f start hd := by
    rw [Obj.emit, hi.view (hs.isOpen hd), hn, Option.or_none]
    exact hs.proc d f start hd
  self d g v start hd hv := by
    have ho : (openBlock s.log).isSome = true := by rw [hs.opened, show s.cache = some d from hd]; rfl
    simp only [Obj.emit, hi.view ho, hn, Option.or_none]
    exact hs.self d g v start hd hv
  known := hs.known_concat hk

theorem Good.emit {h : LinuxHost} {n : Nat} {t : Option ℚ} {s : Obj} (hs : Good h n t s) {e : Event} (hi : e.inner = true)
    (hn : ∀ f, e.success f = none) (hf : Faithful h s.log e)
    (hk : ∀ v, e = .ret .createTime (.ok v) → t.map Value.time = some v) : Good h n t (s.emit e) where
  consistent := consistent_concat.2 ⟨hs.consistent, hf⟩
  synced := hs.synced.emit (openBlock_inner hi s.log) hn (hs.createTime ▸ hk)
  level := (depth_inner hi s.log).trans hs.level
  createTime := hs.createTime

/-- The rest of an object does not matter. -/
theorem Good.congr {h : LinuxHost} {n : Nat} {t : Option ℚ} {s s' : Obj} (hs : Good h n t s) (hc : s'.cache = s.cache)
    (hp : s'.procCache = s.procCache) (hl : s'.log = s.log) (ht : s'.createTime = s.createTime) : Good h n t s' where
  consistent := hl ▸ hs.consistent
  synced := ⟨by rw [hl, hc, hs.synced.opened], by rw [hp, hc, hs.synced.procOpened], by rw [hp, hl]; exact hs.synced.proc,
    by rw [hc, hl]; exact hs.synced.self, by rw [hl, ht]; exact hs.synced.known⟩
  level := hl ▸ hs.level
  createTime := ht.trans hs.createTime

end Psutil.Oneshot
