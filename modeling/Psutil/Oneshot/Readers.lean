import Psutil.Oneshot.Spec

/-!
# The memoized readers

`Quiet` is what the code around the readers does: it looks at files without a cache. A reader keeps `Good`; what it
returns is then in view, and its failures come from a look it has just made.
-/

namespace Psutil.Oneshot

open Lib Eff

/-! ## Code that leaves the caches alone -/

/-- A look past the caches. -/
def Event.quiet : Event → Bool
  | .look (.memoized _) _ => false
  | .look _ _ => true
  | _ => false

structure Quiet (s s' : Obj) : Prop where
  cache : s'.cache = s.cache
  procCache : s'.procCache = s.procCache
  createTime : s'.createTime = s.createTime
  log : ∃ evs, s'.log = s.log ++ evs ∧ ∀ e ∈ evs, e.quiet = true

abbrev IsQuiet {α : Type} (x : Py α) : Prop := Moves Quiet x

theorem Quiet.refl (s : Obj) : Quiet s s := ⟨rfl, rfl, rfl, [], by simp, by simp⟩

theorem Quiet.trans (s s' s'' : Obj) (h : Quiet s s') (h' : Quiet s' s'') : Quiet s s'' := by
  obtain ⟨evs, he, hq⟩ := h.log
  obtain ⟨evs', he', hq'⟩ := h'.log
  refine ⟨h'.cache.trans h.cache, h'.procCache.trans h.procCache, h'.createTime.trans h.createTime, evs ++ evs', ?_, ?_⟩
  · rw [he', he, List.append_assoc]
  · exact fun e h => (List.mem_append.1 h).elim (hq e) (hq' e)

theorem Event.quiet_spec {e : Event} (h : e.quiet = true) :
    e.inner = true ∧ e.isCall = false ∧ e.isAsk = false ∧ (∀ f, e.success f = none) ∧
      (∀ hh log, Faithful hh log e) ∧ ∀ v, e ≠ .ret .createTime (.ok v) := by
  rcases e with _ | _ | ⟨_ | _ | _ | _ | _, data⟩ | _ | _ | _ | _ <;> cases h <;>
    exact ⟨rfl, rfl, rfl, fun _ => rfl, fun _ _ => trivial, fun _ => Event.noConfusion⟩

theorem since_append {start : Event → Bool} {evs : List Event} (h : ∀ e ∈ evs, start e = false) (log : List Event) :
    since start (log ++ evs) = since start log ++ evs := by
  induction evs generalizing log with
  | nil => simp
  | cons e evs ih =>
    rw [List.append_cons log e evs, ih (fun e' he' => h e' (List.mem_cons_of_mem _ he')), since_concat,
      h e List.mem_cons_self, if_neg Bool.false_ne_true, ← List.append_cons]

theorem view_append {start : Event → Bool} {evs : List Event} (hs : ∀ e, e.quiet = true → start e = false)
    (hq : ∀ e ∈ evs, e.quiet = true) (log : List Event) (f : File) : view start (log ++ evs) f = view start log f := by
  induction evs generalizing log with
  | nil => simp
  | cons e evs ih =>
    have he := hq e List.mem_cons_self
    rw [List.append_cons log e evs, ih (fun e' he' => hq e' (List.mem_cons_of_mem _ he')),
      view_inner (Event.quiet_spec he).1 (hs e he), (Event.quiet_spec he).2.2.2.1, Option.or_none]

theorem Good.emits {h : LinuxHost} {n : Nat} {t : Option ℚ} {evs : List Event} (hq : ∀ e ∈ evs, e.quiet = true) {s : Obj}
    (hs : Good h n t s) : Good h n t { s with log := s.log ++ evs } := by
  induction evs generalizing s with
  | nil => exact hs.congr rfl rfl (by simp) rfl
  | cons e evs ih =>
    obtain ⟨hi, -, -, hn, hf, hk⟩ := Event.quiet_spec (hq e List.mem_cons_self)
    have he := hs.emit hi hn (hf _ _) fun v hv => absurd hv (hk v)
    exact (ih (fun e' he' => hq e' (List.mem_cons_of_mem _ he')) he).congr rfl rfl (by simp [Obj.emit]) rfl

section
variable {s s' : Obj} (hq : Quiet s s')
include hq

theorem Quiet.good {h : LinuxHost} {n : Nat} {t : Option ℚ} (hs : Good h n t s) : Good h n t s' := by
  obtain ⟨evs, he, hevs⟩ := hq.log
  exact (hs.emits hevs).congr hq.cache hq.procCache he hq.createTime

theorem Quiet.view (f : File) : view Event.isCall s'.log f = view Event.isCall s.log f := by
  obtain ⟨evs, he, hevs⟩ := hq.log
  rw [he, view_append (fun e h => (Event.quiet_spec h).2.1) hevs]

theorem Quiet.fresh {f : File} (hs : Fresh f s) : Fresh f s' := fun h => by
  rw [hq.view, hs (hq.procCache ▸ h)]

theorem Quiet.mem_since_ask {e : Event} (he : e ∈ since Event.isAsk s.log) : e ∈ since Event.isAsk s'.log := by
  obtain ⟨evs, heq, hevs⟩ := hq.log
  rw [heq, since_append fun e h => (Event.quiet_spec (hevs e h)).2.2.1]
  exact List.mem_append_left _ he

end

section
variable {α β : Type}

theorem IsQuiet.pure (a : α) : IsQuiet (Pure.pure a : Py α) := Moves.pure Quiet.refl a

theorem IsQuiet.throw (e : Exc) : IsQuiet (throw e : Py α) := Moves.throw Quiet.refl e

theorem IsQuiet.get : IsQuiet (get : Py Obj) := Moves.get Quiet.refl

theorem IsQuiet.bind {x : Py α} {f : α → Py β} (hx : IsQuiet x) (hf : ∀ a, IsQuiet (f a)) : IsQuiet (x >>= f) :=
  Moves.bind Quiet.trans hx hf

theorem IsQuiet.tryCatch {x : Py α} {f : Exc → Py α} (hx : IsQuiet x) (hf : ∀ e, IsQuiet (f e)) :
    IsQuiet (tryCatch x f) := Moves.tryCatch Quiet.trans hx hf

theorem IsQuiet.ofExcept (r : Except Exc α) : IsQuiet (ofExcept r) := fun s => Quiet.refl s

/-- A change of attributes that are not caches. -/
theorem IsQuiet.modify {f : Obj → Obj} (h : ∀ s, (f s).cache = s.cache ∧ (f s).procCache = s.procCache ∧
    (f s).createTime = s.createTime ∧ (f s).log = s.log) : IsQuiet (modify f : Py PUnit) :=
  Moves.modify fun s => ⟨(h s).1, (h s).2.1, (h s).2.2.1, [], by rw [(h s).2.2.2, List.append_nil], by simp⟩

end

variable (h : LinuxHost)

theorem look_quiet {l : Look} (hl : ∀ f, l ≠ .memoized f) : IsQuiet (h.look l) := fun s =>
  ⟨rfl, rfl, rfl, [.look l ((h.moment s.now).read l.path)], rfl, fun e he => by
    rw [List.mem_singleton.1 he]
    cases l with
    | memoized f => exact absurd rfl (hl f)
    | _ => rfl⟩

theorem statExists_quiet : IsQuiet h.statExists := fun s => ⟨rfl, rfl, rfl, [], by simp [LinuxHost.statExists], by simp⟩

/-! ## `_is_zombie` and `wrap_exceptions` -/

def Exc.isZombie : Exc → Bool
  | .zombieProcess _ _ _ => true
  | _ => false

/-- An exception that says zombie follows a look that shows one. -/
def Honest {α : Type} (x : Py α) : Prop := ∀ s e, (x s).1 = .error e → Exc.isZombie e = true → Probed (x s).2.log

theorem isZombie_run (s : Obj) : ∃ b, h.isZombie s = (.ok b, (h.look .zombie s).2) ∧
    (b = true → Probed (h.look .zombie s).2.log) := by
  rw [LinuxHost.isZombie, tryCatch_run, bind_run]
  simp only [LinuxHost.look]
  cases hd : (h.moment s.now).read (Look.zombie).path with
  | error e => exact ⟨false, rfl, by simp⟩
  | ok data =>
    refine ⟨showsZombie data, rfl, fun hz => ⟨data, ?_, hz⟩⟩
    simp [Obj.emit, since_concat, Event.isCall]

theorem raiseIfZombie_quiet : IsQuiet h.raiseIfZombie := by
  refine IsQuiet.bind (fun s => ?_) fun b => ?_
  · obtain ⟨b, hb, -⟩ := isZombie_run h s
    rw [hb]
    exact look_quiet h (by simp) s
  · cases b
    · exact IsQuiet.pure _
    · exact IsQuiet.throw _

theorem raiseIfZombie_honest : Honest h.raiseIfZombie := by
  intro s e he _
  obtain ⟨b, hb, hp⟩ := isZombie_run h s
  rw [LinuxHost.raiseIfZombie, bind_run, hb] at he ⊢
  cases b with
  | true => exact hp rfl
  | false => cases he

theorem translate_quiet {α : Type} (e : Exc) : IsQuiet (h.translate e : Py α) := by
  unfold LinuxHost.translate
  split
  · exact IsQuiet.throw _
  · exact IsQuiet.throw _
  · exact IsQuiet.bind (raiseIfZombie_quiet h) fun _ => IsQuiet.throw _
  · refine IsQuiet.bind (raiseIfZombie_quiet h) fun _ => IsQuiet.bind (statExists_quiet h) fun b => ?_
    cases b
    · exact IsQuiet.bind (IsQuiet.throw _) fun _ => IsQuiet.throw _
    · exact IsQuiet.throw _
  · exact IsQuiet.throw _

/-- Every branch raises; a zombie is raised again, or has just been seen. -/
theorem translate_spec {α : Type} (e : Exc) (s : Obj) : ∃ e', ((h.translate e : Py α) s).1 = .error e' ∧
    (Exc.isZombie e' = true → (Exc.isZombie e = true ∧ ((h.translate e : Py α) s).2 = s) ∨
      Probed ((h.translate e : Py α) s).2.log) := by
  have hz := raiseIfZombie_honest h s
  unfold LinuxHost.translate
  split
  · exact ⟨_, rfl, by simp [Exc.isZombie]⟩
  · exact ⟨_, rfl, by simp [Exc.isZombie]⟩
  · rw [bind_run]
    rcases hr : h.raiseIfZombie s with ⟨r, s'⟩
    rw [hr] at hz
    cases r with
    | ok _ => exact ⟨_, rfl, by simp [LinuxHost.noSuchProcess, Exc.isZombie]⟩
    | error e' => exact ⟨e', rfl, fun he => Or.inr (hz e' rfl he)⟩
  · rw [bind_run]
    rcases hr : h.raiseIfZombie s with ⟨r, s'⟩
    rw [hr] at hz
    cases r with
    | error e' => exact ⟨e', rfl, fun he => Or.inr (hz e' rfl he)⟩
    | ok _ =>
      simp only [LinuxHost.statExists, bind_run]
      cases (h.moment s'.now).statExists with
      | false => exact ⟨_, rfl, by simp [LinuxHost.noSuchProcess, Exc.isZombie]⟩
      | true => exact ⟨_, rfl, by simp [Exc.isZombie]⟩
  · exact ⟨e, rfl, fun he => Or.inl ⟨he, rfl⟩⟩

theorem wrapExceptions_honest {α : Type} {x : Py α} (hx : Honest x) : Honest (h.wrapExceptions x) := by
  intro s e he hz
  have hx := hx s
  rw [LinuxHost.wrapExceptions, tryCatch_run] at he ⊢
  rcases hr : x s with ⟨r, s'⟩
  rw [hr] at he hx
  cases r with
  | ok a => cases he
  | error e₀ =>
    obtain ⟨e', he', hz'⟩ := translate_spec h (α := α) e₀ s'
    obtain rfl : e' = e := Except.error.inj (he'.symm.trans he)
    rcases hz' hz with ⟨hz₀, hs⟩ | hp
    · exact hs.symm ▸ hx e₀ rfl hz₀
    · exact hp

theorem wrapExceptions_quiet {α : Type} {x : Py α} (hx : IsQuiet x) : IsQuiet (h.wrapExceptions x) :=
  hx.tryCatch (translate_quiet h)

/-- The wrapper passes on what is returned, and only looks past the caches after a failure. -/
theorem wrapExceptions_triple {α : Type} {x : Py α} {P : Obj → Prop} {Q : Except Exc α → Obj → Prop} (hx : Triple P x Q)
    (hq : ∀ e e' s s', Q (.error e) s → Quiet s s' → Q (.error e') s') : Triple P (h.wrapExceptions x) Q := by
  apply hx.tryCatch (fun _ _ => id)
  intro e s hs
  obtain ⟨e', he', -⟩ := translate_spec h (α := α) e s
  rw [he']
  exact hq e e' s _ hs (translate_quiet h e s)

/-! ## A memoized reader -/

section
variable {κ : Type} {ν : κ → Type} [DecidableEq κ] {cache : Obj → Option (Cache κ ν)} {setCache : Cache κ ν → Obj → Obj}
  {key : κ} {fun_ : Py (ν key)} {s : Obj}

theorem memoize_off (hc : cache s = none) : memoizeWhenActivated cache setCache key fun_ s = fun_ s := by
  rw [memoizeWhenActivated, get_bind_run]
  simp only [hc]

theorem memoize_hit {d : Cache κ ν} {v : ν key} (hc : cache s = some d) (hv : d key = some v) :
    memoizeWhenActivated cache setCache key fun_ s = (.ok v, s) := by
  rw [memoizeWhenActivated, get_bind_run]
  simp only [hc, hv]
  rfl

theorem memoize_miss {d : Cache κ ν} (hc : cache s = some d) (hv : d key = none) :
    memoizeWhenActivated cache setCache key fun_ s = match fun_ s with
      | (.ok ret, s') => (.ok ret, match cache s' with
        | some d => setCache (Function.update d key (some ret)) s'
        | none => s')
      | (.error e, s') => (.error e, s') := by
  rw [memoizeWhenActivated, get_bind_run]
  simp only [hc, hv]
  rw [bind_run]
  rcases fun_ s with ⟨r, s'⟩
  cases r <;> rfl

end

/-- A pure step that does not say zombie. -/
def Plain {α : Type} (r : Except Exc α) : Prop := ∀ e, r = .error e → Exc.isZombie e = false

section
variable {α β : Type}

theorem Plain.ok (a : α) : Plain (.ok a) := fun _ he => by cases he

theorem Plain.bind {x : Except Exc α} {f : α → Except Exc β} (hx : Plain x) (hf : ∀ a, Plain (f a)) : Plain (x >>= f) := by
  intro e he
  cases hr : x with
  | error e' =>
    rw [hr] at he
    cases he
    exact hx _ hr
  | ok a =>
    rw [hr] at he
    exact hf a e he

theorem plain_getItem (l : List Bytes) (i : Nat) : Plain (Bytes.getItem l i) := by
  intro e he
  unfold Bytes.getItem at he
  split at he <;> cases he
  rfl

end

theorem plain_parse (f : File) (data : Bytes) : Plain (f.parse data) := by
  cases f with
  | stat =>
    refine Plain.bind (plain_getItem _ _) fun _ => Plain.bind (plain_getItem _ _) fun _ =>
      Plain.bind (plain_getItem _ _) fun _ => Plain.bind (plain_getItem _ _) fun _ =>
      Plain.bind (plain_getItem _ _) fun _ => Plain.bind (plain_getItem _ _) fun _ =>
      Plain.bind (plain_getItem _ _) fun _ => Plain.bind (plain_getItem _ _) fun _ =>
      Plain.bind (plain_getItem _ _) fun _ => Plain.bind (plain_getItem _ _) fun _ =>
      Plain.bind (plain_getItem _ _) fun _ => Plain.ok _
  | status => exact Plain.ok _
  | smaps => exact Plain.ok _

theorem success_self (f : File) (data : Bytes) :
    Event.success f (.look (.memoized f) (.ok data)) = (f.parse data).toOption := by simp [Event.success]

theorem success_ne {f f' : File} (hf : f ≠ f') (data : Except Errno Bytes) :
    Event.success f' (.look (.memoized f) data) = none := by
  cases data <;> simp [Event.success, hf]

/-- The event of a reader's look in a state. -/
def LinuxHost.lookEvent (h : LinuxHost) (f : File) (s : Obj) : Event :=
  .look (.memoized f) ((h.moment s.now).read (.file f))

/-- The body of a reader: one look, of which it makes what the log shows. -/
theorem readBody_run (f : File) (s : Obj) :
    (h.readBody f s).2 = { s.emit (h.lookEvent f s) with now := s.now + 1 } ∧
      ((∃ c, (h.readBody f s).1 = .ok c ∧ Event.success f (h.lookEvent f s) = some c) ∨
        ∃ e, (h.readBody f s).1 = .error e ∧ Exc.isZombie e = false ∧ Event.success f (h.lookEvent f s) = none) := by
  rw [LinuxHost.readBody, bind_run]
  simp only [LinuxHost.look, LinuxHost.lookEvent, Look.path]
  cases hd : (h.moment s.now).read (.file f) with
  | error e => exact ⟨rfl, Or.inr ⟨_, rfl, rfl, by simp [Event.success]⟩⟩
  | ok data =>
    refine ⟨rfl, ?_⟩
    simp only [success_self, ofExcept]
    cases hp : f.parse data with
    | ok c => exact Or.inl ⟨c, rfl, rfl⟩
    | error e => exact Or.inr ⟨e, rfl, plain_parse f data e hp, rfl⟩

section
variable {h} {n : Nat} {t : Option ℚ} {s : Obj}

/-- Outside of blocks there is no cache to keep in step. -/
theorem Good.emitClosed (hs : Good h n t s) (hc : s.procCache = none) {e : Event} (hi : e.inner = true)
    (hf : Faithful h s.log e) (hk : ∀ v, e ≠ .ret .createTime (.ok v)) : Good h n t (s.emit e) where
  consistent := consistent_concat.2 ⟨hs.consistent, hf⟩
  synced :=
    have hcache := hs.synced.cache_eq_none hc
    { opened := by
        rw [Obj.emit, openBlock_inner hi, Option.isSome_map]
        exact hs.synced.opened
      procOpened := hs.synced.procOpened
      proc := fun d f start hd => by rw [show s.procCache = some d from hd] at hc; cases hc
      self := fun d g v start hd => by rw [show s.cache = some d from hd] at hcache; cases hcache
      known := hs.synced.known_concat fun v hv => absurd hv (hk v) }
  level := (depth_inner hi s.log).trans hs.level
  createTime := hs.createTime

/-- A content that is read in a block and stored at once. -/
theorem Good.read (hs : Good h n t s) {d : Cache File File.Content} {f : File} {c : f.Content} (hc : s.procCache = some d)
    {e : Event} (hi : e.inner = true) (hf : Faithful h s.log e) (hk : ∀ v, e ≠ .ret .createTime (.ok v)) (hd : d f = none)
    (hself : e.success f = some c) (hne : ∀ f', f' ≠ f → e.success f' = none) :
    Good h n t { s.emit e with procCache := some (Function.update d f (some c)) } where
  consistent := consistent_concat.2 ⟨hs.consistent, hf⟩
  synced :=
    have ho := hs.synced.isOpen hc
    have hext : Extends s.log e := openBlock_inner hi s.log
    { opened := by
        simp only [Obj.emit, openBlock_inner hi, Option.isSome_map]
        exact hs.synced.opened
      procOpened := by
        change true = s.cache.isSome
        rw [← hs.synced.procOpened, hc]
        rfl
      proc := fun d' f' start hd' => by
        cases hd'
        simp only [Obj.emit, hext.view ho, ← hs.synced.proc d f' start hc]
        by_cases hff : f' = f
        · subst hff
          rw [Function.update_self, hd, hself, Option.none_or]
        · rw [Function.update_of_ne hff, hne f' hff, Option.or_none]
      self := fun d' g v start hd' hv => by
        obtain ⟨c', hc', hs'⟩ := hs.synced.self d' g v start hd' hv
        exact ⟨c', by simp only [Obj.emit, hext.view ho, hc', Option.some_or], hs'⟩
      known := hs.synced.known_concat fun v hv => absurd hv (hk v) }
  level := (depth_inner hi s.log).trans hs.level
  createTime := hs.createTime

/-- What a reader hands on: a content in view, or a failure of the look it has just made. -/
def Read (h : LinuxHost) (n : Nat) (t : Option ℚ) (f : File) (r : Except Exc f.Content) (s : Obj) : Prop :=
  Good h n t s ∧ match r with
    | .ok c => view Event.isCall s.log f = some c ∧ view Event.isAsk s.log f = some c
    | .error _ => ∃ data, .look (.memoized f) data ∈ since Event.isAsk s.log ∧
        Event.success f (.look (.memoized f) data) = none

/-- The views of a file just after a look at it. -/
theorem view_lookEvent {start : Event → Bool} (hstart : ∀ l data, start (.look l data) = false) {f : File}
    (hv : view start s.log f = none) :
    view start (s.log ++ [h.lookEvent f s]) f = Event.success f (h.lookEvent f s) := by
  rw [LinuxHost.lookEvent, view_inner rfl (hstart _ _), hv, Option.none_or]

theorem lookEvent_mem (f : File) (s : Obj) : h.lookEvent f s ∈ since Event.isAsk (s.log ++ [h.lookEvent f s]) := by
  rw [since_concat]
  exact List.mem_append_right _ List.mem_cons_self

/-- Outside of blocks a reader reads. -/
theorem reader_closed (hs : Good h n t s) (hc : s.procCache = none) {f : File} (hcall : view Event.isCall s.log f = none)
    (hask : view Event.isAsk s.log f = none) : Read h n t f (h.readBody f s).1 (h.readBody f s).2 := by
  obtain ⟨hstate, hres⟩ := readBody_run h f s
  have hfaith : Faithful h s.log (h.lookEvent f s) := fun b hb => by rwa [view_open hb] at hcall
  refine ⟨?_, ?_⟩
  · rw [hstate]
    exact (hs.emitClosed hc rfl hfaith fun v => Event.noConfusion).congr rfl rfl rfl rfl
  · rcases hres with ⟨c, hr, hsucc⟩ | ⟨e, hr, -, hsucc⟩
    · rw [hr, hstate]
      exact ⟨(view_lookEvent (fun _ _ => rfl) hcall).trans hsucc, (view_lookEvent (fun _ _ => rfl) hask).trans hsucc⟩
    · rw [hr, hstate]
      exact ⟨_, lookEvent_mem f s, hsucc⟩

/-- In a block a reader whose file is not cached reads, and stores what it got. -/
theorem reader_miss (hs : Good h n t s) {d : Cache File File.Content} (hc : s.procCache = some d) {f : File} (hd : d f = none) :
    Read h n t f (memoizeWhenActivated Obj.procCache (fun d s => { s with procCache := some d }) f (h.readBody f) s).1
      (memoizeWhenActivated Obj.procCache (fun d s => { s with procCache := some d }) f (h.readBody f) s).2 := by
  obtain ⟨hstate, hres⟩ := readBody_run h f s
  have hnone : ∀ start, view start s.log f = none := fun start => (hs.synced.proc d f start hc).symm.trans hd
  have hfaith : Faithful h s.log (h.lookEvent f s) := fun b hb => by
    have hopen : view Event.isCall s.log f = kept f b := view_open hb f
    rw [← hopen, hnone]
  rw [memoize_miss hc hd]
  rcases hr : h.readBody f s with ⟨r, s'⟩
  rw [hr] at hstate hres
  simp only at hstate hres
  subst hstate
  rcases hres with ⟨c, rfl, hsucc⟩ | ⟨e, rfl, -, hsucc⟩
  · have hgood := hs.read hc rfl hfaith (fun v => Event.noConfusion) hd hsucc
      fun f' hf => success_ne (Ne.symm hf) _
    simp only [Obj.emit, hc]
    refine ⟨hgood.congr rfl rfl rfl rfl, ?_, ?_⟩
    · exact (view_lookEvent (fun _ _ => rfl) (hnone _)).trans hsucc
    · exact (view_lookEvent (fun _ _ => rfl) (hnone _)).trans hsucc
  · have hno : ∀ f', Event.success f' (h.lookEvent f s) = none := fun f' => by
      by_cases hf : f = f'
      · exact hf ▸ hsucc
      · exact success_ne hf _
    refine ⟨(hs.emit rfl hno hfaith (fun v hv => Event.noConfusion hv)).congr rfl rfl rfl rfl, ?_⟩
    exact ⟨_, lookEvent_mem f s, hsucc⟩

/-- A memoized reader, called on an object where an uncached file is not in view. -/
theorem reader_triple (f : File) :
    Triple (fun s => Good h n t s ∧ (s.procCache = none → view Event.isCall s.log f = none ∧ view Event.isAsk s.log f = none))
      (memoizeWhenActivated Obj.procCache (fun d s => { s with procCache := some d }) f (h.readBody f)) (Read h n t f) := by
  rintro s ⟨hs, hclosed⟩
  cases hc : s.procCache with
  | none =>
    rw [memoize_off hc]
    exact reader_closed hs hc (hclosed hc).1 (hclosed hc).2
  | some d =>
    cases hd : d f with
    | some c =>
      have hview : ∀ start, view start s.log f = some c := fun start => (hs.synced.proc d f start hc).symm.trans hd
      rw [memoize_hit hc hd]
      exact ⟨hs, hview _, hview _⟩
    | none => exact reader_miss hs hc hd

/-- A call of a reader: asked, answered, and the answer is what the log accounts for. -/
theorem readFile_triple (f : File) : Triple (fun s => Good h n t s ∧ Fresh f s) (h.readFile f)
    (fun r s => Good h n t s ∧ ∀ c, r = .ok c → view Event.isCall s.log f = some c) := by
  rintro s ⟨hs, hfresh⟩
  have hask : Good h n t (s.emit (.ask f)) := hs.emit rfl (fun _ => rfl) trivial fun v hv => by cases hv
  have hpre : (s.emit (.ask f)).procCache = none → view Event.isCall (s.emit (.ask f)).log f = none ∧
      view Event.isAsk (s.emit (.ask f)).log f = none := by
    intro hc
    refine ⟨?_, hs.synced.view_start hc rfl rfl f⟩
    rw [Obj.emit, view_inner rfl rfl, hfresh hc]
    rfl
  have hread := wrapExceptions_triple h (reader_triple f) (Q := Read h n t f) (fun e e' s s' hs hq => by
    obtain ⟨hg, data, hd, hn⟩ := hs
    exact ⟨hq.good hg, data, hq.mem_since_ask hd, hn⟩) _ ⟨hask, hpre⟩
  simp only [LinuxHost.readFile]
  rcases hr : h.wrapExceptions (memoizeWhenActivated Obj.procCache (fun d s => { s with procCache := some d }) f (h.readBody f))
    (s.emit (.ask f)) with ⟨r, s'⟩
  rw [hr] at hread
  obtain ⟨hg, hout⟩ := hread
  have hfaith : Faithful h s'.log (.answer f r) := by
    cases r with
    | ok c => exact hout.2
    | error e => exact hout
  refine ⟨hg.emit rfl (fun _ => rfl) hfaith fun v hv => Event.noConfusion hv, fun c hc => ?_⟩
  subst hc
  change view Event.isCall (s'.log ++ [_]) f = some c
  rw [view_inner rfl rfl, hout.1]
  rfl

end

end Psutil.Oneshot
