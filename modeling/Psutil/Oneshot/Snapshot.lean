import Mathlib.Data.List.Induction
import Psutil.Oneshot.Readers

/-!
# Snapshot consistency of `oneshot()`

`Answers` is the contract of a getter: it keeps `Good`, and what it returns is computed from the content of its file
that is in view. A getter keeps it whatever it does past the caches; a block, entered and left, keeps `Good` too.
`oneshot_snapshot` reads the result off the log of any program.
-/

namespace Psutil.Oneshot

open Lib Eff

variable (h : LinuxHost)

/-- Nothing more is known of the outcome than that the state is as before. -/
def Keeps (f : File) {α : Type} (x : Py α) : Prop :=
  ∀ n t, Triple (fun s => Good h n t s ∧ Fresh f s) x fun _ s => Good h n t s

def Answers (f : File) {α : Type} (x : Py α) (Q : f.Content → α → Prop) : Prop :=
  ∀ n t, Triple (fun s => Good h n t s ∧ Fresh f s) x fun r s =>
    Good h n t s ∧ ∀ a, r = .ok a → ∃ c, view Event.isCall s.log f = some c ∧ Q c a

/-- A value is stored while the content it was computed from is in view. -/
theorem Good.store {h} {n : Nat} {t : Option ℚ} {s : Obj} (hs : Good h n t s) {d : Cache Getter fun _ => Value}
    (hc : s.cache = some d) {g : Getter} {c : g.file.Content} {v : Value}
    (hview : view Event.isCall s.log g.file = some c) (hshow : Shows h g c v) :
    Good h n t { s with cache := some (Function.update d g (some v)) } where
  consistent := hs.consistent
  synced :=
    { opened := by rw [hs.synced.opened, hc]; rfl
      procOpened := by rw [hs.synced.procOpened, hc]; rfl
      proc := hs.synced.proc
      self := fun d' g' v' start hd' hv' => by
        cases hd'
        by_cases hgg : g' = g
        · subst hgg
          rw [Function.update_self, Option.some.injEq] at hv'
          subst hv'
          obtain ⟨b, hb⟩ := Option.isSome_iff_exists.1 (hs.synced.opened.trans (by rw [hc]; rfl))
          exact ⟨c, by rwa [view_open hb] at hview ⊢, hshow⟩
        · rw [Function.update_of_ne hgg] at hv'
          exact hs.synced.self d g' v' start hc hv'
      known := hs.synced.known }
  level := hs.level
  createTime := hs.createTime

section
variable {h} {f : File} {α β : Type} {Q : f.Content → α → Prop} {x : Py α}

theorem Answers.keeps (hx : Answers h f x Q) : Keeps h f x := fun n t s hs => (hx n t s hs).1

/-- What follows the reader looks past the caches. -/
theorem Answers.bind {k : α → Py β} {Q' : f.Content → β → Prop} (hx : Answers h f x Q) (hk : ∀ a, IsQuiet (k a))
    (hQ : ∀ a s b, (k a s).1 = .ok b → ∀ c, Q c a → Q' c b) : Answers h f (x >>= k) Q' := by
  intro n t
  refine (hx n t).bind (fun a s hs => ?_) fun e s hs => ⟨hs.1, fun _ h => by cases h⟩
  obtain ⟨hg, hc⟩ := hs
  obtain ⟨c, hc, hq⟩ := hc a rfl
  refine ⟨(hk a s).good hg, fun b hb => ⟨c, ?_, hQ a s b hb c hq⟩⟩
  rw [(hk a s).view, hc]

/-- What precedes the reader looks past the caches. -/
theorem Answers.after {y : Py β} (hy : IsQuiet y) (hx : Answers h f x Q) : Answers h f (y >>= fun _ => x) Q := by
  intro n t
  have hq : Triple (fun s => Good h n t s ∧ Fresh f s) y fun _ s => Good h n t s ∧ Fresh f s :=
    Moves.triple hy fun s s' _ hs hq => ⟨hq.good hs.1, hq.fresh hs.2⟩
  exact hq.bind (fun _ => hx n t) fun e s hs => ⟨hs.1, fun _ h => by cases h⟩

theorem Answers.mono {Q' : f.Content → α → Prop} (hx : Answers h f x Q) (hQ : ∀ c a, Q c a → Q' c a) :
    Answers h f x Q' := fun n t s hs => by
  obtain ⟨hg, ha⟩ := hx n t s hs
  exact ⟨hg, fun a h => (ha a h).imp fun c hc => ⟨hc.1, hQ c a hc.2⟩⟩

theorem Answers.wrapExceptions (hx : Answers h f x Q) : Answers h f (h.wrapExceptions x) Q := by
  intro n t
  refine hx n t |>.tryCatch (fun a s hs => hs) fun e s hs => ?_
  obtain ⟨e', he', -⟩ := translate_spec h (α := α) e s
  exact ⟨(translate_quiet h e s).good hs.1, fun a ha => by rw [he'] at ha; cases ha⟩

theorem Keeps.wrapExceptions (hx : Keeps h f x) : Keeps h f (h.wrapExceptions x) := fun n t =>
  wrapExceptions_triple h (hx n t) fun _ _ _ _ hs hq => hq.good hs

theorem Keeps.bind_quiet {k : α → Py β} (hx : Keeps h f x) (hk : ∀ a, IsQuiet (k a)) : Keeps h f (x >>= k) := fun n t =>
  (hx n t).bind (fun a => Moves.triple (hk a) fun _ _ _ hs hq => hq.good hs) fun _ _ hs => hs

theorem answers_readFile (f : File) : Answers h f (h.readFile f) fun c a => a = c := fun _ _ =>
  (readFile_triple f).mono (fun _ hs => hs) fun _ _ hs => ⟨hs.1, fun a ha => ⟨a, hs.2 a ha, rfl⟩⟩

theorem answers_fromFile (f : File) (value : f.Content → Except Exc Value) :
    Answers h f (h.fromFile f value) fun c v => value c = .ok v :=
  ((answers_readFile f).bind (fun _ => IsQuiet.ofExcept _) fun _ _ _ hv _ hc => hc ▸ hv).wrapExceptions

/-- The cache of the outer object only holds what was computed from contents in view. -/
theorem Answers.memoized {g : Getter} {x : Py Value} (hx : Answers h g.file x (Shows h g)) :
    Answers h g.file (PyProcess.memoized g x) (Shows h g) := by
  rintro n t s ⟨hs, hfresh⟩
  cases hc : s.cache with
  | none =>
    rw [PyProcess.memoized, memoize_off hc]
    exact hx n t s ⟨hs, hfresh⟩
  | some d => cases hd : d g with
    | some v =>
      rw [PyProcess.memoized, memoize_hit hc hd]
      refine ⟨hs, fun a ha => ?_⟩
      cases ha
      exact hs.synced.self d g v _ hc hd
    | none =>
      have hx := hx n t s ⟨hs, hfresh⟩
      rw [PyProcess.memoized, memoize_miss hc hd]
      rcases hr : x s with ⟨r, s'⟩
      rw [hr] at hx
      obtain ⟨hg, hans⟩ := hx
      cases r with
      | error e => exact ⟨hg, fun a ha => by cases ha⟩
      | ok v =>
        obtain ⟨c, hc', hshow⟩ := hans v rfl
        constructor
        · cases hc₁ : s'.cache with
          | none => simpa [hc₁] using hg
          | some d' => simpa [hc₁] using hg.store hc₁ hc' hshow
        · intro a ha
          cases ha
          exact ⟨c, by cases hc₁ : s'.cache <;> simpa [hc₁] using hc', hshow⟩

end

/-! ## The getters -/

theorem otherIdent_quiet : IsQuiet (PyProcess.otherIdent h) := by
  refine IsQuiet.tryCatch (IsQuiet.bind (wrapExceptions_quiet h (IsQuiet.bind (wrapExceptions_quiet h
    (IsQuiet.bind (look_quiet h (by simp)) fun _ => IsQuiet.ofExcept _)) fun _ => IsQuiet.ofExcept _))
    fun _ => IsQuiet.pure _) fun e => ?_
  split
  · exact IsQuiet.pure _
  · exact IsQuiet.pure _
  · exact IsQuiet.throw _
  · exact IsQuiet.throw _

theorem isRunning_quiet : IsQuiet (PyProcess.isRunning h) := by
  apply IsQuiet.bind IsQuiet.get
  intro s
  split
  · exact IsQuiet.pure _
  · refine IsQuiet.tryCatch (IsQuiet.bind (otherIdent_quiet h) fun other => IsQuiet.bind (IsQuiet.modify fun s => by simp) fun _ =>
      IsQuiet.bind IsQuiet.get fun s' => ?_) fun e => ?_
    · split
      · exact IsQuiet.bind (IsQuiet.throw _) fun _ => IsQuiet.pure _
      · exact IsQuiet.pure _
    · split
      · exact IsQuiet.pure _
      · exact IsQuiet.bind (IsQuiet.modify fun s => by simp) fun _ => IsQuiet.pure _
      · exact IsQuiet.throw _

theorem raiseIfPidReused_quiet : IsQuiet (PyProcess.raiseIfPidReused h) := by
  apply IsQuiet.bind IsQuiet.get
  intro s
  have hrest : IsQuiet (do
      let running ← PyProcess.isRunning h
      if !running && (← get).pidReused then throw (PyProcess.pidReused h) : Py Unit) := by
    refine IsQuiet.bind (isRunning_quiet h) fun running => IsQuiet.bind IsQuiet.get fun s' => ?_
    split
    · exact IsQuiet.throw _
    · exact IsQuiet.pure _
  split
  · exact IsQuiet.bind (IsQuiet.throw _) fun _ => hrest
  · exact hrest

/-- A getter of the platform that only computes a value from a file. -/
theorem fromFile_answers (g : Getter) {value : g.file.Content → Except Exc Value} (hv : ∀ ex now, g.value h ex now = value) :
    Answers h g.file (h.fromFile g.file value) (Shows h g) :=
  (answers_fromFile g.file value).mono fun _ _ ha => ⟨fun _ _ => .ok false, 0, by rw [hv, ha]⟩

theorem ppid_answers : Answers h .stat (PyProcess.ppid h) (Shows h .ppid) :=
  Answers.memoized (g := .ppid) (Answers.after (raiseIfPidReused_quiet h) (fromFile_answers h .ppid fun _ _ => rfl))

theorem memoryMaps_answers (grouped : Bool) :
    Answers h .smaps (PyProcess.memoryMaps h grouped) (Shows h (.memoryMaps grouped)) := by
  have hplat : Answers h .smaps (Plat.memoryMaps h) fun c it => ∃ ex now, regionsOf ex now c = .ok it := by
    refine ((answers_readFile .smaps).bind (fun data => ?_) fun data s it hit c hc => ?_).wrapExceptions
    · split
      · exact IsQuiet.bind (raiseIfZombie_quiet h) fun _ => IsQuiet.pure _
      · exact fun s => ⟨rfl, rfl, rfl, [], by simp [Plat.mapsBlocks], by simp⟩
    · subst hc
      split at hit
      · rename_i hd
        refine ⟨fun _ _ => .ok false, 0, ?_⟩
        rw [bind_run] at hit
        rcases hr : h.raiseIfZombie s with ⟨_ | _, s'⟩ <;> rw [hr] at hit <;> cases hit
        exact if_pos hd
      · rename_i hd
        exact ⟨_, s.now, (if_neg hd).trans hit⟩
  apply hplat.bind (fun _ => IsQuiet.pure _)
  intro it s v hv c hc
  obtain ⟨ex, now, hit⟩ := hc
  cases hv
  exact ⟨ex, now, by simp [Getter.value, hit, Except.map]⟩

/-- How a getter ends: what it returned has a source, and `create_time` is known from then on. -/
def Ends (n : Nat) (g : Getter) (r : Except Exc Value) (s : Obj) : Prop :=
  ∃ t, Good h n t s ∧ ∀ v, r = .ok v → Sourced h s.log g v ∧ (g = .createTime → t.map Value.time = some v)

theorem Answers.ends {g : Getter} {x : Py Value} (hx : Answers h g.file x (Shows h g)) (hg : g ≠ .createTime) (n : Nat)
    (t : Option ℚ) : Triple (fun s => Good h n t s ∧ Fresh g.file s) x (Ends h n g) :=
  (hx n t).mono (fun _ hs => hs) fun _ _ hs => ⟨t, hs.1, fun v hv => ⟨Or.inl (hs.2 v hv), fun h => absurd h hg⟩⟩

/-- A getter that only computes a value from a file. -/
theorem fromFile_ends {g : Getter} (hg : g ≠ .createTime) {value : g.file.Content → Except Exc Value}
    (hv : ∀ ex now, g.value h ex now = value) (n : Nat) (t : Option ℚ) :
    Triple (fun s => Good h n t s ∧ Fresh g.file s) (h.fromFile g.file value) (Ends h n g) :=
  (fromFile_answers h g hv).ends h hg n t

/-- The same getter behind the cache of the outer object. -/
theorem memoized_ends {g : Getter} (hg : g ≠ .createTime) {value : g.file.Content → Except Exc Value}
    (hv : ∀ ex now, g.value h ex now = value) (n : Nat) (t : Option ℚ) :
    Triple (fun s => Good h n t s ∧ Fresh g.file s) (PyProcess.memoized g (h.fromFile g.file value)) (Ends h n g) :=
  (fromFile_answers h g hv).memoized.ends h hg n t

/-! ### `status` -/

theorem readFile_honest (f : File) : Honest (h.readFile f) := by
  have hbody : Honest (memoizeWhenActivated Obj.procCache (fun d s => { s with procCache := some d }) f (h.readBody f)) := by
    intro s e he hz
    have hres : (h.readBody f s).1 = .error e := by
      cases hc : s.procCache with
      | none => rwa [memoize_off hc] at he
      | some d => cases hd : d f with
        | some c =>
          rw [memoize_hit hc hd] at he
          cases he
        | none =>
          rw [memoize_miss hc hd] at he
          rcases hr : h.readBody f s with ⟨_ | _, s'⟩ <;> rw [hr] at he
          · exact he
          · cases he
    obtain ⟨-, ⟨c, hc, -⟩ | ⟨e', he', hz', -⟩⟩ := readBody_run h f s
    · rw [hc] at hres
      cases hres
    · rw [he'] at hres
      cases hres
      rw [hz'] at hz
      cases hz
  intro s e he hz
  obtain ⟨data, hd, hshow⟩ := wrapExceptions_honest h hbody _ e he hz
  refine ⟨data, ?_, hshow⟩
  change _ ∈ since Event.isCall (_ ++ [_])
  rw [since_concat]
  exact List.mem_append_left _ hd

theorem status_honest : Honest (Plat.status h) := by
  apply wrapExceptions_honest h
  intro s e he hz
  rw [bind_run] at he ⊢
  have hread := readFile_honest h .stat s
  rcases hr : h.readFile .stat s with ⟨r, s'⟩
  rw [hr] at he hread
  cases r with
  | error e' =>
    cases he
    exact hread _ rfl hz
  | ok c =>
    have hplain : Plain (StatFields.statusOf c) := by
      refine Plain.bind (fun e' he' => ?_) fun _ => Plain.ok _
      unfold Bytes.decode at he'
      split at he' <;> cases he'
      rfl
    rw [hplain e he] at hz
    cases hz

theorem status_ends (n : Nat) (t : Option ℚ) : Triple (fun s => Good h n t s ∧ Fresh .stat s) (PyProcess.status h)
    (Ends h n .status) := by
  intro s hs
  have hplat : Answers h .stat (Plat.status h) (Shows h .status) := fromFile_answers h .status fun _ _ => rfl
  have hans := hplat n t s hs
  have hz := status_honest h s
  rw [PyProcess.status, tryCatch_run]
  rcases hr : Plat.status h s with ⟨r, s'⟩
  rw [hr] at hans hz
  cases r with
  | ok v => exact ⟨t, hans.1, fun v' hv => ⟨Or.inl (hans.2 v' hv), fun h => by cases h⟩⟩
  | error e =>
    simp only
    split
    · refine ⟨t, hans.1, fun v hv => ⟨?_, fun h => by cases h⟩⟩
      cases hv
      exact Or.inr (Or.inr (Or.inl ⟨rfl, rfl, hz _ rfl rfl⟩))
    · exact ⟨t, hans.1, fun v hv => by cases hv⟩

/-! ### `memory_footprint` and `create_time` -/

theorem parseSmaps_answers : Answers h .smaps (Plat.parseSmaps h) (Shows h .memoryFootprint) :=
  fromFile_answers h .memoryFootprint fun _ _ => rfl

/-- Answered from the rollup in this very call, or from `smaps`. -/
theorem memoryFootprint_ends (n : Nat) (t : Option ℚ) : Triple (fun s => Good h n t s ∧ Fresh .smaps s)
    (Plat.memoryFootprint h) (Ends h n .memoryFootprint) := by
  refine wrapExceptions_triple h (Q := Ends h n .memoryFootprint) ?_ fun e e' s s' hs hq => ?_
  · have hsmaps := Answers.ends h (g := .memoryFootprint) (parseSmaps_answers h) (by simp) n t
    split
    · refine Triple.tryCatch (M := fun r s => (Good h n t s ∧ Fresh .smaps s) ∧ ∀ v, r = .ok v → Sourced h s.log .memoryFootprint v)
        (fun s hs => ?_) (fun v s hs => ⟨t, hs.1.1, fun v' hv => ⟨hs.2 v' hv, fun h => by cases h⟩⟩) fun e => ?_
      · have hq : IsQuiet (Plat.parseSmapsRollup h) := IsQuiet.bind (look_quiet h (by simp)) fun _ => IsQuiet.ofExcept _
        refine ⟨⟨(hq s).good hs.1, (hq s).fresh hs.2⟩, fun v hv => Or.inr (Or.inr (Or.inr ⟨rfl, ?_⟩))⟩
        rw [Plat.parseSmapsRollup, bind_run] at hv ⊢
        simp only [LinuxHost.look] at hv ⊢
        cases hd : (h.moment s.now).read Look.smapsRollup.path with
        | error e =>
          rw [hd] at hv
          cases hv
        | ok data =>
          rw [hd] at hv
          exact ⟨data, by simp [Obj.emit, since_concat, Event.isCall, ofExcept], hv⟩
      · split
        · exact fun s hs => hsmaps s hs.1
        · exact fun s hs => hsmaps s hs.1
        · exact fun s hs => ⟨t, hs.1.1, fun v hv => by cases hv⟩
    · exact hsmaps
  · obtain ⟨t', hg, -⟩ := hs
    exact ⟨t', hq.good hg, fun v hv => by cases hv⟩

theorem platCreateTime_keeps (monotonic : Bool) : Keeps h .stat (Plat.createTime h monotonic) := by
  have hrest : ∀ ctime : ℚ, IsQuiet (if monotonic then pure ctime else do return ctime + (← Plat.bootTime h) : Py ℚ) := by
    intro ctime
    split
    · exact IsQuiet.pure _
    · exact IsQuiet.bind (IsQuiet.bind (look_quiet h (by simp)) fun _ => IsQuiet.ofExcept _) fun _ => IsQuiet.pure _
  refine Keeps.wrapExceptions fun n t => Triple.get_bind fun s hs => ?_
  cases hc : s.ctime with
  | some ctime => exact (IsQuiet.bind (IsQuiet.pure ctime) hrest s).good hs.1
  | none =>
    have hread : Keeps h .stat (h.readFile .stat) := (answers_readFile .stat).keeps
    exact hread.bind_quiet (fun fields => IsQuiet.bind (IsQuiet.ofExcept _) fun ctime =>
      IsQuiet.bind (IsQuiet.modify fun s => by simp) fun _ => IsQuiet.bind (IsQuiet.pure _) hrest) n t s hs

theorem createTime_ends (n : Nat) (t : Option ℚ) : Triple (fun s => Good h n t s ∧ Fresh .stat s) (PyProcess.createTime h)
    (Ends h n .createTime) := by
  apply Triple.get_bind
  intro s hs
  cases hc : s.createTime with
  | some c =>
    refine ⟨t, hs.1, fun v hv => ?_⟩
    cases hv
    have ht : t = some c := hs.1.createTime.symm.trans hc
    refine ⟨Or.inr (Or.inl ⟨rfl, fun v' hv' => ?_⟩), fun _ => by rw [ht]; rfl⟩
    have hk := hs.1.synced.known v' hv'
    rw [hc] at hk
    exact (Option.some.inj hk).symm
  | none =>
    have hplat := platCreateTime_keeps h false n t s hs
    dsimp only
    rw [bind_run]
    rcases hr : Plat.createTime h false s with ⟨r, s'⟩
    rw [hr] at hplat
    cases r with
    | error e => exact ⟨t, hplat, fun v hv => by cases hv⟩
    | ok c =>
      -- no call has returned a creation time so far
      have hno : ∀ v, Event.ret .createTime (.ok v) ∉ s'.log := fun v hv => by
        have hk := hplat.synced.known v hv
        rw [hplat.createTime, ← hs.1.createTime, hc] at hk
        cases hk
      refine ⟨some c, ⟨hplat.consistent, ⟨hplat.synced.opened, hplat.synced.procOpened, hplat.synced.proc,
        hplat.synced.self, fun v hv => absurd hv (hno v)⟩, hplat.level, rfl⟩, fun v hv => ?_⟩
      cases hv
      exact ⟨Or.inr (Or.inl ⟨rfl, fun v' hv' => absurd hv' (hno v')⟩), fun _ => rfl⟩

/-- The contract of all getters. -/
theorem getter_ends (g : Getter) (n : Nat) (t : Option ℚ) :
    Triple (fun s => Good h n t s ∧ Fresh g.file s) (g.run h) (Ends h n g) := by
  cases g with
  | ppid => exact Answers.ends h (g := .ppid) (ppid_answers h) (by simp) n t
  | status => exact status_ends h n t
  | cpuTimes => exact memoized_ends h (g := .cpuTimes) (by simp) (fun _ _ => rfl) n t
  | cpuNum => exact fromFile_ends h (g := .cpuNum) (by simp) (fun _ _ => rfl) n t
  | pageFaults => exact fromFile_ends h (g := .pageFaults) (by simp) (fun _ _ => rfl) n t
  | createTime => exact createTime_ends h n t
  | uids => exact memoized_ends h (g := .uids) (by simp) (fun _ _ => rfl) n t
  | gids => exact fromFile_ends h (g := .gids) (by simp) (fun _ _ => rfl) n t
  | numThreads => exact fromFile_ends h (g := .numThreads) (by simp) (fun _ _ => rfl) n t
  | numCtxSwitches => exact fromFile_ends h (g := .numCtxSwitches) (by simp) (fun _ _ => rfl) n t
  | memoryFootprint => exact memoryFootprint_ends h n t
  | memoryMaps grouped => exact Answers.ends h (g := .memoryMaps grouped) (memoryMaps_answers h grouped) (by simp) n t

/-! ## Blocks and programs -/

section
variable {h} {n : Nat} {t : Option ℚ} {s : Obj}

theorem block_of_depth {log : List Event} {n : Nat} (hd : depth log = n + 1) : ∃ b, block log = some (n, b) := by
  unfold depth at hd
  split at hd
  · cases hd
  · rename_i m b hb
    exact ⟨b, by rw [hb, Nat.succ.inj hd]⟩

/-- The marks of a block show nothing. -/
theorem Event.mark_spec {e : Event} (h : e.inner = false) : (∀ f, e.success f = none) ∧ (∀ hh log, Faithful hh log e) ∧
    ∀ v, e ≠ .ret .createTime (.ok v) := by
  cases e <;> cases h <;> exact ⟨fun _ => rfl, fun _ _ => trivial, fun _ => Event.noConfusion⟩

/-- A nested block begins or ends: the caches stay as they are. -/
theorem Good.nested (hs : Good h n t s) {e : Event} (hi : e.inner = false) {k m : Nat} {b : List Event}
    (hb : block s.log = some (k, b)) (hb' : block (s.log ++ [e]) = some (m, b ++ [e])) : Good h (m + 1) t (s.emit e) := by
  have hext : Extends s.log e := by
    rw [Extends, openBlock, openBlock, hb, hb']
    rfl
  obtain ⟨hn, hf, hk⟩ := Event.mark_spec hi
  refine ⟨consistent_concat.2 ⟨hs.consistent, hf h s.log⟩, hs.synced.emit hext hn fun v hv => absurd hv (hk v), ?_,
    hs.createTime⟩
  rw [Obj.emit, depth, hb']

theorem Good.enterNested (hs : Good h (n + 1) t s) : Good h (n + 2) t (s.emit .enter) := by
  obtain ⟨b, hb⟩ := block_of_depth hs.level
  refine hs.nested rfl hb ?_
  rw [block_concat, hb]
  rfl

theorem Good.leaveNested (hs : Good h (n + 2) t s) : Good h (n + 1) t (s.emit .leave) := by
  obtain ⟨b, hb⟩ := block_of_depth hs.level
  refine hs.nested rfl hb ?_
  rw [block_concat, hb]
  rfl

/-- The depth tells what `hasattr(self, "_cache")` answers. -/
theorem Good.cache_isSome (hs : Good h n t s) : s.cache.isSome = decide (n ≠ 0) := by
  rw [← hs.synced.opened, ← hs.level]
  cases ho : openBlock s.log with
  | none => simp [depth_eq_zero.2 ho]
  | some b =>
    have hd : depth s.log ≠ 0 := fun h => by rw [depth_eq_zero.1 h] at ho; cases ho
    simp [hd]

theorem block_of_zero {log : List Event} (hd : depth log = 0) : block log = none := by
  unfold depth at hd
  split at hd
  · assumption
  · cases hd

theorem Good.enterOuter (hs : Good h 0 t s) : Good h 1 t (oneshotEnter (s.emit .enter)) := by
  have hb : block (s.log ++ [.enter]) = some (0, []) := by rw [block_concat, block_of_zero hs.level]; rfl
  have ho : openBlock (s.log ++ [.enter]) = some [] := by rw [openBlock, hb]; rfl
  refine ⟨consistent_concat.2 ⟨hs.consistent, trivial⟩, ⟨?_, rfl, ?_, ?_,
    hs.synced.known_concat fun _ => Event.noConfusion⟩, ?_, hs.createTime⟩
  · simp [oneshotEnter, procCacheActivate, cacheActivate, Obj.emit, ho]
  · intro d f start hd
    cases hd
    exact (view_open ho f).symm
  · intro d g v start hd hv
    cases hd
    cases hv
  · change depth (s.log ++ [.enter]) = 1
    rw [depth, hb]

theorem Good.leaveOuter (hs : Good h 1 t s) : Good h 0 t ((oneshotExit s).emit .leave) := by
  obtain ⟨b, hb⟩ := block_of_depth hs.level
  have hb' : block (s.log ++ [.leave]) = none := by rw [block_concat, hb]; rfl
  refine ⟨consistent_concat.2 ⟨hs.consistent, trivial⟩, ⟨?_, rfl, ?_, ?_,
    hs.synced.known_concat fun _ => Event.noConfusion⟩, ?_, hs.createTime⟩
  · change (openBlock (s.log ++ [.leave])).isSome = false
    rw [openBlock, hb']
    rfl
  · intro d f start hd
    cases hd
  · intro d g v start hd
    cases hd
  · change depth (s.log ++ [.leave]) = 0
    rw [depth, hb']

theorem Good.call (hs : Good h n t s) (g : Getter) : Good h n t (s.emit (.call g)) ∧ Fresh g.file (s.emit (.call g)) := by
  refine ⟨hs.emit rfl (fun _ => rfl) trivial fun _ => Event.noConfusion, fun hc => ?_⟩
  exact hs.synced.view_start hc rfl rfl g.file

end

/-- What a program does to an object, by induction on the program. -/
theorem run_good (prog : Prog) : ∀ {n t s}, Good h n t s → ∃ t', Good h n t' (prog.run h s).2 := by
  induction prog with
  | ret vs => exact fun hs => ⟨_, hs⟩
  | raise e => exact fun hs => ⟨_, hs⟩
  | call g k ih =>
    intro n t s hs
    obtain ⟨t', hg, hret⟩ := getter_ends h g n t _ (hs.call g)
    refine ih _ (n := n) (t := t') (hg.emit rfl (fun _ => rfl) ?_ fun v hv => ?_)
    · cases hr : (g.run h (s.emit (.call g))).1 with
      | ok v => exact (hret v hr).1
      | error e => trivial
    · injection hv with hgc hv
      exact (hret v hv).2 hgc
  | oneshot body k ihb ihk =>
    intro n t s hs
    rw [Prog.run]
    cases n with
    | zero =>
      have hc : (s.emit .enter).cache.isSome = false := hs.cache_isSome
      rw [if_neg (by rw [hc]; exact Bool.false_ne_true)]
      obtain ⟨t', hb⟩ := ihb hs.enterOuter
      exact ihk _ hb.leaveOuter
    | succ n =>
      have hc : (s.emit .enter).cache.isSome = true := hs.cache_isSome
      rw [if_pos hc]
      obtain ⟨t', hb⟩ := ihb hs.enterNested
      exact ihk _ hb.leaveNested

theorem blank_good : Good h 0 none blankObj where
  consistent := consistent_nil h
  synced := ⟨rfl, rfl, fun _ _ _ hd => (by cases hd), fun _ _ _ _ hd => (by cases hd), fun _ hv => by cases hv⟩
  level := rfl
  createTime := rfl

theorem initObj_good (ignoreNsp : Bool) : Good h 0 none (initObj h ignoreNsp blankObj).2 := by
  have hident : Keeps h .stat (do
      let ctime ← Plat.createTime h true
      modify fun s => { s with ident := some ctime } : Py Unit) :=
    (platCreateTime_keeps h true).bind_quiet fun _ => IsQuiet.modify fun s => by simp
  unfold initObj
  split
  · exact blank_good h
  · -- what the handler does leaves the log and the caches as they are
    refine (hident 0 none).tryCatch (fun _ _ hs => hs) (fun e => Moves.triple (R := Quiet) ?_ fun _ _ _ hs hq => hq.good hs)
      blankObj ⟨blank_good h, fun _ => rfl⟩
    split
    · exact IsQuiet.pure _
    · exact IsQuiet.pure _
    · split
      · exact IsQuiet.modify fun s => by simp
      · exact IsQuiet.throw _
    · exact IsQuiet.throw _

theorem session_good (ignoreNsp : Bool) (prog : Prog) : ∃ t, Good h 0 t (session h ignoreNsp prog).2 := by
  have hinit := initObj_good h ignoreNsp
  unfold session
  split
  · rename_i s hs
    rw [hs] at hinit
    exact run_good h prog hinit
  · rename_i e s hs
    rw [hs] at hinit
    exact ⟨none, hinit⟩

/-! ## The log of a session -/

/-- A block after one more event: just begun, or the event longer. -/
theorem openBlock_concat {log b : List Event} {e : Event} (hb : openBlock (log ++ [e]) = some b) :
    b = [] ∨ ∃ b₀, openBlock log = some b₀ ∧ b = b₀ ++ [e] := by
  rw [openBlock, block_concat] at hb
  unfold openBlock
  generalize block log = m at hb ⊢
  rcases m with _ | ⟨_ | n, b₀⟩ <;> cases e <;> cases hb <;> first | exact Or.inl rfl | exact Or.inr ⟨_, rfl, rfl⟩

/-- In no block is a file read twice with success. -/
theorem Consistent.readOnce {h} {log : List Event} (hlog : Consistent h log) (f : File) {b : List Event}
    (hb : openBlock log = some b) : (b.filter fun e => (e.success f).isSome).length ≤ 1 := by
  induction log using List.reverseRecOn generalizing b with
  | nil => cases hb
  | append_singleton log e ih =>
    obtain ⟨hlog, he⟩ := consistent_concat.1 hlog
    rcases openBlock_concat hb with rfl | ⟨b₀, hb₀, rfl⟩
    · simp
    · have hone := ih hlog hb₀
      cases hs : e.success f with
      | none => simpa [hs] using hone
      | some c =>
        -- the reader only looks while nothing of the file is kept
        have hkept : kept f b₀ = none := by
          rcases e with _ | _ | ⟨⟨f'⟩ | _ | _ | _ | _, _ | data⟩ | _ | _ | _ | _ <;> try cases hs
          by_cases hf : f' = f
          · exact hf ▸ he b₀ hb₀
          · rw [success_ne hf] at hs
            cases hs
        have hnil : (b₀.filter fun e => (e.success f).isSome) = [] := by
          rw [List.filter_eq_nil_iff]
          intro e' he' hs'
          rw [List.findSome?_eq_none_iff.1 hkept e' he'] at hs'
          cases hs'
        simp [hnil, hs]

/-- **Snapshot consistency**: in the log of any program on a new object, a block reads each file with success at most
once and every event is `Faithful`; after the program no cache is left, and a block in a block only leaves its two
marks in the log. -/
theorem oneshot_snapshot (ignoreNsp : Bool) (prog : Prog) :
    (∀ pre b f, pre <+: (session h ignoreNsp prog).2.log → openBlock pre = some b →
      (b.filter fun e => (e.success f).isSome).length ≤ 1) ∧
    Consistent h (session h ignoreNsp prog).2.log ∧
    ((session h ignoreNsp prog).2.cache = none ∧ (session h ignoreNsp prog).2.procCache = none) ∧
    ∀ body k (s : Obj) d, (Prog.oneshot body k).run h { s with cache := some d } =
      (k (body.run h (Obj.emit { s with cache := some d } .enter)).1).run h
        ((body.run h (Obj.emit { s with cache := some d } .enter)).2.emit .leave) := by
  obtain ⟨t, hs⟩ := session_good h ignoreNsp prog
  have hcache : (session h ignoreNsp prog).2.cache = none := by
    rw [← Option.isNone_iff_eq_none, ← Option.not_isSome, hs.cache_isSome]
    rfl
  refine ⟨?_, hs.consistent, ⟨hcache, ?_⟩, fun _ _ _ _ => rfl⟩
  · rintro pre b f ⟨post, hpost⟩ hb
    have hpre : Consistent h pre := fun pre' e post' heq => hs.consistent pre' e (post' ++ post) (by simp [← hpost, heq])
    exact hpre.readOnce f hb
  · rw [← Option.isNone_iff_eq_none, ← Option.not_isSome, hs.synced.procOpened, hcache]
    rfl

/-! ### A process that is replaced while a block is open -/

/-- A line of `stat` with 37 fields after the name. -/
def statLine (state : String) : Bytes := ascii "7 (a) " ++ ascii state ++ (List.replicate 36 (ascii " 1")).flatten

/-- A host on which the looks of an object are answered one after the other. -/
def scriptedHost (answers : List (Except Errno Bytes)) : LinuxHost :=
  ⟨7, "/proc", 100, false, fun n => ⟨fun _ => answers.getD n (.error .enoent), true, fun _ => .ok ()⟩⟩

/-- The process is gone, its PID is given to one that is a zombie, then to one whose `stat` is first read empty. -/
def replacedHost : LinuxHost :=
  scriptedHost [.ok (statLine "R"), .error .esrch, .ok (statLine "Z"), .ok [], .ok (statLine "S")]

/-- `with p.oneshot(): p.status(); p.cpu_num(); p.status()`, where the exceptions of the getters are handled. -/
def threeGetters : Prog :=
  .oneshot (.call .status fun _ => .call .cpuNum fun _ => .call .status fun _ => .ret []) fun _ => .ret []

/-- A look by which a memoized reader got the bytes of its file. -/
def Event.readOk (f : File) : Event → Bool
  | .look (.memoized f') (.ok _) => f' = f
  | _ => false

def Event.outcome : Event → Option (Getter × Option Value)
  | .ret g r => some (g, r.toOption)
  | _ => none

/-- The block just before it ends: two times the bytes of `stat`, and the outcomes of the three calls. -/
theorem replaced_block : ∃ b, openBlock (session replacedHost false threeGetters).2.log.dropLast = some b ∧
    (b.filter (Event.readOk .stat)).length = 2 ∧ b.filterMap Event.outcome =
      [(.status, some (.status (some .zombie))), (.cpuNum, none), (.status, some (.status (some .sleeping)))] := by
  have hmap : (openBlock (session replacedHost false threeGetters).2.log.dropLast).map
      (fun b => ((b.filter (Event.readOk .stat)).length, b.filterMap Event.outcome)) =
      some (2, [(.status, some (.status (some .zombie))), (.cpuNum, none), (.status, some (.status (some .sleeping)))]) := by
    decide +kernel
  obtain ⟨b, hb, he⟩ := Option.map_eq_some_iff.1 hmap
  exact ⟨b, hb, (Prod.mk.inj he).1, (Prod.mk.inj he).2⟩

theorem mem_of_outcome {g : Getter} {v : Value} {b : List Event} (hm : (g, some v) ∈ b.filterMap Event.outcome) :
    Event.ret g (.ok v) ∈ b := by
  obtain ⟨e, he, ho⟩ := List.mem_filterMap.1 hm
  cases e with
  | ret g' r =>
    cases r with
    | ok v' =>
      cases ho
      exact he
    | error e => cases ho
  | _ => cases ho

/-- A getter without questions to the file system computes one value from a content. -/
theorem Shows.status_unique {h} {c : StatFields} {v v' : Value} (hv : Shows h .status c v) (hv' : Shows h .status c v') :
    v = v' := by
  obtain ⟨_, _, hv⟩ := hv
  obtain ⟨_, _, hv'⟩ := hv'
  exact Except.ok.inj (hv.symm.trans hv')

/-- Without the two reservations: the bytes of `stat` are read twice in one block, because the first text is too
short, and two calls of `status` in one block see two processes. -/
theorem oneshot_stat_twice :
    (¬∀ h ignoreNsp prog pre b f, pre <+: (session h ignoreNsp prog).2.log → openBlock pre = some b →
      (b.filter (Event.readOk f)).length ≤ 1) ∧
    ¬∀ h ignoreNsp prog pre b g, pre <+: (session h ignoreNsp prog).2.log → openBlock pre = some b → g ≠ .createTime →
      ∃ c : g.file.Content, ∀ v, Event.ret g (.ok v) ∈ b → Shows h g c v := by
  obtain ⟨b, hb, hcount, houts⟩ := replaced_block
  have hpre := List.dropLast_prefix (session replacedHost false threeGetters).2.log
  constructor
  · intro hall
    have hone := hall replacedHost false threeGetters _ b .stat hpre hb
    omega
  · intro hall
    obtain ⟨c, hc⟩ := hall replacedHost false threeGetters _ b .status hpre hb (by decide)
    have h₁ := hc _ (mem_of_outcome (by rw [houts]; exact List.mem_cons_self))
    have h₂ := hc _ (mem_of_outcome (v := .status (some .sleeping)) (by rw [houts]; simp))
    exact absurd (Shows.status_unique h₁ h₂) (by decide)

/-- What holds of that session all the same. -/
theorem oneshot_snapshot_replaced : ∃ b, openBlock (session replacedHost false threeGetters).2.log.dropLast = some b ∧
    (b.filter fun e => (e.success .stat).isSome).length ≤ 1 := by
  obtain ⟨b, hb, -⟩ := replaced_block
  exact ⟨b, hb, (oneshot_snapshot replacedHost false threeGetters).1 _ b .stat (List.dropLast_prefix _) hb⟩

end Psutil.Oneshot
