import Psutil.Windows.OpenFiles

/-!
# The worker protocol of `psutil_get_open_files`

`State.Inv` holds after every step of either party. Whose turn it is can be seen from the place of the main thread: its
worker is idle, or it is at the query that was handed to it, with that handle and that buffer, or on its way out. Every
other worker that still runs has only what was leaked with it.
-/

namespace Psutil.OpenFiles

open Lib Ledger

namespace Worker

/-- In front of `hStartEvent`, with nothing to do. -/
structure Idle (w : Worker) : Prop where
  thread : w.thread = .waiting
  startEvent : w.startEvent = false
  doneEvent : w.doneEvent = false
  quit : w.quit = false
  terminated : w.terminated = false

def Busy (w : Worker) : Prop := w.thread ≠ .waiting ∧ w.thread ≠ .exited

/-- It has been handed `q`, and has not been asked again. -/
structure Serving (w : Worker) (q : Query) : Prop where
  hFile : w.hFile = q.hFile
  fileName : w.fileName = q.name
  quit : w.quit = false
  turn : (w.thread = .waiting ∧ w.startEvent = true ∧ w.doneEvent = false) ∨
    (w.Busy ∧ w.startEvent = false ∧ w.doneEvent = false) ∨
    (w.thread = .waiting ∧ w.startEvent = false ∧ w.doneEvent = true)

/-- The kernel works with what is in the structure. -/
def Sane (w : Worker) : Prop := ∀ hFile fileName size, w.thread = .query hFile fileName size →
  hFile = w.hFile ∧ fileName = w.fileName

/-- What a step of a worker does. -/
structure Moved (w w' : Worker) : Prop where
  hFile : w'.hFile = w.hFile
  fileName : w'.fileName = w.fileName
  quit : w'.quit = w.quit
  terminated : w'.terminated = w.terminated
  alive : w.thread ≠ .exited
  sane : w'.Sane
  turn : (w.thread = .waiting ∧ w.startEvent = true ∧ w.quit = true ∧ w'.thread = .exited) ∨
    (w.thread = .waiting ∧ w.startEvent = true ∧ w.quit = false ∧ w'.Busy ∧ w'.startEvent = false ∧
      w'.doneEvent = w.doneEvent) ∨
    (w.Busy ∧ w'.Busy ∧ w'.startEvent = w.startEvent ∧ w'.doneEvent = w.doneEvent) ∨
    (w.Busy ∧ w'.thread = .waiting ∧ w'.startEvent = w.startEvent ∧ w'.doneEvent = true) ∨
    (w.terminated = true ∧ w'.thread = .exited)

variable {w w' : Worker} {q : Query} {ev : WorkerEv}

theorem sane_of_not_query (h : ∀ hFile fileName size, w.thread ≠ .query hFile fileName size) : w.Sane :=
  fun hFile fileName size hq => absurd hq (h hFile fileName size)

/-- A busy worker goes on, or sets `hDoneEvent`. -/
theorem moved_busy (hb : w.Busy) {thread : ThreadPc} (hthread : thread ≠ .waiting ∧ thread ≠ .exited)
    (hsane : Sane { w with thread := thread }) : w.Moved { w with thread := thread } :=
  ⟨rfl, rfl, rfl, rfl, hb.2, hsane, Or.inr (Or.inr (Or.inl ⟨hb, hthread, rfl, rfl⟩))⟩

theorem act_moved (h : w.act ev = some w') : w.Moved w' := by
  cases ev with
  | run yes =>
    simp only [act] at h
    cases ht : w.thread <;> rw [ht] at h <;> dsimp only at h
    case waiting =>
      split at h
      · cases h
      · rename_i hstart
        replace hstart : w.startEvent = true := by simpa using hstart
        split at h <;> rename_i hquit <;> cases h
        · exact ⟨rfl, rfl, rfl, rfl, by simp [ht], sane_of_not_query (by simp), Or.inl ⟨ht, hstart, hquit, rfl⟩⟩
        · refine ⟨rfl, rfl, rfl, rfl, by simp [ht], sane_of_not_query (by simp), Or.inr (Or.inl ?_)⟩
          exact ⟨ht, hstart, by simpa using hquit, ⟨by simp, by simp⟩, rfl, rfl⟩
    case fileType | standard | basic =>
      cases h
      refine moved_busy ⟨by simp [ht], by simp [ht]⟩ ?_ (sane_of_not_query ?_)
      all_goals cases yes <;> simp
    case name =>
      cases h
      refine moved_busy ⟨by simp [ht], by simp [ht]⟩ (by simp) ?_
      rintro hFile fileName size ⟨⟩
      exact ⟨rfl, rfl⟩
    case store status =>
      cases h
      exact ⟨rfl, rfl, rfl, rfl, by simp [ht], sane_of_not_query (by simp),
        Or.inr (Or.inr (Or.inl ⟨⟨by simp [ht], by simp [ht]⟩, ⟨by simp, by simp⟩, rfl, rfl⟩))⟩
    case signal =>
      cases h
      exact ⟨rfl, rfl, rfl, rfl, by simp [ht], sane_of_not_query (by simp),
        Or.inr (Or.inr (Or.inr (Or.inl ⟨⟨by simp [ht], by simp [ht]⟩, rfl, rfl, rfl⟩)))⟩
    case query | exited => cases h
  | complete status returnLength written =>
    simp only [act] at h
    split at h <;> cases h
    rename_i ht
    exact ⟨rfl, rfl, rfl, rfl, by simp [ht], sane_of_not_query (by simp),
      Or.inr (Or.inr (Or.inl ⟨⟨by simp [ht], by simp [ht]⟩, ⟨by simp, by simp⟩, rfl, rfl⟩))⟩
  | die =>
    simp only [act] at h
    split at h <;> cases h
    rename_i hdie
    simp only [Bool.and_eq_true, decide_eq_true_eq] at hdie
    exact ⟨rfl, rfl, rfl, rfl, hdie.2, sane_of_not_query (by simp), Or.inr (Or.inr (Or.inr (Or.inr ⟨hdie.1, rfl⟩)))⟩

/-- An idle worker does nothing. -/
theorem Moved.not_idle (hm : w.Moved w') : ¬w.Idle := by
  intro hi
  rcases hm.turn with ⟨-, hs, -⟩ | ⟨-, hs, -⟩ | ⟨hb, -⟩ | ⟨hb, -⟩ | ⟨ht, -⟩
  · simp [hi.startEvent] at hs
  · simp [hi.startEvent] at hs
  · exact hb.1 hi.thread
  · exact hb.1 hi.thread
  · simp [hi.terminated] at ht

/-- A worker goes on serving, unless it is killed. -/
theorem Moved.serving (hm : w.Moved w') (hs : w.Serving q) : w'.Serving q ∨ w.terminated = true ∧ w'.thread = .exited := by
  have hwait : w.thread = .waiting → ¬w.Busy := fun h hb => hb.1 h
  rcases hm.turn with ⟨-, -, hq, -⟩ | ⟨ht, hstart, -, hb, hstart', hdone⟩ | ⟨hb, hb', hstart', hdone⟩ |
    ⟨hb, hwaiting, hstart', hdone⟩ | hdie
  · simp [hs.quit] at hq
  · refine Or.inl ⟨hm.hFile.trans hs.hFile, hm.fileName.trans hs.fileName, hm.quit.trans hs.quit, Or.inr (Or.inl ⟨hb, hstart', ?_⟩)⟩
    rw [hdone]
    rcases hs.turn with ⟨-, -, h⟩ | ⟨-, h, -⟩ | ⟨-, h, -⟩
    · exact h
    · simp [h] at hstart
    · simp [h] at hstart
  · refine Or.inl ⟨hm.hFile.trans hs.hFile, hm.fileName.trans hs.fileName, hm.quit.trans hs.quit, Or.inr (Or.inl ?_)⟩
    rw [hstart', hdone]
    rcases hs.turn with ⟨h, -⟩ | ⟨-, h⟩ | ⟨h, -⟩
    · exact absurd hb (hwait h)
    · exact ⟨hb', h⟩
    · exact absurd hb (hwait h)
  · refine Or.inl ⟨hm.hFile.trans hs.hFile, hm.fileName.trans hs.fileName, hm.quit.trans hs.quit, Or.inr (Or.inr ⟨hwaiting, ?_, hdone⟩)⟩
    rw [hstart']
    rcases hs.turn with ⟨h, -⟩ | ⟨-, h, -⟩ | ⟨h, -⟩
    · exact absurd hb (hwait h)
    · exact h
    · exact absurd hb (hwait h)
  · exact Or.inr hdie

/-- What a step accesses: the structure, and, at a query, the handle and the buffer of it. -/
theorem mem_uses (hs : w.Sane) {k : Nat} {op : Op Res} (h : op ∈ w.uses k ev) : op = .peer (.worker k) ∨
    (w.Busy ∧ (op = .peer (.file w.hFile) ∨ op = .peer (.name w.fileName))) := by
  cases ev with
  | run yes =>
    simp only [uses] at h
    cases ht : w.thread <;> rw [ht] at h <;> simp only [List.mem_cons, List.not_mem_nil, or_false] at h
    case fileType | standard | basic | name =>
      rcases h with rfl | rfl
      · exact Or.inr ⟨⟨by simp [ht], by simp [ht]⟩, Or.inl rfl⟩
      · exact Or.inl rfl
    all_goals exact Or.inl h
  | complete status returnLength written =>
    simp only [uses] at h
    split at h
    · rename_i hFile fileName size ht
      obtain ⟨rfl, rfl⟩ := hs hFile fileName size ht
      simp only [List.mem_cons, List.not_mem_nil, or_false] at h
      have hb : w.Busy := ⟨by simp [ht], by simp [ht]⟩
      rcases h with rfl | rfl | rfl
      · exact Or.inr ⟨hb, Or.inr rfl⟩
      · exact Or.inr ⟨hb, Or.inl rfl⟩
      · exact Or.inl rfl
    · cases h
  | die => cases h

/-- A buffer is written to by the query that it was handed to. -/
theorem writes_cases (hs : w.Sane) (ev : WorkerEv) (buffers : Nat → Option Content) (b : Nat) : w.writes buffers ev b = buffers b ∨
    w.Busy ∧ b = w.fileName ∧ ∃ path, w.writes buffers ev b = some ⟨w.hFile, path⟩ := by
  cases ev with
  | run yes => exact Or.inl rfl
  | die => exact Or.inl rfl
  | complete status returnLength written => cases written with
    | none => exact Or.inl rfl
    | some path =>
      simp only [writes]
      cases ht : w.thread <;> dsimp only
      case query hFile fileName size =>
        obtain ⟨rfl, rfl⟩ := hs hFile fileName size ht
        by_cases hb : b = w.fileName
        · subst hb
          exact Or.inr ⟨⟨by simp [ht], by simp [ht]⟩, rfl, path, Function.update_self _ _ buffers⟩
        · exact Or.inl (Function.update_of_ne hb _ buffers)
      all_goals exact Or.inl rfl

end Worker

/-- What the main thread holds. -/
def MainPc.Own (pc : MainPc) : Res → Prop
  | .file n => pc.hFile = some n
  | .name n => pc.name = some n
  | .thread n | .worker n => pc.worker = some n

/-- What the worker in `workerRef` is like. -/
def MainPc.Fits (w : Worker) : MainPc → Prop
  | .loop _ | .alloc _ _ _ _ | .ensure _ _ | .submit _ _ | .reply _ _ | .append _ _ _ | .cleanup _ _ _ | .exit _ _ _ => w.Idle
  | .start _ q => w.Idle ∧ w.hFile = q.hFile ∧ w.fileName = q.name
  | .wait _ q | .kill _ q => w.Serving q ∧ w.terminated = false
  | .join _ q => w.hFile = q.hFile ∧ w.fileName = q.name ∧ (w.Serving q ∨ w.thread = .exited)
  | .quit _ _ _ => w.thread = .waiting ∧ w.startEvent = false ∧ w.quit = true ∧ w.terminated = false
  | .joinQuit _ _ _ => w.quit = true ∧ w.terminated = false ∧ (w.thread = .waiting ∧ w.startEvent = true ∨ w.thread = .exited)
  | .rest _ _ | .finished => True

namespace State

/-- Worker `k` was leaked, with the handle and the buffer that it was handed. -/
structure Leaked (s : State) (k : Nat) : Prop where
  worker : status s.log (.worker k) = .abandoned
  file : status s.log (.file (s.workers k).hFile) = .abandoned
  name : status s.log (.name (s.workers k).fileName) = .abandoned

structure Inv (s : State) : Prop where
  owns : Owns s.log s.pc.Own fun r => s.ids ≤ r.id
  control : ∀ w, s.pc.worker = some w → s.pc.Fits (s.workers w)
  sane : ∀ k, (s.workers k).Sane
  others : ∀ k, (s.workers k).thread ≠ .exited → s.pc.worker ≠ some k → s.Leaked k
  /-- What is in the buffer comes from the query of the handle. -/
  content : ∀ b c h, s.pc.name = some b → s.buffers b = some c → s.pc.hFile = some h → c.source = h
  found : ∀ f ∈ s.retlist, f.source = f.handle

variable {s : State} {k : Nat} {w' : Worker} {ev : WorkerEv}

theorem inv_init (entries : List Entry) : (init entries).Inv where
  owns := by
    refine ⟨trivial, ?_, fun _ _ => rfl⟩
    rintro (n | n | n | n) <;> simp [init, MainPc.Own, MainPc.hFile, MainPc.name, MainPc.worker]
  control := by
    rintro w ⟨⟩
  sane := fun _ => Worker.sane_of_not_query (by simp [init, Worker.zero])
  others := fun _ h => absurd rfl h
  content := by simp [init, MainPc.name]
  found := by simp [init]

/-! ## Steps of a worker -/

/-- The worker in `workerRef` is only busy with the query that the main thread waits for. -/
theorem Inv.serving (hs : s.Inv) (hcur : s.pc.worker = some k) (hb : (s.workers k).Busy) :
    s.pc.hFile = some (s.workers k).hFile ∧ s.pc.name = some (s.workers k).fileName := by
  have hc := hs.control k hcur
  have hidle : ¬(s.workers k).Idle := fun hi => hb.1 hi.thread
  cases hp : s.pc <;> rw [hp] at hc hcur <;> simp only [MainPc.Fits] at hc
  case loop | alloc | ensure | exit | submit | reply | append | cleanup => exact absurd hc hidle
  case start => exact absurd hc.1 hidle
  case wait | kill => exact ⟨congrArg some hc.1.hFile.symm, congrArg some hc.1.fileName.symm⟩
  case join => exact ⟨congrArg some hc.1.symm, congrArg some hc.2.1.symm⟩
  case quit => exact absurd hc.1 hb.1
  case joinQuit => exact hc.2.2.elim (fun h => absurd h.1 hb.1) fun h => absurd h hb.2
  case rest | finished => cases hcur

/-- A worker that still runs has its structure, and the handle and the buffer that it works with. -/
theorem Inv.held (hs : s.Inv) (halive : (s.workers k).thread ≠ .exited) :
    (status s.log (.worker k) = .live ∨ status s.log (.worker k) = .abandoned) ∧ ((s.workers k).Busy →
      (status s.log (.file (s.workers k).hFile) = .live ∨ status s.log (.file (s.workers k).hFile) = .abandoned) ∧
      (status s.log (.name (s.workers k).fileName) = .live ∨ status s.log (.name (s.workers k).fileName) = .abandoned)) := by
  by_cases hcur : s.pc.worker = some k
  · refine ⟨Or.inl ((hs.owns.live (.worker k)).2 hcur), ?_⟩
    intro hb
    obtain ⟨hfile, hname⟩ := hs.serving hcur hb
    exact ⟨Or.inl ((hs.owns.live (.file _)).2 hfile), Or.inl ((hs.owns.live (.name _)).2 hname)⟩
  · have hleak := hs.others k halive hcur
    exact ⟨Or.inr hleak.worker, fun _ => ⟨Or.inr hleak.file, Or.inr hleak.name⟩⟩

/-- A step of the worker is one that the main thread expects where it is. -/
theorem fits_moved {pc : MainPc} {w : Worker} (hf : pc.Fits w) (hm : w.Moved w') : pc.Fits w' := by
  cases pc <;> simp only [MainPc.Fits] at hf ⊢
  case loop | alloc | ensure | exit | submit | reply | append | cleanup => exact absurd hf hm.not_idle
  case start => exact absurd hf.1 hm.not_idle
  case wait | kill =>
    refine ⟨(hm.serving hf.1).resolve_right fun h => ?_, hm.terminated.trans hf.2⟩
    rw [hf.2] at h
    cases h.1
  case join =>
    refine ⟨hm.hFile.trans hf.1, hm.fileName.trans hf.2.1, ?_⟩
    rcases hf.2.2 with hserv | hexit
    · exact (hm.serving hserv).imp_right And.right
    · exact absurd hexit hm.alive
  case quit =>
    rcases hm.turn with ⟨-, h, -⟩ | ⟨-, h, -⟩ | ⟨h, -⟩ | ⟨h, -⟩ | ⟨h, -⟩
    · simp [hf.2.1] at h
    · simp [hf.2.1] at h
    · exact absurd hf.1 h.1
    · exact absurd hf.1 h.1
    · simp [hf.2.2.2] at h
  case joinQuit =>
    obtain ⟨hquit, hterm, hplace⟩ := hf
    refine ⟨hm.quit.trans hquit, hm.terminated.trans hterm, ?_⟩
    have hwaiting := (hplace.resolve_right hm.alive).1
    rcases hm.turn with ⟨-, -, -, h⟩ | ⟨-, -, h, -⟩ | ⟨h, -⟩ | ⟨h, -⟩ | ⟨h, -⟩
    · exact Or.inr h
    · simp [hquit] at h
    · exact absurd hwaiting h.1
    · exact absurd hwaiting h.1
    · simp [hterm] at h

/-- What a worker accesses is there, or leaked with it. -/
theorem Inv.uses (hs : s.Inv) (halive : (s.workers k).thread ≠ .exited) : ∀ op ∈ (s.workers k).uses k ev,
    ∃ r, op = .peer r ∧ (status s.log r = .live ∨ status s.log r = .abandoned) := by
  obtain ⟨hworker, hbusy⟩ := hs.held halive
  intro op hop
  rcases Worker.mem_uses (hs.sane k) hop with rfl | ⟨hb, rfl | rfl⟩
  · exact ⟨_, rfl, hworker⟩
  · exact ⟨_, rfl, (hbusy hb).1⟩
  · exact ⟨_, rfl, (hbusy hb).2⟩

/-- What a worker writes into the buffer of the main thread comes from the query of its handle. -/
theorem Inv.writes (hs : s.Inv) (halive : (s.workers k).thread ≠ .exited) : ∀ b c h, s.pc.name = some b →
    (s.workers k).writes s.buffers ev b = some c → s.pc.hFile = some h → c.source = h := by
  intro b c h hname hc hfile
  rcases Worker.writes_cases (hs.sane k) ev s.buffers b with hb | ⟨hb, rfl, path, hpath⟩
  · exact hs.content b c h hname (hb ▸ hc) hfile
  · -- a leaked worker writes to a leaked buffer
    obtain rfl : ⟨(s.workers k).hFile, path⟩ = c := Option.some.inj (hpath.symm.trans hc)
    by_cases hcur : s.pc.worker = some k
    · exact Option.some.inj ((hs.serving hcur hb).1.symm.trans hfile)
    · have hlive := (hs.owns.live (.name _)).2 hname
      rw [(hs.others k halive hcur).name] at hlive
      cases hlive

theorem Inv.workerStep (hs : s.Inv) (k : Nat) (ev : WorkerEv) : (s.workerStep k ev).1.Inv := by
  unfold State.workerStep
  cases hact : (s.workers k).act ev with
  | none => exact hs
  | some w' =>
    have hm := Worker.act_moved hact
    obtain ⟨hlegal, hsame⟩ := hs.owns.legal.peers (hs.uses hm.alive)
    have hws := fun j => s.setWorker_cases k j w'
    show State.Inv { s.setWorker k w' with
      buffers := (s.workers k).writes s.buffers ev
      log := (s.workers k).uses k ev ++ s.log }
    refine ⟨⟨hlegal, ?_, ?_⟩, ?_, ?_, ?_, hs.writes hm.alive, hs.found⟩
    · exact fun r => (hsame r).symm ▸ hs.owns.live r
    · exact fun r hr => (hsame r).trans (hs.owns.fresh r hr)
    · intro j hj
      show s.pc.Fits ((s.setWorker k w').workers j)
      rcases hws j with hj' | ⟨rfl, hj'⟩
      · rw [hj']
        exact hs.control j hj
      · rw [hj']
        exact fits_moved (hs.control j hj) hm
    · intro j
      show ((s.setWorker k w').workers j).Sane
      rcases hws j with hj | ⟨-, hj⟩
      · rw [hj]
        exact hs.sane j
      · rw [hj]
        exact hm.sane
    · intro j halive hother
      rcases hws j with hj | ⟨rfl, hj⟩
      · have hleak := hs.others j (hj ▸ halive) hother
        exact ⟨(hsame _).trans hleak.worker, (hsame _).trans (hj ▸ hleak.file), (hsame _).trans (hj ▸ hleak.name)⟩
      · have hleak := hs.others j hm.alive hother
        refine ⟨(hsame _).trans hleak.worker, (hsame _).trans ?_, (hsame _).trans ?_⟩
        · show status s.log (.file ((s.setWorker j w').workers j).hFile) = .abandoned
          rw [hj, hm.hFile]
          exact hleak.file
        · show status s.log (.name ((s.setWorker j w').workers j).fileName) = .abandoned
          rw [hj, hm.fileName]
          exact hleak.name

/-! ## Steps of the main thread -/

/-- A step of the main thread: what it does to the ledger, and to its own worker. -/
theorem Inv.main (hs : s.Inv) {s' : State} (ops : List (Op Res)) (hlog : s'.log = ops ++ s.log)
    (howns : Owns s'.log s'.pc.Own fun r => s'.ids ≤ r.id)
    (hworker : ∀ k, s'.pc.worker = some k → s'.pc.Fits (s'.workers k) ∧ (s'.workers k).Sane)
    (hothers : ∀ k, s'.pc.worker ≠ some k → s'.workers k = s.workers k ∧
      (s.pc.worker = some k → (s.workers k).thread = .exited ∨ s'.Leaked k))
    (hcontent : ∀ b c h, s'.pc.name = some b → s'.buffers b = some c → s'.pc.hFile = some h → c.source = h)
    (hfound : ∀ f ∈ s'.retlist, f.source = f.handle) : s'.Inv := by
  refine ⟨howns, fun k hk => (hworker k hk).1, ?_, ?_, hcontent, hfound⟩
  · intro k
    by_cases hcur : s'.pc.worker = some k
    · exact (hworker k hcur).2
    · exact (hothers k hcur).1 ▸ hs.sane k
  · intro k halive hother
    obtain ⟨hsame, hdropped⟩ := hothers k hother
    rw [hsame] at halive
    by_cases hcur : s.pc.worker = some k
    · exact (hdropped hcur).resolve_left halive
    · have hleak := hs.others k halive hcur
      have hlegal := howns.legal
      rw [hlog] at hlegal
      refine ⟨?_, ?_, ?_⟩
      · rw [hlog]
        exact hlegal.keeps_abandoned hleak.worker
      · rw [hlog, hsame]
        exact hlegal.keeps_abandoned hleak.file
      · rw [hlog, hsame]
        exact hlegal.keeps_abandoned hleak.name

/-- A step by which the worker stays as it is. -/
theorem Inv.stay (hs : s.Inv) {s' : State} (ops : List (Op Res)) (hlog : s'.log = ops ++ s.log)
    (howns : Owns s'.log s'.pc.Own fun r => s'.ids ≤ r.id) (hworker : s'.pc.worker = s.pc.worker)
    (hws : s'.workers = s.workers) (hfits : ∀ k, s.pc.worker = some k → s'.pc.Fits (s.workers k))
    (hcontent : ∀ b c h, s'.pc.name = some b → s'.buffers b = some c → s'.pc.hFile = some h → c.source = h)
    (hfound : ∀ f ∈ s'.retlist, f.source = f.handle) : s'.Inv := by
  refine hs.main ops hlog howns ?_ ?_ hcontent hfound
  · intro k hk
    rw [hws]
    exact ⟨hfits k (hworker ▸ hk), hs.sane k⟩
  · intro k hk
    rw [hws]
    exact ⟨rfl, fun h => absurd (hworker.trans h) hk⟩

/-- A step in which the main thread uses something that it holds, and sets a field of its worker. -/
theorem Inv.touch (hs : s.Inv) (r : Res) (hr : s.pc.Own r) {w : Nat} (hw : s.pc.worker = some w) {new : Worker} {pc : MainPc}
    (hown : ∀ r, s.pc.Own r ↔ pc.Own r) (hfits : pc.Fits new) (hsane : new.Sane) :
    (((s.note (.use r)).setWorker w new).goto pc).Inv := by
  have hworker : ∀ k, pc.worker = some k → k = w := by
    intro k hk
    exact Option.some.inj (((hown (.worker k)).2 hk).symm.trans hw)
  refine hs.main [.use r] rfl ((hs.owns.use r hr).weaken hown fun _ h => h) ?_ ?_ ?_ hs.found
  · intro k hk
    obtain rfl := hworker k hk
    show pc.Fits (((s.note (.use r)).setWorker k new).workers k) ∧ Worker.Sane (((s.note (.use r)).setWorker k new).workers k)
    rw [setWorker_self]
    exact ⟨hfits, hsane⟩
  · intro k hk
    have hne : k ≠ w := by
      rintro rfl
      exact hk ((hown (.worker k)).1 hw)
    refine ⟨setWorker_of_ne _ hne new, fun h => ?_⟩
    exact absurd (Option.some.inj (h.symm.trans hw)) hne
  · intro b c h hname hc hfile
    exact hs.content b c h ((hown (.name b)).2 hname) hc ((hown (.file h)).2 hfile)

section

variable {entries : List Entry} {retlist : List Found} {error : Option OpenError} {workers : Nat → Worker}
  {buffers : Nat → Option Content} {ids : Nat} {log : List (Op Res)} {worker : Option Nat} {w hFile fileName : Nat} {q : Query}
  (fileTypeIndex : Nat) (ok : Bool)

/-- The numbers from `ids + 1` on are as new as those from `ids` on. -/
theorem new_succ {r : Res} (r' : Res) (hr' : r'.id = ids) (h : ids + 1 ≤ r.id) : ids ≤ r.id ∧ r ≠ r' := by
  refine ⟨Nat.le_of_succ_le h, ?_⟩
  rintro rfl
  omega

theorem Inv.loop (hs : Inv ⟨.loop worker, entries, retlist, error, workers, buffers, ids, log⟩) :
    (mainStep ⟨.loop worker, entries, retlist, error, workers, buffers, ids, log⟩ fileTypeIndex ok).1.Inv := by
  unfold mainStep
  cases entries with
  | nil =>
    refine hs.stay [] rfl (hs.owns.weaken ?_ fun _ h => h) rfl rfl hs.control ?_ hs.found
    · rintro (n | n | n | n) <;> rfl
    · rintro b c h ⟨⟩
  | cons entry entries =>
    dsimp only
    split_ifs
    · exact hs.stay [] rfl hs.owns rfl rfl hs.control hs.content hs.found
    · exact hs.stay [] rfl hs.owns rfl rfl hs.control hs.content hs.found
    · have howns := hs.owns.acquire (.file ids) (Nat.le_refl ids)
      refine hs.stay [_] rfl (howns.weaken ?_ fun r => new_succ _ rfl) rfl rfl hs.control ?_ hs.found
      · rintro (n | n | n | n) <;> simp [MainPc.Own, MainPc.hFile, MainPc.name, MainPc.worker, goto, note, eq_comm]
      · rintro b c h ⟨⟩

theorem Inv.alloc {attempts size : Nat}
    (hs : Inv ⟨.alloc worker hFile attempts size, entries, retlist, error, workers, buffers, ids, log⟩) :
    (mainStep ⟨.alloc worker hFile attempts size, entries, retlist, error, workers, buffers, ids, log⟩ fileTypeIndex ok).1.Inv := by
  unfold mainStep
  dsimp only
  split_ifs
  · have howns := hs.owns.acquire (.name ids) (Nat.le_refl ids)
    refine hs.stay [_] rfl (howns.weaken ?_ fun r => new_succ _ rfl) rfl rfl hs.control ?_ hs.found
    · rintro (n | n | n | n) <;> simp [MainPc.Own, MainPc.hFile, MainPc.name, MainPc.worker, goto, note, eq_comm]
    · rintro b c h ⟨⟩ hb
      simp at hb
  · refine hs.stay [] rfl (hs.owns.weaken ?_ fun _ h => h) rfl rfl hs.control ?_ hs.found
    · rintro (n | n | n | n) <;> rfl
    · rintro b c h ⟨⟩

theorem Inv.ensure (hs : Inv ⟨.ensure worker q, entries, retlist, error, workers, buffers, ids, log⟩) :
    (mainStep ⟨.ensure worker q, entries, retlist, error, workers, buffers, ids, log⟩ fileTypeIndex ok).1.Inv := by
  unfold mainStep
  cases worker with
  | some w =>
    refine hs.stay [] rfl (hs.owns.weaken ?_ fun _ h => h) rfl rfl hs.control hs.content hs.found
    rintro (n | n | n | n) <;> rfl
  | none =>
    dsimp only
    split_ifs
    · have howns := (hs.owns.acquire (.worker ids) (Nat.le_refl ids)).acquire (.thread ids) ⟨Nat.le_refl ids, by simp⟩
      refine hs.main [_, _] rfl (howns.weaken ?_ ?_) ?_ ?_ hs.content hs.found
      · rintro (n | n | n | n) <;> simp [MainPc.Own, MainPc.hFile, MainPc.name, MainPc.worker, goto, note, eq_comm]
      · intro r (hr : ids + 1 ≤ r.id)
        exact ⟨new_succ (.worker ids) rfl hr, (new_succ (.thread ids) rfl hr).2⟩
      · rintro k ⟨⟩
        simp only [goto, setWorker_self]
        exact ⟨⟨rfl, rfl, rfl, rfl, rfl⟩, Worker.sane_of_not_query (by simp)⟩
      · intro k hk
        refine ⟨setWorker_of_ne _ (fun h => hk (congrArg some h.symm)) _, ?_⟩
        rintro ⟨⟩
    · have howns := hs.owns.release (.name q.name) rfl
      refine hs.stay [_] rfl (howns.weaken ?_ fun _ h => h) rfl rfl hs.control ?_ hs.found
      · rintro (n | n | n | n) <;> simp [MainPc.Own, MainPc.hFile, MainPc.name, MainPc.worker, fail, note, eq_comm]
      · rintro b c h ⟨⟩

/-! ### A query -/

theorem Inv.submit (hs : Inv ⟨.submit w q, entries, retlist, error, workers, buffers, ids, log⟩) :
    (mainStep ⟨.submit w q, entries, retlist, error, workers, buffers, ids, log⟩ fileTypeIndex ok).1.Inv := by
  have hidle : (workers w).Idle := hs.control w rfl
  refine hs.touch (.worker w) rfl rfl ?_ ⟨⟨hidle.thread, hidle.startEvent, hidle.doneEvent, hidle.quit, hidle.terminated⟩, rfl, rfl⟩ ?_
  · rintro (n | n | n | n) <;> rfl
  · exact Worker.sane_of_not_query (by simp [hidle.thread])

theorem Inv.start (hs : Inv ⟨.start w q, entries, retlist, error, workers, buffers, ids, log⟩) :
    (mainStep ⟨.start w q, entries, retlist, error, workers, buffers, ids, log⟩ fileTypeIndex ok).1.Inv := by
  obtain ⟨hidle, hfile, hname⟩ : (MainPc.start w q).Fits (workers w) := hs.control w rfl
  refine hs.touch (.worker w) rfl rfl ?_ ⟨⟨hfile, hname, hidle.quit, Or.inl ⟨hidle.thread, rfl, hidle.doneEvent⟩⟩, hidle.terminated⟩ ?_
  · rintro (n | n | n | n) <;> rfl
  · exact Worker.sane_of_not_query (by simp [hidle.thread])

theorem Inv.wait (hs : Inv ⟨.wait w q, entries, retlist, error, workers, buffers, ids, log⟩) :
    (mainStep ⟨.wait w q, entries, retlist, error, workers, buffers, ids, log⟩ fileTypeIndex ok).1.Inv := by
  obtain ⟨hserv, hterm⟩ : (MainPc.wait w q).Fits (workers w) := hs.control w rfl
  unfold mainStep
  dsimp only
  split_ifs with hok hdone
  · refine hs.stay [.use (.worker w)] rfl ((hs.owns.use (.worker w) rfl).weaken ?_ fun _ h => h) rfl rfl hs.control hs.content hs.found
    rintro (n | n | n | n) <;> rfl
  · -- the worker has come back, and nothing else has happened
    have hidle : (workers w).thread = .waiting ∧ (workers w).startEvent = false := by
      rcases hserv.turn with ⟨-, -, h⟩ | ⟨-, -, h⟩ | ⟨ht, hst, -⟩
      · simp [h] at hdone
      · simp [h] at hdone
      · exact ⟨ht, hst⟩
    refine hs.touch (.worker w) rfl rfl ?_ ⟨hidle.1, hidle.2, rfl, hserv.quit, hterm⟩ ?_
    · rintro (n | n | n | n) <;> rfl
    · exact Worker.sane_of_not_query (by simp [hidle.1])
  · exact hs

theorem Inv.kill (hs : Inv ⟨.kill w q, entries, retlist, error, workers, buffers, ids, log⟩) :
    (mainStep ⟨.kill w q, entries, retlist, error, workers, buffers, ids, log⟩ fileTypeIndex ok).1.Inv := by
  obtain ⟨hserv, -⟩ : (MainPc.kill w q).Fits (workers w) := hs.control w rfl
  refine hs.touch (.thread w) rfl rfl ?_ ⟨hserv.hFile, hserv.fileName, Or.inl ⟨hserv.hFile, hserv.fileName, hserv.quit, hserv.turn⟩⟩ ?_
  · rintro (n | n | n | n) <;> rfl
  · exact hs.sane w

/-- Either everything is given back, or everything but the handle of the thread is leaked. -/
theorem Inv.join (hs : Inv ⟨.join w q, entries, retlist, error, workers, buffers, ids, log⟩) :
    (mainStep ⟨.join w q, entries, retlist, error, workers, buffers, ids, log⟩ fileTypeIndex ok).1.Inv := by
  obtain ⟨hfile, hname, -⟩ : (MainPc.join w q).Fits (workers w) := hs.control w rfl
  unfold mainStep
  dsimp only
  split_ifs with hblocked hok
  · exact hs
  · have hexit : (workers w).thread = .exited := by simpa [hok] using hblocked
    rw [hfile, hname]
    have howns := (((hs.owns.release (.thread w) rfl).release (.file q.hFile) ⟨rfl, by simp⟩).release (.name q.name)
      ⟨⟨rfl, by simp⟩, by simp⟩).release (.worker w) ⟨⟨⟨rfl, by simp⟩, by simp⟩, by simp⟩
    refine hs.main [_, _, _, _] rfl (howns.weaken ?_ fun _ h => h) ?_ ?_ ?_ hs.found
    · rintro (n | n | n | n) <;> simp [MainPc.Own, MainPc.hFile, MainPc.name, MainPc.worker, goto, note, eq_comm]
    · rintro k ⟨⟩
    · intro k _
      refine ⟨rfl, ?_⟩
      rintro ⟨⟩
      exact Or.inl hexit
    · rintro b c h ⟨⟩
  · have howns := (((hs.owns.release (.thread w) rfl).abandon (.file q.hFile) ⟨rfl, by simp⟩).abandon (.name q.name)
      ⟨⟨rfl, by simp⟩, by simp⟩).abandon (.worker w) ⟨⟨⟨rfl, by simp⟩, by simp⟩, by simp⟩
    refine hs.main [_, _, _, _] rfl (howns.weaken ?_ fun _ h => h) ?_ ?_ ?_ hs.found
    · rintro (n | n | n | n) <;> simp [MainPc.Own, MainPc.hFile, MainPc.name, MainPc.worker, goto, note, eq_comm]
    · rintro k ⟨⟩
    · intro k _
      refine ⟨rfl, ?_⟩
      rintro ⟨⟩
      refine Or.inr ⟨?_, ?_, ?_⟩ <;> simp [goto, note, status, Op.res, Op.next, hfile, hname]
    · rintro b c h ⟨⟩

theorem Inv.reply (hs : Inv ⟨.reply w q, entries, retlist, error, workers, buffers, ids, log⟩) :
    (mainStep ⟨.reply w q, entries, retlist, error, workers, buffers, ids, log⟩ fileTypeIndex ok).1.Inv := by
  have huse := hs.owns.use (.worker w) rfl
  have hrelease := huse.release (.name q.name) rfl
  unfold mainStep
  dsimp only
  split_ifs
  · refine hs.stay [_, _] rfl (hrelease.weaken ?_ fun _ h => h) rfl rfl hs.control ?_ hs.found
    · rintro (n | n | n | n) <;> simp [MainPc.Own, MainPc.hFile, MainPc.name, MainPc.worker, goto, note, eq_comm]
    · rintro b c h ⟨⟩
  · refine hs.stay [_, _] rfl (hrelease.weaken ?_ fun _ h => h) rfl rfl hs.control ?_ hs.found
    · rintro (n | n | n | n) <;> simp [MainPc.Own, MainPc.hFile, MainPc.name, MainPc.worker, fail, note, eq_comm]
    · rintro b c h ⟨⟩
  · refine hs.stay [_] rfl (huse.weaken ?_ fun _ h => h) rfl rfl hs.control hs.content hs.found
    rintro (n | n | n | n) <;> rfl
  · refine hs.stay [_, _] rfl (hrelease.weaken ?_ fun _ h => h) rfl rfl hs.control ?_ hs.found
    · rintro (n | n | n | n) <;> simp [MainPc.Own, MainPc.hFile, MainPc.name, MainPc.worker, fail, note, eq_comm]
    · rintro b c h ⟨⟩

/-! ### After a query -/

theorem Inv.append (hs : Inv ⟨.append w hFile fileName, entries, retlist, error, workers, buffers, ids, log⟩) :
    (mainStep ⟨.append w hFile fileName, entries, retlist, error, workers, buffers, ids, log⟩ fileTypeIndex ok).1.Inv := by
  have huse := hs.owns.use (.name fileName) rfl
  unfold mainStep
  dsimp only
  split
  · refine hs.stay [_] rfl (huse.weaken ?_ fun _ h => h) rfl rfl hs.control hs.content hs.found
    rintro (n | n | n | n) <;> rfl
  · rename_i content hcontent
    split_ifs
    · refine hs.stay [_] rfl (huse.weaken ?_ fun _ h => h) rfl rfl hs.control hs.content hs.found
      rintro (n | n | n | n) <;> rfl
    · refine hs.stay [_] rfl (huse.weaken ?_ fun _ h => h) rfl rfl hs.control hs.content ?_
      · rintro (n | n | n | n) <;> rfl
      · intro f hf
        rcases List.mem_append.1 hf with hf | hf
        · exact hs.found f hf
        · obtain rfl := List.mem_singleton.1 hf
          exact hs.content fileName content hFile rfl hcontent rfl
    · refine hs.stay [_] rfl (huse.weaken ?_ fun _ h => h) rfl rfl hs.control hs.content hs.found
      rintro (n | n | n | n) <;> rfl

theorem Inv.cleanup (hs : Inv ⟨.cleanup w hFile fileName, entries, retlist, error, workers, buffers, ids, log⟩) :
    (mainStep ⟨.cleanup w hFile fileName, entries, retlist, error, workers, buffers, ids, log⟩ fileTypeIndex ok).1.Inv := by
  have howns := (hs.owns.release (.name fileName) rfl).release (.file hFile) ⟨rfl, by simp⟩
  refine hs.stay [_, _] rfl (howns.weaken ?_ fun _ h => h) rfl rfl hs.control ?_ hs.found
  · rintro (n | n | n | n) <;> simp [MainPc.Own, MainPc.hFile, MainPc.name, MainPc.worker, mainStep, goto, note, eq_comm]
  · rintro b c h ⟨⟩

/-! ### The end -/

variable {file name : Option Nat}

theorem Inv.exit (hs : Inv ⟨.exit worker file name, entries, retlist, error, workers, buffers, ids, log⟩) :
    (mainStep ⟨.exit worker file name, entries, retlist, error, workers, buffers, ids, log⟩ fileTypeIndex ok).1.Inv := by
  cases worker with
  | none =>
    refine hs.stay [] rfl (hs.owns.weaken ?_ fun _ h => h) rfl rfl ?_ hs.content hs.found
    · rintro (n | n | n | n) <;> rfl
    · rintro k ⟨⟩
  | some w =>
    have hidle : (workers w).Idle := hs.control w rfl
    refine hs.touch (.worker w) rfl rfl ?_ ⟨hidle.thread, hidle.startEvent, rfl, hidle.terminated⟩ ?_
    · rintro (n | n | n | n) <;> rfl
    · exact Worker.sane_of_not_query (by simp [hidle.thread])

theorem Inv.quit (hs : Inv ⟨.quit w file name, entries, retlist, error, workers, buffers, ids, log⟩) :
    (mainStep ⟨.quit w file name, entries, retlist, error, workers, buffers, ids, log⟩ fileTypeIndex ok).1.Inv := by
  obtain ⟨hthread, -, hquit, hterm⟩ : (MainPc.quit w file name).Fits (workers w) := hs.control w rfl
  refine hs.touch (.worker w) rfl rfl ?_ ⟨hquit, hterm, Or.inl ⟨hthread, rfl⟩⟩ ?_
  · rintro (n | n | n | n) <;> rfl
  · exact Worker.sane_of_not_query (by simp [hthread])

theorem Inv.joinQuit (hs : Inv ⟨.joinQuit w file name, entries, retlist, error, workers, buffers, ids, log⟩) :
    (mainStep ⟨.joinQuit w file name, entries, retlist, error, workers, buffers, ids, log⟩ fileTypeIndex ok).1.Inv := by
  unfold mainStep
  dsimp only
  split_ifs with hexit
  · have howns := (hs.owns.release (.thread w) rfl).release (.worker w) ⟨rfl, by simp⟩
    refine hs.main [_, _] rfl (howns.weaken ?_ fun _ h => h) ?_ ?_ hs.content hs.found
    · rintro (n | n | n | n) <;> simp [MainPc.Own, MainPc.hFile, MainPc.name, MainPc.worker, goto, note, eq_comm]
    · rintro k ⟨⟩
    · intro k _
      refine ⟨rfl, ?_⟩
      rintro ⟨⟩
      exact Or.inl hexit
  · exact hs

theorem Inv.rest (hs : Inv ⟨.rest file name, entries, retlist, error, workers, buffers, ids, log⟩) :
    (mainStep ⟨.rest file name, entries, retlist, error, workers, buffers, ids, log⟩ fileTypeIndex ok).1.Inv := by
  -- the handle is closed first
  have hfile : ∃ ops, ops = (file.map fun n => Op.release (Res.file n)).toList ∧
      Owns (ops ++ log) (MainPc.rest none name).Own fun r => ids ≤ r.id := by
    refine ⟨_, rfl, ?_⟩
    cases file with
    | none => exact hs.owns
    | some h =>
      refine (hs.owns.release (.file h) rfl).weaken ?_ fun _ h => h
      rintro (n | n | n | n) <;> simp [MainPc.Own, MainPc.hFile, MainPc.name, MainPc.worker, eq_comm]
  obtain ⟨ops, hops, howns⟩ := hfile
  refine hs.stay _ rfl ?_ rfl rfl (fun k hk => by cases hk) (fun b c h hb => by cases hb) hs.found
  show Owns (((name.map fun n => Op.release (Res.name n)).toList ++ (file.map fun n => Op.release (Res.file n)).toList) ++ log)
    MainPc.finished.Own fun r => ids ≤ r.id
  rw [← hops, List.append_assoc]
  cases name with
  | none =>
    refine howns.weaken ?_ fun _ h => h
    rintro (n | n | n | n) <;> rfl
  | some b =>
    refine (howns.release (.name b) rfl).weaken ?_ fun _ h => h
    rintro (n | n | n | n) <;> simp [MainPc.Own, MainPc.hFile, MainPc.name, MainPc.worker, eq_comm]

theorem Inv.mainStep (hs : s.Inv) : (s.mainStep fileTypeIndex ok).1.Inv := by
  obtain ⟨pc, entries, retlist, error, workers, buffers, ids, log⟩ := s
  cases pc with
  | loop => exact hs.loop fileTypeIndex ok
  | alloc => exact hs.alloc fileTypeIndex ok
  | ensure => exact hs.ensure fileTypeIndex ok
  | submit => exact hs.submit fileTypeIndex ok
  | start => exact hs.start fileTypeIndex ok
  | wait => exact hs.wait fileTypeIndex ok
  | kill => exact hs.kill fileTypeIndex ok
  | join => exact hs.join fileTypeIndex ok
  | reply => exact hs.reply fileTypeIndex ok
  | append => exact hs.append fileTypeIndex ok
  | cleanup => exact hs.cleanup fileTypeIndex ok
  | exit => exact hs.exit fileTypeIndex ok
  | quit => exact hs.quit fileTypeIndex ok
  | joinQuit => exact hs.joinQuit fileTypeIndex ok
  | rest => exact hs.rest fileTypeIndex ok
  | finished => exact hs

end

/-- **Every step of either party keeps the invariant.** -/
theorem Inv.step (hs : s.Inv) (fileTypeIndex : Nat) (e : Ev) : (s.step fileTypeIndex e).1.Inv := by
  cases e with
  | main ok => exact hs.mainStep fileTypeIndex ok
  | worker k ev => exact hs.workerStep k ev

end State

end Psutil.OpenFiles
