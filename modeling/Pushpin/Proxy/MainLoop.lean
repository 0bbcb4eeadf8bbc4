import Pushpin.Proxy.QuitHandler

/-! # The main loop of `runLoop`

Once the startup loop has started every worker, `runLoop` (src/proxy/app.cpp) sits in its event
loop and runs two handlers on the main thread: on `DomainMap::changed` it calls
`t->routesChanged()` on every thread in `threads`, in order, and on `ProcessQuit::quit` it runs
the quit handler. The event loop dispatches a signal only between handlers; every worker thread
goes on with its own steps throughout. Two counters observe the run: `changes`, the `changed`
signals handled, and `notified`, the calls each worker makes to `engine_->routesChanged()` in
`EngineWorker::routesChanged`.
-/

namespace Pushpin.MainLoop
set_option autoImplicit false

open Pushpin.EngineThread Pushpin.QuitHandler

/-- Where the main thread is: in the event loop, in the `changed` handler at `threads[i]`
(`t->routesChanged()` not begun yet, or begun), or in the quit handler. -/
inductive MainPc
  | waiting
  | routing (i : Nat) (begun : Bool)
  | quitting (pc : QuitPc)
  deriving DecidableEq, Repr

/-- The threads, the main thread's point, the `DomainMap::changed` signals handled, and how often
each thread's worker called `engine_->routesChanged()`. -/
structure Main where
  threads : List State
  pc : MainPc
  changes : Nat
  notified : Nat → Nat

inductive MainAction
  | changed
  | quit
  | supervisor
  | worker (i : Nat)
  deriving DecidableEq, Repr

def MainAction.isSignal : MainAction → Bool
  | .changed | .quit => true
  | _ => false

def Main.start (threads : List State) : Main := ⟨threads, .waiting, 0, fun _ => 0⟩

def mainStep (m : Main) : Option Main :=
  match m.pc with
  | .waiting => none
  | .routing i false =>
    match m.threads[i]? with
    | some t => do
      let t' ← beginCall .routesChanged t
      some { m with threads := m.threads.set i t', pc := .routing i true }
    | none => some { m with pc := .waiting }
  | .routing i true => do
    let t ← m.threads[i]?
    if t.sup = .idle then some { m with pc := .routing (i + 1) false }
    else
      let t' ← supervisorStep t
      some { m with threads := m.threads.set i t', pc := .routing i true }
  | .quitting pc => do
    let q ← quitStep ⟨m.threads, pc⟩
    some { m with threads := q.threads, pc := .quitting q.pc }

/-- The worker thread's next step runs `worker->routesChanged()` on a live `EngineWorker` whose
`engine_` is set, so calls `engine_->routesChanged()`. -/
def notifiesEngine (t : State) : Bool :=
  decide (t.wk = .loop ∧ t.exitRequested = false ∧ t.queue.head? = some .routesChanged ∧
    t.object = .live ∧ t.engine = true)

def mainWorkerStep (m : Main) (i : Nat) : Option Main := do
  let t ← m.threads[i]?
  let t' ← workerStep true t
  some { m with
    threads := m.threads.set i t'
    notified := Function.update m.notified i (m.notified i + if notifiesEngine t then 1 else 0) }

def mainAction (m : Main) : MainAction → Option Main
  | .changed =>
    if m.pc = .waiting then some { m with pc := .routing 0 false, changes := m.changes + 1 }
    else none
  | .quit => if m.pc = .waiting then some { m with pc := .quitting (.stopping 0 false) } else none
  | .supervisor => mainStep m
  | .worker i => mainWorkerStep m i

def runMain : Main → List MainAction → Option Main
  | m, [] => some m
  | m, a :: as => (mainAction m a).bind fun m' => runMain m' as

/-! ## What one step of the main loop does -/

inductive MainMove : Main → Main → Prop
  | changed {threads : List State} {c : Nat} {n : Nat → Nat} :
      MainMove ⟨threads, .waiting, c, n⟩ ⟨threads, .routing 0 false, c + 1, n⟩
  | quit {threads : List State} {c : Nat} {n : Nat → Nat} :
      MainMove ⟨threads, .waiting, c, n⟩ ⟨threads, .quitting (.stopping 0 false), c, n⟩
  | routeBegin {threads : List State} {i c : Nat} {n : Nat → Nat} {t t' : State}
      (ht : threads[i]? = some t) (h : beginCall .routesChanged t = some t') :
      MainMove ⟨threads, .routing i false, c, n⟩ ⟨threads.set i t', .routing i true, c, n⟩
  | routesDone {threads : List State} {i c : Nat} {n : Nat → Nat} (ht : threads[i]? = none) :
      MainMove ⟨threads, .routing i false, c, n⟩ ⟨threads, .waiting, c, n⟩
  | routed {threads : List State} {i c : Nat} {n : Nat → Nat} {t : State}
      (ht : threads[i]? = some t) (hIdle : t.sup = .idle) :
      MainMove ⟨threads, .routing i true, c, n⟩ ⟨threads, .routing (i + 1) false, c, n⟩
  | routeStep {threads : List State} {i c : Nat} {n : Nat → Nat} {t t' : State}
      (ht : threads[i]? = some t) (hBusy : ¬ t.sup = .idle) (h : supervisorStep t = some t') :
      MainMove ⟨threads, .routing i true, c, n⟩ ⟨threads.set i t', .routing i true, c, n⟩
  | quitting {threads : List State} {pc : QuitPc} {c : Nat} {n : Nat → Nat} {q : Quit}
      (h : quitStep ⟨threads, pc⟩ = some q) :
      MainMove ⟨threads, .quitting pc, c, n⟩ ⟨q.threads, .quitting q.pc, c, n⟩
  | worker {threads : List State} {pc : MainPc} {i c : Nat} {n : Nat → Nat} {t t' : State}
      (ht : threads[i]? = some t) (h : workerStep true t = some t') :
      MainMove ⟨threads, pc, c, n⟩ ⟨threads.set i t', pc, c,
        Function.update n i (n i + if notifiesEngine t then 1 else 0)⟩

variable {m m' : Main}

theorem mainStep_move (h : mainStep m = some m') : MainMove m m' := by
  obtain ⟨threads, pc, c, n⟩ := m
  cases pc with
  | waiting => cases h
  | routing i begun =>
    cases begun with
    | false =>
      dsimp only [mainStep] at h
      split at h
      next t ht =>
        simp only [Option.bind_eq_bind, Option.bind_eq_some] at h
        obtain ⟨t', h', h⟩ := h
        cases h
        exact .routeBegin ht h'
      next ht => cases h; exact .routesDone ht
    | true =>
      simp only [mainStep, Option.bind_eq_bind, Option.bind_eq_some] at h
      obtain ⟨t, ht, h⟩ := h
      split at h
      next hIdle => cases h; exact .routed ht hIdle
      next hBusy =>
        simp only [Option.bind_eq_bind, Option.bind_eq_some] at h
        obtain ⟨t', h', h⟩ := h
        cases h
        exact .routeStep ht hBusy h'
  | quitting pc =>
    simp only [mainStep, Option.bind_eq_bind, Option.bind_eq_some] at h
    obtain ⟨q, hq, h⟩ := h
    cases h
    exact .quitting hq

theorem mainAction_move {a : MainAction} (h : mainAction m a = some m') : MainMove m m' := by
  obtain ⟨threads, pc, c, n⟩ := m
  cases a with
  | changed | quit =>
    simp only [mainAction] at h
    split at h
    next hW => subst hW; cases h; first | exact .changed | exact .quit
    next => cases h
  | supervisor => exact mainStep_move h
  | worker i =>
    simp only [mainAction, mainWorkerStep, Option.bind_eq_bind, Option.bind_eq_some] at h
    obtain ⟨t, ht, t', h', h⟩ := h
    cases h
    exact .worker ht h'

/-! ## What one thread's steps do to its queue

The main loop needs four facts of a single `EngineThread` that the thread's own invariant leaves
open: what each step leaves alone, that a call on a live `EngineWorker` posts its closure
exactly once, that `engine_` is set until the engine stops, and how the worker thread's loop
consumes a queue of pending changes followed by stops.
-/

section Thread

variable {s t : State}

theorem beginCall_frame {c : Call} (h : beginCall c s = some t) :
    t.queue = s.queue ∧ t.stopRuns = s.stopRuns ∧ t.object = s.object ∧ t.engine = s.engine ∧
      t.touchedAfterReset = s.touchedAfterReset := by
  obtain ⟨-, rfl⟩ := beginCall_eq h
  exact ⟨rfl, rfl, rfl, rfl, rfl⟩

theorem supervisorStep_frame (h : supervisorStep s = some t) :
    t.stopRuns = s.stopRuns ∧ t.object = s.object ∧ t.engine = s.engine := by
  cases supervisorStep_move h <;> exact ⟨rfl, rfl, rfl⟩

theorem supervisorStep_queue (h : supervisorStep s = some t) :
    t.queue = s.queue ∨ ∃ k p d, s.sup = .post k p d ∧ t.queue = s.queue ++ [k] := by
  cases supervisorStep_move h with
  | defer s k d _ => exact .inr ⟨k, .defer, d, rfl, rfl⟩
  | _ => exact .inl rfl

theorem supervisorStep_posts {k : Closure} {p : PostPc} {d : Bool} (hS : s.sup = .post k p d)
    (hLive : s.object = .live) (h : supervisorStep s = some t) :
    (t.queue = s.queue ∧ t.sup.pendingAppend = s.sup.pendingAppend ∨
      t.queue = s.queue ++ [k] ∧ t.sup.pendingAppend + 1 = s.sup.pendingAppend) ∧
      t.touchedAfterReset = s.touchedAfterReset ∧ t.sup ≠ .crashed := by
  cases supervisorStep_move h <;> simp_all [SupervisorPc.pendingAppend]

theorem step_queue_start {ok : Bool} {a : Action} (hInv : Inv ok s)
    (hP : s.callsBegun = 0 → ∀ k ∈ s.queue, k = .start) (h : step ok s a = some t) :
    t.callsBegun = 0 → ∀ k ∈ t.queue, k = .start := by
  cases a with
  | supervisor =>
    rw [supervisorStep_callsBegun h]
    intro hC
    rcases supervisorStep_queue h with hq | ⟨k, p, d, hS, -⟩
    · exact hq ▸ hP hC
    · have := hInv.calls_post (by simp [hS, SupervisorPc.inCall])
      omega
  | call c =>
    obtain ⟨-, rfl⟩ := beginCall_eq h
    nofun
  | worker =>
    rw [(workerStep_frame h).1]
    intro hC
    replace hP := hP hC
    cases workerStep_move h <;>
      first
        | exact hP
        | exact fun k hk => hP k (List.mem_cons_of_mem _ (by simpa using hk))
        | simp

theorem reachable_queue_start {ok : Bool} (h : Reachable ok s) (hC : s.callsBegun = 0) :
    ∀ k ∈ s.queue, k = .start := by
  obtain ⟨as, hRun⟩ := h
  refine (run_induction (P := fun s => Inv ok s ∧ (s.callsBegun = 0 → ∀ k ∈ s.queue, k = .start))
    (fun hP h => ⟨step_inv hP.1 h, step_queue_start hP.1 hP.2 h⟩) ⟨init_inv, fun _ => nofun⟩
    hRun).2 hC

theorem start_not_queued {ok : Bool} (hInv : Inv ok s) (hE : s.emitted ≠ none) : .start ∉ s.queue := by
  have hW := hInv.worker
  unfold WorkerFacts Finished at hW
  rcases hWk : s.wk with _ | _ | _ | h | h | h | h | _ | _ <;> try cases h
  all_goals simp_all
  rcases hW with ⟨-, -, h, -⟩ | ⟨-, h, -⟩ <;> simp_all

theorem fresh_thread {s : State} (h : Reachable true s) (hS : RunLoop.StartedIdle s) :
    s.queue = [] ∧ s.stopRuns = 0 ∧ s.touchedAfterReset = false := by
  obtain ⟨hIdle, hC, hR⟩ := hS
  have hInv := reachable_inv h
  obtain ⟨-, hStop⟩ := hInv.first_call (by simp [hC])
  have hNo := start_not_queued hInv (by simp [(start_returns_outcome h hR).2])
  have hAll := reachable_queue_start h hC
  refine ⟨List.eq_nil_iff_forall_not_mem.2 fun k hk => hNo (hAll k hk ▸ hk), hStop, ?_⟩
  cases hT : s.touchedAfterReset
  · rfl
  · have := hInv.touched hT
    omega

theorem workerStep_touched (h : workerStep true s = some t) :
    t.touchedAfterReset = s.touchedAfterReset := by
  cases workerStep_move h <;> simp

theorem workerStep_engine (hP : s.object = .live → s.stopRuns = 0 → s.engine = true)
    (h : workerStep true s = some t) : t.object = .live → t.stopRuns = 0 → t.engine = true := by
  cases workerStep_move h with
  | run s k rest =>
    unfold runClosure
    split <;> (try split) <;> simp_all
  | _ => simp_all

theorem engine_of_live (h : Reachable true s) (hLive : s.object = .live) (hStop : s.stopRuns = 0) :
    s.engine = true := by
  obtain ⟨as, hRun⟩ := h
  refine run_induction (P := fun s => s.object = .live → s.stopRuns = 0 → s.engine = true)
    (fun {s s' a} hP h => ?_) (fun h => absurd h (by decide)) hRun hLive hStop
  cases a with
  | supervisor =>
    obtain ⟨hR, hO, hE⟩ := supervisorStep_frame h
    rw [hR, hO, hE]
    exact hP
  | call c =>
    obtain ⟨-, hR, hO, hE, -⟩ := beginCall_frame h
    rw [hR, hO, hE]
    exact hP
  | worker => exact workerStep_engine hP h

/-- A worker's queue: its pending route changes, then the stops the quit handler posted. No stop
has run while a change is pending, and before the quit handler there is none. -/
def QueueShape (beforeQuit : Bool) (t : State) : Prop :=
  ∃ r n, t.queue = List.replicate r .routesChanged ++ List.replicate n .stop ∧
    (0 < r → t.stopRuns = 0) ∧ (beforeQuit = true → n = 0 ∧ t.stopRuns = 0)

@[simp] theorem count_routes_stops (n : Nat) :
    (List.replicate n Closure.stop).count Closure.routesChanged = 0 := by
  simp [List.count_replicate]

theorem workerStep_routes {b : Bool} (hR : Reachable true s) (hS : s.sup.inStart = false)
    (hQ : QueueShape b s) (h : workerStep true s = some t) :
    QueueShape b t ∧ t.queue.count .routesChanged + (if notifiesEngine s then 1 else 0) =
      s.queue.count .routesChanged := by
  have hInv := reachable_inv hR
  have hD := (hInv.handshake.after_start hS).1
  have hW := hInv.worker
  have hEngine := engine_of_live hR
  obtain ⟨r, n, hq, hr, hb⟩ := hQ
  cases workerStep_move h with
  | lock s => simp [phase] at hD
  | run s k rest =>
    have hLive : s.object = .live := by
      simp only [WorkerFacts, Finished] at hW
      rcases hW with ⟨-, h, -⟩ | ⟨-, h, -⟩ | ⟨-, -, h, -⟩
      exacts [h, h, absurd h (by simp)]
    simp only at hq hr hb hEngine
    cases r with
    | zero =>
      cases n with
      | zero => cases hq
      | succ n =>
        obtain ⟨rfl, rfl⟩ : k = .stop ∧ rest = List.replicate n .stop := by
          simpa [List.replicate_succ, eq_comm] using hq
        refine ⟨⟨0, n, by simp [runClosure, hLive], nofun,
          fun hb' => absurd (hb hb').1 (by omega)⟩, ?_⟩
        simp [runClosure, notifiesEngine, List.replicate_succ, hLive]
    | succ r =>
      obtain ⟨rfl, rfl⟩ : k = .routesChanged ∧
          rest = List.replicate r .routesChanged ++ List.replicate n .stop := by
        simpa [List.replicate_succ, eq_comm] using hq
      have hOn := hEngine hLive (hr (Nat.succ_pos r))
      refine ⟨⟨r, n, by simp [runClosure, hLive], fun _ => by simp [runClosure, hLive, hr],
        by simpa [runClosure, hLive] using hb⟩, ?_⟩
      simp [runClosure, notifiesEngine, List.replicate_succ, hLive, hOn]
  | resetDelete s hd hh =>
    simp only at hq hr hb
    have hr0 : r = 0 := by
      cases hd with
      | started => simp [WorkerFacts] at hW
      | stopped =>
        by_contra hne
        have := hr (Nat.pos_of_ne_zero hne)
        simp [WorkerFacts, this] at hW
      | error => exact absurd rfl hh
    subst hr0
    exact ⟨⟨0, 0, rfl, nofun, fun hb' => ⟨rfl, (hb hb').2⟩⟩, by simp [notifiesEngine, hq]⟩
  | resetDeleteError s =>
    simp only at hq hr hb
    have hr0 : r = 0 := by
      obtain ⟨-, -, hq', -⟩ : s.emitted = some false ∧ s.object = .dying ∧ s.queue = [] ∧ _ := hW
      exact (by simpa [hq'] using hq : r = 0 ∧ n = 0).1
    subst hr0
    exact ⟨⟨0, 0, rfl, nofun, fun hb' => ⟨rfl, (hb hb').2⟩⟩, by simp [notifiesEngine, hq]⟩
  | _ => exact ⟨⟨r, n, hq, hr, hb⟩, by simp [notifiesEngine]⟩

end Thread

/-! ## The invariant of the main loop -/

def MainExpected : MainPc → Nat → State → Prop
  | .waiting, _, t => t.sup = .idle
  | .routing i b, j, t =>
    if j = i ∧ b = true then t.sup = .idle ∨ ∃ p, t.sup = .post .routesChanged p false
    else t.sup = .idle
  | .quitting pc, j, t => QuitExpected pc j t

def MainBegun (n : Nat) : MainPc → Prop
  | .waiting => True
  | .routing i b => b = true → i < n
  | .quitting pc => Begun n pc

def MainPc.beforeQuit : MainPc → Bool
  | .quitting _ => false
  | _ => true

/-- The post the running `changed` handler still owes thread `j`: one until `t->routesChanged()`
has deferred its closure. -/
def owed : MainPc → Nat → State → Nat
  | .routing i b, j, t =>
    if i < j ∨ j = i ∧ b = false then 1 else if j = i then t.sup.pendingAppend else 0
  | _, _, _ => 0

/-- What the main loop knows of thread `j`: its state is one its own schedules reach with an
engine that started, its calls are where the main thread is, its queue holds its pending
changes before any stop, and every change handled is told to its engine, pending in its queue,
or owed by the running handler. -/
structure ThreadFacts (pc : MainPc) (changes notified j : Nat) (t : State) : Prop where
  reachable : Reachable true t
  expected : MainExpected pc j t
  queue : QueueShape pc.beforeQuit t
  untouched : pc.beforeQuit = true → t.touchedAfterReset = false
  told : notified + t.queue.count .routesChanged + owed pc j t = changes

structure MainInv (m : Main) : Prop where
  facts : ∀ j t, m.threads[j]? = some t → ThreadFacts m.pc m.changes (m.notified j) j t
  begun : MainBegun m.threads.length m.pc

theorem QueueShape.of_eq {b : Bool} {s t : State} (hQ : QueueShape b s) (hq : t.queue = s.queue)
    (hr : t.stopRuns = s.stopRuns) : QueueShape b t := by
  obtain ⟨r, n, h, h1, h2⟩ := hQ
  exact ⟨r, n, hq.trans h, hr ▸ h1, hr ▸ h2⟩

theorem QueueShape.post_stop {s t : State} (hQ : QueueShape false s)
    (hq : t.queue = s.queue ++ [.stop]) (hr : t.stopRuns = s.stopRuns) : QueueShape false t := by
  obtain ⟨r, n, h, h1, -⟩ := hQ
  exact ⟨r, n + 1, by rw [hq, h, List.replicate_succ', List.append_assoc], hr ▸ h1, nofun⟩

theorem MainExpected.inStart {pc : MainPc} {j : Nat} {t : State} (hE : MainExpected pc j t) :
    t.sup.inStart = false := by
  cases hS : t.sup with
  | start =>
    unfold MainExpected QuitExpected at hE
    split at hE <;> (try split at hE) <;> (try split_ifs at hE) <;>
      simp_all [SupervisorPc.destroying, SupervisorPc.halted]
  | _ => rfl

theorem MainExpected.workerStep_sup {pc : MainPc} {j : Nat} {s t : State}
    (hE : MainExpected pc j s) (h : workerStep true s = some t) : t.sup = s.sup := by
  rcases (workerStep_frame h).2.2 with hS | ⟨hW, -⟩
  · exact hS
  · have := hE.inStart
    rw [hW] at this
    cases this

theorem MainExpected.of_sup {pc : MainPc} {j : Nat} {s t : State} (hE : MainExpected pc j s)
    (h : t.sup = s.sup) : MainExpected pc j t := by
  rcases pc with _ | ⟨i, b⟩ | ⟨_ | _ | _⟩ <;> simpa only [MainExpected, QuitExpected, h] using hE

theorem live_of_started {s : State} (h : Reachable true s) (hS : s.sup.inStart = false)
    (hStop : s.stopRuns = 0) : s.object = .live := by
  have hInv := reachable_inv h
  simpa using live_iff_of_decided (hInv.handshake.after_start hS).1 hInv.worker hInv.emitted_ok hStop

section Facts

variable {pc : MainPc} {c n j : Nat} {s t : State}

theorem ThreadFacts.of_workerStep (hF : ThreadFacts pc c n j s) (h : workerStep true s = some t) :
    ThreadFacts pc c (n + if notifiesEngine s then 1 else 0) j t := by
  obtain ⟨hQ, hCount⟩ := workerStep_routes hF.reachable hF.expected.inStart hF.queue h
  have hSup := hF.expected.workerStep_sup h
  have hTold := hF.told
  have hOwed : owed pc j t = owed pc j s := by cases pc <;> simp only [owed, hSup]
  exact ⟨hF.reachable.step (a := .worker) h, hF.expected.of_sup hSup, hQ,
    workerStep_touched h ▸ hF.untouched, by omega⟩

theorem ThreadFacts.of_routeStep {i : Nat} (hF : ThreadFacts (.routing i true) c n i s)
    (hBusy : ¬ s.sup = .idle) (h : supervisorStep s = some t) :
    ThreadFacts (.routing i true) c n i t := by
  obtain ⟨p, hp⟩ : ∃ p, s.sup = .post .routesChanged p false := by
    simpa [MainExpected, hBusy] using hF.expected
  obtain ⟨r, n', hq, hr, hb⟩ := hF.queue
  obtain ⟨rfl, hStop⟩ := hb rfl
  obtain ⟨hPost, hTouch, hNC⟩ :=
    supervisorStep_posts hp (live_of_started hF.reachable hF.expected.inStart hStop) h
  have hR := (supervisorStep_frame h).1
  have hTold := hF.told
  refine ⟨hF.reachable.step (a := .supervisor) h,
    by simpa [MainExpected, hNC] using supervisorStep_post hp h, ?_,
    fun _ => hTouch ▸ hF.untouched rfl, ?_⟩
  · rcases hPost with ⟨hq', -⟩ | ⟨hq', -⟩
    · exact ⟨r, 0, hq'.trans hq, hR ▸ hr, fun _ => ⟨rfl, hR ▸ hStop⟩⟩
    · refine ⟨r + 1, 0, by simp [hq', hq, List.replicate_succ'], fun _ => hR ▸ hStop,
        fun _ => ⟨rfl, hR ▸ hStop⟩⟩
  · have hO : ∀ x : State, owed (.routing i true) i x = x.sup.pendingAppend := by simp [owed]
    rw [hO] at hTold ⊢
    rcases hPost with ⟨hq', hpa⟩ | ⟨hq', hpa⟩
    · rw [hq']
      omega
    · simp only [hq', List.count_append, List.count_singleton_self]
      omega

end Facts

theorem quit_post_stop {q : Quit} {i : Nat} {t : State} {k : Closure} {p : PostPc} {d : Bool}
    (hInv : QuitInv q) (ht : q.threads[i]? = some t) (hS : t.sup = .post k p d) : k = .stop := by
  have hE := hInv.expected i t ht
  have hP := (reachable_inv (hInv.reachable i t ht)).posted
  rw [hS] at hP
  unfold QuitExpected at hE
  rw [hS] at hE
  split at hE <;> (try split_ifs at hE) <;>
    simp_all [SupervisorPc.destroying, SupervisorPc.halted, SupervisorPc.WellPosted]

theorem quitStep_queue {q q' : Quit} (hInv : QuitInv q) (h : quitStep q = some q') {j : Nat}
    {t' : State} (hj : q'.threads[j]? = some t') :
    ∃ t, q.threads[j]? = some t ∧ t'.stopRuns = t.stopRuns ∧
      (t'.queue = t.queue ∨ t'.queue = t.queue ++ [.stop]) := by
  cases quitStep_move h with
  | @stopBegin threads i t t₁ ht h' | @deleteBegin threads i t t₁ ht h' =>
    rcases getElem?_set_cases hj with ⟨rfl, rfl⟩ | ⟨-, hj⟩
    · obtain ⟨hq, hr, -⟩ := beginCall_frame h'
      exact ⟨t, ht, hr, .inl hq⟩
    · exact ⟨t', hj, rfl, .inl rfl⟩
  | @stopStep threads i t t₁ ht hBusy h' | @deleteStep threads i t t₁ ht hBusy h' =>
    rcases getElem?_set_cases hj with ⟨rfl, rfl⟩ | ⟨-, hj⟩
    · refine ⟨t, ht, (supervisorStep_frame h').1, ?_⟩
      rcases supervisorStep_queue h' with hq | ⟨k, p, d, hS, hq⟩
      · exact .inl hq
      · exact .inr (quit_post_stop hInv ht hS ▸ hq)
    · exact ⟨t', hj, rfl, .inl rfl⟩
  | _ => exact ⟨t', hj, rfl, .inl rfl⟩

theorem MainInv.quitInv {threads : List State} {pc : QuitPc} {c : Nat} {n : Nat → Nat}
    (hInv : MainInv ⟨threads, .quitting pc, c, n⟩) : QuitInv ⟨threads, pc⟩ where
  reachable j t hj := (hInv.facts j t hj).reachable
  expected j t hj := (hInv.facts j t hj).expected
  begun := hInv.begun

theorem MainInv.set {threads : List State} {pc pc' : MainPc} {c c' : Nat} {n n' : Nat → Nat}
    {i : Nat} {t t' : State} (hInv : MainInv ⟨threads, pc, c, n⟩) (ht : threads[i]? = some t)
    (hI : ThreadFacts pc' c' (n' i) i t')
    (hOther : ∀ j s, j ≠ i → ThreadFacts pc c (n j) j s → ThreadFacts pc' c' (n' j) j s)
    (hB : MainBegun threads.length pc') : MainInv ⟨threads.set i t', pc', c', n'⟩ where
  facts j s hj := by
    rcases getElem?_set_cases hj with ⟨rfl, rfl⟩ | ⟨hji, hj⟩
    exacts [hI, hOther j s hji (hInv.facts j s hj)]
  begun := by simpa using hB

theorem mainMove_inv (hInv : MainInv m) (h : MainMove m m') : MainInv m' := by
  cases h with
  | @changed threads c n =>
    refine ⟨fun j t hj => ?_, nofun⟩
    have hF := hInv.facts j t hj
    have hIdle : t.sup = .idle := hF.expected
    have hO : owed (.routing 0 false) j t = 1 := by
      rcases Nat.eq_zero_or_pos j with rfl | hj <;> simp [owed, *]
    have hTold : n j + t.queue.count .routesChanged + 0 = c := hF.told
    exact ⟨hF.reachable, by simp [MainExpected, hIdle], hF.queue, hF.untouched,
      show n j + t.queue.count .routesChanged + owed (.routing 0 false) j t = c + 1 by omega⟩
  | quit =>
    refine ⟨fun j t hj => ?_, nofun⟩
    have hF := hInv.facts j t hj
    obtain ⟨r, k, hq, hr, -⟩ := hF.queue
    exact ⟨hF.reachable, by simpa [MainExpected, QuitExpected] using hF.expected,
      ⟨r, k, hq, hr, nofun⟩, nofun, hF.told⟩
  | @routeBegin threads i c n t t' ht h' =>
    have hF := hInv.facts i t ht
    obtain ⟨hq, hr, -, -, hT⟩ := beginCall_frame h'
    have hSup : t'.sup = .post .routesChanged .lock false := by simp [(beginCall_eq h').2, Call.entry]
    have hTold : n i + t.queue.count .routesChanged + 1 = c := by simpa [owed] using hF.told
    have hI : ThreadFacts (.routing i true) c (n i) i t' :=
      ⟨hF.reachable.step (a := .call .routesChanged) h', by simp [MainExpected, hSup],
        hF.queue.of_eq hq hr, fun _ => hT ▸ hF.untouched rfl,
        by simp [owed, hSup, hq, SupervisorPc.pendingAppend]; omega⟩
    refine hInv.set ht hI (fun j s hji hF => ?_) (fun _ => lt_of_getElem? ht)
    have hO : ∀ b, owed (.routing i b) j s = if i < j then 1 else 0 := by simp [owed, hji]
    exact ⟨hF.reachable, by simpa [MainExpected, hji] using hF.expected, hF.queue, hF.untouched,
      by simpa [hO] using hF.told⟩
  | @routesDone threads i c n ht =>
    refine ⟨fun j t hj => ?_, trivial⟩
    have hF := hInv.facts j t hj
    have hji : j < i := by
      have h1 : j < threads.length := lt_of_getElem? hj
      have h2 := List.getElem?_eq_none_iff.1 ht
      omega
    have hO : owed (.routing i false) j t = 0 := by simp [owed, hji.ne, Nat.not_lt.2 hji.le]
    exact ⟨hF.reachable, by simpa [MainExpected, hji.ne] using hF.expected, hF.queue,
      hF.untouched, by simpa [hO] using hF.told⟩
  | @routed threads i c n t ht hIdle =>
    refine ⟨fun j s hj => ?_, nofun⟩
    have hF := hInv.facts j s hj
    have hIdle' : s.sup = .idle := by
      by_cases hji : j = i
      · subst hji
        rw [ht] at hj
        cases hj
        exact hIdle
      · simpa [MainExpected, hji] using hF.expected
    have hO : owed (.routing (i + 1) false) j s = owed (.routing i true) j s := by
      simp only [owed, hIdle', SupervisorPc.pendingAppend, Bool.true_eq_false, and_false, and_true,
        or_false]
      split_ifs <;> omega
    exact ⟨hF.reachable, by simp [MainExpected, hIdle'], hF.queue, hF.untouched, by simpa [hO] using hF.told⟩
  | @routeStep threads i c n t t' ht hBusy h' =>
    exact hInv.set ht ((hInv.facts i t ht).of_routeStep hBusy h') (fun _ _ _ hF => hF) hInv.begun
  | @quitting threads pc c n q h' =>
    have hQ := quitStep_inv hInv.quitInv h'
    refine ⟨fun j t' hj => ?_, hQ.begun⟩
    obtain ⟨t, ht, hr, hq⟩ := quitStep_queue hInv.quitInv h' hj
    have hF := hInv.facts j t ht
    have hTold : n j + t.queue.count .routesChanged = c := by simpa [owed] using hF.told
    refine ⟨hQ.reachable j t' hj, hQ.expected j t' hj, ?_, nofun, ?_⟩
    · rcases hq with hq | hq
      exacts [hF.queue.of_eq hq hr, hF.queue.post_stop hq hr]
    · rcases hq with hq | hq <;> simpa [hq, owed] using hTold
  | @worker threads pc i c n t t' ht h' =>
    refine hInv.set ht ?_ (fun j s hji hF => by simpa [Function.update_noteq hji] using hF)
      (by simpa using hInv.begun)
    simpa using (hInv.facts i t ht).of_workerStep h'

theorem mainAction_inv {a : MainAction} (hInv : MainInv m) (h : mainAction m a = some m') :
    MainInv m' :=
  mainMove_inv hInv (mainAction_move h)

theorem runMain_inv {as : List MainAction} (hInv : MainInv m) (h : runMain m as = some m') :
    MainInv m' := by
  induction as generalizing m with
  | nil => cases h; exact hInv
  | cons a as ih =>
    simp only [runMain, Option.bind_eq_some] at h
    obtain ⟨m₁, h₁, h⟩ := h
    exact ih (mainAction_inv hInv h₁) h

theorem start_mainInv {threads : List State}
    (hThreads : ∀ t ∈ threads, Reachable true t ∧ RunLoop.StartedIdle t) :
    MainInv (Main.start threads) where
  facts j t hj := by
    obtain ⟨hR, hS⟩ := hThreads t (List.getElem?_mem hj)
    obtain ⟨hq, hStop, hT⟩ := fresh_thread hR hS
    exact ⟨hR, hS.1, ⟨0, 0, hq, nofun, fun _ => ⟨rfl, hStop⟩⟩, fun _ => hT,
      by simp [hq, owed, Main.start]⟩
  begun := trivial

theorem mainAction_changes {a : MainAction} (h : mainAction m a = some m') :
    m'.changes = m.changes + if a = .changed then 1 else 0 := by
  cases a with
  | changed | quit =>
    simp only [mainAction] at h
    split at h
    · cases h; rfl
    · cases h
  | supervisor => cases mainStep_move h <;> first | rfl | simp [mainAction, mainStep] at h
  | worker i =>
    simp only [mainAction, mainWorkerStep, Option.bind_eq_bind, Option.bind_eq_some,
      Option.some.injEq] at h
    obtain ⟨t, -, t', -, rfl⟩ := h
    rfl

theorem runMain_changes {as : List MainAction} (h : runMain m as = some m') :
    m'.changes = m.changes + as.count .changed := by
  induction as generalizing m with
  | nil => cases h; rfl
  | cons a as ih =>
    simp only [runMain, Option.bind_eq_some] at h
    obtain ⟨m₁, h₁, h⟩ := h
    rw [ih h, mainAction_changes h₁, List.count_cons]
    simp only [beq_iff_eq]
    omega

/-! ## Every handler returns

Each step of a thread or of a handler lowers `mainRemaining`; only the event loop's signals
raise it, and it dispatches them only between handlers. -/

def MainPc.rank (n : Nat) : MainPc → Nat
  | .waiting => 0
  | .routing i false => 17 * (n - i) + 1
  | .routing i true => 17 * (n - i - 1) + 2
  | .quitting pc => pc.rank n

def mainRemaining (m : Main) : Nat :=
  (m.threads.map remaining).sum + m.pc.rank m.threads.length

theorem mainMove_remaining (h : MainMove m m') (hW : m.pc = .waiting → m'.pc = .waiting) :
    mainRemaining m' < mainRemaining m := by
  cases h with
  | changed | quit => cases hW rfl
  | @routeBegin threads i c n t t' ht h' =>
    -- the call costs at most 15, and the handler's rank drops by 16
    have := sum_remaining_set t' ht
    have := remaining_beginCall h'
    have := lt_of_getElem? ht
    simp only [mainRemaining, MainPc.rank, List.length_set]
    omega
  | @routesDone threads i c n ht =>
    have := List.getElem?_eq_none_iff.1 ht
    simp only [mainRemaining, MainPc.rank]
    omega
  | routed => simp only [mainRemaining, MainPc.rank]; omega
  | @routeStep threads i c n t t' ht hBusy h' =>
    have := sum_remaining_set t' ht
    have := supervisorStep_remaining h'
    simp only [mainRemaining, MainPc.rank, List.length_set]
    omega
  | @quitting threads pc c n q h' =>
    have := quitStep_remaining h'
    have := quitAction_length (a := .supervisor) h'
    simp only [quitRemaining] at *
    simp only [mainRemaining, MainPc.rank]
    omega
  | @worker threads pc i c n t t' ht h' =>
    have := sum_remaining_set t' ht
    have := workerStep_remaining h'
    simp only [mainRemaining, List.length_set]
    omega

theorem mainAction_remaining {a : MainAction} (ha : a.isSignal = false)
    (h : mainAction m a = some m') : mainRemaining m' < mainRemaining m := by
  refine mainMove_remaining (mainAction_move h) fun hW => ?_
  cases a with
  | changed | quit => cases ha
  | supervisor => simp [mainAction, mainStep, hW] at h
  | worker i =>
    simp only [mainAction, mainWorkerStep, Option.bind_eq_bind, Option.bind_eq_some,
      Option.some.injEq] at h
    obtain ⟨t, -, t', -, rfl⟩ := h
    exact hW

theorem runMain_length {as : List MainAction} (hAs : ∀ a ∈ as, a.isSignal = false)
    (h : runMain m as = some m') : as.length + mainRemaining m' ≤ mainRemaining m := by
  induction as generalizing m with
  | nil => cases h; simp
  | cons a as ih =>
    simp only [runMain, Option.bind_eq_some] at h
    obtain ⟨m₁, h₁, h⟩ := h
    have := ih (fun b hb => hAs b (List.mem_cons_of_mem a hb)) h
    have := mainAction_remaining (hAs a (List.mem_cons_self a as)) h₁
    simp only [List.length_cons]
    omega

/-- A thread crashes only inside the quit handler: the `changed` handler calls
`routesChanged()` on live `EngineWorker`s only. -/
theorem MainInv.quitting_of_crashed {t : State} (hInv : MainInv m) (ht : t ∈ m.threads)
    (hC : t.sup = .crashed) : ∃ pc, m.pc = .quitting pc := by
  obtain ⟨j, hj⟩ := List.mem_iff_getElem?.1 ht
  have hE := (hInv.facts j t hj).expected
  cases hPc : m.pc with
  | quitting pc => exact ⟨pc, rfl⟩
  | waiting => simp [hPc, MainExpected, hC] at hE
  | routing i b =>
    rw [hPc] at hE
    simp only [MainExpected] at hE
    split_ifs at hE <;> simp [hC] at hE

theorem main_step_enabled (hInv : MainInv m) (hW : m.pc ≠ .waiting)
    (hE : ∀ c, m.pc ≠ .quitting (.exited c)) :
    (∃ t ∈ m.threads, t.sup = .crashed) ∨ ∃ a m', a.isSignal = false ∧ mainAction m a = some m' := by
  obtain ⟨threads, pc, c, n⟩ := m
  cases pc with
  | waiting => exact absurd rfl hW
  | routing i begun =>
    refine .inr ?_
    cases begun with
    | false =>
      cases ht : threads[i]? with
      | none => exact ⟨.supervisor, ⟨threads, .waiting, c, n⟩, rfl, by simp [mainAction, mainStep, ht]⟩
      | some t =>
        have hIdle : t.sup = .idle := by simpa [MainExpected] using (hInv.facts i t ht).expected
        obtain ⟨t', ht'⟩ := beginCall_of_idle .routesChanged hIdle
        exact ⟨.supervisor, ⟨threads.set i t', .routing i true, c, n⟩, rfl,
          by simp [mainAction, mainStep, ht, ht']⟩
    | true =>
      obtain ⟨t, ht⟩ : ∃ t, threads[i]? = some t :=
        ⟨_, List.getElem?_eq_getElem (hInv.begun rfl)⟩
      have hF := hInv.facts i t ht
      by_cases hIdle : t.sup = .idle
      · exact ⟨.supervisor, ⟨threads, .routing (i + 1) false, c, n⟩, rfl,
          by simp [mainAction, mainStep, ht, hIdle]⟩
      · obtain ⟨p, hp⟩ : ∃ p, t.sup = .post .routesChanged p false := by
          simpa [MainExpected, hIdle] using hF.expected
        rcases thread_step_enabled hF.reachable hIdle (by simp [hp]) (by simp [hp]) with
          ⟨t', ht'⟩ | ⟨t', ht'⟩
        · exact ⟨.supervisor, ⟨threads.set i t', .routing i true, c, n⟩, rfl,
            by simp [mainAction, mainStep, ht, hIdle, ht']⟩
        · exact ⟨.worker i, ⟨threads.set i t', .routing i true, c,
            Function.update n i (n i + if notifiesEngine t then 1 else 0)⟩, rfl,
            by simp [mainAction, mainWorkerStep, ht, ht']⟩
  | quitting pc =>
    rcases quit_step_enabled hInv.quitInv fun c' hc => hE c' (congrArg _ hc) with hC | ⟨a, q', hq⟩
    · exact .inl hC
    refine .inr ?_
    cases a with
    | supervisor =>
      exact ⟨.supervisor, ⟨q'.threads, .quitting q'.pc, c, n⟩, rfl,
        by simp [mainAction, mainStep, show quitStep ⟨threads, pc⟩ = some q' from hq]⟩
    | worker i =>
      simp only [quitAction, quitWorkerStep, Option.bind_eq_bind, Option.bind_eq_some] at hq
      obtain ⟨t, ht, t', ht', -⟩ := hq
      exact ⟨.worker i, ⟨threads.set i t', .quitting pc, c,
        Function.update n i (n i + if notifiesEngine t then 1 else 0)⟩, rfl,
        by simp [mainAction, mainWorkerStep, ht, ht']⟩

/-- Where the main loop is from the invariant on: in the event loop, past the quit handler's exit,
stuck in the quit handler on a crashed thread, or able to take a step that is not a signal. -/
theorem MainInv.progress (hInv : MainInv m) :
    m.pc = .waiting ∨ (∃ c, m.pc = .quitting (.exited c)) ∨
      ((∃ pc, m.pc = .quitting pc) ∧ ∃ t ∈ m.threads, t.sup = .crashed) ∨
      ∃ a m', a.isSignal = false ∧ mainAction m a = some m' := by
  by_cases hW : m.pc = .waiting
  · exact .inl hW
  by_cases hE : ∃ c, m.pc = .quitting (.exited c)
  · exact .inr (.inl hE)
  rcases main_step_enabled hInv hW (fun c hc => hE ⟨c, hc⟩) with ⟨t, ht, hC⟩ | hStep
  · exact .inr (.inr (.inl ⟨hInv.quitting_of_crashed ht hC, t, ht, hC⟩))
  · exact .inr (.inr (.inr hStep))

/-! ## Every route change reaches every engine -/

theorem queue_nil_of_done {ok : Bool} {s : State} (hInv : Inv ok s) (h : s.wk = .done) :
    s.queue = [] := by
  have hW := hInv.worker
  unfold WorkerFacts Finished at hW
  rw [h] at hW
  obtain ⟨-, hq, -⟩ := hW
  exact hq

theorem MainInv.waiting_facts {j : Nat} {t : State} (hInv : MainInv m) (hW : m.pc = .waiting)
    (hj : m.threads[j]? = some t) :
    t.sup = .idle ∧ t.object = .live ∧ t.touchedAfterReset = false ∧ t.stopRuns = 0 ∧
      m.notified j + t.queue.count .routesChanged = m.changes := by
  have hF := hInv.facts j t hj
  rw [hW] at hF
  obtain ⟨r, n, hq, hr, hb⟩ := hF.queue
  obtain ⟨-, hStop⟩ := hb rfl
  exact ⟨hF.expected, live_of_started hF.reachable hF.expected.inStart hStop,
    hF.untouched rfl, hStop, hF.told⟩

theorem MainInv.exited_facts {c j : Nat} {t : State} (hInv : MainInv m)
    (hc : m.pc = .quitting (.exited c)) (hj : m.threads[j]? = some t) :
    t.sup = .deleted ∧ t.wk = .done ∧ t.stopRuns = 1 ∧ m.notified j = m.changes := by
  have hF := hInv.facts j t hj
  rw [hc] at hF
  have hD : t.sup = .deleted := hF.expected
  obtain ⟨hDone, hStop⟩ := deleted_joined hF.reachable hD
  have hTold := hF.told
  simp only [queue_nil_of_done (reachable_inv hF.reachable) hDone, List.count_nil, owed] at hTold
  exact ⟨hD, hDone, hStop.2 rfl, hTold⟩

/-- No route change is lost. Under every schedule of the main loop, from the threads a finished
startup loop leaves: `changes` counts the schedule's `DomainMap::changed` signals; whenever the
main thread is back in the event loop, every thread is idle, its `EngineWorker` live and never
touched after a reset, and each change handled has reached its engine or waits in its queue;
and when the quit handler exits, with code 0, every thread has been deleted and joined, its
`EngineWorker::stop` has run once, and its engine was told of every change exactly once. -/
theorem route_changes_reach_every_engine {threads : List State}
    (hThreads : ∀ t ∈ threads, Reachable true t ∧ RunLoop.StartedIdle t)
    (as : List MainAction) (m : Main) (h : runMain (Main.start threads) as = some m) :
    m.changes = as.count .changed ∧
    (m.pc = .waiting → ∀ j t, m.threads[j]? = some t →
      t.sup = .idle ∧ t.object = .live ∧ t.touchedAfterReset = false ∧
        m.notified j + t.queue.count .routesChanged = m.changes) ∧
    ∀ c, m.pc = .quitting (.exited c) → c = 0 ∧ ∀ j t, m.threads[j]? = some t →
      t.sup = .deleted ∧ t.wk = .done ∧ t.stopRuns = 1 ∧ m.notified j = m.changes := by
  have hInv := runMain_inv (start_mainInv hThreads) h
  refine ⟨by simpa [Main.start] using runMain_changes h, fun hW j t hj => ?_,
    fun c hc => ⟨by simpa [MainBegun, Begun, hc] using hInv.begun,
      fun j t hj => hInv.exited_facts hc hj⟩⟩
  obtain ⟨hIdle, hLive, hT, -, hTold⟩ := hInv.waiting_facts hW hj
  exact ⟨hIdle, hLive, hT, hTold⟩

def changeThenQuit : List MainAction :=
  .changed :: List.replicate 7 .supervisor ++ [.worker 0, .quit] ++ List.replicate 12 .supervisor ++
    List.replicate 5 (.worker 0) ++ List.replicate 3 .supervisor

theorem one_change_told_before_quit :
    ∃ g, RunLoop.runStartup default 1 (fun _ => true) RunLoop.Startup.init
        RunLoop.oneWorkerStartup = some g ∧
      ∃ m, runMain (Main.start (g.created.map (·.thread))) changeThenQuit = some m ∧
        m.pc = .quitting (.exited 0) ∧ m.changes = 1 ∧ m.notified 0 = m.changes :=
  ⟨_, rfl, _, rfl, rfl, rfl,
    (((route_changes_reach_every_engine (started_threads_fresh (show RunLoop.runStartup default 1
        (fun _ => true) RunLoop.Startup.init RunLoop.oneWorkerStartup = _ from rfl) rfl)
      changeThenQuit _ rfl).2.2 0 rfl).2 0 _ rfl).2.2.2⟩

/-- Every handler returns unless a thread crashes. From any state a run of the main loop
reaches, from the threads a finished startup loop leaves, the threads' and the handlers' own
steps can go on for at most `mainRemaining` steps, and they stop inside a handler only in the
quit handler on a thread that crashed: every other schedule in which the event loop dispatches
no new signal brings the main thread back to the event loop, or through the quit handler to its
exit. -/
theorem main_handlers_return {threads : List State}
    (hThreads : ∀ t ∈ threads, Reachable true t ∧ RunLoop.StartedIdle t)
    {as bs : List MainAction} {m m' : Main} (h : runMain (Main.start threads) as = some m)
    (hBs : ∀ a ∈ bs, a.isSignal = false) (h' : runMain m bs = some m') :
    bs.length ≤ mainRemaining m ∧
      (m'.pc = .waiting ∨ (∃ c, m'.pc = .quitting (.exited c)) ∨
        ((∃ pc, m'.pc = .quitting pc) ∧ ∃ t ∈ m'.threads, t.sup = .crashed) ∨
        ∃ a m'', a.isSignal = false ∧ mainAction m' a = some m'') := by
  have hInv := runMain_inv (runMain_inv (start_mainInv hThreads) h) h'
  exact ⟨by have := runMain_length hBs h'; omega, hInv.progress⟩

def routeRound : List MainAction := List.replicate 7 .supervisor

theorem route_round_returns :
    ∃ g, RunLoop.runStartup default 1 (fun _ => true) RunLoop.Startup.init
        RunLoop.oneWorkerStartup = some g ∧
      ∃ m m', runMain (Main.start (g.created.map (·.thread))) [.changed] = some m ∧
        runMain m routeRound = some m' ∧ routeRound.length ≤ mainRemaining m ∧ m'.pc = .waiting :=
  ⟨_, rfl, _, _, rfl, rfl,
    (main_handlers_return (started_threads_fresh (show RunLoop.runStartup default 1
        (fun _ => true) RunLoop.Startup.init RunLoop.oneWorkerStartup = _ from rfl) rfl)
      (show runMain _ [.changed] = _ from rfl) (by decide)
      (show runMain _ routeRound = _ from rfl)).1, rfl⟩

end Pushpin.MainLoop
