import Mathlib.Logic.Basic

/-! # One `EngineThread`: the supervisor, the worker thread and their shared state

`EngineThread` (src/proxy/app.cpp) owns a mutex `m`, a wait condition `w` and the slot `worker`
holding the thread's `EngineWorker`. The supervisor (the main thread) calls `start()`, then any of
`stop()`, `routesChanged()` and `delete t` (`stop()` then `join()`); the worker thread runs
`EngineThread::run`. A step of the system is one step of one of the two threads, each at an
explicit program point: `StartPc` follows `start()` (lock, spawn, `w.wait`, waiting, woken,
`return (bool)worker`), `PostPc` follows `stop()` and `routesChanged()` (lock, `if(worker)`,
`defer`, unlock), `WorkerPc` follows `run` and the `started`, `stopped` and `error` handlers.

`m` and `w` follow Qt: `w.wait(&m)` releases `m` and enters the wait set in one step, a
`wakeOne()` with no waiter is lost, and there are no spurious wake-ups. The closures deferred on
the `EngineWorker`'s `DeferCall` are dropped with it (src/core/defercall.h). `worker.reset()`
first clears the slot, then deletes the object. When the supervisor's `defer` finds the
`EngineWorker` it tested under `m` already being reset, the code dereferences a cleared or freed
pointer: the model records it in `touchedAfterReset` and the supervisor stops at `crashed`.
-/

namespace Pushpin.EngineThread
set_option autoImplicit false

inductive Holder
  | supervisor
  | workerThread
  deriving DecidableEq, Repr

/-- The closures deferred on the `EngineWorker`'s `DeferCall`: `worker->start()` by `run`,
`worker->stop()` by `stop()`, `worker->routesChanged()` by `routesChanged()`. -/
inductive Closure
  | start
  | stop
  | routesChanged
  deriving DecidableEq, Repr

/-- The `EngineWorker`: not built yet, live, reset begun (slot cleared), deleted. The slot
`worker` is non-null exactly while the object is `live`. -/
inductive WorkerObject
  | unborn
  | live
  | dying
  | deleted
  deriving DecidableEq, Repr

inductive Handler
  | started
  | stopped
  | error
  deriving DecidableEq, Repr

inductive StartPc
  | lock
  | spawn
  | wait
  | waiting
  | woken
  | read
  deriving DecidableEq, Repr

inductive PostPc
  | lock
  | test
  | defer
  | unlock
  deriving DecidableEq, Repr

/-- `post k pc destroying` is `stop()` (`k = stop`) or `routesChanged()`; `destroying` marks the
`stop()` of `~EngineThread`, before `thread.join()`. -/
inductive SupervisorPc
  | start (pc : StartPc)
  | idle
  | post (k : Closure) (pc : PostPc) (destroying : Bool)
  | joining
  | deleted
  | crashed
  deriving DecidableEq, Repr

inductive WorkerPc
  | unspawned
  | locking
  | loop
  | wake (h : Handler)
  | unlock (h : Handler)
  | resetClear (h : Handler)
  | resetDelete (h : Handler)
  | exiting
  | done
  deriving DecidableEq, Repr

inductive Call
  | stop
  | routesChanged
  | destroy
  deriving DecidableEq, Repr

inductive Action
  | supervisor
  | call (c : Call)
  | worker
  deriving DecidableEq, Repr

/-- The shared state, both program points, and what has been observed so far: what was emitted
and returned, how often `EngineWorker::stop` ran, how many calls the supervisor began, and the two
things the code must never do. -/
structure State where
  sup : SupervisorPc
  wk : WorkerPc
  mutex : Option Holder
  object : WorkerObject
  queue : List Closure
  engine : Bool
  exitRequested : Bool
  emitted : Option Bool
  returned : Option Bool
  stopRuns : Nat
  callsBegun : Nat
  touchedAfterReset : Bool
  ranOnEmpty : Bool
  deriving DecidableEq, Repr

def init : State where
  sup := .start .lock
  wk := .unspawned
  mutex := none
  object := .unborn
  queue := []
  engine := false
  exitRequested := false
  emitted := none
  returned := none
  stopRuns := 0
  callsBegun := 0
  touchedAfterReset := false
  ranOnEmpty := false

def supervisorStep (s : State) : Option State :=
  match s.sup with
  | .start .lock =>
    if s.mutex = none then some { s with mutex := some .supervisor, sup := .start .spawn } else none
  | .start .spawn => some { s with wk := .locking, sup := .start .wait }
  | .start .wait => some { s with mutex := none, sup := .start .waiting }
  | .start .waiting => none
  | .start .woken =>
    if s.mutex = none then some { s with mutex := some .supervisor, sup := .start .read } else none
  | .start .read => some { s with returned := some (s.object = .live), mutex := none, sup := .idle }
  | .idle => none
  | .post k .lock d =>
    if s.mutex = none then some { s with mutex := some .supervisor, sup := .post k .test d } else none
  | .post k .test d =>
    if s.object = .live then some { s with sup := .post k .defer d }
    else some { s with sup := .post k .unlock d }
  | .post k .defer d =>
    if s.object = .live then some { s with queue := s.queue ++ [k], sup := .post k .unlock d }
    else some { s with touchedAfterReset := true, sup := .crashed }
  | .post _ .unlock d => some { s with mutex := none, sup := if d then .joining else .idle }
  | .joining => if s.wk = .done then some { s with sup := .deleted } else none
  | .deleted | .crashed => none

def Call.entry : Call → SupervisorPc
  | .stop => .post .stop .lock false
  | .routesChanged => .post .routesChanged .lock false
  | .destroy => .post .stop .lock true

def beginCall (c : Call) (s : State) : Option State :=
  if s.sup = .idle then some { s with callsBegun := s.callsBegun + 1, sup := c.entry } else none

/-- A deferred closure run by the worker thread's loop; `engineStarts` is what `Engine::start`
returns. -/
def runClosure (engineStarts : Bool) (k : Closure) (s : State) : State :=
  if s.object = .live then
    match k with
    | .start =>
      if engineStarts then { s with emitted := some true, wk := .wake .started }
      else { s with engine := false, emitted := some false, wk := .resetClear .error }
    | .stop => { s with engine := false, stopRuns := s.stopRuns + 1, wk := .resetClear .stopped }
    | .routesChanged => s
  else { s with ranOnEmpty := true }

def workerStep (engineStarts : Bool) (s : State) : Option State :=
  match s.wk with
  | .unspawned => none
  | .locking =>
    if s.mutex = none then
      some { s with
        mutex := some .workerThread, object := .live, engine := true, queue := [.start], wk := .loop }
    else none
  | .loop =>
    if s.exitRequested then some { s with wk := .exiting }
    else
      match s.queue with
      | [] => none
      | k :: rest => some (runClosure engineStarts k { s with queue := rest })
  | .wake h =>
    some { s with sup := if s.sup = .start .waiting then .start .woken else s.sup, wk := .unlock h }
  | .unlock _ => some { s with mutex := none, wk := .loop }
  | .resetClear h => some { s with object := .dying, wk := .resetDelete h }
  | .resetDelete h =>
    some { s with
      object := .deleted, queue := [], exitRequested := true,
      wk := if h = .error then .wake .error else .loop }
  | .exiting => some { s with wk := .done }
  | .done => none

def step (engineStarts : Bool) (s : State) : Action → Option State
  | .supervisor => supervisorStep s
  | .call c => beginCall c s
  | .worker => workerStep engineStarts s

def run (engineStarts : Bool) : State → List Action → Option State
  | s, [] => some s
  | s, a :: as => (step engineStarts s a).bind fun s' => run engineStarts s' as

def Reachable (engineStarts : Bool) (s : State) : Prop :=
  ∃ as, run engineStarts init as = some s

/-! ## What one step does

One constructor per branch of `supervisorStep` and of `workerStep`, the source state written at
the branch's program point; every other fact about a step is proved by cases on these. -/

inductive SupervisorMove : State → State → Prop
  | lockStart (s : State) :
      SupervisorMove { s with sup := .start .lock, mutex := none }
        { s with mutex := some .supervisor, sup := .start .spawn }
  | spawn (s : State) :
      SupervisorMove { s with sup := .start .spawn } { s with wk := .locking, sup := .start .wait }
  | wait (s : State) :
      SupervisorMove { s with sup := .start .wait } { s with mutex := none, sup := .start .waiting }
  | reacquire (s : State) :
      SupervisorMove { s with sup := .start .woken, mutex := none }
        { s with mutex := some .supervisor, sup := .start .read }
  | read (s : State) :
      SupervisorMove { s with sup := .start .read }
        { s with returned := some (s.object = .live), mutex := none, sup := .idle }
  | lockPost (s : State) (k : Closure) (d : Bool) :
      SupervisorMove { s with sup := .post k .lock d, mutex := none }
        { s with mutex := some .supervisor, sup := .post k .test d }
  | testLive (s : State) (k : Closure) (d : Bool) (hL : s.object = .live) :
      SupervisorMove { s with sup := .post k .test d } { s with sup := .post k .defer d }
  | testEmpty (s : State) (k : Closure) (d : Bool) (hL : s.object ≠ .live) :
      SupervisorMove { s with sup := .post k .test d } { s with sup := .post k .unlock d }
  | defer (s : State) (k : Closure) (d : Bool) (hL : s.object = .live) :
      SupervisorMove { s with sup := .post k .defer d }
        { s with queue := s.queue ++ [k], sup := .post k .unlock d }
  /-- The use after free: `defer` on an `EngineWorker` whose reset has begun. -/
  | touch (s : State) (k : Closure) (d : Bool) (hL : s.object ≠ .live) :
      SupervisorMove { s with sup := .post k .defer d }
        { s with touchedAfterReset := true, sup := .crashed }
  | unlock (s : State) (k : Closure) :
      SupervisorMove { s with sup := .post k .unlock false } { s with mutex := none, sup := .idle }
  | unlockDestroy (s : State) (k : Closure) :
      SupervisorMove { s with sup := .post k .unlock true } { s with mutex := none, sup := .joining }
  | join (s : State) :
      SupervisorMove { s with sup := .joining, wk := .done } { s with sup := .deleted, wk := .done }

inductive WorkerMove (ok : Bool) : State → State → Prop
  | lock (s : State) :
      WorkerMove ok { s with wk := .locking, mutex := none }
        { s with
            mutex := some .workerThread, object := .live, engine := true, queue := [.start]
            wk := .loop }
  | exit (s : State) :
      WorkerMove ok { s with wk := .loop, exitRequested := true }
        { s with wk := .exiting, exitRequested := true }
  | run (s : State) (k : Closure) (rest : List Closure) :
      WorkerMove ok { s with wk := .loop, exitRequested := false, queue := k :: rest }
        (runClosure ok k { s with wk := .loop, exitRequested := false, queue := rest })
  | wakeWaiting (s : State) (h : Handler) :
      WorkerMove ok { s with wk := .wake h, sup := .start .waiting }
        { s with sup := .start .woken, wk := .unlock h }
  | wake (s : State) (h : Handler) (hS : s.sup ≠ .start .waiting) :
      WorkerMove ok { s with wk := .wake h } { s with wk := .unlock h }
  | unlock (s : State) (h : Handler) :
      WorkerMove ok { s with wk := .unlock h } { s with mutex := none, wk := .loop }
  | resetClear (s : State) (h : Handler) :
      WorkerMove ok { s with wk := .resetClear h } { s with object := .dying, wk := .resetDelete h }
  | resetDelete (s : State) (h : Handler) (hh : h ≠ .error) :
      WorkerMove ok { s with wk := .resetDelete h }
        { s with object := .deleted, queue := [], exitRequested := true, wk := .loop }
  | resetDeleteError (s : State) :
      WorkerMove ok { s with wk := .resetDelete .error }
        { s with object := .deleted, queue := [], exitRequested := true, wk := .wake .error }
  | finish (s : State) : WorkerMove ok { s with wk := .exiting } { s with wk := .done }

variable {ok : Bool} {s s' : State}

theorem SupervisorMove.of_eq {s₀ t₀ : State} (h : SupervisorMove s₀ t₀) (e : s₀ = s)
    (e' : t₀ = s') : SupervisorMove s s' :=
  e ▸ e' ▸ h

theorem WorkerMove.of_eq {s₀ t₀ : State} (h : WorkerMove ok s₀ t₀) (e : s₀ = s) (e' : t₀ = s') :
    WorkerMove ok s s' :=
  e ▸ e' ▸ h

theorem supervisorStep_move (h : supervisorStep s = some s') : SupervisorMove s s' := by
  unfold supervisorStep at h
  split at h <;> (try split at h) <;> simp only [Option.some.injEq, reduceCtorEq] at h <;> subst h
  all_goals first
    | refine SupervisorMove.of_eq (.lockStart s) ?_ rfl
    | refine SupervisorMove.of_eq (.spawn s) ?_ rfl
    | refine SupervisorMove.of_eq (.wait s) ?_ rfl
    | refine SupervisorMove.of_eq (.reacquire s) ?_ rfl
    | refine SupervisorMove.of_eq (.read s) ?_ rfl
    | refine SupervisorMove.of_eq (.lockPost s _ _) ?_ rfl
    | refine SupervisorMove.of_eq (.testLive s _ _ ‹_›) ?_ rfl
    | refine SupervisorMove.of_eq (.testEmpty s _ _ ‹_›) ?_ rfl
    | refine SupervisorMove.of_eq (.defer s _ _ ‹_›) ?_ rfl
    | (rename_i k d _ _; refine SupervisorMove.of_eq (.touch s k d ‹_›) ?_ rfl)
    | (rename_i k _ _ _; refine SupervisorMove.of_eq (.unlockDestroy s k) ?_ rfl)
    | (rename_i k _ _ _; refine SupervisorMove.of_eq (.unlock s k) ?_ rfl)
    | refine SupervisorMove.of_eq (.join s) ?_ ?_
  all_goals cases s; simp_all

theorem SupervisorMove.supervisorStep (h : SupervisorMove s s') : supervisorStep s = some s' := by
  cases h <;> simp_all [EngineThread.supervisorStep]

theorem workerStep_move (h : workerStep ok s = some s') : WorkerMove ok s s' := by
  unfold workerStep at h
  split at h
  next => cases h
  next =>
    split at h
    next => cases h; exact (WorkerMove.lock s).of_eq (by cases s; simp_all) rfl
    next => cases h
  next =>
    split at h
    next => cases h; exact (WorkerMove.exit s).of_eq (by cases s; simp_all) (by cases s; simp_all)
    next =>
      split at h
      next => cases h
      next k rest _ =>
        cases h
        exact (WorkerMove.run s k rest).of_eq (by cases s; simp_all) (by cases s; simp_all)
  next hd _ =>
    split at h <;> cases h
    · exact (WorkerMove.wakeWaiting s hd).of_eq (by cases s; simp_all) rfl
    · exact (WorkerMove.wake s hd ‹_›).of_eq (by cases s; simp_all) rfl
  next hd _ => cases h; exact (WorkerMove.unlock s hd).of_eq (by cases s; simp_all) rfl
  next hd _ => cases h; exact (WorkerMove.resetClear s hd).of_eq (by cases s; simp_all) rfl
  next hd _ =>
    split at h <;> cases h
    · subst_vars; exact (WorkerMove.resetDeleteError s).of_eq (by cases s; simp_all) rfl
    · exact (WorkerMove.resetDelete s hd ‹_›).of_eq (by cases s; simp_all) rfl
  next => cases h; exact (WorkerMove.finish s).of_eq (by cases s; simp_all) rfl
  next => cases h

theorem WorkerMove.workerStep (h : WorkerMove ok s s') : workerStep ok s = some s' := by
  cases h <;> simp_all [EngineThread.workerStep]

theorem beginCall_eq {c : Call} (h : beginCall c s = some s') :
    s.sup = .idle ∧ s' = { s with callsBegun := s.callsBegun + 1, sup := c.entry } := by
  unfold beginCall at h
  split at h
  · exact ⟨‹_›, (Option.some.inj h).symm⟩
  · cases h

theorem beginCall_cases {c : Call} (h : beginCall c s = some s') :
    ∃ s₀ : State, s = { s₀ with sup := .idle } ∧
      s' = { s₀ with callsBegun := s₀.callsBegun + 1, sup := c.entry } := by
  obtain ⟨hIdle, rfl⟩ := beginCall_eq h
  exact ⟨s, by cases s; simp_all, rfl⟩

theorem beginCall_of_idle (c : Call) (h : s.sup = .idle) : ∃ t, beginCall c s = some t :=
  ⟨_, by unfold beginCall; rw [if_pos h]⟩

end Pushpin.EngineThread
