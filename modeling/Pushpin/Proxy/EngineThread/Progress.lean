import Pushpin.Proxy.EngineThread.Invariant

/-! # `start()` and `delete t` return

A rank that every step of either thread lowers (`remaining`), and, from the invariant, that in
every reachable state where the supervisor is inside a call one of the two threads can step,
unless the supervisor has crashed. Beginning a call raises the rank, but the supervisor begins
one only when idle. `delete t` crashes only when a stop was posted before it began.
-/

namespace Pushpin.EngineThread
set_option autoImplicit false

def PostPc.rank : PostPc → Nat
  | .lock => 14
  | .test => 13
  | .defer => 12
  | .unlock => 1

def SupervisorPc.rank : SupervisorPc → Nat
  | .start .lock => 19
  | .start .spawn => 18
  | .start .wait => 4
  | .start .waiting => 3
  | .start .woken => 2
  | .start .read => 1
  | .idle => 0
  | .post _ pc d => pc.rank + if d then 1 else 0
  | .joining => 1
  | .deleted | .crashed => 0

def WorkerPc.rank (exitRequested : Bool) : WorkerPc → Nat
  | .unspawned => 14
  | .locking => 13
  | .loop => if exitRequested then 2 else 0
  | .wake _ => 7
  | .unlock _ => 6
  | .resetClear .stopped => 5
  | .resetDelete .stopped => 4
  | .resetClear _ => 9
  | .resetDelete _ => 8
  | .exiting => 1
  | .done => 0

/-- An upper bound on the steps left before both threads block: a pending closure weighs more
than running it, so `defer` lowers the rank although it lengthens the queue. -/
def remaining (s : State) : Nat :=
  s.sup.rank + s.wk.rank s.exitRequested + 10 * s.queue.length

theorem SupervisorPc.rank_pos {pc : SupervisorPc} (hI : pc ≠ .idle) (hD : pc ≠ .deleted)
    (hC : pc ≠ .crashed) : 0 < pc.rank := by
  cases pc with
  | start p => cases p <;> decide
  | post k p d => cases p <;> simp only [rank, PostPc.rank] <;> omega
  | joining => decide
  | idle => exact absurd rfl hI
  | deleted => exact absurd rfl hD
  | crashed => exact absurd rfl hC

def Action.isThreadStep : Action → Bool
  | .call _ => false
  | _ => true

variable {ok : Bool} {s s' : State}

theorem supervisorStep_remaining (h : supervisorStep s = some s') : remaining s' < remaining s := by
  cases supervisorStep_move h <;>
    simp only [remaining, SupervisorPc.rank, PostPc.rank, WorkerPc.rank, List.length_append,
      List.length_singleton] <;> (try split_ifs) <;> omega

theorem runClosure_remaining {k : Closure} (hWk : s.wk = .loop) (hExit : s.exitRequested = false) :
    remaining (runClosure ok k s) < remaining s + 10 := by
  unfold runClosure
  split
  · cases k <;> (try cases ok) <;> simp [remaining, WorkerPc.rank, hWk, hExit] <;> omega
  · simp [remaining, WorkerPc.rank, hWk, hExit]

theorem workerStep_remaining (h : workerStep ok s = some s') : remaining s' < remaining s := by
  cases workerStep_move h with
  | run s k rest =>
    refine Nat.lt_of_lt_of_le (runClosure_remaining rfl rfl) ?_
    simp [remaining, WorkerPc.rank]
    omega
  | resetClear s hd | resetDelete s hd =>
    cases hd <;> simp [remaining, WorkerPc.rank] <;> omega
  | wakeWaiting s hd => simp [remaining, WorkerPc.rank, SupervisorPc.rank]
  | _ => simp [remaining, WorkerPc.rank] <;> (try split_ifs) <;> omega

theorem workerStep_frame (h : workerStep ok s = some s') :
    s'.callsBegun = s.callsBegun ∧ s'.returned = s.returned ∧
      (s'.sup = s.sup ∨ s.sup = .start .waiting ∧ s'.sup = .start .woken) := by
  cases workerStep_move h <;> simp

theorem supervisorStep_callsBegun (h : supervisorStep s = some s') :
    s'.callsBegun = s.callsBegun := by
  cases supervisorStep_move h <;> rfl

theorem step_remaining {a : Action} (h : step ok s a = some s') (ha : a.isThreadStep = true) :
    remaining s' < remaining s := by
  cases a with
  | supervisor => exact supervisorStep_remaining h
  | call c => cases ha
  | worker => exact workerStep_remaining h

theorem inStart_of_step {a : Action} (h : step ok s a = some s') (hS : s'.sup.inStart = true) :
    s.sup.inStart = true ∧ a.isThreadStep = true := by
  cases a with
  | supervisor =>
    cases supervisorStep_move h <;> simp_all [SupervisorPc.inStart, Action.isThreadStep]
  | call c =>
    obtain ⟨-, rfl⟩ := beginCall_eq h
    cases c <;> simp [Call.entry, SupervisorPc.inStart] at hS
  | worker =>
    rcases (workerStep_frame h).2.2 with hE | ⟨hW, -⟩ <;>
      simp_all [SupervisorPc.inStart, Action.isThreadStep]

theorem run_in_start {as : List Action} (h : run ok s as = some s') (hS : s'.sup.inStart = true) :
    s.sup.inStart = true ∧ remaining s' + as.length ≤ remaining s := by
  induction as generalizing s with
  | nil => cases h; exact ⟨hS, by simp⟩
  | cons a as ih =>
    obtain ⟨t, ht, hRun⟩ := Option.bind_eq_some.1 h
    obtain ⟨htS, hLe⟩ := ih hRun
    obtain ⟨hsS, ha⟩ := inStart_of_step ht htS
    have hLt := step_remaining ht ha
    exact ⟨hsS, by simp only [List.length_cons]; omega⟩

theorem workerStep_enabled_of_handshake (hW : WorkerFacts s)
    (hP : phase s = .holding ∨ phase s = .releasing) : ∃ t, workerStep ok s = some t := by
  refine Option.isSome_iff_exists.1 ?_
  unfold WorkerFacts at hW
  cases hWk : s.wk <;> simp only [hWk] at hW <;> simp [phase, hWk] at hP <;>
    simp [workerStep, hWk]
  rcases hW with ⟨-, -, hQ, hX, -⟩ | ⟨hE, -⟩ | ⟨-, -, -, ⟨hE, -⟩ | ⟨hE, -⟩⟩ <;> simp_all

theorem workerStep_enabled_of_joinPending (hInv : Inv ok s) (hJ : s.sup.joinPending = true)
    (hS : s.sup.inStart = false) (hDone : s.wk ≠ .done) : ∃ t, workerStep ok s = some t := by
  have hD := (hInv.handshake.after_start hS).1
  have hPend := hInv.join_pending hJ
  have hW := hInv.worker
  refine Option.isSome_iff_exists.1 ?_
  unfold WorkerFacts at hW
  cases hWk : s.wk <;> simp only [hWk, ne_eq, not_true_eq_false] at hW hDone <;>
    simp [phase, hWk] at hD <;> simp [workerStep, hWk]
  rcases hW with ⟨hE, -⟩ | ⟨hE, -, -, hX, hS1⟩ | ⟨-, -, hX, -⟩
  · simp [hE] at hD
  · rcases hPend with hR | hE' | ⟨hm, -⟩
    · omega
    · simp [hE] at hE'
    · obtain ⟨k, rest, hQ⟩ := List.exists_cons_of_ne_nil (List.ne_nil_of_mem hm)
      simp [hX, hQ]
  · simp [hX]

/-- In every reachable state where the supervisor is inside `start()`, `stop()`,
`routesChanged()` or `delete t` and has not crashed, one of the two threads can step. -/
theorem thread_step_enabled (h : Reachable ok s) (hIdle : s.sup ≠ .idle)
    (hDel : s.sup ≠ .deleted) (hC : s.sup ≠ .crashed) :
    (∃ t, supervisorStep s = some t) ∨ ∃ t, workerStep ok s = some t := by
  have hInv := reachable_inv h
  have hH := hInv.handshake
  have hM := hInv.supervisor_mutex
  cases hS : s.sup with
  | start pc =>
    simp only [Handshake, hS] at hH
    cases pc with
    | lock => exact .inl (Option.isSome_iff_exists.1 (by simp [supervisorStep, hS, hH.2]))
    | waiting =>
      rcases hH with ⟨hP, hN⟩ | ⟨hP, -⟩
      · have hL := phase_eq_locking.1 hP
        exact .inr (Option.isSome_iff_exists.1 (by simp [workerStep, hL, hN]))
      · exact .inr (workerStep_enabled_of_handshake hInv.worker (.inl hP))
    | woken =>
      rcases hH with ⟨hP, -⟩ | ⟨-, hN⟩
      · exact .inr (workerStep_enabled_of_handshake hInv.worker (.inr hP))
      · exact .inl (Option.isSome_iff_exists.1 (by simp [supervisorStep, hS, hN]))
    | spawn | wait | read =>
      exact .inl (Option.isSome_iff_exists.1 (by simp [supervisorStep, hS]))
  | post k pc d =>
    cases pc with
    | lock =>
      have hWk := (hH.after_start (by simp [hS, SupervisorPc.inStart])).2.2
      have hN : s.mutex = none := by
        cases hm : s.mutex with
        | none => rfl
        | some hd => cases hd <;> simp_all [SupervisorPc.holdsMutex]
      exact .inl (Option.isSome_iff_exists.1 (by simp [supervisorStep, hS, hN]))
    | test | defer | unlock =>
      exact .inl (Option.isSome_iff_exists.1 (by simp [supervisorStep, hS]; try (split <;> simp)))
  | joining =>
    by_cases hDone : s.wk = .done
    · exact .inl (Option.isSome_iff_exists.1 (by simp [supervisorStep, hS, hDone]))
    · exact .inr (workerStep_enabled_of_joinPending hInv (by simp [hS, SupervisorPc.joinPending])
        (by simp [hS, SupervisorPc.inStart]) hDone)
  | idle => exact absurd hS hIdle
  | deleted => exact absurd hS hDel
  | crashed => exact absurd hS hC

/-- `start()` returns under every schedule: a schedule still inside `start()` has fewer than
`remaining init` steps and can always be extended by a step of one of the two threads. -/
theorem start_returns {as : List Action} (h : run ok init as = some s) (hS : s.sup.inStart = true) :
    as.length < remaining init ∧
      ((∃ t, supervisorStep s = some t) ∨ ∃ t, workerStep ok s = some t) := by
  have hLe := (run_in_start h hS).2
  have hI : s.sup ≠ .idle := fun hc => by simp [hc, SupervisorPc.inStart] at hS
  have hD : s.sup ≠ .deleted := fun hc => by simp [hc, SupervisorPc.inStart] at hS
  have hC : s.sup ≠ .crashed := fun hc => by simp [hc, SupervisorPc.inStart] at hS
  have hPos := SupervisorPc.rank_pos hI hD hC
  exact ⟨by unfold remaining at hLe ⊢; omega, thread_step_enabled ⟨as, h⟩ hI hD hC⟩

def startHandshake : List Action :=
  [.supervisor, .supervisor, .supervisor, .worker, .worker, .worker, .worker, .supervisor]

theorem start_returns_after_handshake :
    ∃ s, run true init startHandshake = some s ∧ s.sup = .start .read ∧
      startHandshake.length < remaining init ∧
      ((∃ t, supervisorStep s = some t) ∨ ∃ t, workerStep true s = some t) :=
  ⟨_, rfl, rfl, start_returns (show run true init startHandshake = some _ from rfl) rfl⟩

/-! ## `delete t` -/

def SupervisorPc.destroying : SupervisorPc → Bool
  | .post _ _ d => d
  | .joining => true
  | _ => false

def SupervisorPc.halted : SupervisorPc → Bool
  | .deleted | .crashed => true
  | _ => false

theorem sup_of_halted {a : Action} (hS : s.sup.halted = true) (h : step ok s a = some s') :
    s'.sup = s.sup := by
  cases a with
  | supervisor => cases supervisorStep_move h <;> simp_all [SupervisorPc.halted]
  | call c =>
    obtain ⟨hI, -⟩ := beginCall_eq h
    simp [hI, SupervisorPc.halted] at hS
  | worker =>
    rcases (workerStep_frame h).2.2 with hE | ⟨hW, -⟩
    · exact hE
    · simp [hW, SupervisorPc.halted] at hS

theorem destroying_of_step {a : Action} (h : step ok s a = some s') (hS : s.sup.destroying = true) :
    (s'.sup.destroying = true ∨ s'.sup.halted = true) ∧ a.isThreadStep = true := by
  cases a with
  | supervisor =>
    cases supervisorStep_move h <;>
      simp_all [SupervisorPc.destroying, SupervisorPc.halted, Action.isThreadStep]
  | call c =>
    obtain ⟨hI, -⟩ := beginCall_eq h
    simp [hI, SupervisorPc.destroying] at hS
  | worker =>
    rcases (workerStep_frame h).2.2 with hE | ⟨hW, -⟩
    · simp [hE, hS, Action.isThreadStep]
    · simp [hW, SupervisorPc.destroying] at hS

theorem run_destroying {as : List Action} (h : run ok s as = some s')
    (hS : s.sup.destroying = true ∨ s.sup.halted = true) :
    (s'.sup.destroying = true ∨ s'.sup.halted = true) ∧ remaining s' + as.length ≤ remaining s := by
  induction as generalizing s with
  | nil => cases h; exact ⟨hS, by simp⟩
  | cons a as ih =>
    obtain ⟨t, ht, hRun⟩ := Option.bind_eq_some.1 h
    have hT : (t.sup.destroying = true ∨ t.sup.halted = true) ∧ a.isThreadStep = true := by
      rcases hS with hS | hS
      · exact destroying_of_step ht hS
      · refine ⟨.inr (by rw [sup_of_halted hS ht]; exact hS), ?_⟩
        cases a with
        | call c => simp [(beginCall_eq ht).1, SupervisorPc.halted] at hS
        | _ => rfl
    obtain ⟨hS', hLe⟩ := ih hRun hT.1
    have hLt := step_remaining ht hT.2
    exact ⟨hS', by simp only [List.length_cons]; omega⟩

/-- `delete t` with no stop posted or run before its own `defer`, or past that `defer`. -/
def DeleteClean (t : State) : Prop :=
  t.sup.joinPending = true ∨ t.sup.destroying = true ∧ .stop ∉ t.queue ∧ t.stopRuns = 0

theorem workerStep_no_stop (h : workerStep ok s = some s') (hQ : .stop ∉ s.queue)
    (hS : s.stopRuns = 0) : .stop ∉ s'.queue ∧ s'.stopRuns = 0 := by
  cases workerStep_move h with
  | run s k rest =>
    simp only [List.mem_cons, not_or] at hQ
    refine ⟨by simpa using hQ.2, ?_⟩
    unfold runClosure
    split <;> (try split) <;> (try split) <;> simp_all
  | _ => simp_all

/-- The defer of a `delete t` that no earlier stop raced finds `worker` live: only the
`stopped` handler resets it without `m`, and no stop has run. -/
theorem deleteClean_step (hR : Reachable ok s) (hD : DeleteClean s) {a : Action}
    (h : step ok s a = some s') : DeleteClean s' := by
  have hInv := reachable_inv hR
  cases a with
  | call c =>
    obtain ⟨hI, -⟩ := beginCall_eq h
    simp [DeleteClean, hI, SupervisorPc.joinPending, SupervisorPc.destroying] at hD
  | worker =>
    rcases (workerStep_frame h).2.2 with hE | ⟨hW, -⟩
    · unfold DeleteClean at hD ⊢
      rw [hE]
      exact hD.imp_right fun ⟨hDs, hQ, hS⟩ => ⟨hDs, workerStep_no_stop h hQ hS⟩
    · simp [DeleteClean, hW, SupervisorPc.joinPending, SupervisorPc.destroying] at hD
  | supervisor =>
    cases supervisorStep_move h with
    | touch s k d hL =>
      have hE : s.emitted = some true := hInv.defer_started rfl
      have hDs := (shutdown_of_not_live hInv.handshake.1 hInv.worker hL)
      simp [DeleteClean, SupervisorPc.joinPending, SupervisorPc.destroying] at hD
      simp_all
    | _ => simp_all [DeleteClean, SupervisorPc.joinPending, SupervisorPc.destroying]

theorem run_deleteClean {as : List Action} (hR : Reachable ok s) (hD : DeleteClean s)
    (h : run ok s as = some s') : DeleteClean s' :=
  (run_induction (P := fun t => Reachable ok t ∧ DeleteClean t)
    (fun ⟨hR, hD⟩ ht => ⟨hR.step ht, deleteClean_step hR hD ht⟩) ⟨hR, hD⟩ h).2

/-- `delete t` returns under every schedule unless the supervisor crashes on a reset worker:
once begun, a schedule has at most `remaining s` steps, and until `join()` returns the
supervisor has crashed or one of the two threads can step. It cannot crash when no stop was
posted or run before it began. -/
theorem delete_returns (h : Reachable ok s) (hS : s.sup.destroying = true) {as : List Action}
    (hRun : run ok s as = some s') (hDel : s'.sup ≠ .deleted) :
    as.length ≤ remaining s ∧
      (s'.sup = .crashed ∨ (∃ t, supervisorStep s' = some t) ∨ ∃ t, workerStep ok s' = some t) ∧
      (Closure.stop ∉ s.queue → s.stopRuns = 0 → s'.sup ≠ .crashed) := by
  obtain ⟨hS', hLe⟩ := run_destroying hRun (.inl hS)
  refine ⟨by omega, ?_, fun hQ hStop hC => ?_⟩
  · by_cases hC : s'.sup = .crashed
    · exact .inl hC
    · have hI : s'.sup ≠ .idle := fun hc => by simp [hc, SupervisorPc.destroying,
        SupervisorPc.halted] at hS'
      exact .inr (thread_step_enabled (h.run hRun) hI hDel hC)
  · have hClean := run_deleteClean h (.inr ⟨hS, hQ, hStop⟩) hRun
    simp [DeleteClean, hC, SupervisorPc.joinPending, SupervisorPc.destroying] at hClean

def startThenDestroy : List Action :=
  [.supervisor, .supervisor, .supervisor, .worker, .worker, .worker, .worker, .supervisor,
    .supervisor, .call .destroy]

def destroyToJoin : List Action :=
  [.supervisor, .supervisor, .supervisor, .supervisor, .worker, .worker, .worker, .worker, .worker]

theorem delete_returns_after_start :
    ∃ s s', run true init startThenDestroy = some s ∧ run true s destroyToJoin = some s' ∧
      s'.sup = .joining ∧ s'.wk = .done ∧ destroyToJoin.length ≤ remaining s ∧
      (s'.sup = .crashed ∨ (∃ t, supervisorStep s' = some t) ∨ ∃ t, workerStep true s' = some t) ∧
      (Closure.stop ∉ s.queue → s.stopRuns = 0 → s'.sup ≠ .crashed) :=
  ⟨_, _, rfl, rfl, rfl, rfl,
    delete_returns ⟨startThenDestroy, show run true init _ = _ from rfl⟩ rfl
      (show run true _ destroyToJoin = _ from rfl) (by decide)⟩

/-- When `delete t` has returned, the worker thread's function has returned too, and
`EngineWorker::stop` ran exactly when the engine had started. -/
theorem deleted_joined (h : Reachable ok s) (hS : s.sup = .deleted) :
    s.wk = .done ∧ (s.stopRuns = 1 ↔ ok = true) := by
  have hInv := reachable_inv h
  have hDone := reachable_deleted_done h hS
  have hW := hInv.worker
  simp only [WorkerFacts, hDone] at hW
  refine ⟨hDone, ?_⟩
  obtain ⟨-, -, -, ⟨hE, hR⟩ | ⟨hE, hR⟩⟩ := hW <;> obtain rfl := hInv.emitted_ok _ hE <;> simp [hR]

end Pushpin.EngineThread
