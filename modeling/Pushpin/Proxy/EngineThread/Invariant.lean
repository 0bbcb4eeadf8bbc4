import Pushpin.Proxy.EngineThread.Model
import Mathlib.Logic.Function.Basic

/-! # The invariant of one `EngineThread`

One invariant holds in every state any schedule reaches, whatever the supervisor calls after
`start()`. It is stated by program point: what the supervisor's point says about the
`start()` handshake (`Handshake`), and what the worker thread's point says about the
`EngineWorker`, its pending calls and what was emitted (`WorkerFacts`). The remaining fields
follow the supervisor's calls. Each step keeps it; most fields carry over unchanged, since a
step moves one thread and rewrites a few fields of the state.
-/

namespace Pushpin.EngineThread
set_option autoImplicit false

def SupervisorPc.inStart : SupervisorPc → Bool
  | .start _ => true
  | _ => false

def SupervisorPc.holdsMutex : SupervisorPc → Bool
  | .start .spawn | .start .wait | .start .read => true
  | .post _ .test _ | .post _ .defer _ | .post _ .unlock _ | .crashed => true
  | _ => false

def SupervisorPc.pendingAppend : SupervisorPc → Nat
  | .post _ .lock _ | .post _ .test _ | .post _ .defer _ => 1
  | _ => 0

def SupervisorPc.inCall : SupervisorPc → Bool
  | .post _ _ _ | .joining | .deleted | .crashed => true
  | _ => false

def SupervisorPc.atDefer : SupervisorPc → Bool
  | .post _ .defer _ => true
  | _ => false

def SupervisorPc.joinPending : SupervisorPc → Bool
  | .post _ .unlock true | .joining | .deleted => true
  | _ => false

def SupervisorPc.WellPosted : SupervisorPc → Prop
  | .post k _ d => k ≠ .start ∧ (d = true → k = .stop)
  | _ => True

/-- How far the worker thread is in the `start()` handshake. -/
inductive Phase
  | unspawned
  | locking
  | holding
  | releasing
  | decided
  deriving DecidableEq

def phase (s : State) : Phase :=
  match s.wk with
  | .unspawned => .unspawned
  | .locking => .locking
  | .loop => if s.emitted = none then .holding else .decided
  | .wake _ | .resetClear .error | .resetDelete .error => .holding
  | .unlock _ => .releasing
  | _ => .decided

def Handshake (ok : Bool) (s : State) : Prop :=
  match s.sup with
  | .start .lock => phase s = .unspawned ∧ s.mutex = none
  | .start .spawn => phase s = .unspawned
  | .start .wait => phase s = .locking
  | .start .waiting =>
    phase s = .locking ∧ s.mutex = none ∨ phase s = .holding ∧ s.mutex = some .workerThread
  | .start .woken =>
    phase s = .releasing ∧ s.mutex = some .workerThread ∨ phase s = .decided ∧ s.mutex = none
  | .start .read => phase s = .decided
  | _ => phase s = .decided ∧ s.returned = some ok ∧ s.mutex ≠ some .workerThread

def Finished (s : State) : Prop :=
  s.object = .deleted ∧ s.queue = [] ∧ s.exitRequested = true ∧
    (s.emitted = some false ∧ s.stopRuns = 0 ∨ s.emitted = some true ∧ s.stopRuns = 1)

def WorkerFacts (s : State) : Prop :=
  match s.wk with
  | .unspawned | .locking =>
    s.object = .unborn ∧ s.queue = [] ∧ s.emitted = none ∧ s.exitRequested = false ∧ s.stopRuns = 0
  | .loop =>
    s.emitted = none ∧ s.object = .live ∧ s.queue = [.start] ∧ s.exitRequested = false ∧
        s.stopRuns = 0 ∨
      s.emitted = some true ∧ s.object = .live ∧ .start ∉ s.queue ∧ s.exitRequested = false ∧
        s.stopRuns = 0 ∨
      Finished s
  | .wake .started | .unlock .started =>
    s.emitted = some true ∧ s.object = .live ∧ s.queue = [] ∧ s.exitRequested = false ∧
      s.stopRuns = 0
  | .resetClear .stopped =>
    s.emitted = some true ∧ s.object = .live ∧ .start ∉ s.queue ∧ s.exitRequested = false ∧
      s.stopRuns = 1
  | .resetDelete .stopped =>
    s.emitted = some true ∧ s.object = .dying ∧ .start ∉ s.queue ∧ s.exitRequested = false ∧
      s.stopRuns = 1
  | .resetClear .error =>
    s.emitted = some false ∧ s.object = .live ∧ s.queue = [] ∧ s.exitRequested = false ∧
      s.stopRuns = 0
  | .resetDelete .error =>
    s.emitted = some false ∧ s.object = .dying ∧ s.queue = [] ∧ s.exitRequested = false ∧
      s.stopRuns = 0
  | .wake .error | .unlock .error => Finished s ∧ s.emitted = some false
  | .exiting | .done => Finished s
  | _ => False

/-- The invariant of an `EngineThread` whose `Engine::start` returns `ok`. -/
structure Inv (ok : Bool) (s : State) : Prop where
  handshake : Handshake ok s
  worker : WorkerFacts s
  emitted_ok : ∀ b, s.emitted = some b → b = ok
  supervisor_mutex : s.mutex = some .supervisor ↔ s.sup.holdsMutex = true
  returned_none : s.sup.inStart = true → s.returned = none
  posted : s.sup.WellPosted
  calls_start : s.sup.inStart = true → s.callsBegun = 0
  calls_post : s.sup.inCall = true → 1 ≤ s.callsBegun
  /-- Before any call has appended its closure, no stop was posted or run. -/
  first_call : s.callsBegun ≤ s.sup.pendingAppend → .stop ∉ s.queue ∧ s.stopRuns = 0
  defer_started : s.sup.atDefer = true → s.emitted = some true
  touched : s.touchedAfterReset = true → 2 ≤ s.callsBegun
  join_pending : s.sup.joinPending = true →
    s.stopRuns = 1 ∨ s.emitted = some false ∨ .stop ∈ s.queue ∧ s.object = .live
  ran_on_empty : s.ranOnEmpty = false

variable {ok : Bool} {s s' : State}

section Phase

theorem phase_eq_unspawned : phase s = .unspawned ↔ s.wk = .unspawned := by
  unfold phase; split <;> (try split) <;> simp_all

theorem phase_eq_locking : phase s = .locking ↔ s.wk = .locking := by
  unfold phase; split <;> (try split) <;> simp_all

theorem Finished.shutdown (hF : Finished s) : s.stopRuns = 1 ∨ s.emitted = some false := by
  obtain ⟨-, -, -, ⟨hE, -⟩ | ⟨-, hR⟩⟩ := hF
  exacts [.inr hE, .inl hR]

theorem Finished.emitted_ne (hF : Finished s) : s.emitted ≠ none := by
  obtain ⟨-, -, -, ⟨hE, -⟩ | ⟨hE, -⟩⟩ := hF <;> simp [hE]

theorem emitted_of_decided (hD : phase s = .decided) (hW : WorkerFacts s) : s.emitted ≠ none := by
  unfold phase at hD; unfold WorkerFacts at hW
  rcases hWk : s.wk with _ | _ | _ | h | h | h | h | _ | _ <;> try cases h
  all_goals simp_all
  all_goals exact Finished.emitted_ne ‹_›

theorem emitted_of_live (hD : phase s = .decided) (hW : WorkerFacts s) (hLive : s.object = .live) :
    s.emitted = some true := by
  unfold phase at hD; unfold WorkerFacts at hW
  rcases hWk : s.wk with _ | _ | _ | h | h | h | h | _ | _ <;> try cases h
  all_goals simp_all [Finished]

theorem shutdown_of_not_live (hD : phase s = .decided) (hW : WorkerFacts s)
    (hLive : s.object ≠ .live) : s.stopRuns = 1 ∨ s.emitted = some false := by
  unfold phase at hD; unfold WorkerFacts at hW
  rcases hWk : s.wk with _ | _ | _ | h | h | h | h | _ | _ <;> try cases h
  all_goals simp_all
  all_goals exact Finished.shutdown ‹_›

theorem live_iff_of_decided (hD : phase s = .decided) (hW : WorkerFacts s)
    (hOk : ∀ b, s.emitted = some b → b = ok) (hStop : s.stopRuns = 0) :
    decide (s.object = .live) = ok := by
  by_cases hLive : s.object = .live
  · simpa [hLive] using hOk _ (emitted_of_live hD hW hLive)
  · have hE := (shutdown_of_not_live hD hW hLive).resolve_left (by omega)
    simpa [hLive] using hOk _ hE

theorem Handshake.waiting_of_locking (hH : Handshake ok s) (hP : phase s = .locking)
    (hM : s.mutex = none) (hS : s.mutex = some .supervisor ↔ s.sup.holdsMutex = true) :
    s.sup = .start .waiting := by
  unfold Handshake at hH; split at hH <;> simp_all [SupervisorPc.holdsMutex]

theorem Handshake.waiting_of_holding (hH : Handshake ok s) (hP : phase s = .holding) :
    s.sup = .start .waiting ∧ s.mutex = some .workerThread := by
  unfold Handshake at hH; split at hH <;> simp_all

theorem Handshake.woken_of_releasing (hH : Handshake ok s) (hP : phase s = .releasing) :
    s.sup = .start .woken ∧ s.mutex = some .workerThread := by
  unfold Handshake at hH; split at hH <;> simp_all

theorem Handshake.after_start (hH : Handshake ok s) (hS : s.sup.inStart = false) :
    phase s = .decided ∧ s.returned = some ok ∧ s.mutex ≠ some .workerThread := by
  unfold Handshake at hH; split at hH <;> simp_all [SupervisorPc.inStart]

end Phase

theorem workerFacts_append {k : Closure} (hD : phase s = .decided) (hW : WorkerFacts s)
    (hLive : s.object = .live) (hk : k ≠ .start) :
    WorkerFacts { s with queue := s.queue ++ [k] } := by
  have hNotStart : .start ∉ s.queue ++ [k] ↔ .start ∉ s.queue := by simp [Ne.symm hk]
  unfold phase at hD; unfold WorkerFacts at hW ⊢
  rcases hWk : s.wk with _ | _ | _ | h | h | h | h | _ | _ <;> try cases h
  all_goals simp_all [Finished]

theorem init_inv : Inv ok init where
  handshake := ⟨rfl, rfl⟩
  worker := ⟨rfl, rfl, rfl, rfl, rfl⟩
  emitted_ok := nofun
  supervisor_mutex := ⟨nofun, nofun⟩
  returned_none := fun _ => rfl
  posted := trivial
  calls_start := fun _ => rfl
  calls_post := nofun
  first_call := fun _ => ⟨List.not_mem_nil _, rfl⟩
  defer_started := nofun
  touched := nofun
  join_pending := nofun
  ran_on_empty := rfl

theorem supervisorStep_inv (hInv : Inv ok s) (h : supervisorStep s = some s') : Inv ok s' := by
  cases supervisorStep_move h with
  | lockStart s =>
    exact { hInv with
      handshake := hInv.handshake.1
      supervisor_mutex := by simp [SupervisorPc.holdsMutex] }
  | spawn s =>
    have hU : s.wk = .unspawned := phase_eq_unspawned.1 hInv.handshake
    exact { hInv with
      handshake := rfl
      worker := by simpa [WorkerFacts, hU] using hInv.worker }
  | wait s =>
    exact { hInv with
      handshake := .inl ⟨hInv.handshake, rfl⟩
      supervisor_mutex := by simp [SupervisorPc.holdsMutex] }
  | reacquire s =>
    exact { hInv with
      handshake := (hInv.handshake.resolve_left fun hc => nomatch hc.2).1
      supervisor_mutex := by simp [SupervisorPc.holdsMutex] }
  | read s =>
    have hD : phase _ = .decided := hInv.handshake
    have hStop := (hInv.first_call (Nat.le_of_eq (hInv.calls_start rfl))).2
    exact { hInv with
      handshake := ⟨hD, congrArg some (live_iff_of_decided hD hInv.worker hInv.emitted_ok hStop),
        nofun⟩
      supervisor_mutex := by simp [SupervisorPc.holdsMutex]
      returned_none := nofun
      calls_start := nofun }
  | lockPost s k d =>
    obtain ⟨hD, hR, -⟩ := hInv.handshake
    exact { hInv with
      handshake := ⟨hD, hR, nofun⟩
      supervisor_mutex := by simp [SupervisorPc.holdsMutex] }
  | testLive s k d hL =>
    have hD : phase _ = .decided := hInv.handshake.1
    exact { hInv with defer_started := fun _ => emitted_of_live hD hInv.worker hL }
  | testEmpty s k d hL =>
    have hD : phase _ = .decided := hInv.handshake.1
    exact { hInv with
      first_call := fun hc => hInv.first_call (Nat.le_succ_of_le hc)
      join_pending := fun _ => (shutdown_of_not_live hD hInv.worker hL).imp_right .inl }
  | defer s k d hL =>
    have hD : phase _ = .decided := hInv.handshake.1
    have hCalls : 1 ≤ s.callsBegun := hInv.calls_post rfl
    exact { hInv with
      worker := workerFacts_append hD hInv.worker hL hInv.posted.1
      first_call := fun hc => absurd (show s.callsBegun ≤ 0 from hc) (by omega)
      join_pending := by
        cases d
        · exact nofun
        · intro _
          obtain rfl := hInv.posted.2 rfl
          exact .inr (.inr ⟨by simp, hL⟩)
      defer_started := nofun }
  | touch s k d hL =>
    -- the worker thread reset `worker` after the test: only the stopped handler does that
    have hD : phase _ = .decided := hInv.handshake.1
    have hCalls : 1 ≤ s.callsBegun := hInv.calls_post rfl
    have hE : s.emitted = some true := hInv.defer_started rfl
    have hStop : s.stopRuns = 1 :=
      (shutdown_of_not_live hD hInv.worker hL).resolve_right (by rw [hE]; simp)
    exact { hInv with
      posted := trivial
      touched := fun _ => show 2 ≤ s.callsBegun by
        by_contra hLt
        have h0 : s.stopRuns = 0 := (hInv.first_call (show s.callsBegun ≤ 1 by omega)).2
        omega
      first_call := fun hc => absurd (show s.callsBegun ≤ 0 from hc) (by omega)
      join_pending := nofun
      defer_started := nofun }
  | unlock s k =>
    obtain ⟨hD, hR, -⟩ := hInv.handshake
    exact { hInv with
      handshake := ⟨hD, hR, nofun⟩
      supervisor_mutex := by simp [SupervisorPc.holdsMutex]
      posted := trivial
      calls_post := nofun }
  | unlockDestroy s k =>
    obtain ⟨hD, hR, -⟩ := hInv.handshake
    exact { hInv with
      handshake := ⟨hD, hR, nofun⟩
      supervisor_mutex := by simp [SupervisorPc.holdsMutex]
      posted := trivial }
  | join s => exact { hInv with }

theorem beginCall_inv {c : Call} (hInv : Inv ok s) (h : beginCall c s = some s') : Inv ok s' := by
  obtain ⟨s, rfl, rfl⟩ := beginCall_cases h
  have hFirst : s.callsBegun ≤ 0 → Closure.stop ∉ s.queue ∧ s.stopRuns = 0 := hInv.first_call
  cases c <;> exact { hInv with
    posted := by simp [SupervisorPc.WellPosted, Call.entry]
    calls_start := nofun
    calls_post := fun _ => Nat.le_add_left 1 _
    first_call := fun hc => hFirst (by simpa [Call.entry, SupervisorPc.pendingAppend] using hc)
    touched := fun hT => Nat.le_succ_of_le (hInv.touched hT) }

theorem workerStep_inv (hInv : Inv ok s) (h : workerStep ok s = some s') : Inv ok s' := by
  cases workerStep_move h with
  | lock s =>
    cases s
    obtain ⟨rfl, rfl, rfl, rfl, rfl⟩ := hInv.worker
    obtain rfl := hInv.handshake.waiting_of_locking rfl rfl hInv.supervisor_mutex
    exact { hInv with
      handshake := .inr ⟨rfl, rfl⟩
      worker := .inl ⟨rfl, rfl, rfl, rfl, rfl⟩
      supervisor_mutex := by simp [SupervisorPc.holdsMutex]
      first_call := fun _ => ⟨by simp, rfl⟩
      join_pending := nofun }
  | exit s =>
    cases s
    rcases hInv.worker with ⟨-, -, -, hX, -⟩ | ⟨-, -, -, hX, -⟩ | hF
    · cases hX
    · cases hX
    obtain ⟨b, rfl⟩ := Option.ne_none_iff_exists'.1 hF.emitted_ne
    exact { hInv with worker := hF }
  | run s k rest =>
    cases s
    rcases hInv.worker with ⟨hE, hL, hQ, -, hS⟩ | ⟨hE, hL, hNS, -, hS⟩ | ⟨-, -, hX, -⟩
    · obtain ⟨rfl, rfl⟩ := List.cons_eq_cons.1 hQ
      subst hE hL hS
      obtain ⟨rfl, rfl⟩ := hInv.handshake.waiting_of_holding rfl
      -- the start closure: a wake-up with `started`, or the reset after `error`
      cases ok <;> exact { hInv with
        handshake := .inr ⟨rfl, rfl⟩
        worker := ⟨rfl, rfl, rfl, rfl, rfl⟩
        emitted_ok := fun _ hb => (Option.some.inj hb).symm
        first_call := fun _ => ⟨List.not_mem_nil _, rfl⟩
        join_pending := nofun
        defer_started := nofun }
    · subst hE hL hS
      have hNS' : Closure.start ∉ rest := fun hm => hNS (.tail _ hm)
      cases k
      · exact absurd (List.mem_cons_self _ _) hNS
      · exact { hInv with
          worker := ⟨rfl, rfl, hNS', rfl, rfl⟩
          first_call := fun hc => absurd (List.mem_cons_self _ _) (hInv.first_call hc).1
          join_pending := fun _ => .inl rfl }
      · exact { hInv with
          worker := .inr (.inl ⟨rfl, rfl, hNS', rfl, rfl⟩)
          first_call := fun hc =>
            ⟨fun hm => (hInv.first_call hc).1 (.tail _ hm), (hInv.first_call hc).2⟩
          join_pending := fun hJ => (hInv.join_pending hJ).imp_right <| Or.imp_right
            fun ⟨hm, hl⟩ => ⟨(List.mem_cons.1 hm).resolve_left nofun, hl⟩ }
    · cases hX
  | wakeWaiting s hd =>
    cases hd with
    | stopped => exact (hInv.worker : False).elim
    | _ =>
      obtain ⟨-, hM⟩ := hInv.handshake.waiting_of_holding rfl
      cases s
      subst hM
      exact { hInv with
        handshake := .inl ⟨rfl, rfl⟩
        supervisor_mutex := by simp [SupervisorPc.holdsMutex] }
  | wake s hd hS => exact absurd (hInv.handshake.waiting_of_holding rfl).1 hS
  | unlock s hd =>
    cases s
    cases hd
    · obtain ⟨rfl, rfl⟩ := hInv.handshake.woken_of_releasing rfl
      obtain ⟨rfl, rfl, rfl, rfl, rfl⟩ := hInv.worker
      exact { hInv with
        handshake := .inr ⟨rfl, rfl⟩
        worker := .inr (.inl ⟨rfl, rfl, List.not_mem_nil _, rfl, rfl⟩)
        supervisor_mutex := by simp [SupervisorPc.holdsMutex] }
    · exact (hInv.worker : False).elim
    · obtain ⟨rfl, rfl⟩ := hInv.handshake.woken_of_releasing rfl
      obtain ⟨hF, rfl⟩ := hInv.worker
      exact { hInv with
        handshake := .inr ⟨rfl, rfl⟩
        worker := .inr (.inr hF)
        supervisor_mutex := by simp [SupervisorPc.holdsMutex] }
  | resetClear s hd =>
    cases hd
    · exact (hInv.worker : False).elim
    · obtain ⟨hE, -, hNS, hX, hS⟩ := hInv.worker
      exact { hInv with
        worker := ⟨hE, rfl, hNS, hX, hS⟩
        join_pending := fun _ => .inl hS }
    · obtain ⟨hE, -, hQ, hX, hS⟩ := hInv.worker
      exact { hInv with
        worker := ⟨hE, rfl, hQ, hX, hS⟩
        join_pending := fun _ => .inr (.inl hE) }
  | resetDelete s hd hh =>
    cases s
    cases hd
    · exact (hInv.worker : False).elim
    · obtain ⟨rfl, -, -, -, rfl⟩ := hInv.worker
      exact { hInv with
        worker := .inr (.inr ⟨rfl, rfl, rfl, .inr ⟨rfl, rfl⟩⟩)
        first_call := fun hc => absurd (hInv.first_call hc).2 Nat.one_ne_zero
        join_pending := fun _ => .inl rfl }
    · exact absurd rfl hh
  | resetDeleteError s =>
    cases s
    obtain ⟨rfl, -, -, -, rfl⟩ := hInv.worker
    exact { hInv with
      worker := ⟨⟨rfl, rfl, rfl, .inl ⟨rfl, rfl⟩⟩, rfl⟩
      first_call := fun _ => ⟨List.not_mem_nil _, rfl⟩
      join_pending := fun _ => .inr (.inl rfl) }
  | finish s => exact { hInv with }

theorem step_inv {a : Action} (hInv : Inv ok s) (h : step ok s a = some s') : Inv ok s' := by
  cases a with
  | supervisor => exact supervisorStep_inv hInv h
  | call c => exact beginCall_inv hInv h
  | worker => exact workerStep_inv hInv h

theorem run_induction {P : State → Prop} (hStep : ∀ {s s' : State} {a : Action}, P s →
      step ok s a = some s' → P s') {as : List Action} (hP : P s) (h : run ok s as = some s') :
    P s' := by
  induction as generalizing s with
  | nil => cases h; exact hP
  | cons a as ih =>
    obtain ⟨t, ht, hRun⟩ := Option.bind_eq_some.1 h
    exact ih (hStep hP ht) hRun

theorem run_append {as bs : List Action} :
    run ok s (as ++ bs) = (run ok s as).bind fun t => run ok t bs := by
  induction as generalizing s with
  | nil => rfl
  | cons a as ih => simp only [List.cons_append, run, List.append_eq, ih, Option.bind_assoc]

theorem Reachable.run {as : List Action} (h : Reachable ok s) (hRun : run ok s as = some s') :
    Reachable ok s' :=
  let ⟨bs, hs⟩ := h
  ⟨bs ++ as, by rw [run_append, hs, Option.some_bind, hRun]⟩

theorem Reachable.step {a : Action} (h : Reachable ok s) (hStep : step ok s a = some s') :
    Reachable ok s' :=
  h.run (show EngineThread.run ok s [a] = some s' by simp [EngineThread.run, hStep])

@[simp] theorem runClosure_sup {k : Closure} : (runClosure ok k s).sup = s.sup := by
  unfold runClosure; split <;> (try split) <;> (try split) <;> rfl

@[simp] theorem runClosure_callsBegun {k : Closure} :
    (runClosure ok k s).callsBegun = s.callsBegun := by
  unfold runClosure; split <;> (try split) <;> (try split) <;> rfl

@[simp] theorem runClosure_returned {k : Closure} : (runClosure ok k s).returned = s.returned := by
  unfold runClosure; split <;> (try split) <;> (try split) <;> rfl

@[simp] theorem runClosure_queue {k : Closure} : (runClosure ok k s).queue = s.queue := by
  unfold runClosure; split <;> (try split) <;> (try split) <;> rfl

@[simp] theorem runClosure_touchedAfterReset {k : Closure} :
    (runClosure ok k s).touchedAfterReset = s.touchedAfterReset := by
  unfold runClosure; split <;> (try split) <;> (try split) <;> rfl

theorem step_deleted_done {a : Action} (hD : s.sup = .deleted → s.wk = .done)
    (h : step ok s a = some s') : s'.sup = .deleted → s'.wk = .done := by
  cases a with
  | supervisor => cases supervisorStep_move h <;> simp_all
  | call c =>
    obtain ⟨-, rfl⟩ := beginCall_eq h
    cases c <;> simp [Call.entry]
  | worker => cases workerStep_move h <;> simp_all

theorem step_crashed_touched {a : Action}
    (hC : s.sup = .crashed → s.touchedAfterReset = true) (h : step ok s a = some s') :
    s'.sup = .crashed → s'.touchedAfterReset = true := by
  cases a with
  | supervisor => cases supervisorStep_move h <;> simp_all
  | call c =>
    obtain ⟨-, rfl⟩ := beginCall_eq h
    cases c <;> simp [Call.entry]
  | worker => cases workerStep_move h <;> simp_all

theorem reachable_inv (h : Reachable ok s) : Inv ok s :=
  let ⟨_, hRun⟩ := h
  run_induction step_inv init_inv hRun

/-- `delete t` returns only after the worker thread's function has: `join()` waits for it,
and a finished thread takes no step. -/
theorem reachable_deleted_done (h : Reachable ok s) (hS : s.sup = .deleted) : s.wk = .done :=
  let ⟨_, hRun⟩ := h
  run_induction (P := fun s => s.sup = .deleted → s.wk = .done) step_deleted_done
    (fun hc => absurd hc (by decide)) hRun hS

theorem reachable_crashed_touched (h : Reachable ok s) (hS : s.sup = .crashed) :
    s.touchedAfterReset = true :=
  let ⟨_, hRun⟩ := h
  run_induction (P := fun s => s.sup = .crashed → s.touchedAfterReset = true)
    step_crashed_touched (fun hc => absurd hc (by decide)) hRun hS

/-- The supervisor crashes only inside a second call: the first call's stop closure is what
resets the worker. -/
theorem crashed_needs_second_call (h : Reachable ok s) (hS : s.sup = .crashed) :
    2 ≤ s.callsBegun :=
  (reachable_inv h).touched (reachable_crashed_touched h hS)

/-- `start()` returns only once the worker thread has emitted `started` or `error`, and it
returns `true` exactly when `Engine::start` succeeded. -/
theorem start_returns_outcome (h : Reachable ok s) {r : Bool} (hR : s.returned = some r) :
    r = ok ∧ s.emitted = some ok := by
  have hInv := reachable_inv h
  cases hS : s.sup.inStart
  · obtain ⟨hD, hR', -⟩ := hInv.handshake.after_start hS
    obtain ⟨b, hE⟩ := Option.ne_none_iff_exists'.1 (emitted_of_decided hD hInv.worker)
    obtain rfl := hInv.emitted_ok b hE
    exact ⟨Option.some.inj (hR.symm.trans hR'), hE⟩
  · simp [hInv.returned_none hS] at hR

def startToWake : List Action := [.supervisor, .supervisor, .supervisor, .worker, .worker]

def startThenStop : List Action :=
  [.supervisor, .supervisor, .supervisor, .worker, .worker, .worker, .worker, .supervisor,
    .supervisor, .call .stop, .supervisor, .supervisor, .supervisor, .supervisor, .worker,
    .worker, .worker]

/-- The worker thread wakes the supervisor only while it waits on `w`: no wake-up is lost. -/
theorem wake_not_lost (h : Reachable ok s) {hd : Handler} (hWk : s.wk = .wake hd) :
    s.sup = .start .waiting :=
  ((reachable_inv h).handshake.waiting_of_holding (by simp [phase, hWk])).1

theorem wake_not_lost_at_start :
    ∃ s, run true init startToWake = some s ∧ s.wk = .wake .started ∧ s.sup = .start .waiting :=
  ⟨_, rfl, rfl, wake_not_lost ⟨startToWake, rfl⟩ rfl⟩

/-- A closure posted by `EngineThread` never runs while `worker` is empty. -/
theorem closures_run_on_live_worker (h : Reachable ok s) : s.ranOnEmpty = false :=
  (reachable_inv h).ran_on_empty

theorem closures_run_after_stop :
    ∃ s, run true init startThenStop = some s ∧ s.object = .deleted ∧ s.ranOnEmpty = false :=
  ⟨_, rfl, rfl, closures_run_on_live_worker
    ⟨startThenStop, show run true init _ = _ from rfl⟩⟩

theorem WorkerFacts.stopRuns_le (hW : WorkerFacts s) : s.stopRuns ≤ 1 := by
  unfold WorkerFacts Finished at hW
  split at hW <;> first | omega | contradiction

/-- `EngineWorker::stop` runs at most once. -/
theorem stop_runs_at_most_once (h : Reachable ok s) : s.stopRuns ≤ 1 :=
  (reachable_inv h).worker.stopRuns_le

theorem stop_runs_once_after_stop :
    ∃ s, run true init startThenStop = some s ∧ s.object = .deleted ∧ s.stopRuns ≤ 1 :=
  ⟨_, rfl, rfl, stop_runs_at_most_once
    ⟨startThenStop, show run true init _ = _ from rfl⟩⟩

/-- The quit handler on one started worker: `stop()`, then `delete t`. The destructor's
`stop()` tests `worker` under `m`; the worker thread then runs the first stop closure, whose
`stopped` handler starts `worker.reset()` without `m`; the supervisor's `defer` follows. -/
def quitSchedule : List Action :=
  [.supervisor, .supervisor, .supervisor, .worker, .worker, .worker, .worker, .supervisor,
    .supervisor, .call .stop, .supervisor, .supervisor, .supervisor, .supervisor,
    .call .destroy, .supervisor, .supervisor, .worker, .worker, .supervisor]

theorem quit_handler_touches_reset_worker :
    ∃ s, run true init quitSchedule = some s ∧ s.touchedAfterReset = true ∧ s.object = .dying ∧
      s.callsBegun = 2 :=
  ⟨_, rfl, rfl, rfl, rfl⟩

/-- The supervisor touches an `EngineWorker` whose reset has begun only after it began a
second call: the first call's stop closure is what resets the worker. -/
theorem touch_needs_second_call (h : Reachable ok s) (hT : s.touchedAfterReset = true) :
    2 ≤ s.callsBegun :=
  (reachable_inv h).touched hT

theorem touch_needs_second_call_quit :
    ∃ s, run true init quitSchedule = some s ∧ s.touchedAfterReset = true ∧ 2 ≤ s.callsBegun :=
  ⟨_, rfl, rfl, touch_needs_second_call
    ⟨quitSchedule, show run true init _ = _ from rfl⟩ rfl⟩

end Pushpin.EngineThread
