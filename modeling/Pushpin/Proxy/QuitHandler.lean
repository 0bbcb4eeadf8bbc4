import Pushpin.Proxy.RunLoop

/-! # The quit handler of `runLoop`

On `ProcessQuit::quit`, `runLoop` (src/proxy/app.cpp) calls `t->stop()` on every thread in
`threads`, in order, then `delete t` on every one, clears `threads` and exits the event loop
with code 0. The handler runs on the main thread, one step of a call at a time, while every
worker thread goes on with its own steps. The threads are those `start()` returned `true`
for: their engines started.
-/

namespace Pushpin.QuitHandler
set_option autoImplicit false

open Pushpin.EngineThread

/-- Where the quit handler is: at `threads[i]` in its first loop (`t->stop()` begun or not) or in
its second (`delete t` begun or not), or past `exit(code)`, the objects kept to read their
last states. -/
inductive QuitPc
  | stopping (i : Nat) (begun : Bool)
  | deleting (i : Nat) (begun : Bool)
  | exited (code : Nat)
  deriving DecidableEq, Repr

structure Quit where
  threads : List State
  pc : QuitPc

def Quit.start (threads : List State) : Quit := ⟨threads, .stopping 0 false⟩

def quitStep (q : Quit) : Option Quit :=
  match q.pc with
  | .stopping i false =>
    match q.threads[i]? with
    | some t => do
      let t' ← beginCall .stop t
      some ⟨q.threads.set i t', .stopping i true⟩
    | none => some { q with pc := .deleting 0 false }
  | .stopping i true => do
    let t ← q.threads[i]?
    if t.sup = .idle then some { q with pc := .stopping (i + 1) false }
    else
      let t' ← supervisorStep t
      some ⟨q.threads.set i t', .stopping i true⟩
  | .deleting i false =>
    match q.threads[i]? with
    | some t => do
      let t' ← beginCall .destroy t
      some ⟨q.threads.set i t', .deleting i true⟩
    | none => some { q with pc := .exited 0 }
  | .deleting i true => do
    let t ← q.threads[i]?
    if t.sup = .deleted then some { q with pc := .deleting (i + 1) false }
    else
      let t' ← supervisorStep t
      some ⟨q.threads.set i t', .deleting i true⟩
  | .exited _ => none

def quitWorkerStep (q : Quit) (i : Nat) : Option Quit := do
  let t ← q.threads[i]?
  let t' ← workerStep true t
  some { q with threads := q.threads.set i t' }

def quitAction (q : Quit) : RunLoop.LoopAction → Option Quit
  | .supervisor => quitStep q
  | .worker i => quitWorkerStep q i

def runQuit : Quit → List RunLoop.LoopAction → Option Quit
  | q, [] => some q
  | q, a :: as => (quitAction q a).bind fun q' => runQuit q' as

/-! ## What one step of the handler does -/

inductive QuitMove : Quit → Quit → Prop
  | stopBegin {threads : List State} {i : Nat} {t t' : State} (ht : threads[i]? = some t)
      (h : beginCall .stop t = some t') :
      QuitMove ⟨threads, .stopping i false⟩ ⟨threads.set i t', .stopping i true⟩
  | stopsDone {threads : List State} {i : Nat} (ht : threads[i]? = none) :
      QuitMove ⟨threads, .stopping i false⟩ ⟨threads, .deleting 0 false⟩
  | stopped {threads : List State} {i : Nat} {t : State} (ht : threads[i]? = some t)
      (hIdle : t.sup = .idle) :
      QuitMove ⟨threads, .stopping i true⟩ ⟨threads, .stopping (i + 1) false⟩
  | stopStep {threads : List State} {i : Nat} {t t' : State} (ht : threads[i]? = some t)
      (hBusy : ¬ t.sup = .idle) (h : supervisorStep t = some t') :
      QuitMove ⟨threads, .stopping i true⟩ ⟨threads.set i t', .stopping i true⟩
  | deleteBegin {threads : List State} {i : Nat} {t t' : State} (ht : threads[i]? = some t)
      (h : beginCall .destroy t = some t') :
      QuitMove ⟨threads, .deleting i false⟩ ⟨threads.set i t', .deleting i true⟩
  | deletesDone {threads : List State} {i : Nat} (ht : threads[i]? = none) :
      QuitMove ⟨threads, .deleting i false⟩ ⟨threads, .exited 0⟩
  | deleted {threads : List State} {i : Nat} {t : State} (ht : threads[i]? = some t)
      (hDel : t.sup = .deleted) :
      QuitMove ⟨threads, .deleting i true⟩ ⟨threads, .deleting (i + 1) false⟩
  | deleteStep {threads : List State} {i : Nat} {t t' : State} (ht : threads[i]? = some t)
      (hBusy : ¬ t.sup = .deleted) (h : supervisorStep t = some t') :
      QuitMove ⟨threads, .deleting i true⟩ ⟨threads.set i t', .deleting i true⟩

variable {q q' : Quit}

theorem quitStep_move (h : quitStep q = some q') : QuitMove q q' := by
  obtain ⟨threads, pc⟩ := q
  cases pc with
  | stopping i begun =>
    cases begun with
    | false =>
      dsimp only [quitStep] at h
      split at h
      next t ht =>
        simp only [Option.bind_eq_bind, Option.bind_eq_some] at h
        obtain ⟨t', h', h⟩ := h
        cases h
        exact .stopBegin ht h'
      next ht => cases h; exact .stopsDone ht
    | true =>
      simp only [quitStep, Option.bind_eq_bind, Option.bind_eq_some] at h
      obtain ⟨t, ht, h⟩ := h
      split at h
      next hIdle => cases h; exact .stopped ht hIdle
      next hBusy =>
        simp only [Option.bind_eq_bind, Option.bind_eq_some] at h
        obtain ⟨t', h', h⟩ := h
        cases h
        exact .stopStep ht hBusy h'
  | deleting i begun =>
    cases begun with
    | false =>
      dsimp only [quitStep] at h
      split at h
      next t ht =>
        simp only [Option.bind_eq_bind, Option.bind_eq_some] at h
        obtain ⟨t', h', h⟩ := h
        cases h
        exact .deleteBegin ht h'
      next ht => cases h; exact .deletesDone ht
    | true =>
      simp only [quitStep, Option.bind_eq_bind, Option.bind_eq_some] at h
      obtain ⟨t, ht, h⟩ := h
      split at h
      next hDel => cases h; exact .deleted ht hDel
      next hBusy =>
        simp only [Option.bind_eq_bind, Option.bind_eq_some] at h
        obtain ⟨t', h', h⟩ := h
        cases h
        exact .deleteStep ht hBusy h'
  | exited c => cases h

/-! ## The invariant of the handler -/

/-- What the handler's point says about thread `j`: idle before its calls begin, inside
`stop()` or back from it, being deleted, or deleted; the thread in a call may have crashed. -/
def QuitExpected (pc : QuitPc) (j : Nat) (t : State) : Prop :=
  match pc with
  | .stopping i b =>
    if j = i ∧ b = true then t.sup = .idle ∨ (∃ p, t.sup = .post .stop p false) ∨ t.sup = .crashed
    else t.sup = .idle
  | .deleting i b =>
    if j < i then t.sup = .deleted
    else if j = i ∧ b = true then t.sup.destroying = true ∨ t.sup.halted = true
    else t.sup = .idle
  | .exited _ => t.sup = .deleted

def Begun (n : Nat) : QuitPc → Prop
  | .stopping i b | .deleting i b => b = true → i < n
  | .exited c => c = 0

/-- The invariant of the quit handler: every thread's state is one its own schedules reach,
with an engine that started, and sits where the handler's point says. -/
structure QuitInv (q : Quit) : Prop where
  reachable : ∀ (j : Nat) (t : State), q.threads[j]? = some t → Reachable true t
  expected : ∀ (j : Nat) (t : State), q.threads[j]? = some t → QuitExpected q.pc j t
  begun : Begun q.threads.length q.pc

theorem getElem?_set_cases {l : List State} {i j : Nat} {t' s : State}
    (h : (l.set i t')[j]? = some s) : j = i ∧ s = t' ∨ j ≠ i ∧ l[j]? = some s := by
  rw [List.getElem?_set] at h
  split at h
  · split at h
    · cases h
      exact .inl ⟨by subst_vars; rfl, rfl⟩
    · cases h
  · exact .inr ⟨Ne.symm ‹_›, h⟩

theorem lt_of_getElem? {l : List State} {i : Nat} {t : State} (h : l[i]? = some t) :
    i < l.length :=
  (List.getElem?_eq_some_iff.1 h).1

theorem QuitInv.update {threads : List State} {pc pc' : QuitPc} {i : Nat} {t t' : State}
    {a : Action} (hInv : QuitInv ⟨threads, pc⟩) (ht : threads[i]? = some t)
    (h : step true t a = some t') (hE : QuitExpected pc' i t')
    (hOther : ∀ (j : Nat) (s : State), j ≠ i → QuitExpected pc j s → QuitExpected pc' j s)
    (hB : Begun threads.length pc') : QuitInv ⟨threads.set i t', pc'⟩ where
  reachable j s hj := by
    rcases getElem?_set_cases hj with ⟨-, rfl⟩ | ⟨-, hj⟩
    exacts [(hInv.reachable i t ht).step h, hInv.reachable j s hj]
  expected j s hj := by
    rcases getElem?_set_cases hj with ⟨rfl, rfl⟩ | ⟨hji, hj⟩
    exacts [hE, hOther j s hji (hInv.expected j s hj)]
  begun := by simpa using hB

theorem QuitExpected.of_workerStep {pc : QuitPc} {j : Nat} {s t : State}
    (hE : QuitExpected pc j s) (h : workerStep true s = some t) : QuitExpected pc j t := by
  rcases (workerStep_frame h).2.2 with hS | ⟨hW, -⟩
  · unfold QuitExpected at hE ⊢
    rw [hS]
    exact hE
  · unfold QuitExpected at hE
    rw [hW] at hE
    split at hE <;> (try split_ifs at hE) <;> simp_all [SupervisorPc.destroying, SupervisorPc.halted]

theorem quitWorkerStep_inv {i : Nat} (hInv : QuitInv q) (h : quitWorkerStep q i = some q') :
    QuitInv q' := by
  simp only [quitWorkerStep, Option.bind_eq_bind, Option.bind_eq_some] at h
  obtain ⟨t, ht, t', h', h⟩ := h
  cases h
  exact hInv.update ht (a := .worker) h' ((hInv.expected i t ht).of_workerStep h')
    (fun _ _ _ hE => hE) hInv.begun

theorem supervisorStep_post {s t : State} {k : Closure} {p : PostPc}
    (hS : s.sup = .post k p false) (h : supervisorStep s = some t) :
    t.sup = .idle ∨ (∃ p', t.sup = .post k p' false) ∨ t.sup = .crashed := by
  cases supervisorStep_move h <;> simp_all

theorem quitStep_inv (hInv : QuitInv q) (h : quitStep q = some q') : QuitInv q' := by
  cases quitStep_move h with
  | @stopBegin threads i t t' ht h' =>
    refine hInv.update ht (a := .call .stop) h' ?_ (fun j s hji hE => ?_)
      fun _ => lt_of_getElem? ht
    · simp [QuitExpected, (beginCall_eq h').2, Call.entry]
    · simpa [QuitExpected, hji] using hE
  | @stopsDone threads i ht =>
    refine ⟨hInv.reachable, fun j s hj => ?_, nofun⟩
    simpa [QuitExpected] using hInv.expected j s hj
  | @stopped threads i t ht hIdle =>
    refine ⟨hInv.reachable, fun j s hj => ?_, nofun⟩
    have hE := hInv.expected j s hj
    by_cases hji : j = i
    · subst hji
      rw [ht] at hj
      cases hj
      simpa [QuitExpected] using hIdle
    · simpa [QuitExpected, hji] using hE
  | @stopStep threads i t t' ht hBusy h' =>
    have hE : QuitExpected (.stopping i true) i t := hInv.expected i t ht
    obtain ⟨p, hp⟩ | hC : (∃ p, t.sup = .post .stop p false) ∨ t.sup = .crashed := by
      simpa [QuitExpected, hBusy] using hE
    · refine hInv.update ht (a := .supervisor) h' ?_ (fun _ _ _ hE => hE) hInv.begun
      simpa [QuitExpected] using supervisorStep_post hp h'
    · simp [supervisorStep, hC] at h'
  | @deleteBegin threads i t t' ht h' =>
    refine hInv.update ht (a := .call .destroy) h' ?_ (fun j s hji hE => ?_)
      fun _ => lt_of_getElem? ht
    · simp [QuitExpected, (beginCall_eq h').2, Call.entry, SupervisorPc.destroying]
    · simpa [QuitExpected, hji] using hE
  | @deletesDone threads i ht =>
    refine ⟨hInv.reachable, fun j s hj => ?_, rfl⟩
    have hji : j < i := by
      have hj' : j < threads.length := lt_of_getElem? hj
      have := List.getElem?_eq_none_iff.1 ht
      omega
    simpa [QuitExpected, hji] using hInv.expected j s hj
  | @deleted threads i t ht hDel =>
    refine ⟨hInv.reachable, fun j s hj => ?_, nofun⟩
    have hE := hInv.expected j s hj
    by_cases hji : j = i
    · subst hji
      rw [ht] at hj
      cases hj
      simpa [QuitExpected] using hDel
    · unfold QuitExpected at hE ⊢
      by_cases hlt : j < i
      · simpa [hlt, Nat.lt_succ_of_lt hlt] using hE
      · simpa [hlt, hji, show ¬ j < i + 1 by omega] using hE
  | @deleteStep threads i t t' ht hBusy h' =>
    have hE : QuitExpected (.deleting i true) i t := hInv.expected i t ht
    have ht' : step true t .supervisor = some t' := h'
    refine hInv.update ht ht' ?_ (fun _ _ _ hE => hE) hInv.begun
    have hE' : t.sup.destroying = true ∨ t.sup.halted = true := by simpa [QuitExpected] using hE
    rcases hE' with hD | hH
    · simpa [QuitExpected] using (destroying_of_step ht' hD).1
    · simp [QuitExpected, sup_of_halted hH ht', hH]

theorem quitAction_inv {a : RunLoop.LoopAction} (hInv : QuitInv q)
    (h : quitAction q a = some q') : QuitInv q' := by
  cases a with
  | supervisor => exact quitStep_inv hInv h
  | worker i => exact quitWorkerStep_inv hInv h

theorem start_quitInv {threads : List State}
    (hThreads : ∀ t ∈ threads, Reachable true t ∧ t.sup = .idle) :
    QuitInv (Quit.start threads) where
  reachable j t hj := (hThreads t (List.getElem?_mem hj)).1
  expected j t hj := by
    simpa [QuitExpected, Quit.start] using (hThreads t (List.getElem?_mem hj)).2
  begun := nofun

theorem runQuit_inv {as : List RunLoop.LoopAction} (hInv : QuitInv q)
    (h : runQuit q as = some q') : QuitInv q' := by
  induction as generalizing q with
  | nil => cases h; exact hInv
  | cons a as ih =>
    simp only [runQuit, Option.bind_eq_some] at h
    obtain ⟨q₁, h₁, h⟩ := h
    exact ih (quitAction_inv hInv h₁) h

/-! ## The handler ends

Every step lowers `quitRemaining`: a thread step lowers that thread's `remaining`, and each
move of the handler lowers its rank by more than the call it begins costs. -/

/-- What the handler can still do besides its threads' steps: 17 for each call still to
begin, one for each move of its loops. -/
def QuitPc.rank (n : Nat) : QuitPc → Nat
  | .stopping i false => 17 * (n - i) + 17 * n + 2
  | .stopping i true => 17 * (n - i - 1) + 17 * n + 3
  | .deleting i false => 17 * (n - i) + 1
  | .deleting i true => 17 * (n - i - 1) + 2
  | .exited _ => 0

def quitRemaining (q : Quit) : Nat :=
  (q.threads.map remaining).sum + q.pc.rank q.threads.length

theorem remaining_beginCall {c : Call} {s t : State} (h : beginCall c s = some t) :
    remaining t ≤ remaining s + 15 := by
  obtain ⟨hI, rfl⟩ := beginCall_eq h
  cases c <;> simp [remaining, SupervisorPc.rank, PostPc.rank, Call.entry, hI] <;> omega

theorem sum_remaining_set {l : List State} {i : Nat} {t : State} (t' : State)
    (ht : l[i]? = some t) :
    ((l.set i t').map remaining).sum + remaining t = (l.map remaining).sum + remaining t' := by
  induction l generalizing i with
  | nil => cases ht
  | cons x xs ih =>
    cases i with
    | zero =>
      obtain rfl : x = t := by simpa using ht
      simp only [List.set_cons_zero, List.map_cons, List.sum_cons]
      omega
    | succ i =>
      have := ih (by simpa using ht)
      simp only [List.set_cons_succ, List.map_cons, List.sum_cons]
      omega

theorem quitStep_remaining (h : quitStep q = some q') : quitRemaining q' < quitRemaining q := by
  cases quitStep_move h with
  | @stopBegin threads i t t' ht h' | @deleteBegin threads i t t' ht h' =>
    -- the call costs at most 15, and the handler's rank drops by 16
    have := sum_remaining_set t' ht
    have := remaining_beginCall h'
    have := lt_of_getElem? ht
    simp only [quitRemaining, QuitPc.rank, List.length_set]
    omega
  | @stopStep threads i t t' ht hBusy h' | @deleteStep threads i t t' ht hBusy h' =>
    have := sum_remaining_set t' ht
    have := supervisorStep_remaining h'
    simp only [quitRemaining, QuitPc.rank, List.length_set]
    omega
  | @stopsDone threads i ht | @deletesDone threads i ht =>
    have := List.getElem?_eq_none_iff.1 ht
    simp only [quitRemaining, QuitPc.rank]
    omega
  | stopped | deleted => simp only [quitRemaining, QuitPc.rank]; omega

theorem quitAction_remaining {a : RunLoop.LoopAction} (h : quitAction q a = some q') :
    quitRemaining q' < quitRemaining q := by
  cases a with
  | supervisor => exact quitStep_remaining h
  | worker i =>
    simp only [quitAction, quitWorkerStep, Option.bind_eq_bind, Option.bind_eq_some] at h
    obtain ⟨t, ht, t', h', h⟩ := h
    cases h
    have := sum_remaining_set t' ht
    have := workerStep_remaining h'
    simp only [quitRemaining, List.length_set]
    omega

theorem quitAction_length {a : RunLoop.LoopAction} (h : quitAction q a = some q') :
    q'.threads.length = q.threads.length := by
  cases a with
  | supervisor => cases quitStep_move h <;> simp
  | worker i =>
    simp only [quitAction, quitWorkerStep, Option.bind_eq_bind, Option.bind_eq_some] at h
    obtain ⟨t, ht, t', h', h⟩ := h
    cases h
    simp

theorem runQuit_length {as : List RunLoop.LoopAction} (h : runQuit q as = some q') :
    as.length + quitRemaining q' ≤ quitRemaining q ∧ q'.threads.length = q.threads.length := by
  induction as generalizing q with
  | nil => cases h; simp
  | cons a as ih =>
    simp only [runQuit, Option.bind_eq_some] at h
    obtain ⟨q₁, h₁, h⟩ := h
    obtain ⟨hLe, hLen⟩ := ih h
    have := quitAction_remaining h₁
    refine ⟨by simp only [List.length_cons]; omega, hLen.trans (quitAction_length h₁)⟩

/-! ## The handler is never stuck -/

theorem quit_thread_enabled {i : Nat} {t : State} (hInv : QuitInv q)
    (ht : q.threads[i]? = some t) (hI : t.sup ≠ .idle) (hD : t.sup ≠ .deleted)
    (hC : t.sup ≠ .crashed) :
    (∃ t', supervisorStep t = some t') ∨ ∃ q', quitAction q (.worker i) = some q' := by
  rcases thread_step_enabled (hInv.reachable i t ht) hI hD hC with hS | ⟨t', ht'⟩
  · exact .inl hS
  · exact .inr ⟨{ q with threads := q.threads.set i t' },
      by simp [quitAction, quitWorkerStep, ht, ht']⟩

/-- Until it exits, the handler can always take a step, unless the thread it is calling has
crashed. -/
theorem quit_step_enabled (hInv : QuitInv q) (hE : ∀ c, q.pc ≠ .exited c) :
    (∃ t ∈ q.threads, t.sup = .crashed) ∨ ∃ a q', quitAction q a = some q' := by
  obtain ⟨threads, pc⟩ := q
  cases pc with
  | stopping i begun =>
    cases begun with
    | false =>
      refine .inr ?_
      cases ht : threads[i]? with
      | none => exact ⟨.supervisor, ⟨threads, .deleting 0 false⟩, by simp [quitAction, quitStep, ht]⟩
      | some t =>
        have hIdle : t.sup = .idle := by simpa [QuitExpected] using hInv.expected i t ht
        obtain ⟨t', ht'⟩ := beginCall_of_idle .stop hIdle
        exact ⟨.supervisor, ⟨threads.set i t', .stopping i true⟩,
          by simp [quitAction, quitStep, ht, ht']⟩
    | true =>
      obtain ⟨t, ht⟩ : ∃ t, threads[i]? = some t :=
        ⟨_, List.getElem?_eq_getElem (hInv.begun rfl)⟩
      by_cases hC : t.sup = .crashed
      · exact .inl ⟨t, List.getElem?_mem ht, hC⟩
      refine .inr ?_
      have hE : QuitExpected (.stopping i true) i t := hInv.expected i t ht
      by_cases hIdle : t.sup = .idle
      · exact ⟨.supervisor, ⟨threads, .stopping (i + 1) false⟩,
          by simp [quitAction, quitStep, ht, hIdle]⟩
      · obtain ⟨p, hp⟩ : ∃ p, t.sup = .post .stop p false := by
          simpa [QuitExpected, hIdle, hC] using hE
        rcases quit_thread_enabled hInv ht hIdle (by simp [hp]) hC with ⟨t', ht'⟩ | hW
        · exact ⟨.supervisor, ⟨threads.set i t', .stopping i true⟩,
            by simp [quitAction, quitStep, ht, hIdle, ht']⟩
        · exact ⟨_, hW⟩
  | deleting i begun =>
    cases begun with
    | false =>
      refine .inr ?_
      cases ht : threads[i]? with
      | none => exact ⟨.supervisor, ⟨threads, .exited 0⟩, by simp [quitAction, quitStep, ht]⟩
      | some t =>
        have hIdle : t.sup = .idle := by
          have hE : QuitExpected (.deleting i false) i t := hInv.expected i t ht
          simpa [QuitExpected] using hE
        obtain ⟨t', ht'⟩ := beginCall_of_idle .destroy hIdle
        exact ⟨.supervisor, ⟨threads.set i t', .deleting i true⟩,
          by simp [quitAction, quitStep, ht, ht']⟩
    | true =>
      obtain ⟨t, ht⟩ : ∃ t, threads[i]? = some t :=
        ⟨_, List.getElem?_eq_getElem (hInv.begun rfl)⟩
      by_cases hC : t.sup = .crashed
      · exact .inl ⟨t, List.getElem?_mem ht, hC⟩
      refine .inr ?_
      have hE : QuitExpected (.deleting i true) i t := hInv.expected i t ht
      by_cases hDel : t.sup = .deleted
      · exact ⟨.supervisor, ⟨threads, .deleting (i + 1) false⟩,
          by simp [quitAction, quitStep, ht, hDel]⟩
      · have hD : t.sup.destroying = true := by
          simpa [QuitExpected, SupervisorPc.halted, hDel, hC] using hE
        have hIdle : t.sup ≠ .idle := fun hc => by simp [hc, SupervisorPc.destroying] at hD
        rcases quit_thread_enabled hInv ht hIdle hDel hC with ⟨t', ht'⟩ | hW
        · exact ⟨.supervisor, ⟨threads.set i t', .deleting i true⟩,
            by simp [quitAction, quitStep, ht, hDel, ht']⟩
        · exact ⟨_, hW⟩
  | exited c => exact absurd rfl (hE c)

/-! ## How the quit handler ends -/

section Startup

variable {config : WorkerConfig.Configuration} {workerCount : Nat} {outcome : Nat → Bool}
  {as : List RunLoop.LoopAction} {g : RunLoop.Startup}

theorem started_threads_fresh
    (h : RunLoop.runStartup config workerCount outcome RunLoop.Startup.init as = some g)
    (hS : g.pc = .started) :
    ∀ t ∈ g.created.map (·.thread), Reachable true t ∧ RunLoop.StartedIdle t := by
  have hInv := RunLoop.StartupReachable.inv ⟨as, h⟩
  intro t ht
  obtain ⟨w, hw, rfl⟩ := List.mem_map.1 ht
  obtain ⟨j, hj⟩ := List.mem_iff_getElem?.1 hw
  have hE : RunLoop.StartedIdle w.thread := by
    have := hInv.expected j w hj
    rw [hS] at this
    exact this
  have hOk := (start_returns_outcome (hInv.reachable j w hj) hE.2.2).1
  exact ⟨hOk ▸ hInv.reachable j w hj, hE⟩

theorem started_threads_quittable
    (h : RunLoop.runStartup config workerCount outcome RunLoop.Startup.init as = some g)
    (hS : g.pc = .started) : ∀ t ∈ g.created.map (·.thread), Reachable true t ∧ t.sup = .idle :=
  fun t ht => ⟨(started_threads_fresh h hS t ht).1, (started_threads_fresh h hS t ht).2.1⟩

end Startup

/-- The quit handler ends under every schedule, on threads whose engines started and on which
no call is running: a schedule has at most `quitRemaining` steps, the handler is stuck before
it exits only on a thread that crashed on a reset worker, and it exits with code 0 once every
thread has been stopped and deleted, its worker thread joined and its `EngineWorker::stop` run
exactly once. -/
theorem quit_handler_ends {threads : List State}
    (hThreads : ∀ t ∈ threads, Reachable true t ∧ t.sup = .idle)
    (as : List RunLoop.LoopAction) (q : Quit) (h : runQuit (Quit.start threads) as = some q) :
    as.length ≤ quitRemaining (Quit.start threads) ∧
    ((∃ c, q.pc = .exited c) ∨ (∃ t ∈ q.threads, t.sup = .crashed) ∨
      ∃ a q', quitAction q a = some q') ∧
    ∀ c, q.pc = .exited c → c = 0 ∧ q.threads.length = threads.length ∧
      ∀ t ∈ q.threads, t.sup = .deleted ∧ t.wk = .done ∧ t.stopRuns = 1 := by
  have hInv := runQuit_inv (start_quitInv hThreads) h
  obtain ⟨hLe, hLen⟩ := runQuit_length h
  refine ⟨by omega, ?_, fun c hc => ?_⟩
  · by_cases hE : ∃ c, q.pc = .exited c
    · exact .inl hE
    · exact .inr (quit_step_enabled hInv fun c hc => hE ⟨c, hc⟩)
  · obtain ⟨threads', pc⟩ := q
    obtain rfl : pc = .exited c := hc
    refine ⟨hInv.begun, hLen, fun t ht => ?_⟩
    obtain ⟨j, hj⟩ := List.mem_iff_getElem?.1 ht
    have hD : t.sup = .deleted := hInv.expected j t hj
    obtain ⟨hDone, hStop⟩ := deleted_joined (hInv.reachable j t hj) hD
    exact ⟨hD, hDone, hStop.2 rfl⟩

def quitOneThread : List RunLoop.LoopAction :=
  [.supervisor, .supervisor, .supervisor, .supervisor, .supervisor, .supervisor, .supervisor,
    .supervisor, .supervisor, .supervisor, .supervisor, .supervisor, .worker 0, .worker 0,
    .worker 0, .worker 0, .worker 0, .supervisor, .supervisor, .supervisor]

theorem quit_after_one_worker_started :
    ∃ g, RunLoop.runStartup default 1 (fun _ => true) RunLoop.Startup.init
        RunLoop.oneWorkerStartup = some g ∧
      ∃ q, runQuit (Quit.start (g.created.map (·.thread))) quitOneThread = some q ∧
        q.pc = .exited 0 ∧ ∀ t ∈ q.threads, t.sup = .deleted ∧ t.wk = .done ∧ t.stopRuns = 1 :=
  ⟨_, rfl, _, rfl, rfl,
    ((quit_handler_ends (started_threads_quittable (show RunLoop.runStartup default 1
        (fun _ => true) RunLoop.Startup.init RunLoop.oneWorkerStartup = _ from rfl) rfl)
      quitOneThread _ rfl).2.2 0 rfl).2.2⟩

end Pushpin.QuitHandler
