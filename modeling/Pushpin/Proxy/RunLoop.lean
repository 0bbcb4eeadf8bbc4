import Pushpin.Proxy.EngineThread.Progress
import Pushpin.Proxy.WorkerConfig

/-! # The worker startup loop of `runLoop`

`runLoop` (src/proxy/app.cpp) builds worker `n`'s configuration, constructs its
`EngineThread` and calls `start()`, for `n = 0, 1, ...` up to `workerCount`. At the first
`start()` that returns `false` it deletes that thread, then every thread in `threads`,
clears `threads` and exits the event loop with code 1. Each `EngineThread` runs its worker
thread concurrently with the supervisor, so a step of the system is one step of the
supervisor or of one worker thread, and each thread's state moves by the steps of
`Pushpin.EngineThread`.
-/

namespace Pushpin.RunLoop
set_option autoImplicit false

open Pushpin.EngineThread Pushpin.WorkerConfig

structure Spawned where
  config : Configuration
  thread : State

/-- Where the supervisor is in the startup loop: at the test `n < workerCount`, in `t->start()`,
deleting the threads still pending, after `exit(code)`, or past `log_info("started")`. -/
inductive LoopPc
  | next (n : Nat)
  | starting (n : Nat)
  | deleting (pending : List Nat)
  | exited (code : Nat)
  | started
  deriving DecidableEq

/-- The supervisor's view of the loop: every `EngineThread` constructed, worker `n` at index `n`,
and the vector `threads` by index into `created`. -/
structure Startup where
  created : List Spawned
  threads : List Nat
  pc : LoopPc

def Startup.init : Startup := ⟨[], [], .next 0⟩

inductive LoopAction
  | supervisor
  | worker (i : Nat)

def Startup.update (g : Startup) (i : Nat) (w : Spawned) : Startup :=
  { g with created := g.created.set i w }

section Steps

variable (config : Configuration) (workerCount : Int) (outcome : Nat → Bool)

/-- The supervisor's next step: the loop test `n < workerCount` on `int`s, a step of
`t->start()` and the test of its result, or a step of the deletions. -/
def supervisorLoopStep (g : Startup) : Option Startup :=
  match g.pc with
  | .next n =>
    if (n : Int) < workerCount then
      some { g with
        created := g.created ++ [⟨workerConfiguration config workerCount n, init⟩]
        pc := .starting n }
    else some { g with pc := .started }
  | .starting n => do
    let w ← g.created[n]?
    if w.thread.sup = .idle then
      if w.thread.returned = some true then
        some { g with threads := g.threads ++ [n], pc := .next (n + 1) }
      else some { g with pc := .deleting (n :: g.threads) }
    else
      let t ← supervisorStep w.thread
      some (g.update n { w with thread := t })
  | .deleting [] => some { g with threads := [], pc := .exited 1 }
  | .deleting (i :: rest) => do
    let w ← g.created[i]?
    if w.thread.sup = .idle then
      let t ← beginCall .destroy w.thread
      some (g.update i { w with thread := t })
    else if w.thread.sup = .deleted then some { g with pc := .deleting rest }
    else
      let t ← supervisorStep w.thread
      some (g.update i { w with thread := t })
  | .exited _ | .started => none

def workerLoopStep (g : Startup) (i : Nat) : Option Startup := do
  let w ← g.created[i]?
  let t ← workerStep (outcome i) w.thread
  some (g.update i { w with thread := t })

def startupStep (g : Startup) : LoopAction → Option Startup
  | .supervisor => supervisorLoopStep config workerCount g
  | .worker i => workerLoopStep outcome g i

def runStartup : Startup → List LoopAction → Option Startup
  | g, [] => some g
  | g, a :: as => (startupStep config workerCount outcome g a).bind fun g' => runStartup g' as

def StartupReachable (g : Startup) : Prop :=
  ∃ as, runStartup config workerCount outcome Startup.init as = some g

end Steps

/-! ## A worker count of zero or less

`runLoop` takes `workerCount` as an `int` that `run` does not check: the loop test fails at
once, so no `EngineThread` is built and the loop ends with `threads` empty. -/

section NoWorker

variable {config : Configuration} {workerCount : Int} {outcome : Nat → Bool} {g g' : Startup}

def NoneBuilt (g : Startup) : Prop :=
  g.created = [] ∧ g.threads = [] ∧ (g.pc = .next 0 ∨ g.pc = .started)

theorem startupStep_noneBuilt (hW : workerCount ≤ 0) (hg : NoneBuilt g) {a : LoopAction}
    (h : startupStep config workerCount outcome g a = some g') : NoneBuilt g' := by
  obtain ⟨created, threads, pc⟩ := g
  obtain ⟨rfl, rfl, hPc⟩ := hg
  cases a with
  | worker i => simp [startupStep, workerLoopStep] at h
  | supervisor =>
    obtain rfl | rfl := hPc
    · simp only [startupStep, supervisorLoopStep, Nat.cast_zero, not_lt.2 hW, if_false,
        Option.some.injEq] at h
      exact h ▸ ⟨rfl, rfl, .inr rfl⟩
    · cases h

theorem runStartup_noneBuilt (hW : workerCount ≤ 0) (hg : NoneBuilt g) {as : List LoopAction}
    (h : runStartup config workerCount outcome g as = some g') : NoneBuilt g' := by
  induction as generalizing g with
  | nil => cases h; exact hg
  | cons a as ih =>
    simp only [runStartup, Option.bind_eq_some] at h
    obtain ⟨g₁, h₁, h⟩ := h
    exact ih (startupStep_noneBuilt hW hg h₁) h

theorem runStartup_nonpositive (hW : workerCount ≤ 0) {as : List LoopAction}
    (h : runStartup config workerCount outcome Startup.init as = some g') :
    g'.created = [] ∧ g'.threads = [] :=
  let ⟨hC, hT, _⟩ := runStartup_noneBuilt hW ⟨rfl, rfl, .inl rfl⟩ h
  ⟨hC, hT⟩

end NoWorker

/-! ## What one step of the loop does

`LoopMove` lists the supervisor's moves, one constructor per branch of `supervisorLoopStep`;
every fact about a step of the loop is proved by cases on it. -/

/-- One step of the supervisor's loop. -/
inductive LoopMove (config : Configuration) (workerCount : Int) : Startup → Startup → Prop
  | build {created : List Spawned} {threads : List Nat} {n : Nat} (hLt : (n : Int) < workerCount) :
      LoopMove config workerCount ⟨created, threads, .next n⟩
        ⟨created ++ [⟨workerConfiguration config workerCount n, init⟩], threads, .starting n⟩
  | finish {created : List Spawned} {threads : List Nat} {n : Nat} (hGe : ¬ (n : Int) < workerCount) :
      LoopMove config workerCount ⟨created, threads, .next n⟩ ⟨created, threads, .started⟩
  | started {created : List Spawned} {threads : List Nat} {n : Nat} {w : Spawned}
      (hw : created[n]? = some w) (hIdle : w.thread.sup = .idle)
      (hRet : w.thread.returned = some true) :
      LoopMove config workerCount ⟨created, threads, .starting n⟩
        ⟨created, threads ++ [n], .next (n + 1)⟩
  | failed {created : List Spawned} {threads : List Nat} {n : Nat} {w : Spawned}
      (hw : created[n]? = some w) (hIdle : w.thread.sup = .idle)
      (hRet : ¬ w.thread.returned = some true) :
      LoopMove config workerCount ⟨created, threads, .starting n⟩
        ⟨created, threads, .deleting (n :: threads)⟩
  | startStep {created : List Spawned} {threads : List Nat} {n : Nat} {w : Spawned} {t : State}
      (hw : created[n]? = some w) (hBusy : ¬ w.thread.sup = .idle)
      (ht : supervisorStep w.thread = some t) :
      LoopMove config workerCount ⟨created, threads, .starting n⟩
        (Startup.update ⟨created, threads, .starting n⟩ n { w with thread := t })
  | exit {created : List Spawned} {threads : List Nat} :
      LoopMove config workerCount ⟨created, threads, .deleting []⟩ ⟨created, [], .exited 1⟩
  | destroy {created : List Spawned} {threads : List Nat} {i : Nat} {rest : List Nat}
      {w : Spawned} {t : State} (hw : created[i]? = some w) (hIdle : w.thread.sup = .idle)
      (ht : beginCall .destroy w.thread = some t) :
      LoopMove config workerCount ⟨created, threads, .deleting (i :: rest)⟩
        (Startup.update ⟨created, threads, .deleting (i :: rest)⟩ i { w with thread := t })
  | deleted {created : List Spawned} {threads : List Nat} {i : Nat} {rest : List Nat}
      {w : Spawned} (hw : created[i]? = some w) (hDel : w.thread.sup = .deleted) :
      LoopMove config workerCount ⟨created, threads, .deleting (i :: rest)⟩
        ⟨created, threads, .deleting rest⟩
  | deleteStep {created : List Spawned} {threads : List Nat} {i : Nat} {rest : List Nat}
      {w : Spawned} {t : State} (hw : created[i]? = some w) (hBusy : ¬ w.thread.sup = .idle)
      (hDel : ¬ w.thread.sup = .deleted) (ht : supervisorStep w.thread = some t) :
      LoopMove config workerCount ⟨created, threads, .deleting (i :: rest)⟩
        (Startup.update ⟨created, threads, .deleting (i :: rest)⟩ i { w with thread := t })

theorem supervisorLoopStep_move {config : Configuration} {workerCount : Int} {g g' : Startup}
    (h : supervisorLoopStep config workerCount g = some g') : LoopMove config workerCount g g' := by
  obtain ⟨created, threads, pc⟩ := g
  cases pc with
  | next n =>
    dsimp only [supervisorLoopStep] at h
    split at h
    next hLt => cases h; exact .build hLt
    next hGe => cases h; exact .finish hGe
  | starting n =>
    simp only [supervisorLoopStep, Option.bind_eq_bind, Option.bind_eq_some] at h
    obtain ⟨w, hw, h⟩ := h
    split at h
    next hIdle =>
      split at h
      next hRet => cases h; exact .started hw hIdle hRet
      next hRet => cases h; exact .failed hw hIdle hRet
    next hBusy =>
      simp only [Option.bind_eq_bind, Option.bind_eq_some] at h
      obtain ⟨t, ht, h⟩ := h
      cases h
      exact .startStep hw hBusy ht
  | deleting pending =>
    cases pending with
    | nil => cases h; exact .exit
    | cons i rest =>
      simp only [supervisorLoopStep, Option.bind_eq_bind, Option.bind_eq_some] at h
      obtain ⟨w, hw, h⟩ := h
      split at h
      next hIdle =>
        simp only [Option.bind_eq_bind, Option.bind_eq_some] at h
        obtain ⟨t, ht, h⟩ := h
        cases h
        exact .destroy hw hIdle ht
      next hBusy =>
        split at h
        next hDel => cases h; exact .deleted hw hDel
        next hDel =>
          simp only [Option.bind_eq_bind, Option.bind_eq_some] at h
          obtain ⟨t, ht, h⟩ := h
          cases h
          exact .deleteStep hw hBusy hDel ht
  | exited c => cases h
  | started => cases h

/-! ## The invariant of the loop -/

def StartedIdle (t : State) : Prop :=
  t.sup = .idle ∧ t.callsBegun = 0 ∧ t.returned = some true

/-- Where `delete t` is with thread `j`, given the threads still to delete: not reached
yet, being deleted (the first of them), or deleted. -/
def DeleteFacts (pending : List Nat) (j : Nat) (t : State) : Prop :=
  if j ∈ pending then
    t.sup = .idle ∧ t.callsBegun = 0 ∨
      pending.head? = some j ∧ t.callsBegun = 1 ∧ (t.sup.destroying = true ∨ t.sup = .deleted)
  else t.sup = .deleted ∧ t.callsBegun = 1

def Expected (pc : LoopPc) (j : Nat) (t : State) : Prop :=
  match pc with
  | .next _ | .started => StartedIdle t
  | .starting n => if j < n then StartedIdle t else t.callsBegun = 0
  | .deleting pending => DeleteFacts pending j t
  | .exited _ => t.sup = .deleted ∧ t.callsBegun = 1

def Shape (workerCount : Nat) (outcome : Nat → Bool) (g : Startup) : Prop :=
  match g.pc with
  | .next n => n ≤ workerCount ∧ g.created.length = n ∧ g.threads = List.range n
  | .starting n => n < workerCount ∧ g.created.length = n + 1 ∧ g.threads = List.range n
  | .deleting pending => ∃ n < workerCount, g.created.length = n + 1 ∧ g.threads = List.range n ∧
      pending <:+ n :: List.range n ∧ outcome n = false ∧ ∀ j < n, outcome j = true
  | .exited c => c = 1 ∧ g.threads = [] ∧ ∃ n < workerCount, g.created.length = n + 1 ∧
      outcome n = false ∧ ∀ j < n, outcome j = true
  | .started => g.created.length = workerCount ∧ g.threads = List.range workerCount

/-- The invariant of the startup loop: every thread's state is one its own schedules reach,
with worker `j`'s configuration and outcome, and sits where the loop's point says. -/
structure LoopInv (config : Configuration) (workerCount : Nat) (outcome : Nat → Bool)
    (g : Startup) : Prop where
  reachable : ∀ j w, g.created[j]? = some w → Reachable (outcome j) w.thread
  config_eq : ∀ j w, g.created[j]? = some w → w.config = workerConfiguration config workerCount j
  expected : ∀ j w, g.created[j]? = some w → Expected g.pc j w.thread
  shape : Shape workerCount outcome g

section Lists

variable {P : Nat → Spawned → Prop} {g : Startup}

theorem forall_update {i : Nat} {w' : Spawned} (hAll : ∀ j w, g.created[j]? = some w → P j w)
    (hNew : P i w') : ∀ j w, (g.update i w').created[j]? = some w → P j w := by
  intro j w hj
  simp only [Startup.update, List.getElem?_set] at hj
  split at hj
  · split at hj
    · cases hj
      subst_vars
      exact hNew
    · cases hj
  · exact hAll j w hj

theorem forall_concat {l : List Spawned} {x : Spawned} (hAll : ∀ j w, l[j]? = some w → P j w)
    (hNew : P l.length x) : ∀ j w, (l ++ [x])[j]? = some w → P j w := by
  intro j w hj
  rcases Nat.lt_or_ge j l.length with hLt | hGe
  · rw [List.getElem?_append_left hLt] at hj
    exact hAll j w hj
  · rw [List.getElem?_append_right hGe] at hj
    have hBound : j - l.length < [x].length := (List.getElem?_eq_some_iff.1 hj).1
    obtain rfl : j = l.length := by simp at hBound; omega
    obtain rfl : x = w := by simpa using hj
    exact hNew

theorem shape_update {workerCount : Nat} {outcome : Nat → Bool} {i : Nat} {w : Spawned} :
    Shape workerCount outcome (g.update i w) ↔ Shape workerCount outcome g := by
  unfold Shape Startup.update
  simp only [List.length_set]

end Lists

theorem DeleteFacts.head {i : Nat} {rest : List Nat} {t : State}
    (h : DeleteFacts (i :: rest) i t) :
    t.sup = .idle ∧ t.callsBegun = 0 ∨
      t.callsBegun = 1 ∧ (t.sup.destroying = true ∨ t.sup = .deleted) := by
  unfold DeleteFacts at h
  rw [if_pos (List.mem_cons_self i rest)] at h
  exact h.imp id (·.2)

theorem DeleteFacts.head_idle {i : Nat} {rest : List Nat} {t : State}
    (h : DeleteFacts (i :: rest) i t) (hI : t.sup = .idle) : t.callsBegun = 0 := by
  rcases h.head with ⟨-, hC⟩ | ⟨-, hD | hD⟩ <;> simp_all [SupervisorPc.destroying]

theorem DeleteFacts.head_busy {i : Nat} {rest : List Nat} {t : State}
    (h : DeleteFacts (i :: rest) i t) (hI : t.sup ≠ .idle) :
    t.callsBegun = 1 ∧ (t.sup.destroying = true ∨ t.sup = .deleted) :=
  h.head.resolve_left fun h => hI h.1

theorem Expected.of_workerStep {pc : LoopPc} {j : Nat} {ok : Bool} {s t : State}
    (hE : Expected pc j s) (h : workerStep ok s = some t) : Expected pc j t := by
  obtain ⟨hC, hR, hS | ⟨hW, hW'⟩⟩ := workerStep_frame h
  · unfold Expected DeleteFacts StartedIdle at *
    rw [hC, hR, hS]
    exact hE
  · unfold Expected DeleteFacts StartedIdle at *
    split at hE <;> (try split_ifs at hE ⊢) <;> simp_all [SupervisorPc.destroying]

variable {config : Configuration} {workerCount : Nat} {outcome : Nat → Bool} {g g' : Startup}

theorem LoopInv.update {i : Nat} {w : Spawned} {t : State} {a : Action}
    (hInv : LoopInv config workerCount outcome g) (hw : g.created[i]? = some w)
    (ht : step (outcome i) w.thread a = some t) (hE : Expected g.pc i t) :
    LoopInv config workerCount outcome (g.update i { w with thread := t }) where
  reachable := forall_update hInv.reachable ((hInv.reachable i w hw).step ht)
  config_eq := forall_update hInv.config_eq (hInv.config_eq i w hw)
  expected := forall_update hInv.expected hE
  shape := shape_update.2 hInv.shape

theorem workerLoopStep_inv {i : Nat} (hInv : LoopInv config workerCount outcome g)
    (h : workerLoopStep outcome g i = some g') : LoopInv config workerCount outcome g' := by
  simp only [workerLoopStep, Option.bind_eq_bind, Option.bind_eq_some] at h
  obtain ⟨w, hw, t, ht, h⟩ := h
  cases h
  exact hInv.update hw (a := .worker) ht ((hInv.expected i w hw).of_workerStep ht)

theorem beginCall_destroy {s t : State} (h : beginCall .destroy s = some t) :
    t.sup = .post .stop .lock true ∧ t.callsBegun = s.callsBegun + 1 := by
  obtain ⟨-, rfl⟩ := beginCall_eq h
  exact ⟨rfl, rfl⟩

section Starting

variable {created : List Spawned} {threads : List Nat} {n j : Nat} {w w' : Spawned}

theorem LoopInv.starting_before
    (hInv : LoopInv config workerCount outcome ⟨created, threads, .starting n⟩)
    (hj : created[j]? = some w') (hjn : j < n) : StartedIdle w'.thread := by
  simpa [Expected, hjn] using hInv.expected j w' hj

theorem LoopInv.starting_last
    (hInv : LoopInv config workerCount outcome ⟨created, threads, .starting n⟩)
    (hw : created[n]? = some w) (hj : created[j]? = some w') (hjn : ¬ j < n) :
    j = n ∧ w' = w ∧ w.thread.callsBegun = 0 := by
  obtain ⟨-, hLen, -⟩ : n < workerCount ∧ created.length = n + 1 ∧ threads = List.range n :=
    hInv.shape
  have : j < n + 1 := hLen ▸ (List.getElem?_eq_some_iff.1 hj).1
  obtain rfl : j = n := by omega
  rw [hw] at hj
  exact ⟨rfl, (Option.some.inj hj).symm, by simpa [Expected] using hInv.expected j w hw⟩

end Starting

theorem DeleteFacts.of_head {i : Nat} {rest : List Nat} {t : State} (hC : t.callsBegun = 1)
    (hD : t.sup.destroying = true ∨ t.sup = .deleted) : DeleteFacts (i :: rest) i t := by
  unfold DeleteFacts
  rw [if_pos (List.mem_cons_self i rest)]
  exact .inr ⟨rfl, hC, hD⟩

theorem DeleteFacts.tail {i j : Nat} {rest : List Nat} {t : State} (hi : i ∉ rest)
    (hE : DeleteFacts (i :: rest) j t) (hHead : j = i → t.sup = .deleted ∧ t.callsBegun = 1) :
    DeleteFacts rest j t := by
  unfold DeleteFacts at hE ⊢
  by_cases hji : j = i
  · subst hji
    rw [if_neg hi]
    exact hHead rfl
  · by_cases hjr : j ∈ rest
    · rw [if_pos (List.mem_cons_of_mem i hjr)] at hE
      rw [if_pos hjr]
      exact hE.imp id fun hH => absurd (Option.some.inj hH.1).symm hji
    · rw [if_neg (by simp [hji, hjr])] at hE
      rw [if_neg hjr]
      exact hE

theorem supervisorLoopStep_inv (hInv : LoopInv config workerCount outcome g)
    (h : supervisorLoopStep config workerCount g = some g') :
    LoopInv config workerCount outcome g' := by
  cases supervisorLoopStep_move h with
  | @build created threads n hLt =>
    obtain ⟨-, hLen, rfl⟩ : n ≤ workerCount ∧ created.length = n ∧ threads = List.range n :=
      hInv.shape
    refine ⟨forall_concat hInv.reachable ⟨[], rfl⟩, forall_concat hInv.config_eq (by rw [hLen]),
      forall_concat (fun j w hj => ?_) ?_, ⟨by omega, by simp [hLen], rfl⟩⟩
    · have hjn : j < n := hLen ▸ (List.getElem?_eq_some_iff.1 hj).1
      simpa [Expected, hjn] using hInv.expected j w hj
    · simp [Expected, init, hLen]
  | @finish created threads n hGe =>
    obtain ⟨hLe, hLen, rfl⟩ : n ≤ workerCount ∧ created.length = n ∧ threads = List.range n :=
      hInv.shape
    obtain rfl : n = workerCount := by omega
    exact { hInv with shape := ⟨hLen, rfl⟩ }
  | @started created threads n w hw hIdle hRet =>
    obtain ⟨hLt, hLen, rfl⟩ : n < workerCount ∧ created.length = n + 1 ∧ threads = List.range n :=
      hInv.shape
    refine { hInv with expected := fun j w' hj => ?_, shape := ⟨hLt, hLen, by rw [List.range_succ]⟩ }
    by_cases hjn : j < n
    · exact hInv.starting_before hj hjn
    · obtain ⟨rfl, rfl, hC0⟩ := hInv.starting_last hw hj hjn
      exact ⟨hIdle, hC0, hRet⟩
  | @failed created threads n w hw hIdle hRet =>
    obtain ⟨hLt, hLen, rfl⟩ : n < workerCount ∧ created.length = n + 1 ∧ threads = List.range n :=
      hInv.shape
    have hOut : outcome n = false := by
      have hR := ((reachable_inv (hInv.reachable n w hw)).handshake.after_start
        (by simp [hIdle, SupervisorPc.inStart])).2.1
      rw [hR] at hRet
      simpa using hRet
    have hPrev : ∀ j < n, outcome j = true := fun j hjn => by
      obtain ⟨w', hw'⟩ : ∃ w', created[j]? = some w' := ⟨_, List.getElem?_eq_getElem (by omega)⟩
      exact (start_returns_outcome (hInv.reachable j w' hw')
        (hInv.starting_before hw' hjn).2.2).1.symm
    refine { hInv with
      expected := fun j w' hj => ?_
      shape := ⟨n, hLt, hLen, rfl, List.suffix_refl _, hOut, hPrev⟩ }
    by_cases hjn : j < n
    · have := hInv.starting_before hj hjn
      simp [Expected, DeleteFacts, hjn, this.1, this.2.1]
    · obtain ⟨rfl, rfl, hC0⟩ := hInv.starting_last hw hj hjn
      simp [Expected, DeleteFacts, hIdle, hC0]
  | @startStep created threads n w t hw hBusy ht =>
    have hC0 := (hInv.starting_last hw hw (Nat.lt_irrefl n)).2.2
    exact hInv.update hw (a := .supervisor) ht
      (by simp [Expected, supervisorStep_callsBegun ht, hC0])
  | @exit created threads =>
    obtain ⟨n, hLt, hLen, -, -, hOut, hPrev⟩ : ∃ n < workerCount, created.length = n + 1 ∧
        threads = List.range n ∧ [] <:+ n :: List.range n ∧ outcome n = false ∧
          ∀ j < n, outcome j = true := hInv.shape
    exact { hInv with
      expected := fun j w hj => by
        simpa [DeleteFacts] using (hInv.expected j w hj : DeleteFacts [] j w.thread)
      shape := ⟨rfl, rfl, n, hLt, hLen, hOut, hPrev⟩ }
  | @destroy created threads i rest w t hw hIdle ht =>
    obtain ⟨hSup, hCalls⟩ := beginCall_destroy ht
    have hC0 := DeleteFacts.head_idle (hInv.expected i w hw) hIdle
    exact hInv.update hw (a := .call .destroy) ht
      (DeleteFacts.of_head (by rw [hCalls, hC0]) (.inl (by rw [hSup]; rfl)))
  | @deleted created threads i rest w hw hDel =>
    obtain ⟨n, hLt, hLen, hThreads, hSuf, hOut, hPrev⟩ : ∃ n < workerCount,
        created.length = n + 1 ∧ threads = List.range n ∧ i :: rest <:+ n :: List.range n ∧
          outcome n = false ∧ ∀ j < n, outcome j = true := hInv.shape
    have hi : i ∉ rest := (List.nodup_cons.1
      ((List.nodup_cons.2 ⟨List.not_mem_range_self, List.nodup_range n⟩).sublist hSuf.sublist)).1
    have hC1 := (DeleteFacts.head_busy (hInv.expected i w hw) (by simp [hDel])).1
    refine { hInv with
      expected := fun j w' hj => DeleteFacts.tail hi (hInv.expected j w' hj) fun hji => ?_
      shape := ⟨n, hLt, hLen, hThreads, (List.suffix_cons i rest).trans hSuf, hOut, hPrev⟩ }
    subst hji
    obtain rfl : w' = w := by rw [hw] at hj; exact (Option.some.inj hj).symm
    exact ⟨hDel, hC1⟩
  | @deleteStep created threads i rest w t hw hBusy hDel ht =>
    obtain ⟨hC1, hD⟩ := DeleteFacts.head_busy (hInv.expected i w hw) hBusy
    have ht' : step (outcome i) w.thread .supervisor = some t := ht
    have hC1' : t.callsBegun = 1 := by rw [supervisorStep_callsBegun ht, hC1]
    have hT : t.sup.destroying = true ∨ t.sup = .deleted := by
      rcases (destroying_of_step ht' (hD.resolve_right hDel)).1 with hT | hT
      · exact .inl hT
      · have hNC : t.sup ≠ .crashed := fun hc => by
          have := crashed_needs_second_call ((hInv.reachable i w hw).step ht') hc
          omega
        revert hT hNC
        cases t.sup <;> simp [SupervisorPc.halted]
    exact hInv.update hw ht' (DeleteFacts.of_head hC1' hT)

theorem startupStep_inv {a : LoopAction} (hInv : LoopInv config workerCount outcome g)
    (h : startupStep config workerCount outcome g a = some g') :
    LoopInv config workerCount outcome g' := by
  cases a with
  | supervisor => exact supervisorLoopStep_inv hInv h
  | worker i => exact workerLoopStep_inv hInv h

theorem init_loopInv : LoopInv config workerCount outcome Startup.init where
  reachable _ _ h := by cases h
  config_eq _ _ h := by cases h
  expected _ _ h := by cases h
  shape := ⟨Nat.zero_le _, rfl, rfl⟩

theorem runStartup_inv {as : List LoopAction} (hInv : LoopInv config workerCount outcome g)
    (h : runStartup config workerCount outcome g as = some g') :
    LoopInv config workerCount outcome g' := by
  induction as generalizing g with
  | nil => cases h; exact hInv
  | cons a as ih =>
    simp only [runStartup, Option.bind_eq_some] at h
    obtain ⟨g₁, h₁, h⟩ := h
    exact ih (startupStep_inv hInv h₁) h

theorem StartupReachable.inv (h : StartupReachable config workerCount outcome g) :
    LoopInv config workerCount outcome g :=
  let ⟨_, hRun⟩ := h
  runStartup_inv init_loopInv hRun

/-! ## The loop ends

Every step of the system lowers `loopRemaining`: a thread step lowers that thread's
`remaining`, beginning `delete t` spends the 16 a thread keeps for it, and each move of the
loop itself lowers the loop's rank by more than the budget of the thread it builds. -/

/-- What thread `t` can still do: its own steps, and beginning `delete t` once. -/
def budget (t : State) : Nat :=
  remaining t + if t.callsBegun = 0 then 16 else 0

def LoopPc.rank (workerCount : Nat) : LoopPc → Nat
  | .next n => 51 * (workerCount - n) + workerCount + 3
  | .starting n => 51 * (workerCount - n - 1) + workerCount + 4
  | .deleting pending => pending.length + 1
  | .exited _ | .started => 0

def loopRemaining (workerCount : Nat) (g : Startup) : Nat :=
  (g.created.map fun w => budget w.thread).sum + g.pc.rank workerCount

theorem budget_supervisorStep {s t : State} (h : supervisorStep s = some t) :
    budget t < budget s := by
  have := supervisorStep_remaining h
  unfold budget
  rw [supervisorStep_callsBegun h]
  omega

theorem budget_workerStep {ok : Bool} {s t : State} (h : workerStep ok s = some t) :
    budget t < budget s := by
  have := workerStep_remaining h
  unfold budget
  rw [(workerStep_frame h).1]
  omega

theorem budget_beginCall_destroy {s t : State} (h : beginCall .destroy s = some t)
    (hC : s.callsBegun = 0) : budget t < budget s := by
  obtain ⟨hI, rfl⟩ := beginCall_eq h
  simp [budget, remaining, SupervisorPc.rank, PostPc.rank, Call.entry, hC, hI]
  omega

theorem budget_sum_set_lt {l : List Spawned} {i : Nat} {w w' : Spawned} (hw : l[i]? = some w)
    (hlt : budget w'.thread < budget w.thread) :
    ((l.set i w').map fun w => budget w.thread).sum < (l.map fun w => budget w.thread).sum := by
  induction l generalizing i with
  | nil => cases hw
  | cons x xs ih =>
    cases i with
    | zero =>
      obtain rfl : x = w := by simpa using hw
      simpa using hlt
    | succ i => simpa using ih (by simpa using hw)

theorem loopRemaining_update {i : Nat} {w w' : Spawned} (hw : g.created[i]? = some w)
    (hlt : budget w'.thread < budget w.thread) :
    loopRemaining workerCount (g.update i w') < loopRemaining workerCount g := by
  have := budget_sum_set_lt hw hlt
  dsimp only [loopRemaining, Startup.update]
  omega

theorem startupStep_remaining {a : LoopAction} (hInv : LoopInv config workerCount outcome g)
    (h : startupStep config workerCount outcome g a = some g') :
    loopRemaining workerCount g' < loopRemaining workerCount g := by
  cases a with
  | worker i =>
    simp only [startupStep, workerLoopStep, Option.bind_eq_bind, Option.bind_eq_some] at h
    obtain ⟨w, hw, t, ht, h⟩ := h
    cases h
    exact loopRemaining_update hw (budget_workerStep ht)
  | supervisor =>
    cases supervisorLoopStep_move h with
    | build hLt =>
      simp [loopRemaining, LoopPc.rank, budget, remaining, init, SupervisorPc.rank,
        WorkerPc.rank]
      omega
    | finish | exit | deleted => simp [loopRemaining, LoopPc.rank]
    | @started created threads n | @failed created threads n =>
      obtain ⟨hLt, -, rfl⟩ : n < workerCount ∧ created.length = n + 1 ∧ threads = List.range n :=
        hInv.shape
      simp [loopRemaining, LoopPc.rank]
      omega
    | startStep hw hBusy ht | deleteStep hw hBusy hDel ht =>
      exact loopRemaining_update hw (budget_supervisorStep ht)
    | destroy hw hIdle ht =>
      exact loopRemaining_update hw
        (budget_beginCall_destroy ht (DeleteFacts.head_idle (hInv.expected _ _ hw) hIdle))

theorem runStartup_length {as : List LoopAction} (hInv : LoopInv config workerCount outcome g)
    (h : runStartup config workerCount outcome g as = some g') :
    as.length + loopRemaining workerCount g' ≤ loopRemaining workerCount g := by
  induction as generalizing g with
  | nil => cases h; simp
  | cons a as ih =>
    simp only [runStartup, Option.bind_eq_some] at h
    obtain ⟨g₁, h₁, h⟩ := h
    have := ih (startupStep_inv hInv h₁) h
    have := startupStep_remaining hInv h₁
    simp only [List.length_cons]
    omega

/-! ## The loop never gets stuck -/

theorem thread_enabled {i : Nat} {w : Spawned}
    (hInv : LoopInv config workerCount outcome g) (hw : g.created[i]? = some w)
    (hI : w.thread.sup ≠ .idle) (hD : w.thread.sup ≠ .deleted) (hC : w.thread.callsBegun ≤ 1) :
    (∃ t, supervisorStep w.thread = some t) ∨
      ∃ g', startupStep config workerCount outcome g (.worker i) = some g' := by
  have hNC : w.thread.sup ≠ .crashed := fun hc => by
    have := crashed_needs_second_call (hInv.reachable i w hw) hc
    omega
  rcases thread_step_enabled (hInv.reachable i w hw) hI hD hNC with hS | ⟨t, ht⟩
  · exact .inl hS
  · exact .inr ⟨g.update i { w with thread := t }, by simp [startupStep, workerLoopStep, hw, ht]⟩

theorem startup_step_enabled (hInv : LoopInv config workerCount outcome g)
    (hS : g.pc ≠ .started) (hE : ∀ c, g.pc ≠ .exited c) :
    ∃ a g', startupStep config workerCount outcome g a = some g' := by
  obtain ⟨created, threads, pc⟩ := g
  cases pc with
  | next n =>
    refine ⟨.supervisor, ?_⟩
    dsimp only [startupStep, supervisorLoopStep]
    split <;> exact ⟨_, rfl⟩
  | starting n =>
    obtain ⟨-, hLen, -⟩ : n < workerCount ∧ created.length = n + 1 ∧ threads = List.range n :=
      hInv.shape
    obtain ⟨w, hw⟩ : ∃ w, created[n]? = some w := ⟨_, List.getElem?_eq_getElem (by omega)⟩
    by_cases hI : w.thread.sup = .idle
    · refine ⟨.supervisor, ?_⟩
      simp only [startupStep, supervisorLoopStep, hw, hI, Option.bind_eq_bind, Option.some_bind,
        if_true]
      split <;> exact ⟨_, rfl⟩
    · have hC0 : w.thread.callsBegun = 0 := by simpa [Expected] using hInv.expected n w hw
      have hD : w.thread.sup ≠ .deleted := fun hD => by
        have := (reachable_inv (hInv.reachable n w hw)).calls_post
          (by simp [hD, SupervisorPc.inCall])
        omega
      rcases thread_enabled hInv hw hI hD (by omega) with ⟨t, ht⟩ | hW
      · exact ⟨.supervisor, _, by simp [startupStep, supervisorLoopStep, hw, hI, ht]; rfl⟩
      · exact ⟨_, hW⟩
  | deleting pending =>
    obtain ⟨n, -, hLen, -, hSuf, -⟩ : ∃ n < workerCount,
        created.length = n + 1 ∧ threads = List.range n ∧ pending <:+ n :: List.range n ∧
          outcome n = false ∧ ∀ j < n, outcome j = true := hInv.shape
    cases pending with
    | nil => exact ⟨.supervisor, _, rfl⟩
    | cons i rest =>
      have hi : i < created.length := by
        have hm := hSuf.subset (List.mem_cons_self i rest)
        simp only [List.mem_cons, List.mem_range] at hm
        omega
      obtain ⟨w, hw⟩ : ∃ w, created[i]? = some w := ⟨_, List.getElem?_eq_getElem hi⟩
      by_cases hI : w.thread.sup = .idle
      · obtain ⟨t, ht⟩ := beginCall_of_idle .destroy hI
        exact ⟨.supervisor, _, by simp [startupStep, supervisorLoopStep, hw, hI, ht]; rfl⟩
      · by_cases hD : w.thread.sup = .deleted
        · exact ⟨.supervisor, _, by simp [startupStep, supervisorLoopStep, hw, hD]; rfl⟩
        · have hC1 := (DeleteFacts.head_busy (hInv.expected i w hw) hI).1
          rcases thread_enabled hInv hw hI hD (by omega) with ⟨t, ht⟩ | hW
          · exact ⟨.supervisor, _, by simp [startupStep, supervisorLoopStep, hw, hI, hD, ht]; rfl⟩
          · exact ⟨_, hW⟩
  | exited c => exact absurd rfl (hE c)
  | started => exact absurd rfl hS

/-! ## How the startup loop ends -/

/-- `start()` returns only once its worker thread has emitted `started` or `error`, and it
returns what that worker's `Engine::start` returned. The loop is never stuck before it
ends, every schedule ends within `52 * workerCount + 3` steps, and it ends in one of two
ways: with every worker started and `threads` holding them in order, worker `j` with id `j`;
or, at the first worker whose start failed, with `threads` empty, exit code 1, and every
thread it created stopped, deleted and its worker thread joined. -/
theorem startup_loop_outcome (as : List LoopAction) (g : Startup)
    (h : runStartup config workerCount outcome Startup.init as = some g) :
    as.length ≤ 52 * workerCount + 3 ∧
    (∀ (j : Nat) (w : Spawned), g.created[j]? = some w → ∀ r, w.thread.returned = some r →
      r = outcome j ∧ w.thread.emitted = some (outcome j)) ∧
    (g.pc = .started ∨ (∃ c, g.pc = .exited c) ∨
      ∃ a g', startupStep config workerCount outcome g a = some g') ∧
    (g.pc = .started → g.threads = List.range workerCount ∧ g.created.length = workerCount ∧
      ∀ (j : Nat) (w : Spawned), g.created[j]? = some w → w.config.id = j ∧ w.thread.returned = some true) ∧
    ∀ c, g.pc = .exited c → c = 1 ∧ g.threads = [] ∧
      ∃ n < workerCount, outcome n = false ∧ (∀ j < n, outcome j = true) ∧
        g.created.length = n + 1 ∧ ∀ (j : Nat) (w : Spawned), g.created[j]? = some w →
          w.thread.callsBegun = 1 ∧ w.thread.sup = .deleted ∧ w.thread.wk = .done := by
  have hInv : LoopInv config workerCount outcome g := StartupReachable.inv ⟨as, h⟩
  refine ⟨?_, fun j w hw r hr => start_returns_outcome (hInv.reachable j w hw) hr, ?_, ?_, ?_⟩
  · have := runStartup_length init_loopInv h
    simp only [loopRemaining, Startup.init, List.map_nil, List.sum_nil, LoopPc.rank] at this
    omega
  · by_cases hS : g.pc = .started
    · exact .inl hS
    · by_cases hE : ∃ c, g.pc = .exited c
      · exact .inr (.inl hE)
      · exact .inr (.inr (startup_step_enabled hInv hS fun c hc => hE ⟨c, hc⟩))
  · obtain ⟨created, threads, pc⟩ := g
    rintro (rfl : pc = .started)
    obtain ⟨hLen, rfl⟩ : created.length = workerCount ∧ threads = List.range workerCount :=
      hInv.shape
    refine ⟨rfl, hLen, fun j w hw => ⟨?_, (hInv.expected j w hw).2.2⟩⟩
    rw [hInv.config_eq j w hw, id_workerConfiguration]
  · obtain ⟨created, threads, pc⟩ := g
    rintro c (rfl : pc = .exited c)
    obtain ⟨rfl, rfl, n, hLt, hLen, hOut, hPrev⟩ : c = 1 ∧ threads = [] ∧ ∃ n < workerCount,
        created.length = n + 1 ∧ outcome n = false ∧ ∀ j < n, outcome j = true := hInv.shape
    refine ⟨rfl, rfl, n, hLt, hOut, hPrev, hLen, fun j w hw => ?_⟩
    obtain ⟨hD, hC⟩ : w.thread.sup = .deleted ∧ w.thread.callsBegun = 1 := hInv.expected j w hw
    exact ⟨hC, hD, (deleted_joined (hInv.reachable j w hw) hD).1⟩

def oneWorkerStartup : List LoopAction :=
  [.supervisor, .supervisor, .supervisor, .supervisor, .worker 0, .worker 0, .worker 0,
    .worker 0, .supervisor, .supervisor, .supervisor, .supervisor]

def secondWorkerFails : List LoopAction :=
  List.replicate 4 .supervisor ++ List.replicate 4 (.worker 0) ++ List.replicate 7 .supervisor ++
    List.replicate 6 (.worker 1) ++ List.replicate 7 .supervisor ++ List.replicate 2 (.worker 1) ++
    List.replicate 7 .supervisor ++ List.replicate 5 (.worker 0) ++ List.replicate 3 .supervisor

theorem startup_loop_both_endings :
    (∃ g, runStartup default 1 (fun _ => true) Startup.init oneWorkerStartup = some g ∧
      g.pc = .started ∧ g.threads = [0]) ∧
    ∃ g, runStartup default 2 (fun i => i == 0) Startup.init secondWorkerFails = some g ∧
      g.pc = .exited 1 ∧ g.threads = [] ∧
      ∃ n < 2, (n == 0) = false ∧ (∀ j < n, (j == 0) = true) ∧ g.created.length = n + 1 ∧
        ∀ (j : Nat) (w : Spawned), g.created[j]? = some w →
          w.thread.callsBegun = 1 ∧ w.thread.sup = .deleted ∧ w.thread.wk = .done := by
  obtain ⟨g₁, h₁, hS⟩ : ∃ g, runStartup default 1 (fun _ => true) Startup.init oneWorkerStartup =
      some g ∧ g.pc = .started := ⟨_, rfl, rfl⟩
  obtain ⟨g₂, h₂, hE⟩ : ∃ g, runStartup default 2 (fun i => i == 0) Startup.init secondWorkerFails =
      some g ∧ g.pc = .exited 1 := ⟨_, rfl, rfl⟩
  exact ⟨⟨g₁, h₁, hS, ((startup_loop_outcome oneWorkerStartup g₁ h₁).2.2.2.1 hS).1⟩,
    ⟨g₂, h₂, hE, ((startup_loop_outcome secondWorkerFails g₂ h₂).2.2.2.2 1 hE).2⟩⟩

end Pushpin.RunLoop
