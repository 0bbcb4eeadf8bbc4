import Mathlib.Tactic.Linarith
import Mathlib.Tactic.Ring

/-! # Session and registration budgets

`App::Private::run` caps `proxy/max_open_requests` by `runner/client_maxconn` and divides
the result among the workers; `EngineThread::run` turns a worker's share into timer and
event-loop registration budgets (src/proxy/app.cpp). All of it is `int` arithmetic: a
result outside the 32-bit range, or a division by zero, is undefined behaviour, which the
checked operations below return as `none`. The per-session and per-route constants live in
a header that is not part of the sources, so they are a parameter (`EngineLimits`).
-/

namespace Pushpin.SessionBudget
set_option autoImplicit false

def InInt32 (x : Int) : Prop := -2 ^ 31 ≤ x ∧ x < 2 ^ 31

instance (x : Int) : Decidable (InInt32 x) := inferInstanceAs (Decidable (_ ∧ _))

def mul32 (a b : Int) : Option Int := if InInt32 (a * b) then some (a * b) else none

def add32 (a b : Int) : Option Int := if InInt32 (a + b) then some (a + b) else none

/-- `int` division, truncating toward zero; `none` for a zero divisor and for
`INT_MIN / -1`. -/
def div32 (a b : Int) : Option Int :=
  if b = 0 then none else if InInt32 (a.tdiv b) then some (a.tdiv b) else none

def clampSessionsMax (sessionsMax clientMaxconn : Int) : Int :=
  if sessionsMax ≥ 0 then min sessionsMax clientMaxconn else clientMaxconn

/-- The compile-time constants `EngineThread::run` multiplies by. -/
structure EngineLimits where
  timersPerSession : Nat
  zroutesMax : Nat
  timersPerZroute : Nat
  socketnotifiersPerZroute : Nat
  socketnotifiersPerSimplehttprequest : Nat
  prometheusConnectionsMax : Nat

def timersMax (k : EngineLimits) (sessionsMax : Int) : Option Int := do
  let a ← mul32 sessionsMax k.timersPerSession
  let b ← mul32 k.zroutesMax k.timersPerZroute
  let c ← add32 a b
  add32 c 100

def socketNotifiersMax (k : EngineLimits) : Option Int := do
  let a ← mul32 k.socketnotifiersPerZroute k.zroutesMax
  let b ← mul32 k.socketnotifiersPerSimplehttprequest k.prometheusConnectionsMax
  let c ← add32 a b
  add32 c 100

/-- The budgets `EngineThread::run` computes: with the new event loop `registrationsMax =
timersMax + socketNotifiersMax`, with the Qt loop only `timersMax`. -/
def registrationsMax (k : EngineLimits) (sessionsMax : Int) (newEventLoop : Bool) : Option Int := do
  let t ← timersMax k sessionsMax
  if newEventLoop then
    let s ← socketNotifiersMax k
    add32 t s
  else pure t

def timerOverhead (k : EngineLimits) : Int := k.zroutesMax * k.timersPerZroute + 100

def socketOverhead (k : EngineLimits) : Int :=
  k.socketnotifiersPerZroute * k.zroutesMax +
    k.socketnotifiersPerSimplehttprequest * k.prometheusConnectionsMax + 100

def budgetTotal (k : EngineLimits) (s : Int) (newEventLoop : Bool) : Int :=
  s * k.timersPerSession + timerOverhead k + if newEventLoop then socketOverhead k else 0

theorem mul32_eq_some {a b x : Int} (h : mul32 a b = some x) : x = a * b := by
  unfold mul32 at h; split_ifs at h; exact (Option.some.inj h).symm

theorem add32_eq_some {a b x : Int} (h : add32 a b = some x) : x = a + b ∧ x < 2 ^ 31 := by
  unfold add32 InInt32 at h; split_ifs at h with hIn
  obtain rfl := Option.some.inj h
  exact ⟨rfl, hIn.2⟩

theorem mul32_of_lt (a b : Int) (h0 : 0 ≤ a * b) (h1 : a * b < 2 ^ 31) : mul32 a b = some (a * b) := by
  unfold mul32 InInt32; split_ifs <;> first | rfl | omega

theorem add32_of_lt (a b : Int) (h0 : 0 ≤ a + b) (h1 : a + b < 2 ^ 31) : add32 a b = some (a + b) := by
  unfold add32 InInt32; split_ifs <;> first | rfl | omega

theorem add32_of_ge (a b : Int) (h : 2 ^ 31 ≤ a + b) : add32 a b = none := by
  unfold add32 InInt32; split_ifs <;> first | rfl | omega

theorem timersMax_eq_some {k : EngineLimits} {s t : Int} (h : timersMax k s = some t) :
    t = s * k.timersPerSession + timerOverhead k ∧ t < 2 ^ 31 := by
  simp only [timersMax, Option.bind_eq_bind, Option.bind_eq_some] at h
  obtain ⟨a, ha, b, hb, c, hc, ht⟩ := h
  obtain ⟨rfl, hLt⟩ := add32_eq_some ht
  rw [(add32_eq_some hc).1, mul32_eq_some ha, mul32_eq_some hb] at hLt ⊢
  exact ⟨by rw [timerOverhead, Int.add_assoc], hLt⟩

theorem socketNotifiersMax_eq_some {k : EngineLimits} {u : Int} (h : socketNotifiersMax k = some u) :
    u = socketOverhead k := by
  simp only [socketNotifiersMax, Option.bind_eq_bind, Option.bind_eq_some] at h
  obtain ⟨a, ha, b, hb, c, hc, hu⟩ := h
  rw [(add32_eq_some hu).1, (add32_eq_some hc).1, mul32_eq_some ha, mul32_eq_some hb, socketOverhead]

theorem timerOverhead_nonneg (k : EngineLimits) : 0 ≤ timerOverhead k := by
  unfold timerOverhead; positivity

theorem socketOverhead_nonneg (k : EngineLimits) : 0 ≤ socketOverhead k := by
  unfold socketOverhead; positivity

theorem socketNotifiersMax_of_lt (k : EngineLimits) (h : socketOverhead k < 2 ^ 31) :
    socketNotifiersMax k = some (socketOverhead k) := by
  have hA : (0 : Int) ≤ k.socketnotifiersPerZroute * k.zroutesMax := by positivity
  have hB : (0 : Int) ≤ k.socketnotifiersPerSimplehttprequest * k.prometheusConnectionsMax := by
    positivity
  unfold socketOverhead at h ⊢
  simp only [socketNotifiersMax, Option.bind_eq_bind]
  rw [mul32_of_lt _ _ hA (by omega), mul32_of_lt _ _ hB (by omega), Option.some_bind, Option.some_bind,
    add32_of_lt _ _ (by omega) (by omega), Option.some_bind, add32_of_lt _ _ (by omega) h]

section Nonneg
variable (k : EngineLimits) {s : Int} (hs : 0 ≤ s)
include hs

theorem timersMax_of_lt (h : s * k.timersPerSession + timerOverhead k < 2 ^ 31) :
    timersMax k s = some (s * k.timersPerSession + timerOverhead k) := by
  have hST : 0 ≤ s * k.timersPerSession := Int.mul_nonneg hs (Int.natCast_nonneg _)
  have hZ : (0 : Int) ≤ k.zroutesMax * k.timersPerZroute := by positivity
  unfold timerOverhead at h ⊢
  simp only [timersMax, Option.bind_eq_bind]
  rw [mul32_of_lt _ _ hST (by omega), mul32_of_lt _ _ hZ (by omega), Option.some_bind, Option.some_bind,
    add32_of_lt _ _ (by omega) (by omega), Option.some_bind, add32_of_lt _ _ (by omega) (by omega),
    Int.add_assoc]

/-- For a worker budget `s ≥ 0` whose largest sum fits in an `int`, `EngineThread::run`
computes its budgets without overflow, and `registrationsMax` is that sum. -/
theorem registrationsMax_of_lt (newEventLoop : Bool) (h : budgetTotal k s newEventLoop < 2 ^ 31) :
    registrationsMax k s newEventLoop = some (budgetTotal k s newEventLoop) := by
  have hO := timerOverhead_nonneg k
  have hS := socketOverhead_nonneg k
  have hST : 0 ≤ s * k.timersPerSession := Int.mul_nonneg hs (Int.natCast_nonneg _)
  cases newEventLoop with
  | false =>
    simp only [budgetTotal, Bool.false_eq_true, if_false, Int.add_zero] at h ⊢
    simp [registrationsMax, timersMax_of_lt k hs h]
  | true =>
    simp only [budgetTotal, if_true] at h ⊢
    simp [registrationsMax, timersMax_of_lt k hs (by omega), socketNotifiersMax_of_lt k (by omega),
      add32_of_lt _ _ (by omega) h]

omit hs in
/-- ... and when the sum does not fit, one of the `int` operations overflows. -/
theorem registrationsMax_of_ge (newEventLoop : Bool) (h : 2 ^ 31 ≤ budgetTotal k s newEventLoop) :
    registrationsMax k s newEventLoop = none := by
  rcases hT : timersMax k s with _ | t
  · simp [registrationsMax, hT]
  · obtain ⟨rfl, hLt⟩ := timersMax_eq_some hT
    cases newEventLoop with
    | false => simp [budgetTotal] at h; omega
    | true =>
      rcases hU : socketNotifiersMax k with _ | u
      · simp [registrationsMax, hT, hU]
      · rw [socketNotifiersMax_eq_some hU] at hU
        simp only [budgetTotal, if_true] at h
        simp [registrationsMax, hT, hU, add32_of_ge _ _ h]

end Nonneg

theorem div32_zero (a : Int) : div32 a 0 = none := by simp [div32]

theorem div32_eq_some {a b x : Int} (h : div32 a b = some x) : x = a.tdiv b := by
  unfold div32 at h
  split_ifs at h
  exact (Option.some.inj h).symm

theorem clampSessionsMax_le (sessionsMax clientMaxconn : Int) :
    clampSessionsMax sessionsMax clientMaxconn ≤ clientMaxconn := by
  unfold clampSessionsMax; split_ifs <;> omega

theorem clampSessionsMax_nonneg (sessionsMax : Int) {clientMaxconn : Int} (hC : 0 ≤ clientMaxconn) :
    0 ≤ clampSessionsMax sessionsMax clientMaxconn := by
  unfold clampSessionsMax; split_ifs <;> omega

theorem div32_of_pos {total workerCount : Int} (hW : 0 < workerCount) (h0 : 0 ≤ total)
    (h1 : total < 2 ^ 31) :
    div32 total workerCount = some (total / workerCount) ∧ 0 ≤ total / workerCount ∧
      workerCount * (total / workerCount) ≤ total := by
  have hNonneg : 0 ≤ total / workerCount := Int.ediv_nonneg h0 (by omega)
  have hLe : total / workerCount ≤ total := Int.ediv_le_self _ h0
  refine ⟨?_, hNonneg, Int.mul_ediv_self_le (by omega)⟩
  rw [div32, if_neg (by omega), Int.tdiv_eq_ediv h0 (by omega), if_pos ⟨by omega, by omega⟩]

end Pushpin.SessionBudget
