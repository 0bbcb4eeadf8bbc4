import Pushpin.Proxy.TrimList
import Pushpin.Proxy.SessionBudget
import Pushpin.Proxy.RunLoop

/-! # `App::Private::run`: from the settings to the engine configuration

`run` trims the empty entries of every spec list, merges the `condure_*` lists into the
`connmgr_*` ones, refuses to start unless one complete set of server endpoints and one of
client endpoints is configured, caps `max_open_requests` by `client_maxconn`, divides it
among the workers and fills the `Engine::Configuration` that `runLoop` specialises
(src/proxy/app.cpp). The settings are taken as `run` reads them, after `toInt()`,
`toStringList()`, `toString()` and `toBool()`; the command line, logging and the lookup of
the config file before them are outside the model. No setting is range-checked.
-/

namespace Pushpin.Run
open Pushpin.TrimList Pushpin.WorkerConfig Pushpin.SessionBudget
set_option autoImplicit false

/-- The settings `run` reads, each after its `QVariant` conversion; the two `XffRule`s are the
result of `parse_xffRule` on `proxy/x_forwarded_for` and `proxy/x_forwarded_for_trusted`. -/
structure RunSettings where
  services : List String
  workers : Int
  connmgrInSpecs : List String
  connmgrInStreamSpecs : List String
  connmgrOutSpecs : List String
  condureInSpecs : List String
  condureInStreamSpecs : List String
  condureOutSpecs : List String
  m2aInSpecs : List String
  m2aInStreamSpecs : List String
  m2aOutSpecs : List String
  connmgrClientOutSpecs : List String
  connmgrClientOutStreamSpecs : List String
  connmgrClientInSpecs : List String
  condureClientOutSpecs : List String
  condureClientOutStreamSpecs : List String
  condureClientInSpecs : List String
  zurlOutSpecs : List String
  zurlOutStreamSpecs : List String
  zurlInSpecs : List String
  handlerInspectSpec : String
  handlerAcceptSpec : String
  handlerRetryInSpec : String
  handlerWsControlInitSpecs : List String
  handlerWsControlStreamSpecs : List String
  statsSpec : String
  commandSpec : String
  intreqInSpecs : List String
  intreqInStreamSpecs : List String
  intreqOutSpecs : List String
  ipcFileMode : Int
  maxOpenRequests : Int
  debug : Bool
  autoCrossOrigin : Bool
  acceptXForwardedProtocol : Bool
  setXForwardedProtocol : String
  xForwardedFor : XffRule
  xForwardedForTrusted : XffRule
  origHeadersNeedMark : List String
  acceptPushpinRoute : Bool
  cdnLoop : String
  logFrom : Bool
  logUserAgent : Bool
  sigIss : String
  sigKey : String
  upstreamKey : String
  sockjsUrl : String
  updatesCheck : String
  organizationName : String
  clientMaxconn : Int
  statsConnectionSend : Bool
  statsConnectionTtl : Int
  statsConnectionsMaxTtl : Int
  statsReportInterval : Int
  prometheusPort : String
  prometheusPrefix : String
  newEventLoop : Bool

/-- What a config file that sets nothing reads as: the defaults passed to `settings.value`,
otherwise empty values. -/
def RunSettings.defaults : RunSettings where
  services := []
  workers := 1
  connmgrInSpecs := []
  connmgrInStreamSpecs := []
  connmgrOutSpecs := []
  condureInSpecs := []
  condureInStreamSpecs := []
  condureOutSpecs := []
  m2aInSpecs := []
  m2aInStreamSpecs := []
  m2aOutSpecs := []
  connmgrClientOutSpecs := []
  connmgrClientOutStreamSpecs := []
  connmgrClientInSpecs := []
  condureClientOutSpecs := []
  condureClientOutStreamSpecs := []
  condureClientInSpecs := []
  zurlOutSpecs := []
  zurlOutStreamSpecs := []
  zurlInSpecs := []
  handlerInspectSpec := ""
  handlerAcceptSpec := ""
  handlerRetryInSpec := ""
  handlerWsControlInitSpecs := []
  handlerWsControlStreamSpecs := []
  statsSpec := ""
  commandSpec := ""
  intreqInSpecs := []
  intreqInStreamSpecs := []
  intreqOutSpecs := []
  ipcFileMode := -1
  maxOpenRequests := -1
  debug := false
  autoCrossOrigin := false
  acceptXForwardedProtocol := false
  setXForwardedProtocol := ""
  xForwardedFor := ⟨-1, false⟩
  xForwardedForTrusted := ⟨-1, false⟩
  origHeadersNeedMark := []
  acceptPushpinRoute := false
  cdnLoop := ""
  logFrom := false
  logUserAgent := false
  sigIss := "pushpin"
  sigKey := ""
  upstreamKey := ""
  sockjsUrl := ""
  updatesCheck := ""
  organizationName := ""
  clientMaxconn := 50000
  statsConnectionSend := true
  statsConnectionTtl := 120
  statsConnectionsMaxTtl := 60
  statsReportInterval := 10
  prometheusPort := ""
  prometheusPrefix := ""
  newEventLoop := false

structure RunEnv where
  appVersion : String
  applicationPid : Nat
  configDir : String
  quietCheck : Bool

/-- How `run` ends: `return 1` after `log_error`, undefined behaviour in the division
`sessionsMax / workerCount`, or `return runLoop(config, ..., workerCount, newEventLoop)`. -/
inductive RunResult
  | failed (message : String)
  | undefinedDivision
  | runLoop (config : Configuration) (workerCount : Int) (newEventLoop : Bool)

structure Specs where
  connmgrIn : List String
  connmgrInStream : List String
  connmgrOut : List String
  m2aIn : List String
  m2aInStream : List String
  m2aOut : List String
  connmgrClientOut : List String
  connmgrClientOutStream : List String
  connmgrClientIn : List String
  zurlOut : List String
  zurlOutStream : List String
  zurlIn : List String

def trimmedSpecs (s : RunSettings) : Specs where
  connmgrIn := trimlist s.connmgrInSpecs ++ trimlist s.condureInSpecs
  connmgrInStream := trimlist s.connmgrInStreamSpecs ++ trimlist s.condureInStreamSpecs
  connmgrOut := trimlist s.connmgrOutSpecs ++ trimlist s.condureOutSpecs
  m2aIn := trimlist s.m2aInSpecs
  m2aInStream := trimlist s.m2aInStreamSpecs
  m2aOut := trimlist s.m2aOutSpecs
  connmgrClientOut := trimlist s.connmgrClientOutSpecs ++ trimlist s.condureClientOutSpecs
  connmgrClientOutStream := trimlist s.connmgrClientOutStreamSpecs ++ trimlist s.condureClientOutStreamSpecs
  connmgrClientIn := trimlist s.connmgrClientInSpecs ++ trimlist s.condureClientInSpecs
  zurlOut := trimlist s.zurlOutSpecs
  zurlOutStream := trimlist s.zurlOutStreamSpecs
  zurlIn := trimlist s.zurlInSpecs

def allSet (a b c : List String) : Bool := !a.isEmpty && !b.isEmpty && !c.isEmpty

def specsError (m : Specs) : Option String :=
  if !allSet m.connmgrIn m.connmgrInStream m.connmgrOut && !allSet m.m2aIn m.m2aInStream m.m2aOut then
    some "must set connmgr_in_specs, connmgr_in_stream_specs, and connmgr_out_specs, or m2a_in_specs, m2a_in_stream_specs, and m2a_out_specs"
  else if !allSet m.connmgrClientOut m.connmgrClientOutStream m.connmgrClientIn &&
      !allSet m.zurlOut m.zurlOutStream m.zurlIn then
    some "must set connmgr_client_out_specs, connmgr_client_out_stream_specs, and connmgr_client_in_specs, or zurl_out_specs, zurl_out_stream_specs, and zurl_in_specs"
  else none

def buildConfiguration (s : RunSettings) (env : RunEnv) (m : Specs) (sessionsMax : Int) :
    Configuration :=
  let useConnmgr := !s.services.contains "mongrel2" &&
    (!m.connmgrIn.isEmpty || !m.connmgrInStream.isEmpty || !m.connmgrOut.isEmpty)
  let useConnmgrClient := !s.services.contains "zurl" &&
    (!m.connmgrClientOut.isEmpty || !m.connmgrClientOutStream.isEmpty || !m.connmgrClientIn.isEmpty)
  { id := 0
    appVersion := env.appVersion
    clientId := "proxy_" ++ toString env.applicationPid
    serverInSpecs := if useConnmgr then m.connmgrIn else m.m2aIn
    serverInStreamSpecs := if useConnmgr then m.connmgrInStream else m.m2aInStream
    serverOutSpecs := if useConnmgr then m.connmgrOut else m.m2aOut
    clientOutSpecs := if useConnmgrClient then m.connmgrClientOut else m.zurlOut
    clientOutStreamSpecs := if useConnmgrClient then m.connmgrClientOutStream else m.zurlOutStream
    clientInSpecs := if useConnmgrClient then m.connmgrClientIn else m.zurlIn
    inspectSpec := s.handlerInspectSpec
    acceptSpec := s.handlerAcceptSpec
    retryInSpec := s.handlerRetryInSpec
    wsControlInitSpecs := trimlist s.handlerWsControlInitSpecs
    wsControlStreamSpecs := trimlist s.handlerWsControlStreamSpecs
    statsSpec := s.statsSpec
    commandSpec := s.commandSpec
    intServerInSpecs := trimlist s.intreqInSpecs
    intServerInStreamSpecs := trimlist s.intreqInStreamSpecs
    intServerOutSpecs := trimlist s.intreqOutSpecs
    ipcFileMode := s.ipcFileMode
    sessionsMax := sessionsMax
    debug := s.debug
    autoCrossOrigin := s.autoCrossOrigin
    acceptXForwardedProto := s.acceptXForwardedProtocol
    setXForwardedProto := s.setXForwardedProtocol == "true" || s.setXForwardedProtocol == "proto-only"
    setXForwardedProtocol := s.setXForwardedProtocol == "true"
    xffUntrustedRule := s.xForwardedFor
    xffTrustedRule := s.xForwardedForTrusted
    origHeadersNeedMark := trimlist s.origHeadersNeedMark
    acceptPushpinRoute := s.acceptPushpinRoute
    cdnLoop := s.cdnLoop
    logFrom := s.logFrom
    logUserAgent := s.logUserAgent
    sigIss := s.sigIss
    sigKey := ⟨s.sigKey, env.configDir⟩
    upstreamKey := ⟨s.upstreamKey, env.configDir⟩
    sockJsUrl := s.sockjsUrl
    updatesCheck := if s.updatesCheck == "true" then "check" else s.updatesCheck
    organizationName := s.organizationName
    quietCheck := env.quietCheck
    statsConnectionSend := s.statsConnectionSend
    statsConnectionTtl := s.statsConnectionTtl
    statsConnectionsMaxTtl := s.statsConnectionsMaxTtl
    statsReportInterval := s.statsReportInterval
    prometheusPort := s.prometheusPort
    prometheusPrefix := s.prometheusPrefix }

def run (s : RunSettings) (env : RunEnv) : RunResult :=
  let m := trimmedSpecs s
  match specsError m with
  | some message => .failed message
  | none =>
    match div32 (clampSessionsMax s.maxOpenRequests s.clientMaxconn) s.workers with
    | none => .undefinedDivision
    | some sessionsMax => .runLoop (buildConfiguration s env m sessionsMax) s.workers s.newEventLoop

theorem trimlist_of_nonEmpty {l : List String} (h : ∀ s ∈ l, nonEmpty s) : trimlist l = l := by
  have hLoop := trimlistFrom_append [] l
  simp only [List.nil_append, List.length_nil] at hLoop
  rw [trimlist, hLoop, List.filter_eq_self.mpr h]

theorem sessionsMax_buildConfiguration (s : RunSettings) (env : RunEnv) (m : Specs) (n : Int) :
    (buildConfiguration s env m n).sessionsMax = n := rfl

theorem run_cases (s : RunSettings) (env : RunEnv) :
    (∃ message, run s env = .failed message) ∨
    (specsError (trimmedSpecs s) = none ∧
      div32 (clampSessionsMax s.maxOpenRequests s.clientMaxconn) s.workers = none ∧
      run s env = .undefinedDivision) ∨
    (∃ n, div32 (clampSessionsMax s.maxOpenRequests s.clientMaxconn) s.workers = some n ∧
      run s env = .runLoop (buildConfiguration s env (trimmedSpecs s) n) s.workers s.newEventLoop) := by
  cases hE : specsError (trimmedSpecs s) with
  | some message => exact .inl ⟨message, by simp only [run, hE]⟩
  | none =>
    cases hDiv : div32 (clampSessionsMax s.maxOpenRequests s.clientMaxconn) s.workers with
    | none => exact .inr (.inl ⟨rfl, rfl, by simp only [run, hE, hDiv]⟩)
    | some n => exact .inr (.inr ⟨n, rfl, by simp only [run, hE, hDiv]⟩)

theorem run_eq_runLoop {s : RunSettings} {env : RunEnv} {config : Configuration}
    {workerCount : Int} {newEventLoop : Bool}
    (h : run s env = .runLoop config workerCount newEventLoop) :
    ∃ n, div32 (clampSessionsMax s.maxOpenRequests s.clientMaxconn) s.workers = some n ∧
      config = buildConfiguration s env (trimmedSpecs s) n ∧ workerCount = s.workers ∧
      newEventLoop = s.newEventLoop := by
  rcases run_cases s env with ⟨message, hRun⟩ | ⟨-, -, hRun⟩ | ⟨n, hn, hRun⟩ <;> rw [hRun] at h
  · cases h
  · cases h
  · injection h with hConfig hCount hLoop
    exact ⟨n, hn, hConfig.symm, hCount.symm, hLoop.symm⟩

/-- `run` checks none of `W`, `M`, `C`. Whenever it reaches `runLoop` it hands it the worker
count `W` and each worker's `sessionsMax` as `T / W` in `int` division, truncated toward zero,
with `T = clampSessionsMax M C`; with `W ≤ 0` the startup loop then starts no worker. With at
least one worker and a non-negative `client_maxconn`, `run` never divides by zero; each worker's
`sessionsMax` `S` satisfies `0 ≤ S` and `W * S ≤ T ≤ C`; and `EngineThread::run` computes its
budgets without overflow exactly when their largest sum fits in an `int`. -/
theorem run_splits_sessions (k : EngineLimits) (s : RunSettings) (env : RunEnv) :
    (∀ config workerCount newEventLoop, run s env = .runLoop config workerCount newEventLoop →
      workerCount = s.workers ∧
      config.sessionsMax = (clampSessionsMax s.maxOpenRequests s.clientMaxconn).tdiv s.workers ∧
      (workerCount ≤ 0 → ∀ outcome as g,
        RunLoop.runStartup config workerCount outcome RunLoop.Startup.init as = some g →
          g.created = [] ∧ g.threads = [])) ∧
    (1 ≤ s.workers → 0 ≤ s.clientMaxconn → InInt32 s.clientMaxconn →
      run s env ≠ .undefinedDivision ∧
      ∀ config workerCount newEventLoop, run s env = .runLoop config workerCount newEventLoop →
        0 ≤ config.sessionsMax ∧
        workerCount * config.sessionsMax ≤ clampSessionsMax s.maxOpenRequests s.clientMaxconn ∧
        clampSessionsMax s.maxOpenRequests s.clientMaxconn ≤ s.clientMaxconn ∧
        (budgetTotal k config.sessionsMax newEventLoop < 2 ^ 31 →
          registrationsMax k config.sessionsMax newEventLoop =
            some (budgetTotal k config.sessionsMax newEventLoop)) ∧
        (2 ^ 31 ≤ budgetTotal k config.sessionsMax newEventLoop →
          registrationsMax k config.sessionsMax newEventLoop = none)) := by
  refine ⟨fun config workerCount newEventLoop h => ?_, fun hW hC hC32 => ?_⟩
  · obtain ⟨n, hn, rfl, rfl, -⟩ := run_eq_runLoop h
    exact ⟨rfl, div32_eq_some hn, fun hW _ _ _ hRun => RunLoop.runStartup_nonpositive hW hRun⟩
  · have hT := clampSessionsMax_le s.maxOpenRequests s.clientMaxconn
    have hT0 := clampSessionsMax_nonneg s.maxOpenRequests hC
    obtain ⟨hDiv, hS0, hWS⟩ :=
      div32_of_pos (by omega : 0 < s.workers) hT0 (by unfold InInt32 at hC32; omega)
    refine ⟨fun hU => ?_, fun config workerCount newEventLoop h => ?_⟩
    · rcases run_cases s env with ⟨message, hRun⟩ | ⟨-, hNone, -⟩ | ⟨n, -, hRun⟩
      · rw [hRun] at hU; cases hU
      · rw [hDiv] at hNone; cases hNone
      · rw [hRun] at hU; cases hU
    · obtain ⟨n, hn, rfl, rfl, -⟩ := run_eq_runLoop h
      obtain rfl := Option.some.inj (hDiv.symm.trans hn)
      exact ⟨hS0, hWS, hT, registrationsMax_of_lt k hS0 _, registrationsMax_of_ge k _⟩

def sampleLimits : EngineLimits := ⟨10, 100, 10, 1, 1, 8⟩

def sampleEnv : RunEnv := ⟨"1.41.0", 1234, "/etc/pushpin", false⟩

def zeroWorkers : RunSettings :=
  { RunSettings.defaults with
    workers := 0
    connmgrInSpecs := ["ipc:in"], connmgrInStreamSpecs := ["ipc:in-stream"], connmgrOutSpecs := ["ipc:out"]
    connmgrClientOutSpecs := ["ipc:client-out"], connmgrClientOutStreamSpecs := ["ipc:client-out-stream"]
    connmgrClientInSpecs := ["ipc:client-in"] }

/-- Two workers, an empty entry among the server endpoints, and IPC handler endpoints: one
standing alone, one left alone in its list once the empty entry before it is trimmed. -/
def twoWorkers : RunSettings :=
  { zeroWorkers with
    workers := 2
    connmgrInSpecs := ["ipc:in", ""]
    handlerInspectSpec := "ipc:inspect"
    handlerWsControlInitSpecs := ["", "ipc:ws-control-init"]
    intreqInSpecs := ["ipc:intreq-in"] }

def negativeWorkers : RunSettings := { twoWorkers with workers := -1 }

theorem specsError_twoWorkers : specsError (trimmedSpecs twoWorkers) = none := by
  simp only [trimmedSpecs, twoWorkers, zeroWorkers, RunSettings.defaults, trimlist_filters_nonempty]
  decide

theorem run_twoWorkers : run twoWorkers sampleEnv =
    .runLoop (buildConfiguration twoWorkers sampleEnv (trimmedSpecs twoWorkers) 25000) 2 false := by
  simp only [run, specsError_twoWorkers]
  rfl

theorem run_negativeWorkers : run negativeWorkers sampleEnv =
    .runLoop (buildConfiguration negativeWorkers sampleEnv (trimmedSpecs twoWorkers) (-50000)) (-1)
      false := by
  simp only [run, show trimmedSpecs negativeWorkers = trimmedSpecs twoWorkers from rfl,
    specsError_twoWorkers]
  rfl

theorem run_splits_sessions_two_workers :
    (∃ config, run twoWorkers sampleEnv = .runLoop config 2 false ∧
      config.sessionsMax = (clampSessionsMax twoWorkers.maxOpenRequests twoWorkers.clientMaxconn).tdiv 2 ∧
      0 ≤ config.sessionsMax ∧
      2 * config.sessionsMax ≤ clampSessionsMax twoWorkers.maxOpenRequests twoWorkers.clientMaxconn ∧
      registrationsMax sampleLimits config.sessionsMax false =
        some (budgetTotal sampleLimits config.sessionsMax false)) ∧
    ∃ config, run negativeWorkers sampleEnv = .runLoop config (-1) false ∧
      config.sessionsMax =
        (clampSessionsMax negativeWorkers.maxOpenRequests negativeWorkers.clientMaxconn).tdiv (-1) ∧
      ∀ outcome as g, RunLoop.runStartup config (-1) outcome RunLoop.Startup.init as = some g →
        g.created = [] ∧ g.threads = [] := by
  have hTwo := run_splits_sessions sampleLimits twoWorkers sampleEnv
  have hNeg := run_splits_sessions sampleLimits negativeWorkers sampleEnv
  obtain ⟨-, hS, -⟩ := hTwo.1 _ _ _ run_twoWorkers
  obtain ⟨h0, hWS, -, hReg, -⟩ := (hTwo.2 (by decide) (by decide) (by decide)).2 _ _ _ run_twoWorkers
  obtain ⟨-, hS', hNone⟩ := hNeg.1 _ _ _ run_negativeWorkers
  exact ⟨⟨_, run_twoWorkers, hS, h0, hWS, hReg (by decide)⟩,
    ⟨_, run_negativeWorkers, hS', hNone (by decide)⟩⟩

/-- `run` accepts `proxy/workers = 0` and goes on to `sessionsMax / workerCount` with a zero
divisor instead of returning 1. -/
theorem run_zero_workers_divides_by_zero : run zeroWorkers sampleEnv = .undefinedDivision := by
  have hSpecs : specsError (trimmedSpecs zeroWorkers) = none := by
    simp (disch := decide) only [trimmedSpecs, zeroWorkers, RunSettings.defaults, trimlist_of_nonEmpty]
    decide
  have hDiv : div32 (clampSessionsMax zeroWorkers.maxOpenRequests zeroWorkers.clientMaxconn)
      zeroWorkers.workers = none := div32_zero _
  simp only [run, hSpecs, hDiv]

/-- Every list of every worker's configuration went through `trimlist`: `run` hands `runLoop`
no empty endpoint spec or header name, and `runLoop` makes none. -/
theorem run_passes_no_empty_entry {s : RunSettings} {env : RunEnv} {config : Configuration}
    {workerCount : Int} {newEventLoop : Bool}
    (h : run s env = .runLoop config workerCount newEventLoop) (n : Nat) :
    ∀ l ∈ listFields (workerConfiguration config workerCount n), "" ∉ l := by
  refine listFields_workerConfiguration ?_
  obtain ⟨sessionsMax, -, rfl, -⟩ := run_eq_runLoop h
  simp only [listFields, buildConfiguration, trimmedSpecs, List.forall_mem_cons,
    List.not_mem_nil, false_implies, implies_true, and_true]
  split_ifs <;>
    simp only [List.mem_append, empty_not_mem_trimlist, or_self, not_false_eq_true, and_self]

theorem run_two_workers_no_empty_entry :
    ∃ config, run twoWorkers sampleEnv = .runLoop config 2 false ∧
      (workerConfiguration config 2 1).wsControlInitSpecs = ["ipc:ws-control-init-1"] ∧
      ∀ l ∈ listFields (workerConfiguration config 2 1), "" ∉ l := by
  refine ⟨_, run_twoWorkers, ?_, run_passes_no_empty_entry run_twoWorkers 1⟩
  simp only [workerConfiguration, buildConfiguration, twoWorkers, trimlist_filters_nonempty]
  decide

end Pushpin.Run
