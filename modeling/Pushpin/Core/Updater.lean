import Mathlib.Data.List.Chain

/-! # The update checker and usage reporter

`Updater` (src/unnamed/part_002, updater.cpp) runs a timer. On a tick with no request in
flight, `timer_timeout` starts one (`doRequest`). In report mode its query carries the usage
counters that `setReport` accumulated since the previous query, and `doRequest` resets them.
A request ends on `req_error`, or on `req_readyRead` once the response is too large or
finished. A finished response that names a new version is logged, at most once per
`CHECK_INTERVAL - REPORT_INTERVAL / 2`.

The counters are `int` in the source and unbounded integers here. `Report()` (updater.h)
zeroes every counter, and the constructor then marks `connectionsMax` stale (-1). The request
object is only its existence (`req`); of a response, the model keeps what `req_readyRead`
reads; of the platform, the strings `doRequest` puts in the query.
-/

namespace Pushpin.Updater
set_option autoImplicit false

inductive Mode
  | checkMode
  | reportMode
  deriving DecidableEq, Repr

structure Report where
  connectionsMax : Int := 0
  connectionsMinutes : Int := 0
  messagesReceived : Int := 0
  messagesSent : Int := 0
  ops : Int := 0
  deriving DecidableEq, Repr

/-- What `doRequest` reads besides the report: the constructor's arguments, `getOs()`,
`getArch()`, and the hex SHA-1 of the local host name. -/
structure Setup where
  mode : Mode
  currentVersion : String
  org : String
  os : String
  arch : String
  hashedHost : String
  deriving DecidableEq, Repr

def checkInterval : Int := 24 * 60 * 60 * 1000

def reportInterval : Int := 15 * 60 * 1000

def maxResponseSize : Nat := 50000

/-- `Updater::Private`'s state (`lastLogTime` in ms, `none` while null), with the query of each
request started and each new-version line logged with its time, oldest first. -/
structure State where
  report : Report
  req : Bool
  lastLogTime : Option Int
  queries : List (List (String × String))
  logged : List (Int × String)
  deriving DecidableEq, Repr

def init : State where
  report := { connectionsMax := -1 }
  req := false
  lastLogTime := none
  queries := []
  logged := []

def setReport (report : Report) (s : State) : State :=
  let current := s.report
  { s with
    report := {
      connectionsMax :=
        if current.connectionsMax = -1 ∨ report.connectionsMax > current.connectionsMax then
          report.connectionsMax
        else current.connectionsMax
      connectionsMinutes := current.connectionsMinutes + report.connectionsMinutes
      messagesReceived := current.messagesReceived + report.messagesReceived
      messagesSent := current.messagesSent + report.messagesSent
      ops := current.ops + report.ops } }

def baseItems (setup : Setup) : List (String × String) :=
  [("package", "pushpin"), ("version", setup.currentVersion)] ++
    (if setup.os.isEmpty then [] else [("os", setup.os)]) ++
    (if setup.arch.isEmpty then [] else [("arch", setup.arch)]) ++
    (if setup.org.isEmpty then [] else [("org", setup.org)])

def reportItems (hashedHost : String) (report : Report) : List (String × String) :=
  let cmax := if report.connectionsMax > 0 then report.connectionsMax else 0
  [("id", hashedHost), ("cmax", toString cmax), ("cminutes", toString report.connectionsMinutes),
    ("recv", toString report.messagesReceived), ("sent", toString report.messagesSent),
    ("ops", toString report.ops)]

def doRequest (setup : Setup) (s : State) : State :=
  match setup.mode with
  | .reportMode =>
    { s with
      req := true
      queries := s.queries ++ [baseItems setup ++ reportItems setup.hashedHost s.report]
      report := {
        connectionsMax := -1, connectionsMinutes := 0, messagesReceived := 0, messagesSent := 0,
        ops := 0 } }
  | .checkMode => { s with req := true, queries := s.queries ++ [baseItems setup] }

/-- What `req_readyRead` reads of the request and its response. `body` is `none` unless the
body parses as a JSON object, and then `updates[0]`'s `version` and `link` (`""` when
missing) if `updates` is a list whose first element is an object. -/
structure Response where
  bytesAvailable : Nat
  isFinished : Bool
  responseCode : Nat
  body : Option (Option (String × String))
  now : Int
  deriving DecidableEq, Repr

def cleanupRequest (s : State) : State := { s with req := false }

def logDue (lastLogTime : Option Int) (now : Int) : Bool :=
  match lastLogTime with
  | none => true
  | some t => decide (now ≥ t + (checkInterval - reportInterval / 2))

def newVersionMessage (version link : String) : String :=
  let msg := "New version of Pushpin available! version=" ++ version
  if link.isEmpty then msg else msg ++ " " ++ link

def reqReadyRead (resp : Response) (s : State) : State :=
  if resp.bytesAvailable > maxResponseSize then cleanupRequest s
  else if !resp.isFinished then s
  else if resp.responseCode ≠ 200 then cleanupRequest s
  else
    let s := cleanupRequest s
    match resp.body with
    | some (some (version, link)) =>
      if !version.isEmpty && logDue s.lastLogTime resp.now then
        { s with
          lastLogTime := some resp.now
          logged := s.logged ++ [(resp.now, newVersionMessage version link)] }
      else s
    | _ => s

def reqError (s : State) : State := cleanupRequest s

def timerTimeout (setup : Setup) (s : State) : State :=
  if !s.req then doRequest setup s else s

inductive Event
  | setReport (report : Report)
  | timerTimeout
  | reqReadyRead (resp : Response)
  | reqError
  deriving DecidableEq, Repr

def step (setup : Setup) (s : State) : Event → Option State
  | .setReport r => some (setReport r s)
  | .timerTimeout => some (timerTimeout setup s)
  | .reqReadyRead resp => if s.req then some (reqReadyRead resp s) else none
  | .reqError => if s.req then some (reqError s) else none

def run (setup : Setup) : State → List Event → Option State
  | s, [] => some s
  | s, e :: es => (step setup s e).bind fun s' => run setup s' es

theorem run_induction {setup : Setup} {P : State → Prop}
    (hStep : ∀ {s s' e}, P s → step setup s e = some s' → P s') :
    ∀ {evs s s'}, P s → run setup s evs = some s' → P s'
  | [], _, _, hP, h => by cases h; exact hP
  | _ :: _, _, _, hP, h => by
    obtain ⟨t, ht, h⟩ := Option.bind_eq_some.1 h
    exact run_induction hStep (hStep hP ht) h

/-! ## What the report queries are for

The ledger keeps the `setReport` calls themselves: those not yet in a query, and for each
query sent, the calls it reports. -/

structure Ledger where
  pending : List Report
  inFlight : Bool
  sent : List (List Report)

def Ledger.init : Ledger := ⟨[], false, []⟩

def Response.ends (resp : Response) : Bool :=
  resp.bytesAvailable > maxResponseSize || resp.isFinished

def Ledger.step (l : Ledger) : Event → Option Ledger
  | .setReport r => some { l with pending := l.pending ++ [r] }
  | .timerTimeout => some (if l.inFlight then l else ⟨[], true, l.sent ++ [l.pending]⟩)
  | .reqReadyRead resp => if l.inFlight then some { l with inFlight := !resp.ends } else none
  | .reqError => if l.inFlight then some { l with inFlight := false } else none

def Ledger.run : Ledger → List Event → Option Ledger
  | l, [] => some l
  | l, e :: es => (l.step e).bind fun l' => Ledger.run l' es

def reportsOf : List Event → List Report
  | [] => []
  | .setReport r :: es => r :: reportsOf es
  | _ :: es => reportsOf es

def sumOf (field : Report → Int) (rs : List Report) : Int :=
  rs.foldl (fun acc r => acc + field r) 0

def cmaxOf (rs : List Report) : Int :=
  rs.foldl (fun m r => max m r.connectionsMax) 0

/-- The query a request should carry for the calls `rs`: each counter summed over them, and
their largest `connectionsMax` floored at 0. -/
def expectedQuery (setup : Setup) (rs : List Report) : List (String × String) :=
  baseItems setup ++
    [("id", setup.hashedHost), ("cmax", toString (cmaxOf rs)),
      ("cminutes", toString (sumOf (·.connectionsMinutes) rs)),
      ("recv", toString (sumOf (·.messagesReceived) rs)),
      ("sent", toString (sumOf (·.messagesSent) rs)),
      ("ops", toString (sumOf (·.ops) rs))]

theorem Ledger.step_reports {l l' : Ledger} {e : Event} (h : l.step e = some l') :
    l'.sent.flatten ++ l'.pending = l.sent.flatten ++ l.pending ++ reportsOf [e] := by
  cases e with
  | setReport r => cases h; simp [reportsOf]
  | timerTimeout =>
    cases h
    split <;> simp [reportsOf]
  | reqReadyRead resp =>
    dsimp only [Ledger.step] at h
    split at h <;> cases h
    simp [reportsOf]
  | reqError =>
    dsimp only [Ledger.step] at h
    split at h <;> cases h
    simp [reportsOf]

theorem reportsOf_cons (e : Event) (es : List Event) :
    reportsOf (e :: es) = reportsOf [e] ++ reportsOf es := by
  cases e <;> rfl

/-- No call is lost or counted twice: the calls the queries report, then the pending ones,
are the calls made. -/
theorem Ledger.run_reports {evs : List Event} {l l' : Ledger} (h : Ledger.run l evs = some l') :
    l'.sent.flatten ++ l'.pending = l.sent.flatten ++ l.pending ++ reportsOf evs := by
  induction evs generalizing l with
  | nil => cases h; simp [reportsOf]
  | cons e es ih =>
    obtain ⟨l₁, h₁, h⟩ := Option.bind_eq_some.1 h
    rw [ih h, Ledger.step_reports h₁, reportsOf_cons e es, List.append_assoc]

/-! ## The code keeps the ledger -/

/-- `report` holds the counters of the calls `rs`: each summed, and a `connectionsMax` that
is stale while there are none and otherwise has their largest as its floor at 0. -/
structure Tracks (report : Report) (rs : List Report) : Prop where
  stale : rs = [] → report.connectionsMax = -1
  cmax : max report.connectionsMax 0 = cmaxOf rs
  minutes : report.connectionsMinutes = sumOf (·.connectionsMinutes) rs
  received : report.messagesReceived = sumOf (·.messagesReceived) rs
  sent : report.messagesSent = sumOf (·.messagesSent) rs
  ops : report.ops = sumOf (·.ops) rs

structure Simulates (setup : Setup) (s : State) (l : Ledger) : Prop where
  req : s.req = l.inFlight
  queries : s.queries = l.sent.map (expectedQuery setup)
  report : Tracks s.report l.pending

@[simp]
theorem sumOf_append (field : Report → Int) (rs : List Report) (r : Report) :
    sumOf field (rs ++ [r]) = sumOf field rs + field r := by
  simp [sumOf, List.foldl_append]

@[simp]
theorem cmaxOf_nil : cmaxOf [] = 0 := rfl

@[simp]
theorem cmaxOf_append (rs : List Report) (r : Report) :
    cmaxOf (rs ++ [r]) = max (cmaxOf rs) r.connectionsMax := by
  simp [cmaxOf, List.foldl_append]

theorem tracks_stale : Tracks { connectionsMax := -1 } [] :=
  ⟨fun _ => rfl, rfl, rfl, rfl, rfl, rfl⟩

/-- The sentinel test in `setReport` keeps the largest `connectionsMax` up to its floor at 0:
a stale -1 is replaced whatever comes, and a real -1 is at most 0 anyway. -/
theorem Tracks.setReport_append {report r : Report} {rs : List Report} {s : State}
    (hT : Tracks report rs) (hR : s.report = report) :
    Tracks (setReport r s).report (rs ++ [r]) where
  stale h := absurd h (List.append_ne_nil_of_right_ne_nil rs (List.cons_ne_nil r []))
  cmax := by
    have hC := hT.cmax
    simp only [setReport, hR, cmaxOf_append]
    split
    · next h =>
      rcases h with h | h
      · rw [← hC, h]; omega
      · rw [← hC]; omega
    · next h =>
      push_neg at h
      rw [← hC]; omega
  minutes := by simp [setReport, hR, hT.minutes]
  received := by simp [setReport, hR, hT.received]
  sent := by simp [setReport, hR, hT.sent]
  ops := by simp [setReport, hR, hT.ops]

theorem reportItems_of_tracks {report : Report} {rs : List Report} (hT : Tracks report rs)
    (setup : Setup) :
    baseItems setup ++ reportItems setup.hashedHost report = expectedQuery setup rs := by
  have hC : (if report.connectionsMax > 0 then report.connectionsMax else 0) = cmaxOf rs := by
    rw [← hT.cmax]; split <;> omega
  simp only [reportItems, expectedQuery, hC, hT.minutes, hT.received, hT.sent, hT.ops]

theorem reqReadyRead_frame (resp : Response) (s : State) :
    (reqReadyRead resp s).report = s.report ∧ (reqReadyRead resp s).queries = s.queries ∧
      (reqReadyRead resp s).req = (s.req && !resp.ends) := by
  unfold reqReadyRead
  split_ifs with hBig hFin
  · simp [cleanupRequest, Response.ends, hBig]
  · simp_all [Response.ends]
  · simp_all [cleanupRequest, Response.ends]
  · dsimp only
    split
    · split <;> simp_all [cleanupRequest, Response.ends]
    · simp_all [cleanupRequest, Response.ends]

section Report

variable {setup : Setup} (hMode : setup.mode = .reportMode)
include hMode

theorem doRequest_simulates {s : State} {l : Ledger} (hS : Simulates setup s l) :
    Simulates setup (doRequest setup s) ⟨[], true, l.sent ++ [l.pending]⟩ where
  req := by simp [doRequest, hMode]
  queries := by
    simp [doRequest, hMode, hS.queries, reportItems_of_tracks hS.report]
  report := by simpa [doRequest, hMode] using tracks_stale

theorem step_simulates {s s' : State} {l : Ledger} {e : Event} (hS : Simulates setup s l)
    (h : step setup s e = some s') : ∃ l', l.step e = some l' ∧ Simulates setup s' l' := by
  cases e with
  | setReport r =>
    cases h
    exact ⟨_, rfl, ⟨hS.req, hS.queries, hS.report.setReport_append rfl⟩⟩
  | timerTimeout =>
    cases h
    refine ⟨_, rfl, ?_⟩
    unfold timerTimeout
    cases hR : s.req
    · simpa [hS.req.symm.trans hR] using doRequest_simulates hMode hS
    · simpa [hS.req.symm.trans hR] using hS
  | reqReadyRead resp =>
    dsimp only [step] at h
    split at h
    · next hR =>
      cases h
      obtain ⟨hRep, hQ, hReq⟩ := reqReadyRead_frame resp s
      refine ⟨{ l with inFlight := !resp.ends }, by simp [Ledger.step, ← hS.req, hR], ?_⟩
      exact ⟨by rw [hReq, hR]; rfl, hQ ▸ hS.queries, hRep ▸ hS.report⟩
    · cases h
  | reqError =>
    dsimp only [step] at h
    split at h
    · next hR =>
      cases h
      exact ⟨{ l with inFlight := false }, by simp [Ledger.step, ← hS.req, hR],
        ⟨rfl, hS.queries, hS.report⟩⟩
    · cases h

theorem run_simulates {evs : List Event} {s s' : State} {l : Ledger} (hS : Simulates setup s l)
    (h : run setup s evs = some s') :
    ∃ l', Ledger.run l evs = some l' ∧ Simulates setup s' l' := by
  induction evs generalizing s l with
  | nil => cases h; exact ⟨l, rfl, hS⟩
  | cons e es ih =>
    obtain ⟨t, ht, h⟩ := Option.bind_eq_some.1 h
    obtain ⟨l₁, hl₁, hS₁⟩ := step_simulates hMode hS ht
    obtain ⟨l', hl', hS'⟩ := ih hS₁ h
    exact ⟨l', by simp [Ledger.run, hl₁, hl'], hS'⟩

end Report

theorem init_simulates (setup : Setup) : Simulates setup init Ledger.init :=
  ⟨rfl, rfl, tracks_stale⟩

/-- In report mode every query carries, for exactly the `setReport` calls made since the
previous query (or since construction), each counter summed and the largest
`connectionsMax` floored at 0. The calls made since the last query are what a query built
now would carry, and the calls in the queries, then those, are all the calls made, each
once and in order: a tick while a request is in flight loses none. -/
theorem report_queries_count_each_call {setup : Setup} (hMode : setup.mode = .reportMode)
    {evs : List Event} {s : State} (h : run setup init evs = some s) :
    ∃ l, Ledger.run Ledger.init evs = some l ∧
      s.queries = l.sent.map (expectedQuery setup) ∧
      (doRequest setup s).queries = s.queries ++ [expectedQuery setup l.pending] ∧
      l.sent.flatten ++ l.pending = reportsOf evs ∧ s.req = l.inFlight := by
  obtain ⟨l, hl, hS⟩ := run_simulates hMode (init_simulates setup) h
  refine ⟨l, hl, hS.queries, ?_, by simpa [Ledger.init] using Ledger.run_reports hl, hS.req⟩
  simp [doRequest, hMode, reportItems_of_tracks hS.report]

def sampleSetup : Setup := ⟨.reportMode, "1.41.0", "", "linux", "64", "c0ffee"⟩

def sampleEvents : List Event :=
  [.setReport ⟨5, 10, 2, 3, 1⟩, .setReport ⟨-1, 4, 0, 1, 1⟩, .timerTimeout,
    .setReport ⟨7, 1, 1, 1, 1⟩, .timerTimeout]

theorem report_queries_sample :
    ∃ s, run sampleSetup init sampleEvents = some s ∧
      ∃ l, Ledger.run Ledger.init sampleEvents = some l ∧
        s.queries = l.sent.map (expectedQuery sampleSetup) ∧
        (doRequest sampleSetup s).queries = s.queries ++ [expectedQuery sampleSetup l.pending] ∧
        l.sent.flatten ++ l.pending = reportsOf sampleEvents ∧ s.req = l.inFlight :=
  ⟨_, rfl, report_queries_count_each_call rfl rfl⟩

/-! ## The new-version log is rate limited -/

/-- `lastLogTime` is the time of the last line logged, and the lines are at least
`CHECK_INTERVAL - REPORT_INTERVAL / 2` apart. -/
structure LogSpaced (s : State) : Prop where
  last : s.lastLogTime = s.logged.getLast?.map Prod.fst
  spaced : s.logged.Chain' fun a b => a.1 + (checkInterval - reportInterval / 2) ≤ b.1

theorem LogSpaced.of_eq {s t : State} (hL : LogSpaced s) (h₁ : t.lastLogTime = s.lastLogTime)
    (h₂ : t.logged = s.logged) : LogSpaced t :=
  ⟨by rw [h₁, h₂, hL.last], h₂ ▸ hL.spaced⟩

theorem reqReadyRead_log (resp : Response) (s : State) :
    ((reqReadyRead resp s).lastLogTime = s.lastLogTime ∧
        (reqReadyRead resp s).logged = s.logged) ∨
      (logDue s.lastLogTime resp.now = true ∧ (reqReadyRead resp s).lastLogTime = some resp.now ∧
        ∃ msg, (reqReadyRead resp s).logged = s.logged ++ [(resp.now, msg)]) := by
  unfold reqReadyRead
  split_ifs
  · exact .inl ⟨rfl, rfl⟩
  · exact .inl ⟨rfl, rfl⟩
  · exact .inl ⟨rfl, rfl⟩
  · dsimp only
    split
    · split
      · next hDue => exact .inr ⟨(Bool.and_eq_true _ _ ▸ hDue).2, rfl, _, rfl⟩
      · exact .inl ⟨rfl, rfl⟩
    · exact .inl ⟨rfl, rfl⟩

theorem LogSpaced.reqReadyRead {s : State} (hL : LogSpaced s) (resp : Response) :
    LogSpaced (reqReadyRead resp s) := by
  rcases reqReadyRead_log resp s with ⟨h₁, h₂⟩ | ⟨hDue, h₁, msg, h₂⟩
  · exact hL.of_eq h₁ h₂
  · refine ⟨by simp [h₁, h₂], ?_⟩
    rw [h₂, List.chain'_append]
    refine ⟨hL.spaced, List.chain'_singleton _, fun x hx y hy => ?_⟩
    obtain rfl : (resp.now, msg) = y := by simpa using hy
    have hLast : s.lastLogTime = some x.1 := by rw [hL.last, Option.mem_def.1 hx]; rfl
    simpa [logDue, hLast] using hDue

theorem doRequest_log (setup : Setup) (s : State) :
    (doRequest setup s).lastLogTime = s.lastLogTime ∧ (doRequest setup s).logged = s.logged := by
  unfold doRequest
  split <;> exact ⟨rfl, rfl⟩

theorem step_logSpaced {setup : Setup} {s s' : State} {e : Event} (hL : LogSpaced s)
    (h : step setup s e = some s') : LogSpaced s' := by
  cases e with
  | setReport r => cases h; exact hL.of_eq rfl rfl
  | timerTimeout =>
    cases h
    unfold timerTimeout
    split
    · exact hL.of_eq (doRequest_log setup s).1 (doRequest_log setup s).2
    · exact hL
  | reqReadyRead resp =>
    dsimp only [step] at h
    split at h <;> cases h
    exact hL.reqReadyRead resp
  | reqError =>
    dsimp only [step] at h
    split at h <;> cases h
    exact hL.of_eq rfl rfl

/-- Whatever the clock does, each new-version line comes at least
`CHECK_INTERVAL - REPORT_INTERVAL / 2` after the one before it. -/
theorem new_version_logs_spaced {setup : Setup} {evs : List Event} {s : State}
    (h : run setup init evs = some s) :
    s.logged.Chain' fun a b => a.1 + (checkInterval - reportInterval / 2) ≤ b.1 :=
  (run_induction step_logSpaced (⟨rfl, List.chain'_nil⟩ : LogSpaced init) h).spaced

def dailyChecks : List Event :=
  [.timerTimeout, .reqReadyRead ⟨10, true, 200, some (some ("1.42.0", "")), 0⟩,
    .timerTimeout, .reqReadyRead ⟨10, true, 200, some (some ("1.42.0", "notes")), 86400000⟩]

theorem new_version_logs_spaced_daily :
    ∃ s, run sampleSetup init dailyChecks = some s ∧ s.logged.length = 2 ∧
      s.logged.Chain' fun a b => a.1 + (checkInterval - reportInterval / 2) ≤ b.1 :=
  ⟨_, rfl, rfl, new_version_logs_spaced (show run sampleSetup init dailyChecks = _ from rfl)⟩

/-! ## One request at a time -/

def Event.endsRequest : Event → Bool
  | .reqReadyRead resp => resp.ends
  | .reqError => true
  | _ => false

theorem doRequest_starts (setup : Setup) (s : State) :
    (doRequest setup s).req = true ∧ (doRequest setup s).queries.length = s.queries.length + 1 := by
  unfold doRequest
  split <;> simp

theorem step_queries_length {setup : Setup} {s s' : State} {e : Event}
    (h : step setup s e = some s') :
    s'.queries.length + (if s.req then 1 else 0) =
      s.queries.length + (if e.endsRequest then 1 else 0) + (if s'.req then 1 else 0) := by
  cases e with
  | setReport r => cases h; simp [setReport, Event.endsRequest]
  | timerTimeout =>
    cases h
    cases hR : s.req
    · simp [timerTimeout, hR, doRequest_starts, Event.endsRequest]
    · simp [timerTimeout, hR, Event.endsRequest]
  | reqReadyRead resp =>
    simp only [step] at h
    split at h
    · next hR =>
      cases h
      obtain ⟨-, hQ, hReq⟩ := reqReadyRead_frame resp s
      rw [hQ, hReq, hR]
      cases hE : resp.ends <;> simp [Event.endsRequest, hE]
    · cases h
  | reqError =>
    simp only [step] at h
    split at h
    · next hR => cases h; simp [reqError, cleanupRequest, hR, Event.endsRequest]
    · cases h

theorem run_queries_length {setup : Setup} {evs : List Event} {s₀ s : State}
    (h : run setup s₀ evs = some s) :
    s.queries.length + (if s₀.req then 1 else 0) =
      s₀.queries.length + evs.countP Event.endsRequest + (if s.req then 1 else 0) := by
  induction evs generalizing s₀ with
  | nil => cases h; simp
  | cons e es ih =>
    obtain ⟨t, ht, h⟩ := Option.bind_eq_some.1 h
    have h₁ := step_queries_length ht
    have h₂ := ih h
    rw [List.countP_cons]
    omega

/-- Requests never overlap and none is lost: in every run, in either mode, each query sent
belongs to a request that an error or a response ended, except the one still in flight. A
tick while a request is in flight starts none. -/
theorem requests_end_one_at_a_time {setup : Setup} {evs : List Event} {s : State}
    (h : run setup init evs = some s) :
    s.queries.length = evs.countP Event.endsRequest + if s.req then 1 else 0 := by
  simpa [init] using run_queries_length h

def requestRounds : List Event :=
  [.timerTimeout, .reqReadyRead ⟨10, false, 200, none, 0⟩, .timerTimeout,
    .reqReadyRead ⟨10, true, 200, none, 1⟩, .timerTimeout, .timerTimeout, .reqError, .timerTimeout]

theorem requests_end_one_at_a_time_rounds :
    ∃ s, run sampleSetup init requestRounds = some s ∧ s.queries.length = 3 ∧
      s.queries.length = requestRounds.countP Event.endsRequest + if s.req then 1 else 0 :=
  ⟨_, rfl, rfl, requests_end_one_at_a_time (show run sampleSetup init requestRounds = _ from rfl)⟩

end Pushpin.Updater
