import Mathlib.Data.List.GetD
import Pushpin.Core.QtText

/-! # Per-worker engine configurations

`App::Private::run` fills one `Engine::Configuration`; `runLoop` copies it for every
worker `n`, sets `id = n`, and with more than one worker also suffixes the client id
with `-n` and passes ten endpoint specs through `suffixSpec` / `suffixSpecs`
(src/proxy/app.cpp). `suffixSpecs` suffixes a list only when it holds exactly one
`ipc:` spec: a list of two IPC specs reaches every worker unchanged.
-/

namespace Pushpin.WorkerConfig
open Pushpin.QtText
set_option autoImplicit false

structure XffRule where
  truncate : Int
  append : Bool
  deriving Inhabited

structure JwtKeyConfig where
  configString : String
  configDir : String
  deriving Inhabited

/-- `Engine::Configuration`, with the fields `run` and `runLoop` assign. `QByteArray` fields
hold ASCII text and are kept as `String`. -/
structure Configuration where
  id : Int
  appVersion : String
  clientId : String
  serverInSpecs : List String
  serverInStreamSpecs : List String
  serverOutSpecs : List String
  clientOutSpecs : List String
  clientOutStreamSpecs : List String
  clientInSpecs : List String
  inspectSpec : String
  acceptSpec : String
  retryInSpec : String
  wsControlInitSpecs : List String
  wsControlStreamSpecs : List String
  statsSpec : String
  commandSpec : String
  intServerInSpecs : List String
  intServerInStreamSpecs : List String
  intServerOutSpecs : List String
  ipcFileMode : Int
  sessionsMax : Int
  debug : Bool
  autoCrossOrigin : Bool
  acceptXForwardedProto : Bool
  setXForwardedProto : Bool
  setXForwardedProtocol : Bool
  xffUntrustedRule : XffRule
  xffTrustedRule : XffRule
  origHeadersNeedMark : List String
  acceptPushpinRoute : Bool
  cdnLoop : String
  logFrom : Bool
  logUserAgent : Bool
  sigIss : String
  sigKey : JwtKeyConfig
  upstreamKey : JwtKeyConfig
  sockJsUrl : String
  updatesCheck : String
  organizationName : String
  quietCheck : Bool
  statsConnectionSend : Bool
  statsConnectionTtl : Int
  statsConnectionsMaxTtl : Int
  statsReportInterval : Int
  prometheusPort : String
  prometheusPrefix : String
  deriving Inhabited

def suffixSpec (s : String) (i : Nat) : String :=
  if hasPrefix s "ipc:" then s ++ "-" ++ toString i else s

/-- `suffixSpecs(l, i)`: only a one-element list whose spec is `ipc:` is suffixed. -/
def suffixSpecs (l : List String) (i : Nat) : List String :=
  if l.length = 1 ∧ hasPrefix (l.getD 0 "") "ipc:" then [l.getD 0 "" ++ "-" ++ toString i] else l

/-- The body of `runLoop`'s startup loop up to `new EngineThread`: worker `n`'s configuration. -/
def workerConfiguration (config : Configuration) (workerCount : Int) (n : Nat) : Configuration :=
  let wconfig := { config with id := n }
  if workerCount > 1 then
    { wconfig with
      clientId := wconfig.clientId ++ "-" ++ toString n
      inspectSpec := suffixSpec wconfig.inspectSpec n
      acceptSpec := suffixSpec wconfig.acceptSpec n
      retryInSpec := suffixSpec wconfig.retryInSpec n
      wsControlInitSpecs := suffixSpecs wconfig.wsControlInitSpecs n
      wsControlStreamSpecs := suffixSpecs wconfig.wsControlStreamSpecs n
      statsSpec := suffixSpec wconfig.statsSpec n
      commandSpec := suffixSpec wconfig.commandSpec n
      intServerInSpecs := suffixSpecs wconfig.intServerInSpecs n
      intServerInStreamSpecs := suffixSpecs wconfig.intServerInStreamSpecs n
      intServerOutSpecs := suffixSpecs wconfig.intServerOutSpecs n }
  else wconfig

def specFields (c : Configuration) : List (List String) :=
  [[c.inspectSpec], [c.acceptSpec], [c.retryInSpec], c.wsControlInitSpecs, c.wsControlStreamSpecs,
    [c.statsSpec], [c.commandSpec], c.intServerInSpecs, c.intServerInStreamSpecs, c.intServerOutSpecs]

/-- The endpoint specs that stand alone in their field: the ones `runLoop` can make per-worker. -/
def suffixableSpecs (c : Configuration) : List String :=
  ((specFields c).filter (·.length = 1)).flatten

def restoreBase (base w : Configuration) : Configuration :=
  { w with
    id := base.id, clientId := base.clientId, inspectSpec := base.inspectSpec,
    acceptSpec := base.acceptSpec, retryInSpec := base.retryInSpec,
    wsControlInitSpecs := base.wsControlInitSpecs, wsControlStreamSpecs := base.wsControlStreamSpecs,
    statsSpec := base.statsSpec, commandSpec := base.commandSpec,
    intServerInSpecs := base.intServerInSpecs, intServerInStreamSpecs := base.intServerInStreamSpecs,
    intServerOutSpecs := base.intServerOutSpecs }

def listFields (c : Configuration) : List (List String) :=
  [c.serverInSpecs, c.serverInStreamSpecs, c.serverOutSpecs, c.clientOutSpecs,
    c.clientOutStreamSpecs, c.clientInSpecs, c.wsControlInitSpecs, c.wsControlStreamSpecs,
    c.intServerInSpecs, c.intServerInStreamSpecs, c.intServerOutSpecs, c.origHeadersNeedMark]

theorem suffixSpecs_singleton (s : String) (i : Nat) : suffixSpecs [s] i = [suffixSpec s i] := by
  by_cases h : hasPrefix s "ipc:" <;> simp [suffixSpecs, suffixSpec, h]

theorem suffixSpecs_of_length_ne {l : List String} (i : Nat) (h : l.length ≠ 1) :
    suffixSpecs l i = l := by
  simp [suffixSpecs, h]

theorem length_suffixSpecs (l : List String) (i : Nat) : (suffixSpecs l i).length = l.length := by
  unfold suffixSpecs
  split
  · simp_all
  · rfl

theorem ipc_of_mem_suffixSpecs {l : List String} {i : Nat} {s : String} (hl : l.length = 1)
    (hs : s ∈ suffixSpecs l i) (hIpc : hasPrefix s "ipc:") : ∃ b, s = b ++ "-" ++ toString i := by
  obtain ⟨x, rfl⟩ := List.length_eq_one.mp hl
  rw [suffixSpecs_singleton, List.mem_singleton] at hs
  subst hs
  unfold suffixSpec at hIpc ⊢
  split
  · exact ⟨x, rfl⟩
  · simp_all

theorem workerConfiguration_single (c : Configuration) (W : Int) (n : Nat) (hW : ¬ W > 1) :
    workerConfiguration c W n = { c with id := n } := by
  simp [workerConfiguration, hW]

theorem specFields_workerConfiguration (c : Configuration) (W : Int) (n : Nat) (hW : W > 1) :
    specFields (workerConfiguration c W n) = (specFields c).map (suffixSpecs · n) := by
  simp [workerConfiguration, hW, specFields, suffixSpecs_singleton]

theorem getD_specFields_workerConfiguration (c : Configuration) (W : Int) (n : Nat) (hW : W > 1)
    (i : Nat) :
    (specFields (workerConfiguration c W n)).getD i [] = suffixSpecs ((specFields c).getD i []) n := by
  rw [specFields_workerConfiguration c W n hW]
  calc ((specFields c).map (suffixSpecs · n)).getD i []
      = ((specFields c).map (suffixSpecs · n)).getD i (suffixSpecs [] n) := rfl
    _ = suffixSpecs ((specFields c).getD i []) n := List.getD_map _ [] _

theorem clientId_workerConfiguration (c : Configuration) (W : Int) (n : Nat) (hW : W > 1) :
    (workerConfiguration c W n).clientId = c.clientId ++ "-" ++ toString n := by
  simp [workerConfiguration, hW]

theorem id_workerConfiguration (c : Configuration) (W : Int) (n : Nat) :
    (workerConfiguration c W n).id = n := by
  unfold workerConfiguration; split <;> rfl

theorem restoreBase_workerConfiguration (c : Configuration) (W : Int) (n : Nat) :
    restoreBase c (workerConfiguration c W n) = c := by
  unfold workerConfiguration; split <;> rfl

theorem empty_not_mem_suffixSpecs {l : List String} (h : "" ∉ l) (i : Nat) :
    "" ∉ suffixSpecs l i := by
  unfold suffixSpecs
  split
  · simp only [List.mem_singleton]
    intro hc
    have hData := congrArg String.data hc
    simp at hData
  · exact h

theorem listFields_workerConfiguration {c : Configuration} {W : Int} {n : Nat}
    (h : ∀ l ∈ listFields c, "" ∉ l) : ∀ l ∈ listFields (workerConfiguration c W n), "" ∉ l := by
  simp only [listFields, List.forall_mem_cons, List.not_mem_nil, false_implies, implies_true,
    and_true] at h ⊢
  obtain ⟨h1, h2, h3, h4, h5, h6, h7, h8, h9, h10, h11, h12⟩ := h
  unfold workerConfiguration
  split
  · exact ⟨h1, h2, h3, h4, h5, h6, empty_not_mem_suffixSpecs h7 n, empty_not_mem_suffixSpecs h8 n,
      empty_not_mem_suffixSpecs h9 n, empty_not_mem_suffixSpecs h10 n,
      empty_not_mem_suffixSpecs h11 n, h12⟩
  · exact ⟨h1, h2, h3, h4, h5, h6, h7, h8, h9, h10, h11, h12⟩

theorem ipc_suffixable_workerConfiguration {c : Configuration} {W : Int} {n : Nat} {s : String}
    (hW : W > 1) (hs : s ∈ suffixableSpecs (workerConfiguration c W n)) (hIpc : hasPrefix s "ipc:") :
    ∃ b, s = b ++ "-" ++ toString n := by
  simp only [suffixableSpecs, specFields_workerConfiguration c W n hW, List.mem_flatten,
    List.mem_filter, List.mem_map, decide_eq_true_eq] at hs
  obtain ⟨_, ⟨⟨l, _, rfl⟩, hLen⟩, hMem⟩ := hs
  exact ipc_of_mem_suffixSpecs (by rwa [length_suffixSpecs] at hLen) hMem hIpc

/-- With two or more workers, worker `n` gets id `n` and a client id of its own, and keeps every
other field of the base except the ten endpoint specs. A spec `b` standing alone in its field
becomes `b-n` when it is an `ipc:` spec and stays `b` otherwise, so no standalone IPC spec is
shared by two workers; a spec list of any other length reaches every worker unchanged. -/
theorem workerConfiguration_per_worker (c : Configuration) (W : Int) (hW : 2 ≤ W) (n m : Nat)
    (hnm : n ≠ m) :
    (workerConfiguration c W n).id = n ∧
    (workerConfiguration c W n).clientId ≠ (workerConfiguration c W m).clientId ∧
    restoreBase c (workerConfiguration c W n) = c ∧
    (∀ i b, (specFields c).getD i [] = [b] →
      (specFields (workerConfiguration c W n)).getD i [] =
        [if hasPrefix b "ipc:" then b ++ "-" ++ toString n else b]) ∧
    (∀ s ∈ suffixableSpecs (workerConfiguration c W n), hasPrefix s "ipc:" →
      s ∉ suffixableSpecs (workerConfiguration c W m)) ∧
    (∀ i, ((specFields c).getD i []).length ≠ 1 →
      (specFields (workerConfiguration c W n)).getD i [] = (specFields c).getD i []) := by
  have hW1 : W > 1 := by omega
  refine ⟨id_workerConfiguration c W n, ?_, restoreBase_workerConfiguration c W n, ?_, ?_, ?_⟩
  · rw [clientId_workerConfiguration c W n hW1, clientId_workerConfiguration c W m hW1]
    exact fun h => hnm (dash_suffix_injective h)
  · intro i b hb
    rw [getD_specFields_workerConfiguration c W n hW1, hb, suffixSpecs_singleton, suffixSpec]
  · intro s hs hIpc hs'
    obtain ⟨b, rfl⟩ := ipc_suffixable_workerConfiguration hW1 hs hIpc
    obtain ⟨b', hb'⟩ := ipc_suffixable_workerConfiguration hW1 hs' hIpc
    exact hnm (dash_suffix_injective hb')
  · intro i hLen
    rw [getD_specFields_workerConfiguration c W n hW1, suffixSpecs_of_length_ne n hLen]

def ipcEndpoints : Configuration :=
  { (default : Configuration) with
    inspectSpec := "ipc:inspect", wsControlInitSpecs := ["ipc:ws-control-init"]
    intServerInSpecs := ["ipc:a", "ipc:b"] }

theorem workerConfiguration_per_worker_two :
    2 ≤ (2 : Int) ∧ (0 : Nat) ≠ 1 ∧
      ((workerConfiguration ipcEndpoints 2 0).id = (0 : Nat) ∧
      (workerConfiguration ipcEndpoints 2 0).clientId ≠ (workerConfiguration ipcEndpoints 2 1).clientId ∧
      restoreBase ipcEndpoints (workerConfiguration ipcEndpoints 2 0) = ipcEndpoints ∧
      (∀ i b, (specFields ipcEndpoints).getD i [] = [b] →
        (specFields (workerConfiguration ipcEndpoints 2 0)).getD i [] =
          [if hasPrefix b "ipc:" then b ++ "-" ++ toString 0 else b]) ∧
      (∀ s ∈ suffixableSpecs (workerConfiguration ipcEndpoints 2 0), hasPrefix s "ipc:" →
        s ∉ suffixableSpecs (workerConfiguration ipcEndpoints 2 1)) ∧
      (∀ i, ((specFields ipcEndpoints).getD i []).length ≠ 1 →
        (specFields (workerConfiguration ipcEndpoints 2 0)).getD i [] =
          (specFields ipcEndpoints).getD i [])) :=
  ⟨by decide, by decide, workerConfiguration_per_worker ipcEndpoints 2 (by decide) 0 1 (by decide)⟩

def twoIpcControlSpecs : Configuration := { (default : Configuration) with wsControlInitSpecs := ["ipc:a", "ipc:b"] }

/-- With two workers, both get the endpoint `ipc:a`: `suffixSpecs` leaves a two-element list alone. -/
theorem ipc_spec_shared_by_two_workers :
    ¬ ∀ (c : Configuration) (W : Int), 2 ≤ W → ∀ n m : Nat, n ≠ m →
      ∀ s ∈ (specFields (workerConfiguration c W n)).flatten, hasPrefix s "ipc:" →
        s ∉ (specFields (workerConfiguration c W m)).flatten := by
  intro h
  exact h twoIpcControlSpecs 2 (by decide) 0 1 (by decide) "ipc:a" (by decide) (by decide) (by decide)

end Pushpin.WorkerConfig
