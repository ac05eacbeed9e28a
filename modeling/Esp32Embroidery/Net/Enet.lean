import Esp32Embroidery.Lib.Machine
import Esp32Embroidery.Net.Services

/-!
# The Ethernet driver (`main/enet.c`)

The handlers of the link and the address events, `start_services` and `get_info`. The events
are handled one after the other in the event task, and `get_info` runs in any other task: it
tests `network_status.link_up` and reads the address through `ip_info` later. The handlers
of the link events change both variables, one after the other.

Main results:

* `enet_reads_address_iff`: along any run, no call of `get_info` reads through `NULL` iff
  each one reads behind an event that brought an address.
* `enet_whole_calls_safe`: calls that do not overlap with a link event are safe with a static
  address, and with DHCP if the lease is there when they find the link up.
* `enet_dhcp_null_read`: a call between the link and the lease.
-/

namespace Esp32Embroidery.Net

open Esp32Embroidery.Lib

/-! ## Model -/

/-- The values of `network.ip_mode`. -/
inductive IpMode
  | static
  | dhcp
  | autoIp
  deriving DecidableEq

/-- `network`, as far as the handlers read it. -/
structure EnetSettings extends NetworkSettings where
  ipMode : IpMode
  ip : BitVec 32

/-- Where the event task is inside `eth_event_handler`. -/
inductive EnetHandler
  | idle
  | connected
  | disconnected
  deriving DecidableEq

/-- The steps of the driver: a link event up to the first of its two writes and the rest of
    it, `IP_EVENT_ETH_GOT_IP`, an enqueued `start_services`, a timeout, and a call of
    `get_info` up to its test of the link and its read of the address. -/
inductive EnetEvent
  | connected
  | connectedEnd
  | disconnected
  | disconnectedEnd
  | gotIp (ip : BitVec 32) (ok : Service → Bool)
  | task (ok : Service → Bool)
  | timer
  | query
  | read

/-- The static variables, the enqueued calls of `start_services`, the calls of `get_info` that
    found the link up and, as a ghost, the events so far, newest first. -/
structure Enet where
  daemons : Daemons
  networkStatus : NetworkFlags
  ipInfo : Option (BitVec 32)
  handler : EnetHandler
  tasks : ℕ
  queries : ℕ
  published : List StatusEvent
  history : List EnetEvent

namespace Enet

/-- After `enet_start`. -/
def boot : Enet where
  daemons := .off
  networkStatus := { interfaceUp := true }
  ipInfo := none
  handler := .idle
  tasks := 0
  queries := 0
  published := []
  history := []

/-- `status_event_publish` -/
def publish (changed : NetworkFlags) (s : Enet) : Enet :=
  { s with published := s.published ++ [⟨.eth, changed, s.networkStatus⟩] }

/-- `start_services` (lines 249–275) without the timeout and the status. -/
def startDaemons (build : Build) (network : NetworkSettings) (ok : Service → Bool)
    (s : Daemons) : Daemons :=
  let s := s.start build network ok .telnet
  let s := s.start build network ok .websocket
  let s := s.start build network ok .ftp
  s.start build network ok .http

/-- The address is acquired (lines 271–274). -/
def acquire (s : Enet) : Enet :=
  if s.networkStatus.ipAquired then s
  else publish { ipAquired := true }
    { s with networkStatus := { s.networkStatus with ipAquired := true } }

/-- `start_services` (lines 249–275). -/
def startServices (build : Build) (network : NetworkSettings) (ok : Service → Bool) (s : Enet) :
    Enet :=
  { s with daemons := (startDaemons build network ok s.daemons).addTimeout build }.acquire

/-- `case ETHERNET_EVENT_CONNECTED` up to `network_status.link_up = On` (lines 282–284). -/
def connected (s : Enet) : Enet :=
  { s with
    networkStatus := { s.networkStatus with linkUp := true }
    handler := .connected }

/-- `case ETHERNET_EVENT_CONNECTED` from there (lines 285–297). -/
def connectedEnd (network : EnetSettings) (s : Enet) : Enet :=
  let s :=
    if network.ipMode ≠ .dhcp then { s with ipInfo := some network.ip, tasks := s.tasks + 1 }
    else s
  publish { linkUp := true } { s with handler := .idle }

/-- `case ETHERNET_EVENT_DISCONNECTED` up to `ip_info = NULL` (line 300). -/
def disconnected (s : Enet) : Enet := { s with ipInfo := none, handler := .disconnected }

/-- `case ETHERNET_EVENT_DISCONNECTED` from there (lines 301–303). -/
def disconnectedEnd (s : Enet) : Enet :=
  publish { linkUp := true }
    { s with networkStatus := { s.networkStatus with linkUp := false }, handler := .idle }

/-- `got_ip_event_handler` (lines 317–325). -/
def gotIp (build : Build) (network : NetworkSettings) (ip : BitVec 32) (ok : Service → Bool)
    (s : Enet) : Enet :=
  { s with ipInfo := some ip }.startServices build network ok

/-- `get_info` up to `if(network_status.link_up)` (lines 148–169), with a default netif. -/
def query (s : Enet) : Enet :=
  if s.networkStatus.linkUp then { s with queries := s.queries + 1 } else s

/-- Both tasks are where the event can happen. -/
def Enabled (s : Enet) : EnetEvent → Prop
  | .connected | .disconnected | .gotIp _ _ => s.handler = .idle
  | .connectedEnd => s.handler = .connected
  | .disconnectedEnd => s.handler = .disconnected
  | .task _ => s.tasks ≠ 0
  | .timer => s.daemons.timeouts ≠ 0
  | .query => True
  | .read => s.queries ≠ 0

instance (s : Enet) : ∀ event, Decidable (s.Enabled event)
  | .connected | .disconnected | .gotIp _ _ | .connectedEnd | .disconnectedEnd =>
    inferInstanceAs (Decidable (s.handler = _))
  | .task _ | .timer | .read => inferInstanceAs (Decidable (_ ≠ _))
  | .query => .isTrue trivial

def after (build : Build) (network : EnetSettings) (s : Enet) : EnetEvent → Enet
  | .connected => s.connected
  | .connectedEnd => s.connectedEnd network
  | .disconnected => s.disconnected
  | .disconnectedEnd => s.disconnectedEnd
  | .gotIp ip ok => s.gotIp build network.toNetworkSettings ip ok
  | .task ok =>
    { s with tasks := s.tasks - 1 }.startServices build network.toNetworkSettings ok
  | .timer => { s with daemons := s.daemons.lwIPHostTimerHandler }
  | .query => s.query
  | .read => { s with queries := s.queries - 1 }

end Enet

/-- The driver of a build, from `ip_info = NULL` and the link down. -/
def enet (build : Build) (network : EnetSettings) : Machine Enet EnetEvent where
  init := .boot
  step s event :=
    if s.Enabled event then some { s.after build network event with history := event :: s.history }
    else none

theorem enet_step_eq {build : Build} {network : EnetSettings} {s t : Enet} {event : EnetEvent}
    (hst : (enet build network).step s event = some t) :
    s.Enabled event ∧ t = { s.after build network event with history := event :: s.history } := by
  obtain ⟨henabled, ht⟩ := Option.ite_none_right_eq_some.1 hst
  exact ⟨henabled, (Option.some.inj ht).symm⟩

/-! ## The address -/

/-- After these events, newest first: an address has come since the last disconnect, by
    `IP_EVENT_ETH_GOT_IP` or, unless it is to come by DHCP, by the rest of
    `ETHERNET_EVENT_CONNECTED`. -/
def addressed (ipMode : IpMode) : List EnetEvent → Bool
  | [] => false
  | .gotIp _ _ :: _ => true
  | .disconnected :: _ => false
  | .connectedEnd :: events => ipMode ≠ .dhcp || addressed ipMode events
  | _ :: events => addressed ipMode events

section

variable {build : Build} {network : EnetSettings} {ok : Service → Bool} {s t : Enet}
  {event : EnetEvent}

theorem Enet.ipInfo_startServices {network : NetworkSettings} :
    (s.startServices build network ok).ipInfo = s.ipInfo := by
  unfold startServices acquire
  split_ifs <;> rfl

/-- `ip_info` is set exactly by the events that bring an address. -/
theorem addressed_step (h : s.ipInfo.isSome = addressed network.ipMode s.history)
    (hst : (enet build network).step s event = some t) :
    t.ipInfo.isSome = addressed network.ipMode t.history := by
  obtain ⟨_, rfl⟩ := enet_step_eq hst
  cases event with
  | connectedEnd =>
    show (s.connectedEnd network).ipInfo.isSome =
      (decide (network.ipMode ≠ .dhcp) || addressed network.ipMode s.history)
    unfold Enet.connectedEnd
    by_cases hmode : network.ipMode = .dhcp
    · rw [if_neg (not_not.2 hmode), decide_eq_false (not_not.2 hmode), Bool.false_or, ← h]
      rfl
    · rw [if_pos hmode, decide_eq_true hmode, Bool.true_or]
      rfl
  | gotIp ip ok => exact congrArg Option.isSome Enet.ipInfo_startServices
  | task ok => exact (congrArg Option.isSome Enet.ipInfo_startServices).trans h
  | query =>
    refine Eq.trans ?_ h
    show s.query.ipInfo.isSome = _
    unfold Enet.query
    split_ifs <;> rfl
  | disconnected => rfl
  | connected | disconnectedEnd | timer | read => exact h

end

/-! ## Main results -/

/-- `get_info` does not read through `NULL`. -/
def ReadsAddress (s : Enet) : EnetEvent → Prop
  | .read => s.ipInfo.isSome = true
  | _ => True

/-- The condition: an address has come since the last disconnect when `get_info` reads. -/
def ReadsBehindAddress (network : EnetSettings) (s : Enet) : EnetEvent → Prop
  | .read => addressed network.ipMode s.history = true
  | _ => True

instance (s : Enet) : ∀ event, Decidable (ReadsAddress s event)
  | .read => inferInstanceAs (Decidable (_ = _))
  | .connected | .connectedEnd | .disconnected | .disconnectedEnd | .gotIp _ _ | .task _ |
    .timer | .query => .isTrue trivial

/-- For every build, mode and order of the steps of the event task, the other tasks and
    `get_info`: no read goes through `NULL` iff at each read an address has come since the
    last disconnect. -/
theorem enet_reads_address_iff (build : Build) (network : EnetSettings)
    (events : List EnetEvent) :
    (enet build network).Along (fun s event _ => ReadsAddress s event) (enet build network).init
        events ↔
      (enet build network).Along (fun s event _ => ReadsBehindAddress network s event)
        (enet build network).init events := by
  refine Machine.along_congr
    (I := fun s => s.ipInfo.isSome = addressed network.ipMode s.history)
    (fun s event _ t hs hst => ⟨?_, fun _ => addressed_step hs hst⟩) rfl
  cases event with
  | read =>
    show s.ipInfo.isSome = true ↔ _
    rw [hs]
    rfl
  | _ => exact Iff.rfl

/-- With DHCP, `get_info` is called when the link is up and the lease is not there yet. -/
theorem enet_dhcp_null_read :
    let driver := enet {.telnet} ⟨⟨{.telnet}, ""⟩, .dhcp, 0⟩
    ¬driver.Along (fun s event _ => ReadsAddress s event) driver.init
      [.connected, .connectedEnd, .query, .read] := by
  decide

/-- No link event begins during a call of `get_info` and no call begins during a link event,
    and with DHCP a call that finds the link up comes behind the lease. -/
def WholeCall (network : EnetSettings) (s : Enet) : EnetEvent → Prop
  | .connected | .disconnected => s.queries = 0
  | .query => s.handler = .idle ∧ (s.networkStatus.linkUp = true → network.ipMode = .dhcp →
      addressed network.ipMode s.history = true)
  | _ => True

/-- What such calls keep. -/
structure CallInv (network : EnetSettings) (s : Enet) : Prop where
  address : s.ipInfo.isSome = addressed network.ipMode s.history
  queries : s.queries ≠ 0 → s.ipInfo.isSome = true
  handler : s.handler ≠ .idle → s.queries = 0
  link : network.ipMode ≠ .dhcp → s.handler = .idle → s.networkStatus.linkUp = true →
    s.ipInfo.isSome = true

theorem Enet.link_startServices (build : Build) (network : NetworkSettings)
    (ok : Service → Bool) (s : Enet) :
    (s.startServices build network ok).handler = s.handler ∧
      (s.startServices build network ok).queries = s.queries ∧
      (s.startServices build network ok).networkStatus.linkUp = s.networkStatus.linkUp := by
  unfold startServices acquire
  split_ifs <;> exact ⟨rfl, rfl, rfl⟩

/-- The invariant is about the address, the handler, the calls and the link. -/
theorem CallInv.congr {network : EnetSettings} {s t : Enet} (h : CallInv network s)
    (haddress : t.ipInfo.isSome = addressed network.ipMode t.history)
    (hip : t.ipInfo = s.ipInfo) (hlink : t.handler = s.handler ∧ t.queries = s.queries ∧
      t.networkStatus.linkUp = s.networkStatus.linkUp) : CallInv network t := by
  obtain ⟨hhandler, hqueries, hup⟩ := hlink
  refine ⟨haddress, ?_, ?_, ?_⟩
  · rw [hqueries, hip]
    exact h.queries
  · rw [hhandler, hqueries]
    exact h.handler
  · rw [hhandler, hup, hip]
    exact h.link

/-- While the address is there and the event task is idle, calls do no harm. -/
theorem CallInv.of_set {network : EnetSettings} {s : Enet}
    (haddress : s.ipInfo.isSome = addressed network.ipMode s.history)
    (hset : s.ipInfo.isSome = true) (hidle : s.handler = .idle) : CallInv network s :=
  ⟨haddress, fun _ => hset, fun hbusy => absurd hidle hbusy, fun _ _ _ => hset⟩

theorem callInv_step {build : Build} {network : EnetSettings} {s t : Enet} {event : EnetEvent}
    (h : CallInv network s) (hst : (enet build network).step s event = some t)
    (hwhole : WholeCall network s event) : CallInv network t := by
  have haddress := addressed_step h.address hst
  obtain ⟨henabled, rfl⟩ := enet_step_eq hst
  cases event with
  | connected =>
    exact ⟨haddress, h.queries, fun _ => hwhole, fun _ hidle => by cases hidle⟩
  | connectedEnd =>
    have hbusy : s.handler ≠ .idle := by
      rw [show s.handler = .connected from henabled]
      exact EnetHandler.noConfusion
    have hqueries : (s.connectedEnd network).queries = 0 := by
      refine Eq.trans ?_ (h.handler hbusy)
      unfold Enet.connectedEnd
      split_ifs <;> rfl
    refine ⟨haddress, fun hne => absurd hqueries hne, fun _ => hqueries, fun hmode _ _ => ?_⟩
    rw [haddress]
    show (decide (network.ipMode ≠ .dhcp) || addressed network.ipMode s.history) = true
    rw [decide_eq_true hmode, Bool.true_or]
  | disconnected =>
    refine ⟨haddress, fun hne => absurd hwhole hne, fun _ => hwhole, fun _ hidle => ?_⟩
    cases hidle
  | disconnectedEnd =>
    have hbusy : s.handler ≠ .idle := by
      rw [show s.handler = .disconnected from henabled]
      exact EnetHandler.noConfusion
    have hqueries : s.queries = 0 := h.handler hbusy
    refine ⟨haddress, fun hne => absurd hqueries hne, fun _ => hqueries, fun _ _ hlink => ?_⟩
    cases hlink
  | gotIp ip ok =>
    have hlink := Enet.link_startServices build network.toNetworkSettings ok
      { s with ipInfo := some ip }
    exact CallInv.of_set haddress haddress (hlink.1.trans henabled)
  | task ok =>
    exact h.congr haddress Enet.ipInfo_startServices
      (Enet.link_startServices build network.toNetworkSettings ok { s with tasks := s.tasks - 1 })
  | timer => exact h.congr haddress rfl ⟨rfl, rfl, rfl⟩
  | query =>
    obtain ⟨hidle, hlease⟩ := hwhole
    by_cases hup : s.networkStatus.linkUp = true
    · have hset : s.ipInfo.isSome = true := by
        by_cases hmode : network.ipMode = .dhcp
        · exact h.address.trans (hlease hup hmode)
        · exact h.link hmode hidle hup
      have hquery : s.query = { s with queries := s.queries + 1 } := if_pos hup
      show CallInv network { s.query with history := _ }
      rw [hquery]
      exact CallInv.of_set h.address hset hidle
    · have hquery : s.query = s := if_neg hup
      show CallInv network { s.query with history := _ }
      rw [hquery]
      exact h.congr h.address rfl ⟨rfl, rfl, rfl⟩
  | read =>
    refine ⟨haddress, fun hne => h.queries fun hzero => hne ?_, fun hbusy => ?_, h.link⟩
    · show s.queries - 1 = 0
      omega
    · have hzero := h.handler hbusy
      show s.queries - 1 = 0
      omega

/-- In every run of such calls the address is there when `get_info` reads it. -/
theorem enet_whole_calls_safe {build : Build} {network : EnetSettings} {s : Enet}
    (h : (enet build network).ReachableBy (fun s event _ => WholeCall network s event) s)
    (hquery : s.queries ≠ 0) : s.ipInfo.isSome = true := by
  have hinv : CallInv network s := by
    refine h.invariant (I := CallInv network) ?_ fun s event t _ hs hst hwhole =>
      callInv_step hs hst hwhole
    refine ⟨rfl, fun hne => absurd rfl hne, fun hbusy => absurd rfl hbusy, fun _ _ hup => ?_⟩
    cases hup
  exact hinv.queries hquery

end Esp32Embroidery.Net
