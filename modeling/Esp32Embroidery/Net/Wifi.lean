import Esp32Embroidery.Lib.Machine
import Esp32Embroidery.Net.Services

/-!
# The WiFi driver (`main/wifi.c`)

The handlers of the WiFi and IP events, `start_services`, `stop_services`, `wifi_start` and
`wifi_stop`, as far as they concern the services, the event bits and the status flags.

* `startServices_rule`: what every initialisation behind a clear bit keeps, `start_services`
  keeps up to the timeout that it adds.
* `Wifi.daemons_step`: what each event does to the daemons.
-/

namespace Esp32Embroidery.Net

open Esp32Embroidery.Lib

/-! ## Model -/

/-- `grbl_wifi_mode_t` -/
inductive WifiMode
  | null
  | sta
  | ap
  | apsta
  deriving DecidableEq

/-- The event ids of `IP_EVENT` that `ip_event_handler` knows. -/
inductive IpEvent
  | staGotIp
  | staLostIp
  deriving DecidableEq

/-- The static variables, the bits of `wifi_event_group`, the mode set in the WiFi driver, the
    published status events and, as a ghost, whether the station got an address since its
    last disconnect or loss of address. -/
structure Wifi where
  network : NetworkSettings
  daemons : Daemons
  connectedBit : Bool
  scanningBit : Bool
  apstaBit : Bool
  staStatus : NetworkFlags
  apStatus : NetworkFlags
  espMode : WifiMode
  published : List StatusEvent
  leased : Bool

/-- An event, with what the calls that it leads to return: `ok` for the services,
    `scan` for `esp_wifi_scan_start` and `mutex` for `aplist_mutex`. -/
inductive WifiEvent
  /-- `wifi_start` with the mode and the network settings of both interfaces -/
  | start (mode : WifiMode) (ap sta : NetworkSettings) (scan : Bool)
  /-- `wifi_stop` -/
  | stop
  | apStart (ok : Service → Bool)
  | apStaConnected (ok : Service → Bool)
  | apStaDisconnected (scan : Bool)
  | staStart
  | staConnected
  | staDisconnected (ok : Service → Bool)
  | scanDone (mutex : Bool)
  | ip (id : IpEvent) (ok : Service → Bool) (scan : Bool)
  /-- a timeout of `lwIPHostTimerHandler` expires -/
  | timer

/-- `start_services`: the web server and WebDAV (lines 306–312). -/
def startHttp (build : Build) (network : NetworkSettings) (ok : Service → Bool) (s : Daemons) :
    Daemons :=
  if .http ∈ build ∧ .http ∈ network.services ∧ .http ∉ s.services then
    (s.init ok .http).start build network ok .webdav
  else s

/-- `start_services`: SSDP, if the web server runs (lines 314–315). -/
def startSsdp (build : Build) (ok : Service → Bool) (start : Bool) (s : Daemons) : Daemons :=
  if .http ∈ build ∧ .ssdp ∈ build ∧ start ∧ .http ∈ s.services ∧ .ssdp ∉ s.services then
    s.init ok .ssdp
  else s

/-- `start_services`: mDNS (lines 320–345). -/
def startMdns (build : Build) (network : NetworkSettings) (ok : Service → Bool) (s : Daemons) :
    Daemons :=
  if network.hostname ≠ "" then s.start build network ok .mdns else s

/-- `start_services` (lines 288–356) without its timeout. -/
def startDaemons (build : Build) (network : NetworkSettings) (ok : Service → Bool)
    (ssdp : Bool) (s : Daemons) : Daemons :=
  let s := s.start build network ok .telnet
  let s := s.start build network ok .websocket
  let s := s.start build network ok .ftp
  let s := startHttp build network ok s
  let s := startSsdp build ok ssdp s
  startMdns build network ok s

def startServices (build : Build) (network : NetworkSettings) (ok : Service → Bool)
    (ssdp : Bool) (s : Daemons) : Daemons :=
  (startDaemons build network ok ssdp s).addTimeout build

/-- `if(services.dns) { services.dns = Off; dns_server_stop(); }` -/
def stopDns (s : Daemons) : Daemons :=
  if .dns ∈ s.services then { s with services := s.services.erase .dns }.stop .dns else s

/-- `if(running.d) d_stop()` -/
def stopIf (c : Prop) [Decidable c] (d : Service) (s : Daemons) : Daemons :=
  if c then s.stop d else s

/-- `stop_services` (lines 378–405) up to the event bits. The branch of `http` is under
    `xHTTP_ENABLE`, which nothing defines. -/
def stopDaemons (build : Build) (s : Daemons) : Daemons :=
  let running := s.services
  let s := { s with services := ∅ }
  let s := stopIf (.telnet ∈ build ∧ .telnet ∈ running) .telnet s
  let s := stopIf (.websocket ∈ build ∧ .websocket ∈ running) .websocket s
  let s := stopIf (.mdns ∈ build ∧ .mdns ∈ running) .mdns s
  stopIf (.dns ∈ running) .dns s

namespace Wifi

/-- Before the first `wifi_start`. -/
def boot (network : NetworkSettings) : Wifi where
  network := network
  daemons := .off
  connectedBit := false
  scanningBit := false
  apstaBit := false
  staStatus := {}
  apStatus := {}
  espMode := .null
  published := []
  leased := false

/-- `status_event_publish` -/
def publishSta (changed : NetworkFlags) (s : Wifi) : Wifi :=
  { s with published := s.published ++ [⟨.sta, changed, s.staStatus⟩] }

/-- `status_ap_event_publish` -/
def publishAp (changed : NetworkFlags) (s : Wifi) : Wifi :=
  { s with published := s.published ++ [⟨.ap, changed, s.apStatus⟩] }

/-- `start_services` -/
def startServices (build : Build) (ok : Service → Bool) (ssdp : Bool) (s : Wifi) : Wifi :=
  { s with daemons := Net.startServices build s.network ok ssdp s.daemons }

/-- `services.dns = dns_server_start(sta_netif)` -/
def startDns (ok : Service → Bool) (s : Wifi) : Wifi :=
  { s with daemons := s.daemons.init ok .dns }

/-- The results of the scan before are given up (lines 438–441). -/
def dropScan (s : Wifi) : Wifi :=
  if s.staStatus.apScanCompleted then
    publishSta { apScanCompleted := true }
      { s with staStatus := { s.staStatus with apScanCompleted := false } }
  else s

/-- `wifi_ap_scan` (lines 418–442). -/
def apScan (scan : Bool) (s : Wifi) : Wifi :=
  { s with scanningBit := s.scanningBit || scan }.dropScan

/-- The address is acquired (lines 465–468). -/
def acquire (s : Wifi) : Wifi :=
  if s.staStatus.ipAquired then s
  else
    publishSta { ipAquired := true }
      { s with staStatus := { s.staStatus with ipAquired := true } }

/-- `case IP_EVENT_STA_GOT_IP` (lines 448–469). -/
def gotIp (build : Build) (ok : Service → Bool) (scan : Bool) (s : Wifi) : Wifi :=
  let s := { s with connectedBit := true }
  let s := s.startServices build ok (.ssdp ∈ s.network.services)
  let s := { s with daemons := stopDns s.daemons }
  let s := if s.apstaBit then s else s.apScan scan
  s.acquire

/-- `case IP_EVENT_STA_LOST_IP` (lines 471–476). -/
def lostIp (s : Wifi) : Wifi :=
  if s.staStatus.ipAquired then
    publishSta { ipAquired := true } { s with staStatus := { s.staStatus with ipAquired := false } }
  else s

/-- The events of `IP_EVENT` for which `wifi_start` registers the handler (line 682). -/
def ipRegistered : IpEvent → Bool
  | .staGotIp => true
  | .staLostIp => false

/-- `ip_event_handler` (lines 444–481) behind the registration. -/
def ipEvent (build : Build) (id : IpEvent) (ok : Service → Bool) (scan : Bool) (s : Wifi) :
    Wifi :=
  if ipRegistered id then
    match id with
    | .staGotIp => s.gotIp build ok scan
    | .staLostIp => s.lostIp
  else s

/-- The access point has started (lines 493–496). -/
def apStarted (s : Wifi) : Wifi :=
  if s.apStatus.apStarted then s
  else
    publishAp { apStarted := true, ipAquired := true }
      { s with apStatus := { s.apStatus with apStarted := true, ipAquired := true } }

/-- `case WIFI_EVENT_AP_START` (lines 487–497). -/
def apStart (build : Build) (ok : Service → Bool) (s : Wifi) : Wifi :=
  let s := if s.apstaBit then (s.startServices build ok false).startDns ok else s
  s.apStarted

/-- `case WIFI_EVENT_AP_STACONNECTED` (lines 504–519). -/
def apStaConnected (build : Build) (ok : Service → Bool) (s : Wifi) : Wifi :=
  if s.apstaBit then
    if !s.connectedBit && .dns ∉ s.daemons.services then s.startDns ok else s
  else s.startServices build ok (.ssdp ∈ s.network.services)

/-- `case WIFI_EVENT_AP_STADISCONNECTED` (lines 521–535). -/
def apStaDisconnected (build : Build) (scan : Bool) (s : Wifi) : Wifi :=
  if s.apstaBit then s.apScan scan
  else if .ssdp ∈ build ∧ !s.connectedBit then { s with daemons := s.daemons.stop .ssdp }
  else s

/-- `case WIFI_EVENT_STA_DISCONNECTED` (lines 542–583). -/
def staDisconnected (ok : Service → Bool) (s : Wifi) : Wifi :=
  let s :=
    if s.apstaBit && !s.connectedBit && .dns ∉ s.daemons.services then s.startDns ok else s
  { s with connectedBit := false }

/-- New results are there (lines 600–603). -/
def scanCompleted (s : Wifi) : Wifi :=
  if s.staStatus.apScanCompleted then s
  else
    publishSta { apScanCompleted := true }
      { s with staStatus := { s.staStatus with apScanCompleted := true } }

/-- `case WIFI_EVENT_SCAN_DONE` (lines 585–608). -/
def scanDone (mutex : Bool) (s : Wifi) : Wifi :=
  let s := { s with scanningBit := false }
  if mutex then s.scanCompleted else s

/-- `wifi_start` up to `esp_wifi_start`, which sets the network of the access point, that of
    the station, or the one after the other, if the mode changes (lines 701–790). -/
def configure (mode : WifiMode) (ap sta : NetworkSettings) (s : Wifi) : Wifi :=
  if s.espMode = mode then s
  else
    match mode with
    | .null => s
    | .ap => { s with espMode := .ap, network := ap }
    | .sta => { s with espMode := .sta, network := sta }
    | .apsta => { s with espMode := .apsta, network := sta, apstaBit := true }

/-- Lines 795–798. -/
def apUp (s : Wifi) : Wifi :=
  publishAp { interfaceUp := true } { s with apStatus := { s.apStatus with interfaceUp := true } }

/-- Lines 800–803. -/
def staUp (s : Wifi) : Wifi :=
  publishSta { interfaceUp := true }
    { s with staStatus := { s.staStatus with interfaceUp := true } }

/-- `wifi_start` (lines 658–809) when every call of the SDK succeeds. -/
def start (mode : WifiMode) (ap sta : NetworkSettings) (scan : Bool) (s : Wifi) : Wifi :=
  let s := s.configure mode ap sta
  match mode with
  | .null => s
  | .ap => s.apUp
  | .sta => s.staUp
  | .apsta => s.apUp.staUp.apScan scan

/-- `wifi_stop` (lines 843–850). -/
def stop (build : Build) (s : Wifi) : Wifi :=
  { s with
    daemons := stopDaemons build s.daemons
    connectedBit := false
    scanningBit := false
    apstaBit := false }

end Wifi

/-- The driver of a build. The ghost `leased` follows the events themselves. -/
def wifi (build : Build) (network : NetworkSettings) : Machine Wifi WifiEvent where
  init := .boot network
  step s
    | .start mode ap sta scan => some (s.start mode ap sta scan)
    | .stop => some (s.stop build)
    | .apStart ok => some (s.apStart build ok)
    | .apStaConnected ok => some (s.apStaConnected build ok)
    | .apStaDisconnected scan => some (s.apStaDisconnected build scan)
    | .staStart => some s
    | .staConnected => some s
    | .staDisconnected ok => some { s.staDisconnected ok with leased := false }
    | .scanDone mutex => some (s.scanDone mutex)
    | .ip id ok scan => some { s.ipEvent build id ok scan with leased := id = .staGotIp }
    | .timer =>
      if s.daemons.timeouts = 0 then none
      else some { s with daemons := s.daemons.lwIPHostTimerHandler }

/-! ## Starting services -/

section

variable {build : Build} {network : NetworkSettings} {ok : Service → Bool} {ssdp : Bool}
  {s : Daemons}

/-- `start_services` initialises daemons of the build behind clear bits, never the DNS
    server. -/
theorem startDaemons_rule {P : Daemons → Prop}
    (hinit : ∀ d s, d ∈ build → d ≠ .dns → d ∉ s.services → P s → P (s.init ok d))
    (hs : P s) : P (startDaemons build network ok ssdp s) := by
  have hstart : ∀ d s, d ≠ .dns → P s → P (s.start build network ok d) := by
    intro d s hne hs
    exact Daemons.start_rule (fun hbuild hd => hinit d s hbuild hne hd) hs
  have hhttp : ∀ s, P s → P (startHttp build network ok s) := by
    intro s hs
    unfold startHttp
    split_ifs with hrun
    · exact hstart .webdav _ (by decide) (hinit .http s hrun.1 (by decide) hrun.2.2 hs)
    · exact hs
  have hssdp : ∀ s, P s → P (startSsdp build ok ssdp s) := by
    intro s hs
    unfold startSsdp
    split_ifs with hrun
    · exact hinit .ssdp s hrun.2.1 (by decide) hrun.2.2.2.2 hs
    · exact hs
  have hmdns : ∀ s, P s → P (startMdns build network ok s) := by
    intro s hs
    unfold startMdns
    split_ifs
    · exact hstart .mdns s (by decide) hs
    · exact hs
  have hftp := hstart .ftp _ (by decide) (hstart .websocket _ (by decide)
    (hstart .telnet s (by decide) hs))
  exact hmdns _ (hssdp _ (hhttp _ hftp))

theorem timeouts_startServices (hpoll : Polled build) :
    (startServices build network ok ssdp s).timeouts = s.timeouts + 1 := by
  unfold startServices
  rw [Daemons.timeouts_addTimeout hpoll]
  exact congrArg Nat.succ (startDaemons_rule (P := fun t => t.timeouts = s.timeouts)
    (fun _ _ _ _ _ ht => ht) rfl)

/-- The timeout leaves the mask and the daemons alone. -/
theorem startServices_rule {P : Daemons → Prop} (htimeout : ∀ s, P s → P (s.addTimeout build))
    (hinit : ∀ d s, d ∈ build → d ≠ .dns → d ∉ s.services → P s → P (s.init ok d))
    (hs : P s) : P (startServices build network ok ssdp s) :=
  htimeout _ (startDaemons_rule hinit hs)

end

/-! ## What the handlers leave alone -/

namespace Wifi

section

variable {build : Build} {ok : Service → Bool} {scan : Bool} {s : Wifi}

theorem daemons_apScan : (s.apScan scan).daemons = s.daemons := by
  unfold apScan dropScan
  split_ifs <;> rfl

theorem daemons_acquire : s.acquire.daemons = s.daemons := by
  unfold acquire
  split_ifs <;> rfl

theorem daemons_gotIp : (s.gotIp build ok scan).daemons =
    stopDns (Net.startServices build s.network ok (.ssdp ∈ s.network.services) s.daemons) := by
  unfold gotIp
  rw [daemons_acquire]
  split_ifs
  · rfl
  · exact daemons_apScan

theorem daemons_apStart : (s.apStart build ok).daemons =
    if s.apstaBit then (Net.startServices build s.network ok false s.daemons).init ok .dns
    else s.daemons := by
  have hstarted : ∀ s : Wifi, s.apStarted.daemons = s.daemons := by
    intro s
    unfold apStarted
    split_ifs <;> rfl
  unfold apStart
  rw [hstarted]
  split_ifs <;> rfl

theorem daemons_apStaConnected : (s.apStaConnected build ok).daemons =
    if s.apstaBit then
      if !s.connectedBit && .dns ∉ s.daemons.services then s.daemons.init ok .dns else s.daemons
    else Net.startServices build s.network ok (.ssdp ∈ s.network.services) s.daemons := by
  unfold apStaConnected
  split_ifs <;> rfl

theorem daemons_apStaDisconnected : (s.apStaDisconnected build scan).daemons =
    if .ssdp ∈ build ∧ s.apstaBit = false ∧ s.connectedBit = false then s.daemons.stop .ssdp
    else s.daemons := by
  unfold apStaDisconnected
  cases hapsta : s.apstaBit
  · cases hconnected : s.connectedBit <;> by_cases hbuild : Service.ssdp ∈ build <;> simp [hbuild]
  · rw [if_pos rfl, if_neg fun h => Bool.noConfusion h.2.1, daemons_apScan]

theorem daemons_staDisconnected : (s.staDisconnected ok).daemons =
    if s.apstaBit && !s.connectedBit && .dns ∉ s.daemons.services then s.daemons.init ok .dns
    else s.daemons := by
  unfold staDisconnected
  split_ifs <;> rfl

theorem daemons_scanDone {mutex : Bool} : (s.scanDone mutex).daemons = s.daemons := by
  unfold scanDone scanCompleted
  cases mutex
  · rfl
  · show (ite _ _ _ : Wifi).daemons = _
    split_ifs <;> rfl

theorem daemons_start {mode : WifiMode} {ap sta : NetworkSettings} :
    (s.start mode ap sta scan).daemons = s.daemons := by
  have hconfigure : (s.configure mode ap sta).daemons = s.daemons := by
    unfold configure
    split_ifs
    · rfl
    · cases mode <;> rfl
  cases mode with
  | null | ap | sta => exact hconfigure
  | apsta => exact daemons_apScan.trans hconfigure

end

/-- What an event does to the daemons. -/
def daemonsAfter (build : Build) (s : Wifi) : WifiEvent → Daemons
  | .stop => stopDaemons build s.daemons
  | .apStart ok =>
    if s.apstaBit then (Net.startServices build s.network ok false s.daemons).init ok .dns
    else s.daemons
  | .apStaConnected ok =>
    if s.apstaBit then
      if !s.connectedBit && .dns ∉ s.daemons.services then s.daemons.init ok .dns else s.daemons
    else Net.startServices build s.network ok (.ssdp ∈ s.network.services) s.daemons
  | .apStaDisconnected _ =>
    if .ssdp ∈ build ∧ s.apstaBit = false ∧ s.connectedBit = false then s.daemons.stop .ssdp
    else s.daemons
  | .staDisconnected ok =>
    if s.apstaBit && !s.connectedBit && .dns ∉ s.daemons.services then s.daemons.init ok .dns
    else s.daemons
  | .ip .staGotIp ok _ =>
    stopDns (Net.startServices build s.network ok (.ssdp ∈ s.network.services) s.daemons)
  | .timer => s.daemons.lwIPHostTimerHandler
  | .start .. | .staStart | .staConnected | .scanDone _ | .ip .staLostIp _ _ => s.daemons

theorem daemons_step {build : Build} {network : NetworkSettings} {s t : Wifi} {event : WifiEvent}
    (hst : (wifi build network).step s event = some t) :
    t.daemons = s.daemonsAfter build event := by
  cases event with
  | start mode ap sta scan =>
    obtain rfl := Option.some.inj hst
    exact daemons_start
  | apStart ok =>
    obtain rfl := Option.some.inj hst
    exact daemons_apStart
  | apStaConnected ok =>
    obtain rfl := Option.some.inj hst
    exact daemons_apStaConnected
  | apStaDisconnected scan =>
    obtain rfl := Option.some.inj hst
    exact daemons_apStaDisconnected
  | staDisconnected ok =>
    obtain rfl := Option.some.inj hst
    exact daemons_staDisconnected
  | scanDone mutex =>
    obtain rfl := Option.some.inj hst
    exact daemons_scanDone
  | ip id ok scan =>
    obtain rfl := Option.some.inj hst
    cases id with
    | staGotIp => exact daemons_gotIp
    | staLostIp => rfl
  | stop | staStart | staConnected =>
    obtain rfl := Option.some.inj hst
    rfl
  | timer =>
    obtain ⟨_, ht⟩ := Option.ite_none_left_eq_some.1 hst
    obtain rfl := Option.some.inj ht
    rfl

end Wifi

end Esp32Embroidery.Net
