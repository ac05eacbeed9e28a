import Esp32Embroidery.Net.Enet
import Esp32Embroidery.Net.Wifi

/-!
# The chain of poll timeouts

`lwIPHostTimerHandler` polls the daemons and calls `sys_timeout` for itself again while
services run. `start_services` calls `sys_timeout` too, whether a timeout is pending or
not, although it starts each daemon only once. So every further start of services adds a
second chain of timeouts for good.

Main results:

* `poll_chain_iff`: along any run of either driver there is one chain iff services are
  started only while no timeout is pending, and the DNS server on its own only while one is.
* `poll_chain_doubled`: the station reconnects.
-/

namespace Esp32Embroidery.Net

open Esp32Embroidery.Lib

/-- The condition on one event of the WiFi driver. -/
def KeepsChain (s : Wifi) : WifiEvent → Prop
  | .apStart _ => s.apstaBit = true → s.daemons.timeouts = 0
  | .apStaConnected ok =>
    if s.apstaBit = true then
      s.connectedBit = false → .dns ∉ s.daemons.services → ok .dns = true →
        s.daemons.timeouts = 1
    else s.daemons.timeouts = 0
  | .staDisconnected ok =>
    s.apstaBit = true → s.connectedBit = false → .dns ∉ s.daemons.services → ok .dns = true →
      s.daemons.timeouts = 1
  | .ip .staGotIp _ _ => s.daemons.timeouts = 0
  | _ => True

instance (s : Wifi) : ∀ event, Decidable (KeepsChain s event)
  | .apStart _ | .staDisconnected _ => inferInstanceAs (Decidable (_ → _))
  | .apStaConnected _ => inferInstanceAs (Decidable (ite _ _ _))
  | .ip .staGotIp _ _ => inferInstanceAs (Decidable (_ = _))
  | .start .. | .stop | .apStaDisconnected _ | .staStart | .staConnected | .scanDone _ |
    .ip .staLostIp _ _ | .timer => .isTrue trivial

/-- The condition on one event of the Ethernet driver. -/
def EnetKeepsChain (s : Enet) : EnetEvent → Prop
  | .gotIp _ _ | .task _ => s.daemons.timeouts = 0
  | _ => True

/-! ## Starting and stopping services -/

section

variable {build : Build} {network : NetworkSettings} {ok : Service → Bool} {ssdp : Bool}
  {s t : Daemons}

theorem oneChain_started_iff (h : t.timeouts = s.timeouts + 1) : t.OneChain ↔ s.timeouts = 0 := by
  rw [Daemons.oneChain_iff_of_pos (by omega), h]
  omega

theorem timeouts_stopDns : (stopDns s).timeouts = s.timeouts := by
  unfold stopDns
  split_ifs <;> rfl

theorem timeouts_stopIf {c : Prop} [Decidable c] {d : Service} :
    (stopIf c d s).timeouts = s.timeouts ∧ (stopIf c d s).services = s.services := by
  unfold stopIf
  split_ifs <;> exact ⟨rfl, rfl⟩

theorem stopDaemons_oneChain (h : s.OneChain) : (stopDaemons build s).OneChain := by
  have htimeouts : (stopDaemons build s).timeouts = s.timeouts := by
    simp only [stopDaemons, timeouts_stopIf]
  have hservices : (stopDaemons build s).services = ∅ := by
    simp only [stopDaemons, timeouts_stopIf]
  exact ⟨htimeouts.le.trans h.1, fun hne => absurd hservices hne⟩

theorem timeouts_enet_startServices {s : Enet} (hpoll : Polled build) :
    (s.startServices build network ok).daemons.timeouts = s.daemons.timeouts + 1 := by
  have hstart : ∀ (d : Service) (t : Daemons),
      (t.start build network ok d).timeouts = t.timeouts := by
    intro d t
    exact Daemons.start_rule (P := fun u => u.timeouts = t.timeouts) (fun _ _ _ => rfl) rfl
  have hacquire : ∀ s : Enet, s.acquire.daemons = s.daemons := by
    intro s
    unfold Enet.acquire
    split_ifs <;> rfl
  unfold Enet.startServices
  rw [hacquire]
  show ((Enet.startDaemons build network ok s.daemons).addTimeout build).timeouts = _
  rw [Daemons.timeouts_addTimeout hpoll]
  simp only [Enet.startDaemons, hstart]

/-- The DNS server is started on its own behind its clear bit. -/
theorem startDns_oneChain_iff {connected : Bool} (h : s.OneChain) :
    (if !connected && .dns ∉ s.services then s.init ok .dns else s).OneChain ↔
      (connected = false → .dns ∉ s.services → ok .dns = true → s.timeouts = 1) := by
  by_cases hdns : Service.dns ∈ s.services
  · rw [decide_eq_false (not_not.2 hdns), Bool.and_false, if_neg Bool.false_ne_true]
    exact iff_of_true h fun _ hoff => absurd hdns hoff
  · rw [decide_eq_true hdns, Bool.and_true]
    cases connected
    · exact (h.init_iff hdns).trans ⟨fun hone _ _ => hone, fun hone => hone rfl hdns⟩
    · exact iff_of_true h fun hbit => Bool.noConfusion hbit

end

/-! ## One event -/

theorem wifi_chain_step {build : Build} (hpoll : Polled build) {network : NetworkSettings}
    {s t : Wifi} {event : WifiEvent} (h : s.daemons.OneChain)
    (hst : (wifi build network).step s event = some t) :
    t.daemons.OneChain ↔ KeepsChain s event := by
  rw [Wifi.daemons_step hst]
  cases event with
  | stop => exact iff_of_true (stopDaemons_oneChain h) trivial
  | apStart ok =>
    rw [Wifi.daemonsAfter]
    split_ifs with hapsta
    · have hstarted : ((startServices build s.network ok false s.daemons).init ok .dns).timeouts =
          s.daemons.timeouts + 1 := timeouts_startServices hpoll
      refine (oneChain_started_iff hstarted).trans ?_
      exact ⟨fun hzero _ => hzero, fun hzero => hzero hapsta⟩
    · exact iff_of_true h fun hbit => absurd hbit hapsta
  | apStaConnected ok =>
    rw [Wifi.daemonsAfter]
    by_cases hapsta : s.apstaBit = true
    · rw [if_pos hapsta]
      exact (startDns_oneChain_iff h).trans (iff_of_eq (if_pos hapsta)).symm
    · rw [if_neg hapsta]
      exact (oneChain_started_iff (timeouts_startServices hpoll)).trans
        (iff_of_eq (if_neg hapsta)).symm
  | apStaDisconnected scan =>
    refine iff_of_true ?_ trivial
    rw [Wifi.daemonsAfter]
    split_ifs
    · exact h
    · exact h
  | staDisconnected ok =>
    rw [Wifi.daemonsAfter]
    by_cases hapsta : s.apstaBit = true
    · rw [hapsta, Bool.true_and]
      exact (startDns_oneChain_iff h).trans ⟨fun hone _ => hone, fun hone => hone hapsta⟩
    · rw [eq_false_of_ne_true hapsta, Bool.false_and, Bool.false_and, if_neg Bool.false_ne_true]
      exact iff_of_true h fun hbit => absurd hbit hapsta
  | ip id ok scan =>
    cases id with
    | staGotIp =>
      exact oneChain_started_iff (timeouts_stopDns.trans (timeouts_startServices hpoll))
    | staLostIp => exact iff_of_true h trivial
  | timer => exact iff_of_true (Daemons.timer_oneChain h) trivial
  | start | staStart | staConnected | scanDone => exact iff_of_true h trivial

theorem enet_chain_step {build : Build} (hpoll : Polled build) {network : EnetSettings}
    {s t : Enet} {event : EnetEvent} (h : s.daemons.OneChain)
    (hst : (enet build network).step s event = some t) :
    t.daemons.OneChain ↔ EnetKeepsChain s event := by
  obtain ⟨_, rfl⟩ := enet_step_eq hst
  cases event with
  | gotIp ip ok => exact oneChain_started_iff (timeouts_enet_startServices hpoll)
  | task ok => exact oneChain_started_iff (timeouts_enet_startServices hpoll)
  | timer => exact iff_of_true (Daemons.timer_oneChain h) trivial
  | connectedEnd =>
    refine iff_of_true ?_ trivial
    show (s.connectedEnd network).daemons.OneChain
    unfold Enet.connectedEnd
    split_ifs <;> exact h
  | query =>
    refine iff_of_true ?_ trivial
    show s.query.daemons.OneChain
    unfold Enet.query
    split_ifs <;> exact h
  | connected | disconnected | disconnectedEnd | read => exact iff_of_true h trivial

/-! ## Main result -/

/-- For every build with a service to poll and every sequence of events of each driver: at
    most one timeout is pending, and one is while services run, at every point, iff
    `start_services` is only called while none is pending and the DNS server is only started
    on its own while one is. -/
theorem poll_chain_iff {build : Build} (hpoll : Polled build) (network : NetworkSettings)
    (events : List WifiEvent) (enetNetwork : EnetSettings) (enetEvents : List EnetEvent) :
    ((wifi build network).Along (fun _ _ t => t.daemons.OneChain) (wifi build network).init
        events ↔
      (wifi build network).Along (fun s event _ => KeepsChain s event) (wifi build network).init
        events) ∧
    ((enet build enetNetwork).Along (fun _ _ t => t.daemons.OneChain)
        (enet build enetNetwork).init enetEvents ↔
      (enet build enetNetwork).Along (fun s event _ => EnetKeepsChain s event)
        (enet build enetNetwork).init enetEvents) := by
  have hoff : Daemons.off.OneChain := ⟨Nat.zero_le _, fun hne => absurd rfl hne⟩
  constructor
  · refine Machine.along_congr (I := fun s => s.daemons.OneChain) ?_ hoff
    exact fun s event _ t hs hst => ⟨wifi_chain_step hpoll hs hst, id⟩
  · refine Machine.along_congr (I := fun s => s.daemons.OneChain) ?_ hoff
    exact fun s event _ t hs hst => ⟨enet_chain_step hpoll hs hst, id⟩

/-- The station gets its address for the first time. -/
theorem poll_chain_first :
    (wifi {.telnet} ⟨{.telnet}, ""⟩).Along (fun _ _ t => t.daemons.OneChain)
      (wifi {.telnet} ⟨{.telnet}, ""⟩).init [.ip .staGotIp (fun _ => true) true, .timer] := by
  have hpoll : Polled {.telnet} := .inl (Finset.mem_singleton_self _)
  have hiff := poll_chain_iff hpoll ⟨{.telnet}, ""⟩ [.ip .staGotIp (fun _ => true) true, .timer]
    ⟨⟨∅, ""⟩, .dhcp, 0⟩ []
  refine hiff.1.2 ?_
  decide +kernel

/-- The station loses the link and gets its address again. -/
theorem poll_chain_doubled :
    let driver := wifi {.telnet} ⟨∅, ""⟩
    ¬driver.Along (fun _ _ t => t.daemons.OneChain) driver.init
      [.start .sta ⟨∅, ""⟩ ⟨{.telnet}, ""⟩ true, .ip .staGotIp (fun _ => true) true,
        .staDisconnected (fun _ => true), .timer, .ip .staGotIp (fun _ => true) true] := by
  decide +kernel

end Esp32Embroidery.Net
