import Esp32Embroidery.Net.Wifi

/-!
# Starting and stopping services over WiFi

`start_services` starts a service only while its bit is clear, and the bits are right as
long as each stop of a daemon clears its bit and each clear bit means that the daemon was
stopped. Three places break this: `stop_services` clears the whole mask without stopping
FTP, the web server, WebDAV and SSDP; `WIFI_EVENT_AP_START` starts the DNS server again if
it runs; `WIFI_EVENT_AP_STADISCONNECTED` stops SSDP and leaves its bit set.

Main results:

* `wifi_services_matched_iff`: along any run, no daemon is started twice and the mask is
  right iff none of these happens.
* `wifi_services_ftp_kept`: a run that leaves FTP running with a clear bit.
-/

namespace Esp32Embroidery.Net

open Esp32Embroidery.Lib

/-- The services that `stop_services` does not stop. -/
def unstopped : Finset Service := {.ftp, .http, .ssdp, .webdav}

/-- The condition on one event. -/
def KeepsMask (build : Build) (s : Wifi) : WifiEvent → Prop
  | .stop => Disjoint s.daemons.services unstopped
  | .apStart _ => s.apstaBit = true → .dns ∉ s.daemons.services
  | .apStaDisconnected _ => .ssdp ∈ build → s.apstaBit = false → s.connectedBit = false →
      .ssdp ∉ s.daemons.services
  | _ => True

instance (build : Build) (s : Wifi) : ∀ event, Decidable (KeepsMask build s event)
  | .stop => inferInstanceAs (Decidable (Disjoint _ _))
  | .apStart _ | .apStaDisconnected _ => inferInstanceAs (Decidable (_ → _))
  | .start .. | .apStaConnected .. | .staStart | .staConnected | .staDisconnected .. |
    .scanDone .. | .ip .. | .timer => .isTrue trivial

/-! ## Stopping -/

section

variable {build : Build} {s : Daemons} {ok : Service → Bool} {d e : Service}

/-- Only services of the build, and the DNS server, can have their bit set. -/
def InBuild (build : Build) (s : Daemons) : Prop := s.services ⊆ insert .dns build

theorem InBuild.init (h : InBuild build s) (hd : d ∈ insert .dns build) :
    InBuild build (s.init ok d) := by
  show (if ok d then insert d s.services else s.services.erase d) ⊆ insert .dns build
  split_ifs
  · exact Finset.insert_subset hd h
  · exact (Finset.erase_subset d _).trans h

theorem mem_running_stopIf {c : Prop} [Decidable c] :
    e ∈ (stopIf c d s).running ↔ e ∈ s.running ∧ (e = d → ¬c) := by
  unfold stopIf
  split_ifs with hc
  · show e ∈ s.running.erase d ↔ _
    rw [Finset.mem_erase]
    tauto
  · tauto

theorem mask_stopIf {c : Prop} [Decidable c] :
    (stopIf c d s).services = s.services ∧ (stopIf c d s).restarted = s.restarted := by
  unfold stopIf
  split_ifs <;> exact ⟨rfl, rfl⟩

theorem mask_stopDaemons :
    (stopDaemons build s).services = ∅ ∧ (stopDaemons build s).restarted = s.restarted := by
  unfold stopDaemons
  exact ⟨by simp only [mask_stopIf], by simp only [mask_stopIf]⟩

/-- What still runs after `stop_services` is what it has no call for. -/
theorem mem_running_stopDaemons (h : s.Matched) (hbuild : InBuild build s) :
    e ∈ (stopDaemons build s).running ↔ e ∈ s.services ∧ e ∈ unstopped := by
  unfold stopDaemons
  rw [mem_running_stopIf, mem_running_stopIf, mem_running_stopIf, mem_running_stopIf, h.1]
  by_cases hmem : e ∈ s.running
  · have hin : e = .dns ∨ e ∈ build := Finset.mem_insert.1 (hbuild (h.1 ▸ hmem))
    cases e <;> simp_all [unstopped]
  · simp [hmem]

/-- `stop_services` keeps the mask right iff it stops all that runs. -/
theorem stopDaemons_matched_iff (h : s.Matched) (hbuild : InBuild build s) :
    (stopDaemons build s).Matched ↔ Disjoint s.services unstopped := by
  unfold Daemons.Matched
  rw [mask_stopDaemons.1, mask_stopDaemons.2, and_iff_left h.2, eq_comm,
    Finset.eq_empty_iff_forall_notMem, Finset.disjoint_left]
  refine forall_congr' fun e => ?_
  rw [mem_running_stopDaemons h hbuild]
  tauto

/-- Stopping SSDP and leaving its bit is right iff it did not run. -/
theorem stop_matched_iff (h : s.Matched) : (s.stop d).Matched ↔ d ∉ s.services := by
  show s.services = s.running.erase d ∧ s.restarted = ∅ ↔ _
  rw [and_iff_left h.2, h.1, eq_comm, Finset.erase_eq_self]

end

/-! ## Starting -/

section

variable {build : Build} {network : NetworkSettings} {ok : Service → Bool} {ssdp : Bool}
  {s : Daemons}

/-- The invariant of the mask. -/
def MaskInv (build : Build) (s : Daemons) : Prop := s.Matched ∧ InBuild build s

theorem startServices_inv (h : MaskInv build s) :
    MaskInv build (startServices build network ok ssdp s) := by
  refine startServices_rule (fun s hs => ?_) (fun d s hd _ hoff hs => ?_) h
  · unfold Daemons.addTimeout
    split_ifs <;> exact hs
  · exact ⟨Daemons.init_matched hs.1 hoff, hs.2.init (Finset.mem_insert_of_mem hd)⟩

/-- `start_services` does not touch the DNS server. -/
theorem dns_startServices :
    .dns ∈ (startServices build network ok ssdp s).services ↔ .dns ∈ s.services := by
  refine startServices_rule (P := fun t => .dns ∈ t.services ↔ .dns ∈ s.services)
    (fun t ht => ?_) (fun d t _ hne _ ht => ?_) Iff.rfl
  · unfold Daemons.addTimeout
    split_ifs <;> exact ht
  · exact (Daemons.mem_init hne.symm).trans ht

end

theorem stopDns_inv {build : Build} {s : Daemons} (h : MaskInv build s) :
    MaskInv build (stopDns s) := by
  unfold stopDns
  split_ifs
  · refine ⟨⟨?_, h.1.2⟩, (Finset.erase_subset _ _).trans h.2⟩
    show s.services.erase .dns = s.running.erase .dns
    rw [h.1.1]
  · exact h

/-- Starting the DNS server on its own behind its clear bit. -/
theorem startDns_inv {build : Build} {ok : Service → Bool} {s : Daemons} (h : MaskInv build s)
    (hdns : .dns ∉ s.services) : MaskInv build (s.init ok .dns) :=
  ⟨Daemons.init_matched h.1 hdns, h.2.init (Finset.mem_insert_self _ _)⟩

/-! ## Main result -/

/-- One event: the mask stays right iff the event meets its condition. -/
theorem matched_step_iff {build : Build} {network : NetworkSettings} {s t : Wifi}
    {event : WifiEvent} (h : MaskInv build s.daemons)
    (hst : (wifi build network).step s event = some t) :
    (t.daemons.Matched ↔ KeepsMask build s event) ∧ InBuild build t.daemons := by
  have hkept : ∀ {d : Daemons}, MaskInv build d → (d.Matched ↔ True) ∧ InBuild build d :=
    fun hd => ⟨iff_true_intro hd.1, hd.2⟩
  rw [Wifi.daemons_step hst]
  cases event with
  | stop =>
    refine ⟨stopDaemons_matched_iff h.1 h.2, ?_⟩
    show (stopDaemons build s.daemons).services ⊆ _
    rw [mask_stopDaemons.1]
    exact Finset.empty_subset _
  | apStart ok =>
    rw [Wifi.daemonsAfter]
    split_ifs with hapsta
    · have hstart : MaskInv build (startServices build s.network ok false s.daemons) :=
        startServices_inv h
      refine ⟨(Daemons.init_matched_iff hstart.1).trans ((not_congr dns_startServices).trans ?_),
        hstart.2.init (Finset.mem_insert_self _ _)⟩
      exact ⟨fun hoff _ => hoff, fun hoff => hoff hapsta⟩
    · exact ⟨iff_of_true h.1 fun hbit => absurd hbit hapsta, h.2⟩
  | apStaConnected ok =>
    rw [Wifi.daemonsAfter]
    split_ifs with hapsta hdns
    · simp only [Bool.and_eq_true, decide_eq_true_iff] at hdns
      exact hkept (startDns_inv h hdns.2)
    · exact hkept h
    · exact hkept (startServices_inv h)
  | apStaDisconnected scan =>
    rw [Wifi.daemonsAfter]
    split_ifs with hstop
    · refine ⟨(stop_matched_iff h.1).trans ?_, h.2⟩
      exact ⟨fun hoff _ _ _ => hoff, fun hoff => hoff hstop.1 hstop.2.1 hstop.2.2⟩
    · exact ⟨iff_of_true h.1 fun hbuild hapsta hconn => absurd ⟨hbuild, hapsta, hconn⟩ hstop, h.2⟩
  | staDisconnected ok =>
    rw [Wifi.daemonsAfter]
    split_ifs with hdns
    · simp only [Bool.and_eq_true, decide_eq_true_iff] at hdns
      exact hkept (startDns_inv h hdns.2)
    · exact hkept h
  | ip id ok scan =>
    cases id with
    | staGotIp => exact hkept (stopDns_inv (startServices_inv h))
    | staLostIp => exact hkept h
  | timer =>
    show (s.daemons.lwIPHostTimerHandler.Matched ↔ True) ∧
      InBuild build s.daemons.lwIPHostTimerHandler
    rw [Daemons.timer_daemons]
    exact hkept h
  | start | staStart | staConnected | scanDone => exact hkept h

/-- For every build and every sequence of events: no daemon is initialised while it runs and
    the mask says which services run, at every point, iff `stop_services` never meets FTP,
    the web server, WebDAV or SSDP, no access point starts in AP+STA mode while the DNS
    server runs, and no station leaves an access point alone while SSDP runs. -/
theorem wifi_services_matched_iff (build : Build) (network : NetworkSettings)
    (events : List WifiEvent) :
    (wifi build network).Along (fun _ _ t => t.daemons.Matched) (wifi build network).init
        events ↔
      (wifi build network).Along (fun s event _ => KeepsMask build s event)
        (wifi build network).init events := by
  have hinit : MaskInv build (wifi build network).init.daemons :=
    ⟨⟨rfl, rfl⟩, Finset.empty_subset _⟩
  refine Machine.along_congr (I := fun s => MaskInv build s.daemons) (fun s event _ t hs hst => ?_)
    hinit
  obtain ⟨hiff, hbuild⟩ := matched_step_iff hs hst
  exact ⟨hiff, fun ht => ⟨ht, hbuild⟩⟩

/-- FTP is started, and `wifi_stop` clears its bit. -/
theorem wifi_services_ftp_kept :
    let driver := wifi {.telnet, .ftp} ⟨∅, ""⟩
    ¬driver.Along (fun _ _ t => t.daemons.Matched) driver.init
      [.start .sta ⟨∅, ""⟩ ⟨{.ftp}, ""⟩ true, .ip .staGotIp (fun _ => true) true, .stop] := by
  decide +kernel

end Esp32Embroidery.Net
