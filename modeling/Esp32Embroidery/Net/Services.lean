import Mathlib.Data.Finset.Basic
import Mathlib.Tactic.Common

/-!
# Network services

What the WiFi and the Ethernet driver share: the mask of running services, the daemons
that it stands for and the poll timer `lwIPHostTimerHandler`.

* `Daemons.init_matched_iff`: the mask keeps agreeing with the daemons iff a daemon is
  initialised only while its bit is clear.
* `Daemons.timer_oneChain`, `Daemons.OneChain.init_iff`: the poll timer keeps a single
  pending timeout, and a daemon started on its own needs one.
-/

namespace Esp32Embroidery.Net

/-! ## Model -/

/-- The bits of `network_services_t`. -/
inductive Service
  | telnet
  | websocket
  | ftp
  | http
  | dns
  | mdns
  | ssdp
  | webdav
  deriving DecidableEq

/-- What `start_services` reads of `network_settings_t`. -/
structure NetworkSettings where
  services : Finset Service
  hostname : String

/-- The flags of `network_flags_t` that the drivers use. -/
structure NetworkFlags where
  interfaceUp : Bool := false
  linkUp : Bool := false
  ipAquired : Bool := false
  apStarted : Bool := false
  apScanCompleted : Bool := false
  deriving DecidableEq

/-- The interfaces that a status event can be about. -/
inductive Interface
  | sta
  | ap
  | eth
  deriving DecidableEq

/-- A call of `status_event_publish` or `status_ap_event_publish`, with its
    `network_status_t`. -/
structure StatusEvent where
  interface : Interface
  changed : NetworkFlags
  flags : NetworkFlags
  deriving DecidableEq

/-- `services`, the pending timeouts of `lwIPHostTimerHandler` and, as ghosts, the daemons
    that run and those that were initialised while they ran. -/
structure Daemons where
  services : Finset Service
  timeouts : ℕ
  running : Finset Service
  restarted : Finset Service
  deriving DecidableEq

/-- The services compiled in, as `TELNET_ENABLE`. -/
abbrev Build := Finset Service

/-- Some service of the build has to be polled. -/
def Polled (build : Build) : Prop :=
  .telnet ∈ build ∨ .websocket ∈ build ∨ .ftp ∈ build

instance (build : Build) : Decidable (Polled build) := inferInstanceAs (Decidable (_ ∨ _))

namespace Daemons

/-- At boot. -/
def off : Daemons := ⟨∅, 0, ∅, ∅⟩

/-- `services.d = d_init(…)`, where `ok d` is what the initialisation returns. -/
def init (ok : Service → Bool) (d : Service) (s : Daemons) : Daemons :=
  { s with
    services := if ok d then insert d s.services else s.services.erase d
    running := if ok d then insert d s.running else s.running
    restarted := if d ∈ s.running then insert d s.restarted else s.restarted }

/-- `if(network.services.d && !services.d) services.d = d_init(…)` for a service of the
    build. -/
def start (build : Build) (network : NetworkSettings) (ok : Service → Bool) (d : Service)
    (s : Daemons) : Daemons :=
  if d ∈ build ∧ d ∈ network.services ∧ d ∉ s.services then s.init ok d else s

/-- `d_stop()` -/
def stop (d : Service) (s : Daemons) : Daemons := { s with running := s.running.erase d }

/-- `sys_timeout(STREAM_POLL_INTERVAL, lwIPHostTimerHandler, NULL)`, if it is compiled in. -/
def addTimeout (build : Build) (s : Daemons) : Daemons :=
  if Polled build then { s with timeouts := s.timeouts + 1 } else s

/-- A timeout expires (`wifi.c`, lines 267–284, and `enet.c`, lines 230–247). -/
def lwIPHostTimerHandler (s : Daemons) : Daemons :=
  let s := { s with timeouts := s.timeouts - 1 }
  if s.services = ∅ then s else { s with timeouts := s.timeouts + 1 }

/-! ## The mask -/

/-- The mask says which daemons run, and none was initialised while it ran. -/
def Matched (s : Daemons) : Prop := s.services = s.running ∧ s.restarted = ∅

instance (s : Daemons) : Decidable s.Matched := inferInstanceAs (Decidable (_ ∧ _))

section

variable {s : Daemons} {build : Build} {network : NetworkSettings} {ok : Service → Bool}
  {d e : Service}

theorem init_matched (h : s.Matched) (hd : d ∉ s.services) : (s.init ok d).Matched := by
  obtain ⟨hmask, hnone⟩ := h
  constructor
  · show (if ok d then insert d s.services else s.services.erase d) =
      if ok d then insert d s.running else s.running
    rw [Finset.erase_eq_of_notMem hd, hmask]
  · show (if d ∈ s.running then insert d s.restarted else s.restarted) = ∅
    rw [if_neg (hmask ▸ hd), hnone]

theorem init_matched_iff (h : s.Matched) : (s.init ok d).Matched ↔ d ∉ s.services := by
  refine ⟨fun hinit hd => ?_, init_matched h⟩
  have hnone : (if d ∈ s.running then insert d s.restarted else s.restarted) = ∅ := hinit.2
  rw [if_pos (h.1 ▸ hd)] at hnone
  exact Finset.insert_ne_empty _ _ hnone

/-- What an initialisation behind a clear bit keeps, `start` keeps. -/
theorem start_rule {P : Daemons → Prop}
    (hinit : d ∈ build → d ∉ s.services → P s → P (s.init ok d)) (hs : P s) :
    P (s.start build network ok d) := by
  unfold start
  split_ifs with hstart
  · exact hinit hstart.1 hstart.2.2 hs
  · exact hs

theorem mem_init (he : e ≠ d) : e ∈ (s.init ok d).services ↔ e ∈ s.services := by
  show e ∈ (if ok d then insert d s.services else s.services.erase d) ↔ _
  split_ifs
  · exact Finset.mem_insert.trans (or_iff_right he)
  · exact Finset.mem_erase.trans (and_iff_right he)

/-! ## The poll timer -/

/-- At most one timeout is pending, and one is whenever services run. -/
def OneChain (s : Daemons) : Prop := s.timeouts ≤ 1 ∧ (s.services ≠ ∅ → s.timeouts = 1)

instance (s : Daemons) : Decidable s.OneChain :=
  inferInstanceAs (Decidable (_ ∧ (_ → _)))

theorem timer_oneChain (h : s.OneChain) : s.lwIPHostTimerHandler.OneChain := by
  obtain ⟨hle, hone⟩ := h
  unfold lwIPHostTimerHandler
  by_cases hempty : s.services = ∅
  · rw [if_pos hempty]
    exact ⟨Nat.le_trans (Nat.sub_le _ _) hle, fun hne => absurd hempty hne⟩
  · rw [if_neg hempty]
    show s.timeouts - 1 + 1 ≤ 1 ∧ (s.services ≠ ∅ → s.timeouts - 1 + 1 = 1)
    omega

/-- An expired timeout leaves the daemons alone. -/
theorem timer_daemons (s : Daemons) :
    s.lwIPHostTimerHandler = { s with timeouts := s.lwIPHostTimerHandler.timeouts } := by
  unfold lwIPHostTimerHandler
  by_cases hempty : s.services = ∅
  · rw [if_pos hempty]
  · rw [if_neg hempty]

theorem timeouts_addTimeout (hpoll : Polled build) :
    (s.addTimeout build).timeouts = s.timeouts + 1 := by
  unfold addTimeout
  rw [if_pos hpoll]

theorem oneChain_iff_of_pos (hpos : 0 < s.timeouts) : s.OneChain ↔ s.timeouts = 1 := by
  unfold OneChain
  omega

/-- A daemon started beside `start_services` needs a pending timeout. -/
theorem OneChain.init_iff (h : s.OneChain) (hd : d ∉ s.services) :
    (s.init ok d).OneChain ↔ (ok d = true → s.timeouts = 1) := by
  show (s.timeouts ≤ 1 ∧
    ((if ok d then insert d s.services else s.services.erase d) ≠ ∅ → s.timeouts = 1)) ↔ _
  split_ifs with hok
  · have hne : insert d s.services ≠ ∅ := Finset.insert_ne_empty _ _
    exact ⟨fun hone _ => hone.2 hne, fun hone => ⟨h.1, fun _ => hone hok⟩⟩
  · rw [Finset.erase_eq_of_notMem hd]
    exact ⟨fun _ hok' => absurd hok' hok, fun _ => h⟩

end

end Daemons

end Esp32Embroidery.Net
