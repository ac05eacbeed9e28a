import Esp32Embroidery.Net.Wifi

/-!
# The address state of the station

`sta_status.ip_aquired` is set by `IP_EVENT_STA_GOT_IP`. Only the handler of
`IP_EVENT_STA_LOST_IP` clears it, and `wifi_start` registers `ip_event_handler` for the
first of the two events alone; `WIFI_EVENT_STA_DISCONNECTED` does not touch the flag.

Main results:

* `ipAquired_step`: what each event does to the flag.
* `wifi_address_truthful_iff`: along any run, the flag is right and every new address is
  published iff the address is never lost while the flag is set.
* `wifi_address_stale`: a disconnect that leaves the flag set.
-/

namespace Esp32Embroidery.Net

open Esp32Embroidery.Lib

/-! ## The flag -/

namespace Wifi

section

variable {build : Build} {ok : Service → Bool} {scan : Bool} {s : Wifi}

/-- The flag and the ghost of the address. -/
def address (s : Wifi) : Bool × Bool := (s.staStatus.ipAquired, s.leased)

theorem address_apScan : (s.apScan scan).address = s.address := by
  unfold apScan dropScan
  split_ifs <;> rfl

theorem address_scanDone {mutex : Bool} : (s.scanDone mutex).address = s.address := by
  unfold scanDone scanCompleted
  cases mutex
  · rfl
  · show (ite _ _ _ : Wifi).address = _
    split_ifs <;> rfl

theorem address_apStart : (s.apStart build ok).address = s.address := by
  have hstarted : ∀ s : Wifi, s.apStarted.address = s.address := by
    intro s
    unfold apStarted
    split_ifs <;> rfl
  unfold apStart
  rw [hstarted]
  split_ifs <;> rfl

theorem address_apStaConnected : (s.apStaConnected build ok).address = s.address := by
  unfold apStaConnected
  split_ifs <;> rfl

theorem address_apStaDisconnected : (s.apStaDisconnected build scan).address = s.address := by
  unfold apStaDisconnected
  split_ifs
  · exact address_apScan
  · rfl
  · rfl

theorem address_staDisconnected : (s.staDisconnected ok).address = s.address := by
  unfold staDisconnected
  split_ifs <;> rfl

theorem address_start {mode : WifiMode} {ap sta : NetworkSettings} :
    (s.start mode ap sta scan).address = s.address := by
  have hconfigure : (s.configure mode ap sta).address = s.address := by
    unfold configure
    split_ifs
    · rfl
    · cases mode <;> rfl
  cases mode with
  | null | ap | sta => exact hconfigure
  | apsta => exact address_apScan.trans hconfigure

theorem published_apScan : ∃ scans, (s.apScan scan).published = s.published ++ scans := by
  unfold apScan dropScan
  split_ifs
  · exact ⟨_, rfl⟩
  · exact ⟨[], (List.append_nil _).symm⟩

theorem ipAquired_acquire : s.acquire.staStatus.ipAquired = true := by
  unfold acquire
  split_ifs with hset
  · exact hset
  · rfl

/-- A status event for the new address is published last. -/
def PublishesAddress (s t : Wifi) : Prop :=
  ∃ scans, t.published = s.published ++ scans ++ [⟨.sta, { ipAquired := true }, t.staStatus⟩] ∧
    t.staStatus.ipAquired = true

theorem gotIp_publishes (h : s.staStatus.ipAquired = false) :
    PublishesAddress s (s.gotIp build ok scan) := by
  -- the state in which `acquire` finds the flag
  have hbefore : ∃ u : Wifi, s.gotIp build ok scan = u.acquire ∧
      u.staStatus.ipAquired = s.staStatus.ipAquired ∧
      ∃ scans, u.published = s.published ++ scans := by
    refine ⟨_, rfl, ?_, ?_⟩
    · split_ifs
      · rfl
      · exact congrArg Prod.fst address_apScan
    · split_ifs
      · exact ⟨[], (List.append_nil _).symm⟩
      · exact published_apScan
  obtain ⟨u, hgot, hflag, scans, hpublished⟩ := hbefore
  refine ⟨scans, ?_, ?_⟩
  · rw [hgot, ← hpublished]
    unfold acquire
    rw [if_neg (by rw [hflag, h]; exact Bool.false_ne_true)]
    rfl
  · rw [hgot]
    exact ipAquired_acquire

end

end Wifi

/-! ## One event -/

/-- What an event does to the flag and to the ghost. -/
def addressAfter (s : Wifi) : WifiEvent → Bool × Bool
  | .staDisconnected _ => (s.staStatus.ipAquired, false)
  | .ip .staGotIp _ _ => (true, true)
  | .ip .staLostIp _ _ => (s.staStatus.ipAquired, false)
  | _ => s.address

theorem ipAquired_step {build : Build} {network : NetworkSettings} {s t : Wifi} {event : WifiEvent}
    (hst : (wifi build network).step s event = some t) : t.address = addressAfter s event := by
  cases event with
  | timer =>
    obtain ⟨_, ht⟩ := Option.ite_none_left_eq_some.1 hst
    obtain rfl := Option.some.inj ht
    rfl
  | start mode ap sta scan =>
    obtain rfl := Option.some.inj hst
    exact Wifi.address_start
  | apStart ok =>
    obtain rfl := Option.some.inj hst
    exact Wifi.address_apStart
  | apStaConnected ok =>
    obtain rfl := Option.some.inj hst
    exact Wifi.address_apStaConnected
  | apStaDisconnected scan =>
    obtain rfl := Option.some.inj hst
    exact Wifi.address_apStaDisconnected
  | staDisconnected ok =>
    obtain rfl := Option.some.inj hst
    exact congrArg (Prod.mk · false) (congrArg Prod.fst Wifi.address_staDisconnected)
  | scanDone mutex =>
    obtain rfl := Option.some.inj hst
    exact Wifi.address_scanDone
  | stop | staStart | staConnected =>
    obtain rfl := Option.some.inj hst
    rfl
  | ip id ok scan =>
    obtain rfl := Option.some.inj hst
    cases id with
    | staGotIp => exact congrArg (Prod.mk · true) Wifi.ipAquired_acquire
    | staLostIp => rfl

/-! ## Main result -/

/-- The station gets an address that it did not have. -/
def Acquires (s : Wifi) : WifiEvent → Prop
  | .ip .staGotIp _ _ => s.leased = false
  | _ => False

/-- The flag says whether the station has an address, and a new address is published. -/
def Truthful (s : Wifi) (event : WifiEvent) (t : Wifi) : Prop :=
  t.staStatus.ipAquired = t.leased ∧ (Acquires s event → Wifi.PublishesAddress s t)

/-- The condition on one event: it is not the loss of an address that the flag shows. -/
def NoLoss (s : Wifi) : WifiEvent → Prop
  | .staDisconnected _ => s.staStatus.ipAquired = false
  | .ip .staLostIp _ _ => s.staStatus.ipAquired = false
  | _ => True

theorem publishes_step {build : Build} {network : NetworkSettings} {s t : Wifi}
    {event : WifiEvent} (h : s.staStatus.ipAquired = s.leased)
    (hst : (wifi build network).step s event = some t) (hnew : Acquires s event) :
    Wifi.PublishesAddress s t := by
  rcases event with _ | _ | _ | _ | _ | _ | _ | _ | _ | ⟨id, ok, scan⟩ | _
  case ip =>
    obtain rfl := Option.some.inj hst
    cases id with
    | staGotIp =>
      have hflag : s.staStatus.ipAquired = false := h.trans hnew
      have hgot : Wifi.PublishesAddress s (s.gotIp build ok scan) := Wifi.gotIp_publishes hflag
      exact hgot
    | staLostIp => exact hnew.elim
  all_goals exact hnew.elim

theorem truthful_step_iff {build : Build} {network : NetworkSettings} {s t : Wifi}
    {event : WifiEvent} (h : s.staStatus.ipAquired = s.leased)
    (hst : (wifi build network).step s event = some t) :
    Truthful s event t ↔ NoLoss s event := by
  unfold Truthful
  rw [and_iff_left (publishes_step h hst)]
  obtain ⟨hflag, hleased⟩ := Prod.mk.inj (ipAquired_step hst)
  rw [hflag, hleased]
  rcases event with _ | _ | _ | _ | _ | _ | _ | _ | _ | ⟨id, _, _⟩ | _
  case staDisconnected => exact Iff.rfl
  case ip =>
    cases id with
    | staGotIp => exact iff_of_true rfl trivial
    | staLostIp => exact Iff.rfl
  all_goals exact iff_of_true h trivial

/-- For every build and every order of the station and IP events, with all others: the flag
    is on exactly while the station has an address and every new address is published iff
    neither a disconnect nor a loss of the address comes while the flag is on. -/
theorem wifi_address_truthful_iff (build : Build) (network : NetworkSettings)
    (events : List WifiEvent) :
    (wifi build network).Along Truthful (wifi build network).init events ↔
      (wifi build network).Along (fun s event _ => NoLoss s event) (wifi build network).init
        events := by
  refine Machine.along_congr (I := fun s => s.staStatus.ipAquired = s.leased)
    (fun s event _ t hs hst => ?_) rfl
  exact ⟨truthful_step_iff hs hst, And.left⟩

/-- The station gets an address and is disconnected. -/
theorem wifi_address_stale :
    let driver := wifi {.telnet} ⟨∅, ""⟩
    ¬driver.Along Truthful driver.init
      [.start .sta ⟨∅, ""⟩ ⟨{.telnet}, ""⟩ true, .ip .staGotIp (fun _ => true) true,
        .staDisconnected fun _ => true] := by
  intro driver halong
  obtain ⟨s₁, h₁, _, hrest⟩ := Machine.along_cons.1 halong
  obtain ⟨s₂, h₂, _, hrest⟩ := Machine.along_cons.1 hrest
  obtain ⟨s₃, h₃, hbad, _⟩ := Machine.along_cons.1 hrest
  obtain rfl := Option.some.inj h₁
  obtain rfl := Option.some.inj h₂
  obtain rfl := Option.some.inj h₃
  exact absurd hbad.1 (by decide)

end Esp32Embroidery.Net
