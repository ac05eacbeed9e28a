import Esp32Embroidery.Lib.CArith
import Esp32Embroidery.Lib.Machine

/-!
# Loss of motor power (`main/boards/ooznest_cnc.c`)

`ina219_task` measures the bus voltage and enqueues `raise_power_alarm` when the voltage
fails. The alarm starts `check_power_restored`, which comes back every 250 ms until the
voltage is there again. The callbacks run one at a time, in any order.

Results:
* `PowerInv.measured`, `PowerInv.raise`, `PowerInv.check`: each task keeps the invariant.
* `powerMonitor_invariant`: in each power state exactly its own callback is pending, and
  there is one alarm for each loss of power.
-/

namespace Esp32Embroidery.Board

open Esp32Embroidery.Lib
open CFloat (ofRat lt)

/-! ## Model -/

/-- `power_state_t` (lines 56–60). -/
inductive PowerState
  | on
  | alarm
  | lost
  deriving DecidableEq

/-- The static variables (lines 52–64), the number of times each callback is pending and, as
    ghosts, the alarms raised and the moments observed so far: the voltage measured last and
    the power state, newest first. -/
structure PowerMonitor (F : Type*) where
  lastVbusV : F
  powerState : PowerState
  vinWasOk : Bool
  powerLostDuringMotion : Bool
  messages : List String
  raisePending : ℕ
  checkPending : ℕ
  alarms : ℕ
  history : List (F × PowerState)

/-- A task runs. `poll` has the bus voltage register if both transfers succeeded, and whether
    the machine is in `STATE_CYCLE`, `STATE_JOG` or `STATE_HOMING`. -/
inductive PowerEvent
  | poll (busReg : Option (BitVec 16)) (moving : Bool)
  | raise
  | check

section Model

variable {F : Type*} [CFloat F]

/-- The first values of the variables. -/
def PowerMonitor.init : PowerMonitor F where
  lastVbusV := ofRat 0
  powerState := .on
  vinWasOk := false
  powerLostDuringMotion := false
  messages := []
  raisePending := 0
  checkPending := 0
  alarms := 0
  history := []

/-- `vbus_v` (line 279). -/
def vbusV (busReg : BitVec 16) : F := ofRat (busReg >>> 3).toNat * ofRat 0.004

/-- `ina219_task` behind a successful measurement (lines 283–293). -/
def measured (vbus : F) (moving : Bool) (s : PowerMonitor F) : PowerMonitor F :=
  let s := { s with lastVbusV := vbus, history := (vbus, s.powerState) :: s.history }
  if lt (ofRat 19) vbus then { s with vinWasOk := true }
  else if s.vinWasOk && lt vbus (ofRat 18) && s.powerState = .on then
    { s with
      vinWasOk := false
      powerState := .alarm
      powerLostDuringMotion := moving
      raisePending := s.raisePending + 1 }
  else s

/-- `raise_power_alarm` (lines 298–306). -/
def raisePowerAlarm (s : PowerMonitor F) : PowerMonitor F :=
  let s :=
    if s.powerState = .alarm then
      { s with alarms := s.alarms + 1, checkPending := s.checkPending + 1 }
    else s
  { s with powerState := .lost, history := (s.lastVbusV, .lost) :: s.history }

/-- The report of `check_power_restored`. -/
def restoredMessage (powerLostDuringMotion : Bool) : String :=
  if powerLostDuringMotion then
    "Motor power restored - check workpiece, position may be lost"
  else "Motor power restored"

/-- `check_power_restored` (lines 308–330). -/
def checkPowerRestored (s : PowerMonitor F) : PowerMonitor F :=
  if s.powerState ≠ .lost then s
  else if lt (ofRat 19) s.lastVbusV then
    { s with
      powerState := .on
      vinWasOk := true
      powerLostDuringMotion := false
      messages := s.messages ++ [restoredMessage s.powerLostDuringMotion]
      history := (s.lastVbusV, .on) :: s.history }
  else { s with checkPending := s.checkPending + 1 }

variable (F) in
/-- A callback runs once for each time it is pending. -/
def powerMonitor : Machine (PowerMonitor F) PowerEvent where
  init := .init
  step s
    | .poll none _ => some s
    | .poll (some busReg) moving => some (measured (vbusV busReg) moving s)
    | .raise =>
      if s.raisePending = 0 then none
      else some (raisePowerAlarm { s with raisePending := s.raisePending - 1 })
    | .check =>
      if s.checkPending = 0 then none
      else some (checkPowerRestored { s with checkPending := s.checkPending - 1 })

/-! ## Losses of power -/

/-- While in `Power_On`, the voltage exceeded 19 V and has not been below 18 V since. -/
def armed : List (F × PowerState) → Bool
  | [] => false
  | (vbus, powerState) :: history =>
    if powerState ≠ .on then armed history
    else if lt (ofRat 19) vbus then true
    else if lt vbus (ofRat 18) then false
    else armed history

/-- The number of times that the voltage dropped below 18 V after having exceeded 19 V
    while in `Power_On`. -/
def episodes : List (F × PowerState) → ℕ
  | [] => 0
  | (vbus, powerState) :: history =>
    if powerState = .on ∧ lt (ofRat 19) vbus = false ∧ lt vbus (ofRat 18) = true ∧
        armed history = true then
      episodes history + 1
    else episodes history

/-- The callbacks that belong to each power state. -/
def tasksOf : PowerState → ℕ × ℕ
  | .on => (0, 0)
  | .alarm => (1, 0)
  | .lost => (0, 1)

/-- The invariant of the three tasks. -/
structure PowerInv (s : PowerMonitor F) : Prop where
  tasks : (s.raisePending, s.checkPending) = tasksOf s.powerState
  armed : s.powerState = .on → armed s.history = s.vinWasOk
  alarms : s.alarms + s.raisePending = episodes s.history

/-! ## The tasks keep the invariant -/

theorem episodes_high {vbus : F} (hhigh : lt (ofRat 19) vbus = true) {powerState : PowerState}
    {history : List (F × PowerState)} :
    episodes ((vbus, powerState) :: history) = episodes history := by
  rw [episodes, if_neg]
  intro ⟨_, hlow, _⟩
  exact absurd hhigh (by rw [hlow]; exact Bool.false_ne_true)

omit [CFloat F] in
theorem raisePowerAlarm_eq {s : PowerMonitor F} (h : s.powerState = .alarm) :
    raisePowerAlarm s =
      { s with
        alarms := s.alarms + 1
        checkPending := s.checkPending + 1
        powerState := .lost
        history := (s.lastVbusV, .lost) :: s.history } := by
  unfold raisePowerAlarm
  rw [if_pos h]

theorem powerInv_init : PowerInv (PowerMonitor.init : PowerMonitor F) where
  tasks := rfl
  armed _ := rfl
  alarms := rfl

namespace PowerInv

variable {s : PowerMonitor F}

theorem measured (h : PowerInv s) (vbus : F) (moving : Bool) :
    PowerInv (measured vbus moving s) := by
  unfold Board.measured
  by_cases hhigh : lt (ofRat 19) vbus = true
  · rw [if_pos hhigh]
    refine ⟨h.tasks, fun hon => ?_, ?_⟩
    · show Board.armed ((vbus, s.powerState) :: s.history) = true
      rw [Board.armed, if_neg (not_not.2 hon), if_pos hhigh]
    · exact h.alarms.trans (episodes_high hhigh).symm
  · rw [if_neg hhigh]
    split_ifs with hdrop
    · -- the drop: the loss moves from `armed` to `raisePending`
      rw [Bool.and_eq_true, Bool.and_eq_true, decide_eq_true_iff] at hdrop
      obtain ⟨⟨hok, hlow⟩, hon⟩ := hdrop
      have harmed : Board.armed s.history = true := (h.armed hon).trans hok
      have htasks := h.tasks
      rw [hon] at htasks
      obtain ⟨hraise, hcheck⟩ := Prod.mk.inj htasks
      refine ⟨?_, (fun halarm => by cases halarm), ?_⟩
      · show (s.raisePending + 1, s.checkPending) = (1, 0)
        rw [hraise, hcheck]
      · show s.alarms + (s.raisePending + 1) = episodes ((vbus, s.powerState) :: s.history)
        have hcount := h.alarms
        rw [episodes, if_pos ⟨hon, eq_false_of_ne_true hhigh, hlow, harmed⟩]
        omega
    · rw [Bool.and_eq_true, Bool.and_eq_true, decide_eq_true_iff] at hdrop
      refine ⟨h.tasks, fun hon => ?_, ?_⟩
      · show Board.armed ((vbus, s.powerState) :: s.history) = s.vinWasOk
        rw [Board.armed, if_neg (not_not.2 hon), if_neg hhigh]
        split_ifs with hlow
        · exact (eq_false_of_ne_true fun hok => hdrop ⟨⟨hok, hlow⟩, hon⟩).symm
        · exact h.armed hon
      · refine h.alarms.trans ?_
        rw [episodes, if_neg]
        intro ⟨hon, _, hlow, harmed⟩
        exact hdrop ⟨⟨(h.armed hon).symm.trans harmed, hlow⟩, hon⟩

theorem tasks_eq (h : PowerInv s) {powerState : PowerState}
    (hstate : s.powerState = powerState) :
    s.raisePending = (tasksOf powerState).1 ∧ s.checkPending = (tasksOf powerState).2 := by
  subst hstate
  exact Prod.mk.inj h.tasks

theorem state_of_raise (h : PowerInv s) (hpending : s.raisePending ≠ 0) :
    s.powerState = .alarm := by
  cases hstate : s.powerState with
  | alarm => rfl
  | on | lost => exact absurd (h.tasks_eq hstate).1 hpending

theorem state_of_check (h : PowerInv s) (hpending : s.checkPending ≠ 0) :
    s.powerState = .lost := by
  cases hstate : s.powerState with
  | lost => rfl
  | on | alarm => exact absurd (h.tasks_eq hstate).2 hpending

theorem raise (h : PowerInv s) (hpending : s.raisePending ≠ 0) :
    PowerInv (raisePowerAlarm { s with raisePending := s.raisePending - 1 }) := by
  have hstate := h.state_of_raise hpending
  obtain ⟨hraise, hcheck⟩ := h.tasks_eq hstate
  have hcount := h.alarms
  rw [raisePowerAlarm_eq (s := { s with raisePending := s.raisePending - 1 }) hstate]
  refine ⟨?_, (fun hon => by cases hon), ?_⟩
  · show (s.raisePending - 1, s.checkPending + 1) = (0, 1)
    rw [hraise, hcheck]
    rfl
  · show s.alarms + 1 + (s.raisePending - 1) = episodes s.history
    omega

theorem check (h : PowerInv s) (hpending : s.checkPending ≠ 0) :
    PowerInv (checkPowerRestored { s with checkPending := s.checkPending - 1 }) := by
  have hstate := h.state_of_check hpending
  obtain ⟨hraise, hcheck⟩ := h.tasks_eq hstate
  unfold checkPowerRestored
  rw [if_neg (not_not.2 hstate)]
  split_ifs with hhigh
  · refine ⟨?_, fun _ => ?_, ?_⟩
    · show (s.raisePending, s.checkPending - 1) = (0, 0)
      rw [hraise, hcheck]
      rfl
    · show Board.armed ((s.lastVbusV, .on) :: s.history) = true
      rw [Board.armed, if_neg (not_not.2 rfl), if_pos hhigh]
    · exact h.alarms.trans (episodes_high hhigh).symm
  · refine ⟨?_, h.armed, h.alarms⟩
    show (s.raisePending, s.checkPending - 1 + 1) = tasksOf s.powerState
    rw [hraise, hcheck, hstate]
    rfl

end PowerInv

theorem powerInv_reachable {s : PowerMonitor F} (h : (powerMonitor F).Reachable s) :
    PowerInv s := by
  refine h.invariant powerInv_init fun s event t _ hs hst _ => ?_
  rcases event with ⟨_ | busReg, moving⟩ | _ | _
  · cases hst
    exact hs
  · cases hst
    exact hs.measured _ moving
  · by_cases hpending : s.raisePending = 0
    · cases (if_pos hpending).symm.trans hst
    · cases (if_neg hpending).symm.trans hst
      exact hs.raise hpending
  · by_cases hpending : s.checkPending = 0
    · cases (if_pos hpending).symm.trans hst
    · cases (if_neg hpending).symm.trans hst
      exact hs.check hpending

/-- Exactly the callback of the power state is pending, and every loss of power has its
    alarm, the last one when `raise_power_alarm` has run. -/
theorem powerMonitor_invariant {s : PowerMonitor F} (h : (powerMonitor F).Reachable s) :
    (s.powerState = .on → s.raisePending = 0 ∧ s.checkPending = 0) ∧
      (s.powerState = .alarm → s.raisePending = 1 ∧ s.checkPending = 0) ∧
      (s.powerState = .lost → s.raisePending = 0 ∧ s.checkPending = 1) ∧
      s.alarms + s.raisePending = episodes s.history := by
  have hinv := powerInv_reachable h
  exact ⟨hinv.tasks_eq, hinv.tasks_eq, hinv.tasks_eq, hinv.alarms⟩

end Model

/-- 20 V, then 16 V: the alarm is enqueued, raised, and power is checked. -/
theorem powerMonitor_invariant_lost :
    ∃ s, (powerMonitor ℚ).run (powerMonitor ℚ).init
        [.poll (some 40000) false, .poll (some 32000) true, .raise] = some s ∧
      s.alarms + s.raisePending = episodes s.history ∧ s.alarms = 1 := by
  obtain ⟨s, hrun, hreach, hone⟩ := (powerMonitor ℚ).exists_reachable
    [.poll (some 40000) false, .poll (some 32000) true, .raise] PowerMonitor.alarms
    (v := 1) (by decide +kernel)
  exact ⟨s, hrun, (powerMonitor_invariant hreach).2.2.2, hone⟩

end Esp32Embroidery.Board
