import Esp32Embroidery.Lib.Machine
import Esp32Embroidery.Motor.LinearMotor

/-!
# Two controllers on one spindle

`motor_control.c` and `linear_motor.c` drive the same PWM channel and read the
same pulse counter. Their enable functions call each other; their targets,
on-flags and timer callbacks are their own.

Results:
* `not_both_enabled`: at most one of the enable flags is set.
* `shared_output_owned`: the output is only driven by the enabled controller as
  long as the linear motor is only switched on while the ADRC controller is idle.
-/

namespace Esp32Embroidery.Motor

open Esp32Embroidery.Lib

/-! ## Model -/

section Model

variable {F : Type*} [CFloat F]

open CFloat (ofRat)

/-- `motor_util_motor_enabled` and `motor_util_target_rpm` (`motor_util.c`). -/
structure MotorUtil (F : Type*) where
  motorEnabled : Bool
  targetRpm : F

/-- Both controllers, `motor_util.c` and the duty last written to
    `LEDC_CHANNEL_0`. -/
structure Spindle (F : Type*) where
  adrc : Adrc F
  linear : LinearMotor F
  util : MotorUtil F
  duty : Option ℕ

/-- After both init functions, with both controllers disabled. -/
def Spindle.init : Spindle F where
  adrc := .init
  linear := .init
  util := ⟨false, ofRat 0⟩
  duty := none

/-- `motor_control_enabled = enabled`. -/
def Spindle.storeMotorControlEnabled (s : Spindle F) (enabled : Bool) : Spindle F :=
  { s with adrc := { s.adrc with motorControlEnabled := enabled } }

/-- `linear_motor_enabled = on; motor_util_enable(on);`. -/
def Spindle.storeLinearMotorEnabled (s : Spindle F) (on : Bool) : Spindle F :=
  { s with linear := { s.linear with enabled := on }, util := { s.util with motorEnabled := on } }

/-- `motor_control_enable` (`motor_control.c` lines 52–63); `linear_motor_enable(false)`
    only stores. -/
def Spindle.motorControlEnable (s : Spindle F) (enabled : Bool) : Spindle F :=
  let s := s.storeMotorControlEnabled enabled
  if enabled then s.storeLinearMotorEnabled false else s

/-- `linear_motor_enable` (`linear_motor.c` lines 72–79); `motor_control_enable(false)`
    only stores. -/
def Spindle.linearMotorEnable (s : Spindle F) (on : Bool) : Spindle F :=
  let s := s.storeLinearMotorEnabled on
  if on then s.storeMotorControlEnabled false else s

/-- `set_adrc_spindle_speed` (`motor_control.c` lines 281–305). -/
def Spindle.setAdrcSpindleSpeed (s : Spindle F) (rpm : F) : Spindle F :=
  let s :=
    if CFloat.lt (ofRat 0) rpm && !s.adrc.motorControlEnabled then s.motorControlEnable true else s
  { s with adrc := s.adrc.setSpeed rpm }

/-- `linear_motor_set_rpm` (`linear_motor.c` lines 124–143). -/
def Spindle.linearMotorSetRpm (s : Spindle F) (targetRpm : ℤ) : Spindle F :=
  let s := if targetRpm > 0 ∧ !s.linear.enabled then s.linearMotorEnable true else s
  let linear := s.linear.setTarget targetRpm
  { s with linear := linear, util := { s.util with targetRpm := ofRat linear.targetRpm } }

/-- `adrc_spindle_ticker`. -/
def Spindle.adrcSpindleTicker (s : Spindle F) (pulseCount : ℤ) : Spindle F :=
  let (adrc, accesses) := s.adrc.ticker pulseCount
  { s with adrc := adrc, duty := lastDuty s.duty accesses }

/-- `take_sample`. -/
def Spindle.takeSample (s : Spindle F) (pulseCount : ℤ) : Spindle F :=
  let sample := s.linear.takeSample pulseCount
  { s with linear := sample.motor, duty := lastDuty s.duty sample.accesses }

/-- `linear_motor_set_uv`, as `linear_motor_trim` (`linear_motor.c` lines 147–152)
    calls it before and after `vTaskDelay`. -/
def Spindle.linearMotorSetUv (s : Spindle F) (uv : ℤ) : Spindle F :=
  let (linear, write) := s.linear.setUv uv
  { s with linear := linear, duty := lastDuty s.duty [write] }

inductive SpindleEvent (F : Type*)
  | setAdrc (rpm : F)
  | setLinear (targetRpm : ℤ)
  | adrcTick (pulseCount : ℤ)
  | sample (pulseCount : ℤ)
  /-- `linear_motor_trim` before `vTaskDelay` -/
  | trim
  /-- `linear_motor_trim` after `vTaskDelay` -/
  | trimDone

def Spindle.next (s : Spindle F) : SpindleEvent F → Spindle F
  | .setAdrc rpm => s.setAdrcSpindleSpeed rpm
  | .setLinear targetRpm => s.linearMotorSetRpm targetRpm
  | .adrcTick pulseCount => s.adrcSpindleTicker pulseCount
  | .sample pulseCount => s.takeSample pulseCount
  | .trim => s.linearMotorSetUv lmConfig.trimUv
  | .trimDone => s.linearMotorSetUv lmConfig.idleUv

variable (F) in
/-- Set calls, trims and callbacks in any order. -/
def spindleTasks : Machine (Spindle F) (SpindleEvent F) where
  init := .init
  step s e := some (s.next e)

end Model

/-! ## What the set calls do -/

section SetCalls

variable {F : Type*} [CFloat F]

/-- `set_adrc_spindle_speed` from line 288 on: the target stays or becomes the
    argument, and the flags stay. -/
theorem setSpeed_keeps (a : Adrc F) (rpm : F) :
    (a.setSpeed rpm).motorControlEnabled = a.motorControlEnabled ∧
    (a.setSpeed rpm).spindleOn = a.spindleOn ∧
    ((a.setSpeed rpm).targetRpm = a.targetRpm ∨ (a.setSpeed rpm).targetRpm = dropNegative rpm) := by
  by_cases heq : CFloat.eq a.targetRpm (dropNegative rpm) = true
  · simp [Adrc.setSpeed, heq]
  · simp only [Adrc.setSpeed, heq]
    exact ⟨rfl, rfl, .inr rfl⟩

theorem setAdrcSpindleSpeed_enabled (s : Spindle F) (rpm : F) :
    (s.setAdrcSpindleSpeed rpm).adrc.motorControlEnabled = true ↔
      s.adrc.motorControlEnabled = true ∨ CFloat.lt (CFloat.ofRat 0) rpm = true := by
  simp only [Spindle.setAdrcSpindleSpeed, (setSpeed_keeps _ rpm).1]
  split_ifs with h
  · simp only [Bool.and_eq_true] at h
    simp [Spindle.motorControlEnable, Spindle.storeMotorControlEnabled,
      Spindle.storeLinearMotorEnabled, h.1]
  · cases hen : s.adrc.motorControlEnabled with
    | true => simp
    | false => simpa [hen] using h

/-- `set_adrc_spindle_speed` disables the linear motor when it enables its own
    controller, and touches nothing else of it. -/
theorem setAdrcSpindleSpeed_linear (s : Spindle F) (rpm : F) :
    (s.setAdrcSpindleSpeed rpm).linear = s.linear ∧
        (s.setAdrcSpindleSpeed rpm).adrc.motorControlEnabled = s.adrc.motorControlEnabled ∨
      (s.setAdrcSpindleSpeed rpm).linear = { s.linear with enabled := false } := by
  simp only [Spindle.setAdrcSpindleSpeed, (setSpeed_keeps _ rpm).1]
  split_ifs
  · exact .inr rfl
  · exact .inl ⟨rfl, rfl⟩

/-- Whatever it enables, the rest of the linear motor stays. -/
theorem exists_setAdrcSpindleSpeed_linear (s : Spindle F) (rpm : F) :
    ∃ enabled, (s.setAdrcSpindleSpeed rpm).linear = { s.linear with enabled := enabled } := by
  rcases setAdrcSpindleSpeed_linear s rpm with ⟨hlin, -⟩ | hlin
  · exact ⟨s.linear.enabled, hlin⟩
  · exact ⟨false, hlin⟩

/-- The target of the ADRC controller stays or becomes the argument. -/
theorem setAdrcSpindleSpeed_target (s : Spindle F) (rpm : F) :
    (s.setAdrcSpindleSpeed rpm).adrc.spindleOn = s.adrc.spindleOn ∧
    ((s.setAdrcSpindleSpeed rpm).adrc.targetRpm = s.adrc.targetRpm ∨
      (s.setAdrcSpindleSpeed rpm).adrc.targetRpm = dropNegative rpm) := by
  simp only [Spindle.setAdrcSpindleSpeed]
  split_ifs
  · exact (setSpeed_keeps _ rpm).2
  · exact (setSpeed_keeps _ rpm).2

theorem linearMotorSetRpm_enabled (s : Spindle F) (targetRpm : ℤ) :
    (s.linearMotorSetRpm targetRpm).linear.enabled = true ↔
      s.linear.enabled = true ∨ targetRpm > 0 := by
  simp only [Spindle.linearMotorSetRpm, Bool.not_eq_true']
  split_ifs with h
  · simp [LinearMotor.setTarget, Spindle.linearMotorEnable, Spindle.storeLinearMotorEnabled,
      Spindle.storeMotorControlEnabled, h.1]
  · cases hen : s.linear.enabled with
    | true => simp [LinearMotor.setTarget, hen]
    | false => simpa [LinearMotor.setTarget, hen] using h

/-- `linear_motor_set_rpm` disables the ADRC controller when it enables its own. -/
theorem linearMotorSetRpm_adrc (s : Spindle F) (targetRpm : ℤ) :
    (s.linearMotorSetRpm targetRpm).adrc =
      if targetRpm > 0 ∧ s.linear.enabled = false then
        { s.adrc with motorControlEnabled := false }
      else s.adrc := by
  simp only [Spindle.linearMotorSetRpm, Bool.not_eq_true']
  split_ifs <;> rfl

/-- A positive target switches the motor on, and only a callback switches it off. -/
theorem linearMotorSetRpm_on (s : Spindle F) (targetRpm : ℤ) :
    (s.linear.on = true → (s.linearMotorSetRpm targetRpm).linear.on = true) ∧
    ((s.linearMotorSetRpm targetRpm).linear.targetRpm ≠ 0 →
      (s.linearMotorSetRpm targetRpm).linear.on = true) := by
  have key : ∀ m : LinearMotor F, (m.on = true → (m.setTarget targetRpm).on = true) ∧
      ((m.setTarget targetRpm).targetRpm ≠ 0 → (m.setTarget targetRpm).on = true) := by
    intro m
    by_cases hpos : targetRpm ≤ 0
    · simp [LinearMotor.setTarget, hpos]
    · have hset : (if targetRpm > lmConfig.maxRpm then lmConfig.maxRpm else targetRpm) > 0 := by
        simp only [lmConfig]
        split_ifs <;> omega
      simp only [LinearMotor.setTarget, hpos, if_false, hset, if_true, implies_true, and_self]
  simp only [Spindle.linearMotorSetRpm]
  split_ifs
  · exact key _
  · exact key _

end SetCalls

/-! ## Ownership of the output -/

section Ownership

variable {F : Type*} [CFloat F]

/-- At most one of the enable flags is set. -/
theorem not_both_enabled {s : Spindle F} (h : (spindleTasks F).Reachable s) :
    ¬ (s.adrc.motorControlEnabled = true ∧ s.linear.enabled = true) := by
  refine h.invariant (I := fun s => ¬ (s.adrc.motorControlEnabled = true ∧
    s.linear.enabled = true)) (by simp [spindleTasks, Spindle.init, Adrc.init]) ?_
  rintro s e _ - hs ⟨⟩ -
  cases e with
  | setAdrc rpm =>
    simp only [Spindle.next]
    rcases setAdrcSpindleSpeed_linear s rpm with ⟨hlin, hen⟩ | hlin
    · rw [hlin, hen]
      exact hs
    · simp [hlin]
  | setLinear targetRpm =>
    simp only [Spindle.next]
    rw [linearMotorSetRpm_adrc, linearMotorSetRpm_enabled]
    split_ifs with hon
    · simp
    · rintro ⟨hen, hlin | hpos⟩
      · exact hs ⟨hen, hlin⟩
      · have hlin : s.linear.enabled = true := by
          by_contra hoff
          exact hon ⟨hpos, by simpa using hoff⟩
        exact hs ⟨hen, hlin⟩
  | adrcTick pulseCount =>
    simp only [Spindle.next, Spindle.adrcSpindleTicker]
    rw [(ticker_keeps s.adrc pulseCount).2]
    exact hs
  | sample pulseCount =>
    simp only [Spindle.next, Spindle.takeSample]
    rw [(takeSample_keeps s.linear pulseCount).2.1]
    exact hs
  | trim => exact hs
  | trimDone => exact hs

/-- The linear motor is only switched on while the ADRC controller is idle, and no
    ADRC target is NaN (neither positive nor at most 0). -/
def HandsOver (s : Spindle F) (e : SpindleEvent F) (_ : Spindle F) : Prop :=
  match e with
  | .setLinear targetRpm => targetRpm > 0 → s.linear.enabled = false → s.adrc.Idle
  | .setAdrc rpm =>
    CFloat.lt (CFloat.ofRat 0) rpm = true ∨
      CFloat.le (dropNegative rpm) (CFloat.ofRat 0) = true
  | _ => True

theorem idle_or_enabled {s : Spindle F} (h : (spindleTasks F).ReachableBy HandsOver s) :
    s.adrc.Idle ∨ s.adrc.motorControlEnabled = true := by
  refine h.invariant (I := fun s => s.adrc.Idle ∨ s.adrc.motorControlEnabled = true)
    (.inl ⟨CFloat.zero_le_zero, rfl⟩) ?_
  rintro s e _ - hs ⟨⟩ hP
  cases e with
  | setAdrc rpm =>
    simp only [Spindle.next]
    rw [setAdrcSpindleSpeed_enabled]
    obtain ⟨hon, htarget⟩ := setAdrcSpindleSpeed_target s rpm
    rcases hs with ⟨hstop, hoff⟩ | hen
    · rcases hP with hpos | hzero
      · exact .inr (.inr hpos)
      · left
        refine ⟨?_, hon.trans hoff⟩
        unfold Adrc.stopped at hstop ⊢
        rcases htarget with heq | heq
        · rw [heq]; exact hstop
        · rw [heq]; exact hzero
    · exact .inr (.inl hen)
  | setLinear targetRpm =>
    simp only [Spindle.next]
    rw [linearMotorSetRpm_adrc]
    split_ifs with hsw
    · exact .inl (hP hsw.1 hsw.2)
    · exact hs
  | adrcTick pulseCount =>
    simp only [Spindle.next, Spindle.adrcSpindleTicker]
    rcases hs with hidle | hen
    · rw [ticker_idle s.adrc pulseCount hidle]
      exact .inl hidle
    · rw [(ticker_keeps s.adrc pulseCount).2]
      exact .inr hen
  | sample pulseCount => exact hs
  | trim => exact hs
  | trimDone => exact hs

/-- Switching the linear motor on while the ADRC controller is not idle: the ADRC
    callback goes on driving the output although its controller is disabled. -/
theorem handover_while_turning {s : Spindle F} {targetRpm : ℤ} (hpos : targetRpm > 0)
    (hoff : s.linear.enabled = false) (hturn : ¬ s.adrc.Idle) (pulseCount : ℤ) :
    ((s.linearMotorSetRpm targetRpm).adrc.ticker pulseCount).2 ≠ [] ∧
      (s.linearMotorSetRpm targetRpm).adrc.motorControlEnabled = false := by
  rw [linearMotorSetRpm_adrc, if_pos ⟨hpos, hoff⟩, Ne, ticker_accesses]
  exact ⟨hturn, rfl⟩

/-- The enable flags are exclusive and `take_sample` obeys its own, in every
    reachable state. The ADRC callback accesses the hardware only when its controller
    is enabled, exactly in the states in which it is enabled or idle; these are all
    states of a run in which the linear motor is only switched on while the ADRC
    controller is idle (and no target is NaN), and a switch at another time
    breaks it at once. -/
theorem shared_output_owned (F : Type*) [CFloat F] :
    (∀ s, (spindleTasks F).Reachable s →
      ¬ (s.adrc.motorControlEnabled = true ∧ s.linear.enabled = true) ∧
      ∀ pulseCount, ((s.linear.takeSample pulseCount).accesses ≠ [] → s.linear.enabled = true) ∧
        (((s.adrc.ticker pulseCount).2 ≠ [] → s.adrc.motorControlEnabled = true) ↔
          s.adrc.Idle ∨ s.adrc.motorControlEnabled = true)) ∧
    (∀ s, (spindleTasks F).ReachableBy HandsOver s → ∀ pulseCount,
      (s.adrc.ticker pulseCount).2 ≠ [] → s.adrc.motorControlEnabled = true) ∧
    (∀ (s : Spindle F) (targetRpm pulseCount : ℤ), targetRpm > 0 → s.linear.enabled = false →
      ¬ s.adrc.Idle → ((s.linearMotorSetRpm targetRpm).adrc.ticker pulseCount).2 ≠ [] ∧
        (s.linearMotorSetRpm targetRpm).adrc.motorControlEnabled = false) := by
  refine ⟨fun s h => ⟨not_both_enabled h, fun pulseCount => ⟨?_, ?_⟩⟩, fun s h pulseCount hacc => ?_,
    fun s targetRpm pulseCount hpos hoff hturn => handover_while_turning hpos hoff hturn pulseCount⟩
  · exact takeSample_accesses s.linear pulseCount
  · rw [Ne, ticker_accesses]
    tauto
  · rw [Ne, ticker_accesses] at hacc
    exact (idle_or_enabled h).resolve_left hacc

instance (s : Spindle ℚ) (e : SpindleEvent ℚ) (t : Spindle ℚ) : Decidable (HandsOver s e t) :=
  match e with
  | .setLinear targetRpm =>
    inferInstanceAs (Decidable (targetRpm > 0 → s.linear.enabled = false → s.adrc.Idle))
  | .setAdrc rpm => inferInstanceAs (Decidable (CFloat.lt (CFloat.ofRat 0) rpm = true ∨
      CFloat.le (dropNegative rpm) (CFloat.ofRat 0) = true))
  | .adrcTick _ | .sample _ | .trim | .trimDone => .isTrue trivial

/-- The ADRC controller runs, enabled. -/
theorem shared_output_owned_running :
    ∃ s, (spindleTasks ℚ).run .init [.setAdrc 1000, .adrcTick 10] = some s ∧
      (s.adrc.ticker 10).2 ≠ [] ∧ s.adrc.motorControlEnabled = true := by
  obtain ⟨s, hrun, hs, hidle⟩ := (spindleTasks ℚ).exists_reachableBy HandsOver
    [.setAdrc 1000, .adrcTick 10] (fun s => decide s.adrc.Idle) (v := false) (by decide +kernel)
    (by decide +kernel)
  have hacc : (s.adrc.ticker 10).2 ≠ [] := by
    rw [Ne, ticker_accesses]
    simpa using hidle
  exact ⟨s, hrun, hacc, (shared_output_owned ℚ).2.1 s hs 10 hacc⟩

/-- The linear motor is switched on while the ADRC controller runs. -/
theorem shared_output_not_owned :
    ¬ ∀ s, (spindleTasks ℚ).Reachable s → ∀ pulseCount,
      (s.adrc.ticker pulseCount).2 ≠ [] → s.adrc.motorControlEnabled = true := by
  intro h
  obtain ⟨s, -, hs, hv⟩ := (spindleTasks ℚ).exists_reachable [.setAdrc 1000, .setLinear 100]
    (fun s => (decide s.adrc.Idle, s.adrc.motorControlEnabled)) (v := (false, false))
    (by decide +kernel)
  obtain ⟨hidle, hoff⟩ := Prod.mk.inj hv
  have hon := h s hs 0 (by rw [Ne, ticker_accesses]; simpa using hidle)
  rw [hoff] at hon
  cases hon

end Ownership

end Esp32Embroidery.Motor
