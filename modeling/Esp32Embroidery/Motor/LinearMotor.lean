import Esp32Embroidery.Motor.Adrc

/-!
# The linear motor controller (`main/custom/linear_motor.c`)

Model of the configuration, `uv_to_pwm`, `write_hardware_pwm`,
`linear_motor_set_uv`, `linear_motor_trim` and the timer callback `take_sample`,
over any floating-point type. The `int32_t` arithmetic of the callback wraps;
the exact results of its computations are returned as well.

Results:
* `takeSample_disabled`, `takeSample_stop`, `takeSample_off`,
  `takeSample_run`: what the callback does.
* `takeSample_accesses`: it accesses the hardware only when enabled.
-/

namespace Esp32Embroidery.Motor

open Esp32Embroidery.Lib

/-! ## Configuration and PWM -/

/-- `linear_motor_config_t` (lines 56–70). -/
structure LinearMotorConfig where
  minRpm : ℤ
  maxRpm : ℤ
  trimDelay : ℤ
  idleUv : ℤ
  trimUv : ℤ
  minRpmUv : ℤ
  minRpmMaxUv : ℤ
  maxUv : ℤ
  voltRampUp : ℤ
  voltRampDown : ℤ

/-- `lm_config` after `linear_motor_load_config` (lines 275–290). -/
def lmConfig : LinearMotorConfig where
  minRpm := 200
  maxRpm := 3000
  trimDelay := 5
  idleUv := 1000000
  trimUv := 250000
  minRpmUv := 2000000
  minRpmMaxUv := 3300000
  maxUv := 4700000
  voltRampUp := 1000
  voltRampDown := 1000 * 2

/-- `lm_Kp`, `lm_Ki_scaled` and `INTEGRAL_LIMIT` (lines 43–47). -/
def lmKp : ℤ := 40

def lmKiScaled : ℤ := 2

def integralLimit : ℤ := 1000

/-- `uv_to_pwm` (lines 22–25) with `SYSTEM_MAX_UV = 4720000` and `PWM_MAX_DUTY`
    of the 10-bit timer; the product is computed in 64 bits. -/
def uvToPwm (targetUv : ℕ) : ℕ :=
  if targetUv ≥ 4720000 then 1023 else targetUv * 1023 / 4720000

theorem uvToPwm_le (targetUv : ℕ) : uvToPwm targetUv ≤ 1023 := by
  unfold uvToPwm
  split_ifs <;> omega

/-- `write_hardware_pwm` (lines 82–91). -/
def writeHardwarePwm (duty : ℤ) : Access :=
  let duty := if duty < 0 then 0 else duty
  let duty := if duty > 1023 then 1023 else duty
  .setDuty duty.toNat

/-- The duty `linear_motor_set_uv` writes. -/
def dutyOfUv (uv : ℤ) : ℕ := uvToPwm (toUint32 uv)

theorem writeHardwarePwm_uvToPwm (uv : ℤ) :
    writeHardwarePwm (uvToPwm (toUint32 uv)) = .setDuty (dutyOfUv uv) := by
  have hle := uvToPwm_le (toUint32 uv)
  have hpos : ¬ ((uvToPwm (toUint32 uv) : ℤ) < 0) := by omega
  have htop : ¬ ((uvToPwm (toUint32 uv) : ℤ) > 1023) := by omega
  simp only [writeHardwarePwm, hpos, htop, if_false, dutyOfUv, Int.toNat_natCast]

/-! ## Model -/

section Model

variable {F : Type*} [CFloat F]

open CFloat (ofRat toInt)

/-- The static variables of `linear_motor.c` (lines 29–42). -/
structure LinearMotor (F : Type*) where
  enabled : Bool
  on : Bool
  targetRpm : ℤ
  uv : ℤ
  pulses : BitVec 32
  samples : BitVec 32
  rawRpm : F
  currentRpm : F
  piITerm : ℤ

def LinearMotor.init : LinearMotor F where
  enabled := false
  on := false
  targetRpm := 0
  uv := 0
  pulses := 0
  samples := 0
  rawRpm := ofRat 0
  currentRpm := ofRat 0
  piITerm := 0

/-- `linear_motor_set_uv` (lines 93–96). -/
def LinearMotor.setUv (s : LinearMotor F) (uv : ℤ) : LinearMotor F × Access :=
  ({ s with uv := uv }, writeHardwarePwm (uvToPwm (toUint32 uv)))

/-- `linear_motor_set_rpm` from line 131 on. -/
def LinearMotor.setTarget (s : LinearMotor F) (targetRpm : ℤ) : LinearMotor F :=
  let targetRpm :=
    if targetRpm ≤ 0 then 0
    else if targetRpm > lmConfig.maxRpm then lmConfig.maxRpm
    else targetRpm
  { s with on := if targetRpm > 0 then true else s.on, targetRpm := targetRpm }

/-- Lines 170–173 of `take_sample`. -/
def LinearMotor.measure (s : LinearMotor F) (pulseCount : ℤ) : LinearMotor F :=
  let rawRpm := ofRat pulseCount / ofRat 0.05 / encoderEdgesPerRev * ofRat 60.0
  { s with
    pulses := s.pulses + BitVec.ofInt 32 pulseCount
    samples := s.samples + 1
    rawRpm := rawRpm
    currentRpm := s.currentRpm * ofRat 0.80 + rawRpm * ofRat 0.20 }

/-- `lm_current_rpm > lm_config.min_rpm / 2`. -/
def LinearMotor.motorMoves (s : LinearMotor F) : Bool :=
  CFloat.lt (ofRat (lmConfig.minRpm / 2 : ℤ)) s.currentRpm

/-- The deadband of lines 189–191. -/
def LinearMotor.inDeadband (s : LinearMotor F) : Bool :=
  s.motorMoves && CFloat.lt (ofRat (s.targetRpm - 30 : ℤ)) s.currentRpm &&
    CFloat.lt s.currentRpm (ofRat (s.targetRpm + 30 : ℤ))

/-- A voltage with the exact results of the `int32_t` computations behind it. -/
structure Voltage where
  uv : ℤ
  needsPid : Bool
  ints : List ℤ

/-- Lines 187–236 outside the deadband: the voltage before the PI correction, and
    whether there is one. -/
def LinearMotor.chooseUv (s : LinearMotor F) : Voltage :=
  let uv := s.uv
  if s.uv < lmConfig.minRpmUv then
    let sum := lmConfig.minRpmUv + lmConfig.minRpmMaxUv
    ⟨int32 sum / 2, false, [sum]⟩
  else if s.targetRpm > lmConfig.minRpm ∧ s.uv < lmConfig.minRpmMaxUv then
    ⟨lmConfig.minRpmMaxUv, false, []⟩
  else if s.targetRpm > lmConfig.minRpm ∧ uv < lmConfig.minRpmMaxUv then
    ⟨lmConfig.minRpmMaxUv, false, []⟩
  else if s.targetRpm ≤ lmConfig.minRpm then
    if !s.motorMoves ∧ uv < lmConfig.minRpmMaxUv then
      ⟨int32 (uv + lmConfig.voltRampUp), true, [uv + lmConfig.voltRampUp]⟩
    else if CFloat.lt (ofRat (lmConfig.minRpm + 30 : ℤ)) s.currentRpm ∧
        uv > lmConfig.minRpmMaxUv then
      ⟨int32 (uv - lmConfig.voltRampDown), true, [uv - lmConfig.voltRampDown]⟩
    else ⟨uv, false, []⟩
  else if uv < lmConfig.minRpmMaxUv then ⟨lmConfig.minRpmMaxUv, false, []⟩
  else if CFloat.lt s.currentRpm (ofRat s.targetRpm) then
    ⟨int32 (uv + lmConfig.voltRampUp), true, [uv + lmConfig.voltRampUp]⟩
  else if s.uv > lmConfig.minRpmUv then
    ⟨int32 (uv - lmConfig.voltRampDown), true, [uv - lmConfig.voltRampDown]⟩
  else ⟨uv, false, []⟩

/-- `actual_target` (lines 240–243). -/
def LinearMotor.actualTarget (s : LinearMotor F) : ℤ :=
  if s.targetRpm > 0 ∧ s.targetRpm < lmConfig.minRpm then lmConfig.minRpm else s.targetRpm

/-- The anti-windup cap of lines 247–248. -/
def capIntegral (i : ℤ) : ℤ :=
  let i := if i > integralLimit then integralLimit else i
  if i < -integralLimit then -integralLimit else i

/-- Lines 252–262. -/
def LinearMotor.limitUv (s : LinearMotor F) (targetUv : ℤ) : ℤ :=
  if targetUv < lmConfig.minRpmUv ∧ s.actualTarget ≤ lmConfig.minRpm then lmConfig.minRpmUv
  else if targetUv > lmConfig.minRpmMaxUv ∧ s.actualTarget > lmConfig.minRpmMaxUv then
    lmConfig.minRpmMaxUv
  else if targetUv < lmConfig.idleUv then lmConfig.idleUv
  else targetUv

/-- `lm_pi_i_term` and the voltage to set, with the exact results of the `int32_t`
    computations of lines 239–264. -/
structure Correction where
  piITerm : ℤ
  uv : ℤ
  ints : List ℤ

/-- Lines 239–264: the PI correction of `uv`. -/
def LinearMotor.correctUv (s : LinearMotor F) (uv : ℤ) : Correction :=
  let exactError := s.actualTarget - toInt s.currentRpm
  let error := int32 exactError
  let exactITerm := s.piITerm + error
  let piITerm := capIntegral (int32 exactITerm)
  let exactP := lmKp * error
  let exactI := lmKiScaled * piITerm
  let exactOutput := int32 exactP + int32 exactI
  let exactTarget := uv + int32 exactOutput
  ⟨piITerm, s.limitUv (int32 exactTarget),
    [exactError, exactITerm, exactP, exactI, exactOutput, exactTarget]⟩

/-- Lines 238–266: the correction where one is needed. -/
def LinearMotor.regulate (s : LinearMotor F) : Correction :=
  let chosen := s.chooseUv
  let corrected :=
    if chosen.needsPid then s.correctUv chosen.uv else ⟨s.piITerm, chosen.uv, []⟩
  { corrected with
    ints := [s.targetRpm - 30, s.targetRpm + 30] ++ chosen.ints ++ corrected.ints }

/-- The effect of the timer callback: the new state, the accesses to the hardware
    and the exact results of the `int32_t` computations. -/
structure Sample (F : Type*) where
  motor : LinearMotor F
  accesses : List Access
  ints : List ℤ

/-- `take_sample` (lines 155–272) with the pulses counted since the last clear. -/
def LinearMotor.takeSample (s : LinearMotor F) (pulseCount : ℤ) : Sample F :=
  if !s.enabled then ⟨s, [], []⟩
  else
    let s := s.measure pulseCount
    if s.targetRpm = 0 then
      if s.on then
        let (s, write) := s.setUv lmConfig.idleUv
        ⟨{ s with on := false }, [.pcntRead, .pcntClear, write], []⟩
      else ⟨s, [.pcntRead, .pcntClear], []⟩
    else if s.inDeadband then
      ⟨s, [.pcntRead, .pcntClear], [s.targetRpm - 30, s.targetRpm + 30]⟩
    else
      let regulated := s.regulate
      let (s, write) := LinearMotor.setUv { s with piITerm := regulated.piITerm } regulated.uv
      ⟨s, [.pcntRead, .pcntClear, write], regulated.ints⟩

end Model

/-! ## What the callback does -/

section TakeSample

variable {F : Type*} [CFloat F] (s : LinearMotor F) (pulseCount : ℤ)

omit [CFloat F] in
theorem setUv_eq (uv : ℤ) : s.setUv uv = ({ s with uv := uv }, .setDuty (dutyOfUv uv)) := by
  rw [LinearMotor.setUv, writeHardwarePwm_uvToPwm]

theorem takeSample_disabled (h : s.enabled = false) : s.takeSample pulseCount = ⟨s, [], []⟩ := by
  simp [LinearMotor.takeSample, h]

/-- With target 0 and the motor on, the idle voltage is written. -/
theorem takeSample_stop (h : s.enabled = true) (h0 : s.targetRpm = 0) (hon : s.on = true) :
    s.takeSample pulseCount = ⟨{ s.measure pulseCount with uv := lmConfig.idleUv, on := false },
      [.pcntRead, .pcntClear, .setDuty (dutyOfUv lmConfig.idleUv)], []⟩ := by
  have h0' : (s.measure pulseCount).targetRpm = 0 := h0
  have hon' : (s.measure pulseCount).on = true := hon
  simp [LinearMotor.takeSample, h, h0', hon', setUv_eq]

/-- With target 0 and the motor off, nothing is written. -/
theorem takeSample_off (h : s.enabled = true) (h0 : s.targetRpm = 0) (hoff : s.on = false) :
    s.takeSample pulseCount = ⟨s.measure pulseCount, [.pcntRead, .pcntClear], []⟩ := by
  have h0' : (s.measure pulseCount).targetRpm = 0 := h0
  have hoff' : (s.measure pulseCount).on = false := hoff
  simp [LinearMotor.takeSample, h, h0', hoff']

/-- Within the deadband, nothing is written. -/
theorem takeSample_hold (h : s.enabled = true) (h0 : s.targetRpm ≠ 0)
    (hin : (s.measure pulseCount).inDeadband = true) : s.takeSample pulseCount =
      ⟨s.measure pulseCount, [.pcntRead, .pcntClear], [s.targetRpm - 30, s.targetRpm + 30]⟩ := by
  have h0' : (s.measure pulseCount).targetRpm ≠ 0 := h0
  simp only [LinearMotor.takeSample, h, Bool.not_true, Bool.false_eq_true, if_false, h0', hin,
    if_true]
  rfl

/-- Outside the deadband, the controller decides on a voltage. -/
theorem takeSample_run (h : s.enabled = true) (h0 : s.targetRpm ≠ 0)
    (hout : (s.measure pulseCount).inDeadband = false) : s.takeSample pulseCount =
      ⟨{ s.measure pulseCount with piITerm := (s.measure pulseCount).regulate.piITerm,
                                   uv := (s.measure pulseCount).regulate.uv },
        [.pcntRead, .pcntClear, .setDuty (dutyOfUv (s.measure pulseCount).regulate.uv)],
        (s.measure pulseCount).regulate.ints⟩ := by
  have h0' : (s.measure pulseCount).targetRpm ≠ 0 := h0
  simp only [LinearMotor.takeSample, h, Bool.not_true, Bool.false_eq_true, if_false, h0', hout,
    setUv_eq]

/-- A disabled controller leaves the hardware alone. -/
theorem takeSample_accesses (h : (s.takeSample pulseCount).accesses ≠ []) : s.enabled = true := by
  by_contra hoff
  rw [takeSample_disabled s pulseCount (by simpa using hoff)] at h
  exact h rfl

/-- The callback changes neither target nor enable flag, and turns the motor off
    only at target 0. -/
theorem takeSample_keeps : (s.takeSample pulseCount).motor.targetRpm = s.targetRpm ∧
    (s.takeSample pulseCount).motor.enabled = s.enabled ∧
    (s.targetRpm ≠ 0 → (s.takeSample pulseCount).motor.on = s.on) := by
  cases h : s.enabled with
  | false =>
    rw [takeSample_disabled s pulseCount h]
    exact ⟨rfl, h, fun _ => rfl⟩
  | true =>
    by_cases h0 : s.targetRpm = 0
    · cases hon : s.on with
      | false =>
        rw [takeSample_off s pulseCount h h0 hon]
        exact ⟨rfl, h, fun hne => absurd h0 hne⟩
      | true =>
        rw [takeSample_stop s pulseCount h h0 hon]
        exact ⟨rfl, h, fun hne => absurd h0 hne⟩
    · cases hin : (s.measure pulseCount).inDeadband with
      | false =>
        rw [takeSample_run s pulseCount h h0 hin]
        exact ⟨rfl, h, fun _ => rfl⟩
      | true =>
        rw [takeSample_hold s pulseCount h h0 hin]
        exact ⟨rfl, h, fun _ => rfl⟩

end TakeSample

end Esp32Embroidery.Motor
