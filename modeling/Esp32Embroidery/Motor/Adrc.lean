import Esp32Embroidery.Lib.CArith
import Mathlib.Tactic.Common

/-!
# The ADRC spindle controller (`main/motor_control.c`)

Model of `set_modifiers`, `set_adrc_spindle_speed` and the timer callback
`adrc_spindle_ticker`, over any floating-point type. The callback does not look
at `motor_control_enabled`.

Results:
* `ticker_idle`, `ticker_stop`, `ticker_control`: the three things it does.
* `ticker_accesses`: it accesses the hardware unless the controller is idle.
-/

namespace Esp32Embroidery.Motor

open Esp32Embroidery.Lib

/-! ## Hardware -/

/-- The accesses to the hardware both spindle controllers use. -/
inductive Access
  /-- `pcnt_get_counter_value(PCNT_UNIT_0, …)` -/
  | pcntRead
  /-- `pcnt_counter_clear(PCNT_UNIT_0)` -/
  | pcntClear
  /-- `ledc_set_duty` and `ledc_update_duty` of `LEDC_CHANNEL_0` -/
  | setDuty (duty : ℕ)
  deriving DecidableEq

/-- The duty of `LEDC_CHANNEL_0` after some accesses, `none` if there was no write. -/
def lastDuty (duty : Option ℕ) : List Access → Option ℕ
  | [] => duty
  | .setDuty d :: as => lastDuty (some d) as
  | _ :: as => lastDuty duty as

/-! ## Model -/

section Model

variable {F : Type*} [CFloat F]

open CFloat (ofRat toInt)

/-- `ENCODER_EDGES_PER_REV`, `DEFAULT_SPINDLE_PPR * 2.0f` with
    `DEFAULT_SPINDLE_PPR = 1024` (`my_machine.h` line 99). -/
def encoderEdgesPerRev : F := ofRat 1024 * ofRat 2.0

/-- The static variables of `motor_control.c` (lines 18–47) and the static
    `spindle_on` of `adrc_spindle_ticker`. -/
structure Adrc (F : Type*) where
  motorControlEnabled : Bool
  b0 : F
  omegaO : F
  omegaC : F
  beta1 : F
  beta2 : F
  kP : F
  z1 : F
  z2 : F
  uCmd : F
  targetRpm : F
  currentRpm : F
  rawRpm : F
  printCounter : BitVec 16
  flagPrintData : Bool
  rollingPulseAccumulator : BitVec 32
  pulseSampleCount : BitVec 32
  rpmChange : ℤ
  spindleOn : Bool

/-- After `init_adrc_spindle_control` (lines 355–358). -/
def Adrc.init : Adrc F where
  motorControlEnabled := false
  b0 := ofRat 3500.0
  omegaO := ofRat 20.0
  omegaC := ofRat 2.5
  beta1 := ofRat 2.0 * ofRat 20.0
  beta2 := ofRat 20.0 * ofRat 20.0
  kP := ofRat 2.5
  z1 := ofRat 0
  z2 := ofRat 0
  uCmd := ofRat 0
  targetRpm := ofRat 0
  currentRpm := ofRat 0
  rawRpm := ofRat 0
  printCounter := 0
  flagPrintData := false
  rollingPulseAccumulator := 0
  pulseSampleCount := 0
  rpmChange := 0
  spindleOn := false

/-- `static const float h = 0.001f`. -/
def sampleSeconds : F := ofRat 0.001

/-- `set_modifiers` (lines 75–101). -/
def Adrc.setModifiers (s : Adrc F) : Adrc F :=
  let (b0, omegaO, omegaC) : F × F × F :=
    if CFloat.le s.targetRpm (ofRat 150.0) then (ofRat 3500.0, ofRat 20.0, ofRat 2.5)
    else if CFloat.lt (ofRat 150.0) s.targetRpm && CFloat.le s.targetRpm (ofRat 750.0) then
      (ofRat 4500.0, ofRat 15.0, ofRat 1.2)
    else (ofRat 2000.0, ofRat 35.0, ofRat 5.0)
  { s with b0 := b0, omegaO := omegaO, omegaC := omegaC,
           beta1 := ofRat 2.0 * omegaO, beta2 := omegaO * omegaO, kP := omegaC }

/-- `if (rpm < 0.0f) rpm = 0.0f`. -/
def dropNegative (rpm : F) : F := if CFloat.lt rpm (ofRat 0) then ofRat 0 else rpm

/-- `set_adrc_spindle_speed` from line 288 on. -/
def Adrc.setSpeed (s : Adrc F) (rpm : F) : Adrc F :=
  let rpm := dropNegative rpm
  if CFloat.eq s.targetRpm rpm then { s with rpmChange := 0 }
  else
    Adrc.setModifiers
      { s with rpmChange := if CFloat.lt s.targetRpm rpm then 2 else 1, targetRpm := rpm }

/-- Lines 198–213 of `adrc_spindle_ticker`. -/
def Adrc.sample (s : Adrc F) (pulseCount : ℤ) : Adrc F :=
  let printCounter := s.printCounter + 1
  { s with
    rollingPulseAccumulator := s.rollingPulseAccumulator + BitVec.ofInt 32 pulseCount
    pulseSampleCount := s.pulseSampleCount + 1
    currentRpm := s.currentRpm * ofRat 0.80 + s.rawRpm * ofRat 0.20
    printCounter := if printCounter ≥ 500 then 0 else printCounter
    flagPrintData := if printCounter ≥ 500 then true else s.flagPrintData
    rawRpm := ofRat pulseCount / sampleSeconds / encoderEdgesPerRev * ofRat 60.0 }

/-- Lines 216–228, a stop while the spindle turns. -/
def Adrc.stop (s : Adrc F) : Adrc F :=
  let s := { s with z1 := ofRat 0, z2 := ofRat 0, uCmd := ofRat 0 }
  if CFloat.lt s.currentRpm (ofRat 0.001) then
    { s with rawRpm := ofRat 0, currentRpm := ofRat 0, spindleOn := false }
  else s

/-- The clamps of lines 270–273. -/
def clampUnit (u : F) : F :=
  let u := if CFloat.lt (ofRat 1.0) u then ofRat 1.0 else u
  if CFloat.lt u (ofRat 0) then ofRat 0 else u

/-- Lines 238 and 259–273, one step of observer and control law. -/
def Adrc.control (s : Adrc F) : Adrc F :=
  let err := s.z1 - s.currentRpm
  let z1 := s.z1 + sampleSeconds * (s.z2 + s.b0 * s.uCmd - s.beta1 * err)
  let z2 := s.z2 + sampleSeconds * (-s.beta2 * err)
  let u0 := s.kP * (s.targetRpm - z1)
  { s with spindleOn := true, z1 := z1, z2 := z2, uCmd := clampUnit ((u0 - z2) / s.b0) }

/-- `(uint32_t)(u_cmd * (float)PWM_MAX_DUTY)` with `PWM_MAX_DUTY = 2047`. -/
def Adrc.dutyVal (s : Adrc F) : ℕ := toUint32 (toInt (s.uCmd * ofRat 2047))

/-- `target_rpm <= 0.0f`. -/
def Adrc.stopped (s : Adrc F) : Bool := CFloat.le s.targetRpm (ofRat 0)

/-- `adrc_spindle_ticker` (lines 183–278) with the pulses counted since the last
    clear. -/
def Adrc.ticker (s : Adrc F) (pulseCount : ℤ) : Adrc F × List Access :=
  if s.stopped && !s.spindleOn then (s, [])
  else
    let s := s.sample pulseCount
    if s.stopped && s.spindleOn then
      (s.stop, [.pcntRead, .pcntClear, .pcntClear, .setDuty 0])
    else
      (s.control, [.pcntRead, .pcntClear] ++ (if s.spindleOn then [] else [.pcntClear]) ++
        [.setDuty s.control.dutyVal])

end Model

/-! ## What the callback does -/

section Ticker

variable {F : Type*} [CFloat F] (s : Adrc F) (pulseCount : ℤ)

/-- Neither a target nor a turning spindle. -/
def Adrc.Idle (s : Adrc F) : Prop := s.stopped = true ∧ s.spindleOn = false

instance : Decidable s.Idle := inferInstanceAs (Decidable (_ ∧ _))

theorem ticker_idle (h : s.Idle) : s.ticker pulseCount = (s, []) := by
  obtain ⟨hstop, hoff⟩ := h
  simp [Adrc.ticker, hstop, hoff]

theorem ticker_stop (hstop : s.stopped = true) (hon : s.spindleOn = true) :
    s.ticker pulseCount =
      ((s.sample pulseCount).stop, [.pcntRead, .pcntClear, .pcntClear, .setDuty 0]) := by
  have hstop' : (s.sample pulseCount).stopped = true := hstop
  have hon' : (s.sample pulseCount).spindleOn = true := hon
  simp [Adrc.ticker, hstop', hon, hon']

theorem ticker_control (hrun : s.stopped = false) : s.ticker pulseCount =
    ((s.sample pulseCount).control, [.pcntRead, .pcntClear] ++
      (if s.spindleOn then [] else [.pcntClear]) ++
        [.setDuty (s.sample pulseCount).control.dutyVal]) := by
  have hrun' : (s.sample pulseCount).stopped = false := hrun
  simp only [Adrc.ticker, hrun, hrun', Bool.false_and, Bool.false_eq_true, if_false]
  rfl

/-- The callback leaves the hardware alone exactly when the controller is idle,
    enabled or not. -/
theorem ticker_accesses : (s.ticker pulseCount).2 = [] ↔ s.Idle := by
  constructor
  · intro h
    by_contra hidle
    cases hstop : s.stopped with
    | false =>
      rw [ticker_control s pulseCount hstop] at h
      simp at h
    | true =>
      have hon : s.spindleOn = true := by
        by_contra hoff
        exact hidle ⟨hstop, by simpa using hoff⟩
      rw [ticker_stop s pulseCount hstop hon] at h
      cases h
  · intro h
    rw [ticker_idle s pulseCount h]

theorem stop_keeps : s.stop.targetRpm = s.targetRpm ∧
    s.stop.motorControlEnabled = s.motorControlEnabled := by
  by_cases hlow : CFloat.lt s.currentRpm (CFloat.ofRat 0.001) = true
  · simp [Adrc.stop, hlow]
  · simp [Adrc.stop, hlow]

/-- The callback changes neither target nor enable flag. -/
theorem ticker_keeps : (s.ticker pulseCount).1.targetRpm = s.targetRpm ∧
    (s.ticker pulseCount).1.motorControlEnabled = s.motorControlEnabled := by
  cases hstop : s.stopped with
  | false =>
    rw [ticker_control s pulseCount hstop]
    exact ⟨rfl, rfl⟩
  | true =>
    cases hon : s.spindleOn with
    | false =>
      rw [ticker_idle s pulseCount ⟨hstop, hon⟩]
      exact ⟨rfl, rfl⟩
    | true =>
      rw [ticker_stop s pulseCount hstop hon]
      exact stop_keeps (s.sample pulseCount)

end Ticker

end Esp32Embroidery.Motor
