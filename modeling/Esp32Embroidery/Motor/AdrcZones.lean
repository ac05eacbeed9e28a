import Esp32Embroidery.Motor.SharedSpindle

/-!
# The gain zones of the ADRC controller

`set_modifiers` chooses the gains by the target. It runs whenever the target changes, and
only then, so that from the first change on the gains are those of the zone of the target.

Main results, in exact arithmetic:

* `gains_setModifiers`: the gains of the zone.
* `setAdrcSpindleSpeed_cases`: what a speed call does to target and gains.
* `adrc_invariants`: the invariants, for any order of speed calls and callbacks.
-/

namespace Esp32Embroidery.Motor

open Esp32Embroidery.Lib

/-! ## Zones -/

/-- The zones of `set_modifiers` (lines 77–95). -/
inductive Zone
  | crawl
  | midLow
  | high
  deriving DecidableEq

/-- The zone of a target. -/
def zoneOf (targetRpm : ℚ) : Zone :=
  if targetRpm ≤ 150 then .crawl else if targetRpm ≤ 750 then .midLow else .high

namespace Zone

def b0 : Zone → ℚ
  | crawl => 3500
  | midLow => 4500
  | high => 2000

def omegaO : Zone → ℚ
  | crawl => 20
  | midLow => 15
  | high => 35

def omegaC : Zone → ℚ
  | crawl => 2.5
  | midLow => 1.2
  | high => 5

theorem b0_pos (zone : Zone) : 0 < zone.b0 := by
  cases zone <;> norm_num [b0]

end Zone

/-- The gains of the controller. -/
structure Gains where
  b0 : ℚ
  omegaO : ℚ
  omegaC : ℚ
  beta1 : ℚ
  beta2 : ℚ
  kP : ℚ
  deriving DecidableEq

/-- The gains of a zone, with those that follow from them (lines 98–100). -/
def Zone.gains (zone : Zone) : Gains where
  b0 := zone.b0
  omegaO := zone.omegaO
  omegaC := zone.omegaC
  beta1 := 2 * zone.omegaO
  beta2 := zone.omegaO * zone.omegaO
  kP := zone.omegaC

def Adrc.gains (a : Adrc ℚ) : Gains where
  b0 := a.b0
  omegaO := a.omegaO
  omegaC := a.omegaC
  beta1 := a.beta1
  beta2 := a.beta2
  kP := a.kP

/-- The variables that only the callback changes. -/
structure SameMotion (a a' : Adrc ℚ) : Prop where
  z1 : a'.z1 = a.z1
  z2 : a'.z2 = a.z2
  uCmd : a'.uCmd = a.uCmd
  currentRpm : a'.currentRpm = a.currentRpm
  rawRpm : a'.rawRpm = a.rawRpm
  spindleOn : a'.spindleOn = a.spindleOn

theorem gains_setModifiers (a : Adrc ℚ) :
    a.setModifiers.gains = (zoneOf a.targetRpm).gains := by
  simp only [Adrc.setModifiers, CFloat.le_rat, CFloat.lt_rat, CFloat.ofRat_rat, zoneOf,
    Bool.and_eq_true, decide_eq_true_eq]
  norm_num only
  by_cases hcrawl : a.targetRpm ≤ 150
  · rw [if_pos hcrawl, if_pos hcrawl]
    norm_num [Adrc.gains, Zone.gains, Zone.b0, Zone.omegaO, Zone.omegaC]
  · rw [if_neg hcrawl, if_neg hcrawl]
    by_cases hmid : a.targetRpm ≤ 750
    · rw [if_pos hmid, if_pos ⟨not_le.1 hcrawl, hmid⟩]
      norm_num [Adrc.gains, Zone.gains, Zone.b0, Zone.omegaO, Zone.omegaC]
    · rw [if_neg hmid, if_neg (fun h => hmid h.2)]
      norm_num [Adrc.gains, Zone.gains, Zone.b0, Zone.omegaO, Zone.omegaC]

/-! ## Speed calls -/

theorem dropNegative_rat (rpm : ℚ) : dropNegative rpm = max rpm 0 := by
  unfold dropNegative
  rw [CFloat.lt_rat, CFloat.ofRat_rat]
  by_cases hneg : rpm < 0
  · rw [if_pos (decide_eq_true hneg), max_eq_right hneg.le]
  · rw [if_neg (by simpa using hneg), max_eq_left (not_lt.1 hneg)]

/-- The two outcomes of `set_adrc_spindle_speed` from line 288 on. -/
theorem setSpeed_cases (a : Adrc ℚ) (rpm : ℚ) :
    SameMotion a (a.setSpeed rpm) ∧
      ((a.setSpeed rpm).targetRpm = a.targetRpm ∧ (a.setSpeed rpm).gains = a.gains ∨
        (a.setSpeed rpm).targetRpm = max rpm 0 ∧
          (a.setSpeed rpm).gains = (zoneOf (a.setSpeed rpm).targetRpm).gains ∧
          (a.setSpeed rpm).targetRpm ≠ a.targetRpm) := by
  unfold Adrc.setSpeed
  simp only [CFloat.eq_rat, dropNegative_rat, decide_eq_true_eq]
  by_cases hsame : a.targetRpm = max rpm 0
  · rw [if_pos hsame]
    exact ⟨⟨rfl, rfl, rfl, rfl, rfl, rfl⟩, .inl ⟨rfl, rfl⟩⟩
  · rw [if_neg hsame]
    exact ⟨⟨rfl, rfl, rfl, rfl, rfl, rfl⟩, .inr ⟨rfl, gains_setModifiers _, Ne.symm hsame⟩⟩

/-- Enabling the controller leaves its other variables alone. -/
theorem setAdrcSpindleSpeed_cases (s : Spindle ℚ) (rpm : ℚ) :
    SameMotion s.adrc (s.setAdrcSpindleSpeed rpm).adrc ∧
      ((s.setAdrcSpindleSpeed rpm).adrc.targetRpm = s.adrc.targetRpm ∧
          (s.setAdrcSpindleSpeed rpm).adrc.gains = s.adrc.gains ∨
        (s.setAdrcSpindleSpeed rpm).adrc.targetRpm = max rpm 0 ∧
          (s.setAdrcSpindleSpeed rpm).adrc.gains =
            (zoneOf (s.setAdrcSpindleSpeed rpm).adrc.targetRpm).gains ∧
          (s.setAdrcSpindleSpeed rpm).adrc.targetRpm ≠ s.adrc.targetRpm) := by
  unfold Spindle.setAdrcSpindleSpeed
  split_ifs
  · obtain ⟨hmotion, hcases⟩ := setSpeed_cases { s.adrc with motorControlEnabled := true } rpm
    exact ⟨⟨hmotion.z1, hmotion.z2, hmotion.uCmd, hmotion.currentRpm, hmotion.rawRpm,
      hmotion.spindleOn⟩, hcases⟩
  · exact setSpeed_cases s.adrc rpm

/-- `set_adrc_spindle_speed_ramp` (lines 307–314). -/
def Spindle.setAdrcSpindleSpeedRamp {F : Type*} [CFloat F] (s : Spindle F) (rpm ramp : F) :
    Spindle F :=
  s.setAdrcSpindleSpeed
    (if CFloat.lt (s.adrc.targetRpm + ramp) rpm then s.adrc.targetRpm + ramp else rpm)

/-! ## Runs -/

/-- The calls into the controller. -/
inductive AdrcCall
  | setSpeed (rpm : ℚ)
  | setSpeedRamp (rpm ramp : ℚ)
  | ticker (pulseCount : ℕ)
  deriving DecidableEq

/-- The spindle with the past: whether a call has changed the target, and the duties that the
    callback wrote, newest first. -/
structure AdrcHistory where
  spindle : Spindle ℚ
  changed : Bool
  duties : List ℕ

/-- The duties among some accesses. -/
def dutiesWritten : List Access → List ℕ
  | [] => []
  | .setDuty duty :: as => duty :: dutiesWritten as
  | _ :: as => dutiesWritten as

/-- A speed call that leads to `spindle`. -/
def AdrcHistory.afterSpeed (r : AdrcHistory) (spindle : Spindle ℚ) : AdrcHistory :=
  { r with
    spindle := spindle
    changed := r.changed || decide (spindle.adrc.targetRpm ≠ r.spindle.adrc.targetRpm) }

def AdrcHistory.next (r : AdrcHistory) : AdrcCall → AdrcHistory
  | .setSpeed rpm => r.afterSpeed (r.spindle.setAdrcSpindleSpeed rpm)
  | .setSpeedRamp rpm ramp => r.afterSpeed (r.spindle.setAdrcSpindleSpeedRamp rpm ramp)
  | .ticker pulseCount =>
    { r with
      spindle := r.spindle.adrcSpindleTicker pulseCount
      duties := (dutiesWritten (r.spindle.adrc.ticker pulseCount).2).reverse ++ r.duties }

/-- Calls in any order. -/
def adrcCalls (start : Spindle ℚ) : Machine AdrcHistory AdrcCall where
  init := ⟨start, false, []⟩
  step r call := some (r.next call)

/-- The spindle at power-up. The gains that `set_modifiers` computes from others are zero
    before `init_adrc_spindle_control` and computed after it. -/
def Spindle.powerUp (beta1 beta2 kP : ℚ) : Spindle ℚ :=
  { Spindle.init with adrc := { Adrc.init with beta1 := beta1, beta2 := beta2, kP := kP } }

/-- A speed call is `set_adrc_spindle_speed` with some speed. -/
theorem exists_setAdrcSpindleSpeed (r : AdrcHistory) (call : AdrcCall) :
    (∃ rpm, r.next call = r.afterSpeed (r.spindle.setAdrcSpindleSpeed rpm)) ∨
      ∃ pulseCount, call = .ticker pulseCount := by
  cases call with
  | setSpeed rpm => exact .inl ⟨rpm, rfl⟩
  | setSpeedRamp rpm ramp => exact .inl ⟨_, rfl⟩
  | ticker pulseCount => exact .inr ⟨pulseCount, rfl⟩

/-! ## Invariants -/

/-- `PWM_MAX_DUTY` -/
def pwmMaxDuty : ℕ := 2047

structure AdrcInv (r : AdrcHistory) : Prop where
  gains : r.changed = true → r.spindle.adrc.gains = (zoneOf r.spindle.adrc.targetRpm).gains
  b0_pos : 0 < r.spindle.adrc.b0
  target_nonneg : 0 ≤ r.spindle.adrc.targetRpm
  uCmd_nonneg : 0 ≤ r.spindle.adrc.uCmd
  uCmd_le_one : r.spindle.adrc.uCmd ≤ 1
  duty_le : ∀ duty ∈ r.duties, duty ≤ pwmMaxDuty
  /-- With `spindle_on` off the output is off, as far as the callback is concerned. -/
  off : r.spindle.adrc.spindleOn = false → ∀ duty ∈ r.duties.head?, duty = 0

theorem b0_gains {a : Adrc ℚ} {zone : Zone} (h : a.gains = zone.gains) : a.b0 = zone.b0 :=
  congrArg Gains.b0 h

theorem AdrcInv.afterSpeed {r : AdrcHistory} (h : AdrcInv r) (rpm : ℚ) :
    AdrcInv (r.afterSpeed (r.spindle.setAdrcSpindleSpeed rpm)) := by
  obtain ⟨hmotion, hcases⟩ := setAdrcSpindleSpeed_cases r.spindle rpm
  constructor
  case gains =>
    intro hchanged
    show (r.spindle.setAdrcSpindleSpeed rpm).adrc.gains = _
    rcases hcases with ⟨htarget, hgains⟩ | ⟨-, hgains, -⟩
    · have hbefore : r.changed = true := by
        simpa [AdrcHistory.afterSpeed, htarget] using hchanged
      rw [hgains, h.gains hbefore]
      exact congrArg (fun t => (zoneOf t).gains) htarget.symm
    · exact hgains
  case b0_pos =>
    show 0 < (r.spindle.setAdrcSpindleSpeed rpm).adrc.b0
    rcases hcases with ⟨-, hgains⟩ | ⟨-, hgains, -⟩
    · have hb0 : (r.spindle.setAdrcSpindleSpeed rpm).adrc.b0 = r.spindle.adrc.b0 :=
        congrArg Gains.b0 hgains
      rw [hb0]
      exact h.b0_pos
    · rw [b0_gains hgains]
      exact Zone.b0_pos _
  case target_nonneg =>
    show 0 ≤ (r.spindle.setAdrcSpindleSpeed rpm).adrc.targetRpm
    rcases hcases with ⟨htarget, -⟩ | ⟨htarget, -, -⟩
    · rw [htarget]
      exact h.target_nonneg
    · rw [htarget]
      exact le_max_right _ _
  case uCmd_nonneg => exact hmotion.uCmd.symm ▸ h.uCmd_nonneg
  case uCmd_le_one => exact hmotion.uCmd.symm ▸ h.uCmd_le_one
  case duty_le => exact h.duty_le
  case off => exact fun hoff => h.off (hmotion.spindleOn.symm.trans hoff)

/-- `clampUnit` clamps. -/
theorem clampUnit_mem (u : ℚ) : 0 ≤ clampUnit u ∧ clampUnit u ≤ 1 := by
  unfold clampUnit
  simp only [CFloat.lt_rat, CFloat.ofRat_rat, decide_eq_true_eq]
  norm_num only
  split_ifs <;> constructor <;> linarith

theorem dutyVal_le {a : Adrc ℚ} (h0 : 0 ≤ a.uCmd) (h1 : a.uCmd ≤ 1) : a.dutyVal ≤ pwmMaxDuty := by
  have hnonneg : 0 ≤ a.uCmd * 2047 := by positivity
  have hlt : CFloat.toInt (a.uCmd * 2047) < 2048 := by
    rw [CFloat.toInt_lt hnonneg]
    push_cast
    linarith
  have hpos := CFloat.toInt_nonneg hnonneg
  show toUint32 (CFloat.toInt (a.uCmd * 2047)) ≤ pwmMaxDuty
  unfold toUint32 pwmMaxDuty
  omega

theorem gains_stop (a : Adrc ℚ) : a.stop.gains = a.gains ∧ a.stop.uCmd = 0 := by
  unfold Adrc.stop
  simp only
  split_ifs <;> exact ⟨rfl, rfl⟩

/-- The callback leaves the target and the gains alone, its command is in the unit interval,
    and it writes a zero whenever `spindle_on` is off at its end. -/
theorem ticker_output (a : Adrc ℚ) (pulseCount : ℤ) :
    (a.Idle ∧ a.ticker pulseCount = (a, [])) ∨
      (a.ticker pulseCount).1.gains = a.gains ∧ 0 ≤ (a.ticker pulseCount).1.uCmd ∧
        (a.ticker pulseCount).1.uCmd ≤ 1 ∧
        ∃ duty ≤ pwmMaxDuty, dutiesWritten (a.ticker pulseCount).2 = [duty] ∧
          ((a.ticker pulseCount).1.spindleOn = false → duty = 0) := by
  by_cases hstop : a.stopped = true
  · by_cases hon : a.spindleOn = true
    · obtain ⟨hgains, hu⟩ := gains_stop (a.sample pulseCount)
      rw [ticker_stop a pulseCount hstop hon]
      refine .inr ⟨hgains, hu.ge, ?_, 0, Nat.zero_le _, rfl, fun _ => rfl⟩
      rw [hu]
      exact zero_le_one
    · have hoff := Bool.eq_false_of_not_eq_true hon
      exact .inl ⟨⟨hstop, hoff⟩, ticker_idle a pulseCount ⟨hstop, hoff⟩⟩
  · obtain ⟨hu0, hu1⟩ : 0 ≤ (a.sample pulseCount).control.uCmd ∧
        (a.sample pulseCount).control.uCmd ≤ 1 := clampUnit_mem _
    rw [ticker_control a pulseCount (Bool.eq_false_of_not_eq_true hstop)]
    refine .inr ⟨rfl, hu0, hu1, _, dutyVal_le hu0 hu1, ?_,
      fun hoff => nomatch (show true = false from hoff)⟩
    cases a.spindleOn <;> rfl

theorem AdrcInv.ticker {r : AdrcHistory} (h : AdrcInv r) (pulseCount : ℕ) :
    AdrcInv (r.next (.ticker pulseCount)) := by
  have htarget := (ticker_keeps r.spindle.adrc pulseCount).1
  rcases ticker_output r.spindle.adrc pulseCount with ⟨-, hidle⟩ |
    ⟨hgains, hu0, hu1, duty, hduty, hwritten, hoff⟩
  · have hsame : r.next (.ticker pulseCount) = r := by
      show AdrcHistory.mk _ _ _ = r
      unfold Spindle.adrcSpindleTicker
      rw [hidle]
      rfl
    rw [hsame]
    exact h
  · have hduties : (r.next (.ticker pulseCount)).duties = duty :: r.duties := by
      show (dutiesWritten _).reverse ++ r.duties = _
      rw [hwritten]
      rfl
    constructor
    case gains =>
      intro hchanged
      show (r.spindle.adrc.ticker pulseCount).1.gains =
        (zoneOf (r.spindle.adrc.ticker pulseCount).1.targetRpm).gains
      rw [hgains, htarget]
      exact h.gains hchanged
    case b0_pos =>
      have hb0 : (r.spindle.adrc.ticker pulseCount).1.b0 = r.spindle.adrc.b0 :=
        congrArg Gains.b0 hgains
      exact hb0.symm ▸ h.b0_pos
    case target_nonneg => exact htarget.symm ▸ h.target_nonneg
    case uCmd_nonneg => exact hu0
    case uCmd_le_one => exact hu1
    case duty_le =>
      rw [hduties]
      exact List.forall_mem_cons.2 ⟨hduty, h.duty_le⟩
    case off =>
      intro hspindle
      rw [hduties]
      intro d hd
      cases hd
      exact hoff hspindle

/-- For any order of speed calls with any arguments and of callbacks with any number of pulses,
    from power-up on. -/
theorem adrc_invariants {beta1 beta2 kP : ℚ} {r : AdrcHistory}
    (h : (adrcCalls (.powerUp beta1 beta2 kP)).Reachable r) : AdrcInv r := by
  refine h.invariant ?_ ?_
  · constructor
    case gains => exact fun h => nomatch (show false = true from h)
    case b0_pos =>
      show (0 : ℚ) < 3500.0
      norm_num
    case target_nonneg => exact le_rfl
    case uCmd_nonneg => exact le_rfl
    case uCmd_le_one => exact zero_le_one
    case duty_le => exact fun _ h => absurd h List.not_mem_nil
    case off => exact fun _ _ h => nomatch h
  · rintro r call _ - hr ⟨⟩ -
    rcases exists_setAdrcSpindleSpeed r call with ⟨rpm, hspeed⟩ | ⟨pulseCount, rfl⟩
    · rw [hspeed]
      exact hr.afterSpeed rpm
    · exact hr.ticker pulseCount

/-- A target, a callback with 40 pulses, a stop and another callback. -/
theorem adrc_invariants_stop :
    AdrcInv ((((adrcCalls (.powerUp 40 400 2.5)).init.next (.setSpeedRamp 3000 200)).next
      (.ticker 40)).next (.setSpeed 0) |>.next (.ticker 0)) :=
  adrc_invariants ((((Machine.ReachableBy.init.step rfl trivial).step rfl trivial).step rfl
    trivial).step rfl trivial)

end Esp32Embroidery.Motor
