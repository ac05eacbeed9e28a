import Esp32Embroidery.Motor.SharedSpindle

/-!
# The voltage of the linear motor

With exact arithmetic for the filtered speed, `lm_uv` never falls below 0, a
sample that drives the motor never sets less than the idle voltage, and no
`int32_t` computation overflows, as long as `lm_uv` does not exceed `max_uv`.
Nothing enforces `max_uv`: the only limit from above compares the target speed
with a voltage. The ramp above `min_rpm_max_uv` is the one branch that can pass
it.

Results:
* `regulate_spec`: the voltage a sample decides on.
* `voltage_bounded`: the bounds hold along a run exactly when every sample that
  ramps up above `min_rpm_max_uv` has the headroom for it.
* `voltage_exceeds_max`: a stalled motor.
-/

namespace Esp32Embroidery.Motor

open Esp32Embroidery.Lib

/-! ## Invariant -/

/-- The ranges of the variables of `linear_motor.c`. -/
structure MotorInv (m : LinearMotor ℚ) : Prop where
  uv_nonneg : 0 ≤ m.uv
  uv_le : m.uv ≤ lmConfig.maxUv
  target_nonneg : 0 ≤ m.targetRpm
  target_le : m.targetRpm ≤ lmConfig.maxRpm
  iTerm_ge : -integralLimit ≤ m.piITerm
  iTerm_le : m.piITerm ≤ integralLimit
  rpm_nonneg : 0 ≤ m.currentRpm
  rpm_le : m.currentRpm ≤ 19200

theorem motorInv_init : MotorInv LinearMotor.init := by
  constructor <;> simp [LinearMotor.init, lmConfig, integralLimit]

/-- The filtered speed after a sample with `p` pulses: 1024 pulses per revolution,
    counted at both edges over 50 ms, through the low-pass filter. -/
def LinearMotor.speedAfter (m : LinearMotor ℚ) (p : ℤ) : ℚ :=
  m.currentRpm * (4 / 5) + p * (15 / 128)

theorem measure_currentRpm (m : LinearMotor ℚ) (p : ℤ) :
    (m.measure p).currentRpm = m.speedAfter p := by
  simp only [LinearMotor.measure, LinearMotor.speedAfter, encoderEdgesPerRev, CFloat.ofRat_rat]
  norm_num
  ring

/-- A count of at most `2^15 - 1` pulses in 50 ms is less than 19200 rpm. -/
theorem MotorInv.measure {m : LinearMotor ℚ} (h : MotorInv m) {p : ℤ} (h0 : 0 ≤ p)
    (h1 : p < 2 ^ 15) : MotorInv (m.measure p) := by
  have hp0 : (0 : ℚ) ≤ p := by exact_mod_cast h0
  have hp1 : (p : ℚ) ≤ 2 ^ 15 := by exact_mod_cast h1.le
  refine ⟨h.uv_nonneg, h.uv_le, h.target_nonneg, h.target_le, h.iTerm_ge, h.iTerm_le, ?_, ?_⟩
  · have := h.rpm_nonneg
    rw [measure_currentRpm, LinearMotor.speedAfter]
    linarith
  · have := h.rpm_le
    rw [measure_currentRpm, LinearMotor.speedAfter]
    linarith

/-! ## The decision of a sample -/

section Regulate

variable {m : LinearMotor ℚ}

/-- The branch of lines 225–228: the motor is slower than a target above `min_rpm`
    and the voltage is `min_rpm_max_uv` or more. -/
def LinearMotor.RampsUp (m : LinearMotor ℚ) : Prop :=
  m.inDeadband = false ∧ m.targetRpm > lmConfig.minRpm ∧ m.uv ≥ lmConfig.minRpmMaxUv ∧
    m.currentRpm < m.targetRpm

/-- `error` of line 245. -/
def LinearMotor.error (m : LinearMotor ℚ) : ℤ := m.actualTarget - CFloat.toInt m.currentRpm

/-- The voltage before the correction, by the kind of branch taken: a fixed or kept
    voltage, the ramp up below `min_rpm_max_uv`, a ramp down at a speed at least 30
    rpm above the target, or the ramp up above `min_rpm_max_uv`. -/
inductive Chosen (m : LinearMotor ℚ) : Voltage → Prop
  | fixed {uv : ℤ} {ints : List ℤ} (hramp : ¬ m.RampsUp) (hlo : lmConfig.minRpmUv ≤ uv)
      (hhi : uv ≤ lmConfig.maxUv) (hfit : ∀ x ∈ ints, Fits32 x) : Chosen m ⟨uv, false, ints⟩
  | rampLow (hramp : ¬ m.RampsUp) (hlo : lmConfig.minRpmUv ≤ m.uv)
      (hhi : m.uv < lmConfig.minRpmMaxUv) (herr : m.error ≤ lmConfig.minRpm) :
      Chosen m ⟨m.uv + lmConfig.voltRampUp, true, [m.uv + lmConfig.voltRampUp]⟩
  | rampDown (hramp : ¬ m.RampsUp) (hlo : lmConfig.minRpmUv ≤ m.uv) (herr : m.error ≤ -30) :
      Chosen m ⟨m.uv - lmConfig.voltRampDown, true, [m.uv - lmConfig.voltRampDown]⟩
  | rampUp (hramp : m.RampsUp) :
      Chosen m ⟨m.uv + lmConfig.voltRampUp, true, [m.uv + lmConfig.voltRampUp]⟩

theorem fits32_of_bounds {x : ℤ} (h0 : -2000000000 ≤ x) (h1 : x ≤ 2000000000) : Fits32 x := by
  constructor <;> omega

/-- The limits of the deadband. -/
theorem MotorInv.deadband_fits (h : MotorInv m) :
    ∀ x ∈ [m.targetRpm - 30, m.targetRpm + 30], Fits32 x := by
  have h0 := h.target_nonneg
  have h1 := h.target_le
  simp only [lmConfig] at h1
  intro x hx
  rcases List.mem_pair.1 hx with rfl | rfl
  · exact fits32_of_bounds (by omega) (by omega)
  · exact fits32_of_bounds (by omega) (by omega)

/-- Below `min_rpm` the PI controller aims at `min_rpm`. -/
theorem actualTarget_cases (h1 : 1 ≤ m.targetRpm) :
    m.targetRpm ≤ lmConfig.minRpm ∧ m.actualTarget = lmConfig.minRpm ∨
      m.targetRpm > lmConfig.minRpm ∧ m.actualTarget = m.targetRpm := by
  unfold LinearMotor.actualTarget
  simp only [lmConfig]
  split_ifs <;> omega

/-- Below `min_rpm_max_uv`, or at a target of at most `min_rpm`, or at the target
    speed, there is no ramp above `min_rpm_max_uv`. -/
theorem not_rampsUp (h : m.uv < lmConfig.minRpmMaxUv ∨ m.targetRpm ≤ lmConfig.minRpm ∨
    (m.targetRpm : ℚ) ≤ m.currentRpm) : ¬ m.RampsUp := by
  rintro ⟨-, htarget, huv, hrpm⟩
  rcases h with h | h | h
  · omega
  · omega
  · exact absurd hrpm (not_lt.2 h)

/-- Outside the deadband, a speed that is not below a target above `min_rpm` is at
    least 30 rpm above it. -/
theorem error_le_of_faster (hrpm : 0 ≤ m.currentRpm) (hout : m.inDeadband = false)
    (htarget : m.targetRpm > lmConfig.minRpm) (hfast : (m.targetRpm : ℚ) ≤ m.currentRpm) :
    m.error ≤ -30 := by
  have hmin : ((lmConfig.minRpm / 2 : ℤ) : ℚ) < m.targetRpm := by
    simp only [lmConfig] at htarget ⊢
    exact_mod_cast (by omega : (200 / 2 : ℤ) < m.targetRpm)
  have hmoves : m.motorMoves = true := by
    simp only [LinearMotor.motorMoves, CFloat.lt_rat, CFloat.ofRat_rat, decide_eq_true_eq]
    exact hmin.trans_le hfast
  have hbelow : ((m.targetRpm - 30 : ℤ) : ℚ) < m.currentRpm := by
    push_cast
    linarith
  have habove : ((m.targetRpm + 30 : ℤ) : ℚ) ≤ m.currentRpm := by
    by_contra hlt
    rw [LinearMotor.inDeadband, hmoves] at hout
    simp only [CFloat.lt_rat, CFloat.ofRat_rat, hbelow, not_le.1 hlt] at hout
    cases hout
  have ht := (CFloat.le_toInt hrpm).2 habove
  rcases actualTarget_cases (m := m) (by simp only [lmConfig] at htarget; omega) with hc | hc
  · omega
  · unfold LinearMotor.error
    omega

theorem chosen_chooseUv (h : MotorInv m) (h1 : 1 ≤ m.targetRpm) (hout : m.inDeadband = false) :
    Chosen m m.chooseUv := by
  have hlo := h.uv_nonneg
  have hhi := h.uv_le
  have hactual := actualTarget_cases h1
  have hup := int32_of_fits (x := m.uv + lmConfig.voltRampUp) (fits32_of_bounds
    (by simp only [lmConfig] at *; omega) (by simp only [lmConfig] at *; omega))
  have hdown := int32_of_fits (x := m.uv - lmConfig.voltRampDown) (fits32_of_bounds
    (by simp only [lmConfig] at *; omega) (by simp only [lmConfig] at *; omega))
  unfold LinearMotor.chooseUv
  dsimp only
  rw [hup, hdown]
  split_ifs with hlow hset hmin hslow hfast hset' hbelow habove
  · exact .fixed (not_rampsUp (.inl (by simp only [lmConfig] at *; omega))) (by decide) (by decide)
      (by decide)
  · exact .fixed (not_rampsUp (.inl hset.2)) (by decide) (by decide) (by decide)
  · -- slower than `min_rpm / 2`
    refine .rampLow (not_rampsUp (.inl hslow.2)) (not_lt.1 hlow) hslow.2 ?_
    have := CFloat.toInt_nonneg h.rpm_nonneg
    unfold LinearMotor.error
    omega
  · -- faster than `min_rpm + 30`
    refine .rampDown (not_rampsUp (.inr (.inl hmin))) (not_lt.1 hlow) ?_
    simp only [CFloat.lt_rat, CFloat.ofRat_rat, decide_eq_true_eq] at hfast
    have ht := (CFloat.le_toInt h.rpm_nonneg).2 hfast.1.le
    unfold LinearMotor.error
    omega
  · exact .fixed (not_rampsUp (.inr (.inl hmin))) (not_lt.1 hlow) hhi (by simp)
  · exact absurd ⟨not_le.1 hmin, hset'⟩ hset
  · exact .rampUp ⟨hout, not_le.1 hmin, not_lt.1 hset', by simpa using hbelow⟩
  · have hreach : (m.targetRpm : ℚ) ≤ m.currentRpm := by simpa using hbelow
    exact .rampDown (not_rampsUp (.inr (.inr hreach))) (not_lt.1 hlow)
      (error_le_of_faster h.rpm_nonneg hout (not_le.1 hmin) hreach)
  · have hreach : (m.targetRpm : ℚ) ≤ m.currentRpm := by simpa using hbelow
    exact .fixed (not_rampsUp (.inr (.inr hreach))) (not_lt.1 hlow) hhi (by simp)

/-! ## The PI correction -/

theorem error_bounds (h : MotorInv m) (h1 : 1 ≤ m.targetRpm) :
    -20000 ≤ m.error ∧ m.error ≤ lmConfig.maxRpm := by
  have ht0 := CFloat.toInt_nonneg h.rpm_nonneg
  have ht1 : CFloat.toInt m.currentRpm < 19201 := by
    rw [CFloat.toInt_lt h.rpm_nonneg]
    have := h.rpm_le
    push_cast
    linarith
  have htarget := h.target_le
  unfold LinearMotor.error
  rcases actualTarget_cases h1 with hc | hc
  · simp only [lmConfig] at *
    omega
  · simp only [lmConfig] at *
    omega

theorem capIntegral_bounds (i : ℤ) :
    -integralLimit ≤ capIntegral i ∧ capIntegral i ≤ integralLimit := by
  simp only [capIntegral, integralLimit]
  split_ifs <;> omega

/-- `pi_output` of line 249. -/
def LinearMotor.piOutput (m : LinearMotor ℚ) : ℤ :=
  lmKp * m.error + lmKiScaled * capIntegral (m.piITerm + m.error)

theorem piOutput_bounds (h : MotorInv m) (h1 : 1 ≤ m.targetRpm) :
    -802000 ≤ m.piOutput ∧ m.piOutput ≤ lmKp * m.error + 2000 := by
  obtain ⟨he0, -⟩ := error_bounds h h1
  obtain ⟨hi0, hi1⟩ := capIntegral_bounds (m.piITerm + m.error)
  simp only [LinearMotor.piOutput, lmKp, lmKiScaled, integralLimit] at *
  omega

/-- Without overflow the correction is the PI law. -/
theorem correctUv_eq (h : MotorInv m) (h1 : 1 ≤ m.targetRpm) {uv : ℤ} (h0 : 0 ≤ uv)
    (h2 : uv ≤ 5000000) :
    (m.correctUv uv).piITerm = capIntegral (m.piITerm + m.error) ∧
    (m.correctUv uv).uv = m.limitUv (uv + m.piOutput) ∧
    ∀ x ∈ (m.correctUv uv).ints, Fits32 x := by
  obtain ⟨he0, he1⟩ := error_bounds h h1
  obtain ⟨hi0, hi1⟩ := capIntegral_bounds (m.piITerm + m.error)
  have hi2 := h.iTerm_ge
  have hi3 := h.iTerm_le
  simp only [lmConfig, integralLimit] at he1 hi0 hi1 hi2 hi3
  have herror : Fits32 (m.actualTarget - CFloat.toInt m.currentRpm) :=
    fits32_of_bounds (x := m.error) (by omega) (by omega)
  have hiTerm : Fits32 (m.piITerm + m.error) := fits32_of_bounds (by omega) (by omega)
  have hp : Fits32 (lmKp * m.error) := by
    simp only [lmKp]
    exact fits32_of_bounds (by omega) (by omega)
  have hi : Fits32 (lmKiScaled * capIntegral (m.piITerm + m.error)) := by
    simp only [lmKiScaled]
    exact fits32_of_bounds (by omega) (by omega)
  have houtput : Fits32 m.piOutput := by
    simp only [LinearMotor.piOutput, lmKp, lmKiScaled]
    exact fits32_of_bounds (by omega) (by omega)
  have htarget : Fits32 (uv + m.piOutput) := by
    obtain ⟨ho0, ho1⟩ := piOutput_bounds h h1
    simp only [lmKp] at ho1
    exact fits32_of_bounds (by omega) (by omega)
  have hunfold : m.correctUv uv = ⟨capIntegral (m.piITerm + m.error), m.limitUv (uv + m.piOutput),
      [m.error, m.piITerm + m.error, lmKp * m.error,
        lmKiScaled * capIntegral (m.piITerm + m.error), m.piOutput, uv + m.piOutput]⟩ := by
    have herror' : int32 (m.actualTarget - CFloat.toInt m.currentRpm) = m.error :=
      int32_of_fits herror
    unfold LinearMotor.piOutput at houtput htarget ⊢
    simp only [LinearMotor.correctUv, herror', int32_of_fits hiTerm, int32_of_fits hp,
      int32_of_fits hi, int32_of_fits houtput, int32_of_fits htarget]
    rfl
  rw [hunfold]
  refine ⟨rfl, rfl, ?_⟩
  intro x hx
  simp only [List.mem_cons, List.not_mem_nil, or_false] at hx
  rcases hx with rfl | rfl | rfl | rfl | rfl | rfl
  · exact herror
  · exact hiTerm
  · exact hp
  · exact hi
  · exact houtput
  · exact htarget

/-- The limits of lines 252–262 raise the voltage to at least the idle voltage and
    never lower it: `actual_target` is a speed, far below `min_rpm_max_uv`. -/
theorem limitUv_spec (h : MotorInv m) (h1 : 1 ≤ m.targetRpm) (x : ℤ) :
    lmConfig.idleUv ≤ m.limitUv x ∧ (m.limitUv x ≤ lmConfig.maxUv ↔ x ≤ lmConfig.maxUv) := by
  have htarget := h.target_le
  have hactual := actualTarget_cases h1
  unfold LinearMotor.limitUv
  simp only [lmConfig] at *
  split_ifs <;> omega

/-! ## The decision of a sample -/

theorem regulate_fits (h : MotorInv m) {l k : List ℤ} (hl : ∀ x ∈ l, Fits32 x)
    (hk : ∀ x ∈ k, Fits32 x) :
    ∀ x ∈ [m.targetRpm - 30, m.targetRpm + 30] ++ l ++ k, Fits32 x := by
  intro x hx
  rw [List.mem_append, List.mem_append] at hx
  rcases hx with (hx | hx) | hx
  · exact h.deadband_fits x hx
  · exact hl x hx
  · exact hk x hx

/-- A sample that ramps to `uv` and corrects it. -/
theorem regulate_ramp (h : MotorInv m) (h1 : 1 ≤ m.targetRpm) {uv : ℤ}
    (hchoose : m.chooseUv = ⟨uv, true, [uv]⟩) (h0 : 0 ≤ uv) (h2 : uv ≤ 5000000) :
    lmConfig.idleUv ≤ m.regulate.uv ∧
    (m.regulate.uv ≤ lmConfig.maxUv ↔ uv + m.piOutput ≤ lmConfig.maxUv) ∧
    (-integralLimit ≤ m.regulate.piITerm ∧ m.regulate.piITerm ≤ integralLimit) ∧
    ∀ x ∈ m.regulate.ints, Fits32 x := by
  obtain ⟨hi, huv, hints⟩ := correctUv_eq h h1 h0 h2
  obtain ⟨hidle, hmax⟩ := limitUv_spec h h1 (uv + m.piOutput)
  have huv32 : ∀ x ∈ [uv], Fits32 x := by
    intro x hx
    rw [List.mem_singleton.1 hx]
    exact fits32_of_bounds (by omega) (by omega)
  rw [← huv] at hidle hmax
  have hcap := capIntegral_bounds (m.piITerm + m.error)
  rw [← hi] at hcap
  unfold LinearMotor.regulate
  rw [hchoose]
  exact ⟨hidle, hmax, hcap, regulate_fits h huv32 hints⟩

/-- A sample never decides on less than the idle voltage, computes without overflow,
    and stays within `max_uv` exactly when the ramp up above `min_rpm_max_uv` does. -/
theorem regulate_spec (h : MotorInv m) (h1 : 1 ≤ m.targetRpm) (hout : m.inDeadband = false) :
    lmConfig.idleUv ≤ m.regulate.uv ∧ (m.regulate.uv ≤ lmConfig.maxUv ↔
      (m.RampsUp → m.uv + lmConfig.voltRampUp + m.piOutput ≤ lmConfig.maxUv)) ∧
    (-integralLimit ≤ m.regulate.piITerm ∧ m.regulate.piITerm ≤ integralLimit) ∧
    ∀ x ∈ m.regulate.ints, Fits32 x := by
  have hchosen := chosen_chooseUv h h1 hout
  have hhi := h.uv_le
  have hlo := h.uv_nonneg
  have hpi := (piOutput_bounds h h1).2
  generalize hc : m.chooseUv = chosen at hchosen
  cases hchosen with
  | fixed hramp hlo' hhi' hfit =>
    have hle : lmConfig.idleUv ≤ lmConfig.minRpmUv := by decide
    unfold LinearMotor.regulate
    rw [hc]
    exact ⟨hle.trans hlo', iff_of_true hhi' fun hr => absurd hr hramp, ⟨h.iTerm_ge, h.iTerm_le⟩,
      regulate_fits h hfit (by simp)⟩
  | rampLow hramp hlo' hhi' herr =>
    simp only [lmConfig, lmKp] at hhi hlo' hhi' herr hpi
    obtain ⟨hidle, hmax, hrest⟩ := regulate_ramp h h1 hc (by simp only [lmConfig]; omega)
      (by simp only [lmConfig]; omega)
    refine ⟨hidle, hmax.trans (iff_of_true ?_ fun hr => absurd hr hramp), hrest⟩
    simp only [lmConfig]
    omega
  | rampDown hramp hlo' herr =>
    simp only [lmConfig, lmKp] at hhi hlo' herr hpi
    obtain ⟨hidle, hmax, hrest⟩ := regulate_ramp h h1 hc (by simp only [lmConfig]; omega)
      (by simp only [lmConfig]; omega)
    refine ⟨hidle, hmax.trans (iff_of_true ?_ fun hr => absurd hr hramp), hrest⟩
    simp only [lmConfig]
    omega
  | rampUp hramp =>
    simp only [lmConfig] at hhi
    obtain ⟨hidle, hmax, hrest⟩ := regulate_ramp h h1 hc (by simp only [lmConfig]; omega)
      (by simp only [lmConfig]; omega)
    exact ⟨hidle, hmax.trans ⟨fun hle _ => hle, fun hle => hle hramp⟩, hrest⟩

end Regulate

/-! ## Headroom -/

/-- Where the motor is at least 30 rpm slower than a target above `min_rpm` and the
    voltage is `min_rpm_max_uv` or more, the distance to `max_uv` is at least what
    ramp, speed error and integral call for. -/
def LinearMotor.Headroom (m : LinearMotor ℚ) (p : ℤ) : Prop :=
  let error := m.targetRpm - ⌊m.speedAfter p⌋
  lmConfig.minRpm < m.targetRpm → lmConfig.minRpmMaxUv ≤ m.uv →
    m.speedAfter p ≤ m.targetRpm - 30 →
    m.uv + lmConfig.voltRampUp + lmKp * error +
      lmKiScaled * max (-integralLimit) (min integralLimit (m.piITerm + error)) ≤ lmConfig.maxUv

theorem capIntegral_eq (i : ℤ) : capIntegral i = max (-integralLimit) (min integralLimit i) := by
  simp only [capIntegral, integralLimit]
  split_ifs <;> omega

/-- The ramp up is taken at speeds below the deadband. -/
theorem rampsUp_iff {m : LinearMotor ℚ} : m.RampsUp ↔ lmConfig.minRpm < m.targetRpm ∧
    lmConfig.minRpmMaxUv ≤ m.uv ∧ m.currentRpm ≤ m.targetRpm - 30 := by
  have hband : lmConfig.minRpm < m.targetRpm → m.currentRpm < m.targetRpm →
      (m.inDeadband = false ↔ m.currentRpm ≤ m.targetRpm - 30) := by
    intro htarget hslow
    have h200 : (200 : ℚ) < m.targetRpm := by exact_mod_cast htarget
    simp only [LinearMotor.inDeadband, LinearMotor.motorMoves, lmConfig, CFloat.lt_rat,
      CFloat.ofRat_rat, Bool.and_eq_false_iff, decide_eq_false_iff_not, not_lt]
    push_cast
    constructor
    · rintro ((h | h) | h)
      · linarith
      · exact h
      · linarith
    · intro h
      exact .inl (.inr h)
  constructor
  · rintro ⟨hout, htarget, huv, hslow⟩
    exact ⟨htarget, huv, (hband htarget hslow).1 hout⟩
  · rintro ⟨htarget, huv, hslow⟩
    have hlt : m.currentRpm < m.targetRpm := by linarith
    exact ⟨(hband htarget hlt).2 hslow, htarget, huv, hlt⟩

theorem headroom_iff {m : LinearMotor ℚ} {p : ℤ} (h : MotorInv (m.measure p)) :
    m.Headroom p ↔ ((m.measure p).RampsUp → (m.measure p).uv + lmConfig.voltRampUp +
      (m.measure p).piOutput ≤ lmConfig.maxUv) := by
  have hfloor : CFloat.toInt (m.measure p).currentRpm = ⌊m.speedAfter p⌋ := by
    rw [CFloat.toInt_of_nonneg h.rpm_nonneg, measure_currentRpm]
  rw [rampsUp_iff, measure_currentRpm]
  simp only [LinearMotor.Headroom, and_imp]
  refine forall_congr' fun htarget => forall_congr' fun _ => forall_congr' fun _ => ?_
  have herror : (m.measure p).error = m.targetRpm - ⌊m.speedAfter p⌋ := by
    have hactual := actualTarget_cases (m := m.measure p) (by
      show 1 ≤ m.targetRpm
      simp only [lmConfig] at htarget; omega)
    rw [LinearMotor.error, hfloor]
    rcases hactual with ⟨hle, -⟩ | ⟨-, heq⟩
    · exact absurd htarget (not_lt.2 hle)
    · rw [heq]; rfl
  rw [LinearMotor.piOutput, herror, capIntegral_eq, ← add_assoc]
  rfl

/-! ## Runs -/

/-- What is expected of one step: `lm_uv` stays between 0 and `max_uv`, a sample that
    writes the PWM with a positive target sets at least the idle voltage, and its
    `int32_t` computations do not overflow. -/
structure VoltageOk (s : Spindle ℚ) (e : SpindleEvent ℚ) (t : Spindle ℚ) : Prop where
  uv_nonneg : 0 ≤ t.linear.uv
  uv_le : t.linear.uv ≤ lmConfig.maxUv
  idle : ∀ p, e = .sample p → (∃ d, .setDuty d ∈ (s.linear.takeSample p).accesses) →
    0 < s.linear.targetRpm → lmConfig.idleUv ≤ t.linear.uv
  fits : ∀ p, e = .sample p → ∀ x ∈ (s.linear.takeSample p).ints, Fits32 x

/-- Every sample of the enabled motor has the headroom it needs. -/
def HasHeadroom (s : Spindle ℚ) (e : SpindleEvent ℚ) (_ : Spindle ℚ) : Prop :=
  match e with
  | .sample p => s.linear.enabled = true → s.linear.Headroom p
  | _ => True

/-- The pulse count is a non-negative `int16_t`. -/
def PulsesOk : SpindleEvent ℚ → Prop
  | .sample p => 0 ≤ p ∧ p < 2 ^ 15
  | _ => True

/-- A change that leaves the target, the integral and the speed. -/
theorem MotorInv.frame {m n : LinearMotor ℚ} (h : MotorInv m) (h0 : 0 ≤ n.uv)
    (h1 : n.uv ≤ lmConfig.maxUv) (htarget : n.targetRpm = m.targetRpm)
    (hterm : n.piITerm = m.piITerm) (hrpm : n.currentRpm = m.currentRpm) : MotorInv n where
  uv_nonneg := h0
  uv_le := h1
  target_nonneg := by rw [htarget]; exact h.target_nonneg
  target_le := by rw [htarget]; exact h.target_le
  iTerm_ge := by rw [hterm]; exact h.iTerm_ge
  iTerm_le := by rw [hterm]; exact h.iTerm_le
  rpm_nonneg := by rw [hrpm]; exact h.rpm_nonneg
  rpm_le := by rw [hrpm]; exact h.rpm_le

/-- A step that is no sample and sets no voltage outside the bounds. -/
theorem voltageOk_of_not_sample {s t : Spindle ℚ} {e : SpindleEvent ℚ} (he : ∀ p, e ≠ .sample p)
    (h : MotorInv t.linear) : VoltageOk s e t where
  uv_nonneg := h.uv_nonneg
  uv_le := h.uv_le
  idle p hp := absurd hp (he p)
  fits p hp := absurd hp (he p)

theorem MotorInv.setTarget {m : LinearMotor ℚ} (h : MotorInv m) (targetRpm : ℤ) :
    MotorInv (m.setTarget targetRpm) := by
  refine ⟨h.uv_nonneg, h.uv_le, ?_, ?_, h.iTerm_ge, h.iTerm_le, h.rpm_nonneg, h.rpm_le⟩
  · simp only [LinearMotor.setTarget, lmConfig]
    split_ifs <;> omega
  · simp only [LinearMotor.setTarget, lmConfig]
    split_ifs <;> omega

/-- The set calls, the trim and the other controller keep the ranges. -/
theorem MotorInv.next {s : Spindle ℚ} (h : MotorInv s.linear) {e : SpindleEvent ℚ}
    (he : ∀ p, e ≠ .sample p) : MotorInv (s.next e).linear := by
  have henable : ∀ on, MotorInv { s.linear with enabled := on } := fun _ =>
    h.frame h.uv_nonneg h.uv_le rfl rfl rfl
  have hset : ∀ uv, 0 ≤ uv → uv ≤ lmConfig.maxUv → MotorInv { s.linear with uv := uv } :=
    fun _ h0 h1 => h.frame h0 h1 rfl rfl rfl
  cases e with
  | setAdrc rpm =>
    obtain ⟨enabled, hlin⟩ := exists_setAdrcSpindleSpeed_linear s rpm
    show MotorInv (s.setAdrcSpindleSpeed rpm).linear
    rw [hlin]
    exact henable enabled
  | setLinear targetRpm =>
    show MotorInv (s.linearMotorSetRpm targetRpm).linear
    simp only [Spindle.linearMotorSetRpm]
    split_ifs
    · exact (henable true).setTarget targetRpm
    · exact h.setTarget targetRpm
  | adrcTick p => exact h
  | sample p => exact absurd rfl (he p)
  | trim => exact hset lmConfig.trimUv (by decide) (by decide)
  | trimDone => exact hset lmConfig.idleUv (by decide) (by decide)

theorem voltageOk_sample {s : Spindle ℚ} {p : ℤ} : VoltageOk s (.sample p) (s.takeSample p) ↔
    (0 ≤ (s.linear.takeSample p).motor.uv ∧
      (s.linear.takeSample p).motor.uv ≤ lmConfig.maxUv) ∧
    ((∃ d, .setDuty d ∈ (s.linear.takeSample p).accesses) → 0 < s.linear.targetRpm →
      lmConfig.idleUv ≤ (s.linear.takeSample p).motor.uv) ∧
    ∀ x ∈ (s.linear.takeSample p).ints, Fits32 x := by
  constructor
  · intro h
    exact ⟨⟨h.uv_nonneg, h.uv_le⟩, h.idle p rfl, h.fits p rfl⟩
  · rintro ⟨⟨h0, h1⟩, hidle, hfit⟩
    refine ⟨h0, h1, ?_, ?_⟩
    · rintro _ ⟨⟩
      exact hidle
    · rintro _ ⟨⟩
      exact hfit

/-- One sample: the bounds hold after it exactly when it has the headroom, and then
    the ranges are kept. -/
theorem sample_voltageOk {s : Spindle ℚ} (h : MotorInv s.linear) {p : ℤ} (h0 : 0 ≤ p)
    (h1 : p < 2 ^ 15) :
    (VoltageOk s (.sample p) (s.takeSample p) ↔
      (s.linear.enabled = true → s.linear.Headroom p)) ∧
    (VoltageOk s (.sample p) (s.takeSample p) → MotorInv (s.takeSample p).linear) := by
  have hm := h.measure h0 h1
  have htarget := h.target_nonneg
  have hidle0 : 0 ≤ lmConfig.idleUv := by decide
  have hidle1 : lmConfig.idleUv ≤ lmConfig.maxUv := by decide
  rw [voltageOk_sample, show (s.takeSample p).linear = (s.linear.takeSample p).motor from rfl]
  cases hen : s.linear.enabled with
  | false =>
    rw [takeSample_disabled _ _ hen]
    exact ⟨iff_of_true ⟨⟨h.uv_nonneg, h.uv_le⟩, by simp, by simp⟩ (by simp), fun _ => h⟩
  | true =>
    by_cases hzero : s.linear.targetRpm = 0
    · have hroom : s.linear.Headroom p := by
        intro hgt
        rw [hzero] at hgt
        exact absurd hgt (by decide)
      cases hon : s.linear.on with
      | false =>
        rw [takeSample_off _ _ hen hzero hon]
        exact ⟨iff_of_true ⟨⟨h.uv_nonneg, h.uv_le⟩, by simp, by simp⟩ fun _ => hroom, fun _ => hm⟩
      | true =>
        rw [takeSample_stop _ _ hen hzero hon]
        refine ⟨iff_of_true ⟨⟨hidle0, hidle1⟩, fun _ _ => le_rfl, by simp⟩ fun _ => hroom,
          fun _ => ?_⟩
        exact hm.frame hidle0 hidle1 rfl rfl rfl
    · have h1 : 1 ≤ (s.linear.measure p).targetRpm := by
        show 1 ≤ s.linear.targetRpm
        omega
      cases hband : (s.linear.measure p).inDeadband with
      | true =>
        rw [takeSample_hold _ _ hen hzero hband]
        have hroom : s.linear.Headroom p := by
          rw [headroom_iff hm]
          rintro ⟨hout, -⟩
          rw [hband] at hout
          cases hout
        exact ⟨iff_of_true ⟨⟨h.uv_nonneg, h.uv_le⟩, by simp, h.deadband_fits⟩ fun _ => hroom,
          fun _ => hm⟩
      | false =>
        rw [takeSample_run _ _ hen hzero hband]
        obtain ⟨hidle, hmax, ⟨hi0, hi1⟩, hfit⟩ := regulate_spec hm h1 hband
        rw [← headroom_iff hm] at hmax
        have hnonneg : 0 ≤ (s.linear.measure p).regulate.uv :=
          hidle0.trans hidle
        constructor
        · constructor
          · rintro ⟨⟨-, hle⟩, -⟩ -
            exact hmax.1 hle
          · intro hroom
            exact ⟨⟨hnonneg, hmax.2 (hroom rfl)⟩, fun _ _ => hidle, hfit⟩
        · rintro ⟨⟨-, hle⟩, -⟩
          exact ⟨hnonneg, hle, hm.target_nonneg, hm.target_le, hi0, hi1, hm.rpm_nonneg, hm.rpm_le⟩

/-! ## Main result -/

/-- Along every run the bounds hold exactly when every sample of the enabled motor
    has the headroom it needs. -/
theorem voltage_bounded {es : List (SpindleEvent ℚ)} (hp : ∀ e ∈ es, PulsesOk e) :
    (spindleTasks ℚ).Along VoltageOk .init es ↔ (spindleTasks ℚ).Along HasHeadroom .init es := by
  refine Machine.along_congr (I := fun s : Spindle ℚ => MotorInv s.linear) ?_ motorInv_init
  rintro s e he _ h ⟨⟩
  by_cases hsample : ∃ p, e = .sample p
  · obtain ⟨p, rfl⟩ := hsample
    obtain ⟨h0, h1⟩ := hp _ he
    exact sample_voltageOk h h0 h1
  · push Not at hsample
    have hnext := h.next hsample
    refine ⟨iff_of_true (voltageOk_of_not_sample hsample hnext) ?_, fun _ => hnext⟩
    cases e with
    | sample p => exact absurd rfl (hsample p)
    | setAdrc rpm => trivial
    | setLinear targetRpm => trivial
    | adrcTick p => trivial
    | trim => trivial
    | trimDone => trivial

instance (m : LinearMotor ℚ) (p : ℤ) : Decidable (m.Headroom p) :=
  inferInstanceAs (Decidable (_ → _ → _ → _ ≤ _))

instance (s : Spindle ℚ) (e : SpindleEvent ℚ) (t : Spindle ℚ) : Decidable (HasHeadroom s e t) :=
  match e with
  | .sample p => inferInstanceAs (Decidable (s.linear.enabled = true → s.linear.Headroom p))
  | .setAdrc _ | .setLinear _ | .adrcTick _ | .trim | .trimDone => .isTrue trivial

instance : DecidablePred PulsesOk
  | .sample p => inferInstanceAs (Decidable (0 ≤ p ∧ p < 2 ^ 15))
  | .setAdrc _ | .setLinear _ | .adrcTick _ | .trim | .trimDone => .isTrue trivial

/-- A trim, a start at 1000 rpm and three samples with growing speed. -/
theorem voltage_bounded_start : (spindleTasks ℚ).Along VoltageOk .init
    [.trim, .trimDone, .setLinear 1000, .sample 0, .sample 400, .sample 1200] :=
  (voltage_bounded (by decide +kernel)).2 (by decide +kernel)

/-- A motor that is told to run at 3000 rpm and does not turn: the voltage passes
    `max_uv` after 14 samples. -/
theorem voltage_exceeds_max :
    ¬ ∀ es : List (SpindleEvent ℚ), (∀ e ∈ es, PulsesOk e) →
      ∀ s, (spindleTasks ℚ).run .init es = some s → s.linear.uv ≤ lmConfig.maxUv := by
  intro h
  let es : List (SpindleEvent ℚ) := .setLinear 3000 :: List.replicate 14 (.sample 0)
  obtain ⟨s, hrun, -, huv⟩ := (spindleTasks ℚ).exists_reachable es
    (fun s => decide (s.linear.uv ≤ lmConfig.maxUv)) (v := false) (by decide +kernel)
  have hle := h es (by decide +kernel) s hrun
  simp only [decide_eq_false_iff_not] at huv
  exact huv hle

end Esp32Embroidery.Motor
