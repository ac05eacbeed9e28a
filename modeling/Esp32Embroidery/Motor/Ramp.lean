import Esp32Embroidery.Motor.SharedSpindle
import Mathlib.Algebra.Order.Floor.Semiring

/-!
# The ramp of the linear motor (`linear_motor_set_rpm_ramp`, `linear_motor.c`)

A call moves the target up by at most `ramp`, or down at once. Both ends of its range clamp
the result: `linear_motor_set_rpm` raises a negative speed to zero and lowers one above
`max_rpm`.

Main results:

* `targetRpm_ramp`: a call takes the target to `min (target + ramp) goal`.
* `targetRpm_rampCalls`: so do `k` calls, with `k * ramp`.
* `linear_ramp_converges`: what follows for the whole run of calls.
-/

namespace Esp32Embroidery.Motor

open Esp32Embroidery.Lib

variable {F : Type*} [CFloat F]

/-! ## Model -/

/-- `linear_motor_set_rpm_ramp` (lines 113–121). The sum is an `int`; the argument of the
    first call is narrowed to `int16_t`. -/
def Spindle.linearMotorSetRpmRamp (s : Spindle F) (targetRpm ramp : ℤ) : Spindle F :=
  if targetRpm > s.linear.targetRpm + ramp then
    s.linearMotorSetRpm (int16 (s.linear.targetRpm + ramp))
  else s.linearMotorSetRpm targetRpm

/-- The state after `k` calls. -/
def Spindle.rampCalls (s : Spindle F) (targetRpm ramp : ℤ) : ℕ → Spindle F
  | 0 => s
  | k + 1 => (s.rampCalls targetRpm ramp k).linearMotorSetRpmRamp targetRpm ramp

/-- `targetRpm` within the range of the motor. -/
def rampGoal (targetRpm : ℤ) : ℤ := min (max targetRpm 0) lmConfig.maxRpm

/-- The targets that `linear_motor_set_rpm` stores. -/
def InRange (rpm : ℤ) : Prop := 0 ≤ rpm ∧ rpm ≤ lmConfig.maxRpm

/-! ## The target -/

theorem maxRpm_eq : lmConfig.maxRpm = 3000 := rfl

theorem targetRpm_linearMotorSetRpm (s : Spindle F) (targetRpm : ℤ) :
    (s.linearMotorSetRpm targetRpm).linear.targetRpm = rampGoal targetRpm := by
  have hset : ∀ m : LinearMotor F, (m.setTarget targetRpm).targetRpm = rampGoal targetRpm := by
    intro m
    unfold LinearMotor.setTarget rampGoal
    rw [maxRpm_eq]
    show ite _ _ _ = _
    split_ifs <;> omega
  unfold Spindle.linearMotorSetRpm
  split_ifs
  · exact hset _
  · exact hset _

theorem inRange_rampGoal (targetRpm : ℤ) : InRange (rampGoal targetRpm) := by
  unfold InRange rampGoal
  rw [maxRpm_eq]
  omega

theorem inRange_of_reachable {s : Spindle F} (h : (spindleTasks F).Reachable s) :
    InRange s.linear.targetRpm := by
  refine h.invariant (I := fun s => InRange s.linear.targetRpm) (inRange_rampGoal 0) ?_
  rintro s e _ - hs ⟨⟩ -
  cases e with
  | setAdrc rpm =>
    simp only [Spindle.next]
    obtain ⟨enabled, hlin⟩ := exists_setAdrcSpindleSpeed_linear s rpm
    rw [hlin]
    exact hs
  | setLinear targetRpm =>
    simp only [Spindle.next]
    rw [targetRpm_linearMotorSetRpm]
    exact inRange_rampGoal targetRpm
  | adrcTick pulseCount => exact hs
  | sample pulseCount =>
    simp only [Spindle.next, Spindle.takeSample]
    rw [(takeSample_keeps s.linear pulseCount).1]
    exact hs
  | trim => exact hs
  | trimDone => exact hs

/-! ## One call -/

/-- The sum is only used when it is an `int16_t` value. -/
theorem fits16_sum {rpm targetRpm ramp : ℤ} (hrpm : InRange rpm) (htarget : Fits16 targetRpm)
    (hramp : 0 < ramp) (h : targetRpm > rpm + ramp) : Fits16 (rpm + ramp) := by
  unfold InRange at hrpm
  unfold Fits16 at *
  omega

theorem targetRpm_ramp {s : Spindle F} {targetRpm ramp : ℤ} (hs : InRange s.linear.targetRpm)
    (htarget : Fits16 targetRpm) (hramp : 0 < ramp) :
    (s.linearMotorSetRpmRamp targetRpm ramp).linear.targetRpm =
      min (s.linear.targetRpm + ramp) (rampGoal targetRpm) := by
  unfold Spindle.linearMotorSetRpmRamp
  split_ifs with habove
  · rw [targetRpm_linearMotorSetRpm, int16_of_fits (fits16_sum hs htarget hramp habove)]
    unfold InRange at hs
    unfold rampGoal
    omega
  · rw [targetRpm_linearMotorSetRpm]
    unfold InRange at hs
    unfold rampGoal
    omega

/-! ## A run of calls -/

section

variable {s : Spindle F} {targetRpm ramp : ℤ}

theorem inRange_rampCalls (hs : InRange s.linear.targetRpm) (k : ℕ) :
    InRange (s.rampCalls targetRpm ramp k).linear.targetRpm := by
  induction k with
  | zero => exact hs
  | succ k ih =>
    rw [Spindle.rampCalls, Spindle.linearMotorSetRpmRamp]
    split_ifs
    · rw [targetRpm_linearMotorSetRpm]
      exact inRange_rampGoal _
    · rw [targetRpm_linearMotorSetRpm]
      exact inRange_rampGoal _

/-- After `k` calls the target has moved by `k` ramps, or is at its goal. -/
theorem targetRpm_rampCalls (hs : InRange s.linear.targetRpm) (htarget : Fits16 targetRpm)
    (hramp : 0 < ramp) (k : ℕ) :
    (s.rampCalls targetRpm ramp (k + 1)).linear.targetRpm =
      min (s.linear.targetRpm + (k + 1) * ramp) (rampGoal targetRpm) := by
  induction k with
  | zero =>
    rw [Spindle.rampCalls, targetRpm_ramp (inRange_rampCalls hs 0) htarget hramp]
    simp [Spindle.rampCalls]
  | succ k ih =>
    rw [Spindle.rampCalls, targetRpm_ramp (inRange_rampCalls hs _) htarget hramp, ih]
    have hsum : s.linear.targetRpm + ((k + 1 : ℕ) + 1) * ramp =
        s.linear.targetRpm + (k + 1) * ramp + ramp := by
      push_cast
      ring
    rw [hsum]
    omega

end

/-- Repeated calls of `linear_motor_set_rpm_ramp(targetRpm, ramp)` from `s`. -/
structure RampConverges (s : Spindle F) (targetRpm ramp : ℤ) : Prop where
  raise_le : ∀ k, (s.rampCalls targetRpm ramp (k + 1)).linear.targetRpm ≤
    (s.rampCalls targetRpm ramp k).linear.targetRpm + ramp
  not_lower : ∀ k, (s.rampCalls targetRpm ramp k).linear.targetRpm < min targetRpm lmConfig.maxRpm →
    (s.rampCalls targetRpm ramp k).linear.targetRpm ≤
      (s.rampCalls targetRpm ramp (k + 1)).linear.targetRpm
  not_exceed : ∀ k, (s.rampCalls targetRpm ramp k).linear.targetRpm ≤ rampGoal targetRpm →
    (s.rampCalls targetRpm ramp (k + 1)).linear.targetRpm ≤ rampGoal targetRpm
  /-- From below, the goal is reached after the given number of calls and kept. -/
  reach : s.linear.targetRpm < rampGoal targetRpm → ∀ k,
    (s.rampCalls targetRpm ramp k).linear.targetRpm = rampGoal targetRpm ↔
      ⌈((rampGoal targetRpm - s.linear.targetRpm : ℤ) : ℚ) / ramp⌉₊ ≤ k
  /-- Otherwise one call is enough. -/
  reach_once : rampGoal targetRpm ≤ s.linear.targetRpm → ∀ k,
    (s.rampCalls targetRpm ramp (k + 1)).linear.targetRpm = rampGoal targetRpm
  /-- No `int16_t` overflows: neither the target nor the sum that is passed on. -/
  fits : ∀ k, Fits16 (s.rampCalls targetRpm ramp k).linear.targetRpm ∧
    (targetRpm > (s.rampCalls targetRpm ramp k).linear.targetRpm + ramp →
      Fits16 ((s.rampCalls targetRpm ramp k).linear.targetRpm + ramp))

/-- For every reachable state, every `int16_t` target and every positive ramp. -/
theorem linear_ramp_converges {s : Spindle F} (h : (spindleTasks F).Reachable s)
    {targetRpm ramp : ℤ} (htarget : Fits16 targetRpm) (hramp : 0 < ramp) :
    RampConverges s targetRpm ramp := by
  have hs := inRange_of_reachable h
  have hgoal := inRange_rampGoal targetRpm
  have hcall : ∀ k, (s.rampCalls targetRpm ramp (k + 1)).linear.targetRpm =
      min ((s.rampCalls targetRpm ramp k).linear.targetRpm + ramp) (rampGoal targetRpm) :=
    fun k => targetRpm_ramp (inRange_rampCalls hs k) htarget hramp
  have hrun := targetRpm_rampCalls hs htarget hramp
  constructor
  case raise_le =>
    intro k
    rw [hcall]
    exact min_le_left _ _
  case not_lower =>
    intro k hbelow
    have hmin : min targetRpm lmConfig.maxRpm ≤ rampGoal targetRpm :=
      min_le_min_right _ (le_max_left _ _)
    rw [hcall]
    omega
  case not_exceed =>
    intro k _
    rw [hcall]
    exact min_le_right _ _
  case reach =>
    intro hbelow k
    have hpos : (0 : ℚ) < ramp := by exact_mod_cast hramp
    rw [Nat.ceil_le, div_le_iff₀ hpos]
    norm_cast
    cases k with
    | zero =>
      simp only [Spindle.rampCalls]
      omega
    | succ k =>
      rw [hrun]
      push_cast
      omega
  case reach_once =>
    intro habove k
    rw [hrun, min_eq_right]
    nlinarith
  case fits =>
    intro k
    have hk : InRange (s.rampCalls targetRpm ramp k).linear.targetRpm := inRange_rampCalls hs k
    refine ⟨?_, fits16_sum hk htarget hramp⟩
    unfold InRange at hk
    rw [maxRpm_eq] at hk
    unfold Fits16
    omega

/-- From standstill to 1000 in steps of 300. -/
theorem linear_ramp_converges_four : RampConverges (Spindle.init : Spindle ℚ) 1000 300 :=
  linear_ramp_converges .init (by decide) (by decide)

end Esp32Embroidery.Motor
