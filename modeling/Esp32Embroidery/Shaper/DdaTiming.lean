import Esp32Embroidery.Shaper.Dda
import Mathlib.Algebra.BigOperators.Fin

/-!
# The timestamps of a line

The clock of the line generator stands still in every vector step that moves no axis. A
line along an axis has no such vector step; every other line begins with one.

Main results:

* `ticks_before`: the clock is the sum of the periods of the vector steps that moved.
* `profileVelocity_zero_le`, `totalTicksForStep_pos`: the first vector step takes time.
* `moves_of_axis`, `moves_of_slope`: which vector steps are silent.
* `dda_timing_iff`: the timestamps follow the profile on lines along an axis and on lines
  shorter than two vector steps, and on no other line.
-/

namespace Esp32Embroidery.Shaper

open Esp32Embroidery.Lib

/-! ## The clock -/

namespace Move

variable (m : Move ℝ)

/-- Vector step `s` moves an axis. -/
noncomputable def moves (s : ℕ) : Bool := m.xRequest s || m.yRequest s

/-- The time of the profile up to the end of vector step `s`. -/
noncomputable def profileTicks (s : ℕ) : ℕ := ∑ i ∈ Finset.range (s + 1), m.totalTicksForStep i

/-- Every step that is emitted at vector step `s` has the time of the profile. -/
def OnTime (s : ℕ) : Prop := ∀ step ∈ m.emitted s, step.tickTimestamp = m.profileTicks s

theorem ticks_before (s : ℕ) :
    (m.before s).currentAbsoluteTicks =
      ∑ i ∈ Finset.range s, if m.moves i = true then m.totalTicksForStep i else 0 := by
  induction s with
  | zero => rfl
  | succ s ih =>
    rw [Finset.sum_range_succ, ticks_succ, ih]
    rfl

theorem emitted_ne_nil_iff (s : ℕ) : m.emitted s ≠ [] ↔ m.moves s = true := by
  rw [emitted_eq]
  unfold moves stepsAt
  cases m.xRequest s <;> cases m.yRequest s <;> simp

theorem tick_emitted {s : ℕ} {step : TimeStampedStep} (h : step ∈ m.emitted s) :
    step.tickTimestamp = (m.before s).currentAbsoluteTicks + m.totalTicksForStep s := by
  rw [emitted_eq] at h
  unfold stepsAt at h
  rcases List.mem_append.1 h with h | h
  · split_ifs at h
    · rw [List.mem_singleton.1 h]
    · cases h
  · split_ifs at h
    · rw [List.mem_singleton.1 h]
    · cases h

/-- A vector step is on time if it moves nothing or if all before it took their time. -/
theorem onTime_iff (s : ℕ) :
    m.OnTime s ↔ (m.moves s = true →
      (m.before s).currentAbsoluteTicks = ∑ i ∈ Finset.range s, m.totalTicksForStep i) := by
  unfold OnTime profileTicks
  rw [Finset.sum_range_succ, ← emitted_ne_nil_iff]
  constructor
  · intro h hne
    obtain ⟨step, hstep⟩ := List.exists_mem_of_ne_nil _ hne
    have htick := h step hstep
    rw [m.tick_emitted hstep] at htick
    omega
  · intro h step hstep
    rw [m.tick_emitted hstep, h (List.ne_nil_of_mem hstep)]

/-- No time is lost if every vector step moves an axis. -/
theorem onTime_of_moves (h : ∀ s, m.moves s = true) (s : ℕ) : m.OnTime s := by
  rw [onTime_iff, ticks_before]
  intro _
  refine Finset.sum_congr rfl ?_
  intro i _
  rw [if_pos (h i)]

/-- The first vector step is on time. -/
theorem onTime_zero : m.OnTime 0 := by
  rw [onTime_iff, ticks_before]
  intro _
  rfl

/-- A silent first vector step makes the second one early. -/
theorem not_onTime_one (hsilent : m.moves 0 = false) (hmoves : m.moves 1 = true)
    (hpos : 0 < m.totalTicksForStep 0) : ¬m.OnTime 1 := by
  rw [onTime_iff, ticks_before]
  intro h
  have hticks := h hmoves
  simp [hsilent] at hticks
  omega

end Move

/-! ## Periods -/

theorem startSpeed_real : (startSpeed : ℝ) = 4 := by
  unfold startSpeed
  norm_num

theorem speedAfter_zero : speedAfter (0 : ℝ) = 4 := by
  have hspeed : speedAfter (0 : ℝ) =
      √(startSpeed * startSpeed + CFloat.ofRat 2.0 * maxAccel * 0) := rfl
  rw [hspeed, mul_zero, add_zero, startSpeed_real, Real.sqrt_mul_self (by norm_num)]

namespace Move

variable (m : Move ℝ)

theorem currentVelocity_real (s : ℕ) : m.currentVelocity s = max (m.profileVelocity s) 4 := by
  unfold currentVelocity
  rw [startSpeed_real]
  by_cases hslow : m.profileVelocity s < 4
  · rw [if_pos ((CMath.lt_real _ _).2 hslow), max_eq_right hslow.le]
  · rw [if_neg (mt (CMath.lt_real _ _).1 hslow), max_eq_left (not_lt.1 hslow)]

/-- The period is `160000 / v` ticks, rounded down. -/
theorem totalTicksForStep_eq (s : ℕ) :
    m.totalTicksForStep s = ⌊160000 / m.currentVelocity s⌋₊ := by
  have hv : 4 ≤ m.currentVelocity s := by
    rw [currentVelocity_real]
    exact le_max_right _ _
  have hv0 : m.currentVelocity s ≠ 0 := by positivity
  have hexact : (CFloat.ofRat 1.0 / (m.currentVelocity s * stepsPerMM) *
      CFloat.ofRat clockSpeed : ℝ) = 160000 / m.currentVelocity s := by
    rw [stepsPerMM_real, clockSpeed]
    simp
    field_simp
    norm_num
  have hnonneg : 0 ≤ 160000 / m.currentVelocity s := by positivity
  have hfloor : ⌊160000 / m.currentVelocity s⌋ < 2 ^ 32 := by
    rw [Int.floor_lt, div_lt_iff₀ (by linarith)]
    push_cast
    linarith
  unfold totalTicksForStep
  simp only [hexact]
  rw [CMath.toInt_real hnonneg, toUint32, Int.emod_eq_of_lt (Int.floor_nonneg.2 hnonneg) hfloor,
    Int.floor_toNat]

theorem totalTicksForStep_pos {s : ℕ} (h : m.profileVelocity s ≤ 160000) :
    0 < m.totalTicksForStep s := by
  rw [totalTicksForStep_eq, Nat.floor_pos, currentVelocity_real, one_le_div (by positivity)]
  exact max_le h (by norm_num)

end Move

/-- Above 6 mm/s there is a way to accelerate on. -/
theorem accelStepsTo_pos {targetSpeed : ℝ} (h : 6 < targetSpeed) :
    0 < accelStepsTo targetSpeed := by
  have hexact : (targetSpeed * targetSpeed - startSpeed * startSpeed) /
      (CFloat.ofRat 2.0 * maxAccel) * stepsPerMM = (targetSpeed * targetSpeed - 16) / 16 := by
    rw [startSpeed_real, stepsPerMM_real, maxAccel]
    norm_num
    ring
  have hone : (1 : ℝ) ≤ (targetSpeed * targetSpeed - 16) / 16 := by
    rw [le_div_iff₀ (by norm_num)]
    nlinarith
  unfold accelStepsTo
  simp only [hexact]
  rw [CMath.toInt_real (by linarith)]
  exact Int.floor_pos.2 hone

/-- A line of at least two vector steps begins slowly, whatever its speed: it accelerates
    from the start, or its speed is not worth an acceleration. -/
theorem profileVelocity_zero_le {targetX targetY targetSpeed : ℝ}
    (h : 2 ≤ (move targetX targetY targetSpeed).totalVectorSteps) :
    (move targetX targetY targetSpeed).profileVelocity 0 ≤ 160000 := by
  have hstart : ((CFloat.ofRat ((0 : ℕ) : ℚ) : ℝ) / stepsPerMM) = 0 := by simp
  unfold Move.profileVelocity
  simp only [hstart, speedAfter_zero]
  by_cases hacc : 0 < (move targetX targetY targetSpeed).accelSteps
  · rw [if_pos (by exact_mod_cast hacc)]
    norm_num
  · have hdecel : ¬((0 : ℕ) : ℤ) ≥ (move targetX targetY targetSpeed).decelStartStep := by
      unfold Move.decelStartStep
      omega
    rw [if_neg (by exact_mod_cast hacc), if_neg hdecel]
    have hlong : ¬accelStepsTo targetSpeed * 2 >
        (move targetX targetY targetSpeed).totalVectorSteps := by
      intro hshort
      have hhalf : (move targetX targetY targetSpeed).accelSteps =
          (move targetX targetY targetSpeed).totalVectorSteps.tdiv 2 :=
        if_pos (decide_eq_true hshort)
      rw [Int.tdiv_eq_ediv_of_nonneg (by omega)] at hhalf
      omega
    have hvMax : (move targetX targetY targetSpeed).vMax = targetSpeed :=
      if_neg (mt of_decide_eq_true hlong)
    have haccel : (move targetX targetY targetSpeed).accelSteps = accelStepsTo targetSpeed :=
      if_neg (mt of_decide_eq_true hlong)
    rw [hvMax]
    by_contra hfast
    have hpos : 0 < accelStepsTo targetSpeed := accelStepsTo_pos (by linarith)
    omega

/-! ## Lines -/

section

variable {targetX targetY : ℝ} (targetSpeed : ℝ)

/-- The ratios of a line are the sides of a triangle with hypotenuse one. -/
theorem ratios_sq (h : ¬(targetX = 0 ∧ targetY = 0)) :
    (move targetX targetY targetSpeed).xRatio ^ 2 +
      (move targetX targetY targetSpeed).yRatio ^ 2 = 1 := by
  have hxr : (move targetX targetY targetSpeed).xRatio =
      |targetX| / totalVectorDist targetX targetY := rfl
  have hyr : (move targetX targetY targetSpeed).yRatio =
      |targetY| / totalVectorDist targetX targetY := rfl
  have hsq := totalVectorDist_sq targetX targetY
  have hne : totalVectorDist targetX targetY ^ 2 ≠ 0 := by
    rw [hsq]
    intro hzero
    apply h
    constructor <;> nlinarith [sq_nonneg targetX, sq_nonneg targetY]
  rw [hxr, hyr, div_pow, div_pow, sq_abs, sq_abs, ← add_div, ← hsq, div_self hne]

theorem ratios_nonneg (targetX targetY targetSpeed : ℝ) :
    0 ≤ (move targetX targetY targetSpeed).xRatio ∧
      0 ≤ (move targetX targetY targetSpeed).yRatio :=
  ⟨div_nonneg (abs_nonneg _) (totalVectorDist_nonneg _ _),
    div_nonneg (abs_nonneg _) (totalVectorDist_nonneg _ _)⟩

/-- Along an axis every vector step is a step of this axis. -/
theorem moves_of_axis (haxis : targetX = 0 ∨ targetY = 0) (h : ¬(targetX = 0 ∧ targetY = 0))
    (s : ℕ) : (move targetX targetY targetSpeed).moves s = true := by
  have hsq := ratios_sq targetSpeed h
  obtain ⟨hx0, hy0⟩ := ratios_nonneg targetX targetY targetSpeed
  unfold Move.moves Move.xRequest Move.yRequest
  rw [Bool.or_eq_true]
  rcases haxis with hX | hY
  · have hxr : (move targetX targetY targetSpeed).xRatio = 0 := by
      show |targetX| / totalVectorDist targetX targetY = 0
      rw [hX, abs_zero, zero_div]
    have hyr : (move targetX targetY targetSpeed).yRatio = 1 := by
      rw [hxr] at hsq
      nlinarith
    rw [hyr]
    exact .inr (carry_full s)
  · have hyr : (move targetX targetY targetSpeed).yRatio = 0 := by
      show |targetY| / totalVectorDist targetX targetY = 0
      rw [hY, abs_zero, zero_div]
    have hxr : (move targetX targetY targetSpeed).xRatio = 1 := by
      rw [hyr] at hsq
      nlinarith
    rw [hxr]
    exact .inl (carry_full s)

/-- Any other line begins with a silent vector step, and the next one moves. -/
theorem moves_of_slope (hX : targetX ≠ 0) (hY : targetY ≠ 0) :
    (move targetX targetY targetSpeed).moves 0 = false ∧
      (move targetX targetY targetSpeed).moves 1 = true := by
  have hsq := ratios_sq targetSpeed (fun h : targetX = 0 ∧ targetY = 0 => hX h.1)
  have hdist : 0 < totalVectorDist targetX targetY := by
    have hpos : 0 < totalVectorDist targetX targetY ^ 2 := by
      rw [totalVectorDist_sq]
      positivity
    exact (totalVectorDist_nonneg _ _).lt_of_ne (sq_pos_iff.1 hpos).symm
  have hxpos : 0 < (move targetX targetY targetSpeed).xRatio := div_pos (abs_pos.2 hX) hdist
  have hypos : 0 < (move targetX targetY targetSpeed).yRatio := div_pos (abs_pos.2 hY) hdist
  have hx1 : (move targetX targetY targetSpeed).xRatio < 1 := by nlinarith
  have hy1 : (move targetX targetY targetSpeed).yRatio < 1 := by nlinarith
  unfold Move.moves Move.xRequest Move.yRequest
  rw [Bool.or_eq_false_iff, Bool.or_eq_true]
  refine ⟨⟨?_, ?_⟩, ?_⟩
  · exact Bool.eq_false_of_not_eq_true (mt carry_first_iff.1 (not_le.2 hx1))
  · exact Bool.eq_false_of_not_eq_true (mt carry_first_iff.1 (not_le.2 hy1))
  · by_cases hhalf : 1 ≤ 2 * (move targetX targetY targetSpeed).xRatio
    · exact .inl (carry_second hx1 hhalf)
    · exact .inr (carry_second hy1 (by nlinarith))

theorem two_le_totalVectorSteps_iff (targetX targetY targetSpeed : ℝ) :
    2 ≤ (move targetX targetY targetSpeed).totalVectorSteps ↔
      4 ≤ (targetX * stepsPerMM) ^ 2 + (targetY * stepsPerMM) ^ 2 := by
  have hnonneg := totalVectorDist_nonneg targetX targetY
  have hsq := totalVectorDist_sq targetX targetY
  have hsteps : (move targetX targetY targetSpeed).totalVectorSteps =
      CFloat.toInt (totalVectorDist targetX targetY * stepsPerMM) := rfl
  rw [hsteps, stepsPerMM_real, CMath.toInt_real (by positivity), Int.le_floor]
  push_cast
  constructor
  · intro h
    nlinarith
  · intro h
    nlinarith

end

/-- For every line and every speed: the steps are emitted in the order of their vector steps,
    and all of them have the time of the profile exactly if the line runs along an axis or is
    shorter than two vector steps. -/
theorem dda_timing_iff (targetX targetY targetSpeed : ℝ) :
    (calculateAbsoluteTimestampSteps targetX targetY targetSpeed).1 =
        (List.range (move targetX targetY targetSpeed).totalVectorSteps.toNat).flatMap
          (move targetX targetY targetSpeed).emitted ∧
      ((∀ s < (move targetX targetY targetSpeed).totalVectorSteps.toNat,
          (move targetX targetY targetSpeed).OnTime s) ↔
        targetX = 0 ∨ targetY = 0 ∨
          (targetX * stepsPerMM) ^ 2 + (targetY * stepsPerMM) ^ 2 < 4) := by
  refine ⟨calculateAbsoluteTimestampSteps_eq _ _ _, ?_⟩
  have hlength := two_le_totalVectorSteps_iff targetX targetY targetSpeed
  set m : Move ℝ := move targetX targetY targetSpeed
  constructor
  · intro hontime
    by_contra hnot
    push Not at hnot
    obtain ⟨hX, hY, hlong⟩ := hnot
    have htwo : 2 ≤ m.totalVectorSteps := hlength.2 hlong
    obtain ⟨hsilent, hmoves⟩ := moves_of_slope targetSpeed hX hY
    have hpos := m.totalTicksForStep_pos (profileVelocity_zero_le htwo)
    exact m.not_onTime_one hsilent hmoves hpos (hontime 1 (by omega))
  · intro hline s hs
    by_cases horigin : targetX = 0 ∧ targetY = 0
    · have hshort : ¬2 ≤ m.totalVectorSteps := by
        rw [hlength, horigin.1, horigin.2]
        norm_num
      obtain rfl : s = 0 := by omega
      exact m.onTime_zero
    · rcases or_assoc.2 hline with haxis | hshort
      · exact m.onTime_of_moves (moves_of_axis targetSpeed haxis horigin) s
      · have hshort : ¬2 ≤ m.totalVectorSteps := mt hlength.1 (not_le.2 hshort)
        obtain rfl : s = 0 := by omega
        exact m.onTime_zero

/-- The move of `main`: its second vector step emits an X step as if the first one had taken
    no time. -/
theorem dda_timing_main : ¬∀ s < (move (3 : ℝ) 1 60).totalVectorSteps.toNat,
    (move (3 : ℝ) 1 60).OnTime s := by
  have htwo : 2 ≤ (move (3 : ℝ) 1 60).totalVectorSteps := by
    rw [two_le_totalVectorSteps_iff, stepsPerMM_real]
    norm_num
  have h31 : (3 : ℝ) ≠ 0 ∧ (1 : ℝ) ≠ 0 := by norm_num
  obtain ⟨hsilent, hmoves⟩ := moves_of_slope 60 h31.1 h31.2
  intro hontime
  have hpos := (move (3 : ℝ) 1 60).totalTicksForStep_pos (profileVelocity_zero_le htwo)
  exact (move (3 : ℝ) 1 60).not_onTime_one hsilent hmoves hpos (hontime 1 (by omega))

end Esp32Embroidery.Shaper
