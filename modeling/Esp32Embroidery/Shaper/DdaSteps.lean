import Esp32Embroidery.Shaper.Dda
import Mathlib.Data.Nat.Sqrt
import Mathlib.Tactic.FieldSimp

/-!
# The number of steps of a line

A line over `a` steps of X and `b` steps of Y is `√(a² + b²)` vector steps long, and the
generator makes as many of them as are complete. The counter of X adds the ratio
`a / √(a² + b²)` that many times, so the last X step is lost with the incomplete rest.

Main results:

* `stepCount_stream`: the steps of an axis are the carries of its counter.
* `stepCount_move`: each axis gets its share of the complete vector steps.
* `dda_step_count_iff`: both do exactly when `a² + b²` is a square.
-/

namespace Esp32Embroidery.Shaper

open Esp32Embroidery.Lib

/-! ## Counting steps -/

/-- The number of steps of the axis with the bit `pinMask`. -/
def stepCount (pinMask : BitVec 8) (stream : List TimeStampedStep) : ℕ :=
  stream.countP fun step => step.pinMask = pinMask

theorem stepCount_stepsAt (xRequest yRequest : Bool) (ticks : ℕ) :
    stepCount 0x01 (stepsAt xRequest yRequest ticks) = xRequest.toNat ∧
      stepCount 0x02 (stepsAt xRequest yRequest ticks) = yRequest.toNat := by
  cases xRequest <;> cases yRequest <;> exact ⟨rfl, rfl⟩

theorem stepCount_stream (m : Move ℝ) (n : ℕ) :
    stepCount 0x01 ((List.range n).flatMap m.emitted) = carries m.xRatio n ∧
      stepCount 0x02 ((List.range n).flatMap m.emitted) = carries m.yRatio n := by
  induction n with
  | zero => exact ⟨rfl, rfl⟩
  | succ n ih =>
    obtain ⟨ihx, ihy⟩ := ih
    obtain ⟨hx, hy⟩ := stepCount_stepsAt (m.xRequest n) (m.yRequest n)
      ((m.before n).currentAbsoluteTicks + m.totalTicksForStep n)
    rw [← m.emitted_eq] at hx hy
    rw [List.range_succ, List.flatMap_append, List.flatMap_singleton]
    unfold stepCount at *
    rw [List.countP_append, List.countP_append, ihx, ihy, hx, hy]
    exact ⟨rfl, rfl⟩

/-! ## The length of a line -/

/-- The vector steps along `a` and `b` steps of the axes. -/
noncomputable def lineLength (a b : ℕ) : ℝ := √((a : ℝ) ^ 2 + (b : ℝ) ^ 2)

theorem lineLength_nonneg (a b : ℕ) : 0 ≤ lineLength a b := Real.sqrt_nonneg _

theorem le_lineLength (a b : ℕ) : (a : ℝ) ≤ lineLength a b ∧ (b : ℝ) ≤ lineLength a b := by
  constructor
  · exact Real.le_sqrt_of_sq_le (by nlinarith [sq_nonneg (b : ℝ)])
  · exact Real.le_sqrt_of_sq_le (by nlinarith [sq_nonneg (a : ℝ)])

/-- A line without a rest has a length that is a root. -/
theorem floor_lineLength_iff (a b : ℕ) :
    (⌊lineLength a b⌋ : ℝ) = lineLength a b ↔ IsSquare (a ^ 2 + b ^ 2) := by
  have hnonneg := lineLength_nonneg a b
  have hsq : lineLength a b ^ 2 = ((a ^ 2 + b ^ 2 : ℕ) : ℝ) := by
    push_cast
    exact Real.sq_sqrt (by positivity)
  constructor
  · intro hfloor
    obtain ⟨n, hn⟩ := Int.eq_ofNat_of_zero_le (Int.floor_nonneg.2 hnonneg)
    rw [hn] at hfloor
    refine ⟨n, ?_⟩
    have hcast : ((a ^ 2 + b ^ 2 : ℕ) : ℝ) = ((n * n : ℕ) : ℝ) := by
      rw [← hsq, ← hfloor]
      push_cast
      ring
    exact_mod_cast hcast
  · rintro ⟨n, hn⟩
    have hlength : lineLength a b = n := by
      rw [← abs_of_nonneg hnonneg, ← abs_of_nonneg (Nat.cast_nonneg (α := ℝ) n),
        ← sq_eq_sq_iff_abs_eq_abs, hsq, hn]
      push_cast
      ring
    rw [hlength]
    simp

/-- The share of an axis with `a` steps in the complete vector steps of a line. -/
theorem floor_share_eq_iff {r : ℝ} {a : ℕ} (ha : 0 < a) (hr : (a : ℝ) ≤ r) :
    ⌊(⌊r⌋ : ℝ) * (a / r)⌋ = a ↔ (⌊r⌋ : ℝ) = r := by
  have hapos : (0 : ℝ) < a := by exact_mod_cast ha
  have hrpos : 0 < r := hapos.trans_le hr
  constructor
  · intro hshare
    have hle : (a : ℝ) ≤ ⌊r⌋ * (a / r) := by
      have := Int.floor_le ((⌊r⌋ : ℝ) * (a / r))
      rw [hshare] at this
      exact_mod_cast this
    have hmul : (a : ℝ) * r ≤ a * ⌊r⌋ := by
      have := mul_le_mul_of_nonneg_right hle hrpos.le
      calc (a : ℝ) * r ≤ ⌊r⌋ * (a / r) * r := this
        _ = a * ⌊r⌋ := by field_simp
    exact le_antisymm (Int.floor_le r) (le_of_mul_le_mul_left hmul hapos)
  · intro hexact
    have hshare : (⌊r⌋ : ℝ) * (a / r) = a := by
      rw [hexact]
      field_simp
    rw [hshare]
    exact Int.floor_natCast a

/-- Neither axis loses a step if and only if the line has no rest. -/
theorem floor_shares_iff {a b : ℕ} (hab : 0 < a ∨ 0 < b) :
    (⌊(⌊lineLength a b⌋ : ℝ) * (a / lineLength a b)⌋ = a ∧
      ⌊(⌊lineLength a b⌋ : ℝ) * (b / lineLength a b)⌋ = b) ↔ IsSquare (a ^ 2 + b ^ 2) := by
  obtain ⟨hale, hble⟩ := le_lineLength a b
  rw [← floor_lineLength_iff]
  constructor
  · rintro ⟨hx, hy⟩
    rcases hab with ha | hb
    · exact (floor_share_eq_iff ha hale).1 hx
    · exact (floor_share_eq_iff hb hble).1 hy
  · intro hexact
    have hall : ∀ c : ℕ, (c : ℝ) ≤ lineLength a b →
        ⌊(⌊lineLength a b⌋ : ℝ) * (c / lineLength a b)⌋ = c := by
      intro c hc
      rcases Nat.eq_zero_or_pos c with rfl | hpos
      · simp
      · exact (floor_share_eq_iff hpos hc).2 hexact
    exact ⟨hall a hale, hall b hble⟩

/-! ## The steps of a move -/

section

variable {targetX targetY : ℝ} {a b : ℕ} (hx : |targetX| * stepsPerMM = a)
  (hy : |targetY| * stepsPerMM = b)

include hx hy

theorem totalVectorDist_eq : totalVectorDist targetX targetY * stepsPerMM = lineLength a b := by
  have hnonneg : 0 ≤ totalVectorDist targetX targetY * stepsPerMM := by
    rw [stepsPerMM_real]
    exact mul_nonneg (totalVectorDist_nonneg _ _) (by norm_num)
  have hsq : (a : ℝ) ^ 2 + (b : ℝ) ^ 2 = (totalVectorDist targetX targetY * stepsPerMM) ^ 2 := by
    rw [mul_pow, totalVectorDist_sq, ← hx, ← hy, mul_pow, mul_pow, sq_abs, sq_abs]
    ring
  rw [lineLength, hsq, Real.sqrt_sq hnonneg]

/-- The loop runs over the complete vector steps. -/
theorem totalVectorSteps_eq (targetSpeed : ℝ) :
    (move targetX targetY targetSpeed).totalVectorSteps = ⌊lineLength a b⌋ := by
  have hsteps : (move targetX targetY targetSpeed).totalVectorSteps =
      CFloat.toInt (totalVectorDist targetX targetY * stepsPerMM) := rfl
  rw [hsteps, totalVectorDist_eq hx hy, CMath.toInt_real (lineLength_nonneg a b)]

theorem ratios_eq (targetSpeed : ℝ) :
    (move targetX targetY targetSpeed).xRatio = a / lineLength a b ∧
      (move targetX targetY targetSpeed).yRatio = b / lineLength a b := by
  have hne : (stepsPerMM : ℝ) ≠ 0 := by
    rw [stepsPerMM_real]
    norm_num
  rw [← totalVectorDist_eq hx hy, ← hx, ← hy]
  exact ⟨(mul_div_mul_right _ _ hne).symm, (mul_div_mul_right _ _ hne).symm⟩

/-- Each axis gets its share of the complete vector steps. -/
theorem stepCount_move (targetSpeed : ℝ) :
    let stream := (calculateAbsoluteTimestampSteps targetX targetY targetSpeed).1
    (stepCount 0x01 stream : ℤ) = ⌊(⌊lineLength a b⌋ : ℝ) * (a / lineLength a b)⌋ ∧
      (stepCount 0x02 stream : ℤ) = ⌊(⌊lineLength a b⌋ : ℝ) * (b / lineLength a b)⌋ := by
  intro stream
  obtain ⟨hxr, hyr⟩ := ratios_eq hx hy targetSpeed
  obtain ⟨hale, hble⟩ := le_lineLength a b
  have hnonneg := lineLength_nonneg a b
  have hcast : ((⌊lineLength a b⌋.toNat : ℕ) : ℝ) = (⌊lineLength a b⌋ : ℝ) := by
    exact_mod_cast Int.toNat_of_nonneg (Int.floor_nonneg.2 hnonneg)
  obtain ⟨hcx, hcy⟩ := stepCount_stream (move targetX targetY targetSpeed)
    (move targetX targetY targetSpeed).totalVectorSteps.toNat
  rw [← calculateAbsoluteTimestampSteps_eq, totalVectorSteps_eq hx hy] at hcx hcy
  constructor
  · rw [hcx, hxr, carries_eq_floor (by positivity) (div_le_one_of_le₀ hale hnonneg), hcast]
  · rw [hcy, hyr, carries_eq_floor (by positivity) (div_le_one_of_le₀ hble hnonneg), hcast]

end

/-- For every line other than the empty one between two points of the step grid, at every
    speed: both axes make all their steps exactly if the line is a whole number of vector
    steps long. -/
theorem dda_step_count_iff {targetX targetY : ℝ} (targetSpeed : ℝ) {a b : ℕ}
    (hx : |targetX| * stepsPerMM = a) (hy : |targetY| * stepsPerMM = b)
    (hne : ¬(targetX = 0 ∧ targetY = 0)) :
    let stream := (calculateAbsoluteTimestampSteps targetX targetY targetSpeed).1
    (stepCount 0x01 stream = a ∧ stepCount 0x02 stream = b) ↔ IsSquare (a ^ 2 + b ^ 2) := by
  intro stream
  obtain ⟨hcx, hcy⟩ := stepCount_move hx hy targetSpeed
  have hab : 0 < a ∨ 0 < b := by
    by_contra hzero
    obtain ⟨rfl, rfl⟩ : a = 0 ∧ b = 0 := by omega
    rw [stepsPerMM_real] at hx hy
    apply hne
    constructor
    · exact abs_eq_zero.1 (by simpa using hx)
    · exact abs_eq_zero.1 (by simpa using hy)
  rw [← floor_shares_iff hab, ← hcx, ← hcy]
  norm_cast

/-- The move of `main` from the origin to (3, 1) makes 316 vector steps instead of
    `100 * √10`. -/
theorem dda_step_count_main :
    ¬(stepCount 0x01 (calculateAbsoluteTimestampSteps (3 : ℝ) 1 60).1 = 300 ∧
      stepCount 0x02 (calculateAbsoluteTimestampSteps (3 : ℝ) 1 60).1 = 100) := by
  have hx : |(3 : ℝ)| * stepsPerMM = (300 : ℕ) := by
    rw [stepsPerMM_real]
    norm_num
  have hy : |(1 : ℝ)| * stepsPerMM = (100 : ℕ) := by
    rw [stepsPerMM_real]
    norm_num
  obtain ⟨hcx, hcy⟩ := stepCount_move hx hy 60
  rintro ⟨h300, h100⟩
  rw [h300] at hcx
  rw [h100] at hcy
  obtain ⟨n, hn⟩ := (floor_shares_iff (.inl (by decide))).1 ⟨hcx.symm, hcy.symm⟩
  have hlt : 316 < n := by nlinarith
  have hgt : n < 317 := by nlinarith
  omega

/-- A line of 500 vector steps, 300 along X and 400 along Y. -/
theorem dda_step_count_exact :
    stepCount 0x01 (calculateAbsoluteTimestampSteps (3 : ℝ) 4 60).1 = 300 ∧
      stepCount 0x02 (calculateAbsoluteTimestampSteps (3 : ℝ) 4 60).1 = 400 :=
  (dda_step_count_iff (a := 300) (b := 400) 60 (by rw [stepsPerMM_real]; norm_num)
    (by rw [stepsPerMM_real]; norm_num) (by norm_num)).2 ⟨500, by norm_num⟩

end Esp32Embroidery.Shaper
