import Mathlib.Algebra.Order.Floor.Ring
import Mathlib.Tactic.Linarith
import Mathlib.Tactic.LinearCombination

/-!
# Phase accumulators

A fixed ratio is added to a phase again and again. Whenever the phase reaches one it drops
by one, and the accumulator carries.

Main results, for a ratio in `[0, 1]`:

* `phase_mem`: the phase stays in `[0, 1)`.
* `carries_eq_floor`: after `n` additions there were `⌊n * ratio⌋` carries.
* `carry_first_iff`, `carry_second`: the first addition carries if the ratio is one, the
  second one if the ratio is at least one half and the first one does not carry.
-/

namespace Esp32Embroidery.Lib

section

variable {K : Type*} [CommRing K] [LinearOrder K]

/-- The addition of `ratio` to `phase` carries. -/
def carry (ratio phase : K) : Bool := decide (1 ≤ phase + ratio)

/-- The phase after the addition of `ratio` to `phase`. -/
def nextPhase (ratio phase : K) : K :=
  if carry ratio phase then phase + ratio - 1 else phase + ratio

/-- The phase after `n` additions. -/
def phase (ratio : K) : ℕ → K
  | 0 => 0
  | n + 1 => nextPhase ratio (phase ratio n)

/-- The carries of the first `n` additions. -/
def carries (ratio : K) : ℕ → ℕ
  | 0 => 0
  | n + 1 => carries ratio n + (carry ratio (phase ratio n)).toNat

variable {ratio : K}

theorem carry_first_iff : carry ratio (phase ratio 0) = true ↔ 1 ≤ ratio := by
  simp [carry, phase]

variable [IsStrictOrderedRing K]

theorem carry_second (h1 : ratio < 1) (h2 : 1 ≤ 2 * ratio) :
    carry ratio (phase ratio 1) = true := by
  have hphase : phase ratio 1 = ratio := by
    simp [phase, nextPhase, carry, h1]
  rw [hphase]
  exact decide_eq_true (by linarith)

theorem nextPhase_mem (h0 : 0 ≤ ratio) (h1 : ratio ≤ 1) {p : K} (hp : 0 ≤ p ∧ p < 1) :
    0 ≤ nextPhase ratio p ∧ nextPhase ratio p < 1 := by
  obtain ⟨hp0, hp1⟩ := hp
  unfold nextPhase carry
  split_ifs with hcarry
  · have hcarry := of_decide_eq_true hcarry
    constructor <;> linarith
  · have hcarry := not_le.1 (of_decide_eq_false (Bool.eq_false_of_not_eq_true hcarry))
    constructor <;> linarith

theorem phase_mem (h0 : 0 ≤ ratio) (h1 : ratio ≤ 1) (n : ℕ) :
    0 ≤ phase ratio n ∧ phase ratio n < 1 := by
  induction n with
  | zero => exact ⟨le_rfl, zero_lt_one⟩
  | succ n ih => exact nextPhase_mem h0 h1 ih

/-- A ratio of one carries every time. -/
theorem carry_full (n : ℕ) : carry (1 : K) (phase 1 n) = true := by
  have hmem : 0 ≤ phase (1 : K) n ∧ phase (1 : K) n < 1 := phase_mem zero_le_one le_rfl n
  exact decide_eq_true (le_add_of_nonneg_left hmem.1)

/-- Nothing of what was added is lost. -/
theorem phase_add_carries (ratio : K) (n : ℕ) : phase ratio n + carries ratio n = n * ratio := by
  induction n with
  | zero => simp [phase, carries]
  | succ n ih =>
    have hnext : nextPhase ratio (phase ratio n) + ((carry ratio (phase ratio n)).toNat : K) =
        phase ratio n + ratio := by
      unfold nextPhase
      split_ifs with hcarry
      · simp [hcarry]
      · simp [hcarry]
    simp only [phase, carries]
    push_cast
    linear_combination hnext + ih

theorem carries_eq_floor [FloorRing K] (h0 : 0 ≤ ratio) (h1 : ratio ≤ 1) (n : ℕ) :
    (carries ratio n : ℤ) = ⌊n * ratio⌋ := by
  obtain ⟨hlo, hhi⟩ := phase_mem h0 h1 n
  have hsum := phase_add_carries ratio n
  symm
  rw [Int.floor_eq_iff]
  push_cast
  constructor <;> linarith

end

end Esp32Embroidery.Lib
