import Mathlib.Algebra.Order.Field.Basic
import Mathlib.Algebra.Order.AbsoluteValue.Basic
import Mathlib.Tactic.FieldSimp
import Mathlib.Tactic.Linarith
import Mathlib.Tactic.Positivity
import Mathlib.Tactic.Ring

/-!
# Second-order observers

A first-order low-pass filter moves its value towards its input by a fixed part of the
distance, so it never leaves a ball that holds both.

An observer of a measured value with the gains `2ω` and `ω²` has a double eigenvalue at
`1 - h * ω`. In the coordinates `ω * z1 - z2` and `z1` it is two such filters in cascade:
the first one does not see the second, and the second one filters the first.

* `abs_lowPass_le`: the filter keeps a bound.
* `lag_step`, `z1_step`: the observer as two filters.
* `Within.step`: bounds of the measured value and of the feedback bound the observer.
-/

namespace Esp32Embroidery.Lib

variable {K : Type*} [Field K]

/-! ## Low-pass filters -/

/-- The value `x` of a filter after the input `d`. -/
def lowPass (a x d : K) : K := (1 - a) * x + a * d

theorem abs_lowPass_le [LinearOrder K] [IsStrictOrderedRing K] {a x d B : K} (h0 : 0 ≤ a)
    (h1 : a ≤ 1) (hx : |x| ≤ B) (hd : |d| ≤ B) : |lowPass a x d| ≤ B := by
  obtain ⟨hxlo, hxhi⟩ := abs_le.1 hx
  obtain ⟨hdlo, hdhi⟩ := abs_le.1 hd
  unfold lowPass
  rw [abs_le]
  constructor <;> nlinarith

/-! ## Observers -/

/-- The estimates of a value and of its drift. -/
structure Observer (K : Type*) where
  z1 : K
  z2 : K

namespace Observer

/-- One step of length `h` with the gains `2ω` and `ω²`, the feedback `v` and the measured
    value `y`. -/
def step (h ω v y : K) (o : Observer K) : Observer K where
  z1 := o.z1 + h * (o.z2 + v - 2 * ω * (o.z1 - y))
  z2 := o.z2 + h * (-(ω * ω) * (o.z1 - y))

/-- The first coordinate of the cascade. -/
def lag (ω : K) (o : Observer K) : K := ω * o.z1 - o.z2

variable {h ω v y : K} {o : Observer K}

theorem lag_step : (o.step h ω v y).lag ω = lowPass (h * ω) (o.lag ω) (v + ω * y) := by
  unfold lag step lowPass
  ring

theorem z1_step (hω : ω ≠ 0) :
    (o.step h ω v y).z1 = lowPass (h * ω) o.z1 ((v + 2 * ω * y - o.lag ω) / ω) := by
  unfold lag step lowPass
  field_simp
  ring

variable [LinearOrder K] [IsStrictOrderedRing K]

/-- Bounds of the two filters. -/
structure Within (ω L Z : K) (o : Observer K) : Prop where
  lag_le : |o.lag ω| ≤ L
  z1_le : |o.z1| ≤ Z

theorem Within.z2_le {L Z : K} (hω : 0 ≤ ω) (ho : o.Within ω L Z) : |o.z2| ≤ ω * Z + L := by
  have hz2 : o.z2 = ω * o.z1 - o.lag ω := by
    unfold lag
    ring
  rw [hz2]
  calc |ω * o.z1 - o.lag ω| ≤ |ω * o.z1| + |o.lag ω| := abs_sub _ _
    _ = ω * |o.z1| + |o.lag ω| := by rw [abs_mul, abs_of_nonneg hω]
    _ ≤ ω * Z + L := add_le_add (mul_le_mul_of_nonneg_left ho.z1_le hω) ho.lag_le

/-- A step keeps bounds that are large enough for the feedback and the measured value. -/
theorem Within.step {V Y L Z : K} (hω : 0 < ω) (h0 : 0 ≤ h) (h1 : h * ω ≤ 1) (hv : |v| ≤ V)
    (hy : |y| ≤ Y) (hL : V + ω * Y ≤ L) (hZ : V + 2 * ω * Y + L ≤ ω * Z)
    (ho : o.Within ω L Z) : (o.step h ω v y).Within ω L Z := by
  have hmul : |ω * y| ≤ ω * Y := by
    rw [abs_mul, abs_of_pos hω]
    exact mul_le_mul_of_nonneg_left hy hω.le
  constructor
  · rw [lag_step]
    refine abs_lowPass_le (by positivity) h1 ho.lag_le ?_
    calc |v + ω * y| ≤ |v| + |ω * y| := abs_add_le _ _
      _ ≤ V + ω * Y := add_le_add hv hmul
      _ ≤ L := hL
  · rw [z1_step hω.ne']
    refine abs_lowPass_le (by positivity) h1 ho.z1_le ?_
    rw [abs_div, abs_of_pos hω, div_le_iff₀ hω]
    calc |v + 2 * ω * y - o.lag ω| ≤ |v + 2 * ω * y| + |o.lag ω| := abs_sub _ _
      _ ≤ V + 2 * ω * Y + L := by
        have h2 : |v + 2 * ω * y| ≤ |v| + 2 * |ω * y| := by
          have htwo := abs_add_le v (2 * (ω * y))
          rw [abs_mul, abs_two] at htwo
          rw [mul_assoc]
          exact htwo
        linarith [ho.lag_le]
      _ ≤ Z * ω := by linarith

end Observer

end Esp32Embroidery.Lib
