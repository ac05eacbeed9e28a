import Esp32Embroidery.Lib.CArith
import Mathlib.Analysis.Real.Sqrt

/-!
# Real arithmetic

* `CMath`: a floating-point type with the absolute value and the square root.
* The instance on `ℝ` is exact arithmetic with exact roots.
-/

namespace Esp32Embroidery.Lib

/-- The operations of `CFloat` with the absolute value and the square root. -/
class CMath (F : Type*) extends CFloat F where
  abs : F → F
  sqrt : F → F

open Classical in
/-- Exact arithmetic, with the conversion to an integer truncating. -/
noncomputable instance : CMath ℝ where
  ofRat q := (q : ℝ)
  lt a b := decide (a < b)
  le a b := decide (a ≤ b)
  eq a b := decide (a = b)
  toInt a := if a < 0 then ⌈a⌉ else ⌊a⌋
  zero_le_zero := decide_eq_true le_rfl
  abs a := |a|
  sqrt a := √a

namespace CMath

open CFloat

@[simp] theorem ofRat_real (q : ℚ) : (ofRat q : ℝ) = q := rfl

@[simp] theorem lt_real (a b : ℝ) : lt a b = true ↔ a < b := by
  show decide (a < b) = true ↔ a < b
  exact decide_eq_true_iff

@[simp] theorem le_real (a b : ℝ) : le a b = true ↔ a ≤ b := by
  show decide (a ≤ b) = true ↔ a ≤ b
  exact decide_eq_true_iff

@[simp] theorem abs_real (a : ℝ) : abs a = |a| := rfl

@[simp] theorem sqrt_real (a : ℝ) : sqrt a = √a := rfl

theorem toInt_real {a : ℝ} (h : 0 ≤ a) : toInt a = ⌊a⌋ := if_neg (not_lt.2 h)

end CMath

end Esp32Embroidery.Lib
