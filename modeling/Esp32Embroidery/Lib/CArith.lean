import Mathlib.Data.Rat.Floor
import Mathlib.Tactic.Linarith
import Mathlib.Tactic.NormNum

/-!
# C arithmetic

Results that wrap and an interface to `float`.

* `int32`, `int16`: the two's complement value of an exact result; `Fits32` and `Fits16`
  say that the exact result needs no wrapping, so that `int32_of_fits` and
  `int16_of_fits` drop it.
* `wrapped_div_eq_iff`: a result that wraps has another quotient.
* `CFloat`: the operations of C on a floating-point type, with `0 <= 0` as the
  only law. A result that holds for every `CFloat` holds for every rounding and
  for NaN.
* The instance on `ℚ` is exact arithmetic; `toInt_lt`, `le_toInt` and
  `toInt_nonneg` describe its conversion to integers.
-/

namespace Esp32Embroidery.Lib

/-! ## Integers -/

/-- The value of an `int32_t` that stores the exact result `x`. -/
def int32 (x : ℤ) : ℤ := x.bmod (2 ^ 32)

/-- The exact result `x` is an `int32_t` value. -/
def Fits32 (x : ℤ) : Prop := -2 ^ 31 ≤ x ∧ x < 2 ^ 31

instance (x : ℤ) : Decidable (Fits32 x) := inferInstanceAs (Decidable (_ ∧ _))

theorem int32_of_fits {x : ℤ} (h : Fits32 x) : int32 x = x := by
  obtain ⟨hlo, hhi⟩ := h
  apply Int.bmod_eq_of_le_mul_two
  · norm_num; omega
  · norm_num; omega

/-- The value of an `int16_t` that stores the exact result `x`. -/
def int16 (x : ℤ) : ℤ := x.bmod (2 ^ 16)

/-- The exact result `x` is an `int16_t` value. -/
def Fits16 (x : ℤ) : Prop := -2 ^ 15 ≤ x ∧ x < 2 ^ 15

instance (x : ℤ) : Decidable (Fits16 x) := inferInstanceAs (Decidable (_ ∧ _))

theorem int16_of_fits {x : ℤ} (h : Fits16 x) : int16 x = x := by
  obtain ⟨hlo, hhi⟩ := h
  apply Int.bmod_eq_of_le_mul_two
  · norm_num; omega
  · norm_num; omega

/-- Conversion to `uint32_t`. -/
def toUint32 (x : ℤ) : ℕ := (x % 2 ^ 32).toNat

/-! ## Quotients of wrapped results -/

section

variable {a d f m t x : ℕ}

/-- Wrapping takes at least the modulus away, and with it at least 1 from the quotient. -/
theorem wrapped_div_lt (hd : 0 < d) (hdm : d ≤ m) (h : m ≤ x) : x % m / d < x / d := by
  have hwrap : x % m ≤ x - m := by
    rw [Nat.mod_eq_sub_mod h]
    exact Nat.mod_le _ _
  calc x % m / d < x % m / d + 1 := Nat.lt_succ_self _
    _ = (x % m + d) / d := (Nat.add_div_right _ hd).symm
    _ ≤ x / d := Nat.div_le_div_right (by omega)

theorem wrapped_div_eq_iff (hd : 0 < d) (hdm : d ≤ m) : x % m / d = x / d ↔ x < m := by
  constructor
  · intro h
    by_contra hge
    exact (wrapped_div_lt hd hdm (not_lt.1 hge)).ne h
  · intro h
    rw [Nat.mod_eq_of_lt h]

/-- A division before the product takes nothing away from a multiple of its divisor. -/
theorem div_mul_div_of_dvd (ha : 0 < a) (h : a ∣ f) : f / a * t / d = f * t / (a * d) := by
  obtain ⟨k, rfl⟩ := h
  rw [Nat.mul_div_cancel_left k ha, Nat.mul_assoc, Nat.mul_div_mul_left _ _ ha]

end

/-! ## Floating point -/

/-- The operations of C on a floating-point type: literals and conversions to it
    (`ofRat`, rounded), arithmetic, comparisons and the conversion to an integer. -/
class CFloat (F : Type*) extends Add F, Sub F, Mul F, Div F, Neg F where
  ofRat : ℚ → F
  lt : F → F → Bool
  le : F → F → Bool
  eq : F → F → Bool
  toInt : F → ℤ
  zero_le_zero : le (ofRat 0) (ofRat 0) = true

/-- Exact arithmetic, with the conversion to an integer truncating. -/
instance : CFloat ℚ where
  ofRat := id
  lt a b := decide (a < b)
  le a b := decide (a ≤ b)
  eq a b := decide (a = b)
  toInt a := if a < 0 then ⌈a⌉ else ⌊a⌋
  zero_le_zero := rfl

namespace CFloat

@[simp] theorem ofRat_rat (a : ℚ) : (ofRat a : ℚ) = a := rfl

@[simp] theorem lt_rat (a b : ℚ) : lt a b = decide (a < b) := rfl

@[simp] theorem le_rat (a b : ℚ) : le a b = decide (a ≤ b) := rfl

@[simp] theorem eq_rat (a b : ℚ) : eq a b = decide (a = b) := rfl

theorem toInt_of_nonneg {a : ℚ} (h : 0 ≤ a) : toInt a = ⌊a⌋ := if_neg (not_lt.2 h)

theorem toInt_lt {a : ℚ} (h : 0 ≤ a) {n : ℤ} : toInt a < n ↔ a < n := by
  rw [toInt_of_nonneg h, Int.floor_lt]

theorem le_toInt {a : ℚ} (h : 0 ≤ a) {n : ℤ} : n ≤ toInt a ↔ (n : ℚ) ≤ a := by
  rw [toInt_of_nonneg h, Int.le_floor]

theorem toInt_nonneg {a : ℚ} (h : 0 ≤ a) : 0 ≤ toInt a := by
  rw [le_toInt h]
  exact_mod_cast h

end CFloat

end Esp32Embroidery.Lib
