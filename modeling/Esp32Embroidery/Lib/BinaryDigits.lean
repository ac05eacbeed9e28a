import Mathlib.NumberTheory.Padics.PadicVal.Basic
import Mathlib.Data.Nat.Size

/-!
# Binary digits

The number of ones and the number of trailing zeros of a natural number.

* `popCount_succ`: counting up by one turns the trailing ones into zeros, so ones and trailing
  zeros change together.
* `popCount_le`: ones of a number with `k` digits.
* `lowestBit_eq`: the index of the lowest one is the exponent of 2.
* `two_pow_size_le`, `size_sub_lt`: the largest power of 2 in a distance, and what is left.
* `two_pow_succ_dvd_sub`: a number without its lowest one.
-/

namespace Esp32Embroidery.Lib

/-- The number of ones. -/
def popCount (n : ℕ) : ℕ := (Nat.digits 2 n).sum

/-- The index of the lowest one among the first `w` digits, or `w`. -/
def lowestBit (w n : ℕ) : ℕ := (List.range w).findIdx fun k => n.testBit k

@[simp] theorem popCount_zero : popCount 0 = 0 := by
  simp [popCount]

theorem popCount_le_self (n : ℕ) : popCount n ≤ n := Nat.digit_sum_le 2 n

/-- What Legendre's formula says for 2. -/
theorem padicValNat_two_factorial (n : ℕ) : padicValNat 2 n.factorial + popCount n = n := by
  have h := sub_one_mul_padicValNat_factorial (p := 2) n
  have hle := popCount_le_self n
  change 1 * padicValNat 2 n.factorial = n - popCount n at h
  omega

theorem popCount_succ (n : ℕ) :
    popCount (n + 1) + padicValNat 2 (n + 1) = popCount n + 1 := by
  have hn := padicValNat_two_factorial n
  have hsucc := padicValNat_two_factorial (n + 1)
  have hmul : padicValNat 2 (n + 1).factorial =
      padicValNat 2 (n + 1) + padicValNat 2 n.factorial := by
    rw [Nat.factorial_succ]
    exact padicValNat.mul (Nat.succ_ne_zero n) (Nat.factorial_ne_zero n)
  omega

theorem popCount_le {n k : ℕ} (h : n < 2 ^ k) : popCount n ≤ k := by
  have hlen : (Nat.digits 2 n).length ≤ k := (Nat.digits_length_le_iff Nat.one_lt_two n).2 h
  have hsum : (Nat.digits 2 n).sum ≤ (Nat.digits 2 n).length * 1 :=
    List.sum_le_card_nsmul _ 1 fun d hd => Nat.lt_succ_iff.1 (Nat.digits_lt_base Nat.one_lt_two hd)
  unfold popCount
  omega

theorem padicValNat_two_lt {n k : ℕ} (hn : n ≠ 0) (h : n < 2 ^ k) : padicValNat 2 n < k := by
  have hle : 2 ^ padicValNat 2 n ≤ n := Nat.le_of_dvd (Nat.pos_of_ne_zero hn) pow_padicValNat_dvd
  exact (Nat.pow_lt_pow_iff_right Nat.one_lt_two).1 (hle.trans_lt h)

theorem exists_odd_cofactor {n : ℕ} (hn : n ≠ 0) :
    ∃ m, n = 2 ^ padicValNat 2 n * m ∧ ¬2 ∣ m := by
  obtain ⟨m, hm⟩ : 2 ^ padicValNat 2 n ∣ n := pow_padicValNat_dvd
  refine ⟨m, hm, ?_⟩
  rintro ⟨j, rfl⟩
  have hdvd : 2 ^ (padicValNat 2 n + 1) ∣ n := ⟨j, by rw [pow_succ, Nat.mul_assoc]; exact hm⟩
  exact pow_succ_padicValNat_not_dvd hn hdvd

theorem lowestBit_eq {w n : ℕ} (hn : n ≠ 0) (h : n < 2 ^ w) :
    lowestBit w n = padicValNat 2 n := by
  have hval := padicValNat_two_lt hn h
  obtain ⟨m, hm, hodd⟩ := exists_odd_cofactor hn
  have hbit (k : ℕ) : n.testBit k = (decide (padicValNat 2 n ≤ k) &&
      m.testBit (k - padicValNat 2 n)) := by
    conv_lhs => rw [hm]
    exact Nat.testBit_two_pow_mul
  unfold lowestBit
  rw [List.findIdx_eq (by rwa [List.length_range])]
  constructor
  · rw [List.getElem_range, hbit, Nat.sub_self, Nat.testBit_zero]
    simp only [le_refl, decide_true, Bool.true_and, decide_eq_true_eq]
    omega
  · intro k hk
    rw [List.getElem_range, hbit, decide_eq_false (Nat.not_le.2 hk), Bool.false_and]

/-- `d` is at least the power of 2 below the bit length of `d`. -/
theorem two_pow_size_le {d : ℕ} (h : 0 < d) : 2 ^ (Nat.size d - 1) ≤ d := by
  have hsize : 0 < Nat.size d := Nat.size_pos.2 h
  exact Nat.lt_size.1 (by omega)

theorem lt_two_pow_size (d : ℕ) : d < 2 ^ Nat.size d := Nat.lt_size_self d

/-- What is left of `d` without its highest one is shorter. -/
theorem size_sub_lt {d : ℕ} (h : 0 < d) : Nat.size (d - 2 ^ (Nat.size d - 1)) < Nat.size d := by
  have hsize : 0 < Nat.size d := Nat.size_pos.2 h
  have hlt := lt_two_pow_size d
  have hpow : 2 ^ Nat.size d = 2 * 2 ^ (Nat.size d - 1) := by
    rw [← Nat.pow_succ']
    exact congrArg (2 ^ ·) (by omega)
  have hle : Nat.size (d - 2 ^ (Nat.size d - 1)) ≤ Nat.size d - 1 := Nat.size_le.2 (by omega)
  omega

/-- Without its lowest one, a number has more zeros at the end. -/
theorem two_pow_succ_dvd_sub {n : ℕ} (hn : n ≠ 0) :
    2 ^ (padicValNat 2 n + 1) ∣ n - 2 ^ padicValNat 2 n := by
  obtain ⟨m, hm, hodd⟩ := exists_odd_cofactor hn
  obtain ⟨j, hj⟩ : 2 ∣ m - 1 := by omega
  refine ⟨j, ?_⟩
  have hsub : n - 2 ^ padicValNat 2 n = 2 ^ padicValNat 2 n * (m - 1) := by
    rw [Nat.mul_sub, mul_one, ← hm]
  rw [hsub, hj, pow_succ, Nat.mul_assoc]

end Esp32Embroidery.Lib
