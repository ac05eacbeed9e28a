import Esp32Embroidery.Lib.Region

/-!
# Flash memory

Erasing sets all bits of a range of words, and programming a word only clears bits of it.

* `region_program_iff`: what is read back is what was programmed iff no bit had to be set.
* `region_program_erase_iff`: in a range of which the first part was erased, no bit behind it.
-/

namespace Esp32Embroidery.Lib

variable {w : ℕ}

def erase (flash : ℕ → BitVec w) (start len : ℕ) : ℕ → BitVec w :=
  fun i => if start ≤ i ∧ i < start + len then BitVec.allOnes w else flash i

/-- The words `src 0`, …, `src (len - 1)` are programmed from `start` on. -/
def program (flash : ℕ → BitVec w) (start : ℕ) (src : ℕ → BitVec w) (len : ℕ) : ℕ → BitVec w :=
  fun i => if start ≤ i ∧ i < start + len then flash i &&& src (i - start) else flash i

theorem erase_inside (flash : ℕ → BitVec w) {start len i : ℕ} (hi : i < len) :
    erase flash start len (start + i) = BitVec.allOnes w :=
  if_pos ⟨Nat.le_add_right start i, Nat.add_lt_add_left hi start⟩

theorem erase_above (flash : ℕ → BitVec w) {start len i : ℕ} (hi : len ≤ i) :
    erase flash start len (start + i) = flash (start + i) :=
  if_neg fun h => by omega

theorem program_inside (flash : ℕ → BitVec w) {start len i : ℕ} (src : ℕ → BitVec w)
    (hi : i < len) : program flash start src len (start + i) = flash (start + i) &&& src i := by
  unfold program
  rw [if_pos ⟨Nat.le_add_right start i, Nat.add_lt_add_left hi start⟩, Nat.add_sub_cancel_left]

theorem region_program_iff (flash : ℕ → BitVec w) (start : ℕ) (src : ℕ → BitVec w) (len : ℕ) :
    region (program flash start src len) start len = region src 0 len ↔
      ∀ i < len, flash (start + i) &&& src i = src i := by
  rw [region_eq_iff]
  refine forall₂_congr fun i hi => ?_
  rw [program_inside flash src hi, Nat.zero_add]

/-- After the first `erased` words were erased, the others must have had the bits. -/
theorem region_program_erase_iff (flash : ℕ → BitVec w) (start : ℕ) (src : ℕ → BitVec w)
    (erased len : ℕ) :
    region (program (erase flash start erased) start src len) start len = region src 0 len ↔
      ∀ i < len, erased ≤ i → flash (start + i) &&& src i = src i := by
  rw [region_program_iff]
  refine forall₂_congr fun i _ => ?_
  by_cases hi : i < erased
  · rw [erase_inside flash hi, BitVec.allOnes_and]
    exact iff_of_true rfl fun hle => absurd hi (Nat.not_lt.2 hle)
  · rw [erase_above flash (Nat.not_lt.1 hi)]
    exact ⟨fun h _ => h, fun h => h (Nat.not_lt.1 hi)⟩

end Esp32Embroidery.Lib
