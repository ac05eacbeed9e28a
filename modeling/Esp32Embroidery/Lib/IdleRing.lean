import Esp32Embroidery.Lib.CircularBuffer
import Mathlib.Logic.Function.Iterate

/-!
# Rings that stop at one cell

`n` cells linked in a ring by `next`, cut open at the cell `idle`, which is its own
successor. Following `next` from any cell ends there.

* `IdleRing.next_offset`: a step of the walk from the cell behind `idle`, once round.
* `IdleRing.spliced`: closing the ring at `idle` and cutting it at another cell.
* `IdleRing.iterate_splice`: the walk that leaves the old idle cell after a splice
  passes the cells up to the new one and stays there.
-/

namespace Esp32Embroidery.Lib

/-- The successor of `idle` is `idle`, that of any other cell the next cell. -/
structure IdleRing (next : ℕ → ℕ) (n idle : ℕ) : Prop where
  lt : idle < n
  loop : next idle = idle
  succ : ∀ i < n, i ≠ idle → next i = (i + 1) % n

/-- Close the ring at `idle` and cut it at `cell`. -/
def splice (next : ℕ → ℕ) (n idle cell : ℕ) : ℕ → ℕ :=
  Function.update (Function.update next idle ((idle + 1) % n)) cell cell

namespace IdleRing

variable {next : ℕ → ℕ} {n idle : ℕ}

/-- A cell at a distance from `idle` that does not go round is not `idle`. -/
theorem offset_ne (h : IdleRing next n idle) {k : ℕ} (hk : k + 1 < n) :
    (idle + 1 + k) % n ≠ idle := by
  intro heq
  have hstart : (idle + (1 + k)) % n = (idle + 0) % n := by
    rw [← Nat.add_assoc, heq, Nat.add_zero, Nat.mod_eq_of_lt h.lt]
  have := offset_inj (by omega) (by omega) hstart
  omega

/-- The walk from the cell behind `idle` goes from offset to offset, up to `idle`. -/
theorem next_offset (h : IdleRing next n idle) {k : ℕ} (hk : k + 1 < n) :
    next ((idle + 1 + k) % n) = (idle + 1 + (k + 1)) % n := by
  rw [h.succ _ (Nat.mod_lt _ (by have := h.lt; omega)) (h.offset_ne hk), Nat.mod_add_mod,
    Nat.add_assoc]

/-- The ring cut at another cell is a ring that stops there. -/
theorem spliced (h : IdleRing next n idle) {cell : ℕ} (hcell : cell < n) :
    IdleRing (splice next n idle cell) n cell where
  lt := hcell
  loop := by rw [splice, Function.update_self]
  succ := by
    intro i hi hne
    rw [splice, Function.update_of_ne hne]
    by_cases hidle : i = idle
    · rw [hidle, Function.update_self]
    · rw [Function.update_of_ne hidle, h.succ i hi hidle]

/-- The walk from the old idle cell passes `k` cells and stays in the last of them. -/
theorem iterate_splice (h : IdleRing next n idle) {k : ℕ} (hk : k + 1 < n) (j : ℕ) :
    (splice next n idle ((idle + 1 + k) % n))^[j + 1] idle = (idle + 1 + min j k) % n := by
  have hcell : (idle + 1 + k) % n < n := Nat.mod_lt _ (by omega)
  have hring := h.spliced hcell
  induction j with
  | zero =>
    rw [Function.iterate_one, splice, Function.update_of_ne (h.offset_ne hk).symm,
      Function.update_self, Nat.zero_min, Nat.add_zero]
  | succ j ih =>
    rw [Function.iterate_succ_apply', ih]
    rcases Nat.lt_or_ge j k with hlt | hge
    · -- not there yet
      have hne : (idle + 1 + j) % n ≠ (idle + 1 + k) % n := by
        intro heq
        have := offset_inj (by omega) (by omega) heq
        omega
      rw [Nat.min_eq_left hlt.le, hring.succ _ (Nat.mod_lt _ (by omega)) hne,
        Nat.mod_add_mod, Nat.min_eq_left hlt, Nat.add_assoc]
    · rw [Nat.min_eq_right hge, Nat.min_eq_right (by omega), hring.loop]

end IdleRing

end Esp32Embroidery.Lib
