import Mathlib.Data.List.Range
import Mathlib.Tactic.Common

/-!
# Regions of memory

`region data start len` are `len` cells of a memory from `start` on, and `memcpy data start xs`
is the memory with the list `xs` there.

* `region_add`: a region in two parts.
* `region_memcpy`, `region_memcpy_below`: what was copied is there, and what is below stays.
* `region_eq_iff`: a region is compared cell by cell.
-/

namespace Esp32Embroidery.Lib

variable {α : Type*}

/-- The cells `start`, …, `start + len - 1`. -/
def region (data : ℕ → α) (start len : ℕ) : List α := (List.range len).map fun i => data (start + i)

/-- `memcpy(data + start, xs, n)` for a list of `n` cells. -/
def memcpy (data : ℕ → α) (start : ℕ) (xs : List α) : ℕ → α :=
  fun i => if start ≤ i then xs[i - start]?.getD (data i) else data i

@[simp] theorem length_region (data : ℕ → α) (start len : ℕ) :
    (region data start len).length = len := by
  simp [region]

@[simp] theorem region_zero (data : ℕ → α) (start : ℕ) : region data start 0 = [] := rfl

theorem region_add (data : ℕ → α) (start m n : ℕ) :
    region data start (m + n) = region data start m ++ region data (start + m) n := by
  simp [region, List.range_add, Function.comp_def, Nat.add_assoc]

theorem region_eq_iff {data data' : ℕ → α} {start start' len : ℕ} :
    region data start len = region data' start' len ↔
      ∀ i < len, data (start + i) = data' (start' + i) := by
  unfold region
  rw [List.map_inj_left]
  simp only [List.mem_range]

theorem region_memcpy (data : ℕ → α) (start : ℕ) (xs : List α) :
    region (memcpy data start xs) start xs.length = xs := by
  refine List.ext_getElem (length_region _ _ _) fun i _ hi => ?_
  simp only [region, List.getElem_map, List.getElem_range, memcpy]
  rw [if_pos (Nat.le_add_right start i), Nat.add_sub_cancel_left, List.getElem?_eq_getElem hi,
    Option.getD_some]

theorem region_memcpy_below (data : ℕ → α) {start len start' : ℕ} (xs : List α)
    (h : start + len ≤ start') :
    region (memcpy data start' xs) start len = region data start len := by
  refine region_eq_iff.2 fun i hi => ?_
  unfold memcpy
  rw [if_neg (by omega)]

end Esp32Embroidery.Lib
