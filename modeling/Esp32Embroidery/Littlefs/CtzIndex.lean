import Esp32Embroidery.Lib.BinaryDigits
import Mathlib.Algebra.BigOperators.Intervals
import Mathlib.Tactic.Ring

/-!
# Positions in a file (`littlefs/lfs.c`, `lfs_ctz_index`)

The blocks of a file form a skip-list: block `i > 0` starts with a pointer for each power of 2
that divides `i`, and the rest of a block is data. `lfs_ctz_index` turns a position in the file
into a block and an offset in it, in constant time.

* `dataBefore_succ`: the data in front of a block, in closed form.
* `lfsCtzIndex_spec`: what `lfs_ctz_index` finds is a place behind the pointers of a block.
* `lfsCtzIndex_eq_iff`: it is the place of the position, and the only one.
-/

namespace Esp32Embroidery.Littlefs

open Esp32Embroidery.Lib

/-! ## Model -/

/-- `lfs_npw2` (lfs_util.h, line 128) for `1 < a`: `32 - __builtin_clz(a - 1)`. -/
def lfsNpw2 (a : ℕ) : ℕ := Nat.size (a - 1)

/-- `lfs_ctz` (line 145): `__builtin_ctz`. -/
def lfsCtz (a : ℕ) : ℕ := lowestBit 32 a

/-- `lfs_popc` (line 154): `__builtin_popcount`. -/
def lfsPopc (a : ℕ) : ℕ := popCount a

/-- `lfs_ctz_index` (lines 2643–2654): the block, and the offset left in `*off`. -/
def lfsCtzIndex (blockSize off : ℕ) : ℕ × ℕ :=
  let size := off
  let b := blockSize - 2 * 4
  let i := size / b
  if i = 0 then (0, off)
  else
    let i := (size - 4 * (lfsPopc (i - 1) + 2)) / b
    (i, size - b * i - 4 * lfsPopc i)

/-! ## The layout of a file -/

/-- The bytes of the pointers in front of the data of block `i` (lines 2750–2778). -/
def header (i : ℕ) : ℕ := if i = 0 then 0 else 4 * (lfsCtz i + 1)

/-- The data in the blocks in front of block `i`. -/
def dataBefore (blockSize i : ℕ) : ℕ := ∑ j ∈ Finset.range i, (blockSize - header j)

section

variable {blockSize i j off : ℕ}

theorem lfsCtz_eq (hi : i ≠ 0) (h : i < 2 ^ 32) : lfsCtz i = padicValNat 2 i := lowestBit_eq hi h

theorem lfsPopc_succ (h : i + 1 < 2 ^ 32) : lfsPopc (i + 1) + lfsCtz (i + 1) = lfsPopc i + 1 := by
  rw [lfsCtz_eq (Nat.succ_ne_zero i) h]
  exact popCount_succ i

theorem lfsPopc_le (h : i < 2 ^ 26) : lfsPopc i ≤ 26 := popCount_le h

theorem header_succ : header (i + 1) = 4 * (lfsCtz (i + 1) + 1) := if_neg (Nat.succ_ne_zero i)

/-- 26 pointers are enough for 2^26 blocks. -/
theorem header_le (h : i < 2 ^ 26) : header i ≤ 4 * 26 := by
  cases i with
  | zero => exact Nat.zero_le _
  | succ i =>
    have hctz := padicValNat_two_lt (Nat.succ_ne_zero i) h
    rw [header_succ, lfsCtz_eq (Nat.succ_ne_zero i) (by omega)]
    omega

theorem dataBefore_succ (hB : 128 ≤ blockSize) (hi : i < 2 ^ 26) :
    dataBefore blockSize (i + 1) = (blockSize - 8) * (i + 1) + 8 + 4 * lfsPopc i := by
  induction i with
  | zero =>
    simp [dataBefore, header, lfsPopc]
    omega
  | succ i ih =>
    have hpopc := lfsPopc_succ (i := i) (by omega)
    have hle := header_le hi
    have hmul : (blockSize - 8) * (i + 1 + 1) = (blockSize - 8) * (i + 1) + (blockSize - 8) := by
      ring
    unfold dataBefore at *
    rw [Finset.sum_range_succ, ih (by omega), hmul]
    rw [header_succ] at hle ⊢
    omega

theorem dataBefore_mono (h : i ≤ j) : dataBefore blockSize i ≤ dataBefore blockSize j :=
  Finset.sum_le_sum_of_subset (Finset.range_subset_range.2 h)

/-- The place `off` in block `i` holds the position `pos` of the file. -/
structure PlaceOf (blockSize pos i off : ℕ) : Prop where
  header_le : header i ≤ off
  lt_blockSize : off < blockSize
  pos_eq : pos = dataBefore blockSize i + (off - header i)

/-- A place behind the data of another block is a later position. -/
theorem PlaceOf.lt_of_lt {pos pos' off' : ℕ} (h : PlaceOf blockSize pos i off)
    (h' : PlaceOf blockSize pos' j off') (hij : i < j) : pos < pos' := by
  have hmono : dataBefore blockSize (i + 1) ≤ dataBefore blockSize j := dataBefore_mono hij
  rw [dataBefore, Finset.sum_range_succ] at hmono
  have hpos := h.pos_eq
  have hpos' := h'.pos_eq
  have hle := h.header_le
  have hlt := h.lt_blockSize
  unfold dataBefore at *
  omega

theorem PlaceOf.unique {pos off' : ℕ} (h : PlaceOf blockSize pos i off)
    (h' : PlaceOf blockSize pos j off') : i = j ∧ off = off' := by
  obtain hlt | rfl | hlt := Nat.lt_trichotomy i j
  · exact absurd (h.lt_of_lt h' hlt) (Nat.lt_irrefl pos)
  · have hpos := h.pos_eq
    have hpos' := h'.pos_eq
    have hle := h.header_le
    have hle' := h'.header_le
    omega
  · exact absurd (h'.lt_of_lt h hlt) (Nat.lt_irrefl pos)

end

/-! ## The result -/

section

variable {blockSize pos : ℕ}

/-- The first estimate is the block, or the one behind it. -/
theorem estimate_cases (hB : 128 ≤ blockSize) (hpos : pos < 2 ^ 32) {n : ℕ}
    (hn : pos / (blockSize - 8) = n + 1) :
    n + 1 < 2 ^ 26 ∧ 4 * (lfsPopc n + 2) ≤ pos ∧
      ((pos - 4 * (lfsPopc n + 2)) / (blockSize - 8) = n ∨
        (pos - 4 * (lfsPopc n + 2)) / (blockSize - 8) = n + 1) := by
  have hb : 0 < blockSize - 8 := by omega
  have hlo : (n + 1) * (blockSize - 8) ≤ pos := (Nat.le_div_iff_mul_le hb).1 hn.ge
  have hhi : pos < (n + 2) * (blockSize - 8) := (Nat.div_lt_iff_lt_mul hb).1 (by omega)
  have hn26 : n + 1 < 2 ^ 26 := by
    have h120 : (n + 1) * 120 ≤ (n + 1) * (blockSize - 8) := Nat.mul_le_mul_left _ (by omega)
    omega
  have hpopc := lfsPopc_le (i := n) (by omega)
  have hmul : (n + 1) * (blockSize - 8) = n * (blockSize - 8) + (blockSize - 8) := by ring
  have hlow : n ≤ (pos - 4 * (lfsPopc n + 2)) / (blockSize - 8) :=
    (Nat.le_div_iff_mul_le hb).2 (by omega)
  have hhigh : (pos - 4 * (lfsPopc n + 2)) / (blockSize - 8) < n + 2 :=
    (Nat.div_lt_iff_lt_mul hb).2 (by omega)
  exact ⟨hn26, by omega, by omega⟩

variable (pos) in
theorem lfsCtzIndex_spec (hB : 128 ≤ blockSize) (hpos : pos < 2 ^ 32) :
    PlaceOf blockSize pos (lfsCtzIndex blockSize pos).1 (lfsCtzIndex blockSize pos).2 := by
  have hb : 0 < blockSize - 8 := by omega
  unfold lfsCtzIndex
  simp only [Nat.reduceMul]
  cases hn : pos / (blockSize - 8) with
  | zero =>
    have hlt : pos < blockSize - 8 := (Nat.div_eq_zero_iff_lt hb).1 hn
    rw [if_pos rfl]
    exact ⟨Nat.zero_le _, by omega, by simp [dataBefore, header]⟩
  | succ n =>
    have hlo : (n + 1) * (blockSize - 8) ≤ pos := (Nat.le_div_iff_mul_le hb).1 hn.ge
    have hhi : pos < (n + 2) * (blockSize - 8) := (Nat.div_lt_iff_lt_mul hb).1 (by omega)
    obtain ⟨hn26, hunder, hi⟩ := estimate_cases hB hpos hn
    have hpopc := lfsPopc_le (i := n) (by omega)
    have hpopc' := lfsPopc_le hn26
    have hsucc := lfsPopc_succ (i := n) (by omega)
    rw [if_neg (Nat.succ_ne_zero n), Nat.add_one_sub_one]
    have hrest := Nat.div_add_mod (pos - 4 * (lfsPopc n + 2)) (blockSize - 8)
    have hmod := Nat.mod_lt (pos - 4 * (lfsPopc n + 2)) hb
    have hmul : (n + 1) * (blockSize - 8) = (blockSize - 8) * n + (blockSize - 8) := by ring
    have hmul' : (n + 2) * (blockSize - 8) = (blockSize - 8) * (n + 1) + (blockSize - 8) := by ring
    have hmul'' : (blockSize - 8) * (n + 1) = (blockSize - 8) * n + (blockSize - 8) := by ring
    rcases hi with hi | hi
    · -- the estimate was one too high
      rw [hi] at hrest ⊢
      cases n with
      | zero =>
        have hpopc0 : lfsPopc 0 = 0 := popCount_zero
        refine ⟨Nat.zero_le _, by omega, ?_⟩
        simp only [dataBefore, header, Finset.range_zero, Finset.sum_empty, if_true]
        omega
      | succ n =>
        have hpopcn := lfsPopc_le (i := n) (by omega)
        have hsuccn := lfsPopc_succ (i := n) (by omega)
        have hbefore := dataBefore_succ hB (i := n) (by omega)
        refine ⟨?_, by omega, ?_⟩
        · rw [header_succ]
          omega
        · rw [hbefore, header_succ]
          omega
    · rw [hi] at hrest ⊢
      have hbefore := dataBefore_succ hB (i := n) (by omega)
      refine ⟨?_, by omega, ?_⟩
      · rw [header_succ]
        omega
      · rw [hbefore, header_succ]
        omega

theorem PlaceOf.lfsCtzIndex_eq {i off : ℕ} (h : PlaceOf blockSize pos i off)
    (hB : 128 ≤ blockSize) (hpos : pos < 2 ^ 32) : lfsCtzIndex blockSize pos = (i, off) := by
  obtain ⟨hi, hoff⟩ := (lfsCtzIndex_spec pos hB hpos).unique h
  exact Prod.ext hi hoff

theorem lfsCtzIndex_zero (hB : 128 ≤ blockSize) : lfsCtzIndex blockSize 0 = (0, 0) :=
  PlaceOf.lfsCtzIndex_eq ⟨le_rfl, by omega, rfl⟩ hB (by decide)

variable (pos) in
theorem lfsCtzIndex_lt (hB : 128 ≤ blockSize) (hpos : pos < 2 ^ 32) :
    (lfsCtzIndex blockSize pos).1 + 1 < 2 ^ 26 := by
  have hb : 0 < blockSize - 8 := by omega
  have hle (n : ℕ) (hn : n ≤ pos) : n / (blockSize - 8) + 1 < 2 ^ 26 := by
    have hdiv : n / (blockSize - 8) * 120 ≤ n :=
      (Nat.mul_le_mul_left _ (by omega)).trans (Nat.div_mul_le_self n (blockSize - 8))
    omega
  unfold lfsCtzIndex
  simp only [Nat.reduceMul]
  split_ifs
  · exact show 0 + 1 < 2 ^ 26 by decide
  · exact hle _ (Nat.sub_le _ _)

/-- The place behind a position: the next byte of the block, or the first one of the next. -/
theorem lfsCtzIndex_succ {i off : ℕ} (hB : 128 ≤ blockSize) (hpos : pos + 1 < 2 ^ 32)
    (h : lfsCtzIndex blockSize pos = (i, off)) :
    lfsCtzIndex blockSize (pos + 1) =
      if off + 1 = blockSize then (i + 1, 4 * (lfsCtz (i + 1) + 1)) else (i, off + 1) := by
  have hspec := lfsCtzIndex_spec pos hB (by omega)
  have hlt := lfsCtzIndex_lt pos hB (by omega)
  rw [h] at hspec hlt
  obtain ⟨hle, hend, hval⟩ := hspec
  dsimp only at hle hend hval hlt
  split_ifs with hfull
  · have hheader := header_le hlt
    have hnext : dataBefore blockSize (i + 1) = dataBefore blockSize i + (blockSize - header i) :=
      Finset.sum_range_succ _ _
    refine PlaceOf.lfsCtzIndex_eq ⟨header_succ.le, ?_, ?_⟩ hB hpos
    · rw [← header_succ]
      omega
    · rw [header_succ, Nat.sub_self, hnext]
      omega
  · exact PlaceOf.lfsCtzIndex_eq ⟨by omega, by omega, by omega⟩ hB hpos

/-- Places are in the order of the positions. -/
theorem lfsCtzIndex_mono {pos' : ℕ} (hB : 128 ≤ blockSize) (hle : pos ≤ pos')
    (hpos' : pos' < 2 ^ 32) :
    (lfsCtzIndex blockSize pos).1 ≤ (lfsCtzIndex blockSize pos').1 ∧
      ((lfsCtzIndex blockSize pos).1 = (lfsCtzIndex blockSize pos').1 →
        (lfsCtzIndex blockSize pos).2 ≤ (lfsCtzIndex blockSize pos').2) := by
  have h := lfsCtzIndex_spec pos hB (by omega)
  have h' := lfsCtzIndex_spec pos' hB hpos'
  constructor
  · by_contra hlt
    have hless := h'.lt_of_lt h (Nat.not_le.1 hlt)
    omega
  · intro heq
    have hval := h.pos_eq
    have hval' := h'.pos_eq
    have hheader := h.header_le
    have hheader' := h'.header_le
    rw [heq] at hval hheader
    omega

/-- For every file position: the block and the offset that `lfs_ctz_index` computes are the
    place of that position in the file, and no other place is. -/
theorem lfsCtzIndex_eq_iff {i off : ℕ} (hB : 128 ≤ blockSize) (hpos : pos < 2 ^ 32) :
    lfsCtzIndex blockSize pos = (i, off) ↔ PlaceOf blockSize pos i off := by
  have hspec := lfsCtzIndex_spec pos hB hpos
  constructor
  · intro h
    rw [h] at hspec
    exact hspec
  · exact fun h => h.lfsCtzIndex_eq hB hpos

/-- Blocks 0 and 1 have 4096 and 4092 bytes of data, and block 2 two pointers. -/
theorem lfsCtzIndex_eq_iff_9000 : PlaceOf 4096 9000 2 820 :=
  (lfsCtzIndex_eq_iff (by decide) (by decide)).1 (by decide)

end

end Esp32Embroidery.Littlefs
