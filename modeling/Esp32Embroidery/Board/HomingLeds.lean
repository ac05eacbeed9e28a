import Mathlib.Data.Int.Notation
import Mathlib.Tactic.Common

/-!
# The LED ring while homing (`boards/ooznest_cnc.c`)

Each call of `ooznest_led_homing` draws the LEDs within `radius` of the center and moves the
radius up to the center and down again. Downwards `radius--` is done even if it is zero.

* `Phase.step`: a round has `2 * center + 2` frames, one of them with the radius 65535.
* `homing_radius_iff`: the frames whose radius is within the strip.
-/

namespace Esp32Embroidery.Board

/-! ## Model -/

inductive LedColor
  | blue
  | off
  deriving DecidableEq

/-- The static variables of `ooznest_led_homing` (lines 424 and 425). -/
structure HomingLeds where
  radius : BitVec 16
  dir : ℤ
  deriving DecidableEq

/-- `center` (line 427) -/
def center (num : BitVec 16) : BitVec 16 := num / 2

/-- What is drawn (lines 429–432). -/
def homingFrame (num radius : BitVec 16) : List LedColor :=
  (List.range num.toNat).map fun device =>
    let dist := if device < (center num).toNat then (center num).toNat - device
      else device - (center num).toNat
    if dist ≤ radius.toNat then .blue else .off

/-- Lines 436–440. -/
def HomingLeds.move (num : BitVec 16) (s : HomingLeds) : HomingLeds :=
  if s.dir > 0 then
    { radius := s.radius + 1, dir := if s.radius + 1 ≥ center num then -1 else s.dir }
  else { radius := s.radius - 1, dir := if s.radius = 0 then 1 else s.dir }

/-- `ooznest_led_homing` (lines 419–443) with the frame that it draws. -/
def ooznestLedHoming (homing : Bool) (num : BitVec 16) (s : HomingLeds) :
    HomingLeds × Option (List LedColor) :=
  if homing then (s.move num, some (homingFrame num s.radius)) else (s, none)

/-- The variables when the frame `k` is drawn, counted from 0. -/
def homingAt (num : BitVec 16) : ℕ → HomingLeds
  | 0 => { radius := 0, dir := 1 }
  | k + 1 => (ooznestLedHoming true num (homingAt num k)).1

/-! ## A round -/

/-- The variables in the frame `r` of a round for a strip with its center at `c`. -/
def Phase (c r : ℕ) (s : HomingLeds) : Prop :=
  (r < c ∧ s.radius.toNat = r ∧ s.dir = 1) ∨
  (c ≤ r ∧ r ≤ 2 * c ∧ s.radius.toNat = 2 * c - r ∧ s.dir = -1) ∨
  (r = 2 * c + 1 ∧ s.radius.toNat = 65535 ∧ s.dir = 1)

theorem center_toNat (num : BitVec 16) : (center num).toNat = num.toNat / 2 := by
  simp [center]

/-- On the way up, to a radius that is still within the strip. -/
theorem Phase.up {num : BitVec 16} {r : ℕ} {s : HomingLeds} (hdir : s.dir = 1)
    (hr : r ≤ (center num).toNat) (hradius : (s.radius + 1).toNat = r) :
    Phase (center num).toNat r (s.move num) := by
  have hge : s.radius + 1 ≥ center num ↔ (center num).toNat ≤ (s.radius + 1).toNat := Iff.rfl
  unfold HomingLeds.move
  rw [hdir, if_pos (by decide)]
  by_cases hturn : s.radius + 1 ≥ center num
  · rw [if_pos hturn]
    have hcenter := hge.1 hturn
    exact .inr (.inl ⟨by omega, by omega, by show (s.radius + 1).toNat = _; omega, rfl⟩)
  · rw [if_neg hturn]
    have hcenter := mt hge.2 hturn
    exact .inl ⟨by omega, hradius, rfl⟩

/-- On the way down, the last time from zero to 65535. -/
theorem Phase.down {num : BitVec 16} {r : ℕ} {s : HomingLeds} (hdir : s.dir = -1)
    (hr : (center num).toNat ≤ r) (hr' : r ≤ 2 * (center num).toNat)
    (hradius : s.radius.toNat = 2 * (center num).toNat - r) :
    Phase (center num).toNat (r + 1) (s.move num) := by
  have hlt := s.radius.isLt
  have hsub : (s.radius - 1).toNat = (s.radius.toNat + 65535) % 65536 := by
    rw [BitVec.toNat_sub, Nat.add_comm]
    rfl
  have hzero : s.radius = 0 ↔ s.radius.toNat = 0 := by
    rw [← BitVec.toNat_inj]
    rfl
  unfold HomingLeds.move
  rw [hdir, if_neg (by decide)]
  by_cases hwrap : s.radius = 0
  · rw [if_pos hwrap]
    have hradius0 := hzero.1 hwrap
    exact .inr (.inr ⟨by omega, by show (s.radius - 1).toNat = _; omega, rfl⟩)
  · rw [if_neg hwrap]
    have hradius0 := mt hzero.2 hwrap
    exact .inr (.inl ⟨by omega, by omega, by show (s.radius - 1).toNat = _; omega, rfl⟩)

theorem Phase.step {num : BitVec 16} {r : ℕ} {s : HomingLeds}
    (h : Phase (center num).toNat r s) :
    Phase (center num).toNat ((r + 1) % (2 * (center num).toNat + 2)) (s.move num) := by
  have hnum := num.isLt
  have hc := center_toNat num
  have hadd : (s.radius + 1).toNat = (s.radius.toNat + 1) % 65536 := by simp
  obtain ⟨hr, hradius, hdir⟩ | ⟨hr, hr', hradius, hdir⟩ | ⟨hr, hradius, hdir⟩ := h
  · rw [Nat.mod_eq_of_lt (by omega)]
    exact .up hdir (by omega) (by omega)
  · rw [Nat.mod_eq_of_lt (by omega)]
    exact .down hdir hr hr' hradius
  · rw [hr, Nat.mod_self]
    exact .up hdir (Nat.zero_le _) (by omega)

/-- Every frame has its phase if the frame `j` begins a round. -/
theorem phase_homingAt {num : BitVec 16} {j : ℕ}
    (hj : Phase (center num).toNat 0 (homingAt num j)) (k : ℕ) :
    Phase (center num).toNat (k % (2 * (center num).toNat + 2)) (homingAt num (j + k)) := by
  induction k with
  | zero => exact hj
  | succ k ih =>
    have hstep := ih.step
    rw [Nat.mod_add_mod] at hstep
    exact hstep

theorem Phase.radius_le_iff {c r : ℕ} {s : HomingLeds} (h : Phase c r s) (hc : c < 65535) :
    s.radius.toNat ≤ c ↔ r ≠ 2 * c + 1 := by
  unfold Phase at h
  omega

/-! ## The result -/

/-- The frame `k` is drawn with a radius within the strip iff it is not the last one of its
    round. -/
theorem homing_radius_iff (num : BitVec 16) (k : ℕ) :
    (homingAt num k).radius.toNat ≤ (center num).toNat ↔
      k % (2 * (center num).toNat + 2) ≠ 2 * (center num).toNat + 1 := by
  have hlt : (center num).toNat < 65535 := by
    have := num.isLt
    rw [center_toNat]
    omega
  by_cases hzero : (center num).toNat = 0
  · -- with one LED the rounds begin with the third frame
    have hcenter : center num = 0 := BitVec.eq_of_toNat_eq hzero
    have hmove : homingAt num 1 = ⟨1, -1⟩ := by
      simp [homingAt, ooznestLedHoming, HomingLeds.move, hcenter]
    match k with
    | 0 =>
      rw [hzero]
      exact iff_of_true (Nat.le_refl 0) (by decide)
    | 1 =>
      rw [hmove, hzero]
      decide
    | k + 2 =>
      have hround : Phase (center num).toNat 0 (homingAt num 2) := by
        have hmove' : homingAt num 2 = (homingAt num 1).move num := rfl
        rw [hmove', hmove, hzero]
        exact .inr (.inl ⟨Nat.le_refl 0, Nat.zero_le _, rfl, rfl⟩)
      have hphase := phase_homingAt hround k
      rw [Nat.add_comm 2 k] at hphase
      rw [hphase.radius_le_iff hlt, hzero]
      omega
  · have hround : Phase (center num).toNat 0 (homingAt num 0) :=
      .inl ⟨Nat.pos_of_ne_zero hzero, rfl, rfl⟩
    have hphase := phase_homingAt hround k
    rw [Nat.zero_add] at hphase
    exact hphase.radius_le_iff hlt

/-- Ten LEDs: after the first round all of them are lit. -/
theorem homing_radius_wraps :
    (homingAt 10 11).radius = 65535 ∧
      (ooznestLedHoming true 10 (homingAt 10 11)).2 = some (List.replicate 10 .blue) := by
  decide +kernel

end Esp32Embroidery.Board
