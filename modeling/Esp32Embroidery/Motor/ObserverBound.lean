import Esp32Embroidery.Lib.Observer
import Esp32Embroidery.Motor.AdrcZones

/-!
# The extended state observer stays bounded

`adrc_spindle_ticker` filters the measured speed, clamps its command and feeds both to an
observer with the gains `2ω` and `ω²`. With `h = 0.001` and the `ω` of any zone, `h * ω` is
below one.

Main results:

* `observer_control`: the callback makes a step of `Lib.Observer`.
* `MotionWithin.ticker`: one callback keeps the bounds.
* `observer_bounded`: so does every run in one zone.
-/

namespace Esp32Embroidery.Motor

open Esp32Embroidery.Lib

/-! ## One callback -/

/-- The observer of the controller. -/
def Adrc.observer (a : Adrc ℚ) : Observer ℚ := ⟨a.z1, a.z2⟩

/-- The speed that `pulseCount` pulses in one millisecond mean. -/
def pulseRpm (pulseCount : ℕ) : ℚ := 60000 / 2048 * pulseCount

theorem currentRpm_sample (a : Adrc ℚ) (pulseCount : ℕ) :
    (a.sample pulseCount).currentRpm = lowPass 0.2 a.currentRpm a.rawRpm := by
  show a.currentRpm * 0.80 + a.rawRpm * 0.20 = _
  unfold lowPass
  ring

theorem rawRpm_sample (a : Adrc ℚ) (pulseCount : ℕ) :
    (a.sample pulseCount).rawRpm = pulseRpm pulseCount := by
  show ((pulseCount : ℤ) : ℚ) / 0.001 / (1024 * 2.0) * 60.0 = _
  unfold pulseRpm
  push_cast
  norm_num
  ring

/-- Lines 259–262 in a zone. -/
theorem observer_control {a : Adrc ℚ} {zone : Zone} (h : a.gains = zone.gains) :
    a.control.observer =
      a.observer.step 0.001 zone.omegaO (zone.b0 * a.uCmd) a.currentRpm := by
  have hb0 : a.b0 = zone.b0 := congrArg Gains.b0 h
  have hbeta1 : a.beta1 = 2 * zone.omegaO := congrArg Gains.beta1 h
  have hbeta2 : a.beta2 = zone.omegaO * zone.omegaO := congrArg Gains.beta2 h
  unfold Observer.step
  rw [← hb0, ← hbeta2, ← hbeta1]
  rfl

/-! ## Bounds -/

/-- The controller in a zone, with bounds of its speeds, its command and its observer. -/
structure MotionWithin (zone : Zone) (C U L Z : ℚ) (a : Adrc ℚ) : Prop where
  gains : a.gains = zone.gains
  currentRpm_le : |a.currentRpm| ≤ C
  rawRpm_le : |a.rawRpm| ≤ C
  uCmd_le : |a.uCmd| ≤ U
  observer : a.observer.Within zone.omegaO L Z

theorem Zone.omegaO_bounds (zone : Zone) : 0 < zone.omegaO ∧ 0.001 * zone.omegaO ≤ 1 := by
  cases zone <;> norm_num [Zone.omegaO]

section

variable {zone : Zone} {C U L Z : ℚ} {a : Adrc ℚ}

/-- The variables of the callback alone matter. -/
theorem MotionWithin.congr {a' : Adrc ℚ} (h : MotionWithin zone C U L Z a)
    (hmotion : SameMotion a a') (hgains : a'.gains = zone.gains) :
    MotionWithin zone C U L Z a' where
  gains := hgains
  currentRpm_le := hmotion.currentRpm.symm ▸ h.currentRpm_le
  rawRpm_le := hmotion.rawRpm.symm ▸ h.rawRpm_le
  uCmd_le := hmotion.uCmd.symm ▸ h.uCmd_le
  observer := by
    have hobserver : a'.observer = a.observer := by
      unfold Adrc.observer
      rw [hmotion.z1, hmotion.z2]
    rw [hobserver]
    exact h.observer

theorem MotionWithin.sample (h : MotionWithin zone C U L Z a) {pulseCount : ℕ}
    (hpulses : pulseRpm pulseCount ≤ C) :
    MotionWithin zone C U L Z (a.sample pulseCount) where
  gains := h.gains
  currentRpm_le := by
    rw [currentRpm_sample]
    exact abs_lowPass_le (by norm_num) (by norm_num) h.currentRpm_le h.rawRpm_le
  rawRpm_le := by
    have hnonneg : 0 ≤ pulseRpm pulseCount := by
      unfold pulseRpm
      positivity
    rw [rawRpm_sample, abs_of_nonneg hnonneg]
    exact hpulses
  uCmd_le := h.uCmd_le
  observer := h.observer

theorem MotionWithin.stop (h : MotionWithin zone C U L Z a) : MotionWithin zone C U L Z a.stop := by
  have hC := (abs_nonneg _).trans h.currentRpm_le
  have hU := (abs_nonneg _).trans h.uCmd_le
  have hL := (abs_nonneg _).trans h.observer.lag_le
  have hZ := (abs_nonneg _).trans h.observer.z1_le
  have hobserver : a.stop.observer = ⟨0, 0⟩ := by
    unfold Adrc.stop Adrc.observer
    simp only
    split_ifs <;> rfl
  have hspeeds : a.stop.currentRpm = a.currentRpm ∧ a.stop.rawRpm = a.rawRpm ∨
      a.stop.currentRpm = 0 ∧ a.stop.rawRpm = 0 := by
    unfold Adrc.stop
    simp only
    split_ifs
    · exact .inr ⟨rfl, rfl⟩
    · exact .inl ⟨rfl, rfl⟩
  constructor
  case gains => rw [(gains_stop a).1, h.gains]
  case currentRpm_le =>
    rcases hspeeds with ⟨hcurrent, -⟩ | ⟨hcurrent, -⟩
    · rw [hcurrent]
      exact h.currentRpm_le
    · rw [hcurrent, abs_zero]
      exact hC
  case rawRpm_le =>
    rcases hspeeds with ⟨-, hraw⟩ | ⟨-, hraw⟩
    · rw [hraw]
      exact h.rawRpm_le
    · rw [hraw, abs_zero]
      exact hC
  case uCmd_le =>
    rw [(gains_stop a).2, abs_zero]
    exact hU
  case observer =>
    rw [hobserver]
    constructor
    · simpa [Observer.lag] using hL
    · simpa using hZ

/-- Bounds that are large enough to be kept: for the clamped command, and for the inputs of
    both filters of the observer. -/
structure BoundsFit (zone : Zone) (C U L Z : ℚ) : Prop where
  unit_le : 1 ≤ U
  lag : zone.b0 * U + zone.omegaO * C ≤ L
  z1 : zone.b0 * U + 2 * zone.omegaO * C + L ≤ zone.omegaO * Z

theorem MotionWithin.control (hfit : BoundsFit zone C U L Z) (h : MotionWithin zone C U L Z a) :
    MotionWithin zone C U L Z a.control := by
  obtain ⟨hω, hhω⟩ := zone.omegaO_bounds
  constructor
  case gains => exact h.gains
  case currentRpm_le => exact h.currentRpm_le
  case rawRpm_le => exact h.rawRpm_le
  case uCmd_le =>
    obtain ⟨hu0, hu1⟩ : 0 ≤ a.control.uCmd ∧ a.control.uCmd ≤ 1 := clampUnit_mem _
    rw [abs_of_nonneg hu0]
    exact hu1.trans hfit.unit_le
  case observer =>
    rw [observer_control h.gains]
    refine h.observer.step hω (by norm_num) hhω ?_ h.currentRpm_le hfit.lag hfit.z1
    rw [abs_mul, abs_of_pos zone.b0_pos]
    exact mul_le_mul_of_nonneg_left h.uCmd_le zone.b0_pos.le

theorem MotionWithin.ticker (hfit : BoundsFit zone C U L Z) (h : MotionWithin zone C U L Z a)
    {pulseCount : ℕ} (hpulses : pulseRpm pulseCount ≤ C) :
    MotionWithin zone C U L Z (a.ticker pulseCount).1 := by
  by_cases hstop : a.stopped = true
  · by_cases hon : a.spindleOn = true
    · rw [ticker_stop a pulseCount hstop hon]
      exact (h.sample hpulses).stop
    · rw [ticker_idle a pulseCount ⟨hstop, Bool.eq_false_of_not_eq_true hon⟩]
      exact h
  · rw [ticker_control a pulseCount (Bool.eq_false_of_not_eq_true hstop)]
    exact (h.sample hpulses).control hfit

end

/-! ## Runs in a zone -/

/-- The call leaves the target in the zone, and a callback counts at most `P` pulses. -/
def StaysIn (zone : Zone) (P : ℕ) (_ : AdrcHistory) (call : AdrcCall) (r' : AdrcHistory) : Prop :=
  zoneOf r'.spindle.adrc.targetRpm = zone ∧ ∀ pulseCount, call = .ticker pulseCount → pulseCount ≤ P

/-- The bounds of a run from `a` with at most `P` pulses a callback. -/
def speedBound (P : ℕ) (a : Adrc ℚ) : ℚ := max (max |a.currentRpm| |a.rawRpm|) (pulseRpm P)

def commandBound (a : Adrc ℚ) : ℚ := max |a.uCmd| 1

def lagBound (zone : Zone) (P : ℕ) (a : Adrc ℚ) : ℚ :=
  max |a.observer.lag zone.omegaO| (zone.b0 * commandBound a + zone.omegaO * speedBound P a)

def z1Bound (zone : Zone) (P : ℕ) (a : Adrc ℚ) : ℚ :=
  max |a.z1| ((zone.b0 * commandBound a + 2 * zone.omegaO * speedBound P a + lagBound zone P a) /
    zone.omegaO)

/-- A bound of both states of the observer. -/
def observerBound (zone : Zone) (P : ℕ) (a : Adrc ℚ) : ℚ :=
  max (z1Bound zone P a) (zone.omegaO * z1Bound zone P a + lagBound zone P a)

theorem boundsFit_start (zone : Zone) (P : ℕ) (a : Adrc ℚ) :
    BoundsFit zone (speedBound P a) (commandBound a) (lagBound zone P a) (z1Bound zone P a) := by
  obtain ⟨hω, -⟩ := zone.omegaO_bounds
  constructor
  case unit_le => exact le_max_right _ _
  case lag => exact le_max_right _ _
  case z1 =>
    rw [mul_comm zone.omegaO (z1Bound zone P a), ← div_le_iff₀ hω]
    exact le_max_right _ _

theorem motionWithin_start {zone : Zone} (P : ℕ) {a : Adrc ℚ} (h : a.gains = zone.gains) :
    MotionWithin zone (speedBound P a) (commandBound a) (lagBound zone P a) (z1Bound zone P a)
      a where
  gains := h
  currentRpm_le := (le_max_left _ _).trans (le_max_left _ _)
  rawRpm_le := (le_max_right _ _).trans (le_max_left _ _)
  uCmd_le := le_max_left _ _
  observer := ⟨le_max_left _ _, le_max_left _ _⟩

theorem motionWithin_of_reachableBy {zone : Zone} {P : ℕ} {start : Spindle ℚ}
    (hstart : start.adrc.gains = zone.gains) {r : AdrcHistory}
    (h : (adrcCalls start).ReachableBy (StaysIn zone P) r) :
    MotionWithin zone (speedBound P start.adrc) (commandBound start.adrc)
      (lagBound zone P start.adrc) (z1Bound zone P start.adrc) r.spindle.adrc := by
  refine h.invariant (I := fun r => MotionWithin zone (speedBound P start.adrc)
    (commandBound start.adrc) (lagBound zone P start.adrc) (z1Bound zone P start.adrc)
    r.spindle.adrc) (motionWithin_start P hstart) ?_
  rintro r call _ - hr ⟨⟩ ⟨hzone, hpulses⟩
  rcases exists_setAdrcSpindleSpeed r call with ⟨rpm, hspeed⟩ | ⟨pulseCount, rfl⟩
  · rw [hspeed] at hzone ⊢
    obtain ⟨hmotion, ⟨-, hgains⟩ | ⟨-, hgains, -⟩⟩ := setAdrcSpindleSpeed_cases r.spindle rpm
    · exact hr.congr hmotion (hgains.trans hr.gains)
    · exact hr.congr hmotion (hgains.trans (congrArg Zone.gains hzone))
  · refine hr.ticker (boundsFit_start zone P start.adrc) (le_max_of_le_right ?_)
    have hle : (pulseCount : ℚ) ≤ P := by exact_mod_cast hpulses pulseCount rfl
    unfold pulseRpm
    linarith

/-- For every zone, every bound `P`, every state with the gains of the zone and every run from
    it in which the target stays in the zone and no callback counts more than `P` pulses. -/
theorem observer_bounded (zone : Zone) (P : ℕ) (start : Spindle ℚ)
    (hstart : start.adrc.gains = zone.gains) {r : AdrcHistory}
    (h : (adrcCalls start).ReachableBy (StaysIn zone P) r) :
    |r.spindle.adrc.z1| ≤ observerBound zone P start.adrc ∧
      |r.spindle.adrc.z2| ≤ observerBound zone P start.adrc := by
  have hr := motionWithin_of_reachableBy hstart h
  obtain ⟨hω, -⟩ := zone.omegaO_bounds
  have hz1 := hr.observer.z1_le
  have hz2 := hr.observer.z2_le hω.le
  show |r.spindle.adrc.observer.z1| ≤ _ ∧ |r.spindle.adrc.observer.z2| ≤ _
  unfold observerBound
  exact ⟨le_max_of_le_left hz1, le_max_of_le_right hz2⟩

/-- A callback in the crawl zone. -/
theorem observer_bounded_crawl :
    let start := (Spindle.powerUp 40 400 2.5).setAdrcSpindleSpeed 100
    |(start.adrcSpindleTicker 3).adrc.z1| ≤ observerBound .crawl 40 start.adrc ∧
      |(start.adrcSpindleTicker 3).adrc.z2| ≤ observerBound .crawl 40 start.adrc :=
  observer_bounded .crawl 40 ((Spindle.powerUp 40 400 2.5).setAdrcSpindleSpeed 100)
    (by decide +kernel)
    (r := (adrcCalls ((Spindle.powerUp 40 400 2.5).setAdrcSpindleSpeed 100)).init.next (.ticker 3))
    (.step .init rfl ⟨by decide +kernel, fun pulseCount h => by cases h; decide⟩)

end Esp32Embroidery.Motor
