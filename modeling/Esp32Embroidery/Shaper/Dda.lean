import Esp32Embroidery.Lib.PhaseAccumulator
import Esp32Embroidery.Lib.RealArith
import Esp32Embroidery.Shaper.DualAxis

/-!
# The line generator (`calculateAbsoluteTimestampSteps`, `main.go`)

A move is cut into vector steps of a hundredth of a millimetre along the line. Every vector
step adds the share of each axis to its counter, and a counter that reaches one makes a
step of that axis. The time of a vector step follows from a trapezoidal speed profile.

* `calculateAbsoluteTimestampSteps_eq`: the steps come vector step by vector step.
* `before_counters`: in exact arithmetic the counters are the phases of accumulators.
* `ticks_succ`, `emitted_eq`: what a vector step adds to the clock and to the stream.
-/

namespace Esp32Embroidery.Shaper

open Esp32Embroidery.Lib

/-! ## Model -/

section Model

variable {F : Type*} [CMath F]

open CFloat (ofRat toInt)

/-- `StepsPerMM` (line 10). -/
def stepsPerMM : F := ofRat 100.0

/-- `MaxAccel` (line 17). -/
def maxAccel : F := ofRat 800.0

/-- `StartSpeed` (line 18). -/
def startSpeed : F := ofRat 4.0

/-- `dirMask` (lines 61–68). -/
def dirMask (targetX targetY : F) : BitVec 8 :=
  (if CFloat.le (ofRat 0) targetX then 0x04 else 0x00) |||
    (if CFloat.le (ofRat 0) targetY then 0x08 else 0x00)

/-- `totalVectorDist` (line 72). -/
def totalVectorDist (targetX targetY : F) : F :=
  CMath.sqrt (CMath.abs targetX * CMath.abs targetX + CMath.abs targetY * CMath.abs targetY)

/-- `int(accelDist * StepsPerMM)` (lines 79–80). -/
def accelStepsTo (targetSpeed : F) : ℤ :=
  let accelDist := (targetSpeed * targetSpeed - startSpeed * startSpeed) / (ofRat 2.0 * maxAccel)
  toInt (accelDist * stepsPerMM)

/-- The speed after an acceleration along `dist` (lines 84, 99 and 102). -/
def speedAfter (dist : F) : F :=
  CMath.sqrt (startSpeed * startSpeed + ofRat 2.0 * maxAccel * dist)

/-- The variables that stay as they are during the loop. -/
structure Move (F : Type*) where
  totalVectorDist : F
  totalVectorSteps : ℤ
  vMax : F
  accelSteps : ℤ
  xRatio : F
  yRatio : F

/-- Lines 70–90. The integers are those of Go without their bounds. -/
def move (targetX targetY targetSpeed : F) : Move F :=
  let dist := totalVectorDist targetX targetY
  let steps := toInt (dist * stepsPerMM)
  let isShort := decide (accelStepsTo targetSpeed * 2 > steps)
  { totalVectorDist := dist
    totalVectorSteps := steps
    -- a short move is accelerated up to its middle
    vMax := if isShort then speedAfter (ofRat (steps.tdiv 2) / stepsPerMM) else targetSpeed
    accelSteps := if isShort then steps.tdiv 2 else accelStepsTo targetSpeed
    xRatio := CMath.abs targetX / dist
    yRatio := CMath.abs targetY / dist }

namespace Move

variable (m : Move F)

/-- `decelStartStep` (line 86). -/
def decelStartStep : ℤ := m.totalVectorSteps - m.accelSteps

/-- `currentVelocity` from the profile in vector step `s` (lines 95–105). -/
def profileVelocity (s : ℕ) : F :=
  let currentVectorPos := ofRat s / stepsPerMM
  if s < m.accelSteps then speedAfter currentVectorPos
  else if s ≥ m.decelStartStep then speedAfter (m.totalVectorDist - currentVectorPos)
  else m.vMax

/-- `currentVelocity` with its lower bound (lines 107–109). -/
def currentVelocity (s : ℕ) : F :=
  if CFloat.lt (m.profileVelocity s) startSpeed then startSpeed else m.profileVelocity s

/-- `totalTicksForStep` in vector step `s` (lines 111–113). -/
def totalTicksForStep (s : ℕ) : ℕ :=
  let stepsPerSec := m.currentVelocity s * stepsPerMM
  let secondsPerStep := ofRat 1.0 / stepsPerSec
  toUint32 (toInt (secondsPerStep * ofRat clockSpeed))

end Move

/-- The variables of the loop, apart from `stream`. -/
structure Dda (F : Type*) where
  xCounter : F
  yCounter : F
  currentAbsoluteTicks : ℕ

/-- Lines 88 and 92. -/
def Dda.start : Dda F where
  xCounter := ofRat 0.0
  yCounter := ofRat 0.0
  currentAbsoluteTicks := 0

/-- The addition to one counter and its step request (lines 116–126). -/
def addRatio (ratio counter : F) : F × Bool :=
  if CFloat.le (ofRat 1.0) (counter + ratio) then (counter + ratio - ofRat 1.0, true)
  else (counter + ratio, false)

/-- `stepMask` after both requests. -/
def stepMask (xRequest yRequest : Bool) : BitVec 8 :=
  (if xRequest then 0x01 else 0x00) ||| (if yRequest then 0x02 else 0x00)

/-- The transitions that are logged (lines 133–138). -/
def transitions (mask : BitVec 8) (currentAbsoluteTicks : ℕ) : List TimeStampedStep :=
  (if mask &&& 0x01 > 0 then [⟨currentAbsoluteTicks, 0x01⟩] else []) ++
    (if mask &&& 0x02 > 0 then [⟨currentAbsoluteTicks, 0x02⟩] else [])

namespace Move

variable (m : Move F)

/-- The loop body in vector step `s`, with what it appends to `stream`. -/
def step (s : ℕ) (d : Dda F) : Dda F × List TimeStampedStep :=
  let x := addRatio m.xRatio d.xCounter
  let y := addRatio m.yRatio d.yCounter
  let mask := stepMask x.2 y.2
  if mask > 0 then
    let ticks := d.currentAbsoluteTicks + m.totalTicksForStep s
    (⟨x.1, y.1, ticks⟩, transitions mask ticks)
  else (⟨x.1, y.1, d.currentAbsoluteTicks⟩, [])

/-- One iteration on the variables and `stream`. -/
def iterate (acc : Dda F × List TimeStampedStep) (s : ℕ) : Dda F × List TimeStampedStep :=
  ((m.step s acc.1).1, acc.2 ++ (m.step s acc.1).2)

/-- The variables and `stream` after the loop (lines 94–140). -/
def loop : Dda F × List TimeStampedStep :=
  (List.range m.totalVectorSteps.toNat).foldl m.iterate (Dda.start, [])

/-- The variables before vector step `s`. -/
def before : ℕ → Dda F
  | 0 => Dda.start
  | s + 1 => (m.step s (before s)).1

/-- The steps that are emitted at vector step `s`. -/
def emitted (s : ℕ) : List TimeStampedStep := (m.step s (m.before s)).2

end Move

/-- `calculateAbsoluteTimestampSteps` (lines 58–142). -/
def calculateAbsoluteTimestampSteps (targetX targetY targetSpeed : F) :
    List TimeStampedStep × BitVec 8 :=
  ((move targetX targetY targetSpeed).loop.2, dirMask targetX targetY)

/-! ## One vector step -/

/-- The transitions of a vector step that ends at tick `ticks`. -/
def stepsAt (xRequest yRequest : Bool) (ticks : ℕ) : List TimeStampedStep :=
  (if xRequest then [⟨ticks, 0x01⟩] else []) ++ (if yRequest then [⟨ticks, 0x02⟩] else [])

theorem transitions_stepMask (xRequest yRequest : Bool) (ticks : ℕ) :
    transitions (stepMask xRequest yRequest) ticks = stepsAt xRequest yRequest ticks := by
  cases xRequest <;> cases yRequest <;> rfl

theorem stepMask_pos (xRequest yRequest : Bool) :
    stepMask xRequest yRequest > 0 ↔ (xRequest || yRequest) = true := by
  cases xRequest <;> cases yRequest <;> decide

/-- The clock only advances in a vector step that moves an axis. -/
theorem Move.step_eq (m : Move F) (s : ℕ) (d : Dda F) :
    m.step s d =
      (⟨(addRatio m.xRatio d.xCounter).1, (addRatio m.yRatio d.yCounter).1,
        d.currentAbsoluteTicks +
          if ((addRatio m.xRatio d.xCounter).2 || (addRatio m.yRatio d.yCounter).2) = true
          then m.totalTicksForStep s else 0⟩,
       stepsAt (addRatio m.xRatio d.xCounter).2 (addRatio m.yRatio d.yCounter).2
         (d.currentAbsoluteTicks + m.totalTicksForStep s)) := by
  unfold Move.step
  simp only [stepMask_pos, transitions_stepMask]
  split_ifs with hmask
  · rfl
  · obtain ⟨hx, hy⟩ := Bool.or_eq_false_iff.1 (Bool.eq_false_of_not_eq_true hmask)
    rw [hx, hy]
    rfl

/-! ## The stream -/

theorem foldl_iterate (m : Move F) (n : ℕ) :
    (List.range n).foldl m.iterate (Dda.start, []) =
      (m.before n, (List.range n).flatMap m.emitted) := by
  induction n with
  | zero => rfl
  | succ n ih =>
    rw [List.range_succ, List.foldl_append, ih, List.flatMap_append]
    simp [Move.iterate, Move.before, Move.emitted]

theorem calculateAbsoluteTimestampSteps_eq (targetX targetY targetSpeed : F) :
    (calculateAbsoluteTimestampSteps targetX targetY targetSpeed).1 =
      (List.range (move targetX targetY targetSpeed).totalVectorSteps.toNat).flatMap
        (move targetX targetY targetSpeed).emitted := by
  unfold calculateAbsoluteTimestampSteps Move.loop
  rw [foldl_iterate]

end Model

/-! ## Exact arithmetic -/

theorem stepsPerMM_real : (stepsPerMM : ℝ) = 100 := by
  unfold stepsPerMM
  norm_num

theorem totalVectorDist_nonneg (targetX targetY : ℝ) : 0 ≤ totalVectorDist targetX targetY :=
  Real.sqrt_nonneg _

theorem totalVectorDist_sq (targetX targetY : ℝ) :
    totalVectorDist targetX targetY ^ 2 = targetX ^ 2 + targetY ^ 2 := by
  have hdist : totalVectorDist targetX targetY =
      √(|targetX| * |targetX| + |targetY| * |targetY|) := rfl
  rw [hdist, Real.sq_sqrt (by positivity), abs_mul_abs_self, abs_mul_abs_self]
  ring

theorem addRatio_real (ratio counter : ℝ) :
    addRatio ratio counter = (nextPhase ratio counter, carry ratio counter) := by
  have hone : (CFloat.ofRat 1.0 : ℝ) = 1 := by norm_num
  unfold addRatio nextPhase carry
  rw [hone]
  by_cases hreach : 1 ≤ counter + ratio
  · rw [if_pos ((CMath.le_real _ _).2 hreach)]
    simp [hreach]
  · rw [if_neg (mt (CMath.le_real _ _).1 hreach)]
    simp [hreach]

namespace Move

variable (m : Move ℝ)

/-- Vector step `s` requests an X step. -/
noncomputable def xRequest (s : ℕ) : Bool := carry m.xRatio (phase m.xRatio s)

/-- Vector step `s` requests a Y step. -/
noncomputable def yRequest (s : ℕ) : Bool := carry m.yRatio (phase m.yRatio s)

/-- Both counters are accumulators. -/
theorem before_counters (s : ℕ) :
    (m.before s).xCounter = phase m.xRatio s ∧ (m.before s).yCounter = phase m.yRatio s := by
  induction s with
  | zero =>
    have hzero : (CFloat.ofRat 0.0 : ℝ) = 0 := by norm_num
    exact ⟨hzero, hzero⟩
  | succ s ih =>
    obtain ⟨ihx, ihy⟩ := ih
    rw [before, step_eq, addRatio_real, addRatio_real, ihx, ihy]
    exact ⟨rfl, rfl⟩

theorem ticks_succ (s : ℕ) :
    (m.before (s + 1)).currentAbsoluteTicks = (m.before s).currentAbsoluteTicks +
      if (m.xRequest s || m.yRequest s) = true then m.totalTicksForStep s else 0 := by
  obtain ⟨hx, hy⟩ := m.before_counters s
  rw [before, step_eq, addRatio_real, addRatio_real, hx, hy]
  rfl

theorem emitted_eq (s : ℕ) :
    m.emitted s = stepsAt (m.xRequest s) (m.yRequest s)
      ((m.before s).currentAbsoluteTicks + m.totalTicksForStep s) := by
  obtain ⟨hx, hy⟩ := m.before_counters s
  rw [emitted, step_eq, addRatio_real, addRatio_real, hx, hy]
  rfl

end Move

end Esp32Embroidery.Shaper
