import Esp32Embroidery.Lib.Coalesce
import Mathlib.Data.Finset.Sort
import Mathlib.Data.List.Sort
import Mathlib.Data.Rat.Floor

/-!
# The dual axis shaper

`applyIndependentDualAxisShaper` (`main.go`) scales and shifts the timestamps of the X
and the Y steps separately, merges both by time and turns the absolute times into
relative waits for the motor controller.

* `shaped`: the steps with their new timestamps.
* `shaperBlocks`: the merged step groups, each with the commands that it becomes.
* `shapedGroups_lt`: their timestamps increase strictly.
* `tick_shapedGroups`: they are the sorted times at which steps of the input are due,
  whatever the sort does with equal ones.
-/

namespace Esp32Embroidery.Shaper

open Esp32Embroidery.Lib

/-! ## Model -/

/-- `ClockSpeed` (line 11). -/
def clockSpeed : ℕ := 16000000

/-- `X_ShaperFreq` (line 14). -/
def xShaperFreq : ℚ := 35

/-- `Y_ShaperFreq` (line 15). -/
def yShaperFreq : ℚ := 22

/-- `a1` (line 162). -/
def a1 : ℚ := 52 / 100

/-- `a2` (line 162). -/
def a2 : ℚ := 48 / 100

structure BinaryCommand where
  stepPins : BitVec 8
  waitTicks : BitVec 32
  deriving DecidableEq

/-- The bit of an X step, `0x01`. -/
def xBit (pins : BitVec 8) : Bool := pins.getLsbD 0

/-- The bit of a Y step, `0x02`. -/
def yBit (pins : BitVec 8) : Bool := pins.getLsbD 1

/-- `TickTimestamp` is a `uint64`; where a sum wraps is in `TickArith.add`. -/
structure TimeStampedStep where
  tickTimestamp : ℕ
  pinMask : BitVec 8
  deriving DecidableEq

/-- The arithmetic on times: `uint64(float64(t) / a)`, the sum of two `uint64` and
    `int(float64(n) * a)`. -/
structure TickArith where
  div : ℕ → ℚ → ℕ
  add : ℕ → ℕ → ℕ
  mul : ℕ → ℚ → ℕ

/-- Scaling in exact rational arithmetic, rounded down, and sums in `uint64`. -/
def TickArith.exact : TickArith where
  div t a := ⌊(t : ℚ) / a⌋₊
  add a b := (a + b) % 2 ^ 64
  mul n a := ⌊(n : ℚ) * a⌋₊

/-- What `sort.Slice` makes of every list (lines 195-197). It may order steps with the same
    timestamp in any way. -/
structure SortSlice where
  sort : List TimeStampedStep → List TimeStampedStep
  perm : ∀ steps, (sort steps).Perm steps
  sorted : ∀ steps, (sort steps).Pairwise fun a b => a.tickTimestamp ≤ b.tickTimestamp

/-- The stable sort by insertion. -/
def SortSlice.insertion : SortSlice where
  sort steps := steps.insertionSort fun a b => a.tickTimestamp ≤ b.tickTimestamp
  perm _ := List.perm_insertionSort _ _
  sorted steps := by
    have : Std.Total fun a b : TimeStampedStep => a.tickTimestamp ≤ b.tickTimestamp :=
      ⟨fun a b => Nat.le_total _ _⟩
    have : IsTrans TimeStampedStep fun a b => a.tickTimestamp ≤ b.tickTimestamp :=
      ⟨fun a b c => Nat.le_trans⟩
    exact List.pairwise_insertionSort _ _

/-- The delay of an axis (lines 157-160). -/
def delayTicks (shaperFreq : ℚ) : ℕ := ⌊1 / (2 * shaperFreq) * clockSpeed⌋₊

/-- `xDelayTicks` -/
def xDelayTicks : ℕ := delayTicks xShaperFreq

/-- `yDelayTicks` -/
def yDelayTicks : ℕ := delayTicks yShaperFreq

/-- The steps of one axis (lines 146-154). -/
def axisSteps (rawSteps : List TimeStampedStep) (pinMask : BitVec 8) : List TimeStampedStep :=
  rawSteps.filter fun step => step.pinMask = pinMask

/-- The convolution of one channel (lines 166-178 and 181-192). -/
def shapeAxis (ar : TickArith) (delay : ℕ) (steps : List TimeStampedStep) : List TimeStampedStep :=
  steps.mapIdx fun i step =>
    if i < ar.mul steps.length a1 then { step with tickTimestamp := ar.div step.tickTimestamp a1 }
    else { step with tickTimestamp := ar.add (ar.div step.tickTimestamp a2) delay }

/-- `shapedTimestamps` before the sort. -/
def shaped (ar : TickArith) (rawSteps : List TimeStampedStep) : List TimeStampedStep :=
  shapeAxis ar xDelayTicks (axisSteps rawSteps 0x01) ++
    shapeAxis ar yDelayTicks (axisSteps rawSteps 0x02)

/-- `math.MaxUint32` -/
def maxUint32 : ℕ := 2 ^ 32 - 1

/-- Merge simultaneous step pulses (lines 211-215). -/
def mergeSteps (cur next : TimeStampedStep) : TimeStampedStep :=
  { cur with pinMask := cur.pinMask ||| next.pinMask }

/-- The step groups of the loop, one for each of its iterations (lines 207-215). -/
def shapedGroups (ar : TickArith) (sort : SortSlice) (rawSteps : List TimeStampedStep) :
    List TimeStampedStep :=
  coalesce TimeStampedStep.tickTimestamp mergeSteps (sort.sort (shaped ar rawSteps))

/-- The commands of a group (lines 217-229). -/
def pulse (dirMask : BitVec 8) (lastTick : ℕ) (group : TimeStampedStep) : List BinaryCommand :=
  let deltaTicks := group.tickTimestamp - lastTick
  let deltaTicks' := if maxUint32 < deltaTicks then deltaTicks - maxUint32 else deltaTicks
  (if maxUint32 < deltaTicks then [⟨dirMask, BitVec.ofNat 32 maxUint32⟩] else []) ++
    [⟨group.pinMask ||| dirMask, BitVec.ofNat 32 (deltaTicks' / 2)⟩,
     ⟨dirMask, BitVec.ofNat 32 (deltaTicks' / 2)⟩]

/-- The iterations of the loop, each with its group and the commands it appends. -/
def pulses (dirMask : BitVec 8) :
    ℕ → List TimeStampedStep → List (TimeStampedStep × List BinaryCommand)
  | _, [] => []
  | lastTick, group :: groups =>
    (group, pulse dirMask lastTick group) :: pulses dirMask group.tickTimestamp groups

def shaperBlocks (ar : TickArith) (sort : SortSlice) (rawSteps : List TimeStampedStep)
    (dirMask : BitVec 8) : List (TimeStampedStep × List BinaryCommand) :=
  pulses dirMask 0 (shapedGroups ar sort rawSteps)

/-- `applyIndependentDualAxisShaper` (lines 144-233). -/
def applyIndependentDualAxisShaper (ar : TickArith) (sort : SortSlice)
    (rawSteps : List TimeStampedStep) (dirMask : BitVec 8) : List BinaryCommand :=
  (shaperBlocks ar sort rawSteps dirMask).flatMap Prod.snd

/-! ## When the steps are due -/

/-- The timestamps of an axis in the input. -/
def axisTicks (rawSteps : List TimeStampedStep) (pinMask : BitVec 8) : List ℕ :=
  (rawSteps.filter fun step => step.pinMask = pinMask).map TimeStampedStep.tickTimestamp

/-- When the steps of an axis are due: the first part of them scaled by `a1`, the others
    scaled by `a2` and delayed. -/
def axisDue (ar : TickArith) (delay : ℕ) (ticks : List ℕ) : List ℕ :=
  ticks.mapIdx fun i tick =>
    if i < ar.mul ticks.length a1 then ar.div tick a1 else ar.add (ar.div tick a2) delay

/-- The times at which steps of the input are due, each once, in order. -/
def dueTicks (ar : TickArith) (rawSteps : List TimeStampedStep) : List ℕ :=
  (axisDue ar xDelayTicks (axisTicks rawSteps 0x01) ++
    axisDue ar yDelayTicks (axisTicks rawSteps 0x02)).toFinset.sort (· ≤ ·)

theorem map_tick_shapeAxis (ar : TickArith) (delay : ℕ) (steps : List TimeStampedStep) :
    (shapeAxis ar delay steps).map TimeStampedStep.tickTimestamp =
      axisDue ar delay (steps.map TimeStampedStep.tickTimestamp) := by
  refine List.ext_getElem? fun i => ?_
  unfold shapeAxis axisDue
  rw [List.getElem?_map, List.getElem?_mapIdx, List.getElem?_mapIdx, List.getElem?_map,
    List.length_map, Option.map_map, Option.map_map]
  refine congrArg (Option.map · steps[i]?) (funext fun step => ?_)
  show (ite _ _ _ : TimeStampedStep).tickTimestamp = ite _ _ _
  split_ifs <;> rfl

theorem map_tick_shaped (ar : TickArith) (rawSteps : List TimeStampedStep) :
    (shaped ar rawSteps).map TimeStampedStep.tickTimestamp =
      axisDue ar xDelayTicks (axisTicks rawSteps 0x01) ++
        axisDue ar yDelayTicks (axisTicks rawSteps 0x02) := by
  rw [shaped, List.map_append, map_tick_shapeAxis, map_tick_shapeAxis]
  rfl

/-! ## Groups -/

theorem tickTimestamp_mergeSteps (cur next : TimeStampedStep) :
    (mergeSteps cur next).tickTimestamp = cur.tickTimestamp := rfl

section

variable (ar : TickArith) (sort : SortSlice) (rawSteps : List TimeStampedStep)

theorem shapedGroups_lt : (shapedGroups ar sort rawSteps).Pairwise fun a b =>
    a.tickTimestamp < b.tickTimestamp :=
  coalesce_lt tickTimestamp_mergeSteps (sort.sorted _)

theorem tick_shapedGroups :
    (shapedGroups ar sort rawSteps).map TimeStampedStep.tickTimestamp =
      dueTicks ar rawSteps := by
  have hgroups : ((shapedGroups ar sort rawSteps).map TimeStampedStep.tickTimestamp).Pairwise
      (· < ·) := List.pairwise_map.2 (shapedGroups_lt ar sort rawSteps)
  have hticks : (dueTicks ar rawSteps).Pairwise (· < ·) :=
    List.sortedLT_iff_pairwise.1 (Finset.sortedLT_sort _)
  refine List.Perm.eq_of_pairwise (fun a b _ _ hab hba => absurd hba hab.asymm) hgroups hticks ?_
  refine (List.perm_ext_iff_of_nodup (hgroups.imp ne_of_lt) (hticks.imp ne_of_lt)).2 fun tick => ?_
  rw [shapedGroups, mem_keys_coalesce tickTimestamp_mergeSteps, dueTicks, Finset.mem_sort,
    List.mem_toFinset, ← map_tick_shaped]
  exact ((sort.perm _).map _).mem_iff

/-- Every step of an axis keeps its pin. -/
theorem pinMask_of_mem_shapeAxis {delay : ℕ} {mask : BitVec 8} {step : TimeStampedStep}
    (h : step ∈ shapeAxis ar delay (axisSteps rawSteps mask)) : step.pinMask = mask := by
  obtain ⟨i, hi, rfl⟩ := List.mem_mapIdx.1 h
  have hraw := (List.mem_filter.1 (List.getElem_mem hi)).2
  split_ifs <;> exact of_decide_eq_true hraw

theorem pinMask_of_mem_shaped {step : TimeStampedStep} (h : step ∈ shaped ar rawSteps) :
    step.pinMask = 0x01 ∨ step.pinMask = 0x02 := by
  rcases List.mem_append.1 h with hx | hy
  · exact .inl (pinMask_of_mem_shapeAxis ar rawSteps hx)
  · exact .inr (pinMask_of_mem_shapeAxis ar rawSteps hy)

/-- What holds of both step masks and is kept by their union holds of every group. -/
theorem forall_shapedGroups {P : BitVec 8 → Prop} (hx : P 0x01) (hy : P 0x02)
    (hor : ∀ a b, P a → P b → P (a ||| b)) :
    ∀ group ∈ shapedGroups ar sort rawSteps, P group.pinMask := by
  refine forall_coalesce (P := fun step : TimeStampedStep => P step.pinMask)
    (fun a b ha hb => hor _ _ ha hb) ?_
  intro step hstep
  rcases pinMask_of_mem_shaped ar rawSteps ((sort.perm _).mem_iff.1 hstep) with h | h
  · rw [h]
    exact hx
  · rw [h]
    exact hy

end

end Esp32Embroidery.Shaper
