import Esp32Embroidery.Shaper.DualAxis

/-!
# The shaper and the order of its input

The steps of both axes are separated before their times change, so their interleaving in
the input is lost. `sort.Slice` may put steps with one tick in any order, but the merge
takes the union of their pins.

Main result:

* `shaper_interleaving_independent`: lists with the same X steps and the same Y steps give
  the same commands, whatever the sort does in either call.
-/

namespace Esp32Embroidery.Shaper

open Esp32Embroidery.Lib

/-- The bit `i` of the pins of a step. -/
def pinBit (i : ℕ) (step : TimeStampedStep) : Bool := step.pinMask.getLsbD i

theorem pinBit_mergeSteps (i : ℕ) (cur next : TimeStampedStep) :
    pinBit i (mergeSteps cur next) = (pinBit i cur || pinBit i next) := BitVec.getLsbD_or

/-- The tick and the bits determine a step. -/
theorem eq_of_pinBit {a b : TimeStampedStep} (htick : a.tickTimestamp = b.tickTimestamp)
    (hbits : ∀ i, pinBit i a = pinBit i b) : a = b := by
  have hmask : a.pinMask = b.pinMask := BitVec.eq_of_getLsbD_eq fun i _ => hbits i
  cases a
  cases b
  simp_all

/-- The step groups do not depend on the order of equal ticks. -/
theorem shapedGroups_congr {ar : TickArith} (sort sort' : SortSlice)
    {rawSteps rawSteps' : List TimeStampedStep} (h : shaped ar rawSteps = shaped ar rawSteps') :
    shapedGroups ar sort rawSteps = shapedGroups ar sort' rawSteps' := by
  unfold shapedGroups
  rw [h]
  have hperm := (sort.perm (shaped ar rawSteps')).trans (sort'.perm (shaped ar rawSteps')).symm
  refine coalesce_perm tickTimestamp_mergeSteps pinBit_mergeSteps ?_ hperm (sort.sorted _)
    (sort'.sorted _)
  intro a b htick hbits
  exact eq_of_pinBit htick hbits

/-- For any two lists with the same steps of each axis, whatever the arithmetic on times, and
    for any two results of `sort.Slice`: the commands are the same. -/
theorem shaper_interleaving_independent (ar : TickArith) (sort sort' : SortSlice)
    {rawSteps rawSteps' : List TimeStampedStep} (dirMask : BitVec 8)
    (hx : axisSteps rawSteps 0x01 = axisSteps rawSteps' 0x01)
    (hy : axisSteps rawSteps 0x02 = axisSteps rawSteps' 0x02) :
    applyIndependentDualAxisShaper ar sort rawSteps dirMask =
      applyIndependentDualAxisShaper ar sort' rawSteps' dirMask := by
  have hshaped : shaped ar rawSteps = shaped ar rawSteps' := by
    unfold shaped
    rw [hx, hy]
  unfold applyIndependentDualAxisShaper shaperBlocks
  rw [shapedGroups_congr sort sort' hshaped]

/-- The same sort of the reversed slice, which leaves equal ticks the other way round. -/
def SortSlice.reversed (sort : SortSlice) : SortSlice where
  sort steps := sort.sort steps.reverse
  perm steps := (sort.perm steps.reverse).trans steps.reverse_perm
  sorted steps := sort.sorted steps.reverse

/-- An X step and a Y step, in either order, that are due on one tick, and two sorts that
    order them differently. -/
theorem shaper_interleaving_swapped :
    SortSlice.insertion.sort (shaped .exact [⟨64836, 0x01⟩, ⟨5, 0x02⟩]) ≠
        SortSlice.insertion.reversed.sort (shaped .exact [⟨5, 0x02⟩, ⟨64836, 0x01⟩]) ∧
      applyIndependentDualAxisShaper .exact .insertion [⟨64836, 0x01⟩, ⟨5, 0x02⟩] 0x04 =
        applyIndependentDualAxisShaper .exact (.reversed .insertion)
          [⟨5, 0x02⟩, ⟨64836, 0x01⟩] 0x04 :=
  ⟨by decide +kernel,
    shaper_interleaving_independent .exact .insertion (.reversed .insertion) 0x04 (by decide)
      (by decide)⟩

end Esp32Embroidery.Shaper
