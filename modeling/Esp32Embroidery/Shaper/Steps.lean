import Esp32Embroidery.Shaper.DualAxis
import Mathlib.Algebra.Order.Floor.Semiring
import Mathlib.Tactic.Linarith

/-!
# The shaper keeps every step

Both factors of the time scaling are below one, and the second group of an axis is scaled
by more and delayed on top. As long as the delayed times stay below `2^64`, two steps of
one axis therefore never land on one tick, and merging equal ticks only joins an X step
with a Y step.

Main results:

* `shapeAxis_lt`: the new timestamps of an axis increase strictly.
* `shaper_step_conservation`: the commands have as many X and Y pulses as there are
  steps, and every command has exactly the direction bits.
* `shaper_loses_step`: a delayed time that wraps meets an early step.
-/

namespace Esp32Embroidery.Shaper

open Esp32Embroidery.Lib

/-! ## Scaled times -/

theorem floor_div_lt {a : ℚ} (ha : 0 < a) (ha1 : a ≤ 1) {t u : ℕ} (h : t < u) :
    ⌊(t : ℚ) / a⌋₊ < ⌊(u : ℚ) / a⌋₊ := by
  have hcast : (t : ℚ) + 1 ≤ u := by exact_mod_cast h
  have hstep : (t : ℚ) / a + 1 ≤ u / a := by
    rw [div_add_one ha.ne', div_le_div_iff_of_pos_right ha]
    linarith
  calc ⌊(t : ℚ) / a⌋₊ < ⌊(t : ℚ) / a⌋₊ + 1 := Nat.lt_succ_self _
    _ = ⌊(t : ℚ) / a + 1⌋₊ := (Nat.floor_add_one (by positivity)).symm
    _ ≤ ⌊(u : ℚ) / a⌋₊ := Nat.floor_le_floor hstep

theorem floor_div_a1_le (t : ℕ) : ⌊(t : ℚ) / a1⌋₊ ≤ ⌊(t : ℚ) / a2⌋₊ := by
  refine Nat.floor_le_floor (div_le_div_of_nonneg_left t.cast_nonneg ?_ ?_)
  · norm_num [a2]
  · norm_num [a1, a2]

/-- The delayed times of an axis fit into `uint64`. -/
def DelayFits (delay : ℕ) (steps : List TimeStampedStep) : Prop :=
  ∀ step ∈ steps, ⌊(step.tickTimestamp : ℚ) / a2⌋₊ + delay < 2 ^ 64

instance (delay : ℕ) (steps : List TimeStampedStep) : Decidable (DelayFits delay steps) :=
  List.decidableBAll _ _

theorem tick_getElem_shapeAxis {delay : ℕ} {steps : List TimeStampedStep}
    (hfits : DelayFits delay steps) {i : ℕ} (hi : i < (shapeAxis .exact delay steps).length)
    (hi' : i < steps.length) :
    (shapeAxis .exact delay steps)[i].tickTimestamp =
      if i < ⌊(steps.length : ℚ) * a1⌋₊ then ⌊(steps[i].tickTimestamp : ℚ) / a1⌋₊
      else ⌊(steps[i].tickTimestamp : ℚ) / a2⌋₊ + delay := by
  rw [← Nat.mod_eq_of_lt (hfits _ (List.getElem_mem hi'))]
  refine (congrArg TimeStampedStep.tickTimestamp List.getElem_mapIdx).trans ?_
  show (ite (i < ⌊(steps.length : ℚ) * a1⌋₊) _ _ : TimeStampedStep).tickTimestamp = _
  split_ifs <;> rfl

/-- The steps of one axis stay apart. -/
theorem shapeAxis_lt {delay : ℕ} {steps : List TimeStampedStep} (hfits : DelayFits delay steps)
    (h : steps.Pairwise fun a b => a.tickTimestamp < b.tickTimestamp) :
    (shapeAxis .exact delay steps).Pairwise fun a b => a.tickTimestamp < b.tickTimestamp := by
  have hlength : (shapeAxis .exact delay steps).length = steps.length := List.length_mapIdx
  rw [List.pairwise_iff_getElem] at h ⊢
  intro i j hi hj hij
  have hi' : i < steps.length := hlength ▸ hi
  have hj' : j < steps.length := hlength ▸ hj
  have hlt := h i j hi' hj' hij
  have h1 := floor_div_lt (a := a1) (by norm_num [a1]) (by norm_num [a1]) hlt
  have h2 := floor_div_lt (a := a2) (by norm_num [a2]) (by norm_num [a2]) hlt
  have h12 := floor_div_a1_le steps[i].tickTimestamp
  rw [tick_getElem_shapeAxis hfits hi hi', tick_getElem_shapeAxis hfits hj hj']
  split_ifs <;> omega

/-- The delayed times of both axes fit into `uint64`. -/
def TimesFit (rawSteps : List TimeStampedStep) : Prop :=
  DelayFits xDelayTicks (axisSteps rawSteps 0x01) ∧ DelayFits yDelayTicks (axisSteps rawSteps 0x02)

instance (rawSteps : List TimeStampedStep) : Decidable (TimesFit rawSteps) :=
  inferInstanceAs (Decidable (_ ∧ _))

/-- Two steps with one pin never land on one tick. -/
theorem shaped_ne {rawSteps : List TimeStampedStep} (hfits : TimesFit rawSteps)
    (h : rawSteps.Pairwise fun a b => a.pinMask = b.pinMask → a.tickTimestamp < b.tickTimestamp) :
    (shaped .exact rawSteps).Pairwise fun a b =>
      a.pinMask = b.pinMask → a.tickTimestamp ≠ b.tickTimestamp := by
  have haxis : ∀ mask, (axisSteps rawSteps mask).Pairwise fun a b =>
      a.tickTimestamp < b.tickTimestamp := by
    intro mask
    refine (List.Pairwise.filter _ h).imp_of_mem fun ha hb hab => hab ?_
    have hma := of_decide_eq_true (List.mem_filter.1 ha).2
    have hmb := of_decide_eq_true (List.mem_filter.1 hb).2
    rw [hma, hmb]
  refine List.pairwise_append.2 ⟨?_, ?_, fun a ha b hb heq => ?_⟩
  · refine (shapeAxis_lt hfits.1 (haxis 0x01)).imp ?_
    intro a b hlt _
    exact hlt.ne
  · refine (shapeAxis_lt hfits.2 (haxis 0x02)).imp ?_
    intro a b hlt _
    exact hlt.ne
  · rw [pinMask_of_mem_shapeAxis _ _ ha, pinMask_of_mem_shapeAxis _ _ hb] at heq
    exact absurd heq (by decide)

/-! ## Counting pulses -/

/-- A bit of the output port that only the mask `mask` of an axis has. -/
structure AxisBit (bit : BitVec 8 → Bool) (mask : BitVec 8) : Prop where
  or : ∀ a b, bit (a ||| b) = (bit a || bit b)
  iff : ∀ m, m = 0x01 ∨ m = 0x02 → (bit m = true ↔ m = mask)
  mask : mask = 0x01 ∨ mask = 0x02

theorem axisBit_x : AxisBit xBit 0x01 where
  or _ _ := BitVec.getLsbD_or
  iff m hm := by rcases hm with rfl | rfl <;> decide
  mask := .inl rfl

theorem axisBit_y : AxisBit yBit 0x02 where
  or _ _ := BitVec.getLsbD_or
  iff m hm := by rcases hm with rfl | rfl <;> decide
  mask := .inr rfl

section

variable {bit : BitVec 8 → Bool} {mask : BitVec 8} (hbit : AxisBit bit mask)

include hbit

theorem countP_shapeAxis (ar : TickArith) (delay : ℕ) (rawSteps : List TimeStampedStep)
    {m : BitVec 8} (hm : m = 0x01 ∨ m = 0x02) :
    (shapeAxis ar delay (axisSteps rawSteps m)).countP (fun step => bit step.pinMask) =
      if m = mask then rawSteps.countP fun step => step.pinMask = mask else 0 := by
  split_ifs with heq
  · subst heq
    have hall : ∀ step ∈ shapeAxis ar delay (axisSteps rawSteps m), bit step.pinMask = true := by
      intro step hstep
      rw [pinMask_of_mem_shapeAxis ar rawSteps hstep]
      exact (hbit.iff m hm).2 rfl
    rw [List.countP_eq_length.2 hall, shapeAxis, List.length_mapIdx, axisSteps,
      List.countP_eq_length_filter]
  · refine List.countP_eq_zero.2 fun step hstep hset => heq ?_
    rw [pinMask_of_mem_shapeAxis ar rawSteps hstep] at hset
    exact (hbit.iff m hm).1 hset

theorem countP_shaped (ar : TickArith) (rawSteps : List TimeStampedStep) :
    (shaped ar rawSteps).countP (fun step => bit step.pinMask) =
      rawSteps.countP fun step => step.pinMask = mask := by
  unfold shaped
  rw [List.countP_append, countP_shapeAxis hbit ar _ rawSteps (.inl rfl),
    countP_shapeAxis hbit ar _ rawSteps (.inr rfl)]
  rcases hbit.mask with rfl | rfl
  · rw [if_pos rfl, if_neg (by decide), Nat.add_zero]
  · rw [if_neg (by decide), if_pos rfl, Nat.zero_add]

theorem countP_shapedGroups (sort : SortSlice) {rawSteps : List TimeStampedStep}
    (hfits : TimesFit rawSteps)
    (h : rawSteps.Pairwise fun a b => a.pinMask = b.pinMask → a.tickTimestamp < b.tickTimestamp) :
    (shapedGroups .exact sort rawSteps).countP (fun step => bit step.pinMask) =
      rawSteps.countP fun step => step.pinMask = mask := by
  have hperm := sort.perm (shaped .exact rawSteps)
  -- the sort may reorder, but being on different ticks does not depend on the order
  have hne := hperm.symm.pairwise (shaped_ne hfits h) fun hab heq => (hab heq.symm).symm
  rw [shapedGroups, countP_coalesce tickTimestamp_mergeSteps (fun a b => hbit.or _ _) ?_,
    hperm.countP_eq, countP_shaped hbit]
  refine hne.imp_of_mem fun {a b} ha hb hab hpa hpb => hab ?_
  have hma := pinMask_of_mem_shaped .exact rawSteps (hperm.mem_iff.1 ha)
  have hmb := pinMask_of_mem_shaped .exact rawSteps (hperm.mem_iff.1 hb)
  rw [(hbit.iff _ hma).1 hpa, (hbit.iff _ hmb).1 hpb]

/-- Each group has one command with its step bits, the pulse high. -/
theorem countP_pulses {dirMask : BitVec 8} (hdir : bit dirMask = false) (lastTick : ℕ)
    (groups : List TimeStampedStep) :
    ((pulses dirMask lastTick groups).flatMap Prod.snd).countP
        (fun command => bit command.stepPins) =
      groups.countP fun group => bit group.pinMask := by
  induction groups generalizing lastTick with
  | nil => rfl
  | cons group groups ih =>
    have hhigh : bit (group.pinMask ||| dirMask) = bit group.pinMask := by
      rw [hbit.or, hdir, Bool.or_false]
    have hpulse : (pulse dirMask lastTick group).countP (fun command => bit command.stepPins) =
        if bit group.pinMask = true then 1 else 0 := by
      unfold pulse
      rw [List.countP_append, List.countP_cons, List.countP_cons, List.countP_nil, hhigh, hdir]
      split_ifs <;> simp_all
    rw [pulses, List.flatMap_cons, List.countP_append, ih, List.countP_cons, hpulse, Nat.add_comm]

end

/-! ## Direction bits -/

theorem forall_pulse {P : BitVec 8 → Prop} {dirMask : BitVec 8} {lastTick : ℕ}
    {group : TimeStampedStep} (hlow : P dirMask) (hhigh : P (group.pinMask ||| dirMask)) :
    ∀ command ∈ pulse dirMask lastTick group, P command.stepPins := by
  intro command hmem
  rcases List.mem_append.1 hmem with hlong | hhalves
  · split_ifs at hlong
    · rw [List.mem_singleton.1 hlong]
      exact hlow
    · cases hlong
  · rcases List.mem_pair.1 hhalves with rfl | rfl
    · exact hhigh
    · exact hlow

/-- Beside the two step bits, every command has exactly the bits of `dirMask`. -/
theorem direction_pulses {dirMask : BitVec 8} (hdir : dirMask &&& ~~~0x03 = dirMask)
    {lastTick : ℕ} {groups : List TimeStampedStep}
    (hgroups : ∀ group ∈ groups, group.pinMask &&& ~~~0x03 = 0) :
    ∀ command ∈ (pulses dirMask lastTick groups).flatMap Prod.snd,
      command.stepPins &&& ~~~0x03 = dirMask := by
  induction groups generalizing lastTick with
  | nil =>
    intro command hmem
    cases hmem
  | cons group groups ih =>
    rw [List.forall_mem_cons] at hgroups
    have hhigh : (group.pinMask ||| dirMask) &&& ~~~0x03 = dirMask := by
      rw [BitVec.and_or_distrib_right, hgroups.1, hdir]
      exact BitVec.zero_or
    rw [pulses, List.flatMap_cons, List.forall_mem_append]
    exact ⟨forall_pulse (P := fun pins => pins &&& ~~~0x03 = dirMask) hdir hhigh, ih hgroups.2⟩

/-! ## Main result -/

/-- For every list of steps whose timestamps increase strictly within each axis, as long as
    the delayed times fit into `uint64`, and every sort: one command with the X bit for each
    X step, one with the Y bit for each Y step, and beside the two step bits every command
    has exactly `dirMask`. -/
theorem shaper_step_conservation (sort : SortSlice) {rawSteps : List TimeStampedStep}
    {dirMask : BitVec 8} (hfits : TimesFit rawSteps)
    (hlt : rawSteps.Pairwise fun a b => a.pinMask = b.pinMask → a.tickTimestamp < b.tickTimestamp)
    (hdir : dirMask &&& ~~~0x0C = 0) :
    let commands := applyIndependentDualAxisShaper .exact sort rawSteps dirMask
    commands.countP (fun command => xBit command.stepPins) =
        rawSteps.countP (fun step => step.pinMask = 0x01) ∧
      commands.countP (fun command => yBit command.stepPins) =
        rawSteps.countP (fun step => step.pinMask = 0x02) ∧
      ∀ command ∈ commands, command.stepPins &&& ~~~0x03 = dirMask := by
  have hpins : xBit dirMask = false ∧ yBit dirMask = false ∧ dirMask &&& ~~~0x03 = dirMask := by
    decide +revert
  have hgroups : ∀ group ∈ shapedGroups .exact sort rawSteps, group.pinMask &&& ~~~0x03 = 0 := by
    refine forall_shapedGroups (P := fun mask => mask &&& ~~~0x03 = 0) .exact sort rawSteps
      (by decide) (by decide) fun a b ha hb => ?_
    show (a ||| b) &&& ~~~0x03 = 0
    rw [BitVec.and_or_distrib_right, ha, hb]
    rfl
  refine ⟨?_, ?_, direction_pulses hpins.2.2 hgroups⟩
  · exact (countP_pulses axisBit_x hpins.1 0 _).trans (countP_shapedGroups axisBit_x sort hfits hlt)
  · exact (countP_pulses axisBit_y hpins.2.1 0 _).trans
      (countP_shapedGroups axisBit_y sort hfits hlt)

/-- Two steps of each axis, of which the last two fall on one tick of the input. -/
theorem shaper_step_conservation_two :
    (applyIndependentDualAxisShaper .exact .insertion
        [⟨13, 0x02⟩, ⟨14, 0x01⟩, ⟨100, 0x01⟩, ⟨100, 0x02⟩] 0x04).countP
          (fun command => xBit command.stepPins) = 2 :=
  (shaper_step_conservation .insertion (by decide +kernel) (by decide) (by decide)).1

/-- Two X steps. The sum of the scaled time and the delay of the second is `2^64 + 20000`;
    the first is due at 20000 too. -/
theorem shaper_loses_step :
    ¬∀ (sort : SortSlice) (rawSteps : List TimeStampedStep) (dirMask : BitVec 8),
      (∀ step ∈ rawSteps, (step.pinMask = 0x01 ∨ step.pinMask = 0x02) ∧
        step.tickTimestamp < 2 ^ 64) →
      (rawSteps.Pairwise fun a b => a.pinMask = b.pinMask → a.tickTimestamp < b.tickTimestamp) →
      dirMask &&& ~~~0x0C = 0 →
      (applyIndependentDualAxisShaper .exact sort rawSteps dirMask).countP
          (fun command => xBit command.stepPins) =
        rawSteps.countP (fun step => step.pinMask = 0x01) := by
  intro h
  have hcount := h .insertion [⟨10400, 0x01⟩, ⟨8854437155380484662, 0x01⟩] 0 (by decide)
    (by decide) (by decide)
  exact absurd hcount (by decide +kernel)

end Esp32Embroidery.Shaper
