import Esp32Embroidery.Shaper.DualAxis

/-!
# The waits of the shaper

The loop of `applyIndependentDualAxisShaper` splits the time since the group before into
two equal halves, `deltaTicks / 2` each, so an odd tick is lost. The guard for long gaps
takes off `MaxUint32` once.

Main results:

* `shaper_time_conserved_iff`: the waits add up to the timestamp of every group iff
  every gap between the times at which steps are due can be split in this way.
* `shaper_pulses_wide_iff`: every command with a step bit has a wait iff no gap is halved
  to nothing.
-/

namespace Esp32Embroidery.Shaper

/-- The cumulative sum of `WaitTicks`. -/
def totalTicks (commands : List BinaryCommand) : ℕ :=
  (commands.map fun command => command.waitTicks.toNat).sum

/-- At the end of each group, `elapsed` ticks into the move, its timestamp is reached. -/
def Conserved : ℕ → List (TimeStampedStep × List BinaryCommand) → Prop
  | _, [] => True
  | elapsed, (group, commands) :: blocks =>
    elapsed + totalTicks commands = group.tickTimestamp ∧
      Conserved (elapsed + totalTicks commands) blocks

instance decidableConserved :
    ∀ (elapsed : ℕ) (blocks : List (TimeStampedStep × List BinaryCommand)),
      Decidable (Conserved elapsed blocks)
  | _, [] => .isTrue trivial
  | elapsed, (group, commands) :: blocks =>
    have := decidableConserved (elapsed + totalTicks commands) blocks
    inferInstanceAs (Decidable (elapsed + totalTicks commands = group.tickTimestamp ∧ _))

/-- The times between one tick and the next. -/
def gaps : ℕ → List ℕ → List ℕ
  | _, [] => []
  | lastTick, tick :: ticks => (tick - lastTick) :: gaps tick ticks

/-- A gap that the two halves, behind one wait of `MaxUint32` if it is long, make up. -/
def GapExact (gap : ℕ) : Prop :=
  if maxUint32 < gap then gap % 2 = 1 ∧ gap ≤ 3 * maxUint32 else gap % 2 = 0

/-- A gap with halves of at least one tick, in `uint32`. -/
def GapWide (gap : ℕ) : Prop :=
  if maxUint32 < gap then 2 ≤ (gap - maxUint32) % 2 ^ 33 else 2 ≤ gap

instance (gap : ℕ) : Decidable (GapExact gap) := inferInstanceAs (Decidable (ite _ _ _))

instance (gap : ℕ) : Decidable (GapWide gap) := inferInstanceAs (Decidable (ite _ _ _))

/-! ## One group -/

theorem maxUint32_eq : maxUint32 = 4294967295 := by norm_num [maxUint32]

theorem totalTicks_nil : totalTicks [] = 0 := rfl

theorem totalTicks_cons (pins : BitVec 8) (wait : ℕ) (commands : List BinaryCommand) :
    totalTicks (⟨pins, BitVec.ofNat 32 wait⟩ :: commands) =
      wait % 2 ^ 32 + totalTicks commands := by
  rw [totalTicks, List.map_cons, List.sum_cons, BitVec.toNat_ofNat, totalTicks]

section

variable (dirMask : BitVec 8) (lastTick : ℕ) (group : TimeStampedStep)

theorem totalTicks_pulse_eq_iff (h : lastTick ≤ group.tickTimestamp) :
    lastTick + totalTicks (pulse dirMask lastTick group) = group.tickTimestamp ↔
      GapExact (group.tickTimestamp - lastTick) := by
  obtain ⟨gap, hgap⟩ := Nat.exists_eq_add_of_le h
  rw [hgap, Nat.add_sub_cancel_left]
  unfold pulse GapExact
  rw [hgap, Nat.add_sub_cancel_left]
  have hmax := maxUint32_eq
  by_cases hlong : maxUint32 < gap
  · simp only [if_pos hlong]
    rw [List.singleton_append, totalTicks_cons, totalTicks_cons, totalTicks_cons, totalTicks_nil]
    omega
  · simp only [if_neg hlong]
    rw [List.nil_append, totalTicks_cons, totalTicks_cons, totalTicks_nil]
    omega

/-- A group has a step bit, and both its halves have the same wait. -/
theorem forall_pulse_iff (h : xBit group.pinMask = true ∨ yBit group.pinMask = true) :
    (∀ command ∈ pulse dirMask lastTick group,
      xBit command.stepPins = true ∨ yBit command.stepPins = true → 1 ≤ command.waitTicks.toNat) ↔
      GapWide (group.tickTimestamp - lastTick) := by
  have hhigh : xBit (group.pinMask ||| dirMask) = true ∨
      yBit (group.pinMask ||| dirMask) = true := by
    unfold xBit yBit at h ⊢
    rw [BitVec.getLsbD_or, BitVec.getLsbD_or, Bool.or_eq_true, Bool.or_eq_true]
    exact h.imp .inl .inl
  unfold pulse GapWide
  generalize group.tickTimestamp - lastTick = gap
  have hmax := maxUint32_eq
  have hnil : ∀ command ∈ ([] : List BinaryCommand),
      xBit command.stepPins = true ∨ yBit command.stepPins = true →
        1 ≤ command.waitTicks.toNat := by
    intro command hmem
    cases hmem
  by_cases hlong : maxUint32 < gap
  · simp only [if_pos hlong, List.cons_append, List.nil_append, List.forall_mem_cons,
      BitVec.toNat_ofNat]
    constructor
    · intro ⟨_, hall, _⟩
      have := hall hhigh
      omega
    · intro hwide
      exact ⟨fun _ => by omega, fun _ => by omega, fun _ => by omega, hnil⟩
  · simp only [if_neg hlong, List.nil_append, List.forall_mem_cons, BitVec.toNat_ofNat]
    constructor
    · intro ⟨hall, _⟩
      have := hall hhigh
      omega
    · intro hwide
      exact ⟨fun _ => by omega, fun _ => by omega, hnil⟩

end

/-! ## All groups -/

section

variable {dirMask : BitVec 8} {lastTick : ℕ} {groups : List TimeStampedStep}

theorem conserved_pulses_iff
    (hlt : groups.Pairwise fun a b => a.tickTimestamp < b.tickTimestamp)
    (hlast : ∀ group ∈ groups, lastTick ≤ group.tickTimestamp) :
    Conserved lastTick (pulses dirMask lastTick groups) ↔
      ∀ gap ∈ gaps lastTick (groups.map TimeStampedStep.tickTimestamp), GapExact gap := by
  induction groups generalizing lastTick with
  | nil => simp [pulses, Conserved, gaps]
  | cons group groups ih =>
    obtain ⟨hfirst, hrest⟩ := List.pairwise_cons.1 hlt
    have hpulse := totalTicks_pulse_eq_iff dirMask lastTick group
      (hlast group List.mem_cons_self)
    have hgroups := ih hrest fun next hnext => (hfirst next hnext).le
    rw [pulses, Conserved, List.map_cons, gaps, List.forall_mem_cons, ← hpulse]
    refine and_congr_right fun heq => ?_
    rw [heq]
    exact hgroups

theorem forall_pulses_iff
    (hbit : ∀ group ∈ groups, xBit group.pinMask = true ∨ yBit group.pinMask = true) :
    (∀ command ∈ (pulses dirMask lastTick groups).flatMap Prod.snd,
      xBit command.stepPins = true ∨ yBit command.stepPins = true → 1 ≤ command.waitTicks.toNat) ↔
      ∀ gap ∈ gaps lastTick (groups.map TimeStampedStep.tickTimestamp), GapWide gap := by
  induction groups generalizing lastTick with
  | nil => simp [pulses, gaps]
  | cons group groups ih =>
    rw [List.forall_mem_cons] at hbit
    rw [pulses, List.flatMap_cons, List.forall_mem_append, List.map_cons, gaps,
      List.forall_mem_cons, ih hbit.2, forall_pulse_iff dirMask lastTick group hbit.1]

end

/-! ## Main results -/

/-- For every list of steps, whatever the arithmetic on times and the sort: the waits of
    the commands through each group add up to its timestamp iff every gap between the times at
    which steps are due is even, or longer than `MaxUint32`, odd and at most three times as
    long. -/
theorem shaper_time_conserved_iff (ar : TickArith) (sort : SortSlice)
    (rawSteps : List TimeStampedStep) (dirMask : BitVec 8) :
    Conserved 0 (shaperBlocks ar sort rawSteps dirMask) ↔
      ∀ gap ∈ gaps 0 (dueTicks ar rawSteps), GapExact gap := by
  rw [← tick_shapedGroups ar sort rawSteps]
  exact conserved_pulses_iff (shapedGroups_lt ar sort rawSteps) fun _ _ => Nat.zero_le _

/-- A single X step is shaped to the odd tick 228573. -/
theorem shaper_loses_tick :
    ¬Conserved 0 (shaperBlocks .exact .insertion [⟨1, 0x01⟩] 0) := by
  decide +kernel

/-- For every list of steps, whatever the arithmetic on times and the sort: every command
    with a step bit waits for at least one tick iff every gap between the times at which steps
    are due has two halves. -/
theorem shaper_pulses_wide_iff (ar : TickArith) (sort : SortSlice)
    (rawSteps : List TimeStampedStep) (dirMask : BitVec 8) :
    (∀ command ∈ applyIndependentDualAxisShaper ar sort rawSteps dirMask,
      xBit command.stepPins = true ∨ yBit command.stepPins = true → 1 ≤ command.waitTicks.toNat) ↔
      ∀ gap ∈ gaps 0 (dueTicks ar rawSteps), GapWide gap := by
  have hbit : ∀ group ∈ shapedGroups ar sort rawSteps,
      xBit group.pinMask = true ∨ yBit group.pinMask = true := by
    refine forall_shapedGroups (P := fun mask => xBit mask = true ∨ yBit mask = true) ar sort
      rawSteps (by decide) (by decide) fun a b ha _ => ?_
    unfold xBit yBit at ha ⊢
    rw [BitVec.getLsbD_or, BitVec.getLsbD_or, Bool.or_eq_true, Bool.or_eq_true]
    exact ha.imp .inl .inl
  rw [← tick_shapedGroups ar sort rawSteps]
  exact forall_pulses_iff hbit

/-- The first X step lands one tick behind the first Y step. -/
theorem shaper_zero_width_pulse :
    ¬∀ command ∈ applyIndependentDualAxisShaper .exact .insertion
        [⟨13, 0x02⟩, ⟨14, 0x01⟩, ⟨100, 0x01⟩, ⟨100, 0x02⟩] 0,
      xBit command.stepPins = true ∨ yBit command.stepPins = true →
        1 ≤ command.waitTicks.toNat := by
  decide +kernel

end Esp32Embroidery.Shaper
