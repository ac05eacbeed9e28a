import Esp32Embroidery.Motor.SharedSpindle

/-!
# Stopping the shared spindle

Each controller stops the motor from its own callback: the ADRC controller while
`spindle_on` is set, the linear one while `linear_motor_on` is set and it is
enabled. Switching controllers changes the enable flags and leaves the PWM
alone.

Results:
* `stopInv_reachable`: a duty above idle is remembered by one of the on-flags.
* `shared_output_stops`: after a stop at both controllers and a callback of each,
  the duty is at most the idle duty exactly when it already was, the ADRC
  spindle was on or the linear motor was enabled.
* `shared_output_keeps_turning`: a stop that no controller carries out.
-/

namespace Esp32Embroidery.Motor

open Esp32Embroidery.Lib

variable {F : Type*} [CFloat F]

/-! ## On-flags and the duty -/

/-- The last duty written is at most that of the idle voltage. -/
def AtMostIdle (duty : Option ℕ) : Prop := ∀ d ∈ duty, d ≤ dutyOfUv lmConfig.idleUv

instance (duty : Option ℕ) : Decidable (AtMostIdle duty) :=
  inferInstanceAs (Decidable (∀ d ∈ duty, d ≤ dutyOfUv lmConfig.idleUv))

/-- A duty above idle is remembered by an on-flag, and so is a target of the linear
    motor. -/
structure StopInv (s : Spindle F) : Prop where
  driven : AtMostIdle s.duty ∨ s.adrc.spindleOn = true ∨ s.linear.on = true
  linearOn : s.linear.targetRpm ≠ 0 → s.linear.on = true

theorem atMostIdle_idle : AtMostIdle (some (dutyOfUv lmConfig.idleUv)) := by
  intro d h
  cases h
  exact le_rfl

/-- The three things the ADRC callback can do to the output. -/
theorem adrcTick_cases (s : Spindle F) (pulseCount : ℤ) :
    (s.adrc.Idle ∧ s.adrcSpindleTicker pulseCount = s) ∨
    (s.adrc.spindleOn = true ∧ AtMostIdle (s.adrcSpindleTicker pulseCount).duty) ∨
    (s.adrc.stopped = false ∧ (s.adrcSpindleTicker pulseCount).adrc.spindleOn = true) := by
  unfold Spindle.adrcSpindleTicker
  cases hstop : s.adrc.stopped with
  | false =>
    rw [ticker_control _ _ hstop]
    exact .inr (.inr ⟨rfl, rfl⟩)
  | true =>
    cases hon : s.adrc.spindleOn with
    | false =>
      rw [ticker_idle _ _ ⟨hstop, hon⟩]
      exact .inl ⟨⟨hstop, hon⟩, rfl⟩
    | true =>
      rw [ticker_stop _ _ hstop hon]
      refine .inr (.inl ⟨rfl, ?_⟩)
      intro d h
      cases h
      exact Nat.zero_le _

/-- What `take_sample` can do to the output while the target is 0. -/
theorem sample_cases (s : Spindle F) (pulseCount : ℤ) (h0 : s.linear.targetRpm = 0) :
    (s.linear.enabled = false ∧ s.takeSample pulseCount = s) ∨
    (s.linear.enabled = true ∧ AtMostIdle (s.takeSample pulseCount).duty) ∨
    (s.linear.on = false ∧ (s.takeSample pulseCount).duty = s.duty ∧
      (s.takeSample pulseCount).linear.on = false) := by
  unfold Spindle.takeSample
  cases hen : s.linear.enabled with
  | false =>
    rw [takeSample_disabled _ _ hen]
    exact .inl ⟨rfl, rfl⟩
  | true =>
    cases hon : s.linear.on with
    | false =>
      rw [takeSample_off _ _ hen h0 hon]
      exact .inr (.inr ⟨rfl, rfl, hon⟩)
    | true =>
      rw [takeSample_stop _ _ hen h0 hon]
      exact .inr (.inl ⟨rfl, atMostIdle_idle⟩)

theorem StopInv.setAdrc {s : Spindle F} (h : StopInv s) (rpm : F) :
    StopInv (s.setAdrcSpindleSpeed rpm) := by
  have hon := (setAdrcSpindleSpeed_target s rpm).1
  have hduty : (s.setAdrcSpindleSpeed rpm).duty = s.duty := by
    simp only [Spindle.setAdrcSpindleSpeed]
    split_ifs <;> rfl
  obtain ⟨enabled, hlin⟩ := exists_setAdrcSpindleSpeed_linear s rpm
  constructor
  · rw [hduty, hon, hlin]
    exact h.driven
  · rw [hlin]
    exact h.linearOn

theorem StopInv.setLinear {s : Spindle F} (h : StopInv s) (targetRpm : ℤ) :
    StopInv (s.linearMotorSetRpm targetRpm) := by
  obtain ⟨hon, hpos⟩ := linearMotorSetRpm_on s targetRpm
  have hduty : (s.linearMotorSetRpm targetRpm).duty = s.duty := by
    simp only [Spindle.linearMotorSetRpm]
    split_ifs <;> rfl
  have hspin : (s.linearMotorSetRpm targetRpm).adrc.spindleOn = s.adrc.spindleOn := by
    rw [linearMotorSetRpm_adrc]
    split_ifs <;> rfl
  refine ⟨?_, hpos⟩
  rw [hduty, hspin]
  exact h.driven.imp_right (Or.imp_right hon)

theorem StopInv.adrcTick {s : Spindle F} (h : StopInv s) (pulseCount : ℤ) :
    StopInv (s.adrcSpindleTicker pulseCount) := by
  refine ⟨?_, h.linearOn⟩
  rcases adrcTick_cases s pulseCount with ⟨-, heq⟩ | ⟨-, hquiet⟩ | ⟨-, hon⟩
  · rw [heq]
    exact h.driven
  · exact .inl hquiet
  · exact .inr (.inl hon)

theorem StopInv.sample {s : Spindle F} (h : StopInv s) (pulseCount : ℤ) :
    StopInv (s.takeSample pulseCount) := by
  have hkeep := takeSample_keeps s.linear pulseCount
  by_cases h0 : s.linear.targetRpm = 0
  · refine ⟨?_, fun hne => absurd (hkeep.1.trans h0) hne⟩
    rcases sample_cases s pulseCount h0 with ⟨-, heq⟩ | ⟨-, hquiet⟩ | ⟨hoff, hduty, -⟩
    · rw [heq]
      exact h.driven
    · exact .inl hquiet
    · -- it was off, so the output was already idle or the ADRC's
      have hdriven := h.driven
      rw [hoff] at hdriven
      rw [hduty]
      exact hdriven.imp_right (Or.imp_right (by intro h; cases h))
  · have hon : (s.takeSample pulseCount).linear.on = true := (hkeep.2.2 h0).trans (h.linearOn h0)
    exact ⟨.inr (.inr hon), fun _ => hon⟩

theorem StopInv.next {s : Spindle F} (h : StopInv s) (e : SpindleEvent F) : StopInv (s.next e) := by
  cases e with
  | setAdrc rpm => exact h.setAdrc rpm
  | setLinear targetRpm => exact h.setLinear targetRpm
  | adrcTick pulseCount => exact h.adrcTick pulseCount
  | sample pulseCount => exact h.sample pulseCount
  | trim =>
    refine ⟨.inl ?_, h.linearOn⟩
    intro d h
    cases h
    decide
  | trimDone =>
    refine ⟨.inl ?_, h.linearOn⟩
    intro d h
    cases h
    decide

theorem stopInv_init : StopInv (Spindle.init : Spindle F) where
  driven := .inl (by intro d h; cases h)
  linearOn hne := absurd rfl hne

theorem stopInv_reachable {s : Spindle F} (h : (spindleTasks F).Reachable s) : StopInv s :=
  h.invariant stopInv_init (by
    rintro s e _ - hs ⟨⟩ -
    exact hs.next e)

/-! ## Callbacks after a stop -/

/-- The events that are callbacks. -/
inductive IsTick : SpindleEvent F → Prop
  | adrcTick (pulseCount : ℤ) : IsTick (.adrcTick pulseCount)
  | sample (pulseCount : ℤ) : IsTick (.sample pulseCount)

/-- Both controllers have been told to stop. -/
def Spindle.StopSet (s : Spindle F) : Prop := s.adrc.stopped = true ∧ s.linear.targetRpm = 0

/-- What a callback changes after a stop. -/
theorem tick_keeps {s : Spindle F} {e : SpindleEvent F} (he : IsTick e) (h : s.StopSet) :
    (s.next e).StopSet ∧ (s.next e).linear.enabled = s.linear.enabled ∧
      (AtMostIdle s.duty → AtMostIdle (s.next e).duty) := by
  cases he with
  | adrcTick pulseCount =>
    refine ⟨⟨?_, h.2⟩, rfl, fun hquiet => ?_⟩
    · show CFloat.le (s.adrc.ticker pulseCount).1.targetRpm _ = true
      rw [(ticker_keeps s.adrc pulseCount).1]
      exact h.1
    · show AtMostIdle (s.adrcSpindleTicker pulseCount).duty
      rcases adrcTick_cases s pulseCount with ⟨-, heq⟩ | ⟨-, hquiet'⟩ | ⟨hrun, -⟩
      · rw [heq]; exact hquiet
      · exact hquiet'
      · rw [h.1] at hrun; cases hrun
  | sample pulseCount =>
    obtain ⟨htarget, hen, -⟩ := takeSample_keeps s.linear pulseCount
    refine ⟨⟨h.1, htarget.trans h.2⟩, hen, fun hquiet => ?_⟩
    show AtMostIdle (s.takeSample pulseCount).duty
    rcases sample_cases s pulseCount h.2 with ⟨-, heq⟩ | ⟨-, hquiet'⟩ | ⟨-, hduty, -⟩
    · rw [heq]; exact hquiet
    · exact hquiet'
    · rw [hduty]; exact hquiet

/-- A callback of the ADRC controller that still turns the spindle writes 0. -/
theorem adrcTick_quiet {s : Spindle F} (h : s.StopSet)
    (hon : AtMostIdle s.duty ∨ s.adrc.spindleOn = true) (pulseCount : ℤ) :
    AtMostIdle (s.next (.adrcTick pulseCount)).duty := by
  rcases hon with hquiet | hon
  · exact (tick_keeps (.adrcTick pulseCount) h).2.2 hquiet
  · rcases adrcTick_cases s pulseCount with ⟨hidle, -⟩ | ⟨-, hquiet⟩ | ⟨hrun, -⟩
    · rw [hidle.2] at hon; cases hon
    · exact hquiet
    · rw [h.1] at hrun; cases hrun

/-- A callback of the enabled linear controller that is still on writes idle. -/
theorem sample_quiet {s : Spindle F} (h : s.StopSet) (hen : s.linear.enabled = true)
    (hon : AtMostIdle s.duty ∨ s.linear.on = true) (pulseCount : ℤ) :
    AtMostIdle (s.next (.sample pulseCount)).duty := by
  rcases hon with hquiet | hon
  · exact (tick_keeps (.sample pulseCount) h).2.2 hquiet
  · rcases sample_cases s pulseCount h.2 with ⟨hoff, -⟩ | ⟨-, hquiet⟩ | ⟨hoff, -⟩
    · rw [hen] at hoff; cases hoff
    · exact hquiet
    · rw [hon] at hoff; cases hoff


/-! ## Runs of callbacks after a stop -/

section Run

variable {s t : Spindle F} {ticks : List (SpindleEvent F)}

/-- A duty of at most idle stays so. -/
theorem quiet_step (hticks : ∀ e ∈ ticks, IsTick e) (u : Spindle F) (e : SpindleEvent F)
    (he : e ∈ ticks) (v : Spindle F) (hu : u.StopSet ∧ AtMostIdle u.duty)
    (huv : (spindleTasks F).step u e = some v) : v.StopSet ∧ AtMostIdle v.duty := by
  cases huv
  obtain ⟨hv, -, hkeep⟩ := tick_keeps (hticks e he) hu.1
  exact ⟨hv, hkeep hu.2⟩

/-- While `spindle_on` is set, the next callback of the ADRC controller writes 0. -/
theorem quiet_of_spindleOn (hstop : s.StopSet) (hticks : ∀ e ∈ ticks, IsTick e) {p : ℤ}
    (hadrc : .adrcTick p ∈ ticks) (hrun : (spindleTasks F).run s ticks = some t)
    (hon : AtMostIdle s.duty ∨ s.adrc.spindleOn = true) : AtMostIdle t.duty := by
  refine (Machine.run_establishes
    (I := fun u => u.StopSet ∧ (AtMostIdle u.duty ∨ u.adrc.spindleOn = true))
    (Q := fun u => u.StopSet ∧ AtMostIdle u.duty) hadrc ?_ (quiet_step hticks) ?_
    ⟨hstop, hon⟩ hrun).2
  · rintro u e he _ ⟨hu, hon⟩ ⟨⟩
    obtain ⟨hv, -, hkeep⟩ := tick_keeps (hticks e he) hu
    refine ⟨hv, ?_⟩
    cases hticks e he with
    | adrcTick p => exact .inl (adrcTick_quiet hu hon p)
    | sample p => exact hon.imp_left hkeep
  · rintro u _ ⟨hu, hon⟩ ⟨⟩
    exact ⟨(tick_keeps (.adrcTick p) hu).1, adrcTick_quiet hu hon p⟩

/-- While the linear motor is enabled and on, its next callback writes idle. -/
theorem quiet_of_linearOn (hstop : s.StopSet) (hticks : ∀ e ∈ ticks, IsTick e) {p : ℤ}
    (hlinear : .sample p ∈ ticks) (hrun : (spindleTasks F).run s ticks = some t)
    (hen : s.linear.enabled = true) (hon : AtMostIdle s.duty ∨ s.linear.on = true) :
    AtMostIdle t.duty := by
  refine (Machine.run_establishes
    (I := fun u => u.StopSet ∧ u.linear.enabled = true ∧
      (AtMostIdle u.duty ∨ u.linear.on = true))
    (Q := fun u => u.StopSet ∧ AtMostIdle u.duty) hlinear ?_ (quiet_step hticks) ?_
    ⟨hstop, hen, hon⟩ hrun).2
  · rintro u e he _ ⟨hu, hen, hon⟩ ⟨⟩
    obtain ⟨hv, hen', hkeep⟩ := tick_keeps (hticks e he) hu
    refine ⟨hv, hen'.trans hen, ?_⟩
    cases hticks e he with
    | adrcTick p => exact hon.imp_left hkeep
    | sample p => exact .inl (sample_quiet hu hen hon p)
  · rintro u _ ⟨hu, hen, hon⟩ ⟨⟩
    exact ⟨(tick_keeps (.sample p) hu).1, sample_quiet hu hen hon p⟩

/-- With `spindle_on` clear and the linear motor disabled, no callback does anything. -/
theorem stuck_of_off (hstop : s.StopSet) (hticks : ∀ e ∈ ticks, IsTick e)
    (hrun : (spindleTasks F).run s ticks = some t) (hspin : s.adrc.spindleOn = false)
    (hen : s.linear.enabled = false) : t = s := by
  have hfix : ∀ e ∈ ticks, s.next e = s := by
    intro e he
    cases hticks e he with
    | adrcTick p =>
      show s.adrcSpindleTicker p = s
      unfold Spindle.adrcSpindleTicker
      rw [ticker_idle _ _ ⟨hstop.1, hspin⟩]
      rfl
    | sample p =>
      show s.takeSample p = s
      unfold Spindle.takeSample
      rw [takeSample_disabled _ _ hen]
      rfl
  refine Machine.run_invariant (I := fun u => u = s) ?_ rfl hrun
  rintro u e he v hu ⟨⟩
  rw [hu]
  exact hfix e he

/-! ## Main result -/

/-- A stop at both controllers (both targets 0) followed by callbacks only, at least
    one of each controller: the last duty written is at most the idle duty exactly
    when it already was at the stop, or `spindle_on` was set, or the linear motor
    was enabled. -/
theorem shared_output_stops (h : (spindleTasks F).Reachable s) (hstop : s.StopSet)
    (hticks : ∀ e ∈ ticks, IsTick e) {p q : ℤ} (hadrc : .adrcTick p ∈ ticks)
    (hlinear : .sample q ∈ ticks) (hrun : (spindleTasks F).run s ticks = some t) :
    AtMostIdle t.duty ↔
      AtMostIdle s.duty ∨ s.adrc.spindleOn = true ∨ s.linear.enabled = true := by
  constructor
  · intro hquiet
    by_contra hno
    push Not at hno
    obtain ⟨hduty, hspin, hen⟩ := hno
    have hsame : t = s := stuck_of_off hstop hticks hrun (by simpa using hspin) (by simpa using hen)
    rw [hsame] at hquiet
    exact hduty hquiet
  · rintro (hquiet | hspin | hen)
    · exact quiet_of_spindleOn hstop hticks hadrc hrun (.inl hquiet)
    · exact quiet_of_spindleOn hstop hticks hadrc hrun (.inr hspin)
    · rcases (stopInv_reachable h).driven with hquiet | hspin | hon
      · exact quiet_of_spindleOn hstop hticks hadrc hrun (.inl hquiet)
      · exact quiet_of_spindleOn hstop hticks hadrc hrun (.inr hspin)
      · exact quiet_of_linearOn hstop hticks hlinear hrun hen (.inr hon)

end Run

/-- The callbacks after a stop. -/
def stopTicks : List (SpindleEvent ℚ) := [.adrcTick 0, .sample 0]

theorem isTick_stopTicks : ∀ e ∈ stopTicks, IsTick e := by
  intro e he
  rcases List.mem_pair.1 he with rfl | rfl
  · exact .adrcTick 0
  · exact .sample 0

/-- The linear motor turns and is stopped. -/
theorem shared_output_stops_linear :
    ∃ s t, (spindleTasks ℚ).run .init [.setLinear 1000, .sample 0, .setLinear 0] = some s ∧
      (spindleTasks ℚ).run s stopTicks = some t ∧ ¬ AtMostIdle s.duty ∧ AtMostIdle t.duty := by
  obtain ⟨s, hrun, hs, hv⟩ := (spindleTasks ℚ).exists_reachable
    [.setLinear 1000, .sample 0, .setLinear 0]
    (fun s => (s.adrc.stopped, s.linear.targetRpm, s.linear.enabled, decide (AtMostIdle s.duty)))
    (v := (true, 0, true, false)) (by decide +kernel)
  simp only [Prod.mk.injEq, decide_eq_false_iff_not] at hv
  obtain ⟨hstop, htarget, hen, hduty⟩ := hv
  refine ⟨s, _, hrun, rfl, hduty, ?_⟩
  exact (shared_output_stops hs ⟨hstop, htarget⟩ isTick_stopTicks (p := 0) (q := 0) (by simp
    [stopTicks]) (by simp [stopTicks]) rfl).2 (.inr (.inr hen))

/-- The linear motor turns, the ADRC controller takes over, and both are stopped
    before its first callback: nobody writes the PWM again. -/
theorem shared_output_keeps_turning :
    ¬ ∀ s t, (spindleTasks ℚ).Reachable s → s.StopSet →
      (spindleTasks ℚ).run s stopTicks = some t → AtMostIdle t.duty := by
  intro h
  obtain ⟨s, -, hs, hv⟩ := (spindleTasks ℚ).exists_reachable
    [.setLinear 1000, .sample 0, .setAdrc 500, .setLinear 0, .setAdrc 0]
    (fun s => (s.adrc.stopped, s.linear.targetRpm, s.linear.enabled, s.adrc.spindleOn,
      decide (AtMostIdle s.duty))) (v := (true, 0, false, false, false)) (by decide +kernel)
  simp only [Prod.mk.injEq, decide_eq_false_iff_not] at hv
  obtain ⟨hstop, htarget, hen, hspin, hduty⟩ := hv
  have hquiet := h s _ hs ⟨hstop, htarget⟩ rfl
  rw [stuck_of_off ⟨hstop, htarget⟩ isTick_stopTicks rfl hspin hen] at hquiet
  exact hduty hquiet

end Esp32Embroidery.Motor
