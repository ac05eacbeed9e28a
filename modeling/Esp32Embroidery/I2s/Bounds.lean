import Esp32Embroidery.I2s.Fillout

/-!
# The bounds of a DMA buffer

The loop of `i2s_fillout_dma_buffer` calls `pulse_func` at index 494 at the latest. One
call of `I2SStepperPulseStart` stores at most 6 samples, which fills the buffer of 500
samples exactly.

Main result:

* `fillout_bounds`: in both drivers no sample is stored behind the end of the buffer,
  and the length of a descriptor stays within it, if `pulse_func` calls
  `I2SStepperPulseStart` at most once.
-/

namespace Esp32Embroidery.I2s

open Esp32Embroidery.Lib

/-- The calls of `I2SStepperPulseStart` in the current call of `pulse_func`. -/
def FillPc.starts : FillPc → ℕ
  | .callback _ starts => starts
  | .wait | .loop => 0

/-- `pulse_func` stores samples through `I2SStepperPulseStart` alone, called at most once. -/
def PulseStartOnce (s : Filler) (e : FillEvent) (_ : Filler) : Prop :=
  match e with
  | .push _ => False
  | .pulseStart _ => s.pc.starts = 0
  | _ => True

instance (s : Filler) : ∀ (e : FillEvent) (t : Filler), Decidable (PulseStartOnce s e t)
  | .push _, _ => .isFalse id
  | .pulseStart _, _ => inferInstanceAs (Decidable (s.pc.starts = 0))
  | .gen _, _ | .turn, _ | .ret, _ | .setPulsePeriod _, _ | .setPulseCallback _, _ | .write _ _, _
  | .setPassthrough, _ | .setStepping, _ | .reset, _ | .startPassthrough, _ => .isTrue trivial

/-- How far the buffer may be filled: a call of `pulse_func` that has stored nothing
    leaves room for 6 samples. -/
def FillPc.limit : FillPc → ℕ
  | .callback _ 0 => 494
  | .callback _ (_ + 1) | .wait | .loop => 500

theorem FillPc.limit_le (pc : FillPc) : pc.limit ≤ 500 := by
  cases pc with
  | wait => exact Nat.le_refl _
  | loop => exact Nat.le_refl _
  | callback oldRwPos starts =>
    cases starts with
    | zero => show 494 ≤ 500; omega
    | succ starts => exact Nat.le_refl _

/-- All samples are in the buffer, and there is room for those to come. -/
structure Filler.Bounded (s : Filler) : Prop where
  written : ∀ w ∈ s.written, w.1 < 500
  length : s.length ≤ 2000
  rwPos : s.rwPos ≤ s.pc.limit

namespace Filler

variable {s t : Filler}

theorem bounded_start (status : PulserStatus) (pulsePeriod remain portData : BitVec 32) :
    (start status pulsePeriod remain portData).Bounded where
  written := by intro w hw; cases hw
  length := Nat.le_refl _
  rwPos := Nat.zero_le _

/-- A change of the status, which may start a new buffer. -/
theorem Bounded.frame (h : s.Bounded) (hwritten : t.written = s.written) (hpc : t.pc = s.pc)
    (hlength : t.length = s.length ∨ t.length = i2sOutDmabufLen)
    (hrw : t.rwPos = s.rwPos ∨ t.rwPos = 0) : t.Bounded where
  written := by rw [hwritten]; exact h.written
  length := by
    rcases hlength with hl | hl
    · rw [hl]
      exact h.length
    · rw [hl]
      exact Nat.le_refl _
  rwPos := by
    rw [hpc]
    rcases hrw with hr | hr
    · rw [hr]
      exact h.rwPos
    · rw [hr]
      exact Nat.zero_le _

/-- Samples that fit. -/
theorem Bounded.stores (h : s.Bounded) {n : ℕ} (hst : Stores s t n) {u : Filler}
    (hwritten : u.written = t.written) (hlength : u.length = t.length) (hrw : u.rwPos = t.rwPos)
    (hroom : s.rwPos + n ≤ u.pc.limit) : u.Bounded := by
  obtain ⟨samples, portData, rfl, -, hsamples⟩ := hst
  refine ⟨fun w hw => ?_, by rw [hlength]; exact h.length, by rw [hrw]; exact hroom⟩
  rw [hwritten] at hw
  rcases List.mem_append.1 hw with hw | hw
  · exact h.written w hw
  · have hlt := hsamples w hw
    have hlimit := u.pc.limit_le
    omega

theorem Bounded.turn (h : s.Bounded) (chip : Chip) (hpc : s.pc = .loop) : (s.turn chip).Bounded := by
  have hrw := h.rwPos
  rw [hpc] at hrw
  unfold Filler.turn
  by_cases hguard : s.rwPos < dmaSampleCount - sampleSafeCount
  · have hlt : s.rwPos < 495 := hguard
    rw [if_pos hguard]
    by_cases hdue : s.remain.toNat < i2sOutUsecPerPulse ∧ s.status = .stepping ∧
        (chip = .esp32 → s.pulseFunc = true)
    · rw [if_pos hdue]
      refine ⟨h.written, h.length, ?_⟩
      show s.rwPos ≤ 494
      omega
    · rw [if_neg hdue]
      refine h.stores (stores_store s) rfl rfl rfl ?_
      show s.rwPos + 1 ≤ s.pc.limit
      rw [hpc]
      show s.rwPos + 1 ≤ 500
      omega
  · rw [if_neg hguard]
    refine ⟨h.written, ?_, hrw⟩
    show s.rwPos * 4 ≤ 2000
    have hle : s.rwPos ≤ 500 := hrw
    omega

theorem Bounded.pulseStart (h : s.Bounded) (b : Board) (cfg : StepperSettings) (stepper : Stepper)
    {oldRwPos : ℕ} (hpc : s.pc = .callback oldRwPos 0) :
    Bounded { s.pulseStart b cfg stepper with pc := .callback oldRwPos 1 } := by
  have hsamples := stepper.samples_le cfg.timing
  have hdelay := cfg.timing.delay_bounds.2
  have hstep := cfg.timing.step_bounds.2
  have hrw := h.rwPos
  rw [hpc] at hrw
  refine h.stores (stores_pulseStart b cfg s stepper) rfl rfl rfl ?_
  show s.rwPos + stepper.samples cfg.timing ≤ 500
  have hle : s.rwPos ≤ 494 := hrw
  omega

theorem Bounded.returned (h : s.Bounded) (chip : Chip) (oldRwPos : ℕ) :
    (s.returned chip oldRwPos).Bounded := by
  unfold Filler.returned
  dsimp only
  split_ifs
  · exact ⟨h.written, Nat.le_refl 2000, Nat.le_refl 500⟩
  · exact ⟨h.written, h.length, h.rwPos.trans s.pc.limit_le⟩

theorem Bounded.gen (h : s.Bounded) (tail : Bool) : (s.gen tail).Bounded := by
  unfold Filler.gen
  cases s.status with
  | stepping => exact ⟨h.written, h.length, Nat.zero_le _⟩
  | waiting =>
    dsimp only
    split_ifs
    · exact h.frame rfl rfl (.inl rfl) (.inl rfl)
    · exact h.frame rfl rfl (.inr rfl) (.inr rfl)
  | passthrough => exact h.frame rfl rfl (.inr rfl) (.inr rfl)
  | stopped => exact h.frame rfl rfl (.inr rfl) (.inr rfl)

theorem Bounded.setStepping (h : s.Bounded) (chip : Chip) : (s.setStepping chip).Bounded := by
  unfold Filler.setStepping
  split
  · exact h
  · exact h
  · exact h.frame rfl rfl (.inr rfl) (.inl rfl)
  · split_ifs
    · exact h.frame rfl rfl (.inr rfl) (.inr rfl)
    · exact h.frame rfl rfl (.inl rfl) (.inl rfl)

theorem Bounded.reset (h : s.Bounded) : s.reset.Bounded := by
  unfold Filler.reset
  cases s.status with
  | stepping => exact h.frame rfl rfl (.inr rfl) (.inl rfl)
  | waiting => exact h.frame rfl rfl (.inl rfl) (.inl rfl)
  | passthrough => exact h
  | stopped => exact h

theorem Bounded.setPassthrough (h : s.Bounded) : s.setPassthrough.Bounded := by
  unfold Filler.setPassthrough
  split_ifs
  · exact h.frame rfl rfl (.inl rfl) (.inl rfl)
  · exact h

/-- Every step stays within the buffer. -/
theorem Bounded.step (h : s.Bounded) {chip : Chip} {b : Board} {cfg : StepperSettings}
    {e : FillEvent} (hst : s.step chip b cfg e = some t) (hP : PulseStartOnce s e t) :
    t.Bounded := by
  cases e with
  | gen tail =>
    obtain ⟨-, rfl⟩ := step_gen.1 hst
    exact h.gen tail
  | turn =>
    obtain ⟨hpc, rfl⟩ := step_turn.1 hst
    exact h.turn chip hpc
  | push num => exact hP.elim
  | pulseStart stepper =>
    obtain ⟨oldRwPos, starts, hpc, rfl⟩ := step_pulseStart hst
    have hzero : s.pc.starts = 0 := hP
    rw [hpc] at hzero
    have hstarts : starts = 0 := hzero
    subst hstarts
    exact h.pulseStart b cfg stepper hpc
  | ret =>
    obtain ⟨oldRwPos, starts, -, rfl⟩ := step_ret hst
    exact h.returned chip oldRwPos
  | setPulsePeriod period =>
    cases hst
    exact h.frame rfl rfl (.inl rfl) (.inl rfl)
  | setPulseCallback func =>
    cases hst
    exact h.frame rfl rfl (.inl rfl) (.inl rfl)
  | write pin val =>
    cases hst
    exact h.frame rfl rfl (.inl rfl) (.inl rfl)
  | setPassthrough =>
    cases hst
    exact h.setPassthrough
  | setStepping =>
    cases hst
    exact h.setStepping chip
  | reset =>
    cases hst
    exact h.reset
  | startPassthrough =>
    cases step_startPassthrough hst
    exact h.frame rfl rfl (.inl rfl) (.inl rfl)

end Filler

/-! ## Main result -/

/-- In both drivers, for all pulse settings and every wait, period and sequence of calls
    in which `pulse_func` calls `I2SStepperPulseStart` at most once: every sample is
    stored in the buffer, and no descriptor is longer than its buffer. -/
theorem fillout_bounds {F : Type*} (ceilUint32 : F → BitVec 32) (pulse delay : F)
    (cfg : StepperSettings) (chip : Chip) (b : Board) (status : PulserStatus)
    (pulsePeriod remain portData : BitVec 32) {s : Filler}
    (hs : (fillers chip b { cfg with timing := settingsChanged ceilUint32 pulse delay }
      (.start status pulsePeriod remain portData)).ReachableBy PulseStartOnce s) :
    (∀ w ∈ s.written, w.1 < dmaSampleCount) ∧ s.length ≤ i2sOutDmabufLen := by
  have hbounded : s.Bounded := by
    refine hs.invariant (Filler.bounded_start status pulsePeriod remain portData) ?_
    intro s e t _ h hst hP
    exact h.step hst hP
  exact ⟨hbounded.written, hbounded.length⟩

/-- A pulse of 10 microseconds after a delay of 5: 3 and 2 samples in a buffer that ends
    there, as the status changes. -/
theorem fillout_bounds_pulse :
    ∃ s : Filler, (s.written.map Prod.fst = [0, 1, 2, 3, 4] ∧ s.length = 2000) ∧
      (∀ w ∈ s.written, w.1 < dmaSampleCount) ∧ s.length ≤ i2sOutDmabufLen := by
  obtain ⟨s, -, hs, hv⟩ := Machine.exists_reachableBy
    (fillers .esp32s3 oneAxis
      { oneAxisSettings false with timing := settingsChanged (BitVec.ofNat 32) 10 5 }
      (.start .stopped 4 0 0)) PulseStartOnce
    [.setStepping, .gen false, .turn, .pulseStart ⟨true, fun _ => true, fun _ => false⟩,
      .startPassthrough, .ret]
    (fun s => (s.written.map Prod.fst, s.length)) (v := ([0, 1, 2, 3, 4], 2000)) (by decide +kernel)
    (by decide +kernel)
  simp only [Prod.mk.injEq] at hv
  exact ⟨s, hv, fillout_bounds (BitVec.ofNat 32) 10 5 (oneAxisSettings false) .esp32s3 oneAxis
    .stopped 4 0 0 hs⟩

end Esp32Embroidery.I2s
