import Esp32Embroidery.I2s.Fillout

/-!
# The schedule of the pulses

While `i2s_out_s3.c` steps, every stored sample takes 4 microseconds of the wait for the
next pulse, and every call of `pulse_func` adds the pulse period less the samples that it
has stored.

* `exists_i2sStepperCyclesPerTick_iff`: the pulse periods that the stepper driver sets.
* `OnSchedule`: the balance of samples and periods, and what each step keeps of it.

Main result:

* `fillout_on_schedule`: the samples stored and the wait add up to the first wait and all
  periods, and each call of `pulse_func` comes less than one sample after its time.
-/

namespace Esp32Embroidery.I2s

open Esp32Embroidery.Lib

/-! ## The pulse period -/

/-- `t_max_period`: ticks of the 20 MHz step timer per microsecond (`driver.c` lines 2821
    and 3453). -/
def tMaxPeriod : BitVec 32 := 20

/-- The period that `I2SStepperCyclesPerTick` sets, for any `t_min_period` (`driver.c`
    lines 905-908). Only this function calls `i2s_out_set_pulse_period`, and the period set
    at start-up, 4, is one of its values. -/
def i2sStepperCyclesPerTick (tMinPeriod cyclesPerTick : BitVec 32) : BitVec 32 :=
  (if cyclesPerTick.toNat < 2 ^ 18 then
    if tMinPeriod < cyclesPerTick then cyclesPerTick else tMinPeriod
  else BitVec.ofNat 32 (2 ^ 18 - 1)) / tMaxPeriod

theorem i2sStepperCyclesPerTick_le (tMinPeriod cyclesPerTick : BitVec 32) :
    (i2sStepperCyclesPerTick tMinPeriod cyclesPerTick).toNat ≤ (2 ^ 32 - 1) / 20 := by
  unfold i2sStepperCyclesPerTick
  rw [BitVec.toNat_udiv]
  show _ / 20 ≤ _
  apply Nat.div_le_div_right
  exact Nat.le_pred_of_lt (BitVec.isLt _)

/-- The period is at least the smallest one of the settings, or cut off. -/
theorem le_i2sStepperCyclesPerTick (tMinPeriod cyclesPerTick : BitVec 32) :
    min (tMinPeriod.toNat / 20) 13107 ≤ (i2sStepperCyclesPerTick tMinPeriod cyclesPerTick).toNat := by
  unfold i2sStepperCyclesPerTick
  rw [BitVec.toNat_udiv]
  show _ ≤ _ / 20
  split_ifs with hcut hmin
  · have hlt : tMinPeriod.toNat < cyclesPerTick.toNat := BitVec.lt_def.1 hmin
    omega
  · omega
  · exact min_le_right _ _

/-- Which periods occur, over all settings. -/
theorem exists_i2sStepperCyclesPerTick_iff (period : BitVec 32) :
    (∃ tMinPeriod cyclesPerTick, period = i2sStepperCyclesPerTick tMinPeriod cyclesPerTick) ↔
      period.toNat ≤ (2 ^ 32 - 1) / 20 := by
  constructor
  · rintro ⟨tMinPeriod, cyclesPerTick, rfl⟩
    exact i2sStepperCyclesPerTick_le tMinPeriod cyclesPerTick
  · intro hle
    refine ⟨period * 20, 0, ?_⟩
    have hmul : (period * 20).toNat = period.toNat * 20 := by
      rw [BitVec.toNat_mul]
      show period.toNat * 20 % 2 ^ 32 = period.toNat * 20
      omega
    have hmax : i2sStepperCyclesPerTick (period * 20) 0 = period * 20 / tMaxPeriod := by
      unfold i2sStepperCyclesPerTick
      rw [if_pos (show BitVec.toNat (0 : BitVec 32) < 2 ^ 18 by decide),
        if_neg (show ¬period * 20 < 0 from Nat.not_lt_zero (period * 20).toNat)]
    rw [hmax]
    apply BitVec.eq_of_toNat_eq
    rw [BitVec.toNat_udiv, hmul]
    show period.toNat = period.toNat * 20 / 20
    omega

namespace Filler

/-! ## Balance of samples and periods -/

/-- The samples that the current call of `pulse_func` has stored. -/
def pushed (s : Filler) : ℕ :=
  match s.pc with
  | .callback oldRwPos _ => s.rwPos - oldRwPos
  | .wait | .loop => 0

section

variable {s : Filler}

theorem pushed_callback {oldRwPos starts : ℕ} (hpc : s.pc = .callback oldRwPos starts) :
    s.pushed = s.rwPos - oldRwPos := by
  rw [pushed, hpc]

theorem pushed_wait (hpc : s.pc = .wait) : s.pushed = 0 := by rw [pushed, hpc]

theorem pushed_loop (hpc : s.pc = .loop) : s.pushed = 0 := by rw [pushed, hpc]

end

/-- In stepping mode, `remain` microseconds after the first wait began. -/
structure OnSchedule (remain : BitVec 32) (s : Filler) : Prop where
  status : s.status = .stepping
  period : s.pulsePeriod.toNat ≤ (2 ^ 32 - 1) / 20
  balance : 4 * s.written.length + s.remain.toNat = remain.toNat + s.periods.sum + 4 * s.pushed
  callback : ∀ oldRwPos starts, s.pc = .callback oldRwPos starts →
    oldRwPos ≤ s.rwPos ∧ s.remain.toNat < 4

variable {remain : BitVec 32} {s t : Filler}

theorem onSchedule_start {pulsePeriod : BitVec 32} (hperiod : pulsePeriod.toNat ≤ (2 ^ 32 - 1) / 20)
    (remain portData : BitVec 32) : (start .stepping pulsePeriod remain portData).OnSchedule remain where
  status := rfl
  period := hperiod
  balance := by
    show 4 * 0 + remain.toNat = remain.toNat + 0 + 4 * 0
    omega
  callback := by intro oldRwPos starts hpc; cases hpc

theorem Stores.pc {n : ℕ} (h : Stores s t n) : t.pc = s.pc := by
  obtain ⟨samples, portData, rfl, -, -⟩ := h
  rfl

/-- Samples stored by `pulse_func` count for both sides. -/
theorem OnSchedule.stores (h : s.OnSchedule remain) {n : ℕ} (hst : Stores s t n)
    {oldRwPos starts starts' : ℕ} (hpc : s.pc = .callback oldRwPos starts) :
    OnSchedule remain { t with pc := .callback oldRwPos starts' } := by
  obtain ⟨samples, portData, rfl, hlen, -⟩ := hst
  obtain ⟨hle, hlt⟩ := h.callback oldRwPos starts hpc
  refine ⟨h.status, h.period, ?_, ?_⟩
  · have hbalance := h.balance
    rw [pushed_callback hpc] at hbalance
    show 4 * (s.written ++ samples).length + s.remain.toNat =
      remain.toNat + s.periods.sum + 4 * (s.rwPos + n - oldRwPos)
    rw [List.length_append, hlen]
    omega
  · intro old k hcb
    cases hcb
    show oldRwPos ≤ s.rwPos + n ∧ s.remain.toNat < 4
    omega

/-- A change that leaves samples and periods alone. -/
theorem OnSchedule.frame (h : s.OnSchedule remain) (hstatus : t.status = .stepping)
    (hperiod : t.pulsePeriod.toNat ≤ (2 ^ 32 - 1) / 20) (hwritten : t.written = s.written)
    (hremain : t.remain = s.remain) (hperiods : t.periods = s.periods)
    (hpc : t.pc = s.pc) (hrw : t.rwPos = s.rwPos) : t.OnSchedule remain where
  status := hstatus
  period := hperiod
  balance := by
    have hpushed : t.pushed = s.pushed := by rw [pushed, pushed, hpc, hrw]
    rw [hwritten, hremain, hperiods, hpushed]
    exact h.balance
  callback := by
    rw [hpc, hremain, hrw]
    exact h.callback

theorem OnSchedule.gen (h : s.OnSchedule remain) (tail : Bool) (hpc : s.pc = .wait) :
    (s.gen tail).OnSchedule remain := by
  have hbalance := h.balance
  rw [pushed_wait hpc] at hbalance
  have hgen : s.gen tail = { s with rwPos := 0, pc := .loop } := by rw [Filler.gen, h.status]
  rw [hgen]
  exact ⟨h.status, h.period, hbalance, by intro old k hcb; cases hcb⟩

/-- A turn of the loop waits for the time of one sample, which it stores. -/
theorem OnSchedule.turn (h : s.OnSchedule remain) (hpc : s.pc = .loop) :
    (s.turn .esp32s3).OnSchedule remain := by
  have hbalance := h.balance
  rw [pushed_loop hpc] at hbalance
  unfold Filler.turn
  by_cases hguard : s.rwPos < dmaSampleCount - sampleSafeCount
  · rw [if_pos hguard]
    by_cases hdue : s.remain.toNat < 4
    · rw [if_pos ⟨hdue, h.status, by intro hchip; cases hchip⟩]
      refine ⟨h.status, h.period, ?_, ?_⟩
      · show _ = remain.toNat + s.periods.sum + 4 * (s.rwPos - s.rwPos)
        rw [Nat.sub_self]
        exact hbalance
      · intro old k hcb
        cases hcb
        exact ⟨Nat.le_refl _, hdue⟩
    · have hle : i2sOutUsecPerPulse ≤ s.remain.toNat := Nat.not_lt.1 hdue
      rw [if_neg fun hc => hdue hc.1, if_pos hle]
      have hsub : (s.remain - BitVec.ofNat 32 i2sOutUsecPerPulse).toNat = s.remain.toNat - 4 :=
        BitVec.toNat_sub_of_le (by rw [BitVec.le_def]; exact hle)
      refine ⟨h.status, h.period, ?_, ?_⟩
      · have hpushed : pushed { s.store with
            remain := s.remain - BitVec.ofNat 32 i2sOutUsecPerPulse } = 0 := by
          simp only [pushed, store, hpc]
        rw [hpushed]
        show 4 * (s.written ++ [(s.rwPos, s.portData)]).length +
          (s.remain - BitVec.ofNat 32 i2sOutUsecPerPulse).toNat = remain.toNat + s.periods.sum + 4 * 0
        rw [List.length_append, hsub, List.length_singleton]
        omega
      · intro old k hcb
        rw [show s.pc = .callback old k from hcb] at hpc
        cases hpc
  · rw [if_neg hguard]
    exact ⟨h.status, h.period, hbalance, by intro old k hcb; cases hcb⟩

/-- The loop calls `pulse_func` only when the wait is over. -/
theorem lt_of_turn_callback (s : Filler) (hpc : s.pc = .loop) {oldRwPos starts : ℕ}
    (hcb : (s.turn .esp32s3).pc = .callback oldRwPos starts) : s.remain.toNat < 4 := by
  unfold Filler.turn at hcb
  by_cases hguard : s.rwPos < dmaSampleCount - sampleSafeCount
  · rw [if_pos hguard] at hcb
    by_contra hge
    rw [if_neg fun hc => hge hc.1] at hcb
    rw [show s.pc = .callback oldRwPos starts from hcb] at hpc
    cases hpc
  · rw [if_neg hguard] at hcb
    cases hcb

/-- The time of `n` samples, in `uint32_t`. -/
theorem toNat_period {rwPos oldRwPos : ℕ} (hle : oldRwPos ≤ rwPos)
    (hlt : 4 * (rwPos - oldRwPos) < 2 ^ 32) :
    (4 * (BitVec.ofNat 32 rwPos - BitVec.ofNat 32 oldRwPos)).toNat = 4 * (rwPos - oldRwPos) := by
  obtain ⟨n, rfl⟩ := Nat.exists_eq_add_of_le hle
  have hsub : BitVec.ofNat 32 (oldRwPos + n) - BitVec.ofNat 32 oldRwPos = BitVec.ofNat 32 n := by
    rw [BitVec.ofNat_add, BitVec.add_comm, BitVec.add_sub_cancel]
  rw [Nat.add_sub_cancel_left] at hlt ⊢
  rw [hsub, BitVec.toNat_mul, BitVec.toNat_ofNat]
  show 4 * (n % 2 ^ 32) % 2 ^ 32 = 4 * n
  omega

/-- The wait after `pulse_func` is the period less the samples stored, without a wrap. -/
theorem OnSchedule.returned (h : s.OnSchedule remain) {oldRwPos starts : ℕ}
    (hpc : s.pc = .callback oldRwPos starts)
    (hfits : 4 * (s.rwPos - oldRwPos) ≤ s.pulsePeriod.toNat) :
    (s.returned .esp32s3 oldRwPos).OnSchedule remain := by
  obtain ⟨hle, hlt⟩ := h.callback oldRwPos starts hpc
  have hbound := h.period
  have hbalance := h.balance
  rw [pushed_callback hpc] at hbalance
  have htime := toNat_period hle (show 4 * (s.rwPos - oldRwPos) < 2 ^ 32 by omega)
  have hremain : (remainAfter .esp32s3 s.remain s.pulsePeriod
      (4 * (BitVec.ofNat 32 s.rwPos - BitVec.ofNat 32 oldRwPos))).toNat =
      s.remain.toNat + (s.pulsePeriod.toNat - 4 * (s.rwPos - oldRwPos)) := by
    have hperiod : 4 * (BitVec.ofNat 32 s.rwPos - BitVec.ofNat 32 oldRwPos) ≤ s.pulsePeriod := by
      rw [BitVec.le_def, htime]
      exact hfits
    simp only [remainAfter, if_pos hperiod]
    rw [BitVec.toNat_add, BitVec.toNat_sub_of_le hperiod, htime]
    apply Nat.mod_eq_of_lt
    omega
  unfold Filler.returned
  dsimp only
  rw [if_neg (by rw [h.status]; intro hpass; cases hpass)]
  refine ⟨h.status, h.period, ?_, by intro old k hcb; cases hcb⟩
  show 4 * s.written.length + BitVec.toNat _ =
    remain.toNat + (s.periods ++ [s.pulsePeriod.toNat]).sum + 4 * 0
  rw [hremain, List.sum_append, List.sum_singleton]
  omega

end Filler

/-! ## Runs in stepping mode -/

/-- The status stays `STEPPING`, the stepper driver sets the pulse periods, and no call of
    `pulse_func` stores more samples than its pulse period has time for. -/
def Steady (s : Filler) (e : FillEvent) (t : Filler) : Prop :=
  t.status = .stepping ∧
  match e with
  | .setPulsePeriod period =>
    ∃ tMinPeriod cyclesPerTick, period = i2sStepperCyclesPerTick tMinPeriod cyclesPerTick
  | .ret => i2sOutUsecPerPulse * s.pushed ≤ s.pulsePeriod.toNat
  | _ => True

instance (period : BitVec 32) : Decidable (∃ tMinPeriod cyclesPerTick,
    period = i2sStepperCyclesPerTick tMinPeriod cyclesPerTick) :=
  decidable_of_iff _ (exists_i2sStepperCyclesPerTick_iff period).symm

instance (s : Filler) : ∀ (e : FillEvent) (t : Filler), Decidable (Steady s e t)
  | .setPulsePeriod period, t => inferInstanceAs (Decidable (t.status = .stepping ∧
      ∃ tMinPeriod cyclesPerTick, period = i2sStepperCyclesPerTick tMinPeriod cyclesPerTick))
  | .ret, t => inferInstanceAs (Decidable (t.status = .stepping ∧
      i2sOutUsecPerPulse * s.pushed ≤ s.pulsePeriod.toNat))
  | .gen _, t | .turn, t | .push _, t | .pulseStart _, t | .setPulseCallback _, t | .write _ _, t
  | .setPassthrough, t | .setStepping, t | .reset, t | .startPassthrough, t =>
    inferInstanceAs (Decidable (t.status = .stepping ∧ True))

namespace Filler

variable {remain : BitVec 32} {s t : Filler}

theorem OnSchedule.step (h : s.OnSchedule remain) {b : Board} {cfg : StepperSettings}
    {e : FillEvent} (hst : s.step .esp32s3 b cfg e = some t) (hP : Steady s e t) :
    t.OnSchedule remain := by
  obtain ⟨hstatus, hP⟩ := hP
  cases e with
  | gen tail =>
    obtain ⟨hpc, rfl⟩ := step_gen.1 hst
    exact h.gen tail hpc
  | turn =>
    obtain ⟨hpc, rfl⟩ := step_turn.1 hst
    exact h.turn hpc
  | push num =>
    obtain ⟨oldRwPos, starts, hpc, rfl⟩ := step_push hst
    have hstores := stores_pushSample s num
    have hsame : { s.pushSample num with pc := .callback oldRwPos starts } = s.pushSample num := by
      rw [← hpc, ← hstores.pc]
    rw [← hsame]
    exact h.stores hstores hpc
  | pulseStart stepper =>
    obtain ⟨oldRwPos, starts, hpc, rfl⟩ := step_pulseStart hst
    exact h.stores (stores_pulseStart b cfg s stepper) hpc
  | ret =>
    obtain ⟨oldRwPos, starts, hpc, rfl⟩ := step_ret hst
    have hfits : 4 * s.pushed ≤ s.pulsePeriod.toNat := hP
    rw [pushed_callback hpc] at hfits
    exact h.returned hpc hfits
  | setPulsePeriod period =>
    cases hst
    exact h.frame hstatus ((exists_i2sStepperCyclesPerTick_iff period).1 hP) rfl rfl rfl rfl rfl
  | setPulseCallback func =>
    cases hst
    exact h.frame hstatus h.period rfl rfl rfl rfl rfl
  | write pin val =>
    cases hst
    exact h.frame hstatus h.period rfl rfl rfl rfl rfl
  | setPassthrough =>
    cases hst
    rw [setPassthrough, if_pos h.status] at hstatus
    cases hstatus
  | setStepping =>
    cases hst
    have hsame : s.setStepping .esp32s3 = s := by simp only [setStepping, h.status]
    rw [hsame]
    exact h
  | reset =>
    cases hst
    have hsame : s.reset = { s with length := i2sOutDmabufLen } := by
      simp only [reset, h.status]
    rw [hsame]
    exact h.frame h.status h.period rfl rfl rfl rfl rfl
  | startPassthrough =>
    cases step_startPassthrough hst
    cases hstatus

end Filler

/-! ## Main result -/

/-- For every first wait and every run that stays in stepping mode, over any number of
    buffers: after every sample of the loop and every call of `pulse_func`, the time of all
    samples and the wait for the next pulse add up to the first wait and the periods so far,
    and during a call what it has stored counts for the period to come. The loop calls
    `pulse_func` when less than one sample is missing to its scheduled time. -/
theorem fillout_on_schedule (b : Board) (cfg : StepperSettings)
    (tMinPeriod cyclesPerTick remain portData : BitVec 32) {s : Filler}
    (hs : (fillers .esp32s3 b cfg (.start .stepping
      (i2sStepperCyclesPerTick tMinPeriod cyclesPerTick) remain portData)).ReachableBy Steady s) :
    (s.pc = .loop ∨ s.pc = .wait →
      4 * s.written.length + s.remain.toNat = remain.toNat + s.periods.sum) ∧
    (∀ oldRwPos starts, s.pc = .callback oldRwPos starts →
      4 * s.written.length + s.remain.toNat =
        remain.toNat + s.periods.sum + 4 * (s.rwPos - oldRwPos)) ∧
    ∀ oldRwPos starts t, s.step .esp32s3 b cfg .turn = some t → t.pc = .callback oldRwPos starts →
      4 * s.written.length ≤ remain.toNat + s.periods.sum ∧
      remain.toNat + s.periods.sum - 4 * s.written.length < 4 := by
  have honschedule : s.OnSchedule remain := by
    refine hs.invariant ?_ fun s e t _ h hst hP => h.step hst hP
    exact Filler.onSchedule_start (i2sStepperCyclesPerTick_le tMinPeriod cyclesPerTick) remain portData
  have hbalance := honschedule.balance
  refine ⟨?_, ?_, ?_⟩
  · intro hpc
    have hpushed : s.pushed = 0 := hpc.elim Filler.pushed_loop Filler.pushed_wait
    rw [hpushed] at hbalance
    exact hbalance
  · intro oldRwPos starts hpc
    rw [Filler.pushed_callback hpc] at hbalance
    exact hbalance
  · intro oldRwPos starts t hst hcb
    obtain ⟨hpc, rfl⟩ := Filler.step_turn.1 hst
    have hdue := s.lt_of_turn_callback hpc hcb
    rw [Filler.pushed_loop hpc] at hbalance
    omega

/-- From a wait of 6 microseconds on, a pulse of 2 samples and a call without one, with a
    period of 12 that the first call sets. -/
theorem fillout_on_schedule_pulses :
    ∃ s : Filler, (s.pc = .loop ∧ s.written.length = 7 ∧ s.remain.toNat = 2 ∧ s.periods = [12, 12]) ∧
      4 * s.written.length + s.remain.toNat = 6 + s.periods.sum := by
  obtain ⟨s, -, hs, hv⟩ := Machine.exists_reachableBy
    (fillers .esp32s3 oneAxis (oneAxisSettings false)
      (.start .stepping (i2sStepperCyclesPerTick 100 200) 6 0)) Steady
    [.gen false, .turn, .turn, .push 2, .setPulsePeriod (i2sStepperCyclesPerTick 100 240), .ret,
      .turn, .turn, .ret, .turn, .turn, .turn]
    (fun s => (s.pc, s.written.length, s.remain.toNat, s.periods)) (v := (.loop, 7, 2, [12, 12]))
    (by decide +kernel) (by decide +kernel)
  simp only [Prod.mk.injEq] at hv
  obtain ⟨hbalance, -, -⟩ :=
    fillout_on_schedule oneAxis (oneAxisSettings false) 100 200 6 0 hs
  exact ⟨s, hv, hbalance (.inl hv.1)⟩

end Esp32Embroidery.I2s
