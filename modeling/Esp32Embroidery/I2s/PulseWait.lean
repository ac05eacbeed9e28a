import Esp32Embroidery.I2s.Schedule
import Esp32Embroidery.Lib.CArith

/-!
# The wait for the next pulse on the ESP32

After `pulse_func`, `i2s_out.c` adds the pulse period less the time of the pushed samples to
the wait, in `uint32_t`. `settings_changed` computes the smallest period from the length of
a pulse and a pause of 2 microseconds, but the samples of a pulse come from lengths that are
rounded up to 4 microseconds, and those of a direction change are not in the period at all.

Main results:

* `run_callback`: what the calls that `pulse_func` makes add to the buffer.
* `Filler.noWrap_iff`: the wait does not wrap if the samples fit into wait and period.
* `pulse_wait_no_wrap_iff`: so for every callback, and which settings are safe for all.
* `timing_safe_iff`: the safe settings in exact arithmetic.
-/

namespace Esp32Embroidery.I2s

open Esp32Embroidery.Lib

/-! ## Settings -/

/-- `t_min_period` (`driver.c` line 2817), with `hal.f_step_timer` at 20 MHz and
    `STEP_PULSE_TOFF_MIN` of 2.0. -/
def tMinPeriod {F : Type*} [CFloat F] (ceilUint32 : F → BitVec 32) (pulseMicroseconds : F) :
    BitVec 32 :=
  ceilUint32 (CFloat.ofRat 20000000 / CFloat.ofRat 1000000.0 *
    (pulseMicroseconds + CFloat.ofRat 2.0))

theorem i2sStepperCyclesPerTick_zero (tMin : BitVec 32) :
    (i2sStepperCyclesPerTick tMin 0).toNat = tMin.toNat / 20 := by
  unfold i2sStepperCyclesPerTick
  rw [if_pos (by decide), if_neg (show ¬tMin < 0 from Nat.not_lt_zero tMin.toNat),
    BitVec.toNat_udiv]
  rfl

/-! ## Calls of `pulse_func` -/

/-- The calls that `pulse_func` may make; it pushes samples through `I2SStepperPulseStart`
    alone. -/
def FillEvent.FromCallback : FillEvent → Prop
  | .pulseStart _ | .setPulsePeriod _ | .setPulseCallback _ | .write _ _ | .setPassthrough
  | .setStepping | .reset => True
  | .gen _ | .turn | .push _ | .ret | .startPassthrough => False

/-- The arguments of the calls of `I2SStepperPulseStart`. -/
def steppersOf : List FillEvent → List Stepper
  | [] => []
  | .pulseStart stepper :: es => stepper :: steppersOf es
  | _ :: es => steppersOf es

namespace Filler

/-- The next pulse is due, and the loop is at its condition. -/
structure Due (s : Filler) : Prop where
  pc : s.pc = .loop
  room : s.rwPos < dmaSampleCount - sampleSafeCount
  remain : s.remain.toNat < i2sOutUsecPerPulse
  status : s.status = .stepping
  pulseFunc : s.pulseFunc = true

theorem Due.turn {s : Filler} (h : s.Due) :
    s.turn .esp32 = { s with pc := .callback s.rwPos 0 } := by
  unfold Filler.turn
  rw [if_pos h.room, if_pos ⟨h.remain, h.status, fun _ => h.pulseFunc⟩]

/-- What a call of `pulse_func` adds: samples of the steps, and neither a wait nor a return. -/
theorem step_callback {b : Board} {cfg : StepperSettings} {s t : Filler} {e : FillEvent}
    (he : e.FromCallback) {oldRwPos starts : ℕ} (hpc : s.pc = .callback oldRwPos starts)
    (hst : s.step .esp32 b cfg e = some t) :
    t.remain = s.remain ∧ (∃ starts', t.pc = .callback oldRwPos starts') ∧
      t.rwPos = s.rwPos + ((steppersOf [e]).map (Stepper.samples cfg.timing)).sum := by
  cases e with
  | pulseStart stepper =>
    obtain ⟨old, k, hold, rfl⟩ := step_pulseStart hst
    rw [hpc] at hold
    cases hold
    obtain ⟨samples, portData, hstores, -, -⟩ := stores_pulseStart b cfg s stepper
    rw [hstores]
    exact ⟨rfl, ⟨_, rfl⟩, rfl⟩
  | setPulsePeriod period => cases hst; exact ⟨rfl, ⟨_, hpc⟩, rfl⟩
  | setPulseCallback func => cases hst; exact ⟨rfl, ⟨_, hpc⟩, rfl⟩
  | write pin val => cases hst; exact ⟨rfl, ⟨_, hpc⟩, rfl⟩
  | setPassthrough =>
    cases hst
    unfold setPassthrough
    split_ifs <;> exact ⟨rfl, ⟨_, hpc⟩, rfl⟩
  | setStepping =>
    cases hst
    unfold setStepping
    split
    · exact ⟨rfl, ⟨_, hpc⟩, rfl⟩
    · exact ⟨rfl, ⟨_, hpc⟩, rfl⟩
    · exact ⟨rfl, ⟨_, hpc⟩, rfl⟩
    · next hchip _ _ => cases hchip
  | reset =>
    cases hst
    unfold reset
    split <;> exact ⟨rfl, ⟨_, hpc⟩, rfl⟩
  | gen tail => cases he
  | turn => cases he
  | push num => cases he
  | ret => cases he
  | startPassthrough => cases he

theorem steppersOf_cons (e : FillEvent) (es : List FillEvent) :
    steppersOf (e :: es) = steppersOf [e] ++ steppersOf es := by
  cases e <;> rfl

theorem run_callback {start : Filler} {b : Board} {cfg : StepperSettings} {calls : List FillEvent}
    (hcalls : ∀ e ∈ calls, e.FromCallback) {s u : Filler} {oldRwPos starts : ℕ}
    (hpc : s.pc = .callback oldRwPos starts)
    (hrun : (fillers .esp32 b cfg start).run s calls = some u) :
    u.remain = s.remain ∧ (∃ starts', u.pc = .callback oldRwPos starts') ∧
      u.rwPos = s.rwPos + ((steppersOf calls).map (Stepper.samples cfg.timing)).sum := by
  induction calls generalizing s starts with
  | nil =>
    cases hrun
    exact ⟨rfl, ⟨_, hpc⟩, rfl⟩
  | cons e es ih =>
    obtain ⟨he, hes⟩ := List.forall_mem_cons.1 hcalls
    rw [Machine.run_cons] at hrun
    obtain ⟨t, hst, hrest⟩ := Option.bind_eq_some_iff.1 hrun
    obtain ⟨hremain, ⟨starts', hpc'⟩, hrw⟩ := step_callback he hpc hst
    obtain ⟨hremain', hpc'', hrw'⟩ := ih hes hpc' hrest
    refine ⟨hremain'.trans hremain, hpc'', ?_⟩
    rw [hrw', hrw, steppersOf_cons e es, List.map_append, List.sum_append, Nat.add_assoc]

/-! ## The update -/

/-- The wait right after `pulse_func`, with the samples behind `oldRwPos` pushed, is at most
    the wait before plus the pulse period. -/
def NoWrap (s : Filler) (oldRwPos : ℕ) : Prop :=
  (remainAfter .esp32 s.remain s.pulsePeriod
    (4 * (BitVec.ofNat 32 s.rwPos - BitVec.ofNat 32 oldRwPos))).toNat ≤
      s.remain.toNat + s.pulsePeriod.toNat

theorem noWrap_iff {s : Filler} {oldRwPos n : ℕ} (hn : n ≤ 6) (hrw : s.rwPos = oldRwPos + n)
    (hremain : s.remain.toNat < 4) (hperiod : s.pulsePeriod.toNat ≤ (2 ^ 32 - 1) / 20) :
    s.NoWrap oldRwPos ↔ 4 * n ≤ s.remain.toNat + s.pulsePeriod.toNat := by
  have htime : (4 * (BitVec.ofNat 32 (oldRwPos + n) - BitVec.ofNat 32 oldRwPos)).toNat = 4 * n := by
    rw [toNat_period (by omega) (by omega), Nat.add_sub_cancel_left]
  unfold NoWrap remainAfter
  rw [hrw]
  simp only
  rw [BitVec.toNat_add, BitVec.toNat_sub, htime]
  omega

/-- A call of `pulse_func` from `s` that ends in `u`, in the driver with the settings: it calls
    `I2SStepperPulseStart` at most once, and the period at its end is one that
    `I2SStepperCyclesPerTick` sets for `cyclesPerTick`. -/
structure Callback (b : Board) (cfg : StepperSettings) (tMin cyclesPerTick : BitVec 32)
    (s : Filler) (calls : List FillEvent) (u : Filler) : Prop where
  due : s.Due
  fromCallback : ∀ e ∈ calls, e.FromCallback
  once : (steppersOf calls).length ≤ 1
  run : (fillers .esp32 b cfg s).run s (.turn :: calls) = some u
  period : u.pulsePeriod = i2sStepperCyclesPerTick tMin cyclesPerTick

/-- The samples of the step that the calls make, if any. -/
def samplesOfCalls (timing : StepTiming) (calls : List FillEvent) : ℕ :=
  ((steppersOf calls).map (Stepper.samples timing)).sum

theorem samplesOfCalls_le (timing : StepTiming) {calls : List FillEvent}
    (honce : (steppersOf calls).length ≤ 1) :
    samplesOfCalls timing calls ≤ timing.delaySamples + timing.stepSamples := by
  unfold samplesOfCalls
  cases hsteppers : steppersOf calls with
  | nil => exact Nat.zero_le _
  | cons stepper rest =>
    rw [hsteppers, List.length_cons] at honce
    obtain rfl : rest = [] := List.eq_nil_of_length_eq_zero (by omega)
    rw [List.map_singleton, List.sum_singleton]
    exact stepper.samples_le timing

theorem Callback.noWrap_iff {b : Board} {cfg : StepperSettings} {tMin cyclesPerTick : BitVec 32}
    {s u : Filler} {calls : List FillEvent} (h : Callback b cfg tMin cyclesPerTick s calls u) :
    u.NoWrap s.rwPos ↔ 4 * samplesOfCalls cfg.timing calls ≤
      s.remain.toNat + (i2sStepperCyclesPerTick tMin cyclesPerTick).toNat := by
  have hrun := h.run
  have hturn : (fillers .esp32 b cfg s).step s .turn = some (s.turn .esp32) := if_pos h.due.pc
  rw [Machine.run_cons, hturn, h.due.turn, Option.bind_some] at hrun
  obtain ⟨hremain, -, hrw⟩ := run_callback h.fromCallback rfl hrun
  have hsamples := samplesOfCalls_le cfg.timing h.once
  have hdelay := cfg.timing.delay_bounds
  have hstep := cfg.timing.step_bounds
  have hdue : s.remain.toNat < 4 := h.due.remain
  have hperiod := i2sStepperCyclesPerTick_le tMin cyclesPerTick
  have hremain : u.remain = s.remain := hremain
  have hiff := Filler.noWrap_iff (s := u) (n := samplesOfCalls cfg.timing calls) (by omega) hrw
    (by rw [hremain]; exact hdue) (by rw [h.period]; exact hperiod)
  rw [hiff, hremain, h.period]

end Filler

/-! ## Settings -/

section

variable {F : Type*} [CFloat F] (ceilUint32 : F → BitVec 32)
  (pulseMicroseconds pulseDelayMicroseconds : F)

/-- The samples of a step with a direction change fit into the smallest period. -/
def TimingSafe : Prop :=
  4 * ((settingsChanged ceilUint32 pulseMicroseconds pulseDelayMicroseconds).delaySamples +
      (settingsChanged ceilUint32 pulseMicroseconds pulseDelayMicroseconds).stepSamples) ≤
    (tMinPeriod ceilUint32 pulseMicroseconds).toNat / 20

/-- A step of the X axis with a direction change. -/
def turnAround : Stepper where
  dirChanged := true
  stepOut axis := axis = .x
  dirOut _ := true

/-- No wait is left, and the smallest period is set. -/
def dueNow (tMin : BitVec 32) : Filler :=
  { Filler.start .stepping (i2sStepperCyclesPerTick tMin 0) 0 0 with pc := .loop }

theorem due_dueNow (tMin : BitVec 32) : (dueNow tMin).Due where
  pc := rfl
  room := show 0 < dmaSampleCount - sampleSafeCount by decide
  remain := show (0 : BitVec 32).toNat < i2sOutUsecPerPulse by decide
  status := rfl
  pulseFunc := rfl

theorem callback_turnAround (b : Board) (cfg : StepperSettings) (tMin : BitVec 32) :
    ∃ u, Filler.Callback b cfg tMin 0 (dueNow tMin) [.pulseStart turnAround] u := by
  let called : Filler := { dueNow tMin with pc := .callback 0 0 }
  obtain ⟨samples, portData, hstores, -, -⟩ := Filler.stores_pulseStart b cfg called turnAround
  refine ⟨{ called.pulseStart b cfg turnAround with pc := .callback 0 1 }, due_dueNow tMin, ?_,
    Nat.le_refl 1, ?_, ?_⟩
  · intro e he
    cases List.mem_singleton.1 he
    exact trivial
  · have hturn : (fillers .esp32 b cfg (dueNow tMin)).step (dueNow tMin) .turn = some called :=
      congrArg some (due_dueNow tMin).turn
    rw [Machine.run_cons, hturn]
    rfl
  · rw [hstores]
    rfl

/-- For every setting of the pulse and the delay: a callback keeps the wait from wrapping
    exactly if its samples fit into the wait and the period, and all callbacks do exactly if
    those of a step with a direction change fit into the smallest period. -/
theorem pulse_wait_no_wrap_iff (b : Board) (cfg : StepperSettings)
    (hcfg : cfg.timing = settingsChanged ceilUint32 pulseMicroseconds pulseDelayMicroseconds) :
    (∀ cyclesPerTick s calls u,
      Filler.Callback b cfg (tMinPeriod ceilUint32 pulseMicroseconds) cyclesPerTick s calls u →
        (u.NoWrap s.rwPos ↔ 4 * Filler.samplesOfCalls cfg.timing calls ≤ s.remain.toNat +
          (i2sStepperCyclesPerTick (tMinPeriod ceilUint32 pulseMicroseconds)
            cyclesPerTick).toNat)) ∧
      ((∀ cyclesPerTick s calls u,
        Filler.Callback b cfg (tMinPeriod ceilUint32 pulseMicroseconds) cyclesPerTick s calls u →
          u.NoWrap s.rwPos) ↔
        TimingSafe ceilUint32 pulseMicroseconds pulseDelayMicroseconds) := by
  refine ⟨fun cyclesPerTick s calls u h => h.noWrap_iff, ?_⟩
  constructor
  · intro hall
    obtain ⟨u, hu⟩ := callback_turnAround b cfg (tMinPeriod ceilUint32 pulseMicroseconds)
    have hfits := hu.noWrap_iff.1 (hall _ _ _ _ hu)
    rw [i2sStepperCyclesPerTick_zero, hcfg] at hfits
    unfold TimingSafe
    exact hfits.trans (Nat.zero_add _).le
  · intro hsafe cyclesPerTick s calls u h
    have hsamples := Filler.samplesOfCalls_le cfg.timing h.once
    have hdelay := cfg.timing.delay_bounds
    have hstep := cfg.timing.step_bounds
    have hperiod := le_i2sStepperCyclesPerTick (tMinPeriod ceilUint32 pulseMicroseconds)
      cyclesPerTick
    unfold TimingSafe at hsafe
    rw [← hcfg] at hsafe
    rw [h.noWrap_iff]
    omega

end

/-! ## Settings in exact arithmetic -/

/-- `(uint32_t)ceilf(x)` without rounding. -/
def ceilRat (x : ℚ) : BitVec 32 := BitVec.ofInt 32 ⌈x⌉

theorem toNat_ceilRat {x : ℚ} (h0 : 0 ≤ x) (hmax : x ≤ 2 ^ 32 - 1) :
    ((ceilRat x).toNat : ℤ) = ⌈x⌉ := by
  have hlo : 0 ≤ ⌈x⌉ := Int.ceil_nonneg h0
  have hhi : ⌈x⌉ ≤ 2 ^ 32 - 1 := Int.ceil_le.2 (by exact_mod_cast hmax)
  unfold ceilRat
  rw [BitVec.toNat_ofInt]
  omega

theorem samplesOf_eq {length : BitVec 32} (hmax : length.toNat ≤ 2 ^ 32 - 4) (n : ℕ) :
    samplesOf length n = min (max ((length.toNat + 3) / 4) 1) n := by
  have hsamples : samplesOf length n = min (max (if length.toNat % 4 ≠ 0 then
      (length.toNat + (4 - length.toNat % 4)) % 2 ^ 32 else length.toNat) 4) (4 * n) / 4 := rfl
  have hrounded : (if length.toNat % 4 ≠ 0 then
      (length.toNat + (4 - length.toNat % 4)) % 2 ^ 32 else length.toNat) =
      4 * ((length.toNat + 3) / 4) := by
    split_ifs <;> omega
  rw [hsamples, hrounded]
  omega

/-- The settings that are safe for all callbacks: the step is then cut off to 4 samples, and
    the pulse leaves enough time for a delay of one or two. -/
theorem timing_safe_iff {pulseMicroseconds pulseDelayMicroseconds : ℚ}
    (hpulse : 0 ≤ pulseMicroseconds) (hpulseMax : pulseMicroseconds ≤ 2 ^ 27)
    (hdelay : 0 ≤ pulseDelayMicroseconds) (hdelayMax : pulseDelayMicroseconds ≤ 2 ^ 27) :
    TimingSafe ceilRat pulseMicroseconds pulseDelayMicroseconds ↔
      pulseDelayMicroseconds ≤ 4 ∧ 17.95 < pulseMicroseconds ∨ 21.95 < pulseMicroseconds := by
  have htMin : tMinPeriod ceilRat pulseMicroseconds = ceilRat (20 * (pulseMicroseconds + 2)) := by
    unfold tMinPeriod
    norm_num
  have hT := toNat_ceilRat (x := 20 * (pulseMicroseconds + 2)) (by linarith) (by linarith)
  have hL := toNat_ceilRat hpulse (by linarith)
  have hD := toNat_ceilRat hdelay (by linarith)
  have hLmax : ⌈pulseMicroseconds⌉ ≤ 2 ^ 27 := Int.ceil_le.2 (by exact_mod_cast hpulseMax)
  have hDmax : ⌈pulseDelayMicroseconds⌉ ≤ 2 ^ 27 := Int.ceil_le.2 (by exact_mod_cast hdelayMax)
  have hTL : ⌈20 * (pulseMicroseconds + 2)⌉ ≤ 20 * ⌈pulseMicroseconds⌉ + 40 := by
    rw [Int.ceil_le]
    push_cast
    linarith [Int.le_ceil pulseMicroseconds]
  have hT400 : 399 < ⌈20 * (pulseMicroseconds + 2)⌉ ↔ 17.95 < pulseMicroseconds := by
    rw [Int.lt_ceil]
    push_cast
    constructor <;> intro h <;> linarith
  have hT480 : 479 < ⌈20 * (pulseMicroseconds + 2)⌉ ↔ 21.95 < pulseMicroseconds := by
    rw [Int.lt_ceil]
    push_cast
    constructor <;> intro h <;> linarith
  have hD4 : ⌈pulseDelayMicroseconds⌉ ≤ 4 ↔ pulseDelayMicroseconds ≤ 4 := by
    rw [Int.ceil_le]
    norm_num
  rw [← hT400, ← hT480, ← hD4, ← hD, ← hT]
  unfold TimingSafe settingsChanged
  simp only
  rw [samplesOf_eq (by omega), samplesOf_eq (by omega), htMin]
  omega

/-- No pins, a pulse of `pulse` microseconds and no delay. -/
def pulseSettings (pulse : ℚ) : StepperSettings where
  stepInvert _ := false
  dirInvert _ := false
  gangedDirInvert _ := false
  timing := settingsChanged ceilRat pulse 0

def noPins : Board where
  stepPins := []
  dirPins := []
  stepPin_lt := by intro ap hap; cases hap
  dirPin_lt := by intro ap hap; cases hap
  nodup := List.nodup_nil

/-- A pulse of 10 microseconds: 4 samples with the direction change take 16 microseconds, and
    the smallest period is 12. -/
theorem pulse_wait_wraps :
    ∃ u, Filler.Callback noPins (pulseSettings 10) (tMinPeriod ceilRat 10) 0
        (dueNow (tMinPeriod ceilRat 10)) [.pulseStart turnAround] u ∧
      ¬u.NoWrap (dueNow (tMinPeriod ceilRat 10)).rwPos := by
  obtain ⟨u, hu⟩ := callback_turnAround noPins (pulseSettings 10) (tMinPeriod ceilRat 10)
  refine ⟨u, hu, ?_⟩
  rw [hu.noWrap_iff]
  decide +kernel

/-- With a pulse of 20 microseconds the same callback keeps the wait from wrapping. -/
theorem pulse_wait_no_wrap_twenty :
    ∃ u, Filler.Callback noPins (pulseSettings 20) (tMinPeriod ceilRat 20) 0
        (dueNow (tMinPeriod ceilRat 20)) [.pulseStart turnAround] u ∧
      u.NoWrap (dueNow (tMinPeriod ceilRat 20)).rwPos := by
  obtain ⟨u, hu⟩ := callback_turnAround noPins (pulseSettings 20) (tMinPeriod ceilRat 20)
  have hsafe : TimingSafe ceilRat 20 0 := by
    unfold TimingSafe
    decide +kernel
  have hall := (pulse_wait_no_wrap_iff ceilRat 20 0 noPins (pulseSettings 20) rfl).2.2 hsafe
  exact ⟨u, hu, hall _ _ _ _ hu⟩

end Esp32Embroidery.I2s
