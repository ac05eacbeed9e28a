import Esp32Embroidery.I2s.StepPulse

/-!
# Filling a DMA buffer in stepping mode

`i2s_fillout_dma_buffer` fills a buffer of 500 samples. When the next pulse is due it
calls `pulse_func`, which may push samples of its own, else it stores the port. The
buffers end early: the loop stops 5 samples before the end. `i2s_out.c` (ESP32) and
`i2s_out_s3.c` differ in how the wait for the next pulse is updated.

One step is one turn of the loop, or one call that `pulse_func` or another task makes.

* `Stores`: a call that only stores samples, behind those that are there.
* `stores_pulseStart`: how many samples `I2SStepperPulseStart` stores, at most 6.
-/

namespace Esp32Embroidery.I2s

open Esp32Embroidery.Lib

/-! ## Model -/

/-- The two drivers, `i2s_out.c` and `i2s_out_s3.c`. -/
inductive Chip
  | esp32
  | esp32s3
  deriving DecidableEq

/-- `i2s_out_pulser_status_t` (`i2s_out.h` lines 176-181). -/
inductive PulserStatus
  | passthrough
  | stepping
  | waiting
  | stopped
  deriving DecidableEq

/-- Where the I2S task is. -/
inductive FillPc
  /-- waiting for a descriptor -/
  | wait
  /-- at the loop condition of `i2s_fillout_dma_buffer` -/
  | loop
  /-- in `pulse_func`, with `old_rw_pos` and the number of calls of
      `I2SStepperPulseStart` so far -/
  | callback (oldRwPos starts : ℕ)
  deriving DecidableEq

/-- The variables of stepping mode. `written` has the index and the value of every
    sample stored so far, in all buffers, and `periods` the value of `pulsePeriod`
    after each call of `pulse_func`; `length` is the descriptor length set last. -/
structure Filler where
  status : PulserStatus
  pulseFunc : Bool
  pulsePeriod : BitVec 32
  remain : BitVec 32
  rwPos : ℕ
  portData : BitVec 32
  length : ℕ
  pc : FillPc
  written : List (ℕ × BitVec 32)
  periods : List ℕ

namespace Filler

/-- Between two buffers, before any sample is stored. -/
def start (status : PulserStatus) (pulsePeriod remain portData : BitVec 32) : Filler where
  status := status
  pulseFunc := true
  pulsePeriod := pulsePeriod
  remain := remain
  rwPos := 0
  portData := portData
  length := i2sOutDmabufLen
  pc := .wait
  written := []
  periods := []

/-- `buf[rw_pos++] = port_data`. -/
def store (s : Filler) : Filler :=
  { s with rwPos := s.rwPos + 1, written := s.written ++ [(s.rwPos, s.portData)] }

/-- `n` samples. -/
def storeMany : ℕ → Filler → Filler
  | 0, s => s
  | n + 1, s => storeMany n s.store

/-- `i2s_out_push_sample` (`i2s_out.c` lines 555-569, `i2s_out_s3.c` lines 752-765). -/
def pushSample (s : Filler) (num : ℕ) : Filler :=
  if sampleSafeCount < num then s else s.storeMany (if num = 0 then 1 else num)

/-- Writes to pins. -/
def portWrites (s : Filler) (l : List (ℕ × Bool)) : Filler :=
  { s with portData := l.foldl (fun v w => portWrite v w.1 w.2) s.portData }

/-- The direction change of `I2SStepperPulseStart` (`driver.c` lines 914-919). -/
def dirStart (b : Board) (cfg : StepperSettings) (s : Filler) (stepper : Stepper) : Filler :=
  if stepper.dirChanged then
    let s := s.portWrites (dirOutputs b cfg stepper.dirOut)
    if stepper.stepOut.any then s.pushSample cfg.timing.delaySamples else s
  else s

/-- `I2SStepperPulseStart` (`driver.c` lines 912-926). -/
def pulseStart (b : Board) (cfg : StepperSettings) (s : Filler) (stepper : Stepper) : Filler :=
  let s := s.dirStart b cfg stepper
  if stepper.stepOut.any then
    let s := s.portWrites (stepOutputs b cfg stepper.stepOut)
    let s := s.pushSample cfg.timing.stepSamples
    s.portWrites (stepOutputs b cfg fun _ => false)
  else s

/-- The wait for the next pulse after `pulse_func` (`i2s_out.c` line 365,
    `i2s_out_s3.c` lines 536-540). -/
def remainAfter (chip : Chip) (remain pulsePeriod period : BitVec 32) : BitVec 32 :=
  match chip with
  | .esp32 => remain + (pulsePeriod - period)
  | .esp32s3 =>
    if period ≤ pulsePeriod then remain + (pulsePeriod - period)
    else remain + BitVec.ofNat 32 i2sOutUsecPerPulse

/-- One turn of the loop of `i2s_fillout_dma_buffer` up to the call of `pulse_func`, or
    its end (`i2s_out.c` lines 353-393, `i2s_out_s3.c` lines 516-569). -/
def turn (chip : Chip) (s : Filler) : Filler :=
  if s.rwPos < dmaSampleCount - sampleSafeCount then
    if s.remain.toNat < i2sOutUsecPerPulse ∧ s.status = .stepping ∧
        (chip = .esp32 → s.pulseFunc = true) then { s with pc := .callback s.rwPos 0 }
    else
      { s.store with
        remain :=
          if i2sOutUsecPerPulse ≤ s.remain.toNat then s.remain - BitVec.ofNat 32 i2sOutUsecPerPulse
          else 0 }
  else { s with length := s.rwPos * i2sSampleSize, pc := .wait }

/-- `pulse_func` returns (`i2s_out.c` lines 364-380, `i2s_out_s3.c` lines 534-557). -/
def returned (chip : Chip) (s : Filler) (oldRwPos : ℕ) : Filler :=
  let period := 4 * (BitVec.ofNat 32 s.rwPos - BitVec.ofNat 32 oldRwPos)
  let s := { s with
    remain := remainAfter chip s.remain s.pulsePeriod period
    periods := s.periods ++ [s.pulsePeriod.toNat] }
  if s.status = .passthrough then { s with
    remain := 0
    rwPos := dmaSampleCount
    length := dmaSampleCount * i2sSampleSize
    pc := .wait }
  else { s with pc := .loop }

/-- The I2S task takes a descriptor; `tail` tells whether it ends the chain
    (`i2sOutTask` in `i2s_out.c`, `i2s_step_gen` in `i2s_out_s3.c`). -/
def gen (s : Filler) (tail : Bool) : Filler :=
  match s.status with
  | .stepping => { s with rwPos := 0, pc := .loop }
  | .waiting =>
    if tail then { s with status := .passthrough }
    else { s with rwPos := 0, length := i2sOutDmabufLen }
  | .passthrough | .stopped => { s with rwPos := 0, length := i2sOutDmabufLen }

/-- `i2s_out_set_passthrough`. -/
def setPassthrough (s : Filler) : Filler :=
  if s.status = .stepping then { s with status := .waiting } else s

/-- `i2s_out_set_stepping`; while the status is `WAITING` it only waits. The buffers are
    cleared. -/
def setStepping (chip : Chip) (s : Filler) : Filler :=
  match s.status, chip with
  | .stepping, _ | .waiting, _ => s
  | _, .esp32 => { s with status := .stepping, length := i2sOutDmabufLen }
  | _, .esp32s3 =>
    if s.pulseFunc then { s with status := .stepping, rwPos := 0, length := i2sOutDmabufLen }
    else { s with status := .passthrough }

/-- `i2s_out_reset`. -/
def reset (s : Filler) : Filler :=
  match s.status with
  | .stepping => { s with length := i2sOutDmabufLen }
  | .waiting => { s with status := .passthrough }
  | .passthrough | .stopped => s

end Filler

inductive FillEvent
  /-- a descriptor for the I2S task -/
  | gen (tail : Bool)
  /-- a turn of the loop -/
  | turn
  /-- `i2s_out_push_sample`, called by `pulse_func` -/
  | push (num : ℕ)
  /-- `I2SStepperPulseStart`, called by `pulse_func` -/
  | pulseStart (stepper : Stepper)
  /-- `pulse_func` returns -/
  | ret
  /-- `i2s_out_set_pulse_period` -/
  | setPulsePeriod (period : BitVec 32)
  /-- `i2s_out_set_pulse_callback` -/
  | setPulseCallback (func : Bool)
  /-- `i2s_out_write` -/
  | write (pin : ℕ) (val : Bool)
  | setPassthrough
  | setStepping
  | reset
  /-- `i2s_out_start(PASSTHROUGH)`, called by the DMA interrupt of `i2s_out_s3.c` -/
  | startPassthrough

namespace Filler

variable (chip : Chip) (b : Board) (cfg : StepperSettings)

def step (s : Filler) : FillEvent → Option Filler
  | .gen tail => if s.pc = .wait then some (s.gen tail) else none
  | .turn => if s.pc = .loop then some (s.turn chip) else none
  | .push num => match s.pc with
    | .callback _ _ => some (s.pushSample num)
    | _ => none
  | .pulseStart stepper => match s.pc with
    | .callback oldRwPos starts =>
      some { s.pulseStart b cfg stepper with pc := .callback oldRwPos (starts + 1) }
    | _ => none
  | .ret => match s.pc with
    | .callback oldRwPos _ => some (s.returned chip oldRwPos)
    | _ => none
  | .setPulsePeriod period => some { s with pulsePeriod := period }
  | .setPulseCallback func => some { s with pulseFunc := func }
  | .write pin val => some (s.portWrites [(pin, val)])
  | .setPassthrough => some s.setPassthrough
  | .setStepping => some (s.setStepping chip)
  | .reset => some s.reset
  | .startPassthrough => if chip = .esp32s3 then some { s with status := .passthrough } else none

end Filler

def fillers (chip : Chip) (b : Board) (cfg : StepperSettings) (start : Filler) :
    Machine Filler FillEvent where
  init := start
  step := Filler.step chip b cfg

/-! ## Steps of the I2S task -/

namespace Filler

section

variable {chip : Chip} {b : Board} {cfg : StepperSettings} {s t : Filler}

theorem step_gen {tail : Bool} :
    s.step chip b cfg (.gen tail) = some t ↔ s.pc = .wait ∧ s.gen tail = t := by
  simp only [step, Option.ite_none_right_eq_some, Option.some.injEq]

theorem step_turn : s.step chip b cfg .turn = some t ↔ s.pc = .loop ∧ s.turn chip = t := by
  simp only [step, Option.ite_none_right_eq_some, Option.some.injEq]

/-- What `pulse_func` does happens while it runs. -/
theorem callback_of_eq_some {f : ℕ → ℕ → Filler} {pc : FillPc}
    (h : (match pc with
      | .callback oldRwPos starts => some (f oldRwPos starts)
      | _ => none) = some t) :
    ∃ oldRwPos starts, pc = .callback oldRwPos starts ∧ f oldRwPos starts = t := by
  cases pc with
  | wait => cases h
  | loop => cases h
  | callback oldRwPos starts => exact ⟨oldRwPos, starts, rfl, Option.some.inj h⟩

theorem step_push {num : ℕ} (h : s.step chip b cfg (.push num) = some t) :
    ∃ oldRwPos starts, s.pc = .callback oldRwPos starts ∧ s.pushSample num = t :=
  callback_of_eq_some h

theorem step_pulseStart {stepper : Stepper} (h : s.step chip b cfg (.pulseStart stepper) = some t) :
    ∃ oldRwPos starts, s.pc = .callback oldRwPos starts ∧
      { s.pulseStart b cfg stepper with pc := .callback oldRwPos (starts + 1) } = t :=
  callback_of_eq_some h

theorem step_ret (h : s.step chip b cfg .ret = some t) :
    ∃ oldRwPos starts, s.pc = .callback oldRwPos starts ∧ s.returned chip oldRwPos = t :=
  callback_of_eq_some h

theorem step_startPassthrough (h : s.step chip b cfg .startPassthrough = some t) :
    { s with status := .passthrough } = t := by
  simp only [step, Option.ite_none_right_eq_some, Option.some.injEq] at h
  exact h.2

end

end Filler

/-! ## Samples stored by a call -/

/-- The samples that `I2SStepperPulseStart` pushes. -/
def Stepper.samples (timing : StepTiming) (stepper : Stepper) : ℕ :=
  if stepper.stepOut.any then
    (if stepper.dirChanged then timing.delaySamples else 0) + timing.stepSamples
  else 0

theorem Stepper.samples_le (timing : StepTiming) (stepper : Stepper) :
    stepper.samples timing ≤ timing.delaySamples + timing.stepSamples := by
  unfold samples
  split_ifs <;> omega

namespace Filler

/-- `t` is `s` with `n` more samples behind `rwPos`, and possibly another port. -/
def Stores (s t : Filler) (n : ℕ) : Prop :=
  ∃ samples portData,
    t = { s with
      rwPos := s.rwPos + n
      portData := portData
      written := s.written ++ samples } ∧
    samples.length = n ∧ ∀ w ∈ samples, w.1 < s.rwPos + n

variable {s t u : Filler} {m n : ℕ}

theorem stores_portWrites (s : Filler) (l : List (ℕ × Bool)) : Stores s (s.portWrites l) 0 :=
  ⟨[], _, by simp only [portWrites, List.append_nil, Nat.add_zero]; rfl, rfl,
    by intro w hw; cases hw⟩

theorem stores_store (s : Filler) : Stores s s.store 1 := by
  refine ⟨[(s.rwPos, s.portData)], s.portData, rfl, rfl, ?_⟩
  intro w hw
  rw [List.mem_singleton.1 hw]
  exact Nat.lt_succ_self _

theorem Stores.trans (h : Stores s t m) (h' : Stores t u n) : Stores s u (m + n) := by
  obtain ⟨l, pd, rfl, hlen, hl⟩ := h
  obtain ⟨l', pd', rfl, hlen', hl'⟩ := h'
  refine ⟨l ++ l', pd', by simp only [List.append_assoc, Nat.add_assoc], by
    rw [List.length_append, hlen, hlen'], ?_⟩
  intro w hw
  rcases List.mem_append.1 hw with hw | hw
  · have := hl w hw
    omega
  · have := hl' w hw
    simp only at this
    omega

theorem stores_storeMany (s : Filler) (n : ℕ) : Stores s (s.storeMany n) n := by
  induction n generalizing s with
  | zero => exact stores_portWrites s []
  | succ n ih =>
    have hstores := (stores_store s).trans (ih s.store)
    rwa [Nat.add_comm] at hstores

/-- The number of samples that a call of `i2s_out_push_sample` stores. -/
def pushCount (num : ℕ) : ℕ := if sampleSafeCount < num then 0 else if num = 0 then 1 else num

theorem stores_pushSample (s : Filler) (num : ℕ) : Stores s (s.pushSample num) (pushCount num) := by
  unfold pushSample pushCount
  split_ifs
  · exact stores_portWrites s []
  · exact stores_storeMany s 1
  · exact stores_storeMany s num

theorem pushCount_of_le {num : ℕ} (h : 1 ≤ num) (h' : num ≤ sampleSafeCount) :
    pushCount num = num := by
  rw [pushCount, if_neg (by omega), if_neg (by omega)]

/-- Outputs that are set, and samples that hold them. -/
theorem stores_hold (s : Filler) (l : List (ℕ × Bool)) (h : 1 ≤ n) (h' : n ≤ sampleSafeCount) :
    Stores s ((s.portWrites l).pushSample n) n := by
  have hstores := (stores_portWrites s l).trans (stores_pushSample (s.portWrites l) n)
  rw [pushCount_of_le h h', Nat.zero_add] at hstores
  exact hstores

theorem stores_dirStart (b : Board) (cfg : StepperSettings) (s : Filler) (stepper : Stepper) :
    Stores s (s.dirStart b cfg stepper)
      (if stepper.stepOut.any ∧ stepper.dirChanged then cfg.timing.delaySamples else 0) := by
  have hbounds := cfg.timing.delay_bounds
  unfold dirStart
  by_cases hchanged : stepper.dirChanged = true
  · by_cases hany : stepper.stepOut.any = true
    · rw [if_pos hchanged, if_pos hany, if_pos ⟨hany, hchanged⟩]
      exact stores_hold s _ hbounds.1 (hbounds.2.trans (show 2 ≤ sampleSafeCount by decide))
    · rw [if_pos hchanged, if_neg hany, if_neg fun h => hany h.1]
      exact stores_portWrites s _
  · rw [if_neg hchanged, if_neg fun h => hchanged h.2]
    exact stores_portWrites s []

/-- A call of `I2SStepperPulseStart` stores exactly its samples. -/
theorem stores_pulseStart (b : Board) (cfg : StepperSettings) (s : Filler) (stepper : Stepper) :
    Stores s (s.pulseStart b cfg stepper) (stepper.samples cfg.timing) := by
  have hbounds := cfg.timing.step_bounds
  have hdir := stores_dirStart b cfg s stepper
  unfold pulseStart Stepper.samples
  by_cases hany : stepper.stepOut.any = true
  · simp only [hany, true_and, if_true] at hdir ⊢
    have hset := hdir.trans (stores_hold _ (stepOutputs b cfg stepper.stepOut) hbounds.1
      (hbounds.2.trans (show 4 ≤ sampleSafeCount by decide)))
    exact hset.trans (stores_portWrites _ _)
  · rw [if_neg fun h => hany h.1] at hdir
    rw [if_neg hany, if_neg hany]
    exact hdir

end Filler

end Esp32Embroidery.I2s
