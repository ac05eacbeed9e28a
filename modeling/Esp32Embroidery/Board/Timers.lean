import Mathlib.Tactic.Common

/-!
# Hardware timers (`timers.c`)

`timerStart` leaves the hardware alone if the timer is periodic and the period is the one in its
configuration. `timerStop` clears that period, but `timerCfg` pauses the counter and takes the
period over from the caller.

* `primed_after`, `runs_of_not_primed`: what the configuration says about the hardware.
* `timerStart_runs_iff`: a timer does not start iff it was just configured with that period.
-/

namespace Esp32Embroidery.Board

/-! ## Model -/

/-- The members of `timer_cfg_t` that are used here. -/
structure TimerCfg where
  singleShot : Bool
  period : ℕ

/-- The registers of a timer; `divider` is the one that `timer_init` is given. -/
structure TimerHw where
  counterEnable : Bool
  counter : ℕ
  alarmValue : ℕ
  alarmEnable : Bool
  autoReload : Bool
  divider : ℕ

/-- `dtimer_t` with its registers. -/
structure DTimer where
  cfg : TimerCfg
  freqHz : ℕ
  timebase : ℕ
  hw : TimerHw

/-- A timer after `timerClaim` (lines 76–90): nothing has been configured. -/
def timerClaim (timebase : ℕ) (hw : TimerHw) : DTimer :=
  { cfg := { singleShot := false, period := 0 }
    freqHz := 80000000
    timebase := timebase
    hw := hw }

/-- Line 110, in `uint32_t`. -/
def timerDivider (freqHz timebase : ℕ) : ℕ := freqHz / 1000 * timebase % 4294967296 / 1000000

/-- `timerCfg` (lines 92–119). `timer_init` takes dividers from 2 to 65536, as every timebase
    from 25 ns to 53 µs has at 80 MHz; it leaves the alarm value. -/
def timerCfg (t : DTimer) (cfg : TimerCfg) : DTimer :=
  { t with
    cfg := cfg
    hw := { t.hw with
      counterEnable := false
      counter := 0
      alarmEnable := true
      autoReload := !cfg.singleShot
      divider := timerDivider t.freqHz t.timebase } }

/-- `timerStart` (lines 121–137) -/
def timerStart (t : DTimer) (period : ℕ) : DTimer :=
  if t.cfg.singleShot = true ∨ period ≠ t.cfg.period then
    { t with
      cfg := { t.cfg with period := period }
      hw := { t.hw with
        counter := 0, alarmValue := period, counterEnable := true, alarmEnable := true } }
  else t

/-- `timerStop` (lines 139–145) -/
def timerStop (t : DTimer) : DTimer :=
  { t with
    cfg := { t.cfg with period := 0 }
    hw := { t.hw with counterEnable := false } }

inductive TimerCall
  | cfg (cfg : TimerCfg)
  | start (period : ℕ)
  | stop

/-- The timer after the calls, the last one first. -/
def afterCalls (t : DTimer) : List TimerCall → DTimer
  | [] => t
  | .cfg cfg :: calls => timerCfg (afterCalls t calls) cfg
  | .start period :: calls => timerStart (afterCalls t calls) period
  | .stop :: calls => timerStop (afterCalls t calls)

/-! ## When a timer does not start -/

/-- Before its starts with `period`, the last call configured the timer as periodic with it. -/
def Primed (period : ℕ) : List TimerCall → Prop
  | .cfg cfg :: _ => cfg.singleShot = false ∧ cfg.period = period
  | .start p :: calls => p = period ∧ Primed period calls
  | _ => False

section

variable {t : DTimer} {period : ℕ} {calls : List TimerCall}

theorem timerStart_skips (hshot : t.cfg.singleShot = false) (hperiod : t.cfg.period = period) :
    timerStart t period = t := by
  unfold timerStart
  rw [if_neg]
  rintro (h | h)
  · rw [hshot] at h
    cases h
  · exact h hperiod.symm

/-- A timer that was configured so stays paused. -/
theorem primed_after (h : Primed period calls) :
    (afterCalls t calls).cfg.singleShot = false ∧ (afterCalls t calls).cfg.period = period ∧
      (afterCalls t calls).hw.counterEnable = false := by
  induction calls with
  | nil => exact h.elim
  | cons call calls ih =>
    cases call with
    | cfg cfg => exact ⟨h.1, h.2, rfl⟩
    | start p =>
      obtain ⟨rfl, hprimed⟩ := h
      obtain ⟨hshot, hperiod, hpaused⟩ := ih hprimed
      rw [afterCalls, timerStart_skips hshot hperiod]
      exact ⟨hshot, hperiod, hpaused⟩
    | stop => exact h.elim

/-- Otherwise a period in the configuration of a periodic timer is the one it runs with. -/
theorem runs_of_not_primed {timebase : ℕ} {hw : TimerHw} (h : ¬ Primed period calls)
    (hpos : 0 < period)
    (hshot : (afterCalls (timerClaim timebase hw) calls).cfg.singleShot = false)
    (hperiod : (afterCalls (timerClaim timebase hw) calls).cfg.period = period) :
    (afterCalls (timerClaim timebase hw) calls).hw.counterEnable = true ∧
      (afterCalls (timerClaim timebase hw) calls).hw.alarmValue = period := by
  induction calls with
  | nil =>
    have hzero : 0 = period := hperiod
    omega
  | cons call calls ih =>
    cases call with
    | cfg cfg => exact absurd ⟨hshot, hperiod⟩ h
    | stop =>
      have hzero : 0 = period := hperiod
      omega
    | start p =>
      unfold afterCalls timerStart at hshot hperiod ⊢
      split
      · rename_i hset
        rw [if_pos hset] at hperiod
        exact ⟨rfl, hperiod⟩
      · rename_i hskip
        rw [if_neg hskip] at hshot hperiod
        have hp : p = period := by
          rw [← hperiod]
          exact not_not.1 fun hne => hskip (.inr hne)
        exact ih (fun hprimed => h ⟨hp, hprimed⟩) hshot hperiod

end

/-! ## The result -/

/-- After any calls on a claimed timer: started with a period it runs with it, iff it was not
    configured as periodic with this period by the last call before such starts. -/
theorem timerStart_runs_iff (timebase : ℕ) (hw : TimerHw) (calls : List TimerCall) {period : ℕ}
    (hpos : 0 < period) :
    ((afterCalls (timerClaim timebase hw) (.start period :: calls)).hw.counterEnable = true ∧
      (afterCalls (timerClaim timebase hw) (.start period :: calls)).hw.alarmValue = period) ↔
      ¬ Primed period calls := by
  rw [afterCalls]
  constructor
  · intro ⟨hrun, _⟩ hprimed
    obtain ⟨hshot, hperiod, hpaused⟩ := primed_after (t := timerClaim timebase hw) hprimed
    rw [timerStart_skips hshot hperiod, hpaused] at hrun
    cases hrun
  · intro hprimed
    unfold timerStart
    split
    · exact ⟨rfl, rfl⟩
    · rename_i hskip
      obtain ⟨hshot, hperiod⟩ := not_or.1 hskip
      exact runs_of_not_primed hprimed hpos (by simpa using hshot)
        (not_not.1 hperiod).symm

/-- Stopped and started again. -/
theorem timerStart_runs_again :
    (afterCalls (timerClaim 1000 ⟨false, 0, 0, false, false, 2⟩)
        [.start 50, .stop, .start 50, .cfg ⟨false, 0⟩]).hw.counterEnable = true ∧
      (afterCalls (timerClaim 1000 ⟨false, 0, 0, false, false, 2⟩)
        [.start 50, .stop, .start 50, .cfg ⟨false, 0⟩]).hw.alarmValue = 50 :=
  (timerStart_runs_iff 1000 _ [.stop, .start 50, .cfg ⟨false, 0⟩] (by decide)).2 id

/-- A timer that is configured with a period and started with it stays paused. -/
theorem timerStart_paused :
    (afterCalls (timerClaim 1000 ⟨false, 0, 0, false, false, 2⟩)
      [.start 50, .cfg ⟨false, 50⟩]).hw.counterEnable = false := rfl

end Esp32Embroidery.Board
