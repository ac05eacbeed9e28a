import Esp32Embroidery.I2s.PassRing
import Esp32Embroidery.I2s.Timing
import Mathlib.Data.List.Nodup

/-!
# Step pulses in passthrough mode

`stepperPulseStart` (`driver.c`) writes the direction and step pins to `port_data`
and commits. The delay samples and the samples after the pulse are `port_data` with
the bits of `step_mask` cleared, which is the inactive level of a step pin only if it
is not inverted. `i2s_set_step_mask` takes the mask from `port_data` after all step
pins were set active, so that it lacks the pins of inverted axes: these are neither
cleared during the delay nor restored after the pulse.

Main results:

* `stepPulse_levels`: a sequence of calls gives every axis the levels it should have
  iff no call steps an inverted axis; straight from start-up, iff no axis is inverted.
* `stepPulse_stuck`: a pulse on an inverted axis.
-/

namespace Esp32Embroidery.I2s

open Esp32Embroidery.Lib

/-! ## Model -/

/-- The axes of `axes_signals_t`. -/
inductive Axis
  | x | y | z | a | b | c | u | v | w
  deriving DecidableEq

/-- `axes_signals_t`. -/
abbrev AxesSignals := Axis → Bool

/-- `.bits` is not 0. -/
def AxesSignals.any (s : AxesSignals) : Bool :=
  [Axis.x, .y, .z, .a, .b, .c, .u, .v, .w].any s

theorem AxesSignals.any_eq_false {s : AxesSignals} : AxesSignals.any s = false ↔ ∀ axis, s axis = false := by
  constructor
  · intro h axis
    simp only [AxesSignals.any, List.any_cons, List.any_nil, Bool.or_false,
      Bool.or_eq_false_iff] at h
    cases axis <;> simp only [h]
  · intro h
    simp [AxesSignals.any, h]

/-- The pins of a board on the I2S port, without `I2S_OUT_PIN_BASE`, in the order in
    which they are written. A direction pin of a ganged motor is marked. -/
structure Board where
  stepPins : List (Axis × ℕ)
  dirPins : List (Axis × Bool × ℕ)
  stepPin_lt : ∀ ap ∈ stepPins, ap.2 < 32
  dirPin_lt : ∀ ap ∈ dirPins, ap.2.2 < 32
  nodup : (stepPins.map Prod.snd ++ dirPins.map fun ap => ap.2.2).Nodup

/-- `settings.steppers`, and the lengths of a pulse. -/
structure StepperSettings where
  stepInvert : AxesSignals
  dirInvert : AxesSignals
  gangedDirInvert : AxesSignals
  timing : StepTiming

/-- `stepper_t`: whether `dir_changed` has a bit, `step_out` and `dir_out`. -/
structure Stepper where
  dirChanged : Bool
  stepOut : AxesSignals
  dirOut : AxesSignals

/-- The I2S port and the static variable of `stepperPulseStart`. -/
structure Driver where
  i2s : I2sSr
  addDirDelay : Bool

section Model

variable (b : Board) (cfg : StepperSettings)

/-- The writes of `i2s_set_step_outputs` (lines 982-1017). -/
def stepOutputs (stepOut : AxesSignals) : List (ℕ × Bool) :=
  b.stepPins.map fun ap => (ap.2, stepOut ap.1 ^^ cfg.stepInvert ap.1)

/-- The writes of `set_dir_outputs` (lines 745-849). -/
def dirOutputs (dirOut : AxesSignals) : List (ℕ × Bool) :=
  b.dirPins.map fun ap =>
    (ap.2.2, dirOut ap.1 ^^ cfg.dirInvert ap.1 ^^ (ap.2.1 && cfg.gangedDirInvert ap.1))

def I2sSr.writeAll (s : I2sSr) (l : List (ℕ × Bool)) : I2sSr :=
  l.foldl (fun s w => s.write w.1 w.2) s

/-- `stepperPulseStart` (lines 1683-1707). -/
def stepperPulseStart (d : Driver) (stepper : Stepper) : Driver :=
  let d :=
    if stepper.dirChanged then
      let i2s := d.i2s.writeAll (dirOutputs b cfg stepper.dirOut)
      if stepper.stepOut.any then { i2s := i2s, addDirDelay := true }
      else { i2s := i2s.commit 0 cfg.timing.delaySamples, addDirDelay := false }
    else d
  if stepper.stepOut.any then
    { i2s := (d.i2s.writeAll (stepOutputs b cfg stepper.stepOut)).commit cfg.timing.stepSamples
        (if d.addDirDelay then cfg.timing.delaySamples else 0)
      addDirDelay := false }
  else d

/-- `i2s_set_step_outputs` with all bits on the empty port, then `i2s_set_step_mask`
    (`driver.c` lines 3210-3211, `i2s_out_s3.c` lines 842-851). An inverted axis clears
    its pin, so the mask lacks it. -/
def startUp : Driver :=
  let portData := (stepOutputs b cfg fun _ => true).foldl (fun v w => portWrite v w.1 w.2) 0
  { i2s := i2sOutStart (portData ^^^ portData) portData true, addDirDelay := false }

/-- `stepperGoIdle(true)` (lines 1736-1751). -/
def stepperGoIdle (d : Driver) : Driver :=
  let i2s := d.i2s.writeAll (stepOutputs b cfg fun _ => false)
  { d with i2s := i2s.writeAll (dirOutputs b cfg fun _ => false) }

/-- Calls of `stepperPulseStart` from a given state. -/
def pulses (start : Driver) : Machine Driver Stepper where
  init := start
  step d stepper := some (stepperPulseStart b cfg d stepper)

/-! ## Levels -/

/-- The samples the idle descriptor shows before and between the writes of a list. -/
def I2sSr.idleSamples (s : I2sSr) : List (ℕ × Bool) → List (BitVec 32)
  | [] => [s.buffer s.idle]
  | w :: ws => s.buffer s.idle :: (s.write w.1 w.2).idleSamples ws

/-- The writes of a call. -/
def Stepper.writes (stepper : Stepper) : List (ℕ × Bool) :=
  (if stepper.dirChanged then dirOutputs b cfg stepper.dirOut else []) ++
    if stepper.stepOut.any then stepOutputs b cfg stepper.stepOut else []

/-- The number of samples before the pulse: the direction delay. -/
def Stepper.delay (stepper : Stepper) : ℕ :=
  if stepper.dirChanged then cfg.timing.delaySamples else 0

/-- Every step pin has its inactive level. -/
def Inactive (v : BitVec 32) : Prop := ∀ ap ∈ b.stepPins, v.getLsbD ap.2 = cfg.stepInvert ap.1

/-- The call shows a pulse of `i2s_step_samples` samples after the direction delay on
    the pins of the axes that step, and the inactive level elsewhere: in the idle
    samples before the commit, before and after the pulse, and on the other axes. -/
structure ShowsPulse (d : Driver) (stepper : Stepper) (d' : Driver) : Prop where
  idle : ∀ v ∈ d.i2s.idleSamples (stepper.writes b cfg), Inactive b cfg v
  emitted : stepper.dirChanged = true ∨ stepper.stepOut.any = true →
    ∀ k, ∀ ap ∈ b.stepPins, (d'.i2s.emits d.i2s.idle k).getLsbD ap.2 =
      (cfg.stepInvert ap.1 ^^ (stepper.stepOut ap.1 && (decide (stepper.delay cfg ≤ k) &&
        decide (k < stepper.delay cfg + cfg.timing.stepSamples))))

/-- The call steps no axis with an inverted step pin. -/
def StepsUninverted (_ : Driver) (stepper : Stepper) (_ : Driver) : Prop :=
  ∀ ap ∈ b.stepPins, cfg.stepInvert ap.1 = true → stepper.stepOut ap.1 = false

end Model

/-! ## Bits of the port -/

theorem getLsbD_bit (p : ℕ) {q : ℕ} (hq : q < 32) : (bit p).getLsbD q = decide (p = q) := by
  rw [Bool.eq_iff_iff]
  simp only [bit, BitVec.getLsbD_shiftLeft, BitVec.getLsbD_one, Bool.and_eq_true,
    Bool.not_eq_true', decide_eq_true_eq, decide_eq_false_iff_not]
  omega

/-- A write changes its own pin. -/
theorem getLsbD_portWrite (v : BitVec 32) (p : ℕ) (val : Bool) {q : ℕ} (hq : q < 32) :
    (portWrite v p val).getLsbD q = if p = q then val else v.getLsbD q := by
  unfold portWrite
  cases val with
  | true =>
    simp only [if_true, BitVec.getLsbD_or, getLsbD_bit p hq]
    split_ifs with h <;> simp [h]
  | false =>
    simp only [Bool.false_eq_true, if_false, BitVec.getLsbD_and, BitVec.getLsbD_not,
      getLsbD_bit p hq, hq]
    split_ifs with h <;> simp [h]

/-- The bits of the mask cleared. -/
theorem getLsbD_clear (v mask : BitVec 32) {q : ℕ} (hq : q < 32) :
    (v &&& ~~~mask).getLsbD q = (v.getLsbD q && !mask.getLsbD q) := by
  simp [hq]

/-- A list of writes leaves the other pins alone. -/
theorem getLsbD_portWrites_of_notMem {l : List (ℕ × Bool)} {q : ℕ} (hq : q < 32)
    (h : q ∉ l.map Prod.fst) (v : BitVec 32) :
    (l.foldl (fun v w => portWrite v w.1 w.2) v).getLsbD q = v.getLsbD q := by
  induction l generalizing v with
  | nil => rfl
  | cons w ws ih =>
    rw [List.map_cons, List.mem_cons, not_or] at h
    rw [List.foldl_cons, ih h.2, getLsbD_portWrite v w.1 w.2 hq, if_neg (Ne.symm h.1)]

/-- Writes to different pins all remain. -/
theorem getLsbD_portWrites {l : List (ℕ × Bool)} (hnodup : (l.map Prod.fst).Nodup) {q : ℕ}
    (hq : q < 32) {val : Bool} (h : (q, val) ∈ l) (v : BitVec 32) :
    (l.foldl (fun v w => portWrite v w.1 w.2) v).getLsbD q = val := by
  induction l generalizing v with
  | nil => cases h
  | cons w ws ih =>
    rw [List.map_cons, List.nodup_cons] at hnodup
    rw [List.foldl_cons]
    rcases List.mem_cons.1 h with rfl | h
    · rw [getLsbD_portWrites_of_notMem hq hnodup.1, getLsbD_portWrite v q val hq, if_pos rfl]
    · exact ih hnodup.2 h _

/-! ## Writes to the port -/

section

variable {b : Board} {cfg : StepperSettings}

/-- The mask has the step pins that are not inverted, and the idle descriptor shows the
    port with the mask cleared. -/
structure I2sSr.Ready (b : Board) (cfg : StepperSettings) (s : I2sSr) : Prop where
  ring : s.Ring
  passthrough : s.passthrough = true
  mask : ∀ ap ∈ b.stepPins, s.stepMask.getLsbD ap.2 = !cfg.stepInvert ap.1
  shown : s.buffer s.idle = s.portData &&& ~~~s.stepMask

/-- The pins of the inverted axes are set, which is their inactive level. -/
def I2sSr.Quiet (b : Board) (cfg : StepperSettings) (s : I2sSr) : Prop :=
  ∀ ap ∈ b.stepPins, cfg.stepInvert ap.1 = true → s.portData.getLsbD ap.2 = true

/-- No write clears the pin of an inverted axis. -/
def Keeps (b : Board) (cfg : StepperSettings) (l : List (ℕ × Bool)) : Prop :=
  ∀ w ∈ l, ∀ ap ∈ b.stepPins, ap.2 = w.1 → cfg.stepInvert ap.1 = true → w.2 = true

namespace I2sSr

variable {s : I2sSr}

theorem Ready.getLsbD_clear (h : s.Ready b cfg) (v : BitVec 32) {ap : Axis × ℕ}
    (hap : ap ∈ b.stepPins) :
    (v &&& ~~~s.stepMask).getLsbD ap.2 = (v.getLsbD ap.2 && cfg.stepInvert ap.1) := by
  rw [I2s.getLsbD_clear v s.stepMask (b.stepPin_lt ap hap), h.mask ap hap, Bool.not_not]

/-- With the mask cleared, every pin is inactive if the inverted ones are set. -/
theorem Ready.inactive (h : s.Ready b cfg) (hq : s.Quiet b cfg) :
    Inactive b cfg (s.portData &&& ~~~s.stepMask) := by
  intro ap hap
  rw [h.getLsbD_clear _ hap]
  cases hinv : cfg.stepInvert ap.1 with
  | true => rw [hq ap hap hinv, Bool.and_true]
  | false => rw [Bool.and_false]

theorem Ready.write (h : s.Ready b cfg) (p : ℕ) (val : Bool) : (s.write p val).Ready b cfg where
  ring := h.ring.write p val
  passthrough := h.passthrough
  mask := h.mask
  shown := by simp [I2sSr.write, h.passthrough]

theorem Quiet.write (h : s.Quiet b cfg) {w : ℕ × Bool} {ws : List (ℕ × Bool)}
    (hw : Keeps b cfg (w :: ws)) : (s.write w.1 w.2).Quiet b cfg := by
  intro ap hap hinv
  show (portWrite _ _ _).getLsbD _ = true
  rw [getLsbD_portWrite _ _ _ (b.stepPin_lt ap hap)]
  split_ifs with hp
  · exact hw w List.mem_cons_self ap hap hp.symm hinv
  · exact h ap hap hinv

theorem writeAll_portData (l : List (ℕ × Bool)) :
    (s.writeAll l).portData = l.foldl (fun v w => portWrite v w.1 w.2) s.portData := by
  induction l generalizing s with
  | nil => rfl
  | cons w ws ih => exact ih

@[simp] theorem writeAll_idle (l : List (ℕ × Bool)) : (s.writeAll l).idle = s.idle := by
  induction l generalizing s with
  | nil => rfl
  | cons w ws ih => exact ih

theorem writeAll_append (l l' : List (ℕ × Bool)) :
    s.writeAll (l ++ l') = (s.writeAll l).writeAll l' := List.foldl_append

theorem Ready.writeAll (h : s.Ready b cfg) (l : List (ℕ × Bool)) : (s.writeAll l).Ready b cfg := by
  induction l generalizing s with
  | nil => exact h
  | cons w ws ih => exact ih (h.write w.1 w.2)

theorem Quiet.writeAll (h : s.Quiet b cfg) {l : List (ℕ × Bool)} (hl : Keeps b cfg l) :
    (s.writeAll l).Quiet b cfg := by
  induction l generalizing s with
  | nil => exact h
  | cons w ws ih => exact ih (h.write hl) fun v hv => hl v (List.mem_cons_of_mem w hv)

/-- Then the idle descriptor shows every pin inactive between the writes. -/
theorem Ready.idleSamples (h : s.Ready b cfg) (hq : s.Quiet b cfg) {l : List (ℕ × Bool)}
    (hl : Keeps b cfg l) : ∀ v ∈ s.idleSamples l, Inactive b cfg v := by
  induction l generalizing s with
  | nil =>
    intro v hv
    rw [List.mem_singleton.1 hv, h.shown]
    exact h.inactive hq
  | cons w ws ih =>
    intro v hv
    rcases List.mem_cons.1 hv with rfl | hv
    · rw [h.shown]
      exact h.inactive hq
    · exact ih (h.write w.1 w.2) (hq.write hl) (fun u hu => hl u (List.mem_cons_of_mem w hu)) v hv

theorem mem_idleSamples (l : List (ℕ × Bool)) : s.buffer s.idle ∈ s.idleSamples l := by
  cases l with
  | nil => exact List.mem_singleton_self _
  | cons w ws => exact List.mem_cons_self

end I2sSr

/-! ## The writes of a call -/

theorem keeps_dirOutputs (dirOut : AxesSignals) : Keeps b cfg (dirOutputs b cfg dirOut) := by
  intro w hw ap hap hp
  obtain ⟨dp, hdp, rfl⟩ := List.mem_map.1 hw
  have hdisj := (List.nodup_append.1 b.nodup).2.2
  exact absurd hp (hdisj _ (List.mem_map_of_mem hap) _ (List.mem_map_of_mem hdp))

theorem keeps_stepOutputs {stepOut : AxesSignals}
    (h : ∀ ap ∈ b.stepPins, cfg.stepInvert ap.1 = true → stepOut ap.1 = false) :
    Keeps b cfg (stepOutputs b cfg stepOut) := by
  intro w hw ap hap hp hinv
  obtain ⟨sp, hsp, rfl⟩ := List.mem_map.1 hw
  have hnodup := (List.nodup_append.1 b.nodup).1
  have hsame : ap = sp := List.inj_on_of_nodup_map hnodup hap hsp hp
  subst hsame
  simp only [h ap hap hinv, hinv, Bool.xor_true, Bool.not_false]

/-- After `i2s_set_step_outputs` every step pin has its level. -/
theorem getLsbD_stepOutputs (s : I2sSr) (stepOut : AxesSignals) {ap : Axis × ℕ}
    (hap : ap ∈ b.stepPins) :
    (s.writeAll (stepOutputs b cfg stepOut)).portData.getLsbD ap.2 =
      (stepOut ap.1 ^^ cfg.stepInvert ap.1) := by
  rw [I2sSr.writeAll_portData]
  apply getLsbD_portWrites
  · have hnodup := (List.nodup_append.1 b.nodup).1
    simpa [stepOutputs, Function.comp_def] using hnodup
  · exact b.stepPin_lt ap hap
  · exact List.mem_map_of_mem hap

/-! ## One call -/

/-- Between two calls. -/
structure Driver.Ready (b : Board) (cfg : StepperSettings) (d : Driver) : Prop where
  i2s : d.i2s.Ready b cfg
  quiet : d.i2s.Quiet b cfg
  delay : d.addDirDelay = false

/-- The number of samples of the pulse. -/
def Stepper.pulse (cfg : StepperSettings) (stepper : Stepper) : ℕ :=
  if stepper.stepOut.any then cfg.timing.stepSamples else 0

theorem Stepper.samples_lt (cfg : StepperSettings) (stepper : Stepper) :
    stepper.delay cfg + stepper.pulse cfg + 1 < dmaSampleCountPasstrough := by
  have hdelay := cfg.timing.delay_bounds
  have hstep := cfg.timing.step_bounds
  simp only [Stepper.delay, Stepper.pulse, dmaSampleCountPasstrough]
  split_ifs <;> omega

/-- A call that does something is its writes and one commit. -/
theorem stepperPulseStart_eq {d : Driver} (h : d.addDirDelay = false) {stepper : Stepper}
    (hdo : stepper.dirChanged = true ∨ stepper.stepOut.any = true) :
    stepperPulseStart b cfg d stepper =
      { i2s := (d.i2s.writeAll (stepper.writes b cfg)).commit (stepper.pulse cfg)
          (stepper.delay cfg)
        addDirDelay := false } := by
  cases hdir : stepper.dirChanged with
  | true =>
    cases hany : stepper.stepOut.any with
    | true =>
      simp [stepperPulseStart, Stepper.writes, Stepper.pulse, Stepper.delay, hdir, hany,
        I2sSr.writeAll_append]
    | false => simp [stepperPulseStart, Stepper.writes, Stepper.pulse, Stepper.delay, hdir, hany]
  | false =>
    have hany : stepper.stepOut.any = true := by simpa [hdir] using hdo
    simp [stepperPulseStart, Stepper.writes, Stepper.pulse, Stepper.delay, hdir, hany, h]

theorem stepperPulseStart_idle {d : Driver} {stepper : Stepper}
    (hdo : ¬ (stepper.dirChanged = true ∨ stepper.stepOut.any = true)) :
    stepperPulseStart b cfg d stepper = d := by
  rw [not_or, Bool.not_eq_true, Bool.not_eq_true] at hdo
  simp [stepperPulseStart, hdo.1, hdo.2]

theorem I2sSr.Ready.commit {s : I2sSr} (h : s.Ready b cfg) {pulse delay : ℕ}
    (hlen : delay + pulse + 1 < dmaSampleCountPasstrough) : (s.commit pulse delay).Ready b cfg where
  ring := h.ring.commit_ring hlen
  passthrough := h.passthrough
  mask := h.mask
  shown := by
    obtain ⟨-, hidle, -, hbuffer⟩ := h.ring.commit_eq hlen
    rw [hidle, hbuffer _ (Nat.le_refl _), pulseSamples, if_neg (by omega)]
    show _ = s.portData &&& ~~~s.stepMask &&& ~~~s.stepMask
    rw [BitVec.and_assoc, BitVec.and_self]

/-- What the DMA emits on a step pin after the commit. -/
theorem I2sSr.Ready.emits {s : I2sSr} (h : s.Ready b cfg) {pulse delay : ℕ}
    (hlen : delay + pulse + 1 < dmaSampleCountPasstrough) (k : ℕ) {ap : Axis × ℕ}
    (hap : ap ∈ b.stepPins) :
    ((s.commit pulse delay).emits s.idle k).getLsbD ap.2 =
      (s.portData.getLsbD ap.2 &&
        (cfg.stepInvert ap.1 || (decide (delay ≤ k) && decide (k < delay + pulse)))) := by
  rw [h.ring.commit_emits hlen, pulseSamples]
  split_ifs with hk
  · simp [hk]
  · rw [h.getLsbD_clear _ hap, ← Bool.decide_and, decide_eq_false hk, Bool.or_false]

theorem Stepper.writes_of_any {stepper : Stepper} (hany : stepper.stepOut.any = true)
    (s : I2sSr) {ap : Axis × ℕ} (hap : ap ∈ b.stepPins) :
    (s.writeAll (stepper.writes b cfg)).portData.getLsbD ap.2 =
      (stepper.stepOut ap.1 ^^ cfg.stepInvert ap.1) := by
  rw [Stepper.writes, if_pos hany, I2sSr.writeAll_append]
  exact getLsbD_stepOutputs _ _ hap

theorem keeps_writes {stepper : Stepper}
    (hs : ∀ ap ∈ b.stepPins, cfg.stepInvert ap.1 = true → stepper.stepOut ap.1 = false) :
    Keeps b cfg (stepper.writes b cfg) := by
  intro w hw
  rcases List.mem_append.1 hw with hw | hw
  · split_ifs at hw
    · exact keeps_dirOutputs _ w hw
    · cases hw
  · split_ifs at hw
    · exact keeps_stepOutputs hs w hw
    · cases hw

/-- What the DMA emits on a step pin after a call. -/
theorem Driver.Ready.emits {d : Driver} (h : d.Ready b cfg) {stepper : Stepper}
    (hdo : stepper.dirChanged = true ∨ stepper.stepOut.any = true) (k : ℕ) {ap : Axis × ℕ}
    (hap : ap ∈ b.stepPins) :
    ((stepperPulseStart b cfg d stepper).i2s.emits d.i2s.idle k).getLsbD ap.2 =
      ((d.i2s.writeAll (stepper.writes b cfg)).portData.getLsbD ap.2 &&
        (cfg.stepInvert ap.1 || (decide (stepper.delay cfg ≤ k) &&
          decide (k < stepper.delay cfg + stepper.pulse cfg)))) := by
  have hemits := (h.i2s.writeAll (stepper.writes b cfg)).emits (stepper.samples_lt cfg) k hap
  rw [I2sSr.writeAll_idle] at hemits
  rw [stepperPulseStart_eq h.delay hdo]
  exact hemits

/-- A call that steps an inverted axis leaves its pin active after the pulse. -/
theorem Driver.Ready.stepsUninverted {d : Driver} (h : d.Ready b cfg) {stepper : Stepper}
    (hshows : ShowsPulse b cfg d stepper (stepperPulseStart b cfg d stepper)) :
    ∀ ap ∈ b.stepPins, cfg.stepInvert ap.1 = true → stepper.stepOut ap.1 = false := by
  intro ap hap hinv
  by_contra hstep
  rw [Bool.not_eq_false] at hstep
  have hany : stepper.stepOut.any = true := by
    by_contra hany
    rw [Bool.not_eq_true, AxesSignals.any_eq_false] at hany
    rw [hany ap.1] at hstep
    cases hstep
  have hafter := hshows.emitted (.inr hany) (stepper.delay cfg + cfg.timing.stepSamples) ap hap
  rw [h.emits (.inr hany) _ hap, Stepper.writes_of_any hany _ hap, hinv, hstep] at hafter
  simp at hafter

/-- A call shows its pulses iff it steps no inverted axis. -/
theorem Driver.Ready.shows_iff {d : Driver} (h : d.Ready b cfg) (stepper : Stepper) :
    ShowsPulse b cfg d stepper (stepperPulseStart b cfg d stepper) ↔
      StepsUninverted b cfg d stepper (stepperPulseStart b cfg d stepper) := by
  constructor
  · exact h.stepsUninverted
  · intro hs
    have hkeeps := keeps_writes hs
    refine ⟨h.i2s.idleSamples h.quiet hkeeps, fun hdo k ap hap => ?_⟩
    rw [h.emits hdo k hap]
    cases hany : stepper.stepOut.any with
    | true =>
      rw [Stepper.writes_of_any hany _ hap, Stepper.pulse, if_pos hany]
      cases hinv : cfg.stepInvert ap.1 with
      | true => simp [hs ap hap hinv]
      | false => simp
    | false =>
      have hstep := AxesSignals.any_eq_false.1 hany ap.1
      have hwindow : ¬ (stepper.delay cfg ≤ k ∧ k < stepper.delay cfg + stepper.pulse cfg) := by
        rw [Stepper.pulse, hany]
        simp
      rw [← Bool.decide_and, decide_eq_false hwindow, hstep]
      cases hinv : cfg.stepInvert ap.1 with
      | true => simp [(h.quiet.writeAll hkeeps) ap hap hinv]
      | false => simp

theorem Driver.Ready.stepperPulseStart {d : Driver} (h : d.Ready b cfg) {stepper : Stepper}
    (hs : StepsUninverted b cfg d stepper (stepperPulseStart b cfg d stepper)) :
    (I2s.stepperPulseStart b cfg d stepper).Ready b cfg := by
  by_cases hdo : stepper.dirChanged = true ∨ stepper.stepOut.any = true
  · have hready := h.i2s.writeAll (stepper.writes b cfg)
    have hquiet := h.quiet.writeAll (keeps_writes hs)
    rw [stepperPulseStart_eq h.delay hdo]
    refine ⟨hready.commit (stepper.samples_lt cfg), fun ap hap hinv => ?_, rfl⟩
    show (_ &&& ~~~_ : BitVec 32).getLsbD ap.2 = true
    rw [hready.getLsbD_clear _ hap, hquiet ap hap hinv, hinv]
    rfl
  · rw [stepperPulseStart_idle hdo]
    exact h

end

/-! ## Main result -/

section

variable (b : Board) (cfg : StepperSettings)

theorem startUp_ready : (startUp b cfg).i2s.Ready b cfg where
  ring := I2sSr.ring_start _ _ _
  passthrough := rfl
  mask := by
    intro ap hap
    have hmask : ((i2sOutStart 0 0 false).writeAll (stepOutputs b cfg fun _ => true)).portData.getLsbD
        ap.2 = (true ^^ cfg.stepInvert ap.1) := getLsbD_stepOutputs _ _ hap
    rw [I2sSr.writeAll_portData] at hmask
    rw [← Bool.true_xor]
    exact hmask
  shown := by
    show (_ ^^^ _ : BitVec 32) = (_ ^^^ _) &&& ~~~_
    rw [BitVec.xor_self, BitVec.zero_and]

theorem stepperGoIdle_ready : (stepperGoIdle b cfg (startUp b cfg)).Ready b cfg where
  i2s := ((startUp_ready b cfg).writeAll _).writeAll _
  quiet := by
    refine I2sSr.Quiet.writeAll (fun ap hap hinv => ?_) (keeps_dirOutputs _)
    rw [getLsbD_stepOutputs _ _ hap, hinv]
    rfl
  delay := rfl

variable {b cfg}

theorem Driver.Ready.along_iff {d start : Driver} (h : d.Ready b cfg) (calls : List Stepper) :
    (pulses b cfg start).Along (ShowsPulse b cfg) d calls ↔
      ∀ stepper ∈ calls, ∀ ap ∈ b.stepPins, cfg.stepInvert ap.1 = true →
        stepper.stepOut ap.1 = false := by
  have hcongr : (pulses b cfg start).Along (ShowsPulse b cfg) d calls ↔
      (pulses b cfg start).Along (StepsUninverted b cfg) d calls := by
    refine Machine.along_congr (I := fun d => d.Ready b cfg) ?_ h
    intro d stepper _ t hd hst
    cases hst
    refine ⟨hd.shows_iff stepper, fun hshows => ?_⟩
    exact hd.stepperPulseStart ((hd.shows_iff stepper).1 hshows)
  rw [hcongr]
  exact Machine.along_events fun d stepper => ⟨_, rfl⟩

variable (b cfg)

/-- Every axis has the levels it should have in a sequence of calls iff no call steps an
    inverted axis. If `stepperGoIdle` was not called before, no axis may be inverted. -/
theorem stepPulse_levels (calls : List Stepper) :
    ((pulses b cfg (stepperGoIdle b cfg (startUp b cfg))).Along (ShowsPulse b cfg)
        (stepperGoIdle b cfg (startUp b cfg)) calls ↔
      ∀ stepper ∈ calls, ∀ ap ∈ b.stepPins, cfg.stepInvert ap.1 = true →
        stepper.stepOut ap.1 = false) ∧
    ((pulses b cfg (startUp b cfg)).Along (ShowsPulse b cfg) (startUp b cfg) calls ↔
      calls = [] ∨ ∀ ap ∈ b.stepPins, cfg.stepInvert ap.1 = false) := by
  refine ⟨(stepperGoIdle_ready b cfg).along_iff calls, ?_⟩
  constructor
  · intro halong
    cases calls with
    | nil => exact .inl rfl
    | cons stepper rest =>
      obtain ⟨t, -, hshows, -⟩ := Machine.along_cons.1 halong
      have hidle := hshows.idle _ (I2sSr.mem_idleSamples _)
      rw [(startUp_ready b cfg).shown] at hidle
      refine .inr fun ap hap => ?_
      rw [← hidle ap hap]
      show ((_ ^^^ _) &&& _ : BitVec 32).getLsbD ap.2 = false
      rw [BitVec.xor_self, BitVec.zero_and]
      exact BitVec.getLsbD_zero
  · intro hcalls
    rcases hcalls with rfl | hinv
    · trivial
    · have hready : (startUp b cfg).Ready b cfg :=
        { i2s := startUp_ready b cfg
          quiet := by
            intro ap hap htrue
            rw [hinv ap hap] at htrue
            cases htrue
          delay := rfl }
      refine (hready.along_iff calls).2 fun stepper _ ap hap htrue => ?_
      rw [hinv ap hap] at htrue
      cases htrue

/-- One axis on pin 2 with its direction on pin 1. -/
def oneAxis : Board where
  stepPins := [(.x, 2)]
  dirPins := [(.x, false, 1)]
  stepPin_lt := by simp
  dirPin_lt := by simp
  nodup := by decide

/-- The X axis inverted or not, with pulses of 3 samples after a delay of 2. -/
def oneAxisSettings (invert : Bool) : StepperSettings where
  stepInvert _ := invert
  dirInvert _ := false
  gangedDirInvert _ := false
  timing := ⟨2, 3, by decide, by decide⟩

/-- A step of an inverted axis: its pin stays active. -/
theorem stepPulse_stuck :
    ¬ ∀ (b : Board) (cfg : StepperSettings) (calls : List Stepper),
      (pulses b cfg (stepperGoIdle b cfg (startUp b cfg))).Along (ShowsPulse b cfg)
        (stepperGoIdle b cfg (startUp b cfg)) calls := by
  intro h
  obtain ⟨t, ht, hshows, -⟩ := Machine.along_cons.1
    (h oneAxis (oneAxisSettings true) [⟨true, fun _ => true, fun _ => false⟩])
  cases ht
  have hafter := hshows.emitted (.inl rfl) 5 (.x, 2) (by decide)
  exact absurd hafter (by decide +kernel)

end

end Esp32Embroidery.I2s
