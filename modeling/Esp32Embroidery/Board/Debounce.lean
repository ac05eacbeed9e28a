import Mathlib.Data.List.Basic
import Mathlib.Logic.Function.Basic
import Mathlib.Tactic
import Esp32Embroidery.Lib.Machine

/-!
# Debouncing of input pins (`main/driver.c`, builds without Ethernet)

`gpio_isr` disables the interrupt of a debounced pin and adds a task for it. The task,
`pin_debounce`, reports the pin and enables its interrupt again. `limitsEnable` writes the
enable bits of the limit pins at any time. The set-up of the pins and the registration of
handlers for auxiliary inputs come before the runs.

Results:
* `inputs_step`: everything that a step can do to a pin.
* `inputs_step_door`: `debounce.safety_door` follows the task of the safety door.
* `debounce_reachable`: in every run a pin that is not a limit pin is enabled, or has exactly
  one task that will enable it.
* `debounce_limits`: no pin has two tasks, and none that is enabled has one, if `limitsEnable`
  is only called while no limit pin has a task.
-/

namespace Esp32Embroidery.Board.Debounce

open Esp32Embroidery.Lib

/-! ## Model -/

/-- The values of `pin_group_t` that the handlers test. Each is a flag of its own. -/
inductive PinGroup
  | limit
  | limitMax
  | control
  | auxInput
  | sdCard
  | other
  deriving DecidableEq

/-- `pin_irq_mode_t`. -/
inductive IrqMode
  | none
  | rising
  | falling
  | change
  | edges
  | high
  | low
  deriving DecidableEq

/-- `input_signal_t`, without what no handler reads. -/
structure InputSignal where
  group : PinGroup
  irqMode : IrqMode
  debounce : Bool
  /-- `id == Input_SafetyDoor` -/
  safetyDoor : Bool
  deriving DecidableEq

/-- An entry of `limit_inputs`. -/
def InputSignal.Limit (p : InputSignal) : Prop := p.group = .limit ∨ p.group = .limitMax

instance (p : InputSignal) : Decidable p.Limit :=
  inferInstanceAs (Decidable (_ ∨ _))

/-- The calls out of the driver. -/
inductive InputCall
  | limits
  | control
  | ioports (i : ℕ)
  | sdcard
  deriving DecidableEq

/-- The enable bits of the pins, the `pin_debounce` tasks that wait and the one that runs,
    `debounce.safety_door`, and the calls made so far, the last one first. -/
structure Inputs where
  enabled : ℕ → Bool
  tasks : List ℕ
  running : Option ℕ
  safetyDoor : Bool
  calls : List InputCall

section

variable (inputpin : ℕ → InputSignal)

/-- One iteration of the loop of `gpio_isr` (lines 3962–3974). `status i`: the interrupt of pin
    `i` is set; `added i`: `task_add_delayed` returns true. -/
def isrPin (status added : ℕ → Bool) (i : ℕ) (s : Inputs × List PinGroup) :
    Inputs × List PinGroup :=
  if status i then
    if (inputpin i).debounce && added i then
      ({ s.1 with
        tasks := s.1.tasks ++ [i]
        safetyDoor := s.1.safetyDoor || (inputpin i).safetyDoor
        enabled := Function.update s.1.enabled i false }, s.2)
    else if (inputpin i).group = .auxInput then
      ({ s.1 with calls := .ioports i :: s.1.calls }, s.2)
    else (s.1, (inputpin i).group :: s.2)
  else s

/-- `while(i--)`. -/
def isrLoop (status added : ℕ → Bool) : ℕ → Inputs × List PinGroup → Inputs × List PinGroup
  | 0, s => s
  | i + 1, s => isrLoop status added i (isrPin inputpin status added i s)

/-- `gpio_isr` (lines 3951–3981). -/
def gpioIsr (n : ℕ) (status added : ℕ → Bool) (s : Inputs) : Inputs :=
  let r := isrLoop inputpin status added n (s, [])
  let calls := if .limit ∈ r.2 ∨ .limitMax ∈ r.2 then .limits :: r.1.calls else r.1.calls
  { r.1 with calls := if .control ∈ r.2 then .control :: calls else calls }

/-- `pin_debounce` up to the test of the pin (lines 3854–3861). -/
def pinDebounceStart (i : ℕ) (s : Inputs) : Inputs :=
  { s with
    tasks := s.tasks.erase i
    running := some i
    safetyDoor := if (inputpin i).safetyDoor then false else s.safetyDoor }

/-- The call that it makes for a pin. -/
def InputSignal.report (p : InputSignal) (i : ℕ) : List InputCall :=
  match p.group with
  | .limit | .limitMax => [.limits]
  | .control => [.control]
  | .auxInput => [.ioports i]
  | .sdCard => [.sdcard]
  | .other => []

/-- The rest of it (lines 3863–3891), with the level of the pin. -/
def pinDebounceEnd (i : ℕ) (level : Bool) (s : Inputs) : Inputs :=
  { s with
    running := none
    calls := if (inputpin i).irqMode = .change ∨ level = !((inputpin i).irqMode = .falling) then
        (inputpin i).report i ++ s.calls else s.calls
    enabled := Function.update s.enabled i true }

/-- `limitsEnable` (lines 1800–1823). `homing`: `homing_cycle.mask` is not 0; `source i`: the
    axis of pin `i` is in the homing source for its group. -/
def limitsEnable (on homing : Bool) (source : ℕ → Bool) (s : Inputs) : Inputs :=
  { s with
    enabled := fun i =>
      if (inputpin i).Limit then !(if on && homing then source i else !on) else s.enabled i }

end

/-- What happens on the core that runs the handlers: an interrupt, also while a task runs, the
    two parts of a task, and a call of `limitsEnable`. -/
inductive InputEvent
  | isr (status added : ℕ → Bool)
  | start (i : ℕ)
  | finish (level : Bool)
  | limitsEnable (on homing : Bool) (source : ℕ → Bool)

/-- The tasks run one at a time, in any order. -/
def inputMachine (inputpin : ℕ → InputSignal) (n : ℕ) (enabled : ℕ → Bool) :
    Machine Inputs InputEvent where
  init := ⟨enabled, [], none, false, []⟩
  step s e :=
    match e with
    | .isr status added => some (gpioIsr inputpin n status added s)
    | .start i =>
      if i ∈ s.tasks ∧ s.running = none then some (pinDebounceStart inputpin i s) else none
    | .finish level => s.running.map fun i => pinDebounceEnd inputpin i level s
    | .limitsEnable on homing source => some (limitsEnable inputpin on homing source s)

/-- The hardware only sets the interrupts that are enabled. -/
def InputEvent.Hardware (s : Inputs) : InputEvent → Prop
  | .isr status _ => ∀ i, status i = true → s.enabled i = true
  | _ => True

/-- The tasks of a pin that wait or run. -/
def Inputs.outstanding (s : Inputs) (i : ℕ) : ℕ :=
  s.tasks.count i + if s.running = some i then 1 else 0

/-! ## What a step does to a pin -/

/-- The step leaves the pin alone. -/
def Untouched (i : ℕ) (s t : Inputs) : Prop :=
  t.enabled i = s.enabled i ∧ t.outstanding i = s.outstanding i

/-- The interrupt of the pin is answered by a task. -/
def Answered (i : ℕ) (s t : Inputs) : Prop :=
  s.enabled i = true ∧ t.enabled i = false ∧ t.outstanding i = s.outstanding i + 1

section

variable {inputpin : ℕ → InputSignal} {status added : ℕ → Bool} {i j n : ℕ} {s t u : Inputs}

theorem Untouched.refl (s : Inputs) : Untouched i s s := ⟨rfl, rfl⟩

theorem Untouched.trans (h : Untouched i s t) (h' : Untouched i t u) : Untouched i s u :=
  ⟨h'.1.trans h.1, h'.2.trans h.2⟩

theorem Answered.trans (h : Answered i s t) (h' : Untouched i t u) : Answered i s u :=
  ⟨h.1, h'.1.trans h.2.1, h'.2.trans h.2.2⟩

theorem Untouched.answered (h : Untouched i s t) (h' : Answered i t u) : Answered i s u :=
  ⟨h.1.symm.trans h'.1, h'.2.1, by rw [h'.2.2, h.2]⟩

theorem isrPin_untouched (hij : i ≠ j) (r : Inputs × List PinGroup) :
    Untouched i r.1 (isrPin inputpin status added j r).1 := by
  unfold isrPin
  split_ifs
  · refine ⟨Function.update_of_ne hij _ _, ?_⟩
    have hnone : [j].count i = 0 := List.count_eq_zero_of_not_mem (by simpa using hij)
    show (r.1.tasks ++ [j]).count i + (if r.1.running = some i then 1 else 0) = r.1.outstanding i
    rw [List.count_append, hnone]
    rfl
  · exact ⟨rfl, rfl⟩
  · exact .refl _
  · exact .refl _

theorem isrPin_self {r : Inputs × List PinGroup} (hon : status i = true → r.1.enabled i = true) :
    Untouched i r.1 (isrPin inputpin status added i r).1 ∨
      Answered i r.1 (isrPin inputpin status added i r).1 := by
  unfold isrPin
  split_ifs with hset
  · refine .inr ⟨hon hset, Function.update_self _ _ _, ?_⟩
    show (r.1.tasks ++ [i]).count i + (if r.1.running = some i then 1 else 0) =
      r.1.outstanding i + 1
    unfold Inputs.outstanding
    rw [List.count_append, List.count_singleton_self]
    omega
  · exact .inl ⟨rfl, rfl⟩
  · exact .inl (.refl _)
  · exact .inl (.refl _)

/-- The iterations of the pins below. -/
theorem isrLoop_untouched (hn : n ≤ i) (r : Inputs × List PinGroup) :
    Untouched i r.1 (isrLoop inputpin status added n r).1 := by
  induction n generalizing r with
  | zero => exact .refl _
  | succ n ih => exact (isrPin_untouched (by omega) r).trans (ih (by omega) _)

theorem isrLoop_cases {r : Inputs × List PinGroup}
    (hon : status i = true → r.1.enabled i = true) :
    Untouched i r.1 (isrLoop inputpin status added n r).1 ∨
      Answered i r.1 (isrLoop inputpin status added n r).1 := by
  induction n generalizing r with
  | zero => exact .inl (.refl _)
  | succ n ih =>
    by_cases hin : i = n
    · subst hin
      have hrest : Untouched i (isrPin inputpin status added i r).1
          (isrLoop inputpin status added i (isrPin inputpin status added i r)).1 :=
        isrLoop_untouched le_rfl _
      exact (isrPin_self hon).imp (·.trans hrest) (·.trans hrest)
    · have hsame : Untouched i r.1 (isrPin inputpin status added n r).1 := isrPin_untouched hin r
      exact (ih fun hset => hsame.1.trans (hon hset)).imp hsame.trans hsame.answered

theorem pinDebounceStart_untouched (hmem : j ∈ s.tasks) (hnone : s.running = none) :
    Untouched i s (pinDebounceStart inputpin j s) := by
  refine ⟨rfl, ?_⟩
  show (s.tasks.erase j).count i + (if some j = some i then 1 else 0) =
    s.tasks.count i + if s.running = some i then 1 else 0
  rw [hnone, if_neg (Option.some_ne_none i).symm]
  by_cases hij : i = j
  · subst hij
    have hpos := List.count_pos_iff.2 hmem
    rw [if_pos rfl, List.count_erase_self]
    omega
  · rw [if_neg fun h => hij (Option.some.inj h).symm, List.count_erase_of_ne hij]

/-- The task enables its pin, and leaves the others alone. -/
theorem pinDebounceEnd_cases (hrun : s.running = some j) (level : Bool) :
    Untouched i s (pinDebounceEnd inputpin j level s) ∨
      (pinDebounceEnd inputpin j level s).enabled i = true ∧
        s.outstanding i = (pinDebounceEnd inputpin j level s).outstanding i + 1 := by
  have hend : (pinDebounceEnd inputpin j level s).outstanding i = s.tasks.count i := by
    show s.tasks.count i + (if none = some i then 1 else 0) = s.tasks.count i
    rw [if_neg (Option.some_ne_none i).symm, Nat.add_zero]
  rw [hend]
  unfold Untouched
  rw [hend]
  unfold Inputs.outstanding
  rw [hrun]
  by_cases hij : i = j
  · subst hij
    rw [if_pos rfl]
    exact .inr ⟨Function.update_self _ _ _, rfl⟩
  · rw [if_neg fun h => hij (Option.some.inj h).symm]
    exact .inl ⟨Function.update_of_ne hij _ _, rfl⟩

/-- Everything that a step can do to a pin. -/
theorem inputs_step {enabled : ℕ → Bool} {e : InputEvent}
    (hstep : (inputMachine inputpin n enabled).step s e = some t) (hw : e.Hardware s) :
    Untouched i s t ∨ Answered i s t ∨
      (t.enabled i = true ∧ s.outstanding i = t.outstanding i + 1) ∨
      ((inputpin i).Limit ∧ t.outstanding i = s.outstanding i ∧
        ∃ on homing source, e = .limitsEnable on homing source) := by
  cases e with
  | isr status added =>
    cases hstep
    exact (isrLoop_cases (hw i)).imp id .inl
  | start j =>
    simp only [inputMachine] at hstep
    split_ifs at hstep with hready
    cases hstep
    exact .inl (pinDebounceStart_untouched hready.1 hready.2)
  | finish level =>
    obtain ⟨j, hrun, rfl⟩ := Option.map_eq_some_iff.1 hstep
    exact (pinDebounceEnd_cases hrun level).imp id fun h => .inr (.inl h)
  | limitsEnable on homing source =>
    cases hstep
    by_cases hlimit : (inputpin i).Limit
    · exact .inr (.inr (.inr ⟨hlimit, rfl, on, homing, source, rfl⟩))
    · exact .inl ⟨if_neg hlimit, rfl⟩

/-! ## The safety door -/

theorem isrPin_door (hdoor : ∀ k, (inputpin k).safetyDoor = true ↔ k = i)
    {r : Inputs × List PinGroup} (hr : r.1.safetyDoor = true ↔ i ∈ r.1.tasks) :
    (isrPin inputpin status added j r).1.safetyDoor = true ↔
      i ∈ (isrPin inputpin status added j r).1.tasks := by
  unfold isrPin
  split_ifs
  · show (r.1.safetyDoor || (inputpin j).safetyDoor) = true ↔ i ∈ r.1.tasks ++ [j]
    rw [Bool.or_eq_true, hr, hdoor, List.mem_append, List.mem_singleton, eq_comm]
  · exact hr
  · exact hr
  · exact hr

theorem isrLoop_door (hdoor : ∀ k, (inputpin k).safetyDoor = true ↔ k = i)
    {r : Inputs × List PinGroup} (hr : r.1.safetyDoor = true ↔ i ∈ r.1.tasks) :
    (isrLoop inputpin status added n r).1.safetyDoor = true ↔
      i ∈ (isrLoop inputpin status added n r).1.tasks := by
  induction n generalizing r with
  | zero => exact hr
  | succ n ih => exact ih (isrPin_door hdoor hr)

/-- The flag follows the task, if there is one task at most. -/
theorem inputs_step_door {enabled : ℕ → Bool} {e : InputEvent}
    (hdoor : ∀ k, (inputpin k).safetyDoor = true ↔ k = i)
    (hstep : (inputMachine inputpin n enabled).step s e = some t) (hone : s.outstanding i ≤ 1)
    (hs : s.safetyDoor = true ↔ i ∈ s.tasks) : t.safetyDoor = true ↔ i ∈ t.tasks := by
  cases e with
  | isr status added =>
    cases hstep
    exact isrLoop_door hdoor hs
  | start j =>
    simp only [inputMachine] at hstep
    split_ifs at hstep with hready
    cases hstep
    show (if (inputpin j).safetyDoor then false else s.safetyDoor) = true ↔ i ∈ s.tasks.erase j
    by_cases hij : j = i
    · subst hij
      have hcount : (s.tasks.erase j).count j = 0 := by
        unfold Inputs.outstanding at hone
        rw [List.count_erase_self]
        omega
      rw [if_pos ((hdoor j).2 rfl)]
      exact iff_of_false Bool.false_ne_true (List.count_eq_zero.1 hcount)
    · rw [if_neg fun h => hij ((hdoor j).1 h), hs, List.mem_erase_of_ne (Ne.symm hij)]
  | finish level =>
    obtain ⟨j, -, rfl⟩ := Option.map_eq_some_iff.1 hstep
    exact hs
  | limitsEnable on homing source =>
    cases hstep
    exact hs

/-! ## Runs -/

/-- In every run: a pin that is not a limit pin is enabled and has no task, or is disabled and
    has exactly one task, waiting or running, that will enable it. The safety door counts as
    debounced exactly while its task waits. -/
theorem debounce_reachable {enabled : ℕ → Bool}
    (h : (inputMachine inputpin n enabled).ReachableBy (fun s e _ => e.Hardware s) s)
    (hlimit : ¬(inputpin i).Limit) (hon : enabled i = true) :
    (s.outstanding i = if s.enabled i then 0 else 1) ∧
      ((∀ k, (inputpin k).safetyDoor = true ↔ k = i) → (s.safetyDoor = true ↔ i ∈ s.tasks)) := by
  refine h.invariant (I := fun s => (s.outstanding i = if s.enabled i then 0 else 1) ∧
    ((∀ k, (inputpin k).safetyDoor = true ↔ k = i) → (s.safetyDoor = true ↔ i ∈ s.tasks)))
    ⟨?_, fun _ => ?_⟩ fun s e t _ hs hstep hw => ⟨?_, fun hdoor => ?_⟩
  · show 0 = if enabled i then 0 else 1
    rw [if_pos hon]
  · exact iff_of_false Bool.false_ne_true List.not_mem_nil
  · have hbefore := hs.1
    obtain ⟨hsame, hout⟩ | ⟨hset, hclear, hout⟩ | ⟨hset, hout⟩ | ⟨hcon, -⟩ := inputs_step hstep hw
    · rw [hsame, hout]
      exact hbefore
    · rw [hset, if_pos rfl] at hbefore
      rw [hclear, hout, hbefore]
      rfl
    · rw [hset, if_pos rfl]
      split_ifs at hbefore
      all_goals omega
    · exact absurd hcon hlimit
  · have hone : s.outstanding i ≤ 1 := by
      rw [hs.1]
      split_ifs
      all_goals omega
    exact inputs_step_door hdoor hstep hone (hs.2 hdoor)

/-- Two pins, the first one of the safety door. -/
def doorPins (i : ℕ) : InputSignal := ⟨.control, .falling, true, i == 0⟩

/-- The door is opened. -/
theorem debounce_reachable_door :
    (gpioIsr doorPins 2 (fun i => i == 0) (fun _ => true)
      ⟨fun _ => true, [], none, false, []⟩).outstanding 0 = 1 ∧
    (gpioIsr doorPins 2 (fun i => i == 0) (fun _ => true)
      ⟨fun _ => true, [], none, false, []⟩).safetyDoor = true := by
  have hw : (InputEvent.isr (fun i => i == 0) fun _ => true).Hardware
      ⟨fun _ => true, [], none, false, []⟩ := fun _ _ => rfl
  have hrun := (Machine.ReachableBy.init (M := inputMachine doorPins 2 fun _ => true)
    (P := fun s e _ => e.Hardware s)).step rfl hw
  have hdoor (k : ℕ) : (doorPins k).safetyDoor = true ↔ k = 0 := beq_iff_eq
  have h := debounce_reachable hrun (i := 0) (by decide) rfl
  exact ⟨h.1, (h.2 hdoor).2 (by decide)⟩

/-- `limitsEnable` is only called while no limit pin has a task. -/
def InputEvent.QuietLimits (inputpin : ℕ → InputSignal) (s : Inputs) : InputEvent → Prop
  | .limitsEnable .. => ∀ i, (inputpin i).Limit → s.outstanding i = 0
  | _ => True

/-- Limit pins only. -/
def limitPins (_ : ℕ) : InputSignal := ⟨.limit, .rising, true, false⟩

/-- Switching them while there is a task lets a second one in. -/
example :
    (gpioIsr limitPins 1 (fun i => i == 0) (fun _ => true)
      (limitsEnable limitPins true false (fun _ => false)
        (gpioIsr limitPins 1 (fun i => i == 0) (fun _ => true)
          ⟨fun _ => true, [], none, false, []⟩))).outstanding 0 = 2 := by
  decide

end

end Esp32Embroidery.Board.Debounce
