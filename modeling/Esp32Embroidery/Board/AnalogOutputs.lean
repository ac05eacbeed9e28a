import Esp32Embroidery.Lib.CArith
import Esp32Embroidery.Lib.Machine
import Mathlib.Logic.Function.Basic

/-!
# Analog outputs (`ioports_analog.c`)

`analog_out` finds the entry of `pwm_out` by the function of the port, less
`Output_Analog_Aux0`, and `set_function` stores any function. But `get_pin_info` clears what
it returns of an output port once more, after it has set the pointer to `set_function`, so
only the functions of input ports can be changed.

Main results:

* `configured_step`: every call leaves each output port its own function.
* `analogOut_touches_own`: after any calls `analog_out` reaches the port's own entry.
-/

namespace Esp32Embroidery.Board

open Esp32Embroidery.Lib

/-! ## Model -/

/-- `pin_function_t`, an `int`. -/
abbrev PinFunction := BitVec 32

/-- What is used of `ioports_pwm_t` and of the core's functions on it. -/
structure IoportsPwm (F D : Type*) where
  offValue : D → ℕ
  alwaysOn : D → Bool
  computePwmValue : D → F → ℕ

/-- `Output_Analog_Aux0`, `analog.out.n_ports`, an `uint8_t`, which is also
    `AUX_ANALOG_OUT`, `analog.in.n_ports` and `cap.analog` of the input ports. -/
structure AnalogBuild where
  outputAnalogAux0 : PinFunction
  nPorts : ℕ
  nPorts_le : nPorts ≤ 255
  nInputs : ℕ
  capAnalog : ℕ → Bool

/-- The function that a port has by its number. -/
def AnalogBuild.own (b : AnalogBuild) (port : ℕ) : PinFunction :=
  b.outputAnalogAux0 + BitVec.ofNat 32 port

/-- `pwm_out_t`; `setValue` says that the pointer is set, to `pwm_set_value`. -/
structure PwmOut (F D : Type*) where
  data : D
  value : F
  setValue : Bool

/-- Calls of the LEDC driver for the channel of an entry of `pwm_out`. -/
inductive LedcAccess
  | setDuty (ch duty : ℕ)
  | updateDuty (ch : ℕ)
  | stop (ch : ℕ)
  deriving DecidableEq

def LedcAccess.entry : LedcAccess → ℕ
  | .setDuty ch _ | .updateDuty ch | .stop ch => ch

/-- The functions of the ports, `pwm_out`, and the accesses so far. -/
structure AnalogPorts (F D : Type*) where
  auxIn : ℕ → PinFunction
  auxOut : ℕ → PinFunction
  pwmOut : ℕ → PwmOut F D
  ledc : List LedcAccess

/-- What is used of `xbar_t`: `mode.input`, and whether the pointers `set_function` and
    `get_value` are set. The defaults are those of `memset`. -/
structure Xbar where
  input : Bool := false
  id : ℕ := 0
  function : PinFunction := 0
  setFunction : Bool := false
  getValue : Bool := false
  deriving DecidableEq

/-- `io_port_direction_t` -/
inductive Direction
  | input
  | output

namespace AnalogPorts

section

variable {F D : Type*} (b : AnalogBuild) (lib : IoportsPwm F D) (s : AnalogPorts F D)

/-- `get_pin_info` (lines 319–376). -/
def getPinInfo (dir : Direction) (port : ℕ) : Option Xbar :=
  let pin : Xbar := { setFunction := true }
  match dir with
  | .input =>
    if port < b.nInputs ∧ b.capAnalog port then
      some { pin with input := true, id := port, function := s.auxIn port }
    else none
  | .output =>
    -- the second `memset`, line 349
    let pin : Xbar := {}
    if port < b.nPorts then
      some { pin with id := port, function := s.auxOut port, getValue := true }
    else none

/-- `set_function` (lines 305–317). -/
def setFunction (pin : Xbar) (function : PinFunction) : AnalogPorts F D :=
  if pin.input then { s with auxIn := Function.update s.auxIn pin.id function }
  else { s with auxOut := Function.update s.auxOut pin.id function }

/-- `pwm_get_value` (lines 99–104). -/
def pwmGetValue [CFloat F] (output : Xbar) : F :=
  let ch := (output.function - b.outputAnalogAux0).toInt
  if 0 ≤ ch ∧ ch < b.nPorts then (s.pwmOut ch.toNat).value else CFloat.ofRat (-1)

/-- The accesses of `pwm_set_value` (lines 123–133). -/
def pwmAccesses (ch : ℕ) (value : F) : List LedcAccess :=
  let data := (s.pwmOut ch).data
  let pwmValue := lib.computePwmValue data value
  if pwmValue = lib.offValue data then
    if lib.alwaysOn data then [.setDuty ch (lib.offValue data), .updateDuty ch] else [.stop ch]
  else [.setDuty ch pwmValue, .updateDuty ch]

/-- `pwm_set_value` (lines 117–134). -/
def pwmSetValue (ch : ℕ) (value : F) : AnalogPorts F D :=
  { s with
    pwmOut := Function.update s.pwmOut ch { s.pwmOut ch with value := value }
    ledc := s.ledc ++ s.pwmAccesses lib ch value }

/-- `analog_out` (lines 106–115). No value if the index is beyond `pwm_out`, or there is no
    function to call. -/
def analogOut (port : ℕ) (value : F) : Option (AnalogPorts F D × Bool) :=
  if port < b.nPorts then
    let ch := (s.auxOut port - b.outputAnalogAux0).toNat
    if ch < b.nPorts ∧ (s.pwmOut ch).setValue = true then some (s.pwmSetValue lib ch value, true)
    else none
  else some (s, false)

/-- Every port has its own function and was configured. -/
def Configured : Prop :=
  ∀ port < b.nPorts, s.auxOut port = b.own port ∧ (s.pwmOut port).setValue = true

end

end AnalogPorts

/-- The calls on ports. -/
inductive AnalogCall (F : Type*)
  | setFunction (dir : Direction) (port : ℕ) (function : PinFunction)
  | analogOut (port : ℕ) (value : F)
  | getValue (port : ℕ)

/-- Calls in any order. `set_function` is called through the pointer that `get_pin_info`
    returns, if there is one. -/
def analogPorts {F D : Type*} (b : AnalogBuild) (lib : IoportsPwm F D) (start : AnalogPorts F D) :
    Machine (AnalogPorts F D) (AnalogCall F) where
  init := start
  step s
    | .setFunction dir port function =>
      match s.getPinInfo b dir port with
      | some pin => some (if pin.setFunction then s.setFunction pin function else s)
      | none => some s
    | .analogOut port value => (s.analogOut b lib port value).map Prod.fst
    | .getValue _ => some s

/-- `analog_out` reaches the entry of the port alone, an entry of `pwm_out`, and the port then
    has the value. -/
def AnalogPorts.TouchesOwn {F D : Type*} [CFloat F] (b : AnalogBuild) (lib : IoportsPwm F D)
    (s : AnalogPorts F D) (port : ℕ) (value : F) : Prop :=
  ∃ t accesses, s.analogOut b lib port value = some (t, true) ∧ t.ledc = s.ledc ++ accesses ∧
    (∀ access ∈ accesses, access.entry = port ∧ access.entry < b.nPorts) ∧
    (∀ other ≠ port, t.pwmOut other = s.pwmOut other) ∧
    ∃ pin ∈ t.getPinInfo b .output port, pin.getValue = true ∧ t.pwmGetValue b pin = value

/-! ## Functions of the ports -/

/-- The index that `analog_out` computes for a port with its own function. -/
theorem AnalogBuild.own_sub (b : AnalogBuild) {port : ℕ} (hport : port < b.nPorts) :
    (b.own port - b.outputAnalogAux0).toNat = port := by
  have hle := b.nPorts_le
  unfold own
  rw [BitVec.add_comm, BitVec.add_sub_cancel, BitVec.toNat_ofNat]
  exact Nat.mod_eq_of_lt (by omega)

section

variable {F D : Type*} {b : AnalogBuild} {lib : IoportsPwm F D} {start s : AnalogPorts F D}

/-- The pointer to `set_function` is set for input ports only. -/
theorem input_of_setFunction {dir : Direction} {port : ℕ} {pin : Xbar}
    (hpin : s.getPinInfo b dir port = some pin) (hset : pin.setFunction = true) :
    pin.input = true := by
  cases dir with
  | input =>
    simp only [AnalogPorts.getPinInfo, Option.ite_none_right_eq_some, Option.some.injEq] at hpin
    obtain ⟨-, rfl⟩ := hpin
    rfl
  | output =>
    simp only [AnalogPorts.getPinInfo, Option.ite_none_right_eq_some, Option.some.injEq] at hpin
    obtain ⟨-, rfl⟩ := hpin
    cases hset

theorem configured_pwmSetValue (hs : s.Configured b) (ch : ℕ) (value : F) :
    (s.pwmSetValue lib ch value).Configured b := by
  intro port hport
  obtain ⟨hown, hset⟩ := hs port hport
  refine ⟨hown, ?_⟩
  simp only [AnalogPorts.pwmSetValue, Function.update_apply]
  split_ifs with hch
  · rw [← hch]
    exact hset
  · exact hset

/-- With its own function a port has an entry of `pwm_out` to set. -/
theorem analogOut_own (hs : s.Configured b) {port : ℕ} (hport : port < b.nPorts) (value : F) :
    s.analogOut b lib port value = some (s.pwmSetValue lib port value, true) := by
  obtain ⟨hown, hset⟩ := hs port hport
  unfold AnalogPorts.analogOut
  rw [if_pos hport]
  simp only [hown, b.own_sub hport]
  rw [if_pos ⟨hport, hset⟩]

variable (lib start) in
/-- Every call succeeds and leaves the output ports configured. -/
theorem configured_step (hs : s.Configured b) (call : AnalogCall F) :
    ∃ t, (analogPorts b lib start).step s call = some t ∧ t.Configured b := by
  cases call with
  | setFunction dir port function =>
    simp only [analogPorts]
    cases hpin : s.getPinInfo b dir port with
    | none => exact ⟨s, rfl, hs⟩
    | some pin =>
      cases hset : pin.setFunction with
      | false => exact ⟨s, by simp [hset], hs⟩
      | true =>
        have hinput := input_of_setFunction hpin hset
        refine ⟨s.setFunction pin function, by simp [hset], ?_⟩
        unfold AnalogPorts.setFunction
        rw [if_pos hinput]
        exact hs
  | analogOut port value =>
    by_cases hport : port < b.nPorts
    · refine ⟨s.pwmSetValue lib port value, ?_, configured_pwmSetValue hs port value⟩
      show (s.analogOut b lib port value).map Prod.fst = _
      rw [analogOut_own hs hport]
      rfl
    · refine ⟨s, ?_, hs⟩
      show (s.analogOut b lib port value).map Prod.fst = _
      rw [AnalogPorts.analogOut, if_neg hport]
      rfl
  | getValue port => exact ⟨s, rfl, hs⟩

theorem configured_run (hs : s.Configured b) (calls : List (AnalogCall F)) :
    ∃ t, (analogPorts b lib start).run s calls = some t ∧ t.Configured b := by
  induction calls generalizing s with
  | nil => exact ⟨s, rfl, hs⟩
  | cons call calls ih =>
    obtain ⟨t, hst, ht⟩ := configured_step lib start hs call
    rw [Machine.run_cons, hst]
    exact ih ht

/-! ## The entry that is reached -/

variable (lib) in
theorem entry_pwmAccesses (s : AnalogPorts F D) (ch : ℕ) (value : F) :
    ∀ access ∈ s.pwmAccesses lib ch value, access.entry = ch := by
  unfold AnalogPorts.pwmAccesses
  dsimp only
  split_ifs <;> simp [LedcAccess.entry]

variable [CFloat F]

/-- A configured port: `analog_out` sets its entry, which `pwm_get_value` reads. -/
theorem touchesOwn_of_configured (hs : s.Configured b) {port : ℕ} (hport : port < b.nPorts)
    (value : F) : s.TouchesOwn b lib port value := by
  refine ⟨s.pwmSetValue lib port value, s.pwmAccesses lib port value, analogOut_own hs hport value,
    rfl, ?_, ?_, ?_⟩
  · intro access haccess
    rw [entry_pwmAccesses lib s port value access haccess]
    exact ⟨rfl, hport⟩
  · intro other hother
    exact Function.update_of_ne hother _ _
  · refine ⟨_, if_pos hport, rfl, ?_⟩
    have hle := b.nPorts_le
    have hch : (s.auxOut port - b.outputAnalogAux0).toNat = port := by
      rw [(hs port hport).1, b.own_sub hport]
    have hint : (s.auxOut port - b.outputAnalogAux0).toInt = port := by
      rw [BitVec.toInt_eq_toNat_of_lt (by rw [hch]; omega), hch]
    show (if _ then _ else _ : F) = value
    simp only [AnalogPorts.pwmSetValue, hint]
    rw [if_pos ⟨Int.natCast_nonneg port, by omega⟩]
    simp

end

/-- From a start in which every output port has its own function and is configured, any calls
    on any ports succeed, and after them `analog_out` does what it should for every port. -/
theorem analogOut_touches_own {F D : Type*} [CFloat F] {b : AnalogBuild} (lib : IoportsPwm F D)
    {start : AnalogPorts F D} (hstart : start.Configured b) (calls : List (AnalogCall F)) :
    ∃ s, (analogPorts b lib start).run start calls = some s ∧
      ∀ port < b.nPorts, ∀ value, s.TouchesOwn b lib port value := by
  obtain ⟨s, hrun, hs⟩ := configured_run hstart calls
  exact ⟨s, hrun, fun port hport value => touchesOwn_of_configured hs hport value⟩

/-- Two output ports, with any number for the first function, and an input port. -/
def twoPorts : AnalogBuild := ⟨100, 2, by decide, 1, fun _ => true⟩

/-- Values rounded down, 0 for off. -/
def wholePwm : IoportsPwm ℚ Unit := ⟨fun _ => 0, fun _ => false, fun _ value => ⌊value⌋.toNat⟩

def configuredPorts : AnalogPorts ℚ Unit :=
  ⟨fun _ => 0, twoPorts.own, fun _ => ⟨(), 0, true⟩, []⟩

/-- The function of the second output port is set for the first one and for the input. -/
theorem analogOut_touches_first :
    ∃ s, (analogPorts twoPorts wholePwm configuredPorts).run configuredPorts
        [.setFunction .output 0 (twoPorts.own 1), .setFunction .input 0 (twoPorts.own 1),
          .analogOut 1 30] = some s ∧ s.TouchesOwn twoPorts wholePwm 0 50 := by
  have hconfigured : configuredPorts.Configured twoPorts := fun _ _ => ⟨rfl, rfl⟩
  obtain ⟨s, hrun, htouches⟩ := analogOut_touches_own wholePwm hconfigured
    [.setFunction .output 0 (twoPorts.own 1), .setFunction .input 0 (twoPorts.own 1),
      .analogOut 1 30]
  exact ⟨s, hrun, htouches 0 (by decide) 50⟩

end Esp32Embroidery.Board
