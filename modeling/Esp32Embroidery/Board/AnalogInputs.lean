import Esp32Embroidery.Lib.Loop
import Mathlib.Data.Int.Notation
import Mathlib.Data.List.Basic

/-!
# Analog inputs (`ioports_init_analog`, `ioports_analog.c`)

For every configured input the function looks for the entry of `adc_map` with its GPIO. The
search counts `j`, but tests and indexes with `i`: input number `i` is compared with entry
number `i`, for ever if they differ, and not at all if there is no such entry.

Main results:

* `exists_leavesWith_start_iff`: the function ends exactly if every input meets the entry of
  its number.
* `waitOnInput_leavesWith`: then `wait_on_input` reads the channel of that entry.
* `initAnalog_binds_iff`: it binds all inputs correctly exactly if, in addition, no input
  without an entry of its number has its GPIO in the map.
-/

namespace Esp32Embroidery.Board

open Esp32Embroidery.Lib

/-! ## Model -/

/-- `adc_map_t`. -/
structure AdcMap where
  ch : ℕ
  pin : ℕ
  deriving DecidableEq

/-- `adc_map` on the ESP32 (lines 58–67). -/
def adcMapEsp32 : List AdcMap :=
  [⟨0, 36⟩, ⟨1, 37⟩, ⟨2, 38⟩, ⟨3, 39⟩, ⟨4, 32⟩, ⟨5, 33⟩, ⟨6, 34⟩, ⟨7, 35⟩]

/-- The fields of `input_signal_t` that are used here: `adc` points into the map, `analog` is
    `cap.analog`. -/
structure InputSignal where
  pin : ℕ
  adc : Option AdcMap
  analog : Bool
  deriving DecidableEq

/-- Where the function is. -/
inductive InitPc
  /-- at the condition of the loop over the inputs (line 423) -/
  | outer (i : ℕ)
  /-- at the condition of the search (line 426) -/
  | inner (i j : ℕ)
  deriving DecidableEq

/-- The variables of `ioports_init_analog`, with `aux_in_analog` and `analog.in.n_ports`. -/
structure AnalogInit where
  pc : InitPc
  ok : Bool
  auxInAnalog : List InputSignal
  nPorts : ℕ
  deriving DecidableEq

namespace AnalogInit

/-- Before the loop, after `ioports_add_analog` has accepted the ports. -/
def start (pins : List ℕ) : AnalogInit where
  pc := .outer 0
  ok := false
  auxInAnalog := pins.map fun pin => ⟨pin, none, false⟩
  nPorts := pins.length

/-- Lines 429–433. -/
def bind (s : AnalogInit) (i : ℕ) (entry : AdcMap) : AnalogInit :=
  { s with
    auxInAnalog := s.auxInAnalog.modify i fun input =>
      { input with adc := some entry, analog := true } }

/-- Lines 436–437, and on to the next input. -/
def searched (s : AnalogInit) (i : ℕ) : AnalogInit :=
  { s with
    pc := .outer (i + 1)
    nPorts := if s.ok then s.nPorts else s.nPorts - 1 }

/-- `adc_map[i].pin == aux_in_analog[i].pin` -/
def samePin (s : AnalogInit) (i : ℕ) (entry : AdcMap) : Bool :=
  decide (s.auxInAnalog[i]?.map InputSignal.pin = some entry.pin)

/-- One test of a loop condition with what follows it (lines 423–438). The condition of the
    search is `i < sizeof(adc_map) / sizeof(adc_map_t)`. -/
def body (map : List AdcMap) (s : AnalogInit) : Option AnalogInit :=
  match s.pc with
  | .outer i =>
    if i < s.auxInAnalog.length then some { s with ok := false, pc := .inner i 0 } else none
  | .inner i j =>
    match map[i]? with
    | none => some (s.searched i)
    | some entry =>
      if s.samePin i entry then some (({ s with ok := true }.bind i entry).searched i)
      else some { s with ok := false, pc := .inner i (j + 1) }

/-- `wait_on_input` (lines 298–301). -/
def waitOnInput (s : AnalogInit) (adc1GetRaw : ℕ → ℤ) (port : ℕ) : ℤ :=
  if port < s.nPorts then
    match s.auxInAnalog[port]? with
    | some ⟨_, some entry, _⟩ => adc1GetRaw entry.ch
    | _ => -1
  else -1

end AnalogInit

/-- `ioports_init_analog` ends, every input whose GPIO is in the map has an entry with this
    GPIO, and the ports are the inputs that have one. -/
def InitAnalogBinds (map : List AdcMap) (pins : List ℕ) : Prop :=
  ∃ t : AnalogInit, LeavesWith (AnalogInit.body map) (AnalogInit.start pins) t ∧
    (∀ i : ℕ, ∀ pin ∈ pins[i]?, (∃ entry ∈ map, entry.pin = pin) →
      ∃ entry ∈ map, entry.pin = pin ∧ t.auxInAnalog[i]?.bind InputSignal.adc = some entry) ∧
    ∀ i < pins.length, i < t.nPorts ↔ (t.auxInAnalog[i]?.bind InputSignal.adc).isSome = true

/-! ## The loop over the inputs -/

/-- Input number `i` has the GPIO of entry number `i`, if there are both. -/
def Meets (map : List AdcMap) (pins : List ℕ) (i : ℕ) : Prop :=
  ∀ entry ∈ map[i]?, ∀ pin ∈ pins[i]?, entry.pin = pin

namespace AnalogInit

/-- The inputs below `i` with the entries of their numbers. -/
def boundBelow (map : List AdcMap) (pins : List ℕ) (i : ℕ) : List InputSignal :=
  pins.mapIdx fun k pin => if k < i then ⟨pin, map[k]?, map[k]?.isSome⟩ else ⟨pin, none, false⟩

/-- At the condition of the loop with `i`, if all inputs below have met their entries. -/
def initAt (map : List AdcMap) (pins : List ℕ) (i : ℕ) (ok : Bool) : AnalogInit where
  pc := .outer i
  ok := ok
  auxInAnalog := boundBelow map pins i
  nPorts := pins.length - (i - map.length)

variable {map : List AdcMap} {pins : List ℕ} {i k : ℕ} {ok : Bool} {entry : AdcMap}

theorem start_eq (map : List AdcMap) (pins : List ℕ) : start pins = initAt map pins 0 false := by
  have hinputs : (pins.map fun pin => (⟨pin, none, false⟩ : InputSignal)) =
      boundBelow map pins 0 := by
    refine List.ext_getElem? fun k => ?_
    simp [boundBelow, List.getElem?_mapIdx]
  simp [start, initAt, hinputs]

theorem length_boundBelow : (boundBelow map pins i).length = pins.length := by
  simp [boundBelow]

theorem getElem?_boundBelow :
    (boundBelow map pins i)[k]? = pins[k]?.map fun pin =>
      if k < i then ⟨pin, map[k]?, map[k]?.isSome⟩ else ⟨pin, none, false⟩ := by
  simp [boundBelow, List.getElem?_mapIdx]

theorem pin_boundBelow : (boundBelow map pins i)[k]?.map InputSignal.pin = pins[k]? := by
  rw [getElem?_boundBelow, Option.map_map]
  have hpin : (InputSignal.pin ∘ fun pin =>
      if k < i then ⟨pin, map[k]?, map[k]?.isSome⟩ else ⟨pin, none, false⟩) = id := by
    funext pin
    by_cases hk : k < i <;> simp [hk]
  rw [hpin, Option.map_id_fun, id]

/-- An input without an entry of its number stays as it is. -/
theorem boundBelow_succ_of_none (hnone : map[i]? = none) :
    boundBelow map pins (i + 1) = boundBelow map pins i := by
  refine List.ext_getElem? fun k => ?_
  rw [getElem?_boundBelow, getElem?_boundBelow]
  congr 1
  funext pin
  rcases Nat.lt_trichotomy k i with hk | rfl | hk
  · rw [if_pos hk, if_pos (Nat.lt_succ_of_lt hk)]
  · rw [if_pos (Nat.lt_succ_self k), if_neg (Nat.lt_irrefl k), hnone]
    rfl
  · rw [if_neg (by omega), if_neg (by omega)]

/-- Lines 429–433 bind input number `i`. -/
theorem boundBelow_succ_of_some (hentry : map[i]? = some entry) :
    (boundBelow map pins i).modify i
        (fun input => { input with adc := some entry, analog := true }) =
      boundBelow map pins (i + 1) := by
  refine List.ext_getElem? fun k => ?_
  rw [List.getElem?_modify, getElem?_boundBelow, getElem?_boundBelow, Option.map_eq_map,
    Option.map_map]
  congr 1
  funext pin
  rcases Nat.lt_trichotomy k i with hk | rfl | hk
  · simp [hk, Nat.lt_succ_of_lt hk, Nat.ne_of_gt hk]
  · simp [hentry]
  · simp [Nat.ne_of_lt hk, Nat.not_lt_of_lt hk, Nat.not_lt.2 (Nat.succ_le_of_lt hk)]

theorem samePin_initAt {s : AnalogInit} (hinputs : s.auxInAnalog = boundBelow map pins k) :
    s.samePin i entry = true ↔ pins[i]? = some entry.pin := by
  rw [samePin, hinputs, pin_boundBelow, decide_eq_true_iff]

theorem body_initAt (hi : i < pins.length) :
    body map (initAt map pins i ok) =
      some { initAt map pins i ok with ok := false, pc := .inner i 0 } := by
  simp only [body, initAt, length_boundBelow, if_pos hi]

theorem body_initAt_end : body map (initAt map pins pins.length ok) = none := by
  simp only [body, initAt, length_boundBelow, Nat.lt_irrefl, if_false]

/-- The search of an input that meets its entry, or has none. -/
theorem leavesWith_initAt_succ {t : AnalogInit} (hi : i < pins.length)
    (hmeets : Meets map pins i) :
    LeavesWith (body map) (initAt map pins i ok) t ↔
      LeavesWith (body map) (initAt map pins (i + 1) map[i]?.isSome) t := by
  rw [leavesWith_of_some (body_initAt hi)]
  refine leavesWith_of_some ?_
  cases hentry : map[i]? with
  | none =>
    have hle : map.length ≤ i := List.getElem?_eq_none_iff.1 hentry
    have hports : pins.length - (i - map.length) - 1 = pins.length - (i + 1 - map.length) := by
      omega
    simp [body, initAt, hentry, searched, boundBelow_succ_of_none hentry, hports]
  | some entry =>
    obtain ⟨hlt, -⟩ := List.getElem?_eq_some_iff.1 hentry
    have hports : pins.length - (i - map.length) = pins.length - (i + 1 - map.length) := by
      omega
    have hpin : pins[i]? = some entry.pin := by
      rw [List.getElem?_eq_getElem hi, hmeets entry hentry _ (List.getElem?_eq_getElem hi)]
    have hsame : ({ initAt map pins i ok with ok := false, pc := .inner i 0 } :
        AnalogInit).samePin i entry = true := (samePin_initAt rfl).2 hpin
    simp only [body, hentry, hsame, if_true]
    simp [bind, searched, initAt, boundBelow_succ_of_some hentry, hports]

/-- The search of an input with the GPIO of another entry does not end. -/
theorem not_leavesWith_initAt {t : AnalogInit} (hmeets : ¬Meets map pins i) :
    ¬LeavesWith (body map) (initAt map pins i ok) t := by
  obtain ⟨entry, hentry, pin, hpin, hne⟩ :
      ∃ entry, map[i]? = some entry ∧ ∃ pin, pins[i]? = some pin ∧ entry.pin ≠ pin := by
    simpa [Meets] using hmeets
  obtain ⟨hi, -⟩ := List.getElem?_eq_some_iff.1 hpin
  rw [leavesWith_of_some (body_initAt hi)]
  refine not_leavesWith (I := fun s =>
    (∃ j, s.pc = .inner i j) ∧ s.auxInAnalog = boundBelow map pins i) ?_ ⟨⟨0, rfl⟩, rfl⟩
  rintro s ⟨⟨j, hpc⟩, hinputs⟩
  have hsame : s.samePin i entry = false := by
    refine Bool.eq_false_iff.2 fun h => hne ?_
    rw [samePin_initAt hinputs, hpin] at h
    exact (Option.some.inj h).symm
  refine ⟨{ s with ok := false, pc := .inner i (j + 1) }, ?_, ⟨j + 1, rfl⟩, hinputs⟩
  simp [body, hpc, hentry, hsame]

/-- If the loop ends, all inputs from `i` have met their entries, and the inputs are bound to
    the entries of their numbers. -/
theorem meets_of_leavesWith {t : AnalogInit} (hi : i ≤ pins.length)
    (h : LeavesWith (body map) (initAt map pins i ok) t) :
    (∀ k, i ≤ k → Meets map pins k) ∧ ∃ ok', t = initAt map pins pins.length ok' := by
  induction hd : pins.length - i generalizing i ok with
  | zero =>
    obtain rfl : i = pins.length := by omega
    refine ⟨fun k hk entry _ pin hpin => ?_, ok, ?_⟩
    · rw [List.getElem?_eq_none hk] at hpin
      cases hpin
    · exact (leavesWith_of_none body_initAt_end).1 h
  | succ d ih =>
    have hlt : i < pins.length := by omega
    have hmeets : Meets map pins i := by
      by_contra hne
      exact not_leavesWith_initAt hne h
    obtain ⟨hrest, hend⟩ := ih hlt ((leavesWith_initAt_succ hlt hmeets).1 h) (by omega)
    refine ⟨fun k hk => ?_, hend⟩
    rcases Nat.eq_or_lt_of_le hk with rfl | hik
    · exact hmeets
    · exact hrest k hik

/-- If all inputs from `i` meet their entries, the loop ends. -/
theorem exists_leavesWith_initAt (hi : i ≤ pins.length)
    (hmeets : ∀ k, i ≤ k → Meets map pins k) :
    ∃ t, LeavesWith (body map) (initAt map pins i ok) t := by
  induction hd : pins.length - i generalizing i ok with
  | zero =>
    obtain rfl : i = pins.length := by omega
    exact ⟨_, .stop body_initAt_end⟩
  | succ d ih =>
    have hlt : i < pins.length := by omega
    obtain ⟨t, ht⟩ := ih hlt (fun k hk => hmeets k (by omega)) (by omega)
    exact ⟨t, (leavesWith_initAt_succ hlt (hmeets i (Nat.le_refl i))).2 ht⟩

/-- The function ends exactly if no input has another GPIO than the entry of its number. -/
theorem exists_leavesWith_start_iff (map : List AdcMap) (pins : List ℕ) :
    (∃ t, LeavesWith (body map) (start pins) t) ↔ ∀ i, Meets map pins i := by
  rw [start_eq map pins]
  constructor
  · rintro ⟨t, ht⟩ i
    exact (meets_of_leavesWith (Nat.zero_le _) ht).1 i (Nat.zero_le i)
  · intro hmeets
    exact exists_leavesWith_initAt (Nat.zero_le _) fun k _ => hmeets k

/-- The entries at the end. -/
theorem adc_initAt (hk : k < pins.length) :
    (initAt map pins pins.length ok).auxInAnalog[k]?.bind InputSignal.adc = map[k]? := by
  simp only [initAt]
  rw [getElem?_boundBelow, List.getElem?_eq_getElem hk, Option.map_some, Option.bind_some,
    if_pos hk]

/-- The ports at the end are the inputs with an entry. -/
theorem nPorts_initAt (hk : k < pins.length) :
    k < (initAt map pins pins.length ok).nPorts ↔ map[k]?.isSome = true := by
  rw [Option.isSome_iff_ne_none, Ne, List.getElem?_eq_none_iff]
  simp only [initAt]
  omega

/-- When the initialisation has ended, `wait_on_input` reads the channel of the entry of the
    port's number. -/
theorem waitOnInput_leavesWith {t : AnalogInit} (ht : LeavesWith (body map) (start pins) t)
    (adc1GetRaw : ℕ → ℤ) {port : ℕ} (hport : port < pins.length) :
    t.waitOnInput adc1GetRaw port = map[port]?.elim (-1) fun entry => adc1GetRaw entry.ch := by
  rw [start_eq map pins] at ht
  obtain ⟨ok, rfl⟩ := (meets_of_leavesWith (Nat.zero_le _) ht).2
  have hports : port < (initAt map pins pins.length ok).nPorts ↔ map[port]?.isSome = true :=
    nPorts_initAt hport
  have hinput : (initAt map pins pins.length ok).auxInAnalog[port]? =
      some ⟨pins[port], map[port]?, map[port]?.isSome⟩ := by
    simp only [initAt]
    rw [getElem?_boundBelow, List.getElem?_eq_getElem hport, Option.map_some, if_pos hport]
  rw [waitOnInput, hinput]
  cases hentry : map[port]? with
  | none => simp
  | some entry =>
    rw [hentry] at hports
    rw [if_pos (hports.2 rfl)]
    rfl

end AnalogInit

/-! ## All inputs -/

open AnalogInit in
/-- `ioports_init_analog` binds the inputs correctly exactly if every input has the GPIO of
    the entry of its number, and an input without such an entry has no GPIO of the map. -/
theorem initAnalog_binds_iff (map : List AdcMap) (pins : List ℕ) :
    InitAnalogBinds map pins ↔
      (∀ i, Meets map pins i) ∧
        ∀ pin ∈ pins.drop map.length, ∀ entry ∈ map, entry.pin ≠ pin := by
  constructor
  · rintro ⟨t, ht, hbound, -⟩
    refine ⟨(exists_leavesWith_start_iff map pins).1 ⟨t, ht⟩, ?_⟩
    intro pin hpin entry hentry heq
    obtain ⟨d, hd⟩ := List.mem_iff_getElem?.1 hpin
    rw [List.getElem?_drop] at hd
    obtain ⟨hlt, -⟩ := List.getElem?_eq_some_iff.1 hd
    obtain ⟨found, -, -, hadc⟩ := hbound _ pin hd ⟨entry, hentry, heq⟩
    rw [start_eq map pins] at ht
    obtain ⟨ok, rfl⟩ := (meets_of_leavesWith (Nat.zero_le _) ht).2
    -- the input is bound to an entry beyond the map
    rw [adc_initAt hlt, List.getElem?_eq_none (Nat.le_add_right _ d)] at hadc
    cases hadc
  · rintro ⟨hmeets, hbeyond⟩
    obtain ⟨t, ht⟩ := (exists_leavesWith_start_iff map pins).2 hmeets
    refine ⟨t, ht, ?_⟩
    rw [start_eq map pins] at ht
    obtain ⟨ok, rfl⟩ := (meets_of_leavesWith (Nat.zero_le _) ht).2
    constructor
    · rintro i pin hpin ⟨entry, hentry, heq⟩
      obtain ⟨hi, -⟩ := List.getElem?_eq_some_iff.1 hpin
      have hmap : i < map.length := by
        by_contra hle
        refine hbeyond pin (List.mem_iff_getElem?.2 ⟨i - map.length, ?_⟩) entry hentry heq
        rw [List.getElem?_drop, Nat.add_sub_cancel' (Nat.not_lt.1 hle)]
        exact hpin
      have hfound := List.getElem?_eq_getElem hmap
      exact ⟨map[i], List.getElem_mem hmap, hmeets i _ hfound pin hpin,
        (adc_initAt hi).trans hfound⟩
    · intro i hi
      rw [nPorts_initAt hi, adc_initAt hi]

/-- One input, GPIO 37, which has the second entry: the search does not end. -/
theorem initAnalog_endless : ¬InitAnalogBinds adcMapEsp32 [37] := by
  rintro ⟨t, ht, -⟩
  have hmeets := (AnalogInit.exists_leavesWith_start_iff _ _).1 ⟨t, ht⟩ 0
  exact absurd (hmeets ⟨0, 36⟩ rfl 37 rfl) (by decide)

end Esp32Embroidery.Board
