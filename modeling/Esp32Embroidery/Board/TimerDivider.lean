import Esp32Embroidery.Board.Timers
import Esp32Embroidery.Lib.CArith

/-!
# The divider of a claimed timer (`timers.c`)

`timerClaim` takes the first free entry of `timers` and stores the timebase, from which
`timerCfg` computes the divider as `freq_hz / 1000 * timebase / 1000000`. The first division
makes the product smaller, but it still has 32 bits.

* `timerDivider_eq_iff`, `timerDivider_lt`, `timerDivider_le`: the computation alone.
* `timerClaim_eq_some`, `timerClaim_eq_none_iff`: the search for a free entry.
* `timerCfg_divider_iff`: the divider is the quotient and nothing overflows iff
  `freq_hz * timebase` is below `1000 * 2^32`.
* `timerCfg_divider_wraps`: otherwise the divider is too small.
-/

namespace Esp32Embroidery.Board

open Esp32Embroidery.Lib

/-! ## The computation -/

/-- The divider that makes a tick of `timebase` nanoseconds, rounded down. -/
def exactDivider (freqHz timebase : ℕ) : ℕ := freqHz * timebase / 1000000000

/-- The exact results of the operations of line 110, the first one first. -/
def dividerResults (freqHz timebase : ℕ) : List ℕ :=
  [freqHz / 1000, freqHz / 1000 * timebase, freqHz / 1000 * timebase / 1000000]

/-- All of them are `uint32_t` values. -/
def DividerFits (freqHz timebase : ℕ) : Prop :=
  ∀ x ∈ dividerResults freqHz timebase, x < 4294967296

section

variable {freqHz timebase : ℕ}

theorem exactDivider_eq (h : 1000 ∣ freqHz) :
    exactDivider freqHz timebase = freqHz / 1000 * timebase / 1000000 := by
  unfold exactDivider
  rw [div_mul_div_of_dvd (by decide) h]

/-- The division before the product is exact, so the bound on the product has a factor 1000. -/
theorem product_lt_iff (h : 1000 ∣ freqHz) :
    freqHz / 1000 * timebase < 4294967296 ↔ freqHz * timebase < 4294967296000 := by
  obtain ⟨k, rfl⟩ := h
  rw [Nat.mul_div_cancel_left k (by decide), Nat.mul_assoc]
  omega

theorem timerDivider_eq_iff (h : 1000 ∣ freqHz) :
    timerDivider freqHz timebase = exactDivider freqHz timebase ↔
      freqHz * timebase < 4294967296000 := by
  rw [exactDivider_eq h, ← product_lt_iff h]
  exact wrapped_div_eq_iff (by decide) (by decide)

/-- A product that wraps always makes the timer too fast. -/
theorem timerDivider_lt (h : 1000 ∣ freqHz) (hwrap : 4294967296000 ≤ freqHz * timebase) :
    timerDivider freqHz timebase < exactDivider freqHz timebase := by
  have hproduct : 4294967296 ≤ freqHz / 1000 * timebase :=
    not_lt.1 fun hlt => hwrap.not_gt ((product_lt_iff h).1 hlt)
  rw [exactDivider_eq h]
  exact wrapped_div_lt (by decide) (by decide) hproduct

/-- The hardware divides by up to 65536, but no timer gets a divider above this. -/
theorem timerDivider_le (freqHz timebase : ℕ) : timerDivider freqHz timebase ≤ 4294 := by
  have hmod : freqHz / 1000 * timebase % 4294967296 < 4294967296 := Nat.mod_lt _ (by decide)
  unfold timerDivider
  omega

/-- The divisions only make a `uint32_t` value smaller. -/
theorem dividerFits_iff (hfreq : freqHz < 4294967296) :
    DividerFits freqHz timebase ↔ freqHz / 1000 * timebase < 4294967296 := by
  constructor
  · intro h
    exact h _ (by simp [dividerResults])
  · intro h x hx
    simp only [dividerResults, List.mem_cons, List.not_mem_nil, or_false] at hx
    obtain rfl | rfl | rfl := hx
    · exact (Nat.div_le_self _ _).trans_lt hfreq
    · exact h
    · exact (Nat.div_le_self _ _).trans_lt h

end

/-! ## The table of timers -/

/-- An entry of `timers` (lines 30–41); `freq_hz` is a `uint32_t`. -/
structure TimerSlot where
  claimed : Bool
  timer : DTimer
  freqHz_lt : timer.freqHz < 4294967296

/-- Lines 83 and 84. -/
def TimerSlot.claim (slot : TimerSlot) (timebase : ℕ) : TimerSlot where
  claimed := true
  timer := { slot.timer with timebase := timebase }
  freqHz_lt := slot.freqHz_lt

def TimerSlot.cfg (slot : TimerSlot) (cfg : TimerCfg) : TimerSlot where
  claimed := slot.claimed
  timer := timerCfg slot.timer cfg
  freqHz_lt := slot.freqHz_lt

namespace Timers

/-- `timerClaim` (lines 76–90): the index of the claimed entry, or `NULL`. -/
def timerClaim (timebase : ℕ) : List TimerSlot → Option ℕ × List TimerSlot
  | [] => (none, [])
  | slot :: slots =>
    if slot.claimed then
      ((timerClaim timebase slots).1.map (· + 1), slot :: (timerClaim timebase slots).2)
    else (some 0, slot.claim timebase :: slots)

/-- `timerCfg` (lines 92–119) on what `timerClaim` returned. -/
def timerCfg (timer : Option ℕ) (cfg : TimerCfg) (timers : List TimerSlot) :
    Bool × List TimerSlot :=
  match timer with
  | none => (false, timers)
  | some idx => (true, timers.modify idx (·.cfg cfg))

/-- `timerClaim` followed by `timerCfg`. -/
def claimAndCfg (timebase : ℕ) (cfg : TimerCfg) (timers : List TimerSlot) : List TimerSlot :=
  (timerCfg (timerClaim timebase timers).1 cfg (timerClaim timebase timers).2).2

/-- The divider of the timer at an index. -/
def dividerAt (idx : ℕ) (timers : List TimerSlot) : Option ℕ :=
  timers[idx]?.map (·.timer.hw.divider)

section

variable {timebase idx : ℕ} {timers : List TimerSlot}

/-- `timerClaim` takes the first entry that is not claimed and leaves the others alone. -/
theorem timerClaim_eq_some (h : (timerClaim timebase timers).1 = some idx) :
    ∃ before slot after, timers = before ++ slot :: after ∧ idx = before.length ∧
      (∀ s ∈ before, s.claimed = true) ∧ slot.claimed = false ∧
      (timerClaim timebase timers).2 = before ++ slot.claim timebase :: after := by
  induction timers generalizing idx with
  | nil => cases h
  | cons slot slots ih =>
    unfold timerClaim at h ⊢
    split at h
    · rename_i hclaimed
      obtain ⟨i, hi, rfl⟩ := Option.map_eq_some_iff.1 h
      obtain ⟨before, s, after, rfl, rfl, hbefore, hfree, hclaim⟩ := ih hi
      refine ⟨slot :: before, s, after, rfl, rfl, ?_, hfree, ?_⟩
      · exact List.forall_mem_cons.2 ⟨hclaimed, hbefore⟩
      · rw [if_pos hclaimed, hclaim]
        rfl
    · rename_i hfree
      obtain rfl : 0 = idx := Option.some.inj h
      refine ⟨[], slot, slots, rfl, rfl, by simp, by simpa using hfree, ?_⟩
      rw [if_neg hfree]
      rfl

theorem timerClaim_eq_none_iff :
    (timerClaim timebase timers).1 = none ↔ ∀ s ∈ timers, s.claimed = true := by
  induction timers with
  | nil => simp [timerClaim]
  | cons slot slots ih =>
    rw [List.forall_mem_cons, ← ih, timerClaim]
    split
    · rename_i hclaimed
      simp [hclaimed]
    · rename_i hfree
      simp [hfree]

/-- The divider after both calls is the one computed for the claimed entry. -/
theorem dividerAt_claimAndCfg {slot : TimerSlot} (cfg : TimerCfg)
    (hclaim : (timerClaim timebase timers).1 = some idx) (hslot : timers[idx]? = some slot) :
    dividerAt idx (claimAndCfg timebase cfg timers) =
      some (timerDivider slot.timer.freqHz timebase) := by
  obtain ⟨before, s, after, rfl, rfl, -, -, htimers⟩ := timerClaim_eq_some hclaim
  obtain rfl : s = slot := by simpa using hslot
  rw [claimAndCfg, hclaim, htimers]
  simp [dividerAt, timerCfg, TimerSlot.cfg, TimerSlot.claim, Board.timerCfg]

end

/-! ## The timers of the ESP32 -/

/-- An entry of `timers` before its first use. -/
def unused (hw : TimerHw) : TimerSlot where
  claimed := false
  timer := { cfg := ⟨false, 0⟩, freqHz := 80000000, timebase := 0, hw := hw }
  freqHz_lt := show 80000000 < 4294967296 by decide

/-- `timers` (lines 70–74) -/
def timers (hw : Fin 3 → TimerHw) : List TimerSlot := [unused (hw 0), unused (hw 1), unused (hw 2)]

/-- What `timerClaim` makes of such an entry is the claimed timer of `Board.timerClaim`. -/
theorem unused_claim (hw : TimerHw) (timebase : ℕ) :
    ((unused hw).claim timebase).timer = Board.timerClaim timebase hw := rfl

/-- At 80 MHz the divider is exact for timebases up to 53.687 microseconds. -/
theorem timerDivider_80MHz_iff (timebase : ℕ) :
    timerDivider 80000000 timebase = exactDivider 80000000 timebase ↔ timebase ≤ 53687 := by
  rw [timerDivider_eq_iff (by decide)]
  omega

/-! ## The result -/

/-- For the entry that `timerClaim` claims, with a frequency in whole kHz: `timerCfg` gives
    the exact divider without an overflow iff `freq_hz * timebase` is below `1000 * 2^32`. -/
theorem timerCfg_divider_iff (timers : List TimerSlot) (timebase : ℕ) (cfg : TimerCfg) {idx : ℕ}
    {slot : TimerSlot} (hclaim : (timerClaim timebase timers).1 = some idx)
    (hslot : timers[idx]? = some slot) (hfreq : 1000 ∣ slot.timer.freqHz) :
    (dividerAt idx (claimAndCfg timebase cfg timers) =
        some (exactDivider slot.timer.freqHz timebase) ∧
      DividerFits slot.timer.freqHz timebase) ↔
      slot.timer.freqHz * timebase < 4294967296000 := by
  rw [dividerAt_claimAndCfg cfg hclaim hslot, Option.some.injEq, timerDivider_eq_iff hfreq,
    dividerFits_iff slot.freqHz_lt, product_lt_iff hfreq, and_self]

/-- The timer of the laser pulses counts microseconds (`driver.c`, line 3593). -/
theorem timerCfg_divider_1us :
    dividerAt 0 (claimAndCfg 1000 ⟨true, 0⟩ (timers fun _ => ⟨false, 0, 0, false, false, 2⟩)) =
        some 80 ∧
      DividerFits 80000000 1000 :=
  (timerCfg_divider_iff (timers fun _ => ⟨false, 0, 0, false, false, 2⟩) 1000 ⟨true, 0⟩ rfl rfl
    (by decide)).2 (by decide)

/-- A tick of 100 microseconds needs the divider 8000. -/
theorem timerCfg_divider_100us :
    exactDivider 80000000 100000 = 8000 ∧
      dividerAt 0 (claimAndCfg 100000 ⟨true, 0⟩
        (timers fun _ => ⟨false, 0, 0, false, false, 2⟩)) = some 3705 ∧
      ¬ DividerFits 80000000 100000 :=
  ⟨rfl, rfl, (dividerFits_iff (by decide)).not.2 (by decide)⟩

/-- When the product wraps, the divider is too small, and it is one below 4295. -/
theorem timerCfg_divider_wraps (timers : List TimerSlot) (timebase : ℕ) (cfg : TimerCfg) {idx : ℕ}
    {slot : TimerSlot} (hclaim : (timerClaim timebase timers).1 = some idx)
    (hslot : timers[idx]? = some slot) (hfreq : 1000 ∣ slot.timer.freqHz)
    (hwrap : 4294967296000 ≤ slot.timer.freqHz * timebase) :
    ∃ divider, dividerAt idx (claimAndCfg timebase cfg timers) = some divider ∧
      divider < exactDivider slot.timer.freqHz timebase ∧ divider ≤ 4294 :=
  ⟨_, dividerAt_claimAndCfg cfg hclaim hslot, timerDivider_lt hfreq hwrap, timerDivider_le _ _⟩

end Timers

end Esp32Embroidery.Board
