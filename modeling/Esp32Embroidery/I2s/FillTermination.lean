import Esp32Embroidery.I2s.Schedule
import Esp32Embroidery.Lib.Loop

/-!
# The end of the fill loop (`i2s_fillout_dma_buffer`, `i2s_out_s3.c`)

An iteration stores a sample or calls `pulse_func`, which may store none. Then the write
position stays and the wait grows by the pulse period, so that three such iterations at most
come before a sample, unless the sum wraps: the wait is below 4 microseconds when
`pulse_func` is called, and a period within 3 of 2^32 lowers it.

Main results:

* `fillMeasure_lt`: every iteration lowers a measure of position and wait.
* `fill_loop_ends`: the loop ends for periods from 1 to 2^32 - 4.
-/

namespace Esp32Embroidery.I2s

open Esp32Embroidery.Lib

/-! ## Model -/

/-- A call of `pulse_func`: the arguments of its calls of `i2s_out_push_sample`, and the
    status and the pulse period when it returns. -/
structure PulseCall where
  pushes : List ℕ
  status : PulserStatus
  pulsePeriod : BitVec 32

namespace Filler

/-- The variables when `pulse_func` returns. -/
def called (s : Filler) (call : PulseCall) : Filler :=
  { call.pushes.foldl pushSample s with
    status := call.status
    pulsePeriod := call.pulsePeriod }

/-- One iteration of the loop of lines 516–566, and the number of calls of `pulse_func` so
    far; `calls` has what each of them does. -/
def iteration (calls : ℕ → PulseCall) (s : Filler) (n : ℕ) : Filler × ℕ :=
  match (s.turn .esp32s3).pc with
  | .callback oldRwPos _ => (((s.turn .esp32s3).called (calls n)).returned .esp32s3 oldRwPos, n + 1)
  | .wait | .loop => (s.turn .esp32s3, n)

/-- The loop, with its condition in `turn`: it is left when the descriptor has its length. -/
def fillLoop (calls : ℕ → PulseCall) (sn : Filler × ℕ) : Option (Filler × ℕ) :=
  if sn.1.pc = .loop then some (iteration calls sn.1 sn.2) else none

/-- `i2s_fillout_dma_buffer` up to the loop. -/
def filloutStart (s : Filler) : Filler := { s with rwPos := 0, pc := .loop }

/-! ## One iteration -/

variable {calls : ℕ → PulseCall} {s : Filler} {n : ℕ}

theorem stores_pushes (s : Filler) (pushes : List ℕ) :
    ∃ count, Stores s (pushes.foldl pushSample s) count := by
  induction pushes generalizing s with
  | nil => exact ⟨0, stores_portWrites s []⟩
  | cons num nums ih =>
    obtain ⟨count, hcount⟩ := ih (s.pushSample num)
    exact ⟨_, (stores_pushSample s num).trans hcount⟩

/-- The loop stores a sample, ends, or calls `pulse_func`. -/
theorem turn_cases (s : Filler) :
    (s.rwPos < 495 ∧ (s.turn .esp32s3).pc = s.pc ∧ (s.turn .esp32s3).rwPos = s.rwPos + 1) ∨
      (s.turn .esp32s3).pc = .wait ∨
      (s.rwPos < 495 ∧ s.remain.toNat < 4 ∧
        s.turn .esp32s3 = { s with pc := .callback s.rwPos 0 }) := by
  unfold Filler.turn
  by_cases hguard : s.rwPos < dmaSampleCount - sampleSafeCount
  · rw [if_pos hguard]
    by_cases hdue : s.remain.toNat < i2sOutUsecPerPulse ∧ s.status = .stepping ∧
        (Chip.esp32s3 = .esp32 → s.pulseFunc = true)
    · rw [if_pos hdue]
      exact .inr (.inr ⟨hguard, hdue.1, rfl⟩)
    · rw [if_neg hdue]
      exact .inl ⟨hguard, rfl, rfl⟩
  · rw [if_neg hguard]
    exact .inr (.inl rfl)

/-- The wait after a call of `pulse_func` that stored no sample. -/
theorem toNat_remainAfter_zero {remain pulsePeriod : BitVec 32} (hremain : remain.toNat < 4)
    (hperiod : pulsePeriod.toNat ≤ 2 ^ 32 - 4) :
    (remainAfter .esp32s3 remain pulsePeriod 0#32).toNat = remain.toNat + pulsePeriod.toNat := by
  have hle : 0#32 ≤ pulsePeriod := BitVec.le_def.2 (Nat.zero_le _)
  simp only [remainAfter, if_pos hle]
  rw [BitVec.sub_zero, BitVec.toNat_add]
  omega

/-- After a call of `pulse_func` the loop is left, a sample was stored, or the wait has
    grown. -/
theorem returned_cases (s : Filler) {call : PulseCall} (hremain : s.remain.toNat < 4)
    (hperiod : call.pulsePeriod.toNat ≤ 2 ^ 32 - 4) :
    let t := ({ s with pc := .callback s.rwPos 0 }.called call).returned .esp32s3 s.rwPos
    t.pc = .wait ∨ t.pc = .loop ∧ (s.rwPos < t.rwPos ∨
      t.rwPos = s.rwPos ∧ t.remain.toNat = s.remain.toNat + call.pulsePeriod.toNat) := by
  obtain ⟨count, samples, portData, hstores, -, -⟩ :=
    stores_pushes { s with pc := .callback s.rwPos 0 } call.pushes
  unfold called returned
  rw [hstores]
  dsimp only
  by_cases hpass : call.status = .passthrough
  · rw [if_pos hpass]
    exact .inl rfl
  · rw [if_neg hpass]
    refine .inr ⟨rfl, ?_⟩
    rcases Nat.eq_zero_or_pos count with rfl | hpos
    · refine .inr ⟨rfl, ?_⟩
      have hzero : 4 * (BitVec.ofNat 32 (s.rwPos + 0) - BitVec.ofNat 32 s.rwPos) = 0#32 := by
        rw [Nat.add_zero, BitVec.sub_self, BitVec.mul_zero]
      rw [hzero]
      exact toNat_remainAfter_zero hremain hperiod
    · exact .inl (Nat.lt_add_of_pos_right hpos)

/-- The samples that are missing, and the wait. A stored sample counts more than all
    iterations without one that may follow. -/
def fillMeasure (sn : Filler × ℕ) : ℕ :=
  if sn.1.pc = .loop then 1 + 5 * (495 - sn.1.rwPos) + (4 - sn.1.remain.toNat) else 0

theorem fillMeasure_loop {sn : Filler × ℕ} (hpc : sn.1.pc = .loop) :
    fillMeasure sn = 1 + 5 * (495 - sn.1.rwPos) + (4 - sn.1.remain.toNat) := if_pos hpc

theorem fillMeasure_wait {sn : Filler × ℕ} (hpc : sn.1.pc = .wait) : fillMeasure sn = 0 :=
  if_neg (by rw [hpc]; intro h; cases h)

theorem fillMeasure_lt {calls : ℕ → PulseCall}
    (hperiod : ∀ k, 1 ≤ (calls k).pulsePeriod.toNat ∧ (calls k).pulsePeriod.toNat ≤ 2 ^ 32 - 4)
    {sn tn : Filler × ℕ} (h : fillLoop calls sn = some tn) : fillMeasure tn < fillMeasure sn := by
  obtain ⟨s, n⟩ := sn
  obtain ⟨hpc, hiter⟩ := Option.ite_none_right_eq_some.1 h
  have hiter := Option.some.inj hiter
  rw [fillMeasure_loop hpc]
  rcases turn_cases s with ⟨hroom, hturn, hrw⟩ | hturn | ⟨hroom, hdue, hturn⟩
  · have hnext : iteration calls s n = (s.turn .esp32s3, n) := by
      unfold iteration
      rw [hturn, show s.pc = .loop from hpc]
    rw [← hiter, hnext, fillMeasure_loop (hturn.trans hpc), hrw]
    dsimp only
    omega
  · have hnext : iteration calls s n = (s.turn .esp32s3, n) := by
      unfold iteration
      rw [hturn]
    rw [← hiter, hnext, fillMeasure_wait hturn]
    omega
  · have hnext : iteration calls s n =
        (({ s with pc := .callback s.rwPos 0 }.called (calls n)).returned .esp32s3 s.rwPos,
          n + 1) := by
      unfold iteration
      rw [hturn]
    obtain ⟨hlo, hhi⟩ := hperiod n
    rw [← hiter, hnext]
    rcases returned_cases s hdue hhi with hwait | ⟨hloop, hrw | ⟨hrw, hremain⟩⟩
    · rw [fillMeasure_wait hwait]
      omega
    · rw [fillMeasure_loop hloop]
      dsimp only
      omega
    · rw [fillMeasure_loop hloop]
      dsimp only
      rw [hrw, hremain]
      omega

/-! ## The loop -/

/-- For every state before the loop and every sequence of calls of `pulse_func`, with any
    pushes and any status, whose periods are from 1 to 2^32 - 4: the loop ends. The stepper
    driver only sets such periods if its smallest one is at least a microsecond. -/
theorem fill_loop_ends (s : Filler) {calls : ℕ → PulseCall}
    (hperiod : ∀ k, 1 ≤ (calls k).pulsePeriod.toNat ∧
      (calls k).pulsePeriod.toNat ≤ 2 ^ 32 - 4) :
    (∃ t, LeavesWith (fillLoop calls) (s.filloutStart, 0) t) ∧
      ∀ tMinPeriod cyclesPerTick : BitVec 32, 20 ≤ tMinPeriod.toNat →
        1 ≤ (i2sStepperCyclesPerTick tMinPeriod cyclesPerTick).toNat ∧
          (i2sStepperCyclesPerTick tMinPeriod cyclesPerTick).toNat ≤ 2 ^ 32 - 4 := by
  constructor
  · exact exists_leavesWith (I := fun _ => True) fillMeasure
      (fun _ _ _ hbody => ⟨trivial, fillMeasure_lt hperiod hbody⟩) trivial
  · intro tMinPeriod cyclesPerTick hmin
    have hlo := le_i2sStepperCyclesPerTick tMinPeriod cyclesPerTick
    have hhi := i2sStepperCyclesPerTick_le tMinPeriod cyclesPerTick
    omega

/-- Calls that store nothing and leave the period at 4. -/
theorem fill_loop_ends_idle :
    ∃ t, LeavesWith (fillLoop fun _ => ⟨[], .stepping, 4⟩)
      ((start .stepping 4 3 0).filloutStart, 0) t :=
  (fill_loop_ends (start .stepping 4 3 0) (fun _ => by decide)).1

end Filler

end Esp32Embroidery.I2s
