import Esp32Embroidery.Lib.IdleRing
import Esp32Embroidery.Lib.Machine

/-!
# The passthrough descriptors

In passthrough mode (`i2s_out_s3.c`) the DMA repeats one descriptor of a ring of 12,
the idle descriptor. `i2s_out_commit` writes the samples of a pulse to the
descriptors behind it, links the idle descriptor to them and makes the one behind
the pulse the new idle descriptor. Descriptors are numbered by their place in
`pass_dma`.

Main results:

* `commit_ring`: a commit of at most 10 samples keeps the ring.
* `commit_emits`: what the DMA emits after it.
* `passRing_commit`: both, in every run of writes and commits.
-/

namespace Esp32Embroidery.I2s

open Esp32Embroidery.Lib

/-! ## Model -/

/-- `DMA_SAMPLE_COUNT_PASSTROUGH` (line 96). -/
def dmaSampleCountPasstrough : ℕ := 12

/-- The part of `i2s_sr` used in passthrough mode, with `pass_dma[i].next` and
    `pass_data[i]` as functions of `i`; `passthrough` is
    `pulser_status == PASSTHROUGH`. -/
structure I2sSr where
  portData : BitVec 32
  stepMask : BitVec 32
  passthrough : Bool
  next : ℕ → ℕ
  buffer : ℕ → BitVec 32
  idle : ℕ
  idleNext : ℕ

/-- `bit(pin)`. -/
def bit (pin : ℕ) : BitVec 32 := 1#32 <<< pin

/-- `i2s_out_start` on the first call (lines 328-350, 375-376); `status` tells whether it
    starts the passthrough mode. -/
def i2sOutStart (portData stepMask : BitVec 32) (status : Bool) : I2sSr where
  portData := portData
  stepMask := stepMask
  passthrough := status
  next i := if i = 0 ∨ i = dmaSampleCountPasstrough - 1 then 0 else i + 1
  buffer := if status then Function.update (fun _ => 0) 0 portData else fun _ => 0
  idle := 0
  idleNext := 1

/-- The change of `port_data` in `i2s_out_write` (lines 694-697). -/
def portWrite (portData : BitVec 32) (pin : ℕ) (val : Bool) : BitVec 32 :=
  if val then portData ||| bit pin else portData &&& ~~~bit pin

namespace I2sSr

/-- `i2s_out_write` (lines 692-708). -/
def write (s : I2sSr) (pin : ℕ) (val : Bool) : I2sSr :=
  let portData := portWrite s.portData pin val
  { s with
    portData := portData
    buffer :=
      if s.passthrough then Function.update s.buffer s.idle (portData &&& ~~~s.stepMask)
      else s.buffer }

/-- The loops of `i2s_out_commit` (lines 720-728): `value` in `count` descriptors from
    `desc` on, and the descriptor behind them. -/
def fill (next : ℕ → ℕ) (value : BitVec 32) : ℕ → (ℕ → BitVec 32) → ℕ → (ℕ → BitVec 32) × ℕ
  | 0, buffer, desc => (buffer, desc)
  | count + 1, buffer, desc =>
    fill next value count (Function.update buffer desc value) (next desc)

/-- `i2s_out_commit` (lines 710-743). -/
def commit (s : I2sSr) (pulse delay : ℕ) : I2sSr :=
  let data := s.portData
  let delayed := fill s.next (data &&& ~~~s.stepMask) delay s.buffer s.idleNext
  let pulsed := fill s.next data pulse delayed.1 delayed.2
  let desc := pulsed.2
  let portData := s.portData &&& ~~~s.stepMask
  let next := Function.update s.next s.idle s.idleNext
  { s with
    portData := portData
    buffer := Function.update pulsed.1 desc portData
    next := Function.update next desc desc
    idle := desc
    idleNext := next desc }

/-- The samples emitted after the DMA is restarted at the descriptor `start`. -/
def emits (s : I2sSr) (start k : ℕ) : BitVec 32 := s.buffer (s.next^[k + 1] start)

end I2sSr

/-- Calls of the two functions. -/
inductive PassCall
  | write (pin : ℕ) (val : Bool)
  | commit (pulse delay : ℕ)
  deriving DecidableEq

def passRing (portData stepMask : BitVec 32) (status : Bool) : Machine I2sSr PassCall where
  init := i2sOutStart portData stepMask status
  step s
    | .write pin val => some (s.write pin val)
    | .commit pulse delay => some (s.commit pulse delay)

/-- A commit has at most 10 samples. -/
def Short (_ : I2sSr) (c : PassCall) (_ : I2sSr) : Prop :=
  match c with
  | .write _ _ => True
  | .commit pulse delay => pulse + delay ≤ 10

instance (s : I2sSr) : ∀ (c : PassCall) (t : I2sSr), Decidable (Short s c t)
  | .write _ _, _ => .isTrue trivial
  | .commit pulse delay, _ => inferInstanceAs (Decidable (pulse + delay ≤ 10))

/-- The descriptors form a ring that stops at `idle`, and `idleNext` is behind it. -/
structure I2sSr.Ring (s : I2sSr) : Prop where
  ring : IdleRing s.next dmaSampleCountPasstrough s.idle
  idleNext : s.idleNext = (s.idle + 1) % dmaSampleCountPasstrough

/-- The samples of a pulse: `delay` with the bits of the mask cleared, `pulse` with
    all bits, and then the bits cleared again. -/
def pulseSamples (data stepMask : BitVec 32) (pulse delay k : ℕ) : BitVec 32 :=
  if delay ≤ k ∧ k < delay + pulse then data else data &&& ~~~stepMask

/-! ## The loops -/

namespace I2sSr

theorem ring_start (portData stepMask : BitVec 32) (status : Bool) :
    (i2sOutStart portData stepMask status).Ring where
  ring :=
    { lt := (by decide : 0 < dmaSampleCountPasstrough)
      loop := rfl
      succ := by
        intro i hi hne
        have hzero : i ≠ 0 := hne
        show (if i = 0 ∨ i = dmaSampleCountPasstrough - 1 then 0 else i + 1) = _
        have hlast : (i = 0 ∨ i = dmaSampleCountPasstrough - 1) ↔ i + 1 = dmaSampleCountPasstrough := by
          simp only [dmaSampleCountPasstrough]
          omega
        rw [next_index hi]
        simp only [hlast] }
  idleNext := rfl

theorem Ring.write {s : I2sSr} (h : s.Ring) (pin : ℕ) (val : Bool) : (s.write pin val).Ring :=
  ⟨h.ring, h.idleNext⟩

/-- Filling `count` descriptors from the `j`-th behind the idle one. -/
theorem fill_eq {next : ℕ → ℕ} {n idle : ℕ} (h : IdleRing next n idle) (value : BitVec 32)
    {count j : ℕ} (hcount : j + count < n) (buffer : ℕ → BitVec 32) :
    (fill next value count buffer ((idle + 1 + j) % n)).2 = (idle + 1 + (j + count)) % n ∧
    ∀ i < n, (fill next value count buffer ((idle + 1 + j) % n)).1 ((idle + 1 + i) % n) =
      if j ≤ i ∧ i < j + count then value else buffer ((idle + 1 + i) % n) := by
  induction count generalizing j buffer with
  | zero =>
    refine ⟨rfl, fun i _ => ?_⟩
    rw [if_neg (by omega)]
    rfl
  | succ count ih =>
    obtain ⟨hdesc, hbuffer⟩ := ih (j := j + 1) (by omega)
      (Function.update buffer ((idle + 1 + j) % n) value)
    rw [fill, h.next_offset (by omega)]
    refine ⟨by rw [hdesc]; congr 2; omega, fun i hi => ?_⟩
    rw [hbuffer i hi]
    by_cases hij : i = j
    · rw [hij, Function.update_self, if_neg (by omega), if_pos (by omega)]
    · have hne : (idle + 1 + i) % n ≠ (idle + 1 + j) % n :=
        fun heq => hij (offset_inj hi (by omega) heq)
      rw [Function.update_of_ne hne]
      congr 1
      apply propext
      omega

/-! ## A commit -/

section

variable {s : I2sSr} {pulse delay : ℕ}

/-- The number of the `k`-th descriptor behind the idle one. -/
def behind (s : I2sSr) (k : ℕ) : ℕ := (s.idle + 1 + k) % dmaSampleCountPasstrough

/-- A commit closes the ring, cuts it behind the pulse and leaves the samples of the
    pulse in the descriptors on the way. -/
theorem Ring.commit_eq (h : s.Ring) (hlen : delay + pulse + 1 < dmaSampleCountPasstrough) :
    (s.commit pulse delay).next =
        splice s.next dmaSampleCountPasstrough s.idle (s.behind (delay + pulse)) ∧
      (s.commit pulse delay).idle = s.behind (delay + pulse) ∧
      (s.commit pulse delay).idleNext =
        (s.behind (delay + pulse) + 1) % dmaSampleCountPasstrough ∧
      ∀ k ≤ delay + pulse, (s.commit pulse delay).buffer (s.behind k) =
        pulseSamples s.portData s.stepMask pulse delay k := by
  obtain ⟨hdesc, hdelay⟩ := fill_eq h.ring (s.portData &&& ~~~s.stepMask)
    (show 0 + delay < dmaSampleCountPasstrough by omega) s.buffer
  rw [Nat.add_zero, ← h.idleNext] at hdesc hdelay
  rw [Nat.zero_add] at hdesc
  obtain ⟨hlast, hpulse⟩ := fill_eq h.ring s.portData
    (show delay + pulse < dmaSampleCountPasstrough by omega)
    (fill s.next (s.portData &&& ~~~s.stepMask) delay s.buffer s.idleNext).1
  rw [← hdesc] at hlast hpulse
  have hlt : s.behind (delay + pulse) < dmaSampleCountPasstrough := Nat.mod_lt _ (by decide)
  have hne : s.behind (delay + pulse) ≠ s.idle := h.ring.offset_ne hlen
  refine ⟨?_, hlast, ?_, fun k hk => ?_⟩
  · show Function.update (Function.update s.next s.idle s.idleNext) _ _ = _
    rw [hlast, h.idleNext]
    rfl
  · show Function.update s.next s.idle s.idleNext _ = _
    rw [hlast]
    show Function.update s.next s.idle s.idleNext (s.behind (delay + pulse)) = _
    rw [Function.update_of_ne hne, h.ring.succ _ hlt hne]
  · show Function.update _ _ _ _ = _
    rw [hlast, behind]
    by_cases hkl : k = delay + pulse
    · rw [hkl, Function.update_self, pulseSamples, if_neg (by omega)]
    · have hne : (s.idle + 1 + k) % dmaSampleCountPasstrough ≠
          (s.idle + 1 + (delay + pulse)) % dmaSampleCountPasstrough := by
        intro heq
        exact hkl (offset_inj (by omega) (by omega) heq)
      rw [Function.update_of_ne hne, hpulse k (by omega), hdelay k (by omega), pulseSamples]
      split_ifs
      · rfl
      · rfl
      · omega

theorem Ring.commit_ring (h : s.Ring) (hlen : delay + pulse + 1 < dmaSampleCountPasstrough) :
    (s.commit pulse delay).Ring := by
  obtain ⟨hnext, hidle, hidleNext, -⟩ := h.commit_eq hlen
  refine ⟨?_, ?_⟩
  · rw [hnext, hidle]
    exact h.ring.spliced (Nat.mod_lt _ (by decide))
  · rw [hidleNext, hidle]

/-- The DMA emits the samples of the pulse and repeats the last one. -/
theorem Ring.commit_emits (h : s.Ring) (hlen : delay + pulse + 1 < dmaSampleCountPasstrough)
    (k : ℕ) : (s.commit pulse delay).emits s.idle k =
      pulseSamples s.portData s.stepMask pulse delay k := by
  obtain ⟨hnext, -, -, hbuffer⟩ := h.commit_eq hlen
  rw [emits, hnext, behind, h.ring.iterate_splice hlen]
  show (s.commit pulse delay).buffer (s.behind (min k (delay + pulse))) = _
  rw [hbuffer _ (Nat.min_le_right _ _)]
  rcases Nat.lt_or_ge k (delay + pulse) with hlt | hge
  · rw [Nat.min_eq_left hlt.le]
  · rw [Nat.min_eq_right hge, pulseSamples, pulseSamples, if_neg (by omega), if_neg (by omega)]

end

end I2sSr

/-! ## Whole runs -/

theorem ring_reachable {portData stepMask : BitVec 32} {status : Bool} {s : I2sSr}
    (hs : (passRing portData stepMask status).ReachableBy Short s) : s.Ring := by
  refine hs.invariant (I2sSr.ring_start portData stepMask status) ?_
  intro s c t _ h hst hshort
  cases c with
  | write pin val =>
    cases hst
    exact h.write pin val
  | commit pulse delay =>
    cases hst
    have hlen : pulse + delay ≤ 10 := hshort
    exact h.commit_ring (by simp only [dmaSampleCountPasstrough]; omega)

/-- After every sequence of writes and commits of at most 10 samples the descriptors
    form a ring that stops at the idle one, and a commit makes the DMA emit the delay,
    the pulse and then the new idle sample, where it stays. -/
theorem passRing_commit {portData stepMask : BitVec 32} {status : Bool} {s : I2sSr}
    (hs : (passRing portData stepMask status).ReachableBy Short s) :
    (∀ i < dmaSampleCountPasstrough,
      s.next i = if i = s.idle then s.idle else (i + 1) % dmaSampleCountPasstrough) ∧
    s.idle < dmaSampleCountPasstrough ∧
    s.idleNext = (s.idle + 1) % dmaSampleCountPasstrough ∧
    ∀ pulse delay, pulse + delay ≤ 10 →
      (∀ k, (s.commit pulse delay).emits s.idle k =
        if k < delay then s.portData &&& ~~~s.stepMask
        else if k < delay + pulse then s.portData
        else (s.commit pulse delay).buffer (s.commit pulse delay).idle) ∧
      (s.commit pulse delay).buffer (s.commit pulse delay).idle =
        s.portData &&& ~~~s.stepMask := by
  have h := ring_reachable hs
  refine ⟨fun i hi => ?_, h.ring.lt, h.idleNext, fun pulse delay hshort => ?_⟩
  · split_ifs with hidle
    · rw [hidle, h.ring.loop]
    · exact h.ring.succ i hi hidle
  · have hlen : delay + pulse + 1 < dmaSampleCountPasstrough := by
      simp only [dmaSampleCountPasstrough]
      omega
    obtain ⟨-, hidle, -, hbuffer⟩ := h.commit_eq hlen
    have hlast : (s.commit pulse delay).buffer (s.commit pulse delay).idle =
        s.portData &&& ~~~s.stepMask := by
      rw [hidle, hbuffer _ (Nat.le_refl _), pulseSamples, if_neg (by omega)]
    refine ⟨fun k => ?_, hlast⟩
    rw [h.commit_emits hlen, hlast, pulseSamples]
    split_ifs <;> first | rfl | omega

/-- A delayed pulse after two commits, when the idle descriptor has gone round. -/
theorem passRing_commit_round :
    ∃ s : I2sSr, s.idle = 10 ∧ s.portData = 5 ∧ s.stepMask = 1 ∧
      (List.range 6).map ((s.commit 3 2).emits 10) = [4, 4, 5, 5, 5, 4] := by
  obtain ⟨s, -, hs, hv⟩ := Machine.exists_reachableBy (passRing 4 1 true) Short
    [.commit 10 0, .commit 9 1, .write 0 true]
    (fun s => (s.idle, s.portData, s.stepMask)) (v := (10, 5, 1)) (by decide +kernel) (by decide +kernel)
  simp only [Prod.mk.injEq] at hv
  obtain ⟨hidle, hdata, hmask⟩ := hv
  obtain ⟨hemits, hlast⟩ := (passRing_commit hs).2.2.2 3 2 (by decide)
  refine ⟨s, hidle, hdata, hmask, ?_⟩
  rw [← hidle]
  simp only [List.range, List.range.loop, List.map_cons, List.map_nil, hemits, hlast, hdata, hmask]
  decide

end Esp32Embroidery.I2s
