import Mathlib.Algebra.Group.Nat.Defs
import Mathlib.Tactic.Common

/-!
# Step pulse timing in samples

The constants of `i2s_out.h` and `i2s_out_s3.c`, and the part of `settings_changed`
(`driver.c`) that turns the pulse settings into numbers of samples.

* `samplesOf_bounds`: the result is at least one sample and at most the given number.
-/

namespace Esp32Embroidery.I2s

/-- `I2S_OUT_USEC_PER_PULSE` (`i2s_out.h` line 60). -/
def i2sOutUsecPerPulse : ℕ := 4

/-- `I2S_OUT_DMABUF_LEN` (`i2s_out.h` line 63). -/
def i2sOutDmabufLen : ℕ := 2000

/-- `I2S_SAMPLE_SIZE` (line 93). -/
def i2sSampleSize : ℕ := 4

/-- `DMA_SAMPLE_COUNT` (line 94). -/
def dmaSampleCount : ℕ := i2sOutDmabufLen / i2sSampleSize

/-- `SAMPLE_SAFE_COUNT` (line 95). -/
def sampleSafeCount : ℕ := 20 / i2sOutUsecPerPulse

/-- `i2s_delay_samples` and `i2s_step_samples`, in the range that `settings_changed`
    leaves. -/
structure StepTiming where
  delaySamples : ℕ
  stepSamples : ℕ
  delay_bounds : 1 ≤ delaySamples ∧ delaySamples ≤ 2
  step_bounds : 1 ≤ stepSamples ∧ stepSamples ≤ 4

/-- A length in microseconds rounded up to whole samples, in `uint32_t`, clamped to
    between one and `n` samples (`driver.c` lines 2826-2837). -/
def samplesOf (length : BitVec 32) (n : ℕ) : ℕ :=
  let rounded :=
    if length.toNat % i2sOutUsecPerPulse ≠ 0 then
      (length.toNat + (i2sOutUsecPerPulse - length.toNat % i2sOutUsecPerPulse)) % 2 ^ 32
    else length.toNat
  min (max rounded i2sOutUsecPerPulse) (i2sOutUsecPerPulse * n) / i2sOutUsecPerPulse

theorem samplesOf_bounds (length : BitVec 32) {n : ℕ} (hn : 1 ≤ n) :
    1 ≤ samplesOf length n ∧ samplesOf length n ≤ n := by
  simp only [samplesOf, i2sOutUsecPerPulse]
  omega

/-- `settings_changed` (`driver.c` lines 2823-2837). `ceilUint32` is `(uint32_t)ceilf(·)`,
    any function, since C leaves the conversion open for values that do not fit. -/
def settingsChanged {F : Type*} (ceilUint32 : F → BitVec 32)
    (pulseMicroseconds pulseDelayMicroseconds : F) : StepTiming where
  delaySamples := samplesOf (ceilUint32 pulseDelayMicroseconds) 2
  stepSamples := samplesOf (ceilUint32 pulseMicroseconds) 4
  delay_bounds := samplesOf_bounds _ (by decide)
  step_bounds := samplesOf_bounds _ (by decide)

end Esp32Embroidery.I2s
