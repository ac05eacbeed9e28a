import Esp32Embroidery.Lib.NorFlash
import Mathlib.Tactic.Common

/-!
# The settings in flash (`nvs.c`)

`nvsWrite` replaces the realtime command handler, erases a sector of the partition, writes the
image and puts the handler back. `hal.nvs.size` may be as large as the partition (`driver.c`,
line 3542), and the partition may have more than one sector.

Main result:

* `nvs_roundtrip_iff`: an image that was written is read back iff no bit of it behind the first
  sector had to be set, and the handler is always put back.
-/

namespace Esp32Embroidery.Board

open Esp32Embroidery.Lib

/-! ## Model -/

/-- `SPI_FLASH_SEC_SIZE` -/
def spiFlashSecSize : ℕ := 4096

/-- The handlers: that of this file, and others. -/
inductive RtHandler
  | nvsEnqueueRealtimeCommand
  | other (id : ℕ)
  deriving DecidableEq

/-- The partition with the handler in force; `grblNVS` tells whether there is a partition. -/
structure Nvs where
  flash : ℕ → BitVec 8
  grblNVS : Bool
  handler : RtHandler

/-- What a call that changes the flash returns. After an error its contents are open. -/
inductive FlashResult
  | ok
  | error (flash : ℕ → BitVec 8)

def FlashResult.isOk : FlashResult → Bool
  | .ok => true
  | .error _ => false

/-- The contents after a call which would leave `done`. -/
def FlashResult.contents (done : ℕ → BitVec 8) : FlashResult → ℕ → BitVec 8
  | .ok => done
  | .error flash => flash

/-- `hal.stream.set_enqueue_rt_handler` (as `usb_serialSetRtHandler`), `none` for `NULL`: the
    handler before. -/
def setEnqueueRtHandler (s : Nvs) (handler : Option RtHandler) : Nvs × RtHandler :=
  (match handler with
    | none => s
    | some handler => { s with handler := handler }, s.handler)

/-- `nvsRead` (lines 47–55) with what `esp_partition_read` returns; `dest` is open after an
    error. -/
def nvsRead (size : ℕ) (readOk : Bool) (dest : List (BitVec 8)) (s : Nvs) :
    Nvs × Bool × List (BitVec 8) :=
  if s.grblNVS && readOk then (s, true, region s.flash 0 size)
  else ({ s with grblNVS := false }, false, dest)

/-- `nvsWrite` (lines 57–73); a call behind one that fails is not made. -/
def nvsWrite (size : ℕ) (erased written : FlashResult) (source : ℕ → BitVec 8) (s : Nvs) :
    Nvs × Bool :=
  let (s, realtimeCommandHandler) := setEnqueueRtHandler s (some .nvsEnqueueRealtimeCommand)
  let (s, ok) :=
    if s.grblNVS then
      let s := { s with flash := erased.contents (erase s.flash 0 spiFlashSecSize) }
      if erased.isOk then
        ({ s with flash := written.contents (program s.flash 0 source size) }, written.isOk)
      else (s, false)
    else (s, false)
  ((setEnqueueRtHandler s (some realtimeCommandHandler)).1, ok)

/-! ## A call of `nvsWrite` -/

section

variable {size : ℕ} {erased written : FlashResult} {source : ℕ → BitVec 8} {s : Nvs}

theorem nvsWrite_handler : (nvsWrite size erased written source s).1.handler = s.handler := rfl

/-- A write that succeeds has erased the first sector and programmed the image. -/
theorem nvsWrite_ok (h : (nvsWrite size erased written source s).2 = true) :
    (nvsWrite size erased written source s).1 =
      { s with flash := program (erase s.flash 0 spiFlashSecSize) 0 source size } := by
  unfold nvsWrite at h ⊢
  cases hnvs : s.grblNVS with
  | false =>
    simp only [setEnqueueRtHandler, hnvs] at h
    cases h
  | true =>
    cases erased with
    | error flash =>
      simp only [setEnqueueRtHandler, hnvs, FlashResult.isOk] at h
      cases h
    | ok =>
      cases written with
      | error flash =>
        simp only [setEnqueueRtHandler, hnvs, FlashResult.isOk] at h
        cases h
      | ok => simp [setEnqueueRtHandler, hnvs, FlashResult.isOk, FlashResult.contents]

theorem nvsRead_ok {readOk : Bool} {dest : List (BitVec 8)}
    (h : (nvsRead size readOk dest s).2.1 = true) :
    (nvsRead size readOk dest s).2.2 = region s.flash 0 size := by
  unfold nvsRead at h ⊢
  by_cases hok : s.grblNVS && readOk
  · rw [if_pos hok]
  · rw [if_neg hok] at h
    cases h

/-- What is read after a write, both successful. -/
theorem nvs_read_back {readOk : Bool} {dest : List (BitVec 8)}
    (hwrite : (nvsWrite size erased written source s).2 = true)
    (hread : (nvsRead size readOk dest (nvsWrite size erased written source s).1).2.1 = true) :
    (nvsRead size readOk dest (nvsWrite size erased written source s).1).2.2 =
        region source 0 size ↔
      ∀ i < size, spiFlashSecSize ≤ i → s.flash i &&& source i = source i := by
  rw [nvsRead_ok hread, nvsWrite_ok hwrite]
  simp only [region_program_erase_iff, Nat.zero_add]

/-- An image within one sector, which is all that the partition has in `partitions.csv` and
    `partitions_s3_8m.csv`, is read back. -/
theorem nvs_roundtrip_sector {readOk : Bool} {dest : List (BitVec 8)}
    (hsize : size ≤ spiFlashSecSize)
    (hwrite : (nvsWrite size erased written source s).2 = true)
    (hread : (nvsRead size readOk dest (nvsWrite size erased written source s).1).2.1 = true) :
    (nvsRead size readOk dest (nvsWrite size erased written source s).1).2.2 =
      region source 0 size :=
  (nvs_read_back hwrite hread).2 fun i hi hsec => by omega

end

/-! ## The result -/

/-- On every outcome of the flash calls the handler is put back. After a write and a read that
    succeed, the bytes read are those of the source iff behind the first sector the flash had
    every bit that the source has. -/
theorem nvs_roundtrip_iff (size : ℕ) (source : ℕ → BitVec 8) (erased written : FlashResult)
    (readOk : Bool) (dest : List (BitVec 8)) (s : Nvs) :
    (nvsWrite size erased written source s).1.handler = s.handler ∧
    ((nvsWrite size erased written source s).2 = true →
      (nvsRead size readOk dest (nvsWrite size erased written source s).1).2.1 = true →
      ((nvsRead size readOk dest (nvsWrite size erased written source s).1).2.2 =
          region source 0 size ↔
        ∀ i < size, spiFlashSecSize ≤ i → s.flash i &&& source i = source i)) :=
  ⟨nvsWrite_handler, nvs_read_back⟩

/-- One byte more than a sector, over a byte that is zero. -/
theorem nvs_roundtrip_second_sector :
    ∃ s : Nvs, (nvsWrite 4097 .ok .ok (fun _ => 1) s).2 = true ∧
      (nvsRead 4097 true [] (nvsWrite 4097 .ok .ok (fun _ => 1) s).1).2.1 = true ∧
      (nvsRead 4097 true [] (nvsWrite 4097 .ok .ok (fun _ => 1) s).1).2.2 ≠
        region (fun _ => 1) 0 4097 := by
  refine ⟨⟨fun _ => 0, true, .other 0⟩, rfl, rfl, fun h => ?_⟩
  have hbits := (nvs_read_back rfl rfl).1 h 4096 (by decide) (by decide)
  exact absurd hbits (by decide)

end Esp32Embroidery.Board
