import Esp32Embroidery.Lib.ShiftRegister

/-!
# LED strips (`neopixel_rmt.c`)

`_neopixels_write` sends the bytes of the strip in chunks of two LEDs (one on the ESP32-S3), each
with a call of `rmt_write_sample`. The driver has `ws2812_rmt_adapter` turn a chunk into pulses,
one for a bit; it translates whole LEDs, without a look at what is left for one.

Main results:

* `adapterLoop_leds`: whole LEDs are translated one after the other.
* `neopixels_write_encodes`: all bytes are sent once and in order, and each chunk fits into a
  block of the RMT memory.
-/

namespace Esp32Embroidery.Board

open Esp32Embroidery.Lib.ShiftRegister

abbrev Byte := BitVec 8

/-! ## Model -/

/-- `rmt_item32_t` -/
structure RmtItem where
  duration0 : BitVec 15
  level0 : Bool
  duration1 : BitVec 15
  level1 : Bool
  deriving DecidableEq

/-- The pulse lengths in ticks (line 63). -/
structure Ws2812Ticks where
  t0h : BitVec 32
  t1h : BitVec 32
  t0l : BitVec 32
  t1l : BitVec 32

/-- `bit0` and `bit1` (lines 68 and 69) -/
def Ws2812Ticks.item (t : Ws2812Ticks) (bit : Bool) : RmtItem :=
  if bit then ⟨t.t1h.setWidth 15, true, t.t1l.setWidth 15, false⟩
  else ⟨t.t0h.setWidth 15, true, t.t0l.setWidth 15, false⟩

/-- The components of `rgb_color_t` that the translator uses. -/
structure RgbColor where
  R : Byte
  G : Byte
  B : Byte

/-- What the translator depends on: `rgb_set_intensity`, `neopixel.intensity`, the pulse lengths
    and the memory. -/
structure Ws2812 where
  rgbSetIntensity : RgbColor → Byte → RgbColor
  intensity : Byte
  ticks : Ws2812Ticks
  mem : ℕ → Byte

/-- The loops over the bits of a color component (lines 83–87, 89–93 and 95–99). -/
def bitLoop (t : Ws2812Ticks) (c bitmask : Byte) : List RmtItem :=
  t.item (c &&& bitmask ≠ 0) ::
    if bitmask >>> 1 = 0 then [] else bitLoop t c (bitmask >>> 1)
termination_by bitmask.toNat
decreasing_by
  have hne : bitmask.toNat >>> 1 ≠ 0 := fun h0 => by
    rename_i hne
    exact hne (BitVec.eq_of_toNat_eq (by rwa [BitVec.toNat_ushiftRight]))
  rw [BitVec.toNat_ushiftRight]
  omega

/-- The variables of `ws2812_rmt_adapter` with what it has written to `dest`, and the addresses
    that it has read. -/
structure Adapter where
  psrc : ℕ
  size : ℕ
  num : ℕ
  dest : List RmtItem
  reads : List ℕ

/-- The color of the LED at an address, after lines 78–81. -/
def Ws2812.color (w : Ws2812) (a : ℕ) : RgbColor :=
  w.rgbSetIntensity { G := w.mem a, R := w.mem (a + 1), B := w.mem (a + 2) } w.intensity

/-- The body of the loop (lines 78–102). -/
def Adapter.led (w : Ws2812) (s : Adapter) : Adapter :=
  let color := w.color s.psrc
  { psrc := s.psrc + 3
    size := s.size + 3
    num := s.num + 24
    dest := s.dest ++ (bitLoop w.ticks color.G 0x80 ++
      (bitLoop w.ticks color.R 0x80 ++ bitLoop w.ticks color.B 0x80))
    reads := s.reads ++ [s.psrc, s.psrc + 1, s.psrc + 2] }

/-- The loop of line 76. -/
def adapterLoop (w : Ws2812) (srcSize wantedNum : ℕ) (s : Adapter) : Adapter :=
  if s.size < srcSize ∧ s.num < wantedNum then adapterLoop w srcSize wantedNum (s.led w) else s
termination_by srcSize - s.size
decreasing_by
  simp only [Adapter.led]
  omega

/-- A call of the translator, with what it does. -/
structure Sample where
  src : ℕ
  srcSize : ℕ
  items : List RmtItem
  reads : List ℕ
  translatedSize : ℕ
  itemNum : ℕ

/-- `ws2812_rmt_adapter` (lines 65–108), for pointers that are not `NULL`. -/
def ws2812RmtAdapter (w : Ws2812) (src srcSize wantedNum : ℕ) : Sample :=
  let s := adapterLoop w srcSize wantedNum ⟨src, 0, 0, [], []⟩
  { src := src, srcSize := srcSize, items := s.dest, reads := s.reads
    translatedSize := s.size, itemNum := s.num }

/-- `rmt_write_sample` with a block of the RMT memory: a call of the translator, and those that
    follow (`again`) if it leaves bytes. -/
def rmtWriteSample (w : Ws2812) (block : ℕ) (again : Sample → List Sample) (src size : ℕ) :
    List Sample :=
  let s := ws2812RmtAdapter w src size block
  s :: if s.translatedSize < size then again s else []

inductive Target
  | esp32
  | esp32s3

/-- The LEDs of a chunk. -/
def Target.chunkLeds : Target → ℕ
  | .esp32 => 2
  | .esp32s3 => 1

/-- The constants of lines 117 and 123. -/
def Target.chunk (chip : Target) : ℕ := 3 * chip.chunkLeds

/-- The number of items in a block of the RMT memory. -/
def Target.block : Target → ℕ
  | .esp32 => 64
  | .esp32s3 => 48

/-- The length of the next chunk. -/
def Target.chunkSize (chip : Target) (size : ℕ) : ℕ :=
  if size > chip.chunk then chip.chunk else size

theorem Target.chunk_pos (chip : Target) : 0 < chip.chunk := by
  cases chip with
  | esp32 => decide
  | esp32s3 => decide

theorem Target.chunkSize_pos (chip : Target) {size : ℕ} (hsize : 0 < size) :
    0 < chip.chunkSize size := by
  unfold Target.chunkSize
  split
  · exact chip.chunk_pos
  · exact hsize

/-- The loop of `_neopixels_write` (lines 116–120 or 122–126). -/
def writeLoop (w : Ws2812) (chip : Target) (again : Sample → List Sample) (buf size : ℕ) :
    List Sample :=
  rmtWriteSample w chip.block again buf (chip.chunkSize size) ++
    if size - chip.chunkSize size = 0 then []
    else writeLoop w chip again (buf + chip.chunkSize size) (size - chip.chunkSize size)
termination_by size
decreasing_by
  have hpos : 0 < chip.chunkSize size := chip.chunkSize_pos (by omega)
  omega

/-- `_neopixels_write` (lines 110–128) -/
def neopixelsWrite (w : Ws2812) (chip : Target) (again : Sample → List Sample)
    (leds : Option ℕ) (numBytes : ℕ) : List Sample :=
  match leds with
  | none => []
  | some buf => writeLoop w chip again buf numBytes

/-! ## The encoding -/

/-- A pulse for each bit, the most significant bit of a byte first. -/
def encode (t : Ws2812Ticks) (bytes : List Byte) : List RmtItem := (bytes.flatMap bits).map t.item

/-- A strip of G, R, B bytes with every color scaled. -/
def scaleGrb (scale : RgbColor → RgbColor) : List Byte → List Byte
  | g :: r :: b :: rest =>
    let scaled := scale { R := r, G := g, B := b }
    scaled.G :: scaled.R :: scaled.B :: scaleGrb scale rest
  | _ => []

/-- The `3 * n` bytes of `n` LEDs from an address on, scaled. -/
def stripBytes (w : Ws2812) (a n : ℕ) : List Byte :=
  scaleGrb (fun color => w.rgbSetIntensity color w.intensity) ((List.range' a (3 * n)).map w.mem)

/-- The call translates its whole chunk and nothing else, within a block. -/
structure Sample.Fits (block : ℕ) (s : Sample) : Prop where
  itemNum_eq : s.itemNum = 8 * s.translatedSize
  translated : s.translatedSize = s.srcSize
  length_items : s.items.length = s.itemNum
  itemNum_le : s.itemNum ≤ block
  inside : ∀ a ∈ s.reads, s.src ≤ a ∧ a < s.src + s.srcSize

/-! ## Bits and bytes -/

theorem twoPow_ne_zero {k : ℕ} (hk : k < 8) : BitVec.twoPow 8 k ≠ 0 := by
  intro h
  have hbit : (BitVec.twoPow 8 k).getLsbD k = (0 : Byte).getLsbD k := by rw [h]
  simp [hk] at hbit

/-- From the bit `k` of the mask down. -/
theorem bitLoop_twoPow (t : Ws2812Ticks) (c : Byte) {k : ℕ} (hk : k < 8) :
    bitLoop t c (BitVec.twoPow 8 k) =
      (List.range (k + 1)).map fun i => t.item (c.getLsbD (k - i)) := by
  have hbit : ∀ j < 8, (c &&& BitVec.twoPow 8 j ≠ 0) = (c.getLsbD j = true) := by
    intro j hj
    rw [BitVec.and_twoPow]
    by_cases hc : c.getLsbD j
    · rw [if_pos hc, hc]
      exact propext (iff_of_true (twoPow_ne_zero hj) rfl)
    · rw [if_neg hc]
      simp [hc]
  induction k with
  | zero =>
    rw [bitLoop, if_pos (by decide)]
    simp only [hbit 0 hk]
    simp
  | succ k ih =>
    have hshift : BitVec.twoPow 8 (k + 1) >>> 1 = BitVec.twoPow 8 k := by
      refine BitVec.eq_of_getLsbD_eq fun i hi => ?_
      simp only [BitVec.getLsbD_ushiftRight, BitVec.getLsbD_twoPow]
      grind
    rw [bitLoop, hshift, if_neg (twoPow_ne_zero (by omega)), ih (by omega),
      List.range_succ_eq_map (n := k + 1)]
    simp only [hbit (k + 1) hk]
    simp [Function.comp_def]

theorem bitLoop_eq (t : Ws2812Ticks) (c : Byte) : bitLoop t c 0x80 = (bits c).map t.item := by
  rw [show (0x80 : Byte) = BitVec.twoPow 8 7 by decide, bitLoop_twoPow t c (by decide), bits,
    List.map_map]
  refine List.map_congr_left fun i hi => ?_
  have hi : i < 8 := List.mem_range.1 hi
  simp [BitVec.getMsbD_eq_getLsbD, hi]

theorem encode_append (t : Ws2812Ticks) (xs ys : List Byte) :
    encode t (xs ++ ys) = encode t xs ++ encode t ys := by
  simp [encode]

theorem length_encode (t : Ws2812Ticks) (bytes : List Byte) :
    (encode t bytes).length = 8 * bytes.length := by
  induction bytes with
  | nil => rfl
  | cons c bytes ih =>
    rw [← List.singleton_append, encode_append, List.length_append, ih, List.length_append]
    simp [encode]
    omega

theorem stripBytes_succ (w : Ws2812) (a n : ℕ) :
    stripBytes w a (n + 1) =
      (w.color a).G :: (w.color a).R :: (w.color a).B :: stripBytes w (a + 3) n := rfl

theorem length_stripBytes (w : Ws2812) (a n : ℕ) : (stripBytes w a n).length = 3 * n := by
  induction n generalizing a with
  | zero => rfl
  | succ n ih =>
    simp only [stripBytes_succ, List.length_cons, ih]
    omega

theorem stripBytes_add (w : Ws2812) (a m n : ℕ) :
    stripBytes w a (m + n) = stripBytes w a m ++ stripBytes w (a + 3 * m) n := by
  induction m generalizing a with
  | zero => simp [stripBytes, scaleGrb]
  | succ m ih =>
    rw [show m + 1 + n = m + n + 1 by omega, stripBytes_succ, stripBytes_succ, ih,
      show a + 3 + 3 * m = a + 3 * (m + 1) by omega]
    rfl

/-! ## A chunk -/

section

variable (w : Ws2812) (srcSize wantedNum : ℕ)

/-- The translator takes `m` LEDs if they are what is left of the source and if the last one
    starts within the items wanted. -/
theorem adapterLoop_leds (m : ℕ) (s : Adapter) (hsize : s.size + 3 * m = srcSize)
    (hnum : s.num + 24 * m < wantedNum + 24) :
    adapterLoop w srcSize wantedNum s =
      { psrc := s.psrc + 3 * m
        size := s.size + 3 * m
        num := s.num + 24 * m
        dest := s.dest ++ encode w.ticks (stripBytes w s.psrc m)
        reads := s.reads ++ List.range' s.psrc (3 * m) } := by
  induction m generalizing s with
  | zero =>
    rw [adapterLoop, if_neg (by omega)]
    simp [stripBytes, scaleGrb, encode]
  | succ m ih =>
    rw [adapterLoop, if_pos (by omega), ih (s.led w)]
    · have hdest : encode w.ticks (stripBytes w s.psrc (m + 1)) =
          bitLoop w.ticks (w.color s.psrc).G 0x80 ++ (bitLoop w.ticks (w.color s.psrc).R 0x80 ++
            bitLoop w.ticks (w.color s.psrc).B 0x80) ++
          encode w.ticks (stripBytes w (s.psrc + 3) m) := by
        rw [bitLoop_eq, bitLoop_eq, bitLoop_eq]
        simp [stripBytes_succ, encode]
      have hreads : List.range' s.psrc (3 * (m + 1)) =
          [s.psrc, s.psrc + 1, s.psrc + 2] ++ List.range' (s.psrc + 3) (3 * m) := by
        rw [Nat.mul_succ, Nat.add_comm, ← List.range'_append_1]
        rfl
      rw [hdest, hreads]
      simp only [Adapter.led, Adapter.mk.injEq, List.append_assoc, and_true]
      omega
    · simp only [Adapter.led]
      omega
    · simp only [Adapter.led]
      omega

end

/-- The items of a chunk fit into a block. -/
theorem Target.chunkLeds_le (chip : Target) : 24 * chip.chunkLeds ≤ chip.block := by
  cases chip with
  | esp32 => decide
  | esp32s3 => decide

/-- A chunk of `m` LEDs that is no longer than the target's. -/
def chunkSample (w : Ws2812) (buf m : ℕ) : Sample :=
  { src := buf, srcSize := 3 * m, items := encode w.ticks (stripBytes w buf m)
    reads := List.range' buf (3 * m), translatedSize := 3 * m, itemNum := 24 * m }

theorem rmtWriteSample_eq (w : Ws2812) (chip : Target) (again : Sample → List Sample) (buf : ℕ)
    {m : ℕ} (hm : m ≤ chip.chunkLeds) :
    rmtWriteSample w chip.block again buf (3 * m) = [chunkSample w buf m] := by
  have hblock := chip.chunkLeds_le
  have hsample : ws2812RmtAdapter w buf (3 * m) chip.block = chunkSample w buf m := by
    unfold ws2812RmtAdapter
    rw [adapterLoop_leds w (3 * m) chip.block m _ (Nat.zero_add _) (by show 0 + 24 * m < _; omega)]
    simp [chunkSample]
  unfold rmtWriteSample
  rw [hsample]
  show chunkSample w buf m :: (if 3 * m < 3 * m then _ else []) = _
  rw [if_neg (Nat.lt_irrefl (3 * m))]

theorem chunkSample_fits (w : Ws2812) (chip : Target) (buf : ℕ) {m : ℕ} (hm : m ≤ chip.chunkLeds) :
    (chunkSample w buf m).Fits chip.block where
  itemNum_eq := by
    show 24 * m = 8 * (3 * m)
    omega
  translated := rfl
  length_items := by
    show (encode w.ticks (stripBytes w buf m)).length = 24 * m
    rw [length_encode, length_stripBytes]
    omega
  itemNum_le := by
    have hblock := chip.chunkLeds_le
    show 24 * m ≤ chip.block
    omega
  inside := by
    intro a ha
    exact List.mem_range'_1.1 ha

/-! ## The strip -/

theorem Target.chunkSize_leds (chip : Target) (n : ℕ) :
    chip.chunkSize (3 * n) = 3 * min n chip.chunkLeds := by
  unfold Target.chunkSize Target.chunk
  split <;> omega

theorem writeLoop_spec (w : Ws2812) (chip : Target) (again : Sample → List Sample) (buf n : ℕ) :
    (writeLoop w chip again buf (3 * n)).flatMap Sample.items =
        encode w.ticks (stripBytes w buf n) ∧
      (writeLoop w chip again buf (3 * n)).flatMap Sample.reads = List.range' buf (3 * n) ∧
      ∀ s ∈ writeLoop w chip again buf (3 * n), s.Fits chip.block := by
  induction n using Nat.strongRecOn generalizing buf with
  | _ n ih =>
    obtain ⟨m, hm⟩ : ∃ m, m = min n chip.chunkLeds := ⟨_, rfl⟩
    have hrest : 3 * n - 3 * m = 3 * (n - m) := by omega
    have hle : m ≤ chip.chunkLeds := by omega
    rw [writeLoop, chip.chunkSize_leds, ← hm, rmtWriteSample_eq w chip again buf hle, hrest]
    have hfits := chunkSample_fits w chip buf hle
    split
    · rename_i hlast
      have hmn : m = n := by omega
      subst hmn
      simp [chunkSample]
      exact hfits
    · have hpos : 0 < chip.chunkLeds := by
        have := chip.chunk_pos
        unfold Target.chunk at this
        omega
      obtain ⟨hitems, hreads, hall⟩ := ih (n - m) (by omega) (buf + 3 * m)
      have hsplit : n = m + (n - m) := by omega
      refine ⟨?_, ?_, ?_⟩
      · rw [List.flatMap_append, hitems]
        nth_rewrite 2 [hsplit]
        rw [stripBytes_add, encode_append]
        simp [chunkSample]
      · rw [List.flatMap_append, hreads]
        nth_rewrite 2 [hsplit]
        rw [Nat.mul_add, ← List.range'_append_1]
        simp [chunkSample]
      · intro s hs
        rcases List.mem_append.1 hs with hs | hs
        · rw [List.mem_singleton.1 hs]
          exact hfits
        · exact hall s hs

/-- For every strip of `n` LEDs and both targets: the items of all calls are the pulses of the
    scaled bytes, each address of the strip is read once and in order, and each call translates
    its whole chunk, reads nothing beyond it and fits into a block. -/
theorem neopixels_write_encodes (w : Ws2812) (chip : Target) (again : Sample → List Sample)
    (buf n : ℕ) :
    (neopixelsWrite w chip again (some buf) (3 * n)).flatMap Sample.items =
        encode w.ticks (stripBytes w buf n) ∧
      (neopixelsWrite w chip again (some buf) (3 * n)).flatMap Sample.reads =
        List.range' buf (3 * n) ∧
      ∀ s ∈ neopixelsWrite w chip again (some buf) (3 * n), s.Fits chip.block :=
  writeLoop_spec w chip again buf n

end Esp32Embroidery.Board
