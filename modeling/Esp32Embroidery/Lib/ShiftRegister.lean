import Mathlib.Data.List.Basic
import Mathlib.Tactic.Common

/-!
# Daisy chains of shift registers

Registers of `w` bits in a row. With every clock each shifts up by one bit and takes in
the top bit of the register before it, the first one the bit of the master.

* `contents_clock`: the chain is a queue of bits, with the last register in front.
* `transfer_front`: a word shifted in goes to the end of the queue and the word at its
  front comes out.
* `contents_injective`: the queue determines the registers.
-/

namespace Esp32Embroidery.Lib.ShiftRegister

variable {w v : ℕ}

/-! ## Words as bits -/

/-- The bits of a word, most significant bit first. -/
def bits (x : BitVec v) : List Bool := (List.range v).map x.getMsbD

/-- The word of a list of bits, most significant bit first. -/
def ofBits (bs : List Bool) : BitVec v := bs.foldl BitVec.shiftConcat 0

@[simp] theorem length_bits (x : BitVec v) : (bits x).length = v := by
  rw [bits, List.length_map, List.length_range]

theorem getElem?_bits {x : BitVec v} {i : ℕ} (h : i < v) : (bits x)[i]? = some (x.getMsbD i) := by
  rw [bits, List.getElem?_map, List.getElem?_range h, Option.map_some]

theorem bits_injective {x y : BitVec v} (h : bits x = bits y) : x = y := by
  refine BitVec.eq_of_getMsbD_eq fun i hi => ?_
  have hget : (bits x)[i]? = (bits y)[i]? := by rw [h]
  rw [getElem?_bits hi, getElem?_bits hi] at hget
  exact Option.some.inj hget

theorem bits_append (x : BitVec w) (y : BitVec v) : bits (x ++ y) = bits x ++ bits y := by
  refine List.ext_getElem? fun i => ?_
  by_cases hx : i < w
  · rw [getElem?_bits (by omega), List.getElem?_append_left (by rwa [length_bits]),
      getElem?_bits hx, BitVec.getMsbD_append, if_neg (by omega)]
  · by_cases hy : i < w + v
    · rw [getElem?_bits hy, List.getElem?_append_right (by rw [length_bits]; omega), length_bits,
        getElem?_bits (by omega), BitVec.getMsbD_append, if_pos (by omega)]
    · rw [List.getElem?_eq_none (by rw [length_bits]; omega),
        List.getElem?_eq_none (by rw [List.length_append, length_bits, length_bits]; omega)]

theorem getMsbD_shiftConcat {x : BitVec v} {b : Bool} {i : ℕ} (h : i < v) :
    (x.shiftConcat b).getMsbD i = if i + 1 = v then b else x.getMsbD (i + 1) := by
  rw [BitVec.getMsbD_eq_getLsbD, BitVec.getLsbD_shiftConcat, BitVec.getMsbD_eq_getLsbD]
  have hlsb : v - 1 - i < v := by omega
  by_cases hlast : i + 1 = v
  · have hzero : v - 1 - i = 0 := by omega
    simp [hlast, h, hzero]
    omega
  · have hprev : v - 1 - i - 1 = v - 1 - (i + 1) := by omega
    have hnz : v - 1 - i ≠ 0 := by omega
    have hnext : i + 1 < v := by omega
    simp [hlast, h, hlsb, hnz, hprev, hnext]

/-- One clock of a single register. -/
theorem bits_shiftConcat (hv : 0 < v) (x : BitVec v) (b : Bool) :
    bits x ++ [b] = x.msb :: bits (x.shiftConcat b) := by
  refine List.ext_getElem? fun i => ?_
  rcases i with _ | i
  · rw [List.getElem?_append_left (by rwa [length_bits]), getElem?_bits hv,
      BitVec.msb_eq_getMsbD_zero]
    rfl
  · rw [List.getElem?_cons_succ]
    rcases Nat.lt_trichotomy (i + 1) v with hlt | heq | hgt
    · rw [List.getElem?_append_left (by rwa [length_bits]), getElem?_bits hlt,
        getElem?_bits (by omega), getMsbD_shiftConcat (by omega), if_neg (by omega)]
    · rw [List.getElem?_append_right (by rw [length_bits]; omega), length_bits, heq, Nat.sub_self,
        getElem?_bits (by omega), getMsbD_shiftConcat (by omega), if_pos heq]
      rfl
    · rw [List.getElem?_eq_none (by rw [List.length_append, length_bits]; exact hgt),
        List.getElem?_eq_none (by rw [length_bits]; omega)]

theorem bits_foldl (hv : 0 < v) (x : BitVec v) (bs : List Bool) :
    ∃ outs, outs.length = bs.length ∧
      bits x ++ bs = outs ++ bits (bs.foldl BitVec.shiftConcat x) := by
  induction bs generalizing x with
  | nil => exact ⟨[], rfl, List.append_nil _⟩
  | cons b bs ih =>
    obtain ⟨outs, hlength, heq⟩ := ih (x.shiftConcat b)
    refine ⟨x.msb :: outs, congrArg Nat.succ hlength, ?_⟩
    calc bits x ++ b :: bs = (bits x ++ [b]) ++ bs := by rw [List.append_assoc]; rfl
      _ = x.msb :: (bits (x.shiftConcat b) ++ bs) := by rw [bits_shiftConcat hv]; rfl
      _ = x.msb :: outs ++ bits ((b :: bs).foldl BitVec.shiftConcat x) := by
        rw [heq]
        rfl

theorem bits_ofBits {bs : List Bool} (h : bs.length = v) : bits (ofBits bs : BitVec v) = bs := by
  rcases Nat.eq_zero_or_pos v with rfl | hv
  · rw [List.eq_nil_of_length_eq_zero h]
    rfl
  · obtain ⟨outs, hlength, heq⟩ := bits_foldl hv (0 : BitVec v) bs
    exact (List.append_inj heq (by rw [length_bits, hlength, h])).2.symm

/-! ## The chain -/

/-- The bit that the register `i` takes in. -/
def wire (regs : ℕ → BitVec w) (mosi : Bool) : ℕ → Bool
  | 0 => mosi
  | i + 1 => (regs i).msb

/-- One clock of all registers. The master reads `wire regs mosi n` from a chain of `n`. -/
def clock (regs : ℕ → BitVec w) (mosi : Bool) : ℕ → BitVec w :=
  fun i => (regs i).shiftConcat (wire regs mosi i)

/-- The bits in the first `n` registers, in the order in which the master reads them. -/
def contents (regs : ℕ → BitVec w) : ℕ → List Bool
  | 0 => []
  | n + 1 => bits (regs n) ++ contents regs n

/-- The registers and the bits read after all bits are shifted in. -/
def shiftIn (n : ℕ) (regs : ℕ → BitVec w) : List Bool → (ℕ → BitVec w) × List Bool
  | [] => (regs, [])
  | b :: bs =>
    let shifted := shiftIn n (clock regs b) bs
    (shifted.1, wire regs b n :: shifted.2)

/-- The registers and the word read while the word `x` is shifted in. -/
def transfer (n : ℕ) (regs : ℕ → BitVec w) (x : BitVec v) : (ℕ → BitVec w) × BitVec v :=
  let shifted := shiftIn n regs (bits x)
  (shifted.1, ofBits shifted.2)

theorem contents_clock (hw : 0 < w) (regs : ℕ → BitVec w) (mosi : Bool) (n : ℕ) :
    contents regs n ++ [mosi] = wire regs mosi n :: contents (clock regs mosi) n := by
  induction n with
  | zero => rfl
  | succ n ih =>
    calc contents regs (n + 1) ++ [mosi]
        = bits (regs n) ++ (contents regs n ++ [mosi]) := by rw [contents, List.append_assoc]
      _ = (bits (regs n) ++ [wire regs mosi n]) ++ contents (clock regs mosi) n := by
        rw [ih, List.append_assoc]
        rfl
      _ = wire regs mosi (n + 1) :: contents (clock regs mosi) (n + 1) := by
        rw [bits_shiftConcat hw]
        rfl

theorem contents_shiftIn (hw : 0 < w) (n : ℕ) (regs : ℕ → BitVec w) (bs : List Bool) :
    (shiftIn n regs bs).2.length = bs.length ∧
      contents regs n ++ bs = (shiftIn n regs bs).2 ++ contents (shiftIn n regs bs).1 n := by
  induction bs generalizing regs with
  | nil => exact ⟨rfl, List.append_nil _⟩
  | cons b bs ih =>
    obtain ⟨hlength, heq⟩ := ih (clock regs b)
    refine ⟨congrArg Nat.succ hlength, ?_⟩
    calc contents regs n ++ b :: bs = (contents regs n ++ [b]) ++ bs := by
          rw [List.append_assoc]
          rfl
      _ = wire regs b n :: (contents (clock regs b) n ++ bs) := by
        rw [contents_clock hw]
        rfl
      _ = (shiftIn n regs (b :: bs)).2 ++ contents (shiftIn n regs (b :: bs)).1 n := by
        rw [heq]
        rfl

/-- A word goes in at the end and the word in front comes out. -/
theorem transfer_front (hw : 0 < w) {n : ℕ} {regs : ℕ → BitVec w} {x y : BitVec v}
    {rest : List Bool} (h : contents regs n = bits y ++ rest) :
    (transfer n regs x).2 = y ∧ contents (transfer n regs x).1 n = rest ++ bits x := by
  obtain ⟨hlength, heq⟩ := contents_shiftIn hw n regs (bits x)
  rw [length_bits] at hlength
  rw [h, List.append_assoc] at heq
  obtain ⟨hout, hrest⟩ := List.append_inj heq (by rw [length_bits, hlength])
  refine ⟨bits_injective ?_, hrest.symm⟩
  show bits (ofBits _) = bits y
  rw [bits_ofBits hlength, hout]

theorem contents_congr {regs regs' : ℕ → BitVec w} {n : ℕ} (h : ∀ i < n, regs i = regs' i) :
    contents regs n = contents regs' n := by
  induction n with
  | zero => rfl
  | succ n ih =>
    rw [contents, contents, h n (Nat.lt_succ_self n), ih fun i hi => h i (Nat.lt_succ_of_lt hi)]

theorem contents_injective {regs regs' : ℕ → BitVec w} {n : ℕ}
    (h : contents regs n = contents regs' n) : ∀ i < n, regs i = regs' i := by
  induction n with
  | zero =>
    intro i hi
    omega
  | succ n ih =>
    obtain ⟨hlast, hrest⟩ := List.append_inj h (by rw [length_bits, length_bits])
    intro i hi
    rcases Nat.lt_succ_iff_lt_or_eq.1 hi with hlt | rfl
    · exact ih hrest i hlt
    · exact bits_injective hlast

end Esp32Embroidery.Lib.ShiftRegister
