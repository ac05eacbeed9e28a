import Mathlib.Tactic.Common

/-!
# Register datagrams of the Trinamic drivers

`TMC_spi_datagram_t`: an address byte (a register index of seven bits and the write bit)
and a payload of 32 bits, sent most significant byte first.
-/

namespace Esp32Embroidery.Tmc

/-- `TMC_spi_datagram_t` with its bit fields. -/
structure Datagram where
  idx : BitVec 7
  write : Bool
  payload : BitVec 32
  deriving DecidableEq

/-- `addr.value` -/
def Datagram.addrValue (d : Datagram) : BitVec 8 := BitVec.ofBool d.write ++ d.idx

/-- `payload.data[k]` -/
def payloadData (payload : BitVec 32) (k : ℕ) : BitVec 8 := payload.extractLsb' (8 * k) 8

/-- The bytes of a payload in the order in which they are sent. -/
theorem payloadData_append (payload : BitVec 32) :
    (payloadData payload 3 ++ payloadData payload 2 ++ payloadData payload 1 ++
      payloadData payload 0 : BitVec 32) = payload := by
  refine BitVec.eq_of_getLsbD_eq fun i hi => ?_
  simp only [payloadData, BitVec.getLsbD_append, BitVec.getLsbD_extractLsb']
  split_ifs <;> grind

end Esp32Embroidery.Tmc
