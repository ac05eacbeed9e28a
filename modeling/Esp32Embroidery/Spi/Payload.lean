import Mathlib.Algebra.Ring.Nat
import Mathlib.Tactic.Common
import Mathlib.Data.Nat.Notation

/-!
# The SPI payload (`main/rahman/spi/spi_c.h`)

`spi_payload_t`, the queue sizes and the line reader shared by master and
slave. The integer fields have the widths of the C structure.
-/

namespace Esp32Embroidery.Spi

/-- `#define QUEUE_CAPACITY 10` (`spi_c.h` line 11). -/
def queueCapacity : ℕ := 10

/-- `#define BUFFER_POOL_SIZE (QUEUE_CAPACITY + 2)` (`spi_s.c` line 10). -/
def bufferPoolSize : ℕ := queueCapacity + 2

/-- `uint8_t data[64]`. -/
abbrev Data := Vector UInt8 64

/-- What `memset(data, 0, sizeof(data))` leaves in `data`. -/
def Data.zero : Data := Vector.replicate 64 0

/-- `spi_payload_t` (`spi_c.h` lines 13–20). -/
structure Payload where
  id : BitVec 32
  type : BitVec 8
  packetAck : BitVec 32
  packetDone : BitVec 32
  rxFree : BitVec 8
  data : Data
  deriving DecidableEq

/-- The initialiser `= {0}`. -/
def Payload.zero : Payload :=
  { id := 0, type := 0, packetAck := 0, packetDone := 0, rxFree := 0, data := Data.zero }

/-- The reader behind `nextLine` and `line`, which `spi_c.h` declares and the
    program using it defines: the lines of the stream and the number of
    `nextLine` calls so far. -/
structure LineSource where
  stream : ℕ → Data
  calls : ℕ

/-- `nextLine(buf)`: the next line of the stream. -/
def LineSource.nextLine (s : LineSource) : Data × LineSource :=
  (s.stream s.calls, { s with calls := s.calls + 1 })

/-- `line(buf)`: the line of the latest `nextLine` call. -/
def LineSource.line (s : LineSource) : Data := s.stream (s.calls - 1)

@[simp] theorem LineSource.line_nextLine (s : LineSource) :
    s.nextLine.2.line = s.nextLine.1 := rfl

end Esp32Embroidery.Spi
