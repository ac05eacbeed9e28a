import Esp32Embroidery.Lib.BoundedQueue
import Esp32Embroidery.Lib.Machine
import Esp32Embroidery.Spi.Payload
import Mathlib.Logic.Function.Basic

/-!
# The SPI slave (`main/rahman/spi/spi_s.c`)

Model of `spi_slave_task` (from line 88 on, after the queues are filled),
`flush_work_queue`, `spi_slave_receive_command` and
`spi_slave_acknowledge_done`. The slave task and the consumer task run
interleaved: one step makes at most one access to what the two share
(`work_queue`, `free_queue`, `last_completed_id`). `last_received_id` belongs to
the slave task alone, so its updates are part of the step before them.

* `Slave.step`: the step function, as the code computes it.
* `Slave.Move`: its steps, one constructor for each branch; `move_of_step`
  shows there are no others.
-/

namespace Esp32Embroidery.Spi

open Esp32Embroidery.Lib

/-- A `spi_payload_t *` into `rx_pool`. -/
abbrev Buf := Fin bufferPoolSize

/-- Where the slave task is, with the buffers its local variables own there:
    `cur` is `current_rx_buf`, `ptr` is `payload_ptr` of `flush_work_queue`. -/
inductive SlavePc
  /-- lines 89–91, `rx_free` and `packet_ack` -/
  | report
  /-- line 92, `packet_done` -/
  | reportDone
  /-- line 95, a receive buffer from `free_queue` -/
  | take
  /-- line 104, in `spi_slave_transmit` -/
  | transmit (cur : Buf)
  /-- lines 111–112, an in-order frame to `work_queue` -/
  | accept (cur : Buf)
  /-- line 28 -/
  | flushReceive (cur : Buf)
  /-- line 29 -/
  | flushSend (cur ptr : Buf)
  /-- line 32 -/
  | flushDone (cur : Buf)
  /-- lines 109, 114, 118 and 120, the receive buffer back to `free_queue` -/
  | release (cur : Buf)
  deriving DecidableEq

/-- Where the consumer is. It holds at most one buffer and acknowledges only a
    buffer it received. -/
inductive Consumer
  | idle
  | holding (payload : Buf)
  /-- between lines 51 and 52 -/
  | acknowledging (payload : Buf)
  deriving DecidableEq

/-- The static variables of `spi_s.c` and the positions of the two tasks. -/
structure Slave where
  pc : SlavePc
  workQueue : BoundedQueue Buf queueCapacity
  freeQueue : BoundedQueue Buf bufferPoolSize
  txMsg : Payload
  rxPool : Buf → Payload
  lastReceivedId : BitVec 32
  lastCompletedId : BitVec 32
  consumer : Consumer

/-- After lines 78–84: all buffers free. -/
def Slave.start : Slave where
  pc := .report
  workQueue := .empty
  freeQueue := ⟨List.finRange bufferPoolSize, by simp⟩
  txMsg := Payload.zero
  rxPool _ := Payload.zero
  lastReceivedId := 0
  lastCompletedId := 0
  consumer := .idle

inductive SlaveEvent
  /-- the next step of the slave task -/
  | task
  /-- `spi_slave_transmit` returns, with `ESP_OK` or not, and leaves `frame` in
      the receive buffer -/
  | transmit (ok : Bool) (frame : Payload)
  /-- `spi_slave_receive_command` -/
  | receive
  /-- `spi_slave_acknowledge_done`, line 51 -/
  | acknowledge
  /-- `spi_slave_acknowledge_done`, line 52 -/
  | acknowledgeSend
  deriving DecidableEq

/-- `rx_free` for a queue with `items` messages waiting (line 90), as `uint8_t`. -/
def rxFree (items : ℕ) : BitVec 8 :=
  if items ≥ queueCapacity then 0 else BitVec.ofNat 8 (queueCapacity - items)

/-- The slave task outside `spi_slave_transmit`. A zero-timeout send to
    `free_queue` that fails drops the pointer, as its result is ignored. -/
def Slave.taskStep (s : Slave) : Option Slave :=
  match s.pc with
  | .report => some { s with
      pc := .reportDone
      txMsg := { s.txMsg with rxFree := rxFree s.workQueue.items.length,
                              packetAck := s.lastReceivedId } }
  | .reportDone => some { s with
      pc := .take, txMsg := { s.txMsg with packetDone := s.lastCompletedId } }
  | .take => s.freeQueue.receive.map fun r => { s with pc := .transmit r.1, freeQueue := r.2 }
  | .transmit _ => none
  | .accept cur =>
    match s.workQueue.send cur with
    | some q => some { s with
        pc := .report, workQueue := q, lastReceivedId := (s.rxPool cur).id }
    | none => some { s with pc := .release cur }
  | .flushReceive cur =>
    match s.workQueue.receive with
    | some (ptr, q) => some { s with pc := .flushSend cur ptr, workQueue := q }
    | none => some { s with pc := .flushDone cur, lastReceivedId := 0 }
  | .flushSend cur ptr => some { s with
      pc := .flushReceive cur, freeQueue := (s.freeQueue.send ptr).getD s.freeQueue }
  | .flushDone cur => some { s with pc := .release cur, lastCompletedId := 0 }
  | .release cur => some { s with
      pc := .report, freeQueue := (s.freeQueue.send cur).getD s.freeQueue }

/-- Where lines 106–121 go with the buffer `cur` holding `frame`. -/
def Slave.handle (s : Slave) (cur : Buf) (ok : Bool) (frame : Payload) : SlavePc :=
  if ok then
    if frame.type = 2 then .flushReceive cur
    else if frame.type = 1 ∧ frame.id = s.lastReceivedId + 1 then .accept cur
    else .release cur
  else .release cur

/-- `spi_slave_transmit` returns (lines 104–121 up to the next queue access). -/
def Slave.transmitted (s : Slave) (ok : Bool) (frame : Payload) : Option Slave :=
  match s.pc with
  | .transmit cur => some { s with
      pc := s.handle cur ok frame, rxPool := Function.update s.rxPool cur frame }
  | _ => none

/-- `spi_slave_receive_command` (lines 38–43); it returns `false` and changes
    nothing when `work_queue` is empty. -/
def Slave.receiveCommand (s : Slave) : Option Slave :=
  match s.consumer with
  | .idle =>
    match s.workQueue.receive with
    | some (payload, q) => some { s with workQueue := q, consumer := .holding payload }
    | none => some s
  | _ => none

/-- `spi_slave_acknowledge_done` (lines 49–54), up to the store of line 51. -/
def Slave.acknowledgeDone (s : Slave) : Option Slave :=
  match s.consumer with
  | .holding payload => some { s with
      lastCompletedId := (s.rxPool payload).id, consumer := .acknowledging payload }
  | _ => none

/-- The blocking send of line 52. -/
def Slave.acknowledgeSend (s : Slave) : Option Slave :=
  match s.consumer with
  | .acknowledging payload =>
    (s.freeQueue.send payload).map fun q => { s with freeQueue := q, consumer := .idle }
  | _ => none

def Slave.step (s : Slave) : SlaveEvent → Option Slave
  | .task => s.taskStep
  | .transmit ok frame => s.transmitted ok frame
  | .receive => s.receiveCommand
  | .acknowledge => s.acknowledgeDone
  | .acknowledgeSend => s.acknowledgeSend

/-- The slave task and its consumer against any frames and failures. -/
def slaveTask : Machine Slave SlaveEvent := ⟨Slave.start, Slave.step⟩

/-! ## The steps -/

/-- One step of the slave or of the consumer, one constructor for each branch. -/
inductive Slave.Move (s : Slave) : SlaveEvent → Slave → Prop
  | report (hpc : s.pc = .report) : Move s .task { s with
      pc := .reportDone
      txMsg := { s.txMsg with rxFree := rxFree s.workQueue.items.length,
                              packetAck := s.lastReceivedId } }
  | reportDone (hpc : s.pc = .reportDone) : Move s .task { s with
      pc := .take, txMsg := { s.txMsg with packetDone := s.lastCompletedId } }
  | take {cur : Buf} {q : BoundedQueue Buf bufferPoolSize} (hpc : s.pc = .take)
      (hq : s.freeQueue.items = cur :: q.items) :
      Move s .task { s with pc := .transmit cur, freeQueue := q }
  | transmitted {cur : Buf} (ok : Bool) (frame : Payload) (hpc : s.pc = .transmit cur) :
      Move s (.transmit ok frame) { s with
        pc := s.handle cur ok frame, rxPool := Function.update s.rxPool cur frame }
  | accept {cur : Buf} {q : BoundedQueue Buf queueCapacity} (hpc : s.pc = .accept cur)
      (hq : q.items = s.workQueue.items ++ [cur]) : Move s .task { s with
        pc := .report, workQueue := q, lastReceivedId := (s.rxPool cur).id }
  | acceptFull {cur : Buf} (hpc : s.pc = .accept cur)
      (hq : s.workQueue.items.length = queueCapacity) : Move s .task { s with pc := .release cur }
  | flushReceive {cur ptr : Buf} {q : BoundedQueue Buf queueCapacity}
      (hpc : s.pc = .flushReceive cur) (hq : s.workQueue.items = ptr :: q.items) :
      Move s .task { s with pc := .flushSend cur ptr, workQueue := q }
  | flushEmpty {cur : Buf} (hpc : s.pc = .flushReceive cur) (hq : s.workQueue.items = []) :
      Move s .task { s with pc := .flushDone cur, lastReceivedId := 0 }
  | flushSend {cur ptr : Buf} (hpc : s.pc = .flushSend cur ptr) : Move s .task { s with
      pc := .flushReceive cur, freeQueue := (s.freeQueue.send ptr).getD s.freeQueue }
  | flushDone {cur : Buf} (hpc : s.pc = .flushDone cur) :
      Move s .task { s with pc := .release cur, lastCompletedId := 0 }
  | release {cur : Buf} (hpc : s.pc = .release cur) : Move s .task { s with
      pc := .report, freeQueue := (s.freeQueue.send cur).getD s.freeQueue }
  | receive {payload : Buf} {q : BoundedQueue Buf queueCapacity} (hc : s.consumer = .idle)
      (hq : s.workQueue.items = payload :: q.items) :
      Move s .receive { s with workQueue := q, consumer := .holding payload }
  | receiveEmpty (hc : s.consumer = .idle) (hq : s.workQueue.items = []) : Move s .receive s
  | acknowledge {payload : Buf} (hc : s.consumer = .holding payload) : Move s .acknowledge { s with
      lastCompletedId := (s.rxPool payload).id, consumer := .acknowledging payload }
  | acknowledgeSend {payload : Buf} {q : BoundedQueue Buf bufferPoolSize}
      (hc : s.consumer = .acknowledging payload) (hq : q.items = s.freeQueue.items ++ [payload]) :
      Move s .acknowledgeSend { s with freeQueue := q, consumer := .idle }

theorem move_of_taskStep {s t : Slave} (h : s.taskStep = some t) : s.Move .task t := by
  unfold Slave.taskStep at h
  split at h
  case h_1 hpc => cases h; exact .report hpc
  case h_2 hpc => cases h; exact .reportDone hpc
  case h_3 hpc =>
    obtain ⟨⟨cur, q⟩, hr, rfl⟩ := Option.map_eq_some_iff.1 h
    exact .take hpc (BoundedQueue.receive_eq_some.1 hr)
  case h_4 => cases h
  case h_5 hpc =>
    split at h
    · rename_i hq; cases h; exact .accept hpc (BoundedQueue.send_eq_some.1 hq).2
    · rename_i hq; cases h; exact .acceptFull hpc (BoundedQueue.send_eq_none.1 hq)
  case h_6 hpc =>
    split at h
    · rename_i hq; cases h; exact .flushReceive hpc (BoundedQueue.receive_eq_some.1 hq)
    · rename_i hq; cases h; exact .flushEmpty hpc (BoundedQueue.receive_eq_none.1 hq)
  case h_7 hpc => cases h; exact .flushSend hpc
  case h_8 hpc => cases h; exact .flushDone hpc
  case h_9 hpc => cases h; exact .release hpc

theorem move_of_receiveCommand {s t : Slave} (h : s.receiveCommand = some t) :
    s.Move .receive t := by
  unfold Slave.receiveCommand at h
  split at h
  · rename_i hc
    split at h
    · rename_i hq; cases h; exact .receive hc (BoundedQueue.receive_eq_some.1 hq)
    · rename_i hq; cases h; exact .receiveEmpty hc (BoundedQueue.receive_eq_none.1 hq)
  · cases h

theorem move_of_step {s t : Slave} {e : SlaveEvent} (h : s.step e = some t) : s.Move e t := by
  cases e with
  | task => exact move_of_taskStep h
  | transmit ok frame =>
    simp only [Slave.step, Slave.transmitted] at h
    split at h
    · rename_i hpc; cases h; exact .transmitted ok frame hpc
    · cases h
  | receive => exact move_of_receiveCommand h
  | acknowledge =>
    simp only [Slave.step, Slave.acknowledgeDone] at h
    split at h
    · rename_i hc; cases h; exact .acknowledge hc
    · cases h
  | acknowledgeSend =>
    simp only [Slave.step, Slave.acknowledgeSend] at h
    split at h
    · rename_i hc
      obtain ⟨q, hq, rfl⟩ := Option.map_eq_some_iff.1 h
      exact .acknowledgeSend hc (BoundedQueue.send_eq_some.1 hq).2
    · cases h

end Esp32Embroidery.Spi
