import Esp32Embroidery.Spi.Slave
import Mathlib.Data.List.FinRange

/-!
# Buffer conservation in the SPI slave

The buffers of `rx_pool` move between `free_queue`, `work_queue`, the local
variables of the slave task and the consumer's hand. No step loses or doubles
one, so no zero-timeout send to `free_queue` fails and a receive buffer is
always free when the slave task needs one.

Results:
* `Move.owners_perm`: every step permutes the owned buffers.
* `slave_buffer_conservation`: each buffer is in exactly one place, and what
  follows for the sends and receives on `free_queue`.
-/

namespace Esp32Embroidery.Spi

open Esp32Embroidery.Lib

/-- The receive buffer the slave task owns. -/
def SlavePc.currentRxBuf : SlavePc → List Buf
  | .report | .reportDone | .take => []
  | .transmit cur | .accept cur | .flushReceive cur | .flushSend cur _ | .flushDone cur
  | .release cur => [cur]

/-- The buffer `flush_work_queue` is moving from `work_queue` to `free_queue`. -/
def SlavePc.payloadPtr : SlavePc → List Buf
  | .flushSend _ ptr => [ptr]
  | _ => []

/-- The buffer the consumer holds. -/
def Consumer.hand : Consumer → List Buf
  | .idle => []
  | .holding payload | .acknowledging payload => [payload]

/-- All buffers, listed by their place. -/
def Slave.owners (s : Slave) : List Buf :=
  s.freeQueue.items ++ s.workQueue.items ++ s.pc.currentRxBuf ++ s.pc.payloadPtr ++ s.consumer.hand

/-- Every buffer of the pool is owned, once. -/
def Conserved (s : Slave) : Prop := s.owners.Perm (List.finRange bufferPoolSize)

theorem conserved_start : Conserved Slave.start := by
  simp [Conserved, Slave.owners, Slave.start, SlavePc.currentRxBuf, SlavePc.payloadPtr,
    Consumer.hand]

theorem Conserved.length {s : Slave} (h : Conserved s) :
    s.freeQueue.items.length + s.workQueue.items.length + s.pc.currentRxBuf.length +
      s.pc.payloadPtr.length + s.consumer.hand.length = bufferPoolSize := by
  simpa [Slave.owners, Nat.add_assoc] using h.length_eq

/-- While the slave task or the consumer holds a buffer, `free_queue` has room. -/
theorem Conserved.send_free {s : Slave} (h : Conserved s)
    (hold : s.pc.currentRxBuf ≠ [] ∨ s.consumer.hand ≠ []) (b : Buf) :
    ∃ q, s.freeQueue.send b = some q ∧ q.items = s.freeQueue.items ++ [b] := by
  have hlen := h.length
  have hpos : 0 < s.pc.currentRxBuf.length ∨ 0 < s.consumer.hand.length :=
    hold.imp List.length_pos_iff.2 List.length_pos_iff.2
  exact BoundedQueue.exists_send (by omega) b

theorem handle_currentRxBuf (s : Slave) (cur : Buf) (ok : Bool) (frame : Payload) :
    (s.handle cur ok frame).currentRxBuf = [cur] ∧ (s.handle cur ok frame).payloadPtr = [] := by
  unfold Slave.handle
  split_ifs <;> exact ⟨rfl, rfl⟩

theorem Move.owners_perm {s t : Slave} {e : SlaveEvent} (hs : Conserved s) (h : s.Move e t) :
    t.owners.Perm s.owners := by
  rw [List.perm_iff_count]
  intro b
  cases h with
  | report hpc => simp [Slave.owners, hpc, SlavePc.currentRxBuf, SlavePc.payloadPtr]
  | reportDone hpc => simp [Slave.owners, hpc, SlavePc.currentRxBuf, SlavePc.payloadPtr]
  | take hpc hq =>
    simp [Slave.owners, hpc, hq, SlavePc.currentRxBuf, SlavePc.payloadPtr, List.count_cons]
    omega
  | @transmitted cur ok frame hpc =>
    obtain ⟨h1, h2⟩ := handle_currentRxBuf s cur ok frame
    simp only [Slave.owners, hpc, h1, h2]
    rfl
  | accept hpc hq =>
    simp [Slave.owners, hpc, hq, SlavePc.currentRxBuf, SlavePc.payloadPtr]
  | acceptFull hpc hq => simp [Slave.owners, hpc, SlavePc.currentRxBuf, SlavePc.payloadPtr]
  | flushReceive hpc hq =>
    simp [Slave.owners, hpc, hq, SlavePc.currentRxBuf, SlavePc.payloadPtr, List.count_cons]
    omega
  | flushEmpty hpc hq => simp [Slave.owners, hpc, SlavePc.currentRxBuf, SlavePc.payloadPtr]
  | @flushSend cur ptr hpc =>
    obtain ⟨q, hq, hitems⟩ := hs.send_free (.inl (by simp [hpc, SlavePc.currentRxBuf])) ptr
    simp [Slave.owners, hpc, hq, hitems, SlavePc.currentRxBuf, SlavePc.payloadPtr, List.count_cons]
    omega
  | flushDone hpc => simp [Slave.owners, hpc, SlavePc.currentRxBuf, SlavePc.payloadPtr]
  | @release cur hpc =>
    obtain ⟨q, hq, hitems⟩ := hs.send_free (.inl (by simp [hpc, SlavePc.currentRxBuf])) cur
    simp [Slave.owners, hpc, hq, hitems, SlavePc.currentRxBuf, SlavePc.payloadPtr, List.count_cons]
    omega
  | receive hc hq =>
    simp [Slave.owners, hc, hq, Consumer.hand, List.count_cons]
    omega
  | receiveEmpty hc hq => rfl
  | acknowledge hc => simp [Slave.owners, hc, Consumer.hand]
  | acknowledgeSend hc hq =>
    simp [Slave.owners, hc, hq, Consumer.hand, List.count_cons]
    omega

theorem Conserved.step {s t : Slave} {e : SlaveEvent} (hs : Conserved s) (h : s.step e = some t) :
    Conserved t :=
  (Move.owners_perm hs (move_of_step h)).trans hs

theorem conserved_reachable {s : Slave} (h : slaveTask.Reachable s) : Conserved s :=
  h.invariant conserved_start fun _ _ _ _ hs hst _ => hs.step hst

/-- At every point of every interleaving each buffer of the pool is in exactly
    one place: `free_queue`, `work_queue`, the hands of the slave task (its
    receive buffer, or the one `flush_work_queue` is moving) or the consumer's
    hand. So the sends to `free_queue` never fail, and `free_queue` is not empty
    when the slave task takes its receive buffer. -/
theorem slave_buffer_conservation {s : Slave} (h : slaveTask.Reachable s) :
    (∀ b : Buf, s.freeQueue.items.count b + s.workQueue.items.count b +
      (s.pc.currentRxBuf.count b + s.pc.payloadPtr.count b) + s.consumer.hand.count b = 1) ∧
    (∀ cur ptr, s.pc = .flushSend cur ptr → s.freeQueue.send ptr ≠ none) ∧
    (∀ cur, s.pc = .release cur → s.freeQueue.send cur ≠ none) ∧
    (∀ payload, s.consumer = .acknowledging payload → s.freeQueue.send payload ≠ none) ∧
    (s.pc = .take → s.freeQueue.receive ≠ none) := by
  have hs := conserved_reachable h
  refine ⟨fun b => ?_, fun cur ptr hpc => ?_, fun cur hpc => ?_, fun payload hc => ?_, fun hpc => ?_⟩
  · have hcount := hs.count_eq b
    rw [List.count_eq_one_of_mem (List.nodup_finRange _) (List.mem_finRange b)] at hcount
    simp only [Slave.owners, List.count_append] at hcount
    omega
  · obtain ⟨q, hq, -⟩ := hs.send_free (.inl (by simp [hpc, SlavePc.currentRxBuf])) ptr
    simp [hq]
  · obtain ⟨q, hq, -⟩ := hs.send_free (.inl (by simp [hpc, SlavePc.currentRxBuf])) cur
    simp [hq]
  · obtain ⟨q, hq, -⟩ := hs.send_free (.inr (by simp [hc, Consumer.hand])) payload
    simp [hq]
  · -- the queue bound and the single hand of the consumer leave at least one
    have hlen := hs.length
    have hwork := s.workQueue.length_le
    have hhand : s.consumer.hand.length ≤ 1 := by cases s.consumer <;> simp [Consumer.hand]
    rw [Ne, BoundedQueue.receive_eq_none, ← List.length_eq_zero_iff]
    simp only [hpc, SlavePc.currentRxBuf, SlavePc.payloadPtr, List.length_nil] at hlen
    unfold bufferPoolSize at hlen
    omega

/-- The first command is accepted and received, and the slave waits for the second. -/
def firstCommand : List SlaveEvent :=
  [.task, .task, .task, .transmit true { Payload.zero with id := 1, type := 1 }, .task, .receive,
    .task, .task, .task]

theorem slave_buffer_conservation_firstCommand :
    ∃ s, slaveTask.run Slave.start firstCommand = some s ∧
      s.pc = .transmit ⟨1, by decide⟩ ∧ s.consumer = .holding ⟨0, by decide⟩ ∧
      ∀ b : Buf, s.freeQueue.items.count b + s.workQueue.items.count b +
        (s.pc.currentRxBuf.count b + s.pc.payloadPtr.count b) + s.consumer.hand.count b = 1 := by
  obtain ⟨s, hrun, hs, hv⟩ := slaveTask.exists_reachable firstCommand
    (fun s => (s.pc, s.consumer)) (v := (.transmit ⟨1, by decide⟩, .holding ⟨0, by decide⟩))
    (by decide +kernel)
  obtain ⟨hpc, hc⟩ := Prod.mk.inj hv
  exact ⟨s, hrun, hpc, hc, (slave_buffer_conservation hs).1⟩

end Esp32Embroidery.Spi
