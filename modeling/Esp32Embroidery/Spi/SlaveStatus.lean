import Esp32Embroidery.Spi.SlaveOrder

/-!
# The status the SPI slave reports

Every response carries `packet_ack = last_received_id` and `packet_done =
last_completed_id`. `flush_work_queue` resets both, but the consumer may hold a
command over the flush; its acknowledgement then stores the id of a command the
slave has not accepted since.

Results:
* `slave_status_ordering`: as long as every acknowledged id is at most
  `last_received_id`, every response has `packet_done ≤ packet_ack` and
  `packet_done` is zero or an accepted id; an acknowledgement above it shows in
  the response prepared next.
* `slave_status_after_flush`: a flush between receive and acknowledge breaks it.
-/

namespace Esp32Embroidery.Spi

open Esp32Embroidery.Lib

/-- The response is prepared (line 92 is done). -/
def SlavePc.responseReady : SlavePc → Bool
  | .take | .transmit _ => true
  | _ => false

/-- What the master may expect of a response. -/
def SlaveRun.StatusOrdered (r : SlaveRun) : Prop :=
  r.slave.txMsg.packetDone ≤ r.slave.txMsg.packetAck ∧
    (r.slave.txMsg.packetDone = 0 ∨ r.slave.txMsg.packetDone ∈ r.accepted.map Payload.id)

/-- Fewer than `2^32` commands since the last flush. -/
def FewCommands (_ : SlaveRun) (_ : SlaveEvent) (r : SlaveRun) : Prop := r.accepted.length < 2 ^ 32

/-- `spi_slave_acknowledge_done` stores an id the slave has accepted since the
    last flush, or stores it just before `flush_work_queue` clears it again. -/
def Slave.AcknowledgesAccepted (s : Slave) : Prop :=
  ∀ payload, s.consumer = .holding payload →
    (s.rxPool payload).id ≤ s.lastReceivedId ∨ ∃ cur, s.pc = .flushDone cur

/-- The steps of a run in which nothing is acknowledged over a flush. -/
def StatusSafe (r : SlaveRun) (e : SlaveEvent) (r' : SlaveRun) : Prop :=
  FewCommands r e r' ∧ (e = .acknowledge → r.slave.AcknowledgesAccepted)

instance (r : SlaveRun) (e : SlaveEvent) (r' : SlaveRun) : Decidable (FewCommands r e r') :=
  inferInstanceAs (Decidable (_ < _))

instance (s : Slave) : Decidable s.AcknowledgesAccepted :=
  inferInstanceAs (Decidable (∀ payload : Buf, s.consumer = .holding payload →
    (s.rxPool payload).id ≤ s.lastReceivedId ∨ ∃ cur, s.pc = .flushDone cur))

instance (r : SlaveRun) (e : SlaveEvent) (r' : SlaveRun) : Decidable (StatusSafe r e r') :=
  inferInstanceAs (Decidable (FewCommands r e r' ∧ (e = .acknowledge →
    r.slave.AcknowledgesAccepted)))

/-! ## Invariant -/

structure StatusInv (s : Slave) : Prop where
  completed : (∀ cur, s.pc ≠ .flushDone cur) → s.lastCompletedId ≤ s.lastReceivedId
  ack : s.pc.ackReported = true → s.txMsg.packetAck = s.lastReceivedId
  done : s.pc.responseReady = true → s.txMsg.packetDone ≤ s.txMsg.packetAck

theorem statusInv_start : StatusInv Slave.start where
  completed _ := BitVec.le_refl _
  ack := by intro h; cases h
  done := by intro h; cases h

theorem ackReported_of_responseReady {pc : SlavePc} (h : pc.responseReady = true) :
    pc.ackReported = true := by
  cases pc with
  | take => rfl
  | transmit cur => rfl
  | _ => cases h

/-- Away from the response only the completed id matters. -/
theorem StatusInv.of_unreported {s : Slave} (hack : s.pc.ackReported = false)
    (hle : (∀ cur, s.pc ≠ .flushDone cur) → s.lastCompletedId ≤ s.lastReceivedId) :
    StatusInv s where
  completed := hle
  ack h := by rw [hack] at h; cases h
  done h := by rw [ackReported_of_responseReady h] at hack; cases hack

theorem handle_ackReported (s : Slave) (cur : Buf) (ok : Bool) (frame : Payload) :
    (s.handle cur ok frame).ackReported = false := by
  unfold Slave.handle
  split_ifs <;> rfl

/-- An accepted frame only raises `last_received_id`. -/
theorem OrderInv.lastReceivedId_le {r r' : SlaveRun} (h : OrderInv r) (h' : OrderInv r')
    (hle : r.accepted.length ≤ r'.accepted.length) (hlt : r'.accepted.length < 2 ^ 32) :
    r.slave.lastReceivedId ≤ r'.slave.lastReceivedId := by
  rw [h.last, h'.last, BitVec.le_def, BitVec.toNat_ofNat, BitVec.toNat_ofNat,
    Nat.mod_eq_of_lt hlt, Nat.mod_eq_of_lt (by omega)]
  exact hle

theorem StatusInv.step {r r' : SlaveRun} {e : SlaveEvent} (hr : OrderInv r)
    (h : StatusInv r.slave) (hst : r.step e = some r') (hsafe : StatusSafe r e r') :
    StatusInv r'.slave := by
  have hr' := hr.step hst
  obtain ⟨t, ht, rfl⟩ := Option.map_eq_some_iff.1 hst
  obtain ⟨hfew, hack⟩ := hsafe
  have hle := hr.lastReceivedId_le hr'
  simp only [FewCommands, record_slave] at hfew hle ⊢
  cases move_of_step ht with
  | report hpc => exact ⟨fun _ => h.completed (by simp [hpc]), fun _ => rfl, (by intro h; cases h)⟩
  | reportDone hpc =>
    have hack := h.ack (by rw [hpc]; rfl)
    have hdone := h.completed (by simp [hpc])
    exact ⟨fun _ => hdone, fun _ => hack, fun _ => by rw [hack]; exact hdone⟩
  | take hpc hq =>
    exact ⟨fun _ => h.completed (by simp [hpc]), fun _ => h.ack (by rw [hpc]; rfl),
      fun _ => h.done (by rw [hpc]; rfl)⟩
  | @transmitted cur ok frame hpc =>
    exact .of_unreported (handle_ackReported r.slave cur ok frame)
      fun _ => h.completed (by simp [hpc])
  | accept hpc hq =>
    refine .of_unreported rfl fun _ => BitVec.le_trans (h.completed (by simp [hpc])) (hle ?_ hfew)
    simp only [SlaveRun.record, hpc]
    split_ifs <;> simp
  | acceptFull hpc hq => exact .of_unreported rfl fun _ => h.completed (by simp [hpc])
  | flushReceive hpc hq => exact .of_unreported rfl fun _ => h.completed (by simp [hpc])
  | flushEmpty hpc hq => exact .of_unreported rfl fun hne => absurd rfl (hne _)
  | flushSend hpc => exact .of_unreported rfl fun _ => h.completed (by simp [hpc])
  | flushDone hpc => exact .of_unreported rfl fun _ => by simp [BitVec.le_def]
  | release hpc => exact .of_unreported rfl fun _ => h.completed (by simp [hpc])
  | receive hc hq => exact ⟨h.completed, h.ack, h.done⟩
  | receiveEmpty hc hq => exact h
  | acknowledge hc =>
    refine ⟨fun hne => ?_, h.ack, h.done⟩
    rcases hack rfl _ hc with hid | ⟨cur, hpc⟩
    · exact hid
    · exact absurd hpc (hne cur)
  | acknowledgeSend hc hq => exact ⟨h.completed, h.ack, h.done⟩

theorem statusInv_reachable {r : SlaveRun} (h : slaveRuns.ReachableBy StatusSafe r) :
    StatusInv r.slave :=
  h.invariant (I := fun r : SlaveRun => StatusInv r.slave) statusInv_start fun _ _ _ hr hs hst hsafe =>
    hs.step (orderInv_reachable hr) hst hsafe

theorem accepted_length_lt {r : SlaveRun} (h : slaveRuns.ReachableBy FewCommands r) :
    r.accepted.length < 2 ^ 32 :=
  h.invariant (I := fun r : SlaveRun => r.accepted.length < 2 ^ 32) (by decide) fun _ _ _ _ _ _ hP => hP

theorem statusOrdered_of_statusSafe {r : SlaveRun} (h : slaveRuns.ReachableBy StatusSafe r)
    (hready : r.slave.pc.responseReady = true) : r.StatusOrdered := by
  have hs := statusInv_reachable h
  have hr := orderInv_reachable h
  have hlen := accepted_length_lt (h.mono fun _ _ _ hP => hP.1)
  have hdone := hs.done hready
  have hack : r.slave.txMsg.packetAck.toNat = r.accepted.length := by
    rw [hs.ack (ackReported_of_responseReady hready), hr.last, BitVec.toNat_ofNat,
      Nat.mod_eq_of_lt hlen]
  refine ⟨hdone, ?_⟩
  rw [hr.ids, mem_seqIds hlen, ← hack]
  rw [BitVec.le_def] at hdone
  by_cases h0 : r.slave.txMsg.packetDone = 0
  · exact .inl h0
  · have : r.slave.txMsg.packetDone.toNat ≠ 0 := by simpa [BitVec.toNat_eq] using h0
    exact .inr ⟨by omega, hdone⟩

/-- An acknowledgement above `last_received_id` shows in the next response. -/
theorem stale_acknowledge {r : SlaveRun} (hpc : r.slave.pc = .report)
    {payload : Buf} (hc : r.slave.consumer = .holding payload)
    (hstale : ¬ r.slave.AcknowledgesAccepted) :
    ∃ r', slaveRuns.run r [.acknowledge, .task, .task] = some r' ∧
      r'.slave.pc.responseReady = true ∧ ¬ r'.StatusOrdered := by
  have hid : ¬ (r.slave.rxPool payload).id ≤ r.slave.lastReceivedId := by
    intro hle
    exact hstale fun p hp => by rw [hc] at hp; cases hp; exact .inl hle
  refine ⟨_, by simp [Machine.run, slaveRuns, SlaveRun.step, Slave.step, Slave.acknowledgeDone,
    Slave.taskStep, SlaveRun.record, hc, hpc]; rfl, rfl, fun h => hid ?_⟩
  exact h.1

/-! ## Main result -/

/-- In every run in which each acknowledged id is at most `last_received_id`
    (or is cleared at once by the flush in progress), every response is ordered.
    An acknowledgement above it spoils the response prepared next. -/
theorem slave_status_ordering (r : SlaveRun) :
    (slaveRuns.ReachableBy StatusSafe r → r.slave.pc.responseReady = true → r.StatusOrdered) ∧
    (∀ payload, r.slave.pc = .report → r.slave.consumer = .holding payload →
      ¬ r.slave.AcknowledgesAccepted → ∃ r',
        slaveRuns.run r [.acknowledge, .task, .task] = some r' ∧
          r'.slave.pc.responseReady = true ∧ ¬ r'.StatusOrdered) := by
  constructor
  · intro h hready
    exact statusOrdered_of_statusSafe h hready
  · intro payload hpc hc hstale
    exact stale_acknowledge hpc hc hstale

theorem slave_status_ordering_firstCommand :
    ∃ r, slaveRuns.run slaveRuns.init firstCommand = some r ∧
      r.slave.txMsg.packetAck = 1 ∧ r.StatusOrdered := by
  obtain ⟨r, hrun, hr, hv⟩ := slaveRuns.exists_reachableBy StatusSafe firstCommand
    (fun r => (r.slave.pc.responseReady, r.slave.txMsg.packetAck)) (v := (true, 1))
    (by decide +kernel) (by decide +kernel)
  obtain ⟨hready, hack⟩ := Prod.mk.inj hv
  exact ⟨r, hrun, hack, (slave_status_ordering r).1 hr hready⟩

/-- A flush while the consumer holds the first command, which it acknowledges
    afterwards: the next response reports command 1 done and nothing accepted. -/
theorem slave_status_after_flush :
    ¬ ∀ r, slaveRuns.ReachableBy FewCommands r → r.slave.pc.responseReady = true →
      r.StatusOrdered := by
  intro h
  let events : List SlaveEvent := firstCommand ++
    [.transmit true { Payload.zero with type := 2 }, .task, .task, .task, .acknowledge, .task,
      .task]
  obtain ⟨r, -, hr, hv⟩ := slaveRuns.exists_reachableBy FewCommands events
    (fun r => (r.slave.pc.responseReady, r.slave.txMsg.packetDone, r.slave.txMsg.packetAck))
    (v := (true, 1, 0)) (by decide +kernel) (by decide +kernel)
  simp only [Prod.mk.injEq] at hv
  obtain ⟨hready, hdone, hack⟩ := hv
  have hle := (h r hr hready).1
  rw [hdone, hack] at hle
  exact absurd hle (by decide)

end Esp32Embroidery.Spi
