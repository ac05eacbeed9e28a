import Esp32Embroidery.Spi.SlaveBuffers

/-!
# In-order, exactly-once acceptance by the SPI slave

`SlaveRun` is the slave with the history of its queue since the last flush: the
frames put into `work_queue`, those taken out again and those of them the
consumer received. A flush is over when `flush_work_queue` finds the queue empty
and resets `last_received_id`; the history starts again there.

Results:
* `effect_of_step`: the steps by what they do to the history.
* `OrderInv.step`: the combined invariant over history, queue contents and
  buffer contents.
* `slave_accepts_in_order`: the accepted ids are `1, 2, …, last_received_id`
  (modulo `2^32`) and the consumer received a prefix of the accepted frames,
  except while a flush is emptying the queue (`slave_receives_during_flush`).
-/

namespace Esp32Embroidery.Spi

open Esp32Embroidery.Lib

/-! ## History -/

/-- The slave and what happened to `work_queue` since the last flush. `inHand` is
    the command of the buffer the consumer holds, as it received it. -/
structure SlaveRun where
  slave : Slave
  accepted : List Payload
  removed : List Payload
  received : List Payload
  inHand : Option Payload

/-- The history after a step of the slave to `t`. -/
def SlaveRun.record (r : SlaveRun) (t : Slave) : SlaveEvent → SlaveRun
  | .task =>
    match r.slave.pc, r.slave.workQueue.items with
    | .accept cur, items =>
      if items.length < queueCapacity then
        { r with slave := t, accepted := r.accepted ++ [r.slave.rxPool cur] }
      else { r with slave := t }
    | .flushReceive _, [] => { r with slave := t, accepted := [], removed := [], received := [] }
    | .flushReceive _, ptr :: _ =>
      { r with slave := t, removed := r.removed ++ [r.slave.rxPool ptr] }
    | _, _ => { r with slave := t }
  | .receive =>
    match r.slave.workQueue.items with
    | [] => { r with slave := t }
    | payload :: _ =>
      { r with slave := t
               removed := r.removed ++ [r.slave.rxPool payload]
               received := r.received ++ [r.slave.rxPool payload]
               inHand := some (r.slave.rxPool payload) }
  | _ => { r with slave := t }

def SlaveRun.step (r : SlaveRun) (e : SlaveEvent) : Option SlaveRun :=
  (r.slave.step e).map fun t => r.record t e

/-- `slaveTask` with its history. -/
def slaveRuns : Machine SlaveRun SlaveEvent where
  init := { slave := Slave.start, accepted := [], removed := [], received := [], inHand := none }
  step := SlaveRun.step

@[simp] theorem record_slave (r : SlaveRun) (t : Slave) (e : SlaveEvent) :
    (r.record t e).slave = t := by
  unfold SlaveRun.record
  split
  · split <;> try split_ifs
    all_goals rfl
  · split <;> rfl
  · rfl

/-! ## Effects on the history -/

/-- `flush_work_queue` is emptying the queue. -/
def SlavePc.flushing : SlavePc → Bool
  | .flushReceive _ | .flushSend _ _ => true
  | _ => false

/-- `packet_ack` of the response has been set (line 91 is done). -/
def SlavePc.ackReported : SlavePc → Bool
  | .reportDone | .take | .transmit _ => true
  | _ => false

/-- A step of the slave to `t` that the history does not show: queue, buffers,
    `last_received_id` and the reply of lines 90–91 stay. -/
structure Silent (s t : Slave) : Prop where
  workQueue : t.workQueue = s.workQueue
  rxPool : t.rxPool = s.rxPool
  lastReceivedId : t.lastReceivedId = s.lastReceivedId
  reply : t.txMsg.rxFree = s.txMsg.rxFree ∧ t.txMsg.packetAck = s.txMsg.packetAck
  flushing : t.pc.flushing = s.pc.flushing
  ackReported : t.pc.ackReported = s.pc.ackReported
  accept : ∀ cur, t.pc = .accept cur ↔ s.pc = .accept cur
  hand : ∀ b ∈ t.consumer.hand, b ∈ s.consumer.hand

/-- The steps by what they do to the history. -/
inductive SlaveRun.Effect (r : SlaveRun) : SlaveEvent → SlaveRun → Prop
  | silent {e : SlaveEvent} {t : Slave} (h : Silent r.slave t)
      (he : ∀ ok frame, e ≠ .transmit ok frame) : Effect r e { r with slave := t }
  | report (hpc : r.slave.pc = .report) : Effect r .task { r with slave := { r.slave with
      pc := .reportDone
      txMsg := { r.slave.txMsg with rxFree := rxFree r.slave.workQueue.items.length,
                                    packetAck := r.slave.lastReceivedId } } }
  | transmitted {cur : Buf} (ok : Bool) (frame : Payload) (hpc : r.slave.pc = .transmit cur) :
      Effect r (.transmit ok frame) { r with slave := { r.slave with
        pc := r.slave.handle cur ok frame
        rxPool := Function.update r.slave.rxPool cur frame } }
  | accept {cur : Buf} {q : BoundedQueue Buf queueCapacity} (hpc : r.slave.pc = .accept cur)
      (hq : q.items = r.slave.workQueue.items ++ [cur]) : Effect r .task { r with
        slave := { r.slave with
          pc := .report, workQueue := q, lastReceivedId := (r.slave.rxPool cur).id }
        accepted := r.accepted ++ [r.slave.rxPool cur] }
  | acceptFull {cur : Buf} (hpc : r.slave.pc = .accept cur)
      (hq : r.slave.workQueue.items.length = queueCapacity) :
      Effect r .task { r with slave := { r.slave with pc := .release cur } }
  | flushReceive {cur ptr : Buf} {q : BoundedQueue Buf queueCapacity}
      (hpc : r.slave.pc = .flushReceive cur) (hq : r.slave.workQueue.items = ptr :: q.items) :
      Effect r .task { r with
        slave := { r.slave with pc := .flushSend cur ptr, workQueue := q }
        removed := r.removed ++ [r.slave.rxPool ptr] }
  | flushEmpty {cur : Buf} (hpc : r.slave.pc = .flushReceive cur)
      (hq : r.slave.workQueue.items = []) : Effect r .task { r with
        slave := { r.slave with pc := .flushDone cur, lastReceivedId := 0 }
        accepted := [], removed := [], received := [] }
  | receive {payload : Buf} {q : BoundedQueue Buf queueCapacity} (hc : r.slave.consumer = .idle)
      (hq : r.slave.workQueue.items = payload :: q.items) : Effect r .receive { r with
        slave := { r.slave with workQueue := q, consumer := .holding payload }
        removed := r.removed ++ [r.slave.rxPool payload]
        received := r.received ++ [r.slave.rxPool payload]
        inHand := some (r.slave.rxPool payload) }

/-- A step of the slave task that only changes its position, `free_queue`,
    `last_completed_id` and `packet_done` is silent. -/
theorem SlaveRun.Effect.silent_task {r : SlaveRun} {pc pc' : SlavePc} (hpc : r.slave.pc = pc)
    (freeQueue : BoundedQueue Buf bufferPoolSize) (lastCompletedId packetDone : BitVec 32)
    (hflush : pc'.flushing = pc.flushing) (hack : pc'.ackReported = pc.ackReported)
    (haccept : ∀ cur, pc' = .accept cur ↔ pc = .accept cur) :
    Effect r .task { r with slave := { r.slave with
      pc := pc', freeQueue := freeQueue, lastCompletedId := lastCompletedId
      txMsg := { r.slave.txMsg with packetDone := packetDone } } } := by
  subst hpc
  refine .silent ⟨rfl, rfl, rfl, ⟨rfl, rfl⟩, hflush, hack, haccept, fun _ => id⟩ ?_
  intro ok frame he
  cases he

theorem effect_of_step {r r' : SlaveRun} {e : SlaveEvent} (h : r.step e = some r') :
    r.Effect e r' := by
  obtain ⟨t, ht, rfl⟩ := Option.map_eq_some_iff.1 h
  cases move_of_step ht with
  | report hpc =>
    simp only [SlaveRun.record, hpc]
    exact .report hpc
  | reportDone hpc =>
    simp only [SlaveRun.record, hpc]
    exact .silent_task hpc _ _ _ rfl rfl (by simp)
  | take hpc hq =>
    simp only [SlaveRun.record, hpc]
    exact .silent_task hpc _ _ _ rfl rfl (by simp)
  | transmitted ok frame hpc => exact .transmitted ok frame hpc
  | @accept cur q hpc hq =>
    have hroom : r.slave.workQueue.items.length < queueCapacity := by
      simpa [hq, Nat.succ_le_iff] using q.length_le
    simp only [SlaveRun.record, hpc, hroom, if_true]
    exact .accept hpc hq
  | acceptFull hpc hq =>
    simp only [SlaveRun.record, hpc, hq, Nat.lt_irrefl, if_false]
    exact .acceptFull hpc hq
  | flushReceive hpc hq =>
    simp only [SlaveRun.record, hpc, hq]
    exact .flushReceive hpc hq
  | flushEmpty hpc hq =>
    simp only [SlaveRun.record, hpc, hq]
    exact .flushEmpty hpc hq
  | flushSend hpc =>
    simp only [SlaveRun.record, hpc]
    exact .silent_task hpc _ _ _ rfl rfl (by simp)
  | flushDone hpc =>
    simp only [SlaveRun.record, hpc]
    exact .silent_task hpc _ _ _ rfl rfl (by simp)
  | release hpc =>
    simp only [SlaveRun.record, hpc]
    exact .silent_task hpc _ _ _ rfl rfl (by simp)
  | receive hc hq =>
    simp only [SlaveRun.record, hq]
    exact .receive hc hq
  | receiveEmpty hc hq =>
    simp only [SlaveRun.record, hq]
    refine .silent ⟨rfl, rfl, rfl, ⟨rfl, rfl⟩, rfl, rfl, fun _ => Iff.rfl, fun _ => id⟩ ?_
    intro ok frame he
    cases he
  | acknowledge hc =>
    refine .silent ⟨rfl, rfl, rfl, ⟨rfl, rfl⟩, rfl, rfl, fun _ => Iff.rfl, ?_⟩ ?_
    · simp [hc, Consumer.hand]
    · intro ok frame he
      cases he
  | acknowledgeSend hc hq =>
    refine .silent ⟨rfl, rfl, rfl, ⟨rfl, rfl⟩, rfl, rfl, fun _ => Iff.rfl, ?_⟩ ?_
    · simp [Consumer.hand]
    · intro ok frame he
      cases he

/-! ## Sequence numbers -/

/-- The ids `1, 2, …, n` as `uint32_t`. -/
def seqIds (n : ℕ) : List (BitVec 32) := (List.range n).map fun k => BitVec.ofNat 32 (k + 1)

theorem seqIds_succ (n : ℕ) : seqIds (n + 1) = seqIds n ++ [BitVec.ofNat 32 (n + 1)] := by
  simp [seqIds, List.range_succ]

theorem mem_seqIds {n : ℕ} {x : BitVec 32} (hn : n < 2 ^ 32) :
    x ∈ seqIds n ↔ 0 < x.toNat ∧ x.toNat ≤ n := by
  simp only [seqIds, List.mem_map, List.mem_range]
  constructor
  · rintro ⟨k, hk, rfl⟩
    rw [BitVec.toNat_ofNat, Nat.mod_eq_of_lt (by omega)]
    omega
  · rintro ⟨h0, h1⟩
    refine ⟨x.toNat - 1, by omega, ?_⟩
    rw [show x.toNat - 1 + 1 = x.toNat by omega, BitVec.ofNat_toNat, BitVec.setWidth_eq]

/-! ## Invariant -/

/-- History, queue contents and buffer contents fit together. -/
structure OrderInv (r : SlaveRun) : Prop where
  conserved : Conserved r.slave
  queued : r.accepted = r.removed ++ r.slave.workQueue.items.map r.slave.rxPool
  ids : r.accepted.map Payload.id = seqIds r.accepted.length
  last : r.slave.lastReceivedId = BitVec.ofNat 32 r.accepted.length
  next : ∀ cur, r.slave.pc = .accept cur → (r.slave.rxPool cur).id = r.slave.lastReceivedId + 1
  received : r.slave.pc.flushing = false → r.received = r.removed
  sublist : r.received.Sublist r.removed
  inHand : ∀ b ∈ r.slave.consumer.hand, r.inHand = some (r.slave.rxPool b)

theorem orderInv_init : OrderInv slaveRuns.init where
  conserved := conserved_start
  queued := rfl
  ids := rfl
  last := rfl
  next := by intro _ h; cases h
  received _ := rfl
  sublist := List.Sublist.slnil
  inHand := by intro _ h; cases h

/-- A step that leaves queue, buffers and `last_received_id` alone. -/
theorem OrderInv.frame {r : SlaveRun} {t : Slave} (h : OrderInv r) (hcons : Conserved t)
    (hwork : t.workQueue = r.slave.workQueue) (hpool : t.rxPool = r.slave.rxPool)
    (hlast : t.lastReceivedId = r.slave.lastReceivedId)
    (hflush : t.pc.flushing = r.slave.pc.flushing)
    (hnext : ∀ cur, t.pc = .accept cur → r.slave.pc = .accept cur)
    (hhand : ∀ b ∈ t.consumer.hand, b ∈ r.slave.consumer.hand) :
    OrderInv { r with slave := t } where
  conserved := hcons
  queued := by rw [hwork, hpool]; exact h.queued
  ids := h.ids
  last := hlast.trans h.last
  next cur hpc := by rw [hpool, hlast]; exact h.next cur (hnext cur hpc)
  received hf := h.received (hflush ▸ hf)
  sublist := h.sublist
  inHand b hb := by rw [hpool]; exact h.inHand b (hhand b hb)

/-- A buffer the slave task receives into is not queued and not in the
    consumer's hand. -/
theorem Conserved.not_mem {s : Slave} (h : Conserved s) {b : Buf} (hb : b ∈ s.pc.currentRxBuf) :
    b ∉ s.workQueue.items ∧ b ∉ s.consumer.hand := by
  have hnodup : s.owners.Nodup := h.nodup_iff.2 (List.nodup_finRange _)
  have hcount := List.nodup_iff_count_le_one.1 hnodup b
  have hpos := List.count_pos_iff.2 hb
  simp only [Slave.owners, List.count_append] at hcount
  constructor
  · rw [← List.count_eq_zero]; omega
  · rw [← List.count_eq_zero]; omega

/-- Receiving into a free buffer does not change queued or held commands. -/
theorem OrderInv.transmitted {r : SlaveRun} (h : OrderInv r) {cur : Buf} (ok : Bool)
    (frame : Payload) (hpc : r.slave.pc = .transmit cur) (hcons : Conserved { r.slave with
      pc := r.slave.handle cur ok frame, rxPool := Function.update r.slave.rxPool cur frame }) :
    OrderInv { r with slave := { r.slave with
      pc := r.slave.handle cur ok frame
      rxPool := Function.update r.slave.rxPool cur frame } } := by
  obtain ⟨hwork, hhand⟩ := h.conserved.not_mem (b := cur) (by simp [hpc, SlavePc.currentRxBuf])
  refine ⟨hcons, ?_, h.ids, h.last, ?_, fun _ => h.received (by simp [hpc, SlavePc.flushing]),
    h.sublist, ?_⟩
  · rw [h.queued]
    congr 1
    apply List.map_congr_left
    intro b hb
    have hne : b ≠ cur := by rintro rfl; exact hwork hb
    exact (Function.update_of_ne hne frame r.slave.rxPool).symm
  · intro c hc
    simp only [Slave.handle] at hc
    split_ifs at hc with h1 h2 h3
    cases hc
    simpa using h3.2
  · intro b hb
    have hne : b ≠ cur := by rintro rfl; exact hhand hb
    exact (h.inHand b hb).trans (congrArg some (Function.update_of_ne hne frame r.slave.rxPool).symm)

theorem OrderInv.accept {r : SlaveRun} (h : OrderInv r) {cur : Buf}
    {q : BoundedQueue Buf queueCapacity} (hpc : r.slave.pc = .accept cur)
    (hq : q.items = r.slave.workQueue.items ++ [cur]) (hcons : Conserved { r.slave with
      pc := .report, workQueue := q, lastReceivedId := (r.slave.rxPool cur).id }) :
    OrderInv { r with
      slave := { r.slave with
        pc := .report, workQueue := q, lastReceivedId := (r.slave.rxPool cur).id }
      accepted := r.accepted ++ [r.slave.rxPool cur] } := by
  have hid : (r.slave.rxPool cur).id = BitVec.ofNat 32 (r.accepted.length + 1) := by
    rw [h.next cur hpc, h.last, BitVec.ofNat_add]
    rfl
  refine ⟨hcons, ?_, ?_, ?_, by simp, fun _ => h.received (by simp [hpc, SlavePc.flushing]),
    h.sublist, h.inHand⟩
  · simp [h.queued, hq]
  · simp [h.ids, hid, seqIds_succ]
  · simpa using hid

theorem OrderInv.step {r r' : SlaveRun} {e : SlaveEvent} (h : OrderInv r)
    (hst : r.step e = some r') : OrderInv r' := by
  have hcons : Conserved r'.slave := by
    obtain ⟨t, ht, rfl⟩ := Option.map_eq_some_iff.1 hst
    rw [record_slave]
    exact h.conserved.step ht
  cases effect_of_step hst with
  | silent ht he =>
    exact h.frame hcons ht.workQueue ht.rxPool ht.lastReceivedId ht.flushing
      (fun cur => (ht.accept cur).1) ht.hand
  | report hpc =>
    exact h.frame hcons rfl rfl rfl (by rw [hpc]; rfl) (by intro _ h; cases h) fun _ => id
  | transmitted ok frame hpc => exact h.transmitted ok frame hpc hcons
  | accept hpc hq => exact h.accept hpc hq hcons
  | acceptFull hpc hq =>
    exact h.frame hcons rfl rfl rfl (by rw [hpc]; rfl) (by intro _ h; cases h) fun _ => id
  | flushReceive hpc hq =>
    exact {
      conserved := hcons
      queued := by simp [h.queued, hq]
      ids := h.ids
      last := h.last
      next := by intro _ h; cases h
      received := by intro h; cases h
      sublist := h.sublist.trans (List.sublist_append_left _ _)
      inHand := h.inHand }
  | flushEmpty hpc hq =>
    exact {
      conserved := hcons
      queued := by simp [hq]
      ids := rfl
      last := rfl
      next := by intro _ h; cases h
      received := fun _ => rfl
      sublist := List.Sublist.slnil
      inHand := h.inHand }
  | receive hc hq =>
    refine ⟨hcons, by simp [h.queued, hq], h.ids, h.last, h.next, ?_,
      h.sublist.append (List.Sublist.refl _), by simp [Consumer.hand]⟩
    intro hf
    rw [h.received hf]

theorem orderInv_reachable {P : SlaveRun → SlaveEvent → SlaveRun → Prop} {r : SlaveRun}
    (h : slaveRuns.ReachableBy P r) : OrderInv r :=
  h.invariant orderInv_init fun _ _ _ _ hr hst _ => hr.step hst

/-- Whatever frames arrive and whenever the consumer acts: the ids put into
    `work_queue` since the last flush are `1, 2, …, last_received_id` (modulo
    `2^32`), and the consumer has received a prefix of the accepted frames,
    unchanged (of frames still to be flushed, a subsequence while
    `flush_work_queue` is emptying the queue under it). The buffer it holds
    keeps the command until it is given back. -/
theorem slave_accepts_in_order {r : SlaveRun} (h : slaveRuns.Reachable r) :
    r.accepted.map Payload.id = seqIds r.accepted.length ∧
    r.slave.lastReceivedId = BitVec.ofNat 32 r.accepted.length ∧
    (r.slave.pc.flushing = false → r.received <+: r.accepted) ∧
    r.received.Sublist r.accepted ∧
    (∀ b ∈ r.slave.consumer.hand, r.inHand = some (r.slave.rxPool b)) := by
  have hr := orderInv_reachable h
  refine ⟨hr.ids, hr.last, fun hf => ?_, ?_, hr.inHand⟩
  · rw [hr.received hf, hr.queued]
    exact List.prefix_append _ _
  · rw [hr.queued]
    exact hr.sublist.trans (List.sublist_append_left _ _)

/-- After the first command. -/
theorem slave_accepts_in_order_firstCommand :
    ∃ r, slaveRuns.run slaveRuns.init firstCommand = some r ∧ r.accepted.length = 1 ∧
      r.accepted.map Payload.id = seqIds 1 ∧ r.slave.lastReceivedId = 1 := by
  obtain ⟨r, hrun, hr, hlen⟩ := slaveRuns.exists_reachable firstCommand
    (fun r => r.accepted.length) (v := 1) (by decide +kernel)
  obtain ⟨hids, hlast, -⟩ := slave_accepts_in_order hr
  rw [hlen] at hids hlast
  exact ⟨r, hrun, hlen, hids, hlast⟩

/-- While `flush_work_queue` empties the queue the consumer can get command 2
    after command 1 has been dropped. -/
theorem slave_receives_during_flush :
    ¬ ∀ r, slaveRuns.Reachable r → r.received <+: r.accepted := by
  intro h
  let prepare : List SlaveEvent := [.task, .task, .task]
  let events : List SlaveEvent :=
    prepare ++ [.transmit true { Payload.zero with id := 1, type := 1 }, .task] ++
    prepare ++ [.transmit true { Payload.zero with id := 2, type := 1 }, .task] ++
    prepare ++ [.transmit true { Payload.zero with type := 2 }, .task, .receive]
  obtain ⟨r, -, hr, hv⟩ := slaveRuns.exists_reachable events
    (fun r => (r.received.map Payload.id, r.accepted.map Payload.id)) (v := ([2], [1, 2]))
    (by decide +kernel)
  obtain ⟨hreceived, haccepted⟩ := Prod.mk.inj hv
  have hprefix := (h r hr).map Payload.id
  rw [hreceived, haccepted] at hprefix
  exact absurd hprefix (by decide)

end Esp32Embroidery.Spi
