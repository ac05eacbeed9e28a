import Esp32Embroidery.Lib.StopAndWait
import Esp32Embroidery.Spi.Master
import Esp32Embroidery.Spi.SlaveOrder

/-!
# The SPI link between master and slave

The loops of `spi_master_task` and `spi_slave_task` and the consumer, in any
interleaving. A transaction exchanges the master's frame with the reply the
slave prepared before it; either end may see it fail. The link is shown to
refine `StopAndWait.link`.

Results:
* `Refines.step`: every step of the link with successful flushes is a step of
  the stop-and-wait link or does not show there.
* `link_agreement`: `last_received_id` is `expected_ack - 1` or `expected_ack`
  while the slave is not inside `flush_work_queue`.
* `link_disagrees_in_flush`: inside it need not be.
* `link_room`: an in-order frame always finds room in `work_queue`.
-/

namespace Esp32Embroidery.Spi

open Esp32Embroidery.Lib

/-! ## Model -/

/-- Master, slave with its history, and the number of lines put on the wire since
    the last flush. -/
structure Link where
  master : Master
  slave : SlaveRun
  sent : ℕ

inductive LinkEvent
  /-- one transaction and the iteration of the master around it; the slave's
      buffer holds `garbage` if the transaction fails there -/
  | exchange (flush masterOk slaveOk : Bool) (garbage : Payload)
  /-- an iteration of the master whose transaction fails unnoticed by the slave -/
  | masterFails (flush : Bool)
  /-- a step of the slave task or of the consumer, or a failing
      `spi_slave_transmit` unnoticed by the master -/
  | slave (e : SlaveEvent)

/-- Lines sent since the last flush, after an iteration from `m`: a data frame
    with a new line counts, and a flush that succeeds starts again. -/
def Master.sentAfter (m : Master) (sent : ℕ) (flush ok : Bool) : ℕ :=
  if flush then if ok then 0 else sent
  else if m.fetchNewLine ∧ ¬ m.Polls then sent + 1 else sent

def Link.step (l : Link) : LinkEvent → Option Link
  | .exchange flush masterOk slaveOk garbage =>
    let m := l.master.buildFrame flush
    let reply := l.slave.slave.txMsg
    (l.slave.step (.transmit slaveOk (if slaveOk then m.txMsg else garbage))).map fun r =>
      { master := m.handleResponse flush (if masterOk then some reply else none)
        slave := r
        sent := l.master.sentAfter l.sent flush masterOk }
  | .masterFails flush => some { l with
      master := l.master.iterate flush none
      sent := l.master.sentAfter l.sent flush false }
  | .slave (.transmit true _) => none
  | .slave e => (l.slave.step e).map fun r => { l with slave := r }

def spiLink (stream : ℕ → Data) : Machine Link LinkEvent where
  init := { master := Master.start stream, slave := slaveRuns.init, sent := 0 }
  step := Link.step

/-- Every flush transaction succeeds at both ends. -/
def FlushesSucceed (_ : Link) (e : LinkEvent) (_ : Link) : Prop :=
  match e with
  | .exchange flush masterOk slaveOk _ => flush = true → masterOk = true ∧ slaveOk = true
  | .masterFails flush => flush = false
  | .slave _ => True

/-- Fewer than `2^32 - 1` lines are sent between flushes. -/
def FewLines (_ : Link) (_ : LinkEvent) (l : Link) : Prop := l.sent < 2 ^ 32 - 1

/-- The steps of the runs considered for agreement and flow control. -/
def LinkAssumptions (l : Link) (e : LinkEvent) (l' : Link) : Prop :=
  FlushesSucceed l e l' ∧ FewLines l e l'

instance : ∀ (l : Link) (e : LinkEvent) (l' : Link), Decidable (FlushesSucceed l e l')
  | _, .exchange flush masterOk slaveOk _, _ =>
    inferInstanceAs (Decidable (flush = true → masterOk = true ∧ slaveOk = true))
  | _, .masterFails flush, _ => inferInstanceAs (Decidable (flush = false))
  | _, .slave _, _ => .isTrue trivial

instance (l : Link) (e : LinkEvent) (l' : Link) : Decidable (LinkAssumptions l e l') :=
  inferInstanceAs (Decidable (FlushesSucceed l e l' ∧ l'.sent < 2 ^ 32 - 1))

/-! ## Sequence numbers modulo `2^32` -/

/-- Two numbers that differ by at most 1 do so modulo `2^32`. -/
theorem ofNat_eq_iff_of_near {m n : ℕ} (h : n = m ∨ n = m + 1) :
    BitVec.ofNat 32 m = BitVec.ofNat 32 n ↔ m = n := by
  constructor
  · intro heq
    have hmod := congrArg BitVec.toNat heq
    rw [BitVec.toNat_ofNat, BitVec.toNat_ofNat] at hmod
    omega
  · intro heq
    rw [heq]

theorem ofNat_succ (n : ℕ) : BitVec.ofNat 32 n + 1 = BitVec.ofNat 32 (n + 1) := by
  rw [BitVec.ofNat_add]
  rfl

/-! ## The master's side -/

/-- The state of the master, in numbers: it delivers line frame `next`, knows of
    `credit` free places and has put `sent` lines on the wire. -/
structure MasterRel (m : Master) (sent next credit : ℕ) : Prop where
  inv : MasterInv m
  kept : m.fetchNewLine = false → m.txMsg.type = 0 ∨ m.txMsg.type = 1
  expected : m.expectedAck = BitVec.ofNat 32 next
  slots : m.slaveFreeSlots.toNat = credit
  fetched : next ≤ sent + 1
  keptSent : m.fetchNewLine = false → m.txMsg.type = 1 → next ≤ sent

theorem masterRel_start (stream : ℕ → Data) : MasterRel (Master.start stream) 0 1 0 where
  inv := masterInv_start stream
  kept := by intro h; cases h
  expected := rfl
  slots := rfl
  fetched := le_refl _
  keptSent := by intro h; cases h

/-- The frame of an iteration without flush. -/
theorem MasterRel.frame {m : Master} {sent next credit : ℕ} (h : MasterRel m sent next credit) :
    ((m.buildFrame false).txMsg.type = 0 ∨ (m.buildFrame false).txMsg.type = 1) ∧
    ((m.buildFrame false).txMsg.type = 1 →
      (m.buildFrame false).txMsg.id = BitVec.ofNat 32 next ∧ ¬ m.Polls ∧
        next ≤ m.sentAfter sent false true) := by
  by_cases hp : m.Polls
  · rw [buildFrame_poll m hp]
    exact ⟨.inl rfl, fun h1 => absurd h1 (by simp)⟩
  · rw [buildFrame_line m hp]
    have hid := h.inv.loadLine.2
    cases hf : m.fetchNewLine with
    | true =>
      have hsent : m.sentAfter sent false true = sent + 1 := by simp [Master.sentAfter, hf, hp]
      refine ⟨.inr (loadLine_fetch m hf).1, fun h1 => ⟨?_, hp, ?_⟩⟩
      · rw [hid h1, h.expected]
      · rw [hsent]; exact h.fetched
    | false =>
      obtain ⟨htype, -, -⟩ := loadLine_resend m hf
      have hsent : m.sentAfter sent false true = sent := by simp [Master.sentAfter, hf]
      refine ⟨htype ▸ h.kept hf, fun h1 => ⟨?_, hp, ?_⟩⟩
      · rw [hid h1, h.expected]
      · rw [hsent]; exact h.keptSent hf (htype ▸ h1)

theorem sentAfter_ge (m : Master) (sent : ℕ) (ok : Bool) : sent ≤ m.sentAfter sent false ok := by
  simp only [Master.sentAfter, Bool.false_eq_true, if_false]
  split_ifs <;> omega

theorem sentAfter_ok (m : Master) (sent : ℕ) (ok : Bool) :
    m.sentAfter sent false ok = m.sentAfter sent false true := rfl

/-- An iteration without flush moves to the next line exactly when a data frame
    was sent and its acknowledgement heard. -/
theorem MasterRel.iterate {m : Master} {sent next credit : ℕ} (h : MasterRel m sent next credit)
    {got : ℕ} (hgot : next = got ∨ next = got + 1) (ok : Bool) (reply : Payload)
    (hack : reply.packetAck = BitVec.ofNat 32 got) :
    MasterRel ((m.buildFrame false).handleResponse false (if ok then some reply else none))
      (m.sentAfter sent false ok)
      (if (m.buildFrame false).txMsg.type = 1 ∧ ok ∧ got = next then next + 1 else next)
      (if ok then reply.rxFree.toNat else credit) := by
  have hinv := h.inv.iterate false (if ok then some reply else none)
  obtain ⟨htype, hdata⟩ := h.frame
  have hsent : next ≤ m.sentAfter sent false true + 1 :=
    h.fetched.trans (Nat.succ_le_succ (sentAfter_ge m sent true))
  have hexp : (m.buildFrame false).expectedAck = BitVec.ofNat 32 next := by
    rw [buildFrame_expectedAck, h.expected]
  have hslots : (m.buildFrame false).slaveFreeSlots.toNat = credit := by
    rw [buildFrame_slaveFreeSlots, h.slots]
  rw [Master.iterate] at hinv
  rw [sentAfter_ok]
  cases ok with
  | false =>
    simp only [Bool.false_eq_true, if_false, false_and, and_false] at hinv ⊢
    exact ⟨hinv, fun _ => htype, hexp, hslots, hsent, fun _ h1 => (hdata h1).2.2⟩
  | true =>
    simp only [if_true, true_and] at hinv ⊢
    rcases htype with h0 | h1
    · -- a poll, or what is left of one
      have hne : ¬ (m.buildFrame false).txMsg.type = 1 := by simp [h0]
      rw [handleResponse_poll _ reply h0] at hinv ⊢
      rw [if_neg (by tauto)]
      exact ⟨hinv, fun _ => .inl h0, hexp, rfl, hsent, fun _ h1 => absurd h1 hne⟩
    · have hne : (m.buildFrame false).txMsg.type ≠ 0 := by simp [h1]
      by_cases heq : got = next
      · subst heq
        rw [handleResponse_ack _ reply hne (hack.trans hexp.symm)] at hinv ⊢
        rw [if_pos ⟨h1, rfl⟩]
        have hnext : (m.buildFrame false).expectedAck + 1 = BitVec.ofNat 32 (got + 1) := by
          rw [hexp, ofNat_succ]
        exact ⟨hinv, fun hf => absurd hf (by simp), hnext, rfl,
          Nat.succ_le_succ (hdata h1).2.2, fun hf => absurd hf (by simp)⟩
      · have hneq : reply.packetAck ≠ (m.buildFrame false).expectedAck := by
          rw [hack, hexp, Ne, ofNat_eq_iff_of_near hgot]
          exact heq
        rw [handleResponse_nack _ reply hne hneq] at hinv ⊢
        rw [if_neg (by tauto)]
        exact ⟨hinv, fun _ => .inr h1, hexp, rfl, hsent, fun _ _ => (hdata h1).2.2⟩

/-! ## The slave's side -/

theorem rxFree_toNat {items : ℕ} (h : items ≤ queueCapacity) :
    (rxFree items).toNat = queueCapacity - items := by
  unfold rxFree queueCapacity at *
  split_ifs with hfull
  · simp; omega
  · rw [BitVec.toNat_ofNat, Nat.mod_eq_of_lt (by omega)]

/-- The slave as the receiver of the stop-and-wait link. While `flush_work_queue`
    empties the queue the receiver has already started over. -/
structure SlaveRel (r : SlaveRun) (a : StopAndWait.State) : Prop where
  order : OrderInv r
  restarted : r.slave.pc.flushing = true → a.next = 1 ∧ a.got = 0 ∧ a.queued = 0
  got : r.slave.pc.flushing = false → a.got = r.accepted.length
  queued : r.slave.pc.flushing = false → a.queued = r.slave.workQueue.items.length
  inbox : a.inbox = true ↔ ∃ cur, r.slave.pc = .accept cur
  told : r.slave.pc.ackReported = true →
    a.told = some r.slave.txMsg.rxFree.toNat ∧ r.slave.txMsg.packetAck = BitVec.ofNat 32 a.got
  silent : r.slave.pc.ackReported = false → a.told = none

theorem slaveRel_init : SlaveRel slaveRuns.init .start where
  order := orderInv_init
  restarted := by intro h; cases h
  got _ := rfl
  queued _ := rfl
  inbox := by
    constructor
    · intro h
      cases h
    · intro h
      obtain ⟨cur, hpc⟩ := h
      cases hpc
  told := by intro h; cases h
  silent _ := rfl

/-- The receiver's moves: it prepares a reply, settles a frame, or its consumer
    takes one. -/
def Internal (b : StopAndWait.Event) : Prop := b = .reply ∨ b = .settle ∨ b = .take

/-- A slave step the stop-and-wait link does not see. -/
theorem SlaveRel.frame {r : SlaveRun} {t : Slave} {a : StopAndWait.State} (h : SlaveRel r a)
    (ht : Silent r.slave t) (hord : OrderInv { r with slave := t }) :
    SlaveRel { r with slave := t } a where
  order := hord
  restarted := by rw [ht.flushing]; exact h.restarted
  got := by rw [ht.flushing]; exact h.got
  queued := by rw [ht.flushing, ht.workQueue]; exact h.queued
  inbox := h.inbox.trans (exists_congr fun cur => (ht.accept cur).symm)
  told := by rw [ht.ackReported, ht.reply.1, ht.reply.2]; exact h.told
  silent := by rw [ht.ackReported]; exact h.silent

theorem SlaveRel.inbox_eq_false {r : SlaveRun} {a : StopAndWait.State} (h : SlaveRel r a)
    (hne : ∀ cur, r.slave.pc ≠ .accept cur) : a.inbox = false := by
  rw [Bool.eq_false_iff, Ne, h.inbox]
  rintro ⟨cur, hpc⟩
  exact hne cur hpc

/-- The relation while no reply is ready and `flush_work_queue` is not running. -/
theorem SlaveRel.of_unreported {r : SlaveRun} {a : StopAndWait.State} (hord : OrderInv r)
    (hflush : r.slave.pc.flushing = false) (hack : r.slave.pc.ackReported = false)
    (hgot : a.got = r.accepted.length) (hqueued : a.queued = r.slave.workQueue.items.length)
    (hin : a.inbox = true ↔ ∃ cur, r.slave.pc = .accept cur) (htold : a.told = none) :
    SlaveRel r a where
  order := hord
  restarted hyes := absurd (hflush.symm.trans hyes) Bool.false_ne_true
  got _ := hgot
  queued _ := hqueued
  inbox := hin
  told hyes := absurd (hack.symm.trans hyes) Bool.false_ne_true
  silent _ := htold

/-- The relation while `flush_work_queue` empties the queue. -/
theorem SlaveRel.of_flushing {r : SlaveRun} {a : StopAndWait.State} (hord : OrderInv r)
    (hflush : r.slave.pc.flushing = true) (hack : r.slave.pc.ackReported = false)
    (hrestarted : a.next = 1 ∧ a.got = 0 ∧ a.queued = 0) (hin : a.inbox = false)
    (htold : a.told = none) : SlaveRel r a where
  order := hord
  restarted _ := hrestarted
  got hno := absurd (hflush.symm.trans hno) Bool.false_ne_true.symm
  queued hno := absurd (hflush.symm.trans hno) Bool.false_ne_true.symm
  inbox := by
    rw [hin]
    constructor
    · intro h
      cases h
    · rintro ⟨cur, hpc⟩
      rw [hpc] at hflush
      cases hflush
  told hyes := absurd (hack.symm.trans hyes) Bool.false_ne_true
  silent _ := htold

/-- While a frame waits for the queue no reply is ready. -/
theorem SlaveRel.waiting {r : SlaveRun} {a : StopAndWait.State} {cur : Buf} (h : SlaveRel r a)
    (hpc : r.slave.pc = .accept cur) :
    a.inbox = true ∧ a.got = r.accepted.length ∧ a.queued = r.slave.workQueue.items.length ∧
      a.told = none := by
  have hflush : r.slave.pc.flushing = false := by rw [hpc]; rfl
  have hack : r.slave.pc.ackReported = false := by rw [hpc]; rfl
  exact ⟨h.inbox.2 ⟨cur, hpc⟩, h.got hflush, h.queued hflush, h.silent hack⟩

/-- The receiver makes a move of its own to a state related to `r'`. -/
def FollowedBy (a : StopAndWait.State) (r' : SlaveRun) : Prop :=
  ∃ b a', Internal b ∧ StopAndWait.step queueCapacity a b = some a' ∧
    a'.next = a.next ∧ a'.credit = a.credit ∧ SlaveRel r' a'

/-- The reply names the last accepted frame and the free places. -/
theorem SlaveRel.report {r : SlaveRun} {a : StopAndWait.State} (h : SlaveRel r a)
    (hpc : r.slave.pc = .report) {r' : SlaveRun} (hord : OrderInv r')
    (hr' : r' = { r with slave := { r.slave with
      pc := .reportDone
      txMsg := { r.slave.txMsg with rxFree := rxFree r.slave.workQueue.items.length,
                                    packetAck := r.slave.lastReceivedId } } }) :
    FollowedBy a r' := by
  subst hr'
  have hin := h.inbox_eq_false (by simp [hpc])
  have hflush : r.slave.pc.flushing = false := by rw [hpc]; rfl
  have hgot := h.got hflush
  have hqueued := h.queued hflush
  have hfree : (rxFree r.slave.workQueue.items.length).toNat = queueCapacity - a.queued := by
    rw [rxFree_toNat r.slave.workQueue.length_le, hqueued]
  have hlast : r.slave.lastReceivedId = BitVec.ofNat 32 a.got := by
    rw [hgot]; exact h.order.last
  refine ⟨.reply, { a with told := some (queueCapacity - a.queued) }, .inl rfl, ?_, rfl, rfl, {
    order := hord
    restarted := by intro h; cases h
    got := fun _ => hgot
    queued := fun _ => hqueued
    inbox := by simp [hin]
    told := fun _ => ⟨by rw [← hfree], hlast⟩
    silent := by intro h; cases h }⟩
  simp [StopAndWait.step, hin]

/-- The frame goes to the queue. -/
theorem SlaveRel.accept {r : SlaveRun} {a : StopAndWait.State} (h : SlaveRel r a) {cur : Buf}
    {q : BoundedQueue Buf queueCapacity} (hpc : r.slave.pc = .accept cur)
    (hq : q.items = r.slave.workQueue.items ++ [cur])
    {r' : SlaveRun} (hord : OrderInv r') (hr' : r' = { r with
      slave := { r.slave with
        pc := .report, workQueue := q, lastReceivedId := (r.slave.rxPool cur).id }
      accepted := r.accepted ++ [r.slave.rxPool cur] }) : FollowedBy a r' := by
  subst hr'
  obtain ⟨hin, hgot, hqueued, htold⟩ := h.waiting hpc
  have hroom : r.slave.workQueue.items.length < queueCapacity := by
    simpa [hq, Nat.succ_le_iff] using q.length_le
  refine ⟨.settle, { a with got := a.got + 1, queued := a.queued + 1, inbox := false },
    .inr (.inl rfl), ?_, rfl, rfl, .of_unreported hord rfl rfl ?_ ?_ (by simp) htold⟩
  · simp [StopAndWait.step, hin, hqueued, hroom]
  · simp [hgot]
  · simp [hq, hqueued]

/-- The queue is full: the frame is dropped. -/
theorem SlaveRel.acceptFull {r : SlaveRun} {a : StopAndWait.State} (h : SlaveRel r a) {cur : Buf}
    (hpc : r.slave.pc = .accept cur) (hq : r.slave.workQueue.items.length = queueCapacity)
    {r' : SlaveRun} (hord : OrderInv r')
    (hr' : r' = { r with slave := { r.slave with pc := .release cur } }) : FollowedBy a r' := by
  subst hr'
  obtain ⟨hin, hgot, hqueued, htold⟩ := h.waiting hpc
  refine ⟨.settle, { a with inbox := false }, .inr (.inl rfl), ?_, rfl, rfl,
    .of_unreported hord rfl rfl hgot hqueued (by simp) htold⟩
  simp [StopAndWait.step, hin, hqueued, hq]

/-- The consumer takes a frame: a move of the receiver, unless `flush_work_queue`
    is emptying the queue. -/
theorem SlaveRel.receive {r : SlaveRun} {a : StopAndWait.State} (h : SlaveRel r a) {payload : Buf}
    {q : BoundedQueue Buf queueCapacity} (hq : r.slave.workQueue.items = payload :: q.items)
    {r' : SlaveRun} (hord : OrderInv r') (hr' : r' = { r with
      slave := { r.slave with workQueue := q, consumer := .holding payload }
      removed := r.removed ++ [r.slave.rxPool payload]
      received := r.received ++ [r.slave.rxPool payload]
      inHand := some (r.slave.rxPool payload) }) :
    SlaveRel r' a ∨ FollowedBy a r' := by
  subst hr'
  cases hflush : r.slave.pc.flushing with
  | false =>
    right
    have hqueued : a.queued = q.items.length + 1 := by rw [h.queued hflush, hq]; rfl
    refine ⟨.take, { a with queued := a.queued - 1 }, .inr (.inr rfl), ?_, rfl, rfl, hord,
      ?_, h.got, fun _ => ?_, h.inbox, h.told, h.silent⟩
    · simp [StopAndWait.step, hqueued]
    · intro hf
      rw [hflush] at hf
      cases hf
    · simp [hqueued]
  | true =>
    left
    have hno : ¬ r.slave.pc.flushing = false := by simp [hflush]
    exact ⟨hord, h.restarted, fun hf => absurd hf hno, fun hf => absurd hf hno, h.inbox, h.told,
      h.silent⟩

/-- Every step of the slave or its consumer outside a transaction is a move of
    the receiver, or does not show. -/
theorem SlaveRel.internal {r r' : SlaveRun} {a : StopAndWait.State} {e : SlaveEvent}
    (h : SlaveRel r a) (hst : r.step e = some r') (he : ∀ ok frame, e ≠ .transmit ok frame) :
    SlaveRel r' a ∨ FollowedBy a r' := by
  have hord := h.order.step hst
  cases effect_of_step hst with
  | silent ht he => exact .inl (h.frame ht hord)
  | report hpc => exact .inr (h.report hpc hord rfl)
  | transmitted ok frame hpc => exact absurd rfl (he ok frame)
  | accept hpc hq => exact .inr (h.accept hpc hq hord rfl)
  | acceptFull hpc hq => exact .inr (h.acceptFull hpc hq hord rfl)
  | flushReceive hpc hq =>
    left
    have hin := h.inbox_eq_false (by simp [hpc])
    have hrestarted := h.restarted (by rw [hpc]; rfl)
    exact .of_flushing hord rfl rfl hrestarted hin (h.silent (by rw [hpc]; rfl))
  | flushEmpty hpc hq =>
    left
    have hin := h.inbox_eq_false (by simp [hpc])
    obtain ⟨-, hgot, hqueued⟩ := h.restarted (by rw [hpc]; rfl)
    refine .of_unreported hord rfl rfl hgot ?_ (by simp [hin]) (h.silent (by rw [hpc]; rfl))
    rw [hq, hqueued]
    rfl
  | receive hc hq => exact h.receive hq hord rfl

/-- The reply that is ready when a transaction takes place. -/
theorem SlaveRel.reply {r r' : SlaveRun} {a : StopAndWait.State} {ok : Bool} {frame : Payload}
    (h : SlaveRel r a) (hst : r.step (.transmit ok frame) = some r') :
    a.told = some r.slave.txMsg.rxFree.toNat ∧
      r.slave.txMsg.packetAck = BitVec.ofNat 32 a.got := by
  have hready : r.slave.pc.ackReported = true := by
    cases effect_of_step hst with
    | silent ht he => exact absurd rfl (he ok frame)
    | transmitted _ _ hpc => rw [hpc]; rfl
  exact h.told hready

/-- Where a received frame goes that is no flush. -/
theorem handle_of_not_flush (s : Slave) (cur : Buf) {ok : Bool} {frame : Payload}
    (h : ok = true → frame.type ≠ 2) : s.handle cur ok frame =
      if ok = true ∧ frame.type = 1 ∧ frame.id = s.lastReceivedId + 1 then .accept cur
      else .release cur := by
  cases ok with
  | false => simp [Slave.handle]
  | true =>
    have hne := h rfl
    unfold Slave.handle
    rw [if_pos rfl, if_neg hne]
    simp only [true_and]

/-- A transaction with a frame that is no flush: an in-order data frame waits for
    the queue, anything else goes back to the pool. -/
theorem SlaveRel.exchange {r r' : SlaveRun} {a : StopAndWait.State} {ok : Bool} {frame : Payload}
    (h : SlaveRel r a) (ha : a.next = a.got ∨ a.next = a.got + 1)
    (hst : r.step (.transmit ok frame) = some r') (hflush : ok = true → frame.type ≠ 2)
    (hid : ok = true → frame.type = 1 → frame.id = BitVec.ofNat 32 a.next)
    {a' : StopAndWait.State} (hgot : a'.got = a.got) (hqueued : a'.queued = a.queued)
    (htold : a'.told = none)
    (hin : a'.inbox = (decide (frame.type = 1) && ok && decide (a.next = a.got + 1))) :
    SlaveRel r' a' := by
  have hord := h.order.step hst
  cases effect_of_step hst with
  | silent ht he => exact absurd rfl (he ok frame)
  | @transmitted cur _ _ hpc =>
    have hnf : r.slave.pc.flushing = false := by rw [hpc]; rfl
    have hlast : r.slave.lastReceivedId + 1 = BitVec.ofNat 32 (a.got + 1) := by
      rw [h.order.last, h.got hnf, ofNat_succ]
    have hinorder : a'.inbox = true ↔
        ok = true ∧ frame.type = 1 ∧ frame.id = r.slave.lastReceivedId + 1 := by
      rw [hin, hlast]
      simp only [Bool.and_eq_true, decide_eq_true_eq]
      constructor
      · rintro ⟨⟨htype, hok⟩, hnext⟩
        exact ⟨hok, htype, by rw [hid hok htype, hnext]⟩
      · rintro ⟨hok, htype, heq⟩
        rw [hid hok htype, ofNat_eq_iff_of_near (by omega)] at heq
        exact ⟨⟨htype, hok⟩, heq⟩
    have hhandle := handle_of_not_flush r.slave cur hflush
    have hgot' : a'.got = r.accepted.length := by rw [hgot]; exact h.got hnf
    have hqueued' : a'.queued = r.slave.workQueue.items.length := by
      rw [hqueued]; exact h.queued hnf
    cases hb : a'.inbox with
    | true =>
      rw [if_pos (hinorder.1 hb)] at hhandle
      rw [hhandle] at hord ⊢
      exact .of_unreported hord rfl rfl hgot' hqueued' (iff_of_true hb ⟨cur, rfl⟩) htold
    | false =>
      have hno : ¬ a'.inbox = true := by simp [hb]
      rw [if_neg fun hyes => hno (hinorder.2 hyes)] at hhandle
      rw [hhandle] at hord ⊢
      exact .of_unreported hord rfl rfl hgot' hqueued' (by simp [hb]) htold

/-- A flush that arrives: the receiver starts over. -/
theorem SlaveRel.flush {r r' : SlaveRun} {a : StopAndWait.State} {frame : Payload}
    (h : SlaveRel r a) (hst : r.step (.transmit true frame) = some r') (htype : frame.type = 2)
    (credit : ℕ) : SlaveRel r' { StopAndWait.State.start with credit := credit } := by
  have hord := h.order.step hst
  cases effect_of_step hst with
  | silent ht he => exact absurd rfl (he true frame)
  | @transmitted cur _ _ hpc =>
    have hhandle : r.slave.handle cur true frame = .flushReceive cur := by
      simp [Slave.handle, htype]
    rw [hhandle] at hord ⊢
    exact .of_flushing hord rfl rfl ⟨rfl, rfl, rfl⟩ rfl rfl

/-! ## Refinement -/

/-- The link as a stop-and-wait link. -/
structure Refines (l : Link) (a : StopAndWait.State) : Prop where
  master : MasterRel l.master l.sent a.next a.credit
  slave : SlaveRel l.slave a

theorem refines_init (stream : ℕ → Data) : Refines (spiLink stream).init .start :=
  ⟨masterRel_start stream, slaveRel_init⟩

/-- A data frame is only sent as line 1 or with credit, while the numbers have not
    wrapped around. -/
theorem MasterRel.disciplined {m : Master} {sent : ℕ} {a : StopAndWait.State}
    (h : MasterRel m sent a.next a.credit) (ok : Bool)
    (hfew : m.sentAfter sent false ok < 2 ^ 32 - 1) (heard arrived : Bool) (a' : StopAndWait.State) :
    StopAndWait.Disciplined a
      (.exchange (decide ((m.buildFrame false).txMsg.type = 1)) heard arrived) a' := by
  by_cases hdata : (m.buildFrame false).txMsg.type = 1
  · obtain ⟨-, hpoll, hle⟩ := h.frame.2 hdata
    rw [sentAfter_ok] at hfew
    simp only [hdata, decide_true, StopAndWait.Disciplined]
    by_contra hno
    push Not at hno
    apply hpoll
    constructor
    · have hslots := h.slots
      rw [BitVec.toNat_eq]
      simp; omega
    · have hexp := congrArg BitVec.toNat h.expected
      rw [BitVec.toNat_ofNat, Nat.mod_eq_of_lt (by omega)] at hexp
      rw [gt_iff_lt, BitVec.lt_def, hexp]
      simp; omega
  · simp only [hdata, decide_false, StopAndWait.Disciplined]

/-- A transaction without flush is an exchange of the stop-and-wait link. -/
theorem Refines.exchange {l l' : Link} {a : StopAndWait.State} (h : Refines l a)
    (ha : StopAndWait.Agree a) {masterOk slaveOk : Bool} {garbage : Payload}
    (hst : l.step (.exchange false masterOk slaveOk garbage) = some l') :
    ∃ a', StopAndWait.step queueCapacity a (.exchange
        (decide ((l.master.buildFrame false).txMsg.type = 1)) masterOk slaveOk) = some a' ∧
      Refines l' a' := by
  obtain ⟨r, hr, rfl⟩ := Option.map_eq_some_iff.1 hst
  obtain ⟨htype, hdata⟩ := h.master.frame
  obtain ⟨htold, hack⟩ := h.slave.reply hr
  have hmaster := h.master.iterate ha.next masterOk l.slave.slave.txMsg hack
  refine ⟨_, by simp [StopAndWait.step, htold]; rfl, ?_, ?_⟩
  · simpa using hmaster
  · refine h.slave.exchange ha.next hr (fun hok => ?_) (fun hok h1 => ?_) rfl rfl rfl ?_
    · rw [if_pos hok]
      rcases htype with h0 | h1
      · simp [h0]
      · simp [h1]
    · rw [if_pos hok] at h1 ⊢
      exact (hdata h1).1
    · cases slaveOk <;> simp

/-- An iteration of the master whose transaction never happens. -/
theorem Refines.masterFails {l : Link} {a : StopAndWait.State} (h : Refines l a)
    (ha : StopAndWait.Agree a) : Refines { l with
      master := l.master.iterate false none
      sent := l.master.sentAfter l.sent false false } a := by
  have hmaster := h.master.iterate ha.next false { Payload.zero with
    packetAck := BitVec.ofNat 32 a.got } rfl
  exact ⟨by simpa [Master.iterate] using hmaster, h.slave⟩

/-- A flush that succeeds at both ends. -/
theorem Refines.flush {l l' : Link} {a : StopAndWait.State} {garbage : Payload} (h : Refines l a)
    (hst : l.step (.exchange true true true garbage) = some l') :
    Refines l' { StopAndWait.State.start with credit := a.credit } := by
  obtain ⟨r, hr, rfl⟩ := Option.map_eq_some_iff.1 hst
  have htype : (l.master.buildFrame true).txMsg.type = 2 := rfl
  refine ⟨⟨?_, fun hf => ?_, rfl, ?_, ?_, fun hf => ?_⟩, h.slave.flush hr htype a.credit⟩
  · exact h.master.inv.iterate true (some l.slave.slave.txMsg)
  · cases hf
  · exact h.master.slots
  · exact Nat.le_add_left 1 _
  · cases hf

/-- Every step of the link with successful flushes is a step of the stop-and-wait
    link or does not show there; the step is disciplined as long as the line
    numbers have not wrapped around. -/
theorem Refines.step {l l' : Link} {e : LinkEvent} {a : StopAndWait.State} (h : Refines l a)
    (ha : StopAndWait.Agree a) (hst : l.step e = some l') (hP : FlushesSucceed l e l') :
    Refines l' a ∨ ∃ b a', StopAndWait.step queueCapacity a b = some a' ∧
      (FewLines l e l' → StopAndWait.Disciplined a b a') ∧ Refines l' a' := by
  cases e with
  | exchange flush masterOk slaveOk garbage =>
    right
    cases flush with
    | true =>
      obtain ⟨rfl, rfl⟩ := hP rfl
      exact ⟨.restart, _, rfl, fun _ => trivial, h.flush hst⟩
    | false =>
      obtain ⟨a', ha', hl'⟩ := h.exchange ha hst
      refine ⟨_, a', ha', fun hfew => ?_, hl'⟩
      obtain ⟨r, -, rfl⟩ := Option.map_eq_some_iff.1 hst
      exact h.master.disciplined masterOk hfew _ _ _
  | masterFails flush =>
    obtain rfl : flush = false := hP
    cases hst
    exact .inl (h.masterFails ha)
  | slave e =>
    cases e with
    | transmit ok frame =>
      right
      cases ok with
      | true => cases hst
      | false =>
        obtain ⟨r, hr, rfl⟩ := Option.map_eq_some_iff.1 hst
        obtain ⟨htold, -⟩ := h.slave.reply hr
        refine ⟨.exchange false false false, { a with told := none, inbox := false }, ?_,
          fun _ => trivial, ?_, ?_⟩
        · simp [StopAndWait.step, htold]
        · exact h.master
        · exact h.slave.exchange ha.next hr (by intro h; cases h) (by intro h; cases h)
            rfl rfl rfl (by simp)
    | task | receive | acknowledge | acknowledgeSend =>
      obtain ⟨r, hr, rfl⟩ := Option.map_eq_some_iff.1 hst
      rcases h.slave.internal hr (by simp) with hs | ⟨b, a', hb, hstep, hnext, hcredit, hs⟩
      · exact .inl ⟨h.master, hs⟩
      · refine .inr ⟨b, a', hstep, fun _ => ?_, ?_, hs⟩
        · rcases hb with rfl | rfl | rfl <;> trivial
        · rw [hnext, hcredit]; exact h.master

/-- The link refines the stop-and-wait link, whose sender is disciplined as long
    as the line numbers have not wrapped around. -/
def spiLink_sim (stream : ℕ → Data) : Machine.Simulation (spiLink stream) LinkAssumptions
    (StopAndWait.link queueCapacity) StopAndWait.Disciplined where
  rel := Refines
  init := refines_init stream
  step := by
    rintro l e l' a - ha h hst hP
    rcases h.step (StopAndWait.agree_reachable ha) hst hP.1 with h' | ⟨b, a', hb, hd, h'⟩
    · exact .inl h'
    · exact .inr ⟨b, a', hb, hd hP.2, h'⟩

theorem sent_lt {stream : ℕ → Data} {l : Link}
    (h : (spiLink stream).ReachableBy LinkAssumptions l) : l.sent < 2 ^ 32 - 1 :=
  h.invariant (I := fun l : Link => l.sent < 2 ^ 32 - 1) (Nat.succ_pos _) fun _ _ _ _ _ _ hP => hP.2

/-! ## Agreement -/

/-- Whatever transactions fail at either end (flushes apart), `last_received_id` is
    `expected_ack - 1` or `expected_ack` whenever the slave is not inside
    `flush_work_queue`, in particular while it waits for the next transaction;
    and `expected_ack` passes `n` only after frame `n` was put into `work_queue`. -/
theorem link_agreement {stream : ℕ → Data} {l : Link}
    (h : (spiLink stream).ReachableBy LinkAssumptions l) :
    (l.slave.slave.pc.flushing = false →
      l.slave.slave.lastReceivedId = l.master.expectedAck - 1 ∨
        l.slave.slave.lastReceivedId = l.master.expectedAck) ∧
    (∀ n, 1 ≤ n → n < l.master.expectedAck.toNat →
      BitVec.ofNat 32 n ∈ l.slave.accepted.map Payload.id) := by
  obtain ⟨a, ha, hm, hs⟩ := (spiLink_sim stream).reachable h
  have hnext := (StopAndWait.agree_reachable ha).next
  refine ⟨fun hflush => ?_, fun n hn hlt => ?_⟩
  · have hlast : l.slave.slave.lastReceivedId = BitVec.ofNat 32 a.got := by
      rw [hs.order.last, hs.got hflush]
    rw [hlast, hm.expected]
    rcases hnext with heq | heq
    · right
      rw [heq]
    · left
      rw [heq, ← ofNat_succ, BitVec.add_sub_cancel]
  · have hfew := sent_lt h
    have hfetched := hm.fetched
    rw [hm.expected, BitVec.toNat_ofNat, Nat.mod_eq_of_lt (by omega)] at hlt
    have hnf : l.slave.slave.pc.flushing = false := by
      by_contra hf
      have := (hs.restarted (by simpa using hf)).1
      omega
    have hgot := hs.got hnf
    have hlen : l.slave.accepted.length < 2 ^ 32 := by omega
    rw [hs.order.ids, mem_seqIds hlen, BitVec.toNat_ofNat, Nat.mod_eq_of_lt (by omega)]
    omega

/-- The first line is sent, accepted, sent again and acknowledged. -/
def firstLine : List LinkEvent :=
  [.slave .task, .slave .task, .slave .task, .exchange false true true Payload.zero, .slave .task,
    .slave .task, .slave .task, .slave .task, .exchange false true true Payload.zero]

theorem link_agreement_firstLine :
    ∃ l, (spiLink fun _ => Data.zero).run (spiLink fun _ => Data.zero).init firstLine = some l ∧
      l.master.expectedAck = 2 ∧ BitVec.ofNat 32 1 ∈ l.slave.accepted.map Payload.id := by
  obtain ⟨l, hrun, hl, hack⟩ := (spiLink fun _ => Data.zero).exists_reachableBy LinkAssumptions
    firstLine (fun l => l.master.expectedAck) (v := 2) (by decide +kernel) (by decide +kernel)
  refine ⟨l, hrun, hack, (link_agreement hl).2 1 le_rfl ?_⟩
  rw [hack]
  decide

/-- A second line is accepted, then the queue is flushed: the slave is inside
    `flush_work_queue`. -/
def twoLinesFlushed : List LinkEvent :=
  firstLine ++ [.slave .task, .slave .task, .slave .task, .slave .task,
    .exchange false true true Payload.zero, .slave .task, .slave .task, .slave .task,
    .slave .task, .exchange true true true Payload.zero]

/-- Between the flush transaction and the next one, which the master begins before
    the slave has emptied its queue and so fails, `last_received_id` is 2 and
    `expected_ack` is 1. -/
theorem link_disagrees_in_flush :
    ¬ ∀ (stream : ℕ → Data) (l l' : Link) (flush : Bool),
      (spiLink stream).ReachableBy LinkAssumptions l → l.step (.masterFails flush) = some l' →
      LinkAssumptions l (.masterFails flush) l' →
        l.slave.slave.lastReceivedId = l.master.expectedAck - 1 ∨
          l.slave.slave.lastReceivedId = l.master.expectedAck := by
  intro h
  obtain ⟨l, -, hl, hv⟩ := (spiLink fun _ => Data.zero).exists_reachableBy LinkAssumptions
    twoLinesFlushed (fun l => (l.slave.slave.lastReceivedId, l.master.expectedAck, l.sent))
    (v := (2, 1, 0)) (by decide +kernel) (by decide +kernel)
  simp only [Prod.mk.injEq] at hv
  obtain ⟨hlast, hexpected, hsent⟩ := hv
  have hfew : l.master.sentAfter l.sent false false < 2 ^ 32 - 1 := by
    unfold Master.sentAfter
    rw [hsent]
    split_ifs <;> decide
  have hagree := h _ l _ false hl rfl ⟨rfl, hfew⟩
  rw [hlast, hexpected] at hagree
  exact absurd hagree (by decide)

/-! ## Flow control -/

/-- An in-order data frame that arrived finds room in `work_queue`, whatever
    transactions fail and however slow the consumer is. -/
theorem link_room {stream : ℕ → Data} {l : Link}
    (h : (spiLink stream).ReachableBy LinkAssumptions l) {cur : Buf}
    (hpc : l.slave.slave.pc = .accept cur) : l.slave.slave.workQueue.send cur ≠ none := by
  obtain ⟨a, ha, hm, hs⟩ := (spiLink_sim stream).reachable h
  have hroom := StopAndWait.room_of_inbox (by decide) ha (hs.inbox.2 ⟨cur, hpc⟩)
  rw [hs.queued (by simp [hpc, SlavePc.flushing])] at hroom
  intro hfull
  rw [BoundedQueue.send_eq_none] at hfull
  omega

/-- The first line has just arrived. -/
theorem link_room_firstLine :
    ∃ l, (spiLink fun _ => Data.zero).run (spiLink fun _ => Data.zero).init (firstLine.take 4) =
      some l ∧ l.slave.slave.workQueue.send ⟨0, by decide⟩ ≠ none := by
  obtain ⟨l, hrun, hl, hpc⟩ := (spiLink fun _ => Data.zero).exists_reachableBy LinkAssumptions
    (firstLine.take 4) (fun l => l.slave.slave.pc) (v := .accept ⟨0, by decide⟩)
    (by decide +kernel) (by decide +kernel)
  exact ⟨l, hrun, link_room hl hpc⟩

end Esp32Embroidery.Spi
