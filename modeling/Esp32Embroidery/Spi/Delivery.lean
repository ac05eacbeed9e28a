import Esp32Embroidery.Spi.Link

/-!
# End-to-end delivery of lines over the SPI link

Without flushes and failures, the payloads put into `work_queue` should be the
first lines the master read with `nextLine`. The master breaks this itself: an
iteration that starts with `fetch_new_line` set while it knows of no free slot
reads a line, overwrites it with the poll, and reads the line after it in the
next iteration.

Results:
* `Delivered.step`: what master, slave and line source agree on.
* `delivery_in_order`: as long as the master never polls when a new line is due,
  the accepted payloads are a prefix of the lines read.
* `delivery_skips_line`: a poll at the wrong time loses a line.
-/

namespace Esp32Embroidery.Spi

open Esp32Embroidery.Lib

/-! ## Runs without failures -/

/-- No flush is due and every transaction succeeds at both ends. -/
def AllSucceed (_ : Link) (e : LinkEvent) (_ : Link) : Prop :=
  match e with
  | .exchange flush masterOk slaveOk _ => flush = false ∧ masterOk = true ∧ slaveOk = true
  | .masterFails _ => False
  | .slave (.transmit _ _) => False
  | .slave _ => True

instance : ∀ (l : Link) (e : LinkEvent) (l' : Link), Decidable (AllSucceed l e l')
  | _, .exchange flush masterOk slaveOk _, _ =>
    inferInstanceAs (Decidable (flush = false ∧ masterOk = true ∧ slaveOk = true))
  | _, .masterFails _, _ => .isFalse id
  | _, .slave e, _ => match e with
    | .transmit _ _ => .isFalse id
    | .task | .receive | .acknowledge | .acknowledgeSend => .isTrue trivial

/-- The master does not poll in an iteration that fetches a line. -/
def Master.SendsFetched (m : Master) : Prop := m.fetchNewLine = true → ¬ m.Polls

instance (m : Master) : Decidable m.SendsFetched :=
  inferInstanceAs (Decidable (m.fetchNewLine = true → ¬ m.Polls))

/-- Every line the master fetches in the step is sent in it. -/
def FetchedIsSent (l : Link) (e : LinkEvent) (_ : Link) : Prop :=
  match e with
  | .slave _ => True
  | _ => l.master.SendsFetched

instance : ∀ (l : Link) (e : LinkEvent) (l' : Link), Decidable (FetchedIsSent l e l')
  | _, .slave _, _ => .isTrue trivial
  | l, .exchange _ _ _ _, _ => inferInstanceAs (Decidable l.master.SendsFetched)
  | l, .masterFails _, _ => inferInstanceAs (Decidable l.master.SendsFetched)

/-- The steps of a run without failures in which no fetched line is lost. -/
def Lossless (l : Link) (e : LinkEvent) (l' : Link) : Prop :=
  AllSucceed l e l' ∧ FetchedIsSent l e l'

instance (l : Link) (e : LinkEvent) (l' : Link) : Decidable (Lossless l e l') :=
  inferInstanceAs (Decidable (AllSucceed l e l' ∧ FetchedIsSent l e l'))

/-! ## Counting lines -/

/-- The number of the line the master delivers. -/
def Master.lineNo (m : Master) : ℕ :=
  if m.fetchNewLine then m.source.calls + 1 else m.source.calls

/-- After an iteration that sends what it fetched, the master works on the next
    line exactly when its data frame was acknowledged. -/
theorem lineNo_iterate {m : Master} (hm : m.SendsFetched) (reply : Payload) :
    ((m.buildFrame false).handleResponse false (some reply)).lineNo =
      if (m.buildFrame false).txMsg.type ≠ 0 ∧ reply.packetAck = m.expectedAck then m.lineNo + 1
      else m.lineNo := by
  have hexp := buildFrame_expectedAck m false
  have hcalls : (m.buildFrame false).source.calls = m.lineNo := by
    cases hf : m.fetchNewLine with
    | true =>
      rw [buildFrame_line m (hm hf), (loadLine_fetch m hf).2.2]
      simp [Master.lineNo, hf, LineSource.nextLine]
    | false =>
      have hsrc := (loadLine_resend m hf).2.2
      by_cases hp : m.Polls
      · simp [buildFrame_poll m hp, Master.lineNo, hf, hsrc]
      · simp [buildFrame_line m hp, Master.lineNo, hf, hsrc]
  by_cases htype : (m.buildFrame false).txMsg.type = 0
  · -- a poll, or what is left of one, is only sent when no line is due
    have hfetch : (m.buildFrame false).fetchNewLine = false := by
      cases hf : m.fetchNewLine with
      | true =>
        rw [buildFrame_line m (hm hf), (loadLine_fetch m hf).1] at htype
        exact absurd htype (by decide)
      | false =>
        by_cases hp : m.Polls
        · simp [buildFrame_poll m hp, hf]
        · simp [buildFrame_line m hp, hf]
    rw [handleResponse_poll _ reply htype, if_neg (by tauto)]
    simp [Master.lineNo, hfetch] at hcalls ⊢
    exact hcalls
  · by_cases hack : reply.packetAck = m.expectedAck
    · rw [handleResponse_ack _ reply htype (hack.trans hexp.symm), if_pos ⟨htype, hack⟩]
      simp [Master.lineNo] at hcalls ⊢
      exact hcalls
    · rw [handleResponse_nack _ reply htype (by rwa [hexp]), if_neg (by tauto)]
      simp [Master.lineNo] at hcalls ⊢
      exact hcalls

/-! ## Invariant -/

/-- The accepted payloads are the first lines of the stream, the master has read
    one line for each frame it has worked on, and an in-order frame that waits
    for the queue carries the next line. -/
structure Delivered (stream : ℕ → Data) (l : Link) (a : StopAndWait.State) : Prop where
  source : l.master.source.stream = stream
  lineNo : l.master.lineNo = a.next
  read : l.slave.accepted.length ≤ l.master.source.calls
  accepted : l.slave.accepted.map Payload.data = (List.range l.slave.accepted.length).map stream
  waiting : ∀ cur, l.slave.slave.pc = .accept cur → l.master.fetchNewLine = false ∧
    (l.slave.slave.rxPool cur).data = stream l.slave.accepted.length

theorem delivered_init (stream : ℕ → Data) : Delivered stream (spiLink stream).init .start where
  source := rfl
  lineNo := rfl
  read := le_rfl
  accepted := rfl
  waiting := by intro _ h; cases h

/-- What a step of the slave outside a transaction does to the accepted frames. -/
theorem accepted_of_step {r r' : SlaveRun} {e : SlaveEvent} (hst : r.step e = some r')
    (he : ∀ ok frame, e ≠ .transmit ok frame) :
    (r'.accepted = r.accepted ∧ ∀ cur, r'.slave.pc = .accept cur →
      r.slave.pc = .accept cur ∧ r'.slave.rxPool cur = r.slave.rxPool cur) ∨
    (∃ cur, r.slave.pc = .accept cur ∧ r'.accepted = r.accepted ++ [r.slave.rxPool cur] ∧
      r'.slave.pc = .report) ∨
    (r'.accepted = [] ∧ ∀ cur, r'.slave.pc ≠ .accept cur) := by
  cases effect_of_step hst with
  | silent ht _ => exact .inl ⟨rfl, fun cur hpc => ⟨(ht.accept cur).1 hpc, by rw [ht.rxPool]⟩⟩
  | report hpc => exact .inl ⟨rfl, (by intro _ h; cases h)⟩
  | transmitted ok frame hpc => exact absurd rfl (he ok frame)
  | @accept cur q hpc hq => exact .inr (.inl ⟨cur, hpc, rfl, rfl⟩)
  | acceptFull hpc hq => exact .inl ⟨rfl, (by intro _ h; cases h)⟩
  | flushReceive hpc hq => exact .inl ⟨rfl, (by intro _ h; cases h)⟩
  | flushEmpty hpc hq => exact .inr (.inr ⟨rfl, (by intro _ h; cases h)⟩)
  | receive hc hq => exact .inl ⟨rfl, fun _ hpc => ⟨hpc, rfl⟩⟩

/-- A step of the slave or its consumer. -/
theorem Delivered.internal {stream : ℕ → Data} {l : Link} {a a' : StopAndWait.State}
    {r' : SlaveRun} {e : SlaveEvent} (h : Delivered stream l a) (hr : Refines l a)
    (ha : StopAndWait.Agree a) (hst : l.slave.step e = some r')
    (he : ∀ ok frame, e ≠ .transmit ok frame) (hnext : a'.next = a.next) :
    Delivered stream { l with slave := r' } a' := by
  rcases accepted_of_step hst he with ⟨hacc, hwait⟩ | ⟨cur, hpc, hacc, hreport⟩ | ⟨hacc, hwait⟩
  · refine ⟨h.source, hnext ▸ h.lineNo, ?_, ?_, fun cur hpc => ?_⟩
    · simpa [hacc] using h.read
    · simpa [hacc] using h.accepted
    · obtain ⟨hpc0, hpool⟩ := hwait cur hpc
      simpa [hacc, hpool] using h.waiting cur hpc0
  · -- the waiting frame carries line number `accepted.length`, which has been read
    obtain ⟨hfetch, hdata⟩ := h.waiting cur hpc
    have hgot := hr.slave.got (by simp [hpc, SlavePc.flushing])
    have hnum := (ha.inbox (hr.slave.inbox.2 ⟨cur, hpc⟩)).1
    have hcalls : l.master.source.calls = a.next := by
      rw [← h.lineNo, Master.lineNo, hfetch]
      rfl
    refine ⟨h.source, hnext ▸ h.lineNo, ?_, ?_, fun c hc => ?_⟩
    · simp only [hacc, List.length_append, List.length_singleton]
      omega
    · simp [hacc, h.accepted, hdata, List.range_succ]
    · rw [hreport] at hc
      cases hc
  · refine ⟨h.source, hnext ▸ h.lineNo, ?_, ?_, fun cur hpc => absurd hpc (hwait cur)⟩
    · simp [hacc]
    · simp [hacc]

theorem buildFrame_source (m : Master) :
    (m.buildFrame false).source.stream = m.source.stream ∧
      m.source.calls ≤ (m.buildFrame false).source.calls := by
  have hsrc : (m.buildFrame false).source = m.loadLine.source := by
    by_cases hp : m.Polls
    · rw [buildFrame_poll m hp]
    · rw [buildFrame_line m hp]
  rw [hsrc]
  cases hf : m.fetchNewLine with
  | true =>
    rw [(loadLine_fetch m hf).2.2]
    exact ⟨rfl, Nat.le_succ _⟩
  | false =>
    rw [(loadLine_resend m hf).2.2]
    exact ⟨rfl, le_rfl⟩

/-- A frame that now waits for the queue has just been received. -/
theorem accept_of_transmit {r r' : SlaveRun} {ok : Bool} {frame : Payload} {cur : Buf}
    (hst : r.step (.transmit ok frame) = some r') (hpc : r'.slave.pc = .accept cur) :
    r'.slave.rxPool cur = frame := by
  cases effect_of_step hst with
  | silent _ he => exact absurd rfl (he ok frame)
  | @transmitted c _ _ _ =>
    simp only [Slave.handle] at hpc
    split_ifs at hpc
    cases hpc
    exact Function.update_self cur frame r.slave.rxPool

/-- A transaction in which the master sends what it fetched. -/
theorem Delivered.exchange {stream : ℕ → Data} {l l' : Link} {a a' : StopAndWait.State}
    {garbage : Payload} (h : Delivered stream l a) (hr : Refines l a) (hr' : Refines l' a')
    (ha : StopAndWait.Agree a) (hsend : l.master.SendsFetched)
    (hst : l.step (.exchange false true true garbage) = some l')
    (hstep : StopAndWait.step queueCapacity a (.exchange
      (decide ((l.master.buildFrame false).txMsg.type = 1)) true true) = some a') :
    Delivered stream l' a' := by
  obtain ⟨r, hrun, hl'⟩ := Option.map_eq_some_iff.1 hst
  obtain ⟨free, -, ha'⟩ := Option.map_eq_some_iff.1 hstep
  rw [if_pos rfl] at hrun
  have hmaster : l'.master = (l.master.buildFrame false).handleResponse false
      (some l.slave.slave.txMsg) := by rw [← hl']; rfl
  have hslave : l'.slave = r := by rw [← hl']
  have hacc : r.accepted = l.slave.accepted := by
    obtain ⟨t, -, rfl⟩ := Option.map_eq_some_iff.1 hrun
    rfl
  obtain ⟨htype, hdata⟩ := hr.master.frame
  obtain ⟨hstream, hcalls⟩ := buildFrame_source l.master
  have hsrc : l'.master.source = (l.master.buildFrame false).source := by
    rw [hmaster, (handleResponse_keeps _ _).2.1]
  have hack : l.slave.slave.txMsg.packetAck = l.master.expectedAck ↔ a.got = a.next := by
    rw [(hr.slave.reply hrun).2, hr.master.expected]
    exact ofNat_eq_iff_of_near ha.next
  have hlineNo : l'.master.lineNo = a'.next := by
    rw [hmaster, lineNo_iterate hsend, h.lineNo, ← ha']
    rcases htype with h0 | h1
    · simp [h0]
    · simp [h1, hack]
  refine ⟨?_, hlineNo, ?_, ?_, fun cur hpc => ?_⟩
  · rw [hsrc, hstream, h.source]
  · rw [hslave, hacc, hsrc]
    exact h.read.trans hcalls
  · rw [hslave, hacc]
    exact h.accepted
  · -- the frame was in order, so its line is the next one and not yet acknowledged
    have hin : a'.inbox = true := hr'.slave.inbox.2 ⟨cur, hpc⟩
    rw [← ha'] at hin
    simp only [Bool.and_true, Bool.and_eq_true, decide_eq_true_eq] at hin
    obtain ⟨h1, hnext⟩ := hin
    have hne : (l.master.buildFrame false).txMsg.type ≠ 0 := by simp [h1]
    have hnack : l.slave.slave.txMsg.packetAck ≠ (l.master.buildFrame false).expectedAck := by
      rw [buildFrame_expectedAck, Ne, hack]
      omega
    have hfetch : l'.master.fetchNewLine = false := by
      rw [hmaster, handleResponse_nack _ _ hne hnack]
    have hsame : a'.next = a.next := by
      rw [← ha']
      exact if_neg fun hboth => absurd hboth.2.2 (by omega)
    have hnum : l'.master.source.calls = a.got + 1 := by
      rw [← hnext, ← hsame, ← hlineNo, Master.lineNo, hfetch]
      rfl
    have hgot : a.got = l'.slave.accepted.length := by
      rw [← hr'.slave.got (by simp [hpc, SlavePc.flushing]), ← ha']
    refine ⟨hfetch, ?_⟩
    rw [← hgot, ← h.source, ← hstream, ← hsrc]
    rw [hslave] at hpc ⊢
    rw [accept_of_transmit hrun hpc, buildFrame_line _ (hdata h1).2.1, loadLine_data,
      ← buildFrame_line _ (hdata h1).2.1, ← hsrc, LineSource.line, hnum]
    rfl

/-- `Delivered` holds along every lossless run. -/
def delivery_sim (stream : ℕ → Data) : Machine.Simulation (spiLink stream) Lossless
    (StopAndWait.link queueCapacity) (fun _ _ _ => True) where
  rel l a := Refines l a ∧ Delivered stream l a
  init := ⟨refines_init stream, delivered_init stream⟩
  step := by
    rintro l e l' a - hreach ⟨hr, h⟩ hst ⟨hok, hsend⟩
    have ha := StopAndWait.agree_reachable hreach
    cases e with
    | exchange flush masterOk slaveOk garbage =>
      obtain ⟨rfl, rfl, rfl⟩ := hok
      obtain ⟨a', ha', hr'⟩ := hr.exchange ha hst
      exact .inr ⟨.exchange _ true true, a', ha', trivial, hr', h.exchange hr hr' ha hsend hst ha'⟩
    | masterFails flush => exact absurd hok id
    | slave e =>
      cases e with
      | transmit ok frame => exact absurd hok id
      | task | receive | acknowledge | acknowledgeSend =>
        obtain ⟨r, hrun, rfl⟩ := Option.map_eq_some_iff.1 hst
        rcases hr.slave.internal hrun (by simp) with hs | ⟨b, a', -, hb, hnext, hcredit, hs⟩
        · exact .inl ⟨⟨hr.master, hs⟩, h.internal hr ha hrun (by simp) rfl⟩
        · refine .inr ⟨b, a', hb, trivial, ⟨?_, hs⟩, h.internal hr ha hrun (by simp) hnext⟩
          rw [hnext, hcredit]
          exact hr.master

/-! ## Main result -/

/-- In every run without flushes and failures in which the master never polls when
    a new line is due, the payloads put into `work_queue` are at every point a
    prefix of the lines read with `nextLine`. -/
theorem delivery_in_order {stream : ℕ → Data} {l : Link}
    (h : (spiLink stream).ReachableBy Lossless l) :
    l.slave.accepted.map Payload.data <+: (List.range l.master.source.calls).map stream := by
  obtain ⟨a, -, -, hd⟩ := (delivery_sim stream).reachable h
  rw [hd.accepted]
  apply List.IsPrefix.map
  rw [← Nat.sub_add_cancel hd.read, Nat.add_comm, List.range_add]
  exact List.prefix_append _ _

/-- Lines that can be told apart. -/
def numbered (k : ℕ) : Data := Vector.replicate 64 (UInt8.ofNat k)

def number (d : Data) : UInt8 := d[0]

theorem delivery_in_order_firstLine :
    ∃ l, (spiLink numbered).run (spiLink numbered).init firstLine = some l ∧
      l.slave.accepted.length = 1 ∧
      l.slave.accepted.map Payload.data <+: (List.range l.master.source.calls).map numbered := by
  obtain ⟨l, hrun, hl, hlen⟩ := (spiLink numbered).exists_reachableBy Lossless firstLine
    (fun l => l.slave.accepted.length) (v := 1) (by decide +kernel) (by decide +kernel)
  exact ⟨l, hrun, hlen, delivery_in_order hl⟩

/-- Ten lines fill the queue, and the tenth is acknowledged with no free slot. The
    consumer takes one. The next iteration reads line 10 and polls; the one after
    it reads line 11 and sends it as the eleventh frame. -/
theorem delivery_skips_line :
    ¬ ∀ (stream : ℕ → Data) (l : Link), (spiLink stream).ReachableBy AllSucceed l →
      l.slave.accepted.map Payload.data <+: (List.range l.master.source.calls).map stream := by
  intro h
  let cycle : List LinkEvent := [.slave .task, .slave .task, .slave .task,
    .exchange false true true Payload.zero, .slave .task]
  let events : List LinkEvent :=
    (List.replicate 20 cycle).flatten ++ [.slave .receive] ++ cycle ++ cycle
  obtain ⟨l, -, hl, hv⟩ := (spiLink numbered).exists_reachableBy AllSucceed events
    (fun l => (l.master.source.calls, l.slave.accepted.map (number ∘ Payload.data)))
    (v := (12, [0, 1, 2, 3, 4, 5, 6, 7, 8, 9, 11])) (by decide +kernel) (by decide +kernel)
  obtain ⟨hcalls, haccepted⟩ := Prod.mk.inj hv
  have hprefix := (h numbered l hl).map number
  rw [List.map_map, List.map_map, hcalls, haccepted] at hprefix
  exact absurd hprefix (by decide +kernel)

end Esp32Embroidery.Spi
