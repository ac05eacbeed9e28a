import Esp32Embroidery.Bluetooth.Session
import Esp32Embroidery.Lib.BoundedQueue
import Mathlib.Data.List.Flatten

/-!
# The Bluetooth transmit task

`pollTX` (`bluetooth.c`) packs chunks from `tx_queue` into a buffer of 256 bytes
and writes it. A chunk that does not fit is kept in the local variable `chunk`
for the next iteration, but an iteration only starts when `tx_queue` is not
empty.

One step is one access to something the task shares with others: a queue, the
semaphore, the event bits, `session.connection` or `esp_spp_write`. The bytes
are of any type, so that a reader of the queue can tell them apart.

Main results:

* `pollTx_drains`: as long as no chunk that does not fit is the last one in
  `tx_queue`, whatever was enqueued has been written when the task comes to rest.
* `pollTx_keeps_chunk`: 200 and 100 bytes enqueued together; the 100 bytes stay.
-/

namespace Esp32Embroidery.Bluetooth

open Esp32Embroidery.Lib

/-! ## Model -/

/-- `BT_TX_QUEUE_ENTRIES` (line 55). -/
def btTxQueueEntries : ℕ := 32

/-- `sizeof(buffer)` (line 489). -/
def bufferSize : ℕ := 256

/-- The next shared access of `pollTX`. -/
inductive TxPc
  /-- line 494 -/
  | start
  /-- line 495 -/
  | eventBits
  /-- line 496 -/
  | messages
  /-- line 497 -/
  | takeBusy
  /-- line 501, with the choice of line 506 -/
  | first
  /-- line 507 -/
  | writeChunk
  /-- lines 512-515 -/
  | copy
  /-- line 517, with the loop test of line 510 -/
  | next
  /-- line 521 -/
  | writeBuffer
  /-- line 525 -/
  | release
  /-- line 529 -/
  | pause
  /-- line 532 -/
  | suspend
  | suspended
  deriving DecidableEq

variable {β : Type*}

/-- `tx_queue`, `tx_busy` (true when it can be taken) and the locals of `pollTX`.
    `buffer` holds the bytes copied to the buffer and not yet written;
    `remaining` is `bufferSize - buffer.length`. -/
structure PollTx (β : Type*) where
  txQueue : BoundedQueue (List β) btTxQueueEntries
  txBusy : Bool
  pc : TxPc
  chunk : Option (List β)
  buffer : List β
  dataSent : Bool

namespace PollTx

/-- After `bluetooth_start_local`, with the task resumed. -/
def start : PollTx β :=
  { txQueue := .empty, txBusy := true, pc := .start, chunk := none, buffer := [], dataSent := false }

/-- `xQueueSendToBack` in `enqueue_tx_chunk` (line 178); it waits for room. -/
def enqueueTxChunk (t : PollTx β) (chunk : List β) : Option (PollTx β) :=
  (t.txQueue.send chunk).map fun q => { t with txQueue := q }

/-- `ESP_SPP_WRITE_EVT`: `xSemaphoreGive(tx_busy)`. -/
def writeEvt (t : PollTx β) : PollTx β := { t with txBusy := true }

/-- `flush_tx_queue` (lines 331-346). -/
def flushTxQueue (t : PollTx β) : PollTx β := { t with txQueue := .empty }

/-- The task holds a chunk and starts to pack (lines 503-506). -/
def begin (t : PollTx β) (chunk : List β) : PollTx β :=
  { t with
    chunk := some chunk
    buffer := []
    pc := if bufferSize ≤ chunk.length then .writeChunk else .copy }

/-- One step of `pollTX`: the bytes it passes to `esp_spp_write`, if it calls it,
    and the state after. `uncongested` is the event bit `SPP_CONGESTED`, `ok` what
    `esp_spp_write` returns. -/
def step (connection : Handle) (uncongested ok : Bool) (t : PollTx β) :
    Option (Option (List β) × PollTx β) :=
  match t.pc with
  | .start => some (none, { t with pc := if connection ≠ 0 then .eventBits else .pause })
  | .eventBits => some (none, { t with pc := if uncongested then .messages else .pause })
  | .messages => some (none, { t with
      pc := if 0 < t.txQueue.items.length then .takeBusy else .pause })
  | .takeBusy =>
    if t.txBusy then some (none, { t with txBusy := false, dataSent := false, pc := .first })
    else some (none, { t with pc := .pause })
  | .first =>
    match t.chunk, t.txQueue.receive with
    | some chunk, _ => some (none, t.begin chunk)
    | none, some (chunk, q) => some (none, { t with txQueue := q }.begin chunk)
    | none, none => some (none, { t with pc := .release })
  | .writeChunk => some (t.chunk, { t with chunk := none, dataSent := ok, pc := .release })
  | .copy => some (none, { t with
      buffer := t.buffer ++ t.chunk.getD [], chunk := none, pc := .next })
  | .next =>
    match t.txQueue.receive with
    | some (chunk, q) => some (none, { t with
        txQueue := q
        chunk := some chunk
        pc := if chunk.length < bufferSize - t.buffer.length then .copy else .writeBuffer })
    | none => some (none, { t with chunk := none, pc := .writeBuffer })
  | .writeBuffer =>
    if t.buffer = [] then some (none, { t with pc := .release })
    else some (some t.buffer, { t with buffer := [], dataSent := ok, pc := .release })
  | .release => some (none, { t with txBusy := t.txBusy || !t.dataSent, pc := .pause })
  | .pause => some (none, { t with pc := if connection ≠ 0 then .start else .suspend })
  | .suspend => some (none, { t with pc := .suspended })
  | .suspended => none

end PollTx

/-- `pollTX` on a connected and uncongested link: what was enqueued, what was
    written, and the writes whose `ESP_SPP_WRITE_EVT` is due. -/
structure TxRun (β : Type*) where
  tx : PollTx β
  enqueued : List β
  written : List β
  outstanding : ℕ

inductive TxEvent (β : Type*)
  /-- `enqueue_tx_chunk` -/
  | enqueue (chunk : List β)
  /-- the next step of `pollTX` -/
  | poll
  /-- `ESP_SPP_WRITE_EVT` for a write -/
  | writeEvt
  deriving DecidableEq

/-- The run after a step of `pollTX` that passed `bytes` to `esp_spp_write`. -/
def TxRun.polled (s : TxRun β) (bytes : Option (List β)) (t : PollTx β) : TxRun β :=
  { s with
    tx := t
    written := s.written ++ bytes.getD []
    outstanding := s.outstanding + bytes.elim 0 fun _ => 1 }

/-- Chunks have 1 to 250 bytes; every write succeeds. -/
def TxRun.step (connection : Handle) (s : TxRun β) : TxEvent β → Option (TxRun β)
  | .enqueue chunk =>
    if 1 ≤ chunk.length ∧ chunk.length ≤ 250 then
      (s.tx.enqueueTxChunk chunk).map fun t => { s with tx := t, enqueued := s.enqueued ++ chunk }
    else none
  | .poll => (s.tx.step connection true true).map fun out => s.polled out.1 out.2
  | .writeEvt =>
    if 0 < s.outstanding then
      some { s with tx := s.tx.writeEvt, outstanding := s.outstanding - 1 }
    else none

def txRuns (β : Type*) (connection : Handle) : Machine (TxRun β) (TxEvent β) where
  init := { tx := .start, enqueued := [], written := [], outstanding := 0 }
  step := TxRun.step connection

/-- A step of `pollTX` or of the stack. -/
def Internal (e : TxEvent β) : Prop := e = .poll ∨ e = .writeEvt

/-- Nothing more is written as long as nothing is enqueued. -/
def Quiescent (connection : Handle) (s : TxRun β) : Prop :=
  ∀ events : List (TxEvent β), (∀ e ∈ events, Internal e) →
    ∀ t, (txRuns β connection).run s events = some t → t.written = s.written

/-- The chunk the packing loop takes next does not fit and is the last one. -/
def PollTx.TakesLast (t : PollTx β) : Prop :=
  t.pc = .next ∧ ∃ chunk, t.txQueue.items = [chunk] ∧ bufferSize - t.buffer.length ≤ chunk.length

instance (t : PollTx β) : Decidable t.TakesLast :=
  decidable_of_iff (t.pc = .next ∧ ∃ chunk ∈ t.txQueue.items, t.txQueue.items.length = 1 ∧
      bufferSize - t.buffer.length ≤ chunk.length) (by
    refine and_congr_right fun _ => exists_congr fun chunk => ?_
    constructor
    · intro ⟨hmem, hone, hlong⟩
      obtain ⟨c, hc⟩ := List.length_eq_one_iff.1 hone
      rw [hc, List.mem_singleton] at hmem
      exact ⟨hmem ▸ hc, hlong⟩
    · intro ⟨hc, hlong⟩
      exact ⟨by rw [hc]; exact List.mem_cons_self, by rw [hc]; rfl, hlong⟩)

/-- The packing loop never takes a chunk that does not fit and is the last one. -/
def LeavesNext (s : TxRun β) (e : TxEvent β) (_ : TxRun β) : Prop := e = .poll → ¬ s.tx.TakesLast

instance [DecidableEq β] (s : TxRun β) (e : TxEvent β) (t : TxRun β) :
    Decidable (LeavesNext s e t) := inferInstanceAs (Decidable (_ → _))

/-! ## Steps beside the task -/

theorem PollTx.enqueueTxChunk_eq_some {t u : PollTx β} {chunk : List β}
    (h : t.enqueueTxChunk chunk = some u) :
    ∃ q : BoundedQueue (List β) btTxQueueEntries,
      q.items = t.txQueue.items ++ [chunk] ∧ { t with txQueue := q } = u := by
  obtain ⟨q, hq, hu⟩ := Option.map_eq_some_iff.1 h
  exact ⟨q, (BoundedQueue.send_eq_some.1 hq).2, hu⟩

theorem TxRun.step_enqueue {connection : Handle} {s t : TxRun β} {chunk : List β}
    (h : (txRuns β connection).step s (.enqueue chunk) = some t) :
    (1 ≤ chunk.length ∧ chunk.length ≤ 250) ∧ ∃ q : BoundedQueue (List β) btTxQueueEntries,
      q.items = s.tx.txQueue.items ++ [chunk] ∧
      { s with tx := { s.tx with txQueue := q }, enqueued := s.enqueued ++ chunk } = t := by
  simp only [txRuns, TxRun.step, Option.ite_none_right_eq_some, Option.map_eq_some_iff] at h
  obtain ⟨hlen, u, hu, rfl⟩ := h
  obtain ⟨q, hq, rfl⟩ := PollTx.enqueueTxChunk_eq_some hu
  exact ⟨hlen, q, hq, rfl⟩

theorem TxRun.step_writeEvt {connection : Handle} {s t : TxRun β} :
    (txRuns β connection).step s .writeEvt = some t ↔
      0 < s.outstanding ∧
        { s with tx := s.tx.writeEvt, outstanding := s.outstanding - 1 } = t := by
  simp only [txRuns, TxRun.step, Option.ite_none_right_eq_some, Option.some.injEq]

/-! ## Invariant -/

/-- The bytes the task or the queue still holds, in the order they are written. -/
def PollTx.unsent (t : PollTx β) : List β :=
  t.buffer ++ t.chunk.getD [] ++ t.txQueue.items.flatten

/-- `tx_busy` can be taken, or one write is outstanding. -/
def TxRun.Token (s : TxRun β) : Prop :=
  (s.tx.txBusy = true ∧ s.outstanding = 0) ∨ (s.tx.txBusy = false ∧ s.outstanding = 1)

/-- The task has taken `tx_busy`. -/
def TxRun.Taken (s : TxRun β) : Prop := s.tx.txBusy = false ∧ s.outstanding = 0

/-- What holds at each step of the task. -/
def TxRun.AtPc (s : TxRun β) : TxPc → Prop
  | .start | .eventBits | .messages | .pause => s.tx.buffer = [] ∧ s.Token
  | .takeBusy => s.tx.buffer = [] ∧ s.Token ∧ s.tx.txQueue.items ≠ []
  | .first => s.tx.buffer = [] ∧ s.Taken ∧ s.tx.txQueue.items ≠ []
  | .copy => s.Taken ∧ ∃ chunk, s.tx.chunk = some chunk
  | .next => s.tx.buffer ≠ [] ∧ s.Taken ∧ s.tx.chunk = none
  | .writeBuffer => s.tx.buffer ≠ [] ∧ s.Taken
  | .release => s.tx.buffer = [] ∧ s.Token ∧ s.tx.dataSent = true
  | .writeChunk | .suspend | .suspended => False

/-- Nothing is lost or reordered, and every chunk has a length from 1 to 250. -/
structure TxInv (s : TxRun β) : Prop where
  account : s.written ++ s.tx.unsent = s.enqueued
  queued : ∀ chunk ∈ s.tx.txQueue.items, 1 ≤ chunk.length ∧ chunk.length ≤ 250
  held : ∀ chunk ∈ s.tx.chunk, 1 ≤ chunk.length ∧ chunk.length ≤ 250
  pc : s.AtPc s.tx.pc

theorem txInv_init (connection : Handle) : TxInv (txRuns β connection).init where
  account := rfl
  queued := by intro chunk h; cases h
  held := by intro chunk h; cases h
  pc := ⟨rfl, .inl ⟨rfl, rfl⟩⟩

theorem TxInv.enqueue {s : TxRun β} (h : TxInv s) {chunk : List β} {q : BoundedQueue (List β) _}
    (hlen : 1 ≤ chunk.length ∧ chunk.length ≤ 250) (hq : q.items = s.tx.txQueue.items ++ [chunk]) :
    TxInv { s with tx := { s.tx with txQueue := q }, enqueued := s.enqueued ++ chunk } where
  account := by
    rw [← h.account]
    simp [PollTx.unsent, hq]
  queued c hc := by
    rw [hq, List.mem_append, List.mem_singleton] at hc
    rcases hc with hc | rfl
    · exact h.queued c hc
    · exact hlen
  held := h.held
  pc := by
    have hpc := h.pc
    have hne : q.items ≠ [] := by rw [hq]; simp
    simp only
    cases hs : s.tx.pc <;> rw [hs] at hpc
    case takeBusy => exact ⟨hpc.1, hpc.2.1, hne⟩
    case first => exact ⟨hpc.1, hpc.2.1, hne⟩
    all_goals exact hpc

theorem TxInv.writeEvt {s : TxRun β} (h : TxInv s) (hout : 0 < s.outstanding) :
    TxInv { s with tx := s.tx.writeEvt, outstanding := s.outstanding - 1 } where
  account := h.account
  queued := h.queued
  held := h.held
  pc := by
    have hpc := h.pc
    have htoken (ht : s.Token) :
        TxRun.Token { s with tx := s.tx.writeEvt, outstanding := s.outstanding - 1 } := by
      rcases ht with ⟨-, hzero⟩ | ⟨-, hone⟩
      · omega
      · exact .inl ⟨rfl, by simp [hone]⟩
    have htaken (ht : s.Taken) : False := by
      obtain ⟨-, hzero⟩ := ht
      omega
    simp only [PollTx.writeEvt]
    cases hs : s.tx.pc <;> rw [hs] at hpc
    case takeBusy => exact ⟨hpc.1, htoken hpc.2.1, hpc.2.2⟩
    case first => exact (htaken hpc.2.1).elim
    case copy => exact (htaken hpc.1).elim
    case next => exact (htaken hpc.2.1).elim
    case writeBuffer => exact (htaken hpc.2).elim
    case release => exact ⟨hpc.1, htoken hpc.2.1, hpc.2.2⟩
    case start => exact ⟨hpc.1, htoken hpc.2⟩
    case eventBits => exact ⟨hpc.1, htoken hpc.2⟩
    case messages => exact ⟨hpc.1, htoken hpc.2⟩
    case pause => exact ⟨hpc.1, htoken hpc.2⟩
    all_goals exact hpc

/-! ## One step of the task -/

/-- An upper bound on the steps until a write. -/
def PollTx.stage (t : PollTx β) : ℕ :=
  2 * t.txQueue.items.length + match t.pc with
  | .writeBuffer | .writeChunk | .suspend | .suspended => 0
  | .next => 1
  | .copy => 2
  | .first => 3
  | .takeBusy => 4
  | .messages => 5
  | .eventBits => 6
  | .start => 7
  | .pause => 8
  | .release => 9

/-- The task is at rest or on its way to the test of line 496. -/
def TxPc.atTop : TxPc → Bool
  | .release | .pause | .start | .eventBits | .messages => true
  | _ => false

/-- A task at rest has something in the queue. -/
def PollTx.Live (t : PollTx β) : Prop := t.pc.atTop = true → t.txQueue.items ≠ []

/-- A chunk the task has kept is not all that is left. -/
def PollTx.Behind (t : PollTx β) : Prop :=
  t.pc ≠ .copy → t.chunk ≠ none → t.txQueue.items ≠ []

/-- A step of the task keeps the invariant, and comes nearer to a write when
    `tx_busy` is free. -/
structure Advance (s t : TxRun β) : Prop where
  inv : TxInv t
  behind : ¬ s.tx.TakesLast → s.tx.Behind → t.tx.Behind
  progress : s.outstanding = 0 → s.tx.Live → t.written ≠ s.written ∨
    (t.written = s.written ∧ t.outstanding = 0 ∧ t.tx.Live ∧ t.tx.stage < s.tx.stage)

section

variable {s : TxRun β}

/-- What the step writes and what is left is what there was. -/
theorem TxInv.account_polled (h : TxInv s) {bytes : Option (List β)} {t : PollTx β}
    (hbytes : bytes.getD [] ++ t.unsent = s.tx.unsent) :
    (s.polled bytes t).written ++ (s.polled bytes t).tx.unsent = (s.polled bytes t).enqueued := by
  show s.written ++ bytes.getD [] ++ t.unsent = s.enqueued
  rw [List.append_assoc, hbytes, h.account]

/-- A step that only moves the program counter. -/
theorem TxInv.goto (h : TxInv s) {pc : TxPc} {dataSent txBusy : Bool} (hcopy : s.tx.pc ≠ .copy)
    (hpc : TxRun.AtPc { s with tx := { s.tx with
      pc := pc, dataSent := dataSent, txBusy := txBusy } } pc)
    (hlive : s.outstanding = 0 → s.tx.Live → PollTx.Live { s.tx with
      pc := pc, dataSent := dataSent, txBusy := txBusy })
    (hstage : s.outstanding = 0 → s.tx.Live → PollTx.stage { s.tx with pc := pc } < s.tx.stage) :
    Advance s (s.polled none { s.tx with pc := pc, dataSent := dataSent, txBusy := txBusy }) where
  inv :=
    { account := h.account_polled rfl
      queued := h.queued
      held := h.held
      pc := hpc }
  behind _ hb _ := hb hcopy
  progress hzero hl := .inr ⟨by simp [TxRun.polled], hzero, hlive hzero hl, hstage hzero hl⟩

/-- The task begins an iteration with a chunk, its own or the first of the queue. -/
theorem TxInv.begin (h : TxInv s) (htaken : s.Taken) (hbuffer : s.tx.buffer = []) {chunk : List β}
    {q : BoundedQueue (List β) btTxQueueEntries}
    (hlen : 1 ≤ chunk.length ∧ chunk.length ≤ 250)
    (hq : ∀ c ∈ q.items, c ∈ s.tx.txQueue.items)
    (hunsent : chunk ++ q.items.flatten = s.tx.chunk.getD [] ++ s.tx.txQueue.items.flatten)
    (hstage : 2 * q.items.length + 2 < s.tx.stage) :
    Advance s (s.polled none ({ s.tx with txQueue := q }.begin chunk)) := by
  have hfits : ¬ bufferSize ≤ chunk.length := by simp only [bufferSize]; omega
  simp only [PollTx.begin, if_neg hfits]
  refine ⟨⟨?_, fun c hc => h.queued c (hq c hc), ?_, htaken, chunk, rfl⟩, ?_,
    fun hzero _ => .inr ?_⟩
  · apply h.account_polled
    simp [PollTx.unsent, hbuffer, hunsent]
  · intro c hc
    cases hc
    exact hlen
  · intro _ _ hcopy
    exact absurd rfl hcopy
  · refine ⟨by simp [TxRun.polled], hzero, (by intro ht; cases ht), ?_⟩
    exact hstage

theorem exists_polled {connection : Handle} {bytes : Option (List β)} {t : PollTx β}
    (hstep : s.tx.step connection true true = some (bytes, t))
    (h : Advance s (s.polled bytes t)) :
    ∃ u, (txRuns β connection).step s .poll = some u ∧ Advance s u :=
  ⟨s.polled bytes t, by simp [txRuns, TxRun.step, hstep], h⟩

theorem TxInv.next (h : TxInv s) (hs : s.tx.pc = .next) {connection : Handle} :
    ∃ u, (txRuns β connection).step s .poll = some u ∧ Advance s u := by
  have hpc := h.pc
  rw [hs] at hpc
  obtain ⟨hbuffer, htaken, hchunk⟩ := hpc
  cases hrec : s.tx.txQueue.receive with
  | none =>
    have hstep : s.tx.step connection true true =
        some (none, { s.tx with chunk := none, pc := .writeBuffer }) := by
      simp only [PollTx.step, hs, hrec]
    refine exists_polled hstep ⟨⟨?_, h.queued, ?_, hbuffer, htaken⟩, ?_, fun hzero _ => .inr ?_⟩
    · apply h.account_polled
      simp [PollTx.unsent, hchunk]
    · intro c hc
      cases hc
    · intro _ _ _ hnone
      exact absurd rfl hnone
    · refine ⟨by simp [TxRun.polled], hzero, (by intro ht; cases ht), ?_⟩
      simp [TxRun.polled, PollTx.stage, hs]
  | some cq =>
    obtain ⟨chunk, q⟩ := cq
    have hitems := BoundedQueue.receive_eq_some.1 hrec
    -- whether or not the chunk fits, the task holds it
    obtain ⟨pc, hstep, hcase⟩ : ∃ pc, s.tx.step connection true true =
        some (none, { s.tx with txQueue := q, chunk := some chunk, pc := pc }) ∧
        (pc = .copy ∨ (pc = .writeBuffer ∧ bufferSize - s.tx.buffer.length ≤ chunk.length)) := by
      refine ⟨if chunk.length < bufferSize - s.tx.buffer.length then .copy else .writeBuffer, ?_, ?_⟩
      · simp only [PollTx.step, hs, hrec]
      · split_ifs with hfits
        · exact .inl rfl
        · exact .inr ⟨rfl, Nat.le_of_not_lt hfits⟩
    refine exists_polled hstep ⟨⟨?_, ?_, ?_, ?_⟩, ?_, fun hzero _ => .inr ⟨?_, hzero, ?_, ?_⟩⟩
    · apply h.account_polled
      simp [PollTx.unsent, hchunk, hitems]
    · intro c hc
      exact h.queued c (by rw [hitems]; exact List.mem_cons_of_mem _ hc)
    · intro c hc
      cases hc
      exact h.queued chunk (by rw [hitems]; exact List.mem_cons_self)
    · rcases hcase with rfl | ⟨rfl, -⟩
      · exact ⟨htaken, chunk, rfl⟩
      · exact ⟨hbuffer, htaken⟩
    · intro hlast _ hcopy _ hnil
      rcases hcase with rfl | ⟨-, hlong⟩
      · exact hcopy rfl
      · exact hlast ⟨hs, chunk, hitems.trans (congrArg _ hnil), hlong⟩
    · simp [TxRun.polled]
    · intro htop
      rcases hcase with rfl | ⟨rfl, -⟩ <;> cases htop
    · rcases hcase with rfl | ⟨rfl, -⟩
      · simp only [TxRun.polled, PollTx.stage, hs, hitems, List.length_cons]
        omega
      · simp only [TxRun.polled, PollTx.stage, hs, hitems, List.length_cons]
        omega

theorem TxInv.messages (h : TxInv s) (hs : s.tx.pc = .messages) {connection : Handle} :
    ∃ u, (txRuns β connection).step s .poll = some u ∧ Advance s u := by
  have hpc := h.pc
  rw [hs] at hpc
  have hcopy : s.tx.pc ≠ .copy := by rw [hs]; decide
  by_cases hq : 0 < s.tx.txQueue.items.length
  · have hstep : s.tx.step connection true true = some (none, { s.tx with pc := .takeBusy }) := by
      simp only [PollTx.step, hs, if_pos hq]
    have hne : s.tx.txQueue.items ≠ [] := List.ne_nil_of_length_pos hq
    refine exists_polled hstep (h.goto hcopy ⟨hpc.1, hpc.2, hne⟩ ?_ ?_)
    · intro _ _ htop
      cases htop
    · simp [PollTx.stage, hs]
  · have hstep : s.tx.step connection true true = some (none, { s.tx with pc := .pause }) := by
      simp only [PollTx.step, hs, if_neg hq]
    have hnil : s.tx.txQueue.items = [] := by simpa using hq
    have hdead (hl : s.tx.Live) : False := hl (by rw [hs]; rfl) hnil
    refine exists_polled hstep (h.goto hcopy hpc ?_ ?_)
    · intro _ hl
      exact (hdead hl).elim
    · intro _ hl
      exact (hdead hl).elim

theorem TxInv.takeBusy (h : TxInv s) (hs : s.tx.pc = .takeBusy) {connection : Handle} :
    ∃ u, (txRuns β connection).step s .poll = some u ∧ Advance s u := by
  have hpc := h.pc
  rw [hs] at hpc
  have hcopy : s.tx.pc ≠ .copy := by rw [hs]; decide
  obtain ⟨hbuffer, ⟨hb, hzero⟩ | ⟨hb, hone⟩, hq⟩ := hpc
  · have hstep : s.tx.step connection true true =
        some (none, { s.tx with txBusy := false, dataSent := false, pc := .first }) := by
      simp only [PollTx.step, hs, hb, if_true]
    refine exists_polled hstep (h.goto hcopy ⟨hbuffer, ⟨rfl, hzero⟩, hq⟩ ?_ ?_)
    · intro _ _ htop
      cases htop
    · simp [PollTx.stage, hs]
  · -- a write is outstanding
    have hstep : s.tx.step connection true true = some (none, { s.tx with pc := .pause }) := by
      simp only [PollTx.step, hs, hb, Bool.false_eq_true, if_false]
    refine exists_polled hstep (h.goto hcopy ⟨hbuffer, .inr ⟨hb, hone⟩⟩ ?_ ?_)
    · intro hzero
      omega
    · intro hzero
      omega

theorem TxInv.first (h : TxInv s) (hs : s.tx.pc = .first) {connection : Handle} :
    ∃ u, (txRuns β connection).step s .poll = some u ∧ Advance s u := by
  have hpc := h.pc
  rw [hs] at hpc
  obtain ⟨hbuffer, htaken, hq⟩ := hpc
  cases hc : s.tx.chunk with
  | some chunk =>
    have hstep : s.tx.step connection true true = some (none, s.tx.begin chunk) := by
      simp only [PollTx.step, hs, hc]
    refine exists_polled hstep ?_
    exact h.begin htaken hbuffer (h.held chunk hc) (fun _ hmem => hmem) (by rw [hc]; rfl)
      (by simp [PollTx.stage, hs])
  | none =>
    cases hrec : s.tx.txQueue.receive with
    | none => exact absurd (BoundedQueue.receive_eq_none.1 hrec) hq
    | some cq =>
      obtain ⟨chunk, q⟩ := cq
      have hitems := BoundedQueue.receive_eq_some.1 hrec
      have hstep : s.tx.step connection true true =
          some (none, { s.tx with txQueue := q }.begin chunk) := by
        simp only [PollTx.step, hs, hc, hrec]
      refine exists_polled hstep ?_
      exact h.begin htaken hbuffer (h.queued chunk (by rw [hitems]; exact List.mem_cons_self))
        (fun c hmem => by rw [hitems]; exact List.mem_cons_of_mem _ hmem)
        (by rw [hc, hitems]; rfl)
        (by simp only [PollTx.stage, hs, hitems, List.length_cons]; omega)

theorem TxInv.copy (h : TxInv s) (hs : s.tx.pc = .copy) {connection : Handle} :
    ∃ u, (txRuns β connection).step s .poll = some u ∧ Advance s u := by
  have hpc := h.pc
  rw [hs] at hpc
  obtain ⟨htaken, chunk, hc⟩ := hpc
  have hlen := h.held chunk hc
  have hstep : s.tx.step connection true true =
      some (none, { s.tx with buffer := s.tx.buffer ++ chunk, chunk := none, pc := .next }) := by
    simp only [PollTx.step, hs, hc, Option.getD_some]
  refine exists_polled hstep ⟨⟨?_, h.queued, ?_, ?_, htaken, rfl⟩, ?_, fun hzero _ => .inr ?_⟩
  · apply h.account_polled
    simp [PollTx.unsent, hc]
  · intro c hmem
    cases hmem
  · intro hnil
    have hchunk : chunk = [] := (List.append_eq_nil_iff.1 hnil).2
    simp [hchunk] at hlen
  · intro _ _ _ hnone
    exact absurd rfl hnone
  · refine ⟨by simp [TxRun.polled], hzero, (by intro ht; cases ht), ?_⟩
    simp [TxRun.polled, PollTx.stage, hs]

theorem TxInv.writeBuffer (h : TxInv s) (hs : s.tx.pc = .writeBuffer) {connection : Handle} :
    ∃ u, (txRuns β connection).step s .poll = some u ∧ Advance s u := by
  have hpc := h.pc
  rw [hs] at hpc
  obtain ⟨hbuffer, hfree, hzero⟩ := hpc
  have hstep : s.tx.step connection true true =
      some (some s.tx.buffer, { s.tx with buffer := [], dataSent := true, pc := .release }) := by
    simp only [PollTx.step, hs, if_neg hbuffer]
  refine exists_polled hstep
    ⟨⟨?_, h.queued, h.held, rfl, .inr ⟨hfree, ?_⟩, rfl⟩, ?_, fun _ _ => .inl ?_⟩
  · apply h.account_polled
    simp [PollTx.unsent]
  · simp [TxRun.polled, hzero]
  · intro _ hb _
    exact hb (by rw [hs]; decide)
  · simpa [TxRun.polled] using hbuffer

/-- Every step of the task is possible and comes nearer to a write. -/
theorem TxInv.advance (h : TxInv s) {connection : Handle} (hconn : connection ≠ 0) :
    ∃ u, (txRuns β connection).step s .poll = some u ∧ Advance s u := by
  have hpc := h.pc
  have hlive {pc : TxPc} (htop : s.tx.pc.atTop = true) (_ : s.outstanding = 0) (hl : s.tx.Live) :
      PollTx.Live { s.tx with pc := pc } := fun _ => hl htop
  cases hs : s.tx.pc <;> rw [hs] at hpc
  case start =>
    have hstep : s.tx.step connection true true = some (none, { s.tx with pc := .eventBits }) := by
      simp only [PollTx.step, hs, if_pos hconn]
    exact exists_polled hstep
      (h.goto (by rw [hs]; decide) hpc (hlive (by rw [hs]; rfl)) (by simp [PollTx.stage, hs]))
  case eventBits =>
    have hstep : s.tx.step connection true true = some (none, { s.tx with pc := .messages }) := by
      simp only [PollTx.step, hs, if_true]
    exact exists_polled hstep
      (h.goto (by rw [hs]; decide) hpc (hlive (by rw [hs]; rfl)) (by simp [PollTx.stage, hs]))
  case messages => exact h.messages hs
  case takeBusy => exact h.takeBusy hs
  case first => exact h.first hs
  case copy => exact h.copy hs
  case next => exact h.next hs
  case writeBuffer => exact h.writeBuffer hs
  case release =>
    have hsent := hpc.2.2
    have hstep : s.tx.step connection true true =
        some (none, { s.tx with txBusy := s.tx.txBusy, pc := .pause }) := by
      simp only [PollTx.step, hs, hsent, Bool.not_true, Bool.or_false]
    exact exists_polled hstep
      (h.goto (by rw [hs]; decide) ⟨hpc.1, hpc.2.1⟩ (hlive (by rw [hs]; rfl)) (by simp [PollTx.stage, hs]))
  case pause =>
    have hstep : s.tx.step connection true true = some (none, { s.tx with pc := .start }) := by
      simp only [PollTx.step, hs, if_pos hconn]
    exact exists_polled hstep
      (h.goto (by rw [hs]; decide) hpc (hlive (by rw [hs]; rfl)) (by simp [PollTx.stage, hs]))
  all_goals exact hpc.elim

end

/-! ## Whole runs -/

theorem TxInv.step {connection : Handle} (hconn : connection ≠ 0) {s t : TxRun β} {e : TxEvent β}
    (h : TxInv s) (hst : (txRuns β connection).step s e = some t) : TxInv t := by
  cases e with
  | enqueue chunk =>
    obtain ⟨hlen, q, hq, rfl⟩ := TxRun.step_enqueue hst
    exact h.enqueue hlen hq
  | poll =>
    obtain ⟨u, hu, hadv⟩ := h.advance hconn
    rw [hu] at hst
    cases hst
    exact hadv.inv
  | writeEvt =>
    obtain ⟨hout, rfl⟩ := TxRun.step_writeEvt.1 hst
    exact h.writeEvt hout

theorem txInv_reachable {connection : Handle} (hconn : connection ≠ 0) {s : TxRun β}
    (hs : (txRuns β connection).Reachable s) : TxInv s :=
  hs.invariant (txInv_init connection) fun _ _ _ _ h hst _ => h.step hconn hst

/-- The task keeps no chunk back while the packing loop leaves one behind it. -/
theorem behind_reachable {connection : Handle} (hconn : connection ≠ 0) {s : TxRun β}
    (hs : (txRuns β connection).ReachableBy LeavesNext s) : s.tx.Behind := by
  refine hs.invariant (I := fun s => s.tx.Behind) ?_ ?_
  · intro _ hnone
    exact absurd rfl hnone
  · intro s e t hr hb hst hleaves
    cases e with
    | enqueue chunk =>
      obtain ⟨-, q, hq, rfl⟩ := TxRun.step_enqueue hst
      intro _ _
      rw [hq]
      simp
    | poll =>
      obtain ⟨u, hu, hadv⟩ := (txInv_reachable hconn hr.reachable).advance hconn
      rw [hu] at hst
      cases hst
      exact hadv.behind (hleaves rfl) hb
    | writeEvt =>
      obtain ⟨-, rfl⟩ := TxRun.step_writeEvt.1 hst
      exact hb

/-- A live task writes something; the induction is on the distance to the write. -/
theorem TxInv.exists_write_of_idle {connection : Handle} (hconn : connection ≠ 0) {s : TxRun β}
    (h : TxInv s) (hzero : s.outstanding = 0) (hl : s.tx.Live) :
    ∃ events t, (∀ e ∈ events, Internal e) ∧ (txRuns β connection).run s events = some t ∧
      t.written ≠ s.written := by
  induction hn : s.tx.stage using Nat.strongRecOn generalizing s with
  | ind n ih =>
    obtain ⟨u, hu, hadv⟩ := h.advance hconn
    rcases hadv.progress hzero hl with hw | ⟨hw, hzero', hl', hlt⟩
    · refine ⟨[.poll], u, ?_, by simp [Machine.run_cons, hu], hw⟩
      intro e he
      exact .inl (List.mem_singleton.1 he)
    · obtain ⟨events, t, hint, hrun, hne⟩ := ih u.tx.stage (hn ▸ hlt) hadv.inv hzero' hl' rfl
      refine ⟨.poll :: events, t, ?_, by simp [Machine.run_cons, hu, hrun], hw ▸ hne⟩
      intro e he
      rcases List.mem_cons.1 he with rfl | he
      · exact .inl rfl
      · exact hint e he

/-- The writes that are outstanding complete first. -/
theorem TxInv.exists_write {connection : Handle} (hconn : connection ≠ 0) {s : TxRun β}
    (h : TxInv s) (hl : s.tx.Live) :
    ∃ events t, (∀ e ∈ events, Internal e) ∧ (txRuns β connection).run s events = some t ∧
      t.written ≠ s.written := by
  induction hn : s.outstanding generalizing s with
  | zero => exact h.exists_write_of_idle hconn hn hl
  | succ n ih =>
    have hout : 0 < s.outstanding := by omega
    obtain ⟨events, t, hint, hrun, hne⟩ := ih (h.writeEvt hout) hl (by simp [hn])
    refine ⟨.writeEvt :: events, t, ?_, ?_, hne⟩
    · intro e he
      rcases List.mem_cons.1 he with rfl | he
      · exact .inr rfl
      · exact hint e he
    · rw [Machine.run_cons, TxRun.step_writeEvt.2 ⟨hout, rfl⟩]
      exact hrun

/-- With bytes left and nothing kept back, the task is live. -/
theorem TxInv.live {s : TxRun β} (h : TxInv s) (hb : s.tx.Behind) (hne : s.tx.unsent ≠ []) :
    s.tx.Live := by
  intro htop hnil
  have hbuffer : s.tx.buffer = [] := by
    have hpc := h.pc
    cases hs : s.tx.pc <;> rw [hs] at hpc htop
    case start => exact hpc.1
    case eventBits => exact hpc.1
    case messages => exact hpc.1
    case release => exact hpc.1
    case pause => exact hpc.1
    all_goals cases htop
  have hcopy : s.tx.pc ≠ .copy := by
    intro hs
    rw [hs] at htop
    cases htop
  cases hc : s.tx.chunk with
  | none => exact hne (by simp [PollTx.unsent, hbuffer, hc, hnil])
  | some chunk => exact hb hcopy (by simp [hc]) hnil

/-! ## The chunk that stays -/

/-- The task goes round with an empty queue. -/
def TxRun.Idle (s : TxRun β) : Prop := s.tx.pc.atTop = true ∧ s.tx.txQueue.items = []

theorem TxRun.Idle.step {connection : Handle} (hconn : connection ≠ 0) {s t : TxRun β}
    {e : TxEvent β} (h : s.Idle) (he : Internal e)
    (hst : (txRuns β connection).step s e = some t) : t.Idle ∧ t.written = s.written := by
  obtain ⟨htop, hnil⟩ := h
  rcases he with rfl | rfl
  · simp only [txRuns, TxRun.step, Option.map_eq_some_iff] at hst
    obtain ⟨out, hout, rfl⟩ := hst
    cases hs : s.tx.pc <;> rw [hs] at htop
    case start | eventBits | messages | release | pause =>
      simp only [PollTx.step, hs, hconn, hnil, ne_eq, not_false_eq_true, if_true,
        List.length_nil, Nat.lt_irrefl, if_false, Option.some.injEq] at hout
      subst hout
      exact ⟨⟨rfl, hnil⟩, List.append_nil _⟩
    all_goals cases htop
  · obtain ⟨-, rfl⟩ := TxRun.step_writeEvt.1 hst
    exact ⟨⟨htop, hnil⟩, rfl⟩

theorem TxRun.Idle.quiescent {connection : Handle} (hconn : connection ≠ 0) {s : TxRun β}
    (h : s.Idle) : Quiescent connection s := by
  intro events hint t hrun
  have hend := Machine.run_invariant (I := fun t : TxRun β => t.Idle ∧ t.written = s.written)
    (fun u e he v hu hst => ?_) ⟨h, rfl⟩ hrun
  · exact hend.2
  · obtain ⟨hv, hw⟩ := hu.1.step hconn (hint e he) hst
    exact ⟨hv, hw.trans hu.2⟩

/-- When the packing loop takes the last chunk and it does not fit, the task
    writes its buffer and comes to rest with the chunk. -/
theorem TxInv.takesLast {connection : Handle} (hconn : connection ≠ 0) {s : TxRun β}
    (h : TxInv s) (hlast : s.tx.TakesLast) :
    ∃ t, (txRuns β connection).run s [.poll, .poll, .poll] = some t ∧
      Quiescent connection t ∧ t.written ≠ t.enqueued := by
  obtain ⟨hs, chunk, hitems, hlong⟩ := hlast
  have hpc := h.pc
  rw [hs] at hpc
  obtain ⟨hbuffer, ⟨hfree, hzero⟩, hchunk⟩ := hpc
  have hlen := h.queued chunk (by rw [hitems]; exact List.mem_cons_self)
  have hrec : s.tx.txQueue.receive = some (chunk, .empty) :=
    BoundedQueue.receive_eq_some.2 hitems
  have hfits : ¬ chunk.length < bufferSize - s.tx.buffer.length := Nat.not_lt_of_le hlong
  let kept : PollTx β :=
    { txQueue := .empty, txBusy := false, pc := .pause, chunk := some chunk, buffer := [],
      dataSent := true }
  refine ⟨{ tx := kept, enqueued := s.enqueued, written := s.written ++ s.tx.buffer,
            outstanding := 1 }, ?_, TxRun.Idle.quiescent hconn ⟨rfl, rfl⟩, ?_⟩
  · simp [Machine.run_cons, txRuns, TxRun.step, PollTx.step, TxRun.polled, kept, hs, hrec, hfits,
      hbuffer, hfree, hzero]
  · intro heq
    have haccount := h.account
    rw [← heq] at haccount
    have hlength := congrArg List.length haccount
    simp only [PollTx.unsent, hchunk, hitems, List.length_append, List.flatten_cons,
      Option.getD_none, List.length_nil] at hlength
    omega

/-! ## Main result -/

/-- When the packing loop never takes a chunk that does not fit and is the last
    one, a task that writes nothing more has written everything. Where it does
    take one, the task comes to rest without writing it. -/
theorem pollTx_drains {connection : Handle} (hconn : connection ≠ 0) :
    (∀ s : TxRun β, (txRuns β connection).ReachableBy LeavesNext s → Quiescent connection s →
      s.written = s.enqueued) ∧
    (∀ s : TxRun β, (txRuns β connection).Reachable s → s.tx.TakesLast →
      ∃ t, (txRuns β connection).run s [.poll, .poll, .poll] = some t ∧
        Quiescent connection t ∧ t.written ≠ t.enqueued) := by
  refine ⟨fun s hs hq => ?_, fun s hs hlast => (txInv_reachable hconn hs).takesLast hconn hlast⟩
  have hinv := txInv_reachable hconn hs.reachable
  have hunsent : s.tx.unsent = [] := by
    by_contra hne
    obtain ⟨events, t, hint, hrun, hw⟩ :=
      hinv.exists_write hconn (hinv.live (behind_reachable hconn hs) hne)
    exact hw (hq events hint t hrun)
  rw [← hinv.account, hunsent, List.append_nil]

/-- 200 and `n` bytes are enqueued before the task looks at the queue. -/
def packTwo (n : ℕ) : List (TxEvent Unit) :=
  [.enqueue (List.replicate 200 ()), .enqueue (List.replicate n ())] ++ List.replicate 12 .poll

/-- With 50 bytes both chunks are written; with 100 bytes the second one is the last
    and does not fit. -/
theorem pollTx_drains_packTwo :
    (∃ s : TxRun Unit, s.written.length = 250 ∧ s.written = s.enqueued) ∧
    (∃ t : TxRun Unit, Quiescent 1 t ∧ t.written ≠ t.enqueued) := by
  have hconn : (1 : Handle) ≠ 0 := by decide
  constructor
  · obtain ⟨s, -, hs, hv⟩ := Machine.exists_reachableBy (txRuns Unit 1) LeavesNext (packTwo 50)
      (fun s => (s.written.length, s.tx.pc.atTop, s.tx.txQueue.items))
      (v := (250, true, [])) (by decide +kernel) (by decide +kernel)
    simp only [Prod.mk.injEq] at hv
    have hq := TxRun.Idle.quiescent hconn hv.2
    exact ⟨s, hv.1, (pollTx_drains hconn).1 s hs hq⟩
  · obtain ⟨s, -, hs, hv⟩ := Machine.exists_reachable (txRuns Unit 1) ((packTwo 100).take 8)
      (fun s => decide s.tx.TakesLast) (v := true) (by decide +kernel)
    obtain ⟨t, -, ht⟩ := (pollTx_drains hconn).2 s hs (of_decide_eq_true hv)
    exact ⟨t, ht⟩

/-- With 200 and 100 bytes the 100 bytes stay. -/
theorem pollTx_keeps_chunk :
    ¬ ∀ s : TxRun Unit, (txRuns Unit 1).Reachable s → Quiescent 1 s → s.written = s.enqueued := by
  intro h
  have hconn : (1 : Handle) ≠ 0 := by decide
  obtain ⟨s, -, hs, hv⟩ := Machine.exists_reachable (txRuns Unit 1) (packTwo 100)
    (fun s => (s.written.length, s.enqueued.length, s.tx.pc.atTop, s.tx.txQueue.items))
    (v := (200, 300, true, [])) (by decide +kernel)
  simp only [Prod.mk.injEq] at hv
  have hq := TxRun.Idle.quiescent hconn hv.2.2
  have hall := congrArg List.length (h s hs hq)
  rw [hv.1, hv.2.1] at hall
  exact absurd hall (by decide)

end Esp32Embroidery.Bluetooth
