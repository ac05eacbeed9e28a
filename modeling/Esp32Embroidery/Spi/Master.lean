import Esp32Embroidery.Lib.Machine
import Esp32Embroidery.Spi.Payload

/-!
# The SPI master (`main/rahman/spi/spi_m.c`)

Model of the loop of `spi_master_task` (lines 49–93). One iteration is
`buildFrame` (everything up to `spi_device_transmit`) and `handleResponse`
(everything after it). The outside of the task is the answer of
`check_flush_condition` and the result of the transmission, with the message
received from the slave when it succeeds.

Results:
* `masterInv_reachable`: a frame kept for retransmission is the data frame of
  `expected_ack`, or the leftover of a poll or of a flush.
* `frameWellFormed_iff`: an iteration that does not flush sends the right
  frame exactly when it builds one (a new line is due or the slave is polled)
  or `tx_msg` still holds a data frame.
-/

namespace Esp32Embroidery.Spi

open Esp32Embroidery.Lib

/-- The variables of `spi_master_task` (lines 36–47). `rx_msg` is only read
    right after the transmission that fills it and is passed to
    `handleResponse` instead. -/
structure Master where
  txMsg : Payload
  expectedAck : BitVec 32
  slaveFreeSlots : BitVec 8
  fetchNewLine : Bool
  source : LineSource

/-- The state before the first iteration. -/
def Master.start (stream : ℕ → Data) : Master :=
  { txMsg := Payload.zero, expectedAck := 1, slaveFreeSlots := 0, fetchNewLine := true,
    source := ⟨stream, 0⟩ }

/-- `slave_free_slots == 0 && expected_ack > 1` (line 70). -/
def Master.Polls (m : Master) : Prop := m.slaveFreeSlots = 0 ∧ m.expectedAck > 1

instance (m : Master) : Decidable m.Polls := inferInstanceAs (Decidable (_ ∧ _))

/-- Lines 62–68: the data part of `tx_msg`. -/
def Master.loadLine (m : Master) : Master :=
  if m.fetchNewLine then
    { m with txMsg := { m.txMsg with id := m.expectedAck, type := 1, data := m.source.nextLine.1 },
             source := m.source.nextLine.2 }
  else { m with txMsg := { m.txMsg with data := m.source.line } }

/-- Lines 50–73: the loop body up to `spi_device_transmit`, with `flush` the
    answer of `check_flush_condition`. The frame on the wire is `txMsg`. -/
def Master.buildFrame (m : Master) (flush : Bool) : Master :=
  if flush then { m with txMsg := { m.txMsg with id := 0, type := 2, data := Data.zero } }
  else
    let m := m.loadLine
    if m.Polls then { m with txMsg := { m.txMsg with type := 0, data := Data.zero } } else m

/-- Lines 55–59 and 77–92: the loop body after `spi_device_transmit`. The
    response is `some rx_msg` when the call returns `ESP_OK`. -/
def Master.handleResponse (m : Master) (flush : Bool) (response : Option Payload) : Master :=
  match flush, response with
  | true, some _ => { m with expectedAck := 1, fetchNewLine := true }
  | true, none => m
  | false, some rxMsg =>
    let m := { m with slaveFreeSlots := rxMsg.rxFree }
    if m.txMsg.type = 0 then m
    else if rxMsg.packetAck = m.expectedAck then
      { m with expectedAck := m.expectedAck + 1, fetchNewLine := true }
    else { m with fetchNewLine := false }
  | false, none => { m with fetchNewLine := false }

/-- One iteration of the loop. -/
def Master.iterate (m : Master) (flush : Bool) (response : Option Payload) : Master :=
  (m.buildFrame flush).handleResponse flush response

/-- What the outside decides in one iteration. -/
structure Iteration where
  flush : Bool
  response : Option Payload

/-- `spi_master_task` against any flush requests, failures and responses. -/
def masterTask (stream : ℕ → Data) : Machine Master Iteration where
  init := Master.start stream
  step m e := some (m.iterate e.flush e.response)

/-! ## What one iteration does -/

section Frame

variable (m : Master)

@[simp] theorem loadLine_expectedAck : m.loadLine.expectedAck = m.expectedAck := by
  unfold Master.loadLine; split_ifs <;> rfl

@[simp] theorem loadLine_slaveFreeSlots : m.loadLine.slaveFreeSlots = m.slaveFreeSlots := by
  unfold Master.loadLine; split_ifs <;> rfl

@[simp] theorem loadLine_fetchNewLine : m.loadLine.fetchNewLine = m.fetchNewLine := by
  unfold Master.loadLine; split_ifs <;> rfl

@[simp] theorem loadLine_polls : m.loadLine.Polls ↔ m.Polls := by
  simp [Master.Polls]

/-- After lines 62–68 `data` holds the line of the latest `nextLine` call. -/
theorem loadLine_data : m.loadLine.txMsg.data = m.loadLine.source.line := by
  unfold Master.loadLine; split_ifs <;> rfl

theorem loadLine_fetch (h : m.fetchNewLine = true) :
    m.loadLine.txMsg.type = 1 ∧ m.loadLine.txMsg.id = m.expectedAck ∧
      m.loadLine.source = m.source.nextLine.2 := by
  simp [Master.loadLine, h]

theorem loadLine_resend (h : m.fetchNewLine = false) :
    m.loadLine.txMsg.type = m.txMsg.type ∧ m.loadLine.txMsg.id = m.txMsg.id ∧
      m.loadLine.source = m.source := by
  simp [Master.loadLine, h]

theorem buildFrame_poll (h : m.Polls) : m.buildFrame false =
    { m.loadLine with txMsg := { m.loadLine.txMsg with type := 0, data := Data.zero } } := by
  simp [Master.buildFrame, h]

theorem buildFrame_line (h : ¬ m.Polls) : m.buildFrame false = m.loadLine := by
  simp [Master.buildFrame, h]

@[simp] theorem buildFrame_expectedAck (flush : Bool) :
    (m.buildFrame flush).expectedAck = m.expectedAck := by
  cases flush with
  | true => rfl
  | false =>
    by_cases hp : m.Polls
    · simp [buildFrame_poll m hp]
    · simp [buildFrame_line m hp]

@[simp] theorem buildFrame_slaveFreeSlots (flush : Bool) :
    (m.buildFrame flush).slaveFreeSlots = m.slaveFreeSlots := by
  cases flush with
  | true => rfl
  | false =>
    by_cases hp : m.Polls
    · simp [buildFrame_poll m hp]
    · simp [buildFrame_line m hp]

theorem handleResponse_poll (rxMsg : Payload) (h : m.txMsg.type = 0) :
    m.handleResponse false (some rxMsg) = { m with slaveFreeSlots := rxMsg.rxFree } := by
  simp [Master.handleResponse, h]

theorem handleResponse_ack (rxMsg : Payload) (h : m.txMsg.type ≠ 0)
    (hack : rxMsg.packetAck = m.expectedAck) : m.handleResponse false (some rxMsg) =
      { m with slaveFreeSlots := rxMsg.rxFree, expectedAck := m.expectedAck + 1,
               fetchNewLine := true } := by
  simp only [Master.handleResponse]
  rw [if_neg h, if_pos hack]

theorem handleResponse_nack (rxMsg : Payload) (h : m.txMsg.type ≠ 0)
    (hack : rxMsg.packetAck ≠ m.expectedAck) : m.handleResponse false (some rxMsg) =
      { m with slaveFreeSlots := rxMsg.rxFree, fetchNewLine := false } := by
  simp only [Master.handleResponse]
  rw [if_neg h, if_neg hack]

/-- An iteration that does not fetch keeps the expected number unless the slave
    acknowledged it, and then a new line is due. -/
theorem handleResponse_keeps (response : Option Payload) :
    (m.handleResponse false response).txMsg = m.txMsg ∧
      (m.handleResponse false response).source = m.source ∧
      ((m.handleResponse false response).expectedAck = m.expectedAck ∨
        (m.handleResponse false response).fetchNewLine = true) := by
  unfold Master.handleResponse
  cases response with
  | none => simp
  | some rxMsg => dsimp only; split_ifs <;> simp

end Frame

/-! ## Invariant -/

/-- While a line waits for its acknowledgement, a line has been fetched, and
    `tx_msg` can only hold a data frame with the expected number. -/
structure MasterInv (m : Master) : Prop where
  fetched : m.fetchNewLine = false → 0 < m.source.calls
  resend : m.fetchNewLine = false → m.txMsg.type = 1 → m.txMsg.id = m.expectedAck

theorem masterInv_start (stream : ℕ → Data) : MasterInv (Master.start stream) where
  fetched h := by simp [Master.start] at h
  resend h := by simp [Master.start] at h

theorem MasterInv.loadLine {m : Master} (h : MasterInv m) :
    0 < m.loadLine.source.calls ∧
      (m.loadLine.txMsg.type = 1 → m.loadLine.txMsg.id = m.expectedAck) := by
  cases hf : m.fetchNewLine with
  | true =>
    obtain ⟨-, hid, hsrc⟩ := loadLine_fetch m hf
    exact ⟨by rw [hsrc]; exact Nat.succ_pos _, fun _ => hid⟩
  | false =>
    obtain ⟨htype, hid, hsrc⟩ := loadLine_resend m hf
    rw [htype, hid, hsrc]
    exact ⟨h.fetched hf, h.resend hf⟩

theorem MasterInv.buildFrame {m : Master} (h : MasterInv m) :
    0 < (m.buildFrame false).source.calls ∧
      ((m.buildFrame false).txMsg.type = 1 →
        (m.buildFrame false).txMsg.id = (m.buildFrame false).expectedAck) := by
  obtain ⟨hcalls, hid⟩ := h.loadLine
  by_cases hp : m.Polls
  · rw [buildFrame_poll m hp]
    exact ⟨hcalls, fun h => absurd h (by simp)⟩
  · rw [buildFrame_line m hp, loadLine_expectedAck]
    exact ⟨hcalls, hid⟩

theorem MasterInv.iterate {m : Master} (h : MasterInv m) (flush : Bool)
    (response : Option Payload) : MasterInv (m.iterate flush response) := by
  cases flush with
  | true =>
    cases response with
    | some rxMsg => constructor <;> simp [Master.iterate, Master.handleResponse]
    | none =>
      -- a failed flush leaves a frame of type 2 behind
      exact ⟨h.fetched, fun _ htype => absurd htype (by simp [Master.iterate,
        Master.handleResponse, Master.buildFrame])⟩
  | false =>
    obtain ⟨hcalls, hid⟩ := h.buildFrame
    obtain ⟨htx, hsrc, hack⟩ := handleResponse_keeps (m.buildFrame false) response
    unfold Master.iterate
    refine ⟨fun _ => by rw [hsrc]; exact hcalls, fun hf htype => ?_⟩
    rw [htx] at htype ⊢
    rcases hack with hack | hack
    · rw [hack]; exact hid htype
    · rw [hf] at hack; cases hack

theorem masterInv_reachable {stream : ℕ → Data} {m : Master}
    (h : (masterTask stream).Reachable m) : MasterInv m :=
  h.invariant (masterInv_start stream) (by
    rintro m e _ - hm ⟨⟩ -
    exact hm.iterate e.flush e.response)

/-! ## The frame on the wire -/

/-- The frame sent when no flush is due: a poll with zero data when the slave
    reported no free slot, otherwise the data frame of the expected number with
    the latest line. -/
def Master.FrameWellFormed (m : Master) : Prop :=
  let sent := m.buildFrame false
  if m.Polls then sent.txMsg.type = 0 ∧ sent.txMsg.data = Data.zero
  else sent.txMsg.type = 1 ∧ sent.txMsg.id = m.expectedAck ∧ sent.txMsg.data = sent.source.line

/-- In every reachable state, the frame is well formed exactly when the
    iteration builds one or finds a data frame left in `tx_msg`. -/
theorem frameWellFormed_iff {stream : ℕ → Data} {m : Master}
    (h : (masterTask stream).Reachable m) :
    m.FrameWellFormed ↔ m.fetchNewLine = true ∨ m.Polls ∨ m.txMsg.type = 1 := by
  have hinv := masterInv_reachable h
  unfold Master.FrameWellFormed
  by_cases hp : m.Polls
  · simp [hp, buildFrame_poll]
  · simp only [hp, if_false, buildFrame_line m hp, false_or, loadLine_data, and_true]
    cases hf : m.fetchNewLine with
    | true =>
      obtain ⟨htype, hid, -⟩ := loadLine_fetch m hf
      simp [htype, hid]
    | false =>
      obtain ⟨htype, hid, -⟩ := loadLine_resend m hf
      rw [htype, hid]
      simpa using hinv.resend hf

/-- Iterations that leave no foreign frame behind for a retransmission: a flush
    fails only when a new line is due, and a poll is only sent when a new line
    is due and does not fail. -/
def LeavesDataFrame (m : Master) (e : Iteration) (_ : Master) : Prop :=
  if e.flush then e.response = none → m.fetchNewLine = true
  else m.Polls → m.fetchNewLine = true ∧ e.response ≠ none

instance (m : Master) (e : Iteration) (m' : Master) : Decidable (LeavesDataFrame m e m') :=
  inferInstanceAs (Decidable (if e.flush then e.response = none → m.fetchNewLine = true
    else m.Polls → m.fetchNewLine = true ∧ e.response ≠ none))

theorem dataFrame_iterate {m : Master} {e : Iteration} (hm : m.fetchNewLine = true ∨ m.txMsg.type = 1)
    (he : LeavesDataFrame m e (m.iterate e.flush e.response)) :
    (m.iterate e.flush e.response).fetchNewLine = true ∨
      (m.iterate e.flush e.response).txMsg.type = 1 := by
  obtain ⟨flush, response⟩ := e
  cases flush with
  | true =>
    cases response with
    | some rxMsg => exact .inl rfl
    | none => exact .inl (he rfl)
  | false =>
    unfold Master.iterate
    by_cases hp : m.Polls
    · obtain ⟨hf, hr⟩ := he hp
      obtain ⟨rxMsg, rfl⟩ := Option.ne_none_iff_exists'.1 hr
      left
      simp [buildFrame_poll m hp, Master.handleResponse, hf]
    · right
      rw [(handleResponse_keeps _ response).1, buildFrame_line m hp]
      cases hf : m.fetchNewLine with
      | true => exact (loadLine_fetch m hf).1
      | false =>
        rw [(loadLine_resend m hf).1]
        simpa [hf] using hm

theorem dataFrame_of_leavesDataFrame {stream : ℕ → Data} {m : Master}
    (h : (masterTask stream).ReachableBy LeavesDataFrame m) :
    m.fetchNewLine = true ∨ m.txMsg.type = 1 :=
  h.invariant (I := fun m => m.fetchNewLine = true ∨ m.txMsg.type = 1) (.inl rfl) (by
    rintro m e _ - hm ⟨⟩ he
    exact dataFrame_iterate hm he)

/-- An iteration without flush sends a well-formed frame exactly when it builds
    one (a new line is due, or the slave is polled) or `tx_msg` still holds a
    data frame. This is so in every state of a run in which no flush fails
    while a line waits for its acknowledgement, and no poll is sent then or
    fails. -/
theorem master_frame_wellFormed (stream : ℕ → Data) :
    (∀ m, (masterTask stream).Reachable m →
      (m.FrameWellFormed ↔ m.fetchNewLine = true ∨ m.Polls ∨ m.txMsg.type = 1)) ∧
    (∀ m, (masterTask stream).ReachableBy LeavesDataFrame m → m.FrameWellFormed) := by
  refine ⟨fun m h => frameWellFormed_iff h, fun m h => ?_⟩
  rw [frameWellFormed_iff h.reachable]
  have := dataFrame_of_leavesDataFrame h
  tauto

/-- A line is acknowledged by a slave without free places, a poll finds three of
    them, a flush succeeds, and the next line is not acknowledged. -/
def ackPollFlush : List Iteration :=
  [⟨false, some { Payload.zero with packetAck := 1 }⟩,
    ⟨false, some { Payload.zero with packetAck := 1, rxFree := 3 }⟩,
    ⟨true, some Payload.zero⟩, ⟨false, some { Payload.zero with rxFree := 3 }⟩]

/-- The iteration that sends the line again. -/
theorem master_frame_wellFormed_start :
    ∃ m, (masterTask fun _ => Data.zero).run (masterTask fun _ => Data.zero).init ackPollFlush =
      some m ∧ m.fetchNewLine = false ∧ m.FrameWellFormed := by
  obtain ⟨m, hrun, hm, hfetch⟩ := (masterTask fun _ => Data.zero).exists_reachableBy
    LeavesDataFrame ackPollFlush Master.fetchNewLine (v := false) (by decide) (by decide)
  exact ⟨m, hrun, hfetch, (master_frame_wellFormed _).2 m hm⟩

/-- A line that is not acknowledged, then a flush that fails: the next iteration
    puts the flush frame on the wire again although no flush is due. -/
theorem master_frame_after_failed_flush :
    ¬ ∀ (stream : ℕ → Data) (m : Master), (masterTask stream).Reachable m →
      m.FrameWellFormed := by
  intro h
  let events : List Iteration := [⟨false, some Payload.zero⟩, ⟨true, none⟩]
  obtain ⟨m, -, hm, hv⟩ := (masterTask fun _ => Data.zero).exists_reachable events
    (fun m => (m.fetchNewLine, decide m.Polls, m.txMsg.type)) (v := (false, false, 2)) (by decide)
  obtain ⟨hfetch, hpolls, htype⟩ : m.fetchNewLine = false ∧ ¬ m.Polls ∧ m.txMsg.type = 2 := by
    simpa using hv
  have hframe := (frameWellFormed_iff hm).1 (h _ m hm)
  simp [hfetch, hpolls, htype] at hframe

end Esp32Embroidery.Spi
