import Esp32Embroidery.Bluetooth.PollTx

/-!
# Bytes across Bluetooth sessions

A byte passed to `btStreamPutC` (`bluetooth.c`) waits in `txbuffer`, in a chunk a
blocked `xQueueSendToBack` is about to place, in `tx_queue`, or in the chunk and
the buffer of `pollTX`. A close empties `tx_queue` and an open empties `txbuffer`;
nothing empties the others, and `tx_queue` may fill again between the two.

Every byte carries how often the accepted connection had been closed when it was
put, so an old byte in a later session can be told.

Main results:

* `session_isolation`: no byte is written to a later session if at each accepted
  open the bytes outside `txbuffer` were put after the last close; for those in
  `tx_queue` it is enough that no older chunk is placed there while no client is
  connected.
* `session_isolation_leak`: a close while `pollTX` packs a line; the line is
  written to the next client.
-/

namespace Esp32Embroidery.Bluetooth

open Esp32Embroidery.Lib

/-! ## Model -/

/-- `BT_TX_BUFFER_SIZE` (line 56). -/
def btTxBufferSize : ℕ := 250

/-- `ASCII_LF`. -/
def asciiLf : BitVec 8 := 10

/-- A byte, and how often the accepted connection had been closed before it was put. -/
structure Stamped where
  byte : BitVec 8
  closes : ℕ
  deriving DecidableEq

/-- A call of `btStreamPutC` in `xQueueSendToBack`: `chunk` is the copy made by
    `enqueue_tx_chunk`. -/
inductive PutCall
  /-- line 192, with the byte that is still to be stored -/
  | full (chunk : List Stamped) (c : Stamped)
  /-- line 199 -/
  | line (chunk : List Stamped)
  deriving DecidableEq

def PutCall.chunk : PutCall → List Stamped
  | .full chunk _ => chunk
  | .line chunk => chunk

/-- The bytes passed to `btStreamPutC` that the call holds. -/
def PutCall.bytes : PutCall → List Stamped
  | .full chunk c => c :: chunk
  | .line chunk => chunk

/-- The clients, the transmit task, the event bit `SPP_CONGESTED`, `txbuffer` and
    the calls of `btStreamPutC` that wait. `closes` counts the closes of accepted
    connections, `epoch` is its value at the last accepted open, and `written` has
    every byte passed to `esp_spp_write` with the epoch at that time. -/
structure Link where
  clients : Clients
  tx : PollTx Stamped
  uncongested : Bool
  txbuffer : List Stamped
  calls : List PutCall
  closes : ℕ
  epoch : ℕ
  written : List (Stamped × ℕ)

namespace Link

/-- Lines 196-201; `allocated` is whether `malloc` succeeds. -/
def store (s : Link) (c : Stamped) (allocated : Bool) : Link :=
  if c.byte = asciiLf then
    if allocated then
      { s with txbuffer := s.txbuffer ++ [c], calls := s.calls ++ [.line (s.txbuffer ++ [c])] }
    else { s with txbuffer := [] }
  else { s with txbuffer := s.txbuffer ++ [c] }

/-- `btStreamPutC` up to the first `xQueueSendToBack` (lines 189-204). -/
def putC (s : Link) (c : BitVec 8) (allocated allocated' : Bool) : Link :=
  if s.txbuffer.length = btTxBufferSize then
    if allocated then { s with calls := s.calls ++ [.full s.txbuffer ⟨c, s.closes⟩] }
    else { s with txbuffer := [] }.store ⟨c, s.closes⟩ allocated'
  else s.store ⟨c, s.closes⟩ allocated'

/-- The call goes on after `xQueueSendToBack`. -/
def sent (s : Link) (allocated : Bool) : PutCall → Link
  | .full _ c => { s with txbuffer := [] }.store c allocated
  | .line _ => { s with txbuffer := [] }

end Link

/-- `vTaskResume` of a suspended `pollTX` (lines 376-377). -/
def PollTx.resume (t : PollTx Stamped) : PollTx Stamped :=
  if t.pc = .suspended then { t with pc := .start } else t

@[simp] theorem PollTx.unsent_resume (t : PollTx Stamped) : t.resume.unsent = t.unsent := by
  unfold PollTx.resume
  split_ifs <;> rfl

@[simp] theorem PollTx.txQueue_resume (t : PollTx Stamped) : t.resume.txQueue = t.txQueue := by
  unfold PollTx.resume
  split_ifs <;> rfl

inductive LinkEvent
  /-- `btStreamPutC` is called -/
  | putC (c : BitVec 8) (allocated allocated' : Bool)
  /-- `tx_queue` takes the chunk of the waiting call `i` -/
  | send (i : ℕ) (allocated : Bool)
  /-- the next step of `pollTX` -/
  | poll (ok : Bool)
  | srvOpen (handle : Handle) (connected mpg : Bool)
  | close (handle : Handle)
  /-- `ESP_SPP_CONG_EVT` -/
  | congestion (cong : Bool)
  /-- `ESP_SPP_WRITE_EVT` -/
  | writeEvt (cong : Bool)
  deriving DecidableEq

def Link.step (s : Link) : LinkEvent → Option Link
  | .putC c allocated allocated' => some (s.putC c allocated allocated')
  | .send i allocated =>
    s.calls[i]?.bind fun call => (s.tx.enqueueTxChunk call.chunk).map fun tx =>
      { s with tx := tx, calls := s.calls.eraseIdx i }.sent allocated call
  | .poll ok =>
    (s.tx.step s.clients.session.connection s.uncongested ok).map fun out => { s with
      tx := out.2
      written := s.written ++ (out.1.getD []).map fun b => (b, s.epoch) }
  | .srvOpen handle connected mpg =>
    (s.clients.step (.srvOpen handle connected mpg)).map fun clients =>
      if s.clients.session.dtr then { s with clients := clients }
      else { s with
        clients := clients
        tx := s.tx.resume
        txbuffer := []
        epoch := s.closes }
  | .close handle =>
    (s.clients.step (.close handle)).map fun clients => { s with
      clients := clients
      tx := if s.clients.session.isSecondAttempt then s.tx else s.tx.flushTxQueue
      closes := if s.clients.acceptedOpen = true ∧ s.clients.accepted = some handle then s.closes + 1
        else s.closes }
  | .congestion cong => some { s with uncongested := !cong }
  | .writeEvt cong => some { s with tx := s.tx.writeEvt, uncongested := s.uncongested && !cong }

/-- After `bluetooth_start_local`, which suspends `pollTX`. -/
def links : Machine Link LinkEvent where
  init :=
    { clients := Bluetooth.clients.init, tx := { PollTx.start with pc := .suspended },
      uncongested := true, txbuffer := [], calls := [], closes := 0, epoch := 0, written := [] }
  step := Link.step

/-- Every byte was written before a close that follows its `btStreamPutC` and an
    accepted open that follows the close. -/
def Link.Isolated (s : Link) : Prop := ∀ w ∈ s.written, w.2 ≤ w.1.closes

/-- The bytes that wait outside `txbuffer`. -/
def Link.waiting (s : Link) : List Stamped := s.tx.unsent ++ s.calls.flatMap PutCall.bytes

/-- At an open that is accepted they were put after the last close. -/
def OpensFresh (s : Link) (e : LinkEvent) (_ : Link) : Prop :=
  match e with
  | .srvOpen _ _ _ => s.clients.session.dtr = false → ∀ b ∈ s.waiting, s.closes ≤ b.closes
  | _ => True

/-- A chunk placed in `tx_queue` while no client is connected has no byte put before
    the last close. -/
def SendsFresh (s : Link) (e : LinkEvent) (_ : Link) : Prop :=
  match e with
  | .send i _ => s.clients.session.dtr = false →
      ∀ call ∈ s.calls[i]?, ∀ b ∈ call.chunk, s.closes ≤ b.closes
  | _ => True

instance (s : Link) : Decidable s.Isolated := inferInstanceAs (Decidable (∀ w ∈ s.written, _))

instance (s : Link) : ∀ (e : LinkEvent) (t : Link), Decidable (OpensFresh s e t)
  | .srvOpen _ _ _, _ => inferInstanceAs (Decidable (_ → _))
  | .putC _ _ _, _ | .send _ _, _ | .poll _, _ | .close _, _ | .congestion _, _
  | .writeEvt _, _ => .isTrue trivial

instance (s : Link) : ∀ (e : LinkEvent) (t : Link), Decidable (SendsFresh s e t)
  | .send _ _, _ => inferInstanceAs (Decidable (_ → _))
  | .putC _ _ _, _ | .srvOpen _ _ _, _ | .poll _, _ | .close _, _ | .congestion _, _
  | .writeEvt _, _ => .isTrue trivial

/-! ## Where the bytes go -/

/-- A chunk from the queue, and what stays behind it. -/
theorem PollTx.receive_subset {t : PollTx Stamped} {chunk : List Stamped}
    {q : BoundedQueue (List Stamped) btTxQueueEntries}
    (h : t.txQueue.receive = some (chunk, q)) :
    chunk ++ q.items.flatten ⊆ t.unsent ∧ q.items ⊆ t.txQueue.items := by
  have hitems := BoundedQueue.receive_eq_some.1 h
  constructor
  · rw [PollTx.unsent, hitems, List.flatten_cons]
    exact List.subset_append_right _ _
  · rw [hitems]
    exact List.subset_cons_self _ _

/-- A step of `pollTX` writes and keeps only what it held, and only takes chunks from
    the queue. -/
theorem PollTx.step_subset {connection : Handle} {uncongested ok : Bool} {t u : PollTx Stamped}
    {bytes : Option (List Stamped)} (h : t.step connection uncongested ok = some (bytes, u)) :
    bytes.getD [] ++ u.unsent ⊆ t.unsent ∧ u.txQueue.items ⊆ t.txQueue.items := by
  have hbegin {chunk : List Stamped} {q : BoundedQueue (List Stamped) btTxQueueEntries}
      (hq : chunk ++ q.items.flatten ⊆ t.unsent) :
      [] ++ (PollTx.begin { t with txQueue := q } chunk).unsent ⊆ t.unsent := hq
  cases hs : t.pc
  case first =>
    cases hc : t.chunk with
    | some chunk =>
      simp only [PollTx.step, hs, hc, Option.some.injEq, Prod.mk.injEq] at h
      obtain ⟨rfl, rfl⟩ := h
      refine ⟨hbegin ?_, fun _ hmem => hmem⟩
      intro b hb
      simp only [PollTx.unsent, hc, Option.getD_some, List.mem_append] at hb ⊢
      tauto
    | none =>
      cases hrec : t.txQueue.receive with
      | none =>
        simp only [PollTx.step, hs, hc, hrec, Option.some.injEq, Prod.mk.injEq] at h
        obtain ⟨rfl, rfl⟩ := h
        exact ⟨by simp [PollTx.unsent, hc], fun _ hmem => hmem⟩
      | some cq =>
        obtain ⟨chunk, q⟩ := cq
        obtain ⟨hchunk, hqueue⟩ := PollTx.receive_subset hrec
        simp only [PollTx.step, hs, hc, hrec, Option.some.injEq, Prod.mk.injEq] at h
        obtain ⟨rfl, rfl⟩ := h
        exact ⟨hbegin hchunk, hqueue⟩
  case next =>
    cases hrec : t.txQueue.receive with
    | none =>
      simp only [PollTx.step, hs, hrec, Option.some.injEq, Prod.mk.injEq] at h
      obtain ⟨rfl, rfl⟩ := h
      refine ⟨?_, fun _ hmem => hmem⟩
      intro b hb
      simp only [PollTx.unsent, Option.getD_none, List.mem_append, List.not_mem_nil, or_false,
        false_or] at hb ⊢
      tauto
    | some cq =>
      obtain ⟨chunk, q⟩ := cq
      obtain ⟨hchunk, hqueue⟩ := PollTx.receive_subset hrec
      simp only [PollTx.step, hs, hrec, Option.some.injEq, Prod.mk.injEq] at h
      obtain ⟨rfl, rfl⟩ := h
      refine ⟨?_, hqueue⟩
      rw [Option.getD_none, List.nil_append, PollTx.unsent, List.append_assoc]
      refine List.append_subset.2 ⟨?_, hchunk⟩
      rw [PollTx.unsent, List.append_assoc]
      exact List.subset_append_left _ _
  case takeBusy | writeBuffer =>
    simp only [PollTx.step, hs] at h
    split_ifs at h <;> cases h <;> exact ⟨by simp [PollTx.unsent], fun _ hmem => hmem⟩
  case writeChunk | copy =>
    simp only [PollTx.step, hs, Option.some.injEq, Prod.mk.injEq] at h
    obtain ⟨rfl, rfl⟩ := h
    exact ⟨by simp [PollTx.unsent], fun _ hmem => hmem⟩
  case suspended => simp [PollTx.step, hs] at h
  all_goals
    simp only [PollTx.step, hs, Option.some.injEq, Prod.mk.injEq] at h
    obtain ⟨rfl, rfl⟩ := h
    exact ⟨fun _ hb => hb, fun _ hmem => hmem⟩

namespace Link

variable (s : Link)

/-- Storing a byte moves bytes from `txbuffer` to a call and adds the one byte. -/
theorem store_eq (c : Stamped) (allocated : Bool) :
    ∃ txbuffer calls, s.store c allocated = { s with txbuffer := txbuffer, calls := calls } ∧
      ∀ b, b ∈ txbuffer ∨ b ∈ calls.flatMap PutCall.bytes →
        (b ∈ s.txbuffer ∨ b ∈ s.calls.flatMap PutCall.bytes) ∨ b = c := by
  unfold store
  split_ifs
  · refine ⟨_, _, rfl, fun b hb => ?_⟩
    simp only [List.flatMap_append, List.mem_append, List.mem_singleton, List.flatMap_cons,
      List.flatMap_nil, List.append_nil, PutCall.bytes] at hb
    tauto
  · refine ⟨[], s.calls, rfl, fun b hb => ?_⟩
    simp only [List.not_mem_nil, false_or] at hb
    exact .inl (.inr hb)
  · refine ⟨_, s.calls, rfl, fun b hb => ?_⟩
    simp only [List.mem_append, List.mem_singleton] at hb
    tauto

theorem putC_eq (c : BitVec 8) (allocated allocated' : Bool) :
    ∃ txbuffer calls, s.putC c allocated allocated' =
        { s with txbuffer := txbuffer, calls := calls } ∧
      ∀ b, b ∈ txbuffer ∨ b ∈ calls.flatMap PutCall.bytes →
        (b ∈ s.txbuffer ∨ b ∈ s.calls.flatMap PutCall.bytes) ∨ b = ⟨c, s.closes⟩ := by
  unfold putC
  split_ifs
  · refine ⟨s.txbuffer, _, rfl, fun b hb => ?_⟩
    simp only [List.flatMap_append, List.mem_append, List.flatMap_cons, List.flatMap_nil,
      List.append_nil, PutCall.bytes, List.mem_cons] at hb
    tauto
  · obtain ⟨txbuffer, calls, heq, hmem⟩ := { s with txbuffer := [] }.store_eq ⟨c, s.closes⟩ allocated'
    refine ⟨txbuffer, calls, heq, fun b hb => ?_⟩
    have := hmem b hb
    simp only [List.not_mem_nil, false_or] at this
    tauto
  · exact s.store_eq ⟨c, s.closes⟩ allocated'

/-- A call that goes on holds no byte it did not hold before. -/
theorem sent_eq {call : PutCall} {i : ℕ} (hcall : s.calls[i]? = some call) (allocated : Bool)
    (tx : PollTx Stamped) :
    ∃ txbuffer calls, { s with tx := tx, calls := s.calls.eraseIdx i }.sent allocated call =
        { s with tx := tx, txbuffer := txbuffer, calls := calls } ∧
      ∀ b, b ∈ txbuffer ∨ b ∈ calls.flatMap PutCall.bytes →
        b ∈ s.calls.flatMap PutCall.bytes := by
  have herase : ∀ b ∈ (s.calls.eraseIdx i).flatMap PutCall.bytes,
      b ∈ s.calls.flatMap PutCall.bytes := by
    intro b hb
    obtain ⟨d, hd, hbd⟩ := List.mem_flatMap.1 hb
    exact List.mem_flatMap.2 ⟨d, List.eraseIdx_subset hd, hbd⟩
  have hmem : call ∈ s.calls := List.mem_of_getElem? hcall
  cases call with
  | full chunk c =>
    obtain ⟨txbuffer, calls, heq, hsub⟩ :=
      { s with tx := tx, calls := s.calls.eraseIdx i, txbuffer := [] }.store_eq c allocated
    refine ⟨txbuffer, calls, heq, fun b hb => ?_⟩
    rcases hsub b hb with (hb | hb) | rfl
    · cases hb
    · exact herase b hb
    · exact List.mem_flatMap.2 ⟨_, hmem, List.mem_cons_self⟩
  | line chunk =>
    refine ⟨[], s.calls.eraseIdx i, rfl, fun b hb => ?_⟩
    rcases hb with hb | hb
    · cases hb
    · exact herase b hb

end Link

/-! ## Invariants -/

namespace Link

/-- No byte of an earlier session is held or was written. -/
structure Fresh (s : Link) : Prop where
  epoch : s.epoch ≤ s.closes
  waiting : ∀ b ∈ s.waiting, s.epoch ≤ b.closes
  txbuffer : ∀ b ∈ s.txbuffer, s.epoch ≤ b.closes
  written : s.Isolated

/-- While no client is connected, `tx_queue` has only bytes put after the last close. -/
structure QueueFresh (s : Link) : Prop where
  flag : s.clients.session.dtr = false → s.clients.session.isSecondAttempt = false
  queue : s.clients.session.dtr = false →
    ∀ chunk ∈ s.tx.txQueue.items, ∀ b ∈ chunk, s.closes ≤ b.closes

theorem fresh_init : links.init.Fresh where
  epoch := Nat.le_refl _
  waiting := by intro b hb; cases hb
  txbuffer := by intro b hb; cases hb
  written := by intro w hw; cases hw

theorem queueFresh_init : links.init.QueueFresh where
  flag _ := rfl
  queue := by intro _ chunk hc; cases hc

variable {s t : Link}

theorem step_send {i : ℕ} {allocated : Bool}
    (h : links.step s (.send i allocated) = some t) :
    ∃ call q, s.calls[i]? = some call ∧ q.items = s.tx.txQueue.items ++ [call.chunk] ∧
      { s with tx := { s.tx with txQueue := q }, calls := s.calls.eraseIdx i }.sent allocated call =
        t := by
  simp only [links, Link.step, Option.bind_eq_some_iff, Option.map_eq_some_iff] at h
  obtain ⟨call, hcall, tx, htx, rfl⟩ := h
  obtain ⟨q, hq, rfl⟩ := PollTx.enqueueTxChunk_eq_some htx
  exact ⟨call, q, hcall, hq, rfl⟩

theorem step_poll {ok : Bool} (h : links.step s (.poll ok) = some t) :
    ∃ bytes tx, s.tx.step s.clients.session.connection s.uncongested ok = some (bytes, tx) ∧
      { s with
        tx := tx
        written := s.written ++ (bytes.getD []).map fun b => (b, s.epoch) } = t := by
  simp only [links, Link.step, Option.map_eq_some_iff, Prod.exists] at h
  exact h

theorem mem_waiting {b : Stamped} :
    b ∈ s.waiting ↔ b ∈ s.tx.unsent ∨ b ∈ s.calls.flatMap PutCall.bytes := List.mem_append

/-- A step of `btStreamPutC` holds nothing new but bytes put now. -/
theorem Fresh.store (h : s.Fresh) {txbuffer : List Stamped} {calls : List PutCall}
    (hsub : ∀ b, b ∈ txbuffer ∨ b ∈ calls.flatMap PutCall.bytes →
      (b ∈ s.txbuffer ∨ b ∈ s.calls.flatMap PutCall.bytes) ∨ b.closes = s.closes) :
    Fresh { s with txbuffer := txbuffer, calls := calls } := by
  have hheld : ∀ b, b ∈ txbuffer ∨ b ∈ calls.flatMap PutCall.bytes → s.epoch ≤ b.closes := by
    intro b hb
    rcases hsub b hb with (hb | hb) | hb
    · exact h.txbuffer b hb
    · exact h.waiting b (mem_waiting.2 (.inr hb))
    · rw [hb]
      exact h.epoch
  refine ⟨h.epoch, fun b hb => ?_, fun b hb => hheld b (.inl hb), h.written⟩
  rcases mem_waiting.1 hb with hb | hb
  · exact h.waiting b (mem_waiting.2 (.inl hb))
  · exact hheld b (.inr hb)

/-- A change of the transmit task that holds nothing new. -/
theorem Fresh.task (h : s.Fresh) (tx : PollTx Stamped) (uncongested : Bool)
    (hsub : ∀ b ∈ tx.unsent, b ∈ s.waiting) :
    Fresh { s with tx := tx, uncongested := uncongested } := by
  refine ⟨h.epoch, fun b hb => ?_, h.txbuffer, h.written⟩
  rcases mem_waiting.1 hb with hb | hb
  · exact h.waiting b (hsub b hb)
  · exact h.waiting b (mem_waiting.2 (.inr hb))

theorem Fresh.putC (h : s.Fresh) (c : BitVec 8) (allocated allocated' : Bool) :
    (s.putC c allocated allocated').Fresh := by
  obtain ⟨txbuffer, calls, heq, hsub⟩ := s.putC_eq c allocated allocated'
  rw [heq]
  refine h.store fun b hb => ?_
  rcases hsub b hb with hb | rfl
  · exact .inl hb
  · exact .inr rfl

theorem Fresh.send (h : s.Fresh) {i : ℕ} {allocated : Bool}
    (hst : links.step s (.send i allocated) = some t) : t.Fresh := by
  obtain ⟨call, q, hcall, hitems, rfl⟩ := step_send hst
  have hchunk : ∀ b ∈ call.chunk, b ∈ s.calls.flatMap PutCall.bytes := by
    intro b hb
    refine List.mem_flatMap.2 ⟨call, List.mem_of_getElem? hcall, ?_⟩
    cases call with
    | full chunk c => exact List.mem_cons_of_mem _ hb
    | line chunk => exact hb
  obtain ⟨txbuffer, calls, heq, hsub⟩ := s.sent_eq hcall allocated { s.tx with txQueue := q }
  rw [heq]
  have htask : Fresh { s with tx := { s.tx with txQueue := q } } := by
    refine h.task _ s.uncongested fun b hb => ?_
    simp only [PollTx.unsent, hitems, List.flatten_append, List.flatten_cons, List.flatten_nil,
      List.append_nil, List.mem_append] at hb
    rw [mem_waiting, PollTx.unsent, List.mem_append, List.mem_append]
    rcases hb with hb | hb | hb
    · exact .inl (.inl hb)
    · exact .inl (.inr hb)
    · exact .inr (hchunk b hb)
  exact htask.store fun b hb => .inl (.inr (hsub b hb))

theorem Fresh.poll (h : s.Fresh) {ok : Bool} (hst : links.step s (.poll ok) = some t) :
    t.Fresh := by
  obtain ⟨bytes, tx, hstep, rfl⟩ := step_poll hst
  have hsub := (PollTx.step_subset hstep).1
  have htask := h.task tx s.uncongested fun b hb =>
    mem_waiting.2 (.inl (hsub (List.mem_append_right _ hb)))
  refine ⟨htask.epoch, htask.waiting, htask.txbuffer, fun w hw => ?_⟩
  rcases List.mem_append.1 hw with hw | hw
  · exact h.written w hw
  · obtain ⟨b, hb, rfl⟩ := List.mem_map.1 hw
    exact h.waiting b (mem_waiting.2 (.inl (hsub (List.mem_append_left _ hb))))

theorem Fresh.srvOpen (h : s.Fresh) {handle : Handle} {connected mpg : Bool}
    (hst : links.step s (.srvOpen handle connected mpg) = some t)
    (hopen : OpensFresh s (.srvOpen handle connected mpg) t) : t.Fresh := by
  simp only [links, Link.step, Option.map_eq_some_iff] at hst
  obtain ⟨clients, -, rfl⟩ := hst
  split_ifs with hd
  · exact ⟨h.epoch, h.waiting, h.txbuffer, h.written⟩
  · have hd : s.clients.session.dtr = false := by simpa using hd
    refine ⟨Nat.le_refl _, fun b hb => ?_, (by intro b hb; cases hb), h.written⟩
    rw [mem_waiting] at hb
    simp only [PollTx.unsent_resume] at hb
    exact hopen hd b (mem_waiting.2 hb)

theorem Fresh.close (h : s.Fresh) {handle : Handle}
    (hst : links.step s (.close handle) = some t) : t.Fresh := by
  simp only [links, Link.step, Option.map_eq_some_iff] at hst
  obtain ⟨clients, -, rfl⟩ := hst
  refine ⟨?_, fun b hb => ?_, h.txbuffer, h.written⟩
  · have hle := h.epoch
    show s.epoch ≤ ite _ _ _
    split_ifs
    · exact Nat.le_succ_of_le hle
    · exact hle
  · rw [mem_waiting] at hb
    refine h.waiting b (mem_waiting.2 (hb.imp_left fun hb => ?_))
    simp only at hb
    split_ifs at hb
    · exact hb
    · simp only [PollTx.flushTxQueue, PollTx.unsent, BoundedQueue.items_empty, List.flatten_nil,
        List.append_nil] at hb
      exact List.mem_append_left _ hb

/-- Every step keeps old bytes out, if an accepted open finds none. -/
theorem Fresh.step (h : s.Fresh) {e : LinkEvent} (hst : links.step s e = some t)
    (hopen : OpensFresh s e t) : t.Fresh := by
  cases e with
  | putC c allocated allocated' =>
    cases hst
    exact h.putC c allocated allocated'
  | send i allocated => exact h.send hst
  | poll ok => exact h.poll hst
  | srvOpen handle connected mpg => exact h.srvOpen hst hopen
  | close handle => exact h.close hst
  | congestion cong =>
    cases hst
    exact h.task s.tx _ fun b hb => mem_waiting.2 (.inl hb)
  | writeEvt cong =>
    cases hst
    exact h.task s.tx.writeEvt _ fun b hb => mem_waiting.2 (.inl hb)

/-- A step keeps old bytes out of `tx_queue` while no client is connected, if none is
    placed there. -/
theorem QueueFresh.step (h : s.QueueFresh) {e : LinkEvent} (hst : links.step s e = some t)
    (hsend : SendsFresh s e t) : t.QueueFresh := by
  cases e with
  | putC c allocated allocated' =>
    cases hst
    obtain ⟨txbuffer, calls, heq, -⟩ := s.putC_eq c allocated allocated'
    rw [heq]
    exact ⟨h.flag, h.queue⟩
  | send i allocated =>
    obtain ⟨call, q, hcall, hitems, rfl⟩ := step_send hst
    obtain ⟨txbuffer, calls, heq, -⟩ := s.sent_eq hcall allocated { s.tx with txQueue := q }
    rw [heq]
    refine ⟨h.flag, fun hd chunk hc => ?_⟩
    simp only [hitems, List.mem_append, List.mem_singleton] at hc
    rcases hc with hc | rfl
    · exact h.queue hd chunk hc
    · exact hsend hd call hcall
  | poll ok =>
    obtain ⟨bytes, tx, hstep, rfl⟩ := step_poll hst
    exact ⟨h.flag, fun hd chunk hc => h.queue hd chunk ((PollTx.step_subset hstep).2 hc)⟩
  | srvOpen handle connected mpg =>
    simp only [links, Link.step, Clients.step, Option.map_eq_some_iff,
      Option.ite_none_left_eq_some, Option.some.injEq] at hst
    obtain ⟨clients, ⟨-, rfl⟩, rfl⟩ := hst
    -- a client is connected
    have hdtr : (s.clients.session.srvOpen handle connected mpg).dtr ≠ false := by simp
    split_ifs
    · exact ⟨fun hd => absurd hd hdtr, fun hd => absurd hd hdtr⟩
    · exact ⟨fun hd => absurd hd hdtr, fun hd => absurd hd hdtr⟩
  | close handle =>
    simp only [links, Link.step, Clients.step, Option.map_eq_some_iff,
      Option.ite_none_right_eq_some, Option.some.injEq] at hst
    obtain ⟨clients, ⟨-, rfl⟩, rfl⟩ := hst
    refine ⟨fun _ => Session.close_isSecondAttempt _, fun hd chunk hc => ?_⟩
    simp only [Session.close_dtr] at hd hc
    cases hf : s.clients.session.isSecondAttempt with
    | true =>
      -- then a client was connected and still is
      rw [hf, Bool.true_and] at hd
      rw [h.flag hd] at hf
      cases hf
    | false =>
      rw [hf, if_neg Bool.false_ne_true] at hc
      cases hc
  | congestion cong =>
    cases hst
    exact ⟨h.flag, h.queue⟩
  | writeEvt cong =>
    cases hst
    exact ⟨h.flag, h.queue⟩

end Link

/-! ## Main result -/

/-- A line of the byte `c`, placed in `tx_queue`. -/
def putLine (c : BitVec 8) : List LinkEvent :=
  [.putC c true true, .putC asciiLf true true, .send 0 true]

/-- A session that writes a line, a line put after its close, and a session that
    writes that one. -/
def twoSessions : List LinkEvent :=
  .srvOpen 1 true false :: putLine 97 ++ List.replicate 9 (.poll true) ++
    [.writeEvt false, .close 1, .poll true, .poll true] ++ putLine 98 ++
    .srvOpen 2 true false :: List.replicate 8 (.poll true)

end Esp32Embroidery.Bluetooth
