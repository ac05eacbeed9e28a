import Esp32Embroidery.Usb.RxCallback
import Mathlib.Data.List.TakeDrop

/-!
# Realtime commands on the receive paths

The UART interrupt (`uart_serial.c`), the Bluetooth callback (`bluetooth.c`) and the USB callback
(`usb_serial.c`) offer received bytes to `enqueue_realtime_command` and store the others. Only
the last one looks at the ring before it fetches.

* `uart0Isr_run`, `usbRxCallback_run`: the calls are runs of the machines `serialRx` and `usbRx`.
* `realtime_offered_iff`: the UART and Bluetooth offer every byte, USB offers those for which
  the ring had room.
-/

namespace Esp32Embroidery.Serial

open Esp32Embroidery.Lib Esp32Embroidery.Usb

/-! ## Model -/

/-- The ring, and the bytes that `enqueue_realtime_command` has been called with. -/
structure Received where
  rx : RxBuffer
  offered : List Byte

/-- A byte goes to the ring of the Bluetooth stream (lines 411–420) or of the USB stream
    (lines 254–260). -/
def RxBuffer.store (size : ℕ) (r : RxBuffer) (c : Byte) : RxBuffer :=
  let next := bufNext size r.head
  if next = r.tail then { r with overflow := true }
  else { r with data := Function.update r.data r.head c, head := next }

/-- The body of the three loops. The answer of `enqueue_realtime_command` may depend on what it
    has been offered before. -/
def Received.byte (store : RxBuffer → Byte → RxBuffer) (enqueue : List Byte → Byte → Bool)
    (s : Received) (c : Byte) : Received :=
  { rx := if enqueue s.offered c then s.rx else store s.rx c
    offered := s.offered ++ [c] }

/-- The loop of `_uart0_isr` (lines 500–516) over what is in the FIFO. -/
def uartLoop (size : ℕ) (enqueue : List Byte → Byte → Bool) : ℕ → List Byte → Received → Received
  | cnt + 1, c :: fifo, s =>
    uartLoop size enqueue cnt fifo (s.byte (RxBuffer.receive size) enqueue c)
  | _, _, s => s

/-- `_uart0_isr` (lines 491–517); `later` comes into the FIFO while it runs. UART 1 and 2 have
    the same with their own rings. -/
def uart0Isr (size : ℕ) (enqueue : List Byte → Byte → Bool) (rx : RxBuffer) (rxfifoOvf : Bool)
    (fifo later : List Byte) : Received :=
  let rx := if rxfifoOvf then { rx with overflow := true } else rx
  uartLoop size enqueue fifo.length (fifo ++ later) { rx := rx, offered := [] }

/-- `ESP_SPP_DATA_IND_EVT` (lines 405–423); `dsr` is `session.linestate.dsr`. -/
def espSppDataInd (size : ℕ) (enqueue : List Byte → Byte → Bool) (rx : RxBuffer) (dsr : Bool)
    (data : List Byte) : Received :=
  let s : Received := { rx := rx, offered := [] }
  if dsr then data.foldl (Received.byte (RxBuffer.store size) enqueue) s else s

/-- `usb_rx_callback` (lines 240–264) without a reader; `tinyusb_cdcacm_read` returns as much of
    `avail` as it is asked for. -/
def usbRxCallback (bufsize size : ℕ) (enqueue : List Byte → Byte → Bool) (rx : RxBuffer)
    (avail : List Byte) : Received :=
  let free := requested bufsize size rx.tail rx.head
  (avail.take free).foldl (Received.byte (RxBuffer.store size) enqueue) { rx := rx, offered := [] }

/-! ## What is offered -/

theorem offered_foldl (store : RxBuffer → Byte → RxBuffer) (enqueue : List Byte → Byte → Bool)
    (bytes : List Byte) (s : Received) :
    (bytes.foldl (Received.byte store enqueue) s).offered = s.offered ++ bytes := by
  induction bytes generalizing s with
  | nil => simp
  | cons c bytes ih =>
    rw [List.foldl_cons, ih]
    simp [Received.byte]

theorem offered_uartLoop (size : ℕ) (enqueue : List Byte → Byte → Bool) (fifo later : List Byte)
    (s : Received) :
    (uartLoop size enqueue fifo.length (fifo ++ later) s).offered = s.offered ++ fifo := by
  induction fifo generalizing s with
  | nil => cases later <;> simp [uartLoop]
  | cons c fifo ih =>
    rw [List.length_cons, List.cons_append, uartLoop, ih]
    simp [Received.byte]

theorem offered_uart0Isr (size : ℕ) (enqueue : List Byte → Byte → Bool) (rx : RxBuffer)
    (rxfifoOvf : Bool) (fifo later : List Byte) :
    (uart0Isr size enqueue rx rxfifoOvf fifo later).offered = fifo :=
  offered_uartLoop size enqueue fifo later _

theorem offered_espSppDataInd (size : ℕ) (enqueue : List Byte → Byte → Bool) (rx : RxBuffer)
    (data : List Byte) : (espSppDataInd size enqueue rx true data).offered = data :=
  offered_foldl _ _ data _

theorem offered_usbRxCallback (bufsize size : ℕ) (enqueue : List Byte → Byte → Bool)
    (rx : RxBuffer) (avail : List Byte) :
    (usbRxCallback bufsize size enqueue rx avail).offered =
      avail.take (requested bufsize size rx.tail rx.head) :=
  offered_foldl _ _ _ _

/-! ## The calls as runs of the machines -/

/-- The loop of the interrupt, from any state of the task. -/
theorem uartLoop_run (size : ℕ) (enqueue : List Byte → Byte → Bool) (fifo later : List Byte)
    (s : Uart0) (offered : List Byte) :
    ∃ es t, (serialRx size).run s es = some t ∧ t.pc = s.pc ∧
      t.rx = (uartLoop size enqueue fifo.length (fifo ++ later)
        { rx := s.rx, offered := offered }).rx := by
  induction fifo generalizing s offered with
  | nil => exact ⟨[], s, rfl, rfl, by cases later <;> rfl⟩
  | cons c fifo ih =>
    obtain ⟨es, t, hrun, hpc, hrx⟩ :=
      ih (s.isr size c (enqueue offered c)) (offered ++ [c])
    refine ⟨.rx c (enqueue offered c) :: es, t, hrun, hpc.trans ?_, hrx.trans ?_⟩
    · cases enqueue offered c <;> rfl
    · cases henq : enqueue offered c with
      | true => simp [uartLoop, Received.byte, Uart0.isr, henq]
      | false => simp [uartLoop, Received.byte, Uart0.isr, henq]

/-- `uart0Isr` is a run of `serialRx` in which only the interrupt has a turn. -/
theorem uart0Isr_run (size : ℕ) (enqueue : List Byte → Byte → Bool) (rxfifoOvf : Bool)
    (fifo later : List Byte) (s : Uart0) :
    ∃ es t, (serialRx size).run s es = some t ∧ t.pc = s.pc ∧
      t.rx = (uart0Isr size enqueue s.rx rxfifoOvf fifo later).rx := by
  cases rxfifoOvf with
  | false => exact uartLoop_run size enqueue fifo later s []
  | true =>
    obtain ⟨es, t, hrun, hpc, hrx⟩ := uartLoop_run size enqueue fifo later
      { s with
        rx := { s.rx with overflow := true }
        history := .atomic .fifoOverflow :: s.history } []
    exact ⟨.rxOverflow :: es, t, hrun, hpc, hrx⟩

/-- The ring and the bytes offered in a state of the machine. -/
def received (s : UsbRx) : Received :=
  { rx := s.rx, offered := s.answers.map Prod.fst }

/-- A byte takes one, two or four steps. -/
theorem byte_run (bufsize : ℕ) {size : ℕ} (r : RxRing size) (enqueue : List Byte → Byte → Bool)
    {c : Byte} {bytes : List Byte} {s : UsbRx} (hpc : s.callback = .loop (c :: bytes)) :
    ∃ es t, (usbRx bufsize size r).run s es = some t ∧ t.callback = .loop bytes ∧
      received t = (received s).byte (RxBuffer.store size) enqueue c := by
  cases henq : enqueue (s.answers.map Prod.fst) c with
  | true =>
    refine ⟨[.enqueue true], { s with
      callback := .loop bytes
      answers := s.answers ++ [(c, true)] }, ?_, rfl, ?_⟩
    · simp [Machine.run, usbRx, UsbRx.step, hpc]
    · simp [received, Received.byte, henq]
  | false =>
    by_cases hfull : bufNext size s.rx.head = s.rx.tail
    · refine ⟨[.enqueue false, .next], { s with
        rx := { s.rx with overflow := true }
        callback := .loop bytes
        answers := s.answers ++ [(c, false)] }, ?_, rfl, ?_⟩
      · simp [Machine.run, usbRx, UsbRx.step, UsbRx.next, hpc, hfull]
      · simp [received, Received.byte, henq, RxBuffer.store, hfull]
    · refine ⟨[.enqueue false, .next, .next, .next], { s with
        rx := { s.rx with
          data := Function.update s.rx.data s.rx.head c, head := bufNext size s.rx.head }
        callback := .loop bytes
        answers := s.answers ++ [(c, false)] }, ?_, rfl, ?_⟩
      · simp [Machine.run, usbRx, UsbRx.step, UsbRx.next, hpc, hfull]
      · simp [received, Received.byte, henq, RxBuffer.store, hfull]

/-- The loop of the callback with nobody reading. -/
theorem loop_run (bufsize : ℕ) {size : ℕ} (r : RxRing size) (enqueue : List Byte → Byte → Bool)
    {bytes : List Byte} {s : UsbRx} (hpc : s.callback = .loop bytes) :
    ∃ es t, (usbRx bufsize size r).run s es = some t ∧ t.callback = .idle ∧
      received t = bytes.foldl (Received.byte (RxBuffer.store size) enqueue) (received s) := by
  induction bytes generalizing s with
  | nil =>
    refine ⟨[.next], { s with callback := .idle }, ?_, rfl, rfl⟩
    simp [Machine.run, usbRx, UsbRx.step, UsbRx.next, hpc]
  | cons c bytes ih =>
    obtain ⟨es, u, hrun, hu, hbyte⟩ := byte_run bufsize r enqueue hpc
    obtain ⟨es', t, hrun', ht, hbytes⟩ := ih hu
    refine ⟨es ++ es', t, ?_, ht, ?_⟩
    · rw [Machine.run_append, hrun]
      exact hrun'
    · rw [hbytes, List.foldl_cons, hbyte]

/-- `usbRxCallback` is what the callback of `usbRx` does when nobody reads. -/
theorem usbRxCallback_run (bufsize size : ℕ) (r : RxRing size)
    (enqueue : List Byte → Byte → Bool) (avail : List Byte) :
    ∃ es t, (usbRx bufsize size r).run (usbRx bufsize size r).init es = some t ∧
      t.callback = .idle ∧ received t = usbRxCallback bufsize size enqueue r.toRxBuffer avail := by
  let free := requested bufsize size r.tail r.head
  have hle : (avail.take free).length ≤ free := List.length_take_le _ _
  let s : UsbRx := { (usbRx bufsize size r).init with
    callback := .loop (avail.take free), fetched := avail.take free }
  have hpc : s.callback = .loop (avail.take free) := rfl
  obtain ⟨es, t, hrun, ht, hreceived⟩ := loop_run bufsize r enqueue hpc
  refine ⟨.callback :: .next :: .read (some (avail.take free)) :: es, t, ?_, ht, hreceived⟩
  rw [← hrun]
  simp only [Machine.run, usbRx, UsbRx.step, UsbRx.next, Option.bind_some]
  rw [if_pos hle]
  rfl

/-! ## The result -/

/-- Whatever the ring holds: the interrupt and the Bluetooth callback offer every byte, and the
    USB callback does so iff the ring has room for all of them. -/
theorem realtime_offered_iff (k bufsize : ℕ) (enqueue : List Byte → Byte → Bool)
    (r : RxRing (2 ^ k)) (block : List Byte) :
    (∀ rxfifoOvf later,
      (uart0Isr (2 ^ k) enqueue r.toRxBuffer rxfifoOvf block later).offered = block) ∧
    (espSppDataInd (2 ^ k) enqueue r.toRxBuffer true block).offered = block ∧
    (block.length ≤ bufsize →
      ((usbRxCallback bufsize (2 ^ k) enqueue r.toRxBuffer block).offered = block ↔
        block.length ≤ (2 ^ k - 1 - (r.contents (2 ^ k)).length) % 2 ^ 16)) := by
  refine ⟨?_, ?_, ?_⟩
  · intro rxfifoOvf later
    exact offered_uart0Isr (2 ^ k) enqueue r.toRxBuffer rxfifoOvf block later
  · exact offered_espSppDataInd (2 ^ k) enqueue r.toRxBuffer block
  · intro hlen
    have hfree : usbSerialRxFree (2 ^ k) r.tail r.head =
        (2 ^ k - 1 - (r.contents (2 ^ k)).length) % 2 ^ 16 := by
      rw [usbSerialRxFree, bufCount_eq r.tail_lt, RxBuffer.contents, length_ringContents]
    rw [offered_usbRxCallback, List.take_eq_self_iff, requested, hfree]
    omega

/-- A full ring of four cells: a reset is not even fetched. -/
theorem usb_full_ring_skips_reset :
    ∃ r : RxRing 4, (r.contents 4).length = 3 ∧
      (usbRxCallback 64 4 (fun _ c => c = 0x18) r.toRxBuffer [0x18]).offered ≠ [0x18] :=
  ⟨⟨⟨fun _ => 0x20, 0, 1, false⟩, by decide, by decide⟩, by decide +kernel, by decide +kernel⟩

end Esp32Embroidery.Serial
