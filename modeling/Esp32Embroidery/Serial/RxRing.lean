import Esp32Embroidery.Lib.BoundedQueue
import Esp32Embroidery.Lib.CircularBuffer
import Esp32Embroidery.Lib.Linearization

/-!
# The receive ring of UART 0

`_uart0_isr` (`uart_serial.c`) stores received bytes in `rxbuffer`; `serialRead`,
`serialFlush` and `serialCancel` run in a task and may be interrupted between
any two of their accesses to it. `enqueue_realtime_command` runs in the
interrupt and may call `serialFlush` and `serialCancel` too, as a whole.
`UART_MUTEX_LOCK` expands to nothing, and unlike `serialDisable` the functions
do not mask the receive interrupt.

Specification: `RefinesFifo`, a FIFO of capacity `RX_BUFFER_SIZE - 1` with an
overflow flag, on calls that carry their results. A call of the task takes effect
at some moment between its first and its last access to the ring.

* `serialFlush_whole`, `serialCancel_whole`: without an interrupt inside, the
  accesses of the task do what the call in the interrupt does.
* `Undisturbed`: the steps of the interrupt that do no harm to a call in progress.
* `account_fifo`: what was stored was read or is left.
-/

namespace Esp32Embroidery.Serial

open Esp32Embroidery.Lib

abbrev Byte := BitVec 8

/-- `ASCII_CAN`. -/
def asciiCan : Byte := 0x18

/-! ## Model -/

/-- `rxbuffer` (line 134). -/
structure RxBuffer where
  data : ℕ → Byte
  head : ℕ
  tail : ℕ
  overflow : Bool

/-- `BUFCOUNT(head, tail, size)`. -/
def bufCount (head tail size : ℕ) : ℕ := (((head : ℤ) - tail) % size).toNat

/-- `RX_BUFFER_SIZE_MASK` (line 130), a `uint16_t`; `size` is `RX_BUFFER_SIZE`. -/
def rxBufferSizeMask (size : ℕ) : ℕ := (size - 1) % 2 ^ 16

/-- The interrupt handler on a byte that `enqueue_realtime_command` did not
    consume (lines 507-514). -/
def RxBuffer.receive (size : ℕ) (r : RxBuffer) (c : Byte) : RxBuffer :=
  let bptr := (r.head + 1) &&& rxBufferSizeMask size
  if bptr = r.tail then { r with overflow := true }
  else { r with data := Function.update r.data r.head c, head := bptr }

/-- `serialAvailable` (lines 519-524). -/
def RxBuffer.available (size : ℕ) (r : RxBuffer) : ℕ :=
  bufCount (r.head % 2 ^ 16) (r.tail % 2 ^ 16) size % 2 ^ 16

/-- `serialRXFree` (lines 531-536). -/
def RxBuffer.rxFree (size : ℕ) (r : RxBuffer) : ℕ :=
  (size - 1 - bufCount (r.head % 2 ^ 16) (r.tail % 2 ^ 16) size) % 2 ^ 16

/-- `serialFlush` (lines 583-593), called in the interrupt. -/
def RxBuffer.serialFlush (r : RxBuffer) : RxBuffer := { r with tail := r.head, overflow := false }

/-- `serialCancel` (lines 604-613), called in the interrupt. -/
def RxBuffer.serialCancel (size : ℕ) (r : RxBuffer) : RxBuffer :=
  let data := Function.update r.data r.head asciiCan
  let tail := r.head
  { r with data := data, tail := tail, head := (tail + 1) &&& (size - 1) }

/-- The next access of the task to `rxbuffer`, with the local variables it needs. -/
inductive TaskPc
  | idle
  /-- `serialRead`, line 542 -/
  | readHead (bptr : ℕ)
  /-- line 545 -/
  | readData (bptr : ℕ)
  /-- line 546 -/
  | readTail (bptr : ℕ) (data : Byte)
  /-- `serialFlush`, the store of line 589 -/
  | flushTail (head : ℕ)
  /-- line 590 -/
  | flushOverflow
  /-- `serialCancel`, the store of line 608 -/
  | cancelData (head : ℕ)
  /-- line 609, the load -/
  | cancelHead
  /-- line 609, the store -/
  | cancelTail (head : ℕ)
  /-- line 610 -/
  | cancelNext
  deriving DecidableEq

/-- A call with its result, as the FIFO sees it. -/
inductive Call
  /-- a received byte that was stored -/
  | stored (c : Byte)
  /-- a received byte for which there was no room -/
  | dropped (c : Byte)
  /-- the UART reports `UART_INTR_RXFIFO_OVF` -/
  | fifoOverflow
  /-- `serialRead` and what it returned, `none` for `-1` -/
  | read (result : Option Byte)
  | flush
  | overflowOff
  | cancel
  deriving DecidableEq

/-- The calls of the task. -/
inductive Op
  | read
  | flush
  | cancel
  deriving DecidableEq

/-- The call is the operation with some result. -/
def Op.Answers : Op → Call → Prop
  | .read, .read _ | .flush, .flush | .cancel, .cancel => True
  | _, _ => False

/-- The ring, the task, and what was called and returned so far, newest first. -/
structure Uart0 where
  rx : RxBuffer
  pc : TaskPc
  history : List (HistoryEntry Op Call)

inductive Event
  /-- the interrupt takes a byte, which `enqueue_realtime_command` consumes or not -/
  | rx (c : Byte) (consumed : Bool)
  /-- the interrupt sees `UART_INTR_RXFIFO_OVF` -/
  | rxOverflow
  /-- `enqueue_realtime_command` calls `serialFlush` -/
  | isrFlush
  /-- `enqueue_realtime_command` calls `serialCancel` -/
  | isrCancel
  /-- the task calls `serialRead` -/
  | read
  /-- the task calls `serialFlush` -/
  | flush
  /-- the task calls `serialCancel` -/
  | cancel
  /-- the next access of the call in progress -/
  | task
  deriving DecidableEq

namespace Uart0

/-- The interrupt on one byte (lines 503-515). -/
def isr (size : ℕ) (s : Uart0) (c : Byte) (consumed : Bool) : Uart0 :=
  if consumed then s
  else
    let stored : Bool := (s.rx.head + 1) &&& rxBufferSizeMask size ≠ s.rx.tail
    { s with
      rx := s.rx.receive size c
      history := .atomic (if stored then .stored c else .dropped c) :: s.history }

/-- The access at the program counter. -/
def task (size : ℕ) (s : Uart0) : Option Uart0 :=
  match s.pc with
  | .idle => none
  | .readHead bptr =>
    if bptr = s.rx.head then
      some { s with pc := .idle, history := .ret (.read none) :: s.history }
    else some { s with pc := .readData bptr }
  | .readData bptr => some { s with pc := .readTail ((bptr + 1) % 2 ^ 16) (s.rx.data bptr) }
  | .readTail bptr data => some { s with
      rx := { s.rx with tail := bptr &&& (size - 1) }
      pc := .idle
      history := .ret (.read (some data)) :: s.history }
  | .flushTail head => some { s with
      rx := { s.rx with tail := head }
      pc := .flushOverflow
      history := .ret .flush :: s.history }
  | .flushOverflow => some { s with
      rx := { s.rx with overflow := false }
      pc := .idle
      history := .atomic .overflowOff :: s.history }
  | .cancelData head => some { s with
      rx := { s.rx with data := Function.update s.rx.data head asciiCan }
      pc := .cancelHead }
  | .cancelHead => some { s with pc := .cancelTail s.rx.head }
  | .cancelTail head => some { s with rx := { s.rx with tail := head }, pc := .cancelNext }
  | .cancelNext => some { s with
      rx := { s.rx with head := (s.rx.tail + 1) &&& (size - 1) }
      pc := .idle
      history := .ret .cancel :: s.history }

/-- The task calls a function; its first access is a load of `tail` or `head`. -/
def call (s : Uart0) (op : Op) (pc : TaskPc) : Option Uart0 :=
  if s.pc = .idle then some { s with pc := pc, history := .invoke op :: s.history } else none

def step (size : ℕ) (s : Uart0) : Event → Option Uart0
  | .rx c consumed => some (s.isr size c consumed)
  | .rxOverflow => some { s with
      rx := { s.rx with overflow := true }, history := .atomic .fifoOverflow :: s.history }
  | .isrFlush => some { s with
      rx := s.rx.serialFlush, history := .atomic .overflowOff :: .atomic .flush :: s.history }
  | .isrCancel => some { s with
      rx := s.rx.serialCancel size, history := .atomic .cancel :: s.history }
  | .read => s.call .read (.readHead (s.rx.tail % 2 ^ 16))
  | .flush => s.call .flush (.flushTail s.rx.head)
  | .cancel => s.call .cancel (.cancelData s.rx.head)
  | .task => s.task size

end Uart0

/-- `rxbuffer = {0}`, no call in progress. -/
def serialRx (size : ℕ) : Machine Uart0 Event where
  init := { rx := { data := fun _ => 0, head := 0, tail := 0, overflow := false }
            pc := .idle, history := [] }
  step := Uart0.step size

theorem serialFlush_whole (size : ℕ) {s : Uart0} (hidle : s.pc = .idle) :
    (serialRx size).run s [.flush, .task, .task] = some { s with
      rx := s.rx.serialFlush
      history := .atomic .overflowOff :: .ret .flush :: .invoke .flush :: s.history } := by
  simp [Machine.run, serialRx, Uart0.step, Uart0.call, Uart0.task, hidle, RxBuffer.serialFlush]

theorem serialCancel_whole (size : ℕ) {s : Uart0} (hidle : s.pc = .idle) :
    (serialRx size).run s [.cancel, .task, .task, .task, .task] = some { s with
      rx := s.rx.serialCancel size
      history := .ret .cancel :: .invoke .cancel :: s.history } := by
  simp [Machine.run, serialRx, Uart0.step, Uart0.call, Uart0.task, hidle, RxBuffer.serialCancel]

/-! ## Specification -/

/-- A FIFO of bytes with an overflow flag. -/
structure Fifo (cap : ℕ) where
  queue : BoundedQueue Byte cap
  overflow : Bool

/-- A call on the FIFO with its result: a byte is stored iff there is room and
    else dropped with the flag set, a read takes the oldest byte, a flush empties
    the queue, a cancel leaves `ASCII_CAN` alone. `none` for a wrong result. -/
def Fifo.step {cap : ℕ} (f : Fifo cap) : Call → Option (Fifo cap)
  | .stored c => (f.queue.send c).map fun q => { f with queue := q }
  | .dropped _ => if f.queue.items.length = cap then some { f with overflow := true } else none
  | .fifoOverflow => some { f with overflow := true }
  | .read result =>
    match f.queue.receive with
    | none => if result = none then some f else none
    | some (c, q) => if result = some c then some { f with queue := q } else none
  | .flush => some { f with queue := .empty }
  | .overflowOff => some { f with overflow := false }
  | .cancel => if h : 1 ≤ cap then some { f with queue := ⟨[asciiCan], h⟩ } else none

def fifo (cap : ℕ) : Machine (Fifo cap) Call where
  init := { queue := .empty, overflow := false }
  step := Fifo.step

/-- The bytes stored and the bytes read since the last flush or cancel;
    `ASCII_CAN` counts as stored by the cancel. -/
def account : List Byte × List Byte → Call → List Byte × List Byte
  | (stored, read), .stored c => (stored ++ [c], read)
  | (stored, read), .read (some c) => (stored, read ++ [c])
  | _, .flush => ([], [])
  | _, .cancel => ([asciiCan], [])
  | h, _ => h

/-- The bytes in the ring, oldest first. -/
def RxBuffer.contents (size : ℕ) (r : RxBuffer) : List Byte :=
  ringContents r.data size r.head r.tail

/-- The calls so far, in some order in which each takes effect while it is in
    progress, are a run of the FIFO of capacity `size - 1`; the ring holds its
    contents whenever the task is between two calls, and what was stored is what
    was read and what is left, in this order. -/
def RefinesFifo (size : ℕ) (s : Uart0) : Prop :=
  ∃ calls status f, Linearizes Op.Answers s.history calls status ∧
    (fifo (size - 1)).run (fifo (size - 1)).init calls = some f ∧
    f.overflow = s.rx.overflow ∧
    (calls.foldl account ([], [])).1 = (calls.foldl account ([], [])).2 ++ f.queue.items ∧
    s.rx.available size + s.rx.rxFree size = size - 1 ∧
    (s.pc = .idle → status = .idle ∧ s.rx.contents size = f.queue.items ∧
      s.rx.available size = f.queue.items.length)

/-! ## Where the interrupt does no harm -/

/-- A byte may be stored: inside `serialCancel` not in the cell that is to hold
    `ASCII_CAN` alone. -/
def TaskPc.admitsStore (r : RxBuffer) : TaskPc → Bool
  | .cancelData _ | .cancelHead => false
  | .cancelTail head => r.head ≠ head
  | .cancelNext => r.head ≠ r.tail
  | _ => true

/-- A byte may be dropped: inside `serialFlush` not after another was stored
    there, unless only these are in the ring. -/
def TaskPc.admitsDrop (r : RxBuffer) : TaskPc → Bool
  | .flushTail head => r.head = head ∨ r.tail = head
  | _ => true

/-- `serialFlush` may run: the call in progress sets `tail` to `head` as well. In a ring of
    two cells `serialCancel` then leaves `ASCII_CAN` too, and no room for more. -/
def TaskPc.admitsFlush (size : ℕ) (r : RxBuffer) : TaskPc → Bool
  | .readHead bptr => r.head = bptr ∨ r.head = (bptr + 1) &&& (size - 1)
  | .readData bptr => r.head = (bptr + 1) &&& (size - 1)
  | .readTail bptr _ => r.head = bptr &&& (size - 1)
  | .flushTail head => r.head = head
  | .cancelTail head => r.head = head ∨ size = 2
  | .cancelNext => r.head = r.tail
  | _ => true

/-- `serialCancel` may run: the call in progress sets `tail` to the `head` before it or
    behind it, or it will read `ASCII_CAN` itself. -/
def TaskPc.admitsCancel (size : ℕ) (r : RxBuffer) : TaskPc → Bool
  | .readHead bptr => r.head = bptr ∨ r.head = r.tail
  | .readData bptr => r.head = (bptr + 1) &&& (size - 1) ∨ r.head = bptr
  | .readTail bptr _ => r.head = bptr &&& (size - 1)
  | .flushTail head | .cancelTail head => r.head = head ∨ (r.head + 1) &&& (size - 1) = head
  | .cancelData _ | .cancelHead => false
  | _ => true

def Uart0.admits (size : ℕ) (s : Uart0) : Event → Bool
  | .rx _ false =>
    if (s.rx.head + 1) &&& rxBufferSizeMask size = s.rx.tail then s.pc.admitsDrop s.rx
    else s.pc.admitsStore s.rx
  | .isrFlush => s.pc.admitsFlush size s.rx
  | .isrCancel => s.pc.admitsCancel size s.rx
  | _ => true

/-- The interrupt does no harm to the call in progress. -/
def Undisturbed (size : ℕ) (s : Uart0) (e : Event) (_ : Uart0) : Prop := s.admits size e

instance (size : ℕ) (s : Uart0) (e : Event) (t : Uart0) : Decidable (Undisturbed size s e t) :=
  inferInstanceAs (Decidable (_ = true))

/-! ## What was stored was read or is left -/

theorem account_fifo {cap : ℕ} {calls : List Call} {f : Fifo cap}
    (h : (fifo cap).run (fifo cap).init calls = some f) :
    (calls.foldl account ([], [])).1 = (calls.foldl account ([], [])).2 ++ f.queue.items := by
  induction calls using List.reverseRecOn generalizing f with
  | nil => cases h; rfl
  | append_singleton calls c ih =>
    rw [Machine.run_concat] at h
    obtain ⟨g, hg, hstep⟩ := Option.bind_eq_some_iff.1 h
    have hprev := ih hg
    rw [List.foldl_append, List.foldl_cons, List.foldl_nil]
    generalize calls.foldl account ([], []) = past at hprev ⊢
    obtain ⟨stored, read⟩ := past
    simp only at hprev
    simp only [fifo] at hstep
    cases c with
    | stored c =>
      obtain ⟨q, hq, rfl⟩ := Option.map_eq_some_iff.1 hstep
      simp [account, hprev, (BoundedQueue.send_eq_some.1 hq).2]
    | dropped c =>
      simp only [Fifo.step] at hstep
      split_ifs at hstep
      cases hstep
      exact hprev
    | fifoOverflow => cases hstep; exact hprev
    | read result =>
      simp only [Fifo.step] at hstep
      cases hq : g.queue.receive with
      | none =>
        rw [hq] at hstep
        split_ifs at hstep with hr
        cases hstep
        rw [hr]
        exact hprev
      | some cq =>
        rw [hq] at hstep
        simp only at hstep
        split_ifs at hstep with hr
        cases hstep
        rw [hr]
        simp [account, hprev, BoundedQueue.receive_eq_some.1 hq]
    | flush => cases hstep; rfl
    | overflowOff => cases hstep; exact hprev
    | cancel =>
      simp only [Fifo.step] at hstep
      split_ifs at hstep
      cases hstep
      rfl

/-! ## Masks and counts -/

section

variable {k : ℕ}

theorem and_mask (x : ℕ) : x &&& (2 ^ k - 1) = x % 2 ^ k := Nat.and_two_pow_sub_one_eq_mod x k

theorem two_pow_le (hk : k ≤ 16) : 2 ^ k ≤ 2 ^ 16 := Nat.pow_le_pow_right (by decide) hk

theorem rxBufferSizeMask_eq (hk : k ≤ 16) : rxBufferSizeMask (2 ^ k) = 2 ^ k - 1 := by
  have := two_pow_le hk
  have := Nat.two_pow_pos k
  exact Nat.mod_eq_of_lt (by omega)

theorem bufCount_eq {size head tail : ℕ} (htail : tail < size) :
    bufCount head tail size = ringCount size head tail := by
  unfold bufCount ringCount
  have hcast : (((head + size - tail : ℕ) : ℤ)) = (head : ℤ) - tail + size := by omega
  rw [← Int.add_emod_right, ← hcast, ← Int.natCast_emod, Int.toNat_natCast]

theorem RxBuffer.available_eq (hk : k ≤ 16) {r : RxBuffer} (hhead : r.head < 2 ^ k)
    (htail : r.tail < 2 ^ k) : r.available (2 ^ k) = (r.contents (2 ^ k)).length := by
  have := two_pow_le hk
  have hlt : ringCount (2 ^ k) r.head r.tail < 2 ^ k := ringCount_lt hhead
  rw [RxBuffer.contents, length_ringContents, RxBuffer.available,
    Nat.mod_eq_of_lt (show r.head < 2 ^ 16 by omega),
    Nat.mod_eq_of_lt (show r.tail < 2 ^ 16 by omega), bufCount_eq htail]
  exact Nat.mod_eq_of_lt (by omega)

/-- `count + free = RX_BUFFER_SIZE - 1`. -/
theorem RxBuffer.available_add_rxFree (hk : k ≤ 16) {r : RxBuffer} (hhead : r.head < 2 ^ k)
    (htail : r.tail < 2 ^ k) : r.available (2 ^ k) + r.rxFree (2 ^ k) = 2 ^ k - 1 := by
  have := two_pow_le hk
  have hlt : ringCount (2 ^ k) r.head r.tail < 2 ^ k := ringCount_lt hhead
  rw [RxBuffer.available, RxBuffer.rxFree, Nat.mod_eq_of_lt (show r.head < 2 ^ 16 by omega),
    Nat.mod_eq_of_lt (show r.tail < 2 ^ 16 by omega), bufCount_eq htail,
    Nat.mod_eq_of_lt (show ringCount (2 ^ k) r.head r.tail < 2 ^ 16 by omega),
    Nat.mod_eq_of_lt (show 2 ^ k - 1 - ringCount (2 ^ k) r.head r.tail < 2 ^ 16 by omega)]
  omega

end

end Esp32Embroidery.Serial
