import Esp32Embroidery.Serial.RxRing

/-!
# The receive ring of the USB stream (`usb_serial.c`)

`usb_rx_callback` asks TinyUSB for as many bytes as the ring has room for, and stores what
`enqueue_realtime_command` does not consume. `usb_serialGetC` reads in another task; a step is
one access to what the two share.

Main results:

* `RxInv.step`: what the callback has fetched and not stored fits into the ring, however the
  reader moves `tail`.
* `usb_rx_never_overflows`: nothing is lost and the overflow branch is not taken.
-/

namespace Esp32Embroidery.Usb

open Esp32Embroidery.Lib Esp32Embroidery.Serial

/-! ## Model -/

/-- `rxbuf` with its indices in range. -/
structure RxRing (size : ℕ) extends RxBuffer where
  head_lt : head < size
  tail_lt : tail < size

/-- `BUFNEXT` -/
def bufNext (size i : ℕ) : ℕ := (i + 1) &&& (size - 1)

/-- `usb_serialRxFree` (lines 95–100), with what it has read. -/
def usbSerialRxFree (size tail head : ℕ) : ℕ := (size - 1 - bufCount head tail size) % 2 ^ 16

/-- The number of bytes that `usb_rx_callback` asks for (lines 248 and 249), where `bufsize` is
    `CONFIG_TINYUSB_CDC_RX_BUFSIZE`. -/
def requested (bufsize size tail head : ℕ) : ℕ := min (usbSerialRxFree size tail head) bufsize

/-- The next access of `usb_rx_callback`, with its local variables. -/
inductive CallbackPc
  | idle
  /-- `usb_serialRxFree`, the load of `head` -/
  | freeHead (tail : ℕ)
  /-- line 250 -/
  | read (free : ℕ)
  /-- line 251, and line 253 if there is a byte -/
  | loop (bytes : List Byte)
  /-- line 255 -/
  | test (c : Byte) (bytes : List Byte)
  /-- line 258 -/
  | data (c : Byte) (next : ℕ) (bytes : List Byte)
  /-- line 259 -/
  | head (c : Byte) (next : ℕ) (bytes : List Byte)

/-- The next access of `usb_serialGetC`. -/
inductive GetPc
  | idle
  /-- line 214 -/
  | data (tail : ℕ)
  /-- line 215 -/
  | tail (tail : ℕ) (data : Byte)

/-- The ring and the two tasks, with the bytes fetched, the answers of
    `enqueue_realtime_command` and the bytes that `usb_serialGetC` returned. -/
structure UsbRx where
  rx : RxBuffer
  callback : CallbackPc
  getC : GetPc
  fetched : List Byte
  answers : List (Byte × Bool)
  got : List Byte

/-- The bytes that `enqueue_realtime_command` did not consume. -/
def UsbRx.refused (s : UsbRx) : List Byte := (s.answers.filter fun a => !a.2).map Prod.fst

inductive RxEvent
  /-- TinyUSB calls `usb_rx_callback` -/
  | callback
  /-- the next access of the callback -/
  | next
  /-- what `tinyusb_cdcacm_read` returns, `none` for an error -/
  | read (bytes : Option (List Byte))
  /-- what `enqueue_realtime_command` returns -/
  | enqueue (consumed : Bool)
  /-- a call of `usb_serialGetC` -/
  | getC
  /-- the next access of `usb_serialGetC` -/
  | getNext

namespace UsbRx

/-- The accesses of the callback to the ring. -/
def next (bufsize size : ℕ) (s : UsbRx) : Option UsbRx :=
  match s.callback with
  | .freeHead tail => some { s with callback := .read (requested bufsize size tail s.rx.head) }
  | .loop [] => some { s with callback := .idle }
  | .test c bytes =>
    let nextHead := bufNext size s.rx.head
    if nextHead = s.rx.tail then
      some { s with rx := { s.rx with overflow := true }, callback := .loop bytes }
    else some { s with callback := .data c nextHead bytes }
  | .data c next bytes => some { s with
      rx := { s.rx with data := Function.update s.rx.data s.rx.head c }
      callback := .head c next bytes }
  | .head _ next bytes => some { s with
      rx := { s.rx with head := next }
      callback := .loop bytes }
  | _ => none

/-- `usb_serialGetC` after its first two loads. -/
def getNext (size : ℕ) (s : UsbRx) : Option UsbRx :=
  match s.getC with
  | .idle => none
  | .data tail => some { s with getC := .tail tail (s.rx.data tail) }
  | .tail tail data => some { s with
      rx := { s.rx with tail := bufNext size tail }
      getC := .idle
      got := s.got ++ [data] }

def step (bufsize size : ℕ) (s : UsbRx) (e : RxEvent) : Option UsbRx :=
  match e with
  | .callback =>
    match s.callback with
    | .idle => some { s with callback := .freeHead s.rx.tail }
    | _ => none
  | .next => s.next bufsize size
  | .read bytes =>
    match s.callback, bytes with
    | .read _, none => some { s with callback := .idle }
    | .read free, some bytes =>
      if bytes.length ≤ free then
        some { s with callback := .loop bytes, fetched := s.fetched ++ bytes }
      else none
    | _, _ => none
  | .enqueue consumed =>
    match s.callback with
    | .loop (c :: bytes) =>
      some { s with
        callback := if consumed then .loop bytes else .test c bytes
        answers := s.answers ++ [(c, consumed)] }
    | _ => none
  | .getC =>
    match s.getC with
    | .idle => if s.rx.tail = s.rx.head then some s else some { s with getC := .data s.rx.tail }
    | _ => none
  | .getNext => s.getNext size

end UsbRx

/-- From any contents of the ring. -/
def usbRx (bufsize size : ℕ) (r : RxRing size) : Machine UsbRx RxEvent where
  init :=
    { rx := r.toRxBuffer
      callback := .idle
      getC := .idle
      fetched := []
      answers := []
      got := [] }
  step := UsbRx.step bufsize size

/-! ## The invariant -/

/-- The number of cells that the callback may still fill. -/
def CallbackPc.room : CallbackPc → ℕ
  | .idle | .freeHead _ => 0
  | .read free => free
  | .loop bytes => bytes.length
  | .test _ bytes | .data _ _ bytes | .head _ _ bytes => bytes.length + 1

/-- The byte that the callback is about to store. -/
def CallbackPc.unstored : CallbackPc → List Byte
  | .test c _ | .data c _ _ | .head c _ _ => [c]
  | _ => []

/-- The bytes that it has yet to offer. -/
def CallbackPc.unoffered : CallbackPc → List Byte
  | .loop bytes | .test _ bytes | .data _ _ bytes | .head _ _ bytes => bytes
  | _ => []

/-- What the local variables of the callback say about the ring. The reader has only made room
    since `tail` was read. -/
def UsbRx.CallbackOk (size : ℕ) (s : UsbRx) : Prop :=
  match s.callback with
  | .freeHead tail =>
    tail < size ∧ ringCount size s.rx.head s.rx.tail ≤ ringCount size s.rx.head tail
  | .data _ next _ => next = (s.rx.head + 1) % size
  | .head c next _ => next = (s.rx.head + 1) % size ∧ s.rx.data s.rx.head = c
  | _ => True

/-- The local variables of `usb_serialGetC`. -/
def UsbRx.GetOk (s : UsbRx) : Prop :=
  match s.getC with
  | .idle => True
  | .data tail => tail = s.rx.tail ∧ s.rx.tail ≠ s.rx.head
  | .tail tail data => tail = s.rx.tail ∧ s.rx.tail ≠ s.rx.head ∧ data = s.rx.data s.rx.tail

structure RxInv (k : ℕ) (r : RxRing (2 ^ k)) (s : UsbRx) : Prop where
  head_lt : s.rx.head < 2 ^ k
  tail_lt : s.rx.tail < 2 ^ k
  overflow : s.rx.overflow = r.overflow
  room : s.callback.room + ringCount (2 ^ k) s.rx.head s.rx.tail ≤ 2 ^ k - 1
  callback : s.CallbackOk (2 ^ k)
  getC : s.GetOk
  fetched : s.fetched = s.answers.map Prod.fst ++ s.callback.unoffered
  contents : r.contents (2 ^ k) ++ s.refused =
    s.got ++ (s.rx.contents (2 ^ k) ++ s.callback.unstored)

section

variable {bufsize k : ℕ} {r : RxRing (2 ^ k)} {s t : UsbRx}

theorem bufNext_eq (i : ℕ) : bufNext (2 ^ k) i = (i + 1) % 2 ^ k := and_mask (i + 1)

theorem bufNext_lt (i : ℕ) : bufNext (2 ^ k) i < 2 ^ k := by
  rw [bufNext_eq]
  exact Nat.mod_lt _ (Nat.two_pow_pos k)

/-- Not more is asked for than there was room for when `tail` was read. -/
theorem requested_le (bufsize head : ℕ) {size tail : ℕ} (htail : tail < size) :
    requested bufsize size tail head ≤ size - 1 - ringCount size head tail := by
  have hfree : usbSerialRxFree size tail head ≤ size - 1 - bufCount head tail size :=
    Nat.mod_le _ _
  rw [bufCount_eq htail] at hfree
  exact (Nat.min_le_left _ _).trans hfree

namespace RxInv

theorem init (r : RxRing (2 ^ k)) : RxInv k r (usbRx bufsize (2 ^ k) r).init where
  head_lt := r.head_lt
  tail_lt := r.tail_lt
  overflow := rfl
  room := by
    have hlt : ringCount (2 ^ k) r.head r.tail < 2 ^ k := ringCount_lt r.head_lt
    show 0 + ringCount (2 ^ k) r.head r.tail ≤ _
    omega
  callback := trivial
  getC := trivial
  fetched := rfl
  contents := by
    show r.contents (2 ^ k) ++ [] = [] ++ (r.contents (2 ^ k) ++ [])
    simp

/-- There is room for a byte of the callback. -/
theorem not_full (h : RxInv k r s) (hroom : 0 < s.callback.room) :
    (s.rx.head + 1) % 2 ^ k ≠ s.rx.tail := by
  intro hfull
  have hcount := ringCount_full h.head_lt h.tail_lt hfull
  have := h.room
  omega

/-- The callback goes on with the same bytes. -/
theorem goes_on {pc : CallbackPc} (h : RxInv k r s) (hroom : pc.room ≤ s.callback.room)
    (hok : UsbRx.CallbackOk (2 ^ k) { s with callback := pc })
    (hunoffered : pc.unoffered = s.callback.unoffered)
    (hunstored : pc.unstored = s.callback.unstored) : RxInv k r { s with callback := pc } where
  head_lt := h.head_lt
  tail_lt := h.tail_lt
  overflow := h.overflow
  room := (Nat.add_le_add_right hroom _).trans h.room
  callback := hok
  getC := h.getC
  fetched := by
    show s.fetched = s.answers.map Prod.fst ++ pc.unoffered
    rw [hunoffered]
    exact h.fetched
  contents := by
    show _ = s.got ++ (s.rx.contents (2 ^ k) ++ pc.unstored)
    rw [hunstored]
    exact h.contents

theorem freeHead {tail : ℕ} (h : RxInv k r s) (hpc : s.callback = .freeHead tail) :
    RxInv k r { s with callback := .read (requested bufsize (2 ^ k) tail s.rx.head) } := by
  have hok := h.callback
  have hfetched := h.fetched
  have hcontents := h.contents
  rw [UsbRx.CallbackOk, hpc] at hok
  rw [hpc] at hfetched hcontents
  obtain ⟨htail, hcount⟩ := hok
  refine ⟨h.head_lt, h.tail_lt, h.overflow, ?_, trivial, h.getC, hfetched, hcontents⟩
  show requested _ _ _ _ + ringCount (2 ^ k) s.rx.head s.rx.tail ≤ 2 ^ k - 1
  have hrequested := requested_le bufsize s.rx.head htail
  have hlt : ringCount (2 ^ k) s.rx.head tail < 2 ^ k := ringCount_lt h.head_lt
  omega

theorem fetch {free : ℕ} {bytes : List Byte} (h : RxInv k r s) (hpc : s.callback = .read free)
    (hlen : bytes.length ≤ free) :
    RxInv k r { s with callback := .loop bytes, fetched := s.fetched ++ bytes } := by
  have hroom := h.room
  have hfetched := h.fetched
  have hcontents := h.contents
  rw [hpc] at hroom hfetched hcontents
  have hle : bytes.length + ringCount (2 ^ k) s.rx.head s.rx.tail ≤ 2 ^ k - 1 :=
    (Nat.add_le_add_right hlen _).trans hroom
  refine ⟨h.head_lt, h.tail_lt, h.overflow, hle, trivial, h.getC, ?_, hcontents⟩
  show s.fetched ++ bytes = s.answers.map Prod.fst ++ bytes
  rw [hfetched]
  simp [CallbackPc.unoffered]

theorem enqueue {c : Byte} {bytes : List Byte} (h : RxInv k r s)
    (hpc : s.callback = .loop (c :: bytes)) (consumed : Bool) :
    RxInv k r { s with
      callback := if consumed then .loop bytes else .test c bytes
      answers := s.answers ++ [(c, consumed)] } := by
  have hroom := h.room
  have hfetched := h.fetched
  have hcontents := h.contents
  rw [hpc] at hroom hfetched hcontents
  simp only [CallbackPc.room, List.length_cons] at hroom
  simp only [CallbackPc.unoffered] at hfetched
  simp only [CallbackPc.unstored, List.append_nil] at hcontents
  cases consumed with
  | true =>
    refine ⟨h.head_lt, h.tail_lt, h.overflow, ?_, trivial, h.getC, ?_, ?_⟩
    · show bytes.length + ringCount (2 ^ k) s.rx.head s.rx.tail ≤ 2 ^ k - 1
      omega
    · simp [hfetched, CallbackPc.unoffered]
    · simpa [UsbRx.refused, CallbackPc.unstored] using hcontents
  | false =>
    -- the byte is to be stored
    refine ⟨h.head_lt, h.tail_lt, h.overflow, hroom, trivial, h.getC, ?_, ?_⟩
    · simp [hfetched, CallbackPc.unoffered]
    · have hstored : UsbRx.refused { s with
          callback := if false then .loop bytes else .test c bytes
          answers := s.answers ++ [(c, false)] } = s.refused ++ [c] := by
        simp [UsbRx.refused]
      rw [hstored, ← List.append_assoc, hcontents, List.append_assoc]
      rfl

/-- The byte goes to the cell that the ring leaves unused. -/
theorem storeData {c : Byte} {next : ℕ} {bytes : List Byte} (h : RxInv k r s)
    (hpc : s.callback = .data c next bytes) :
    RxInv k r { s with
      rx := { s.rx with data := Function.update s.rx.data s.rx.head c }
      callback := .head c next bytes } := by
  have hroom := h.room
  have hok := h.callback
  have hcontents := h.contents
  have hfetched := h.fetched
  rw [UsbRx.CallbackOk, hpc] at hok
  rw [hpc] at hroom hfetched hcontents
  refine ⟨h.head_lt, h.tail_lt, h.overflow, hroom, ⟨hok, Function.update_self _ _ _⟩, ?_, hfetched,
    ?_⟩
  · have hget := h.getC
    unfold UsbRx.GetOk at hget ⊢
    cases hg : s.getC with
    | idle => trivial
    | data tail =>
      rw [hg] at hget
      exact hget
    | tail tail data =>
      rw [hg] at hget
      obtain ⟨htail, hne, hdata⟩ := hget
      exact ⟨htail, hne, hdata.trans (Function.update_of_ne hne _ _).symm⟩
  · refine hcontents.trans ?_
    simp only [RxBuffer.contents]
    rw [ringContents_update_head s.rx.data h.head_lt h.tail_lt c]
    rfl

theorem storeHead {c : Byte} {next : ℕ} {bytes : List Byte} (h : RxInv k r s)
    (hpc : s.callback = .head c next bytes) :
    RxInv k r { s with rx := { s.rx with head := next }, callback := .loop bytes } := by
  have hroom := h.room
  have hok := h.callback
  have hcontents := h.contents
  have hfetched := h.fetched
  have hnext := h.not_full (by rw [hpc]; exact Nat.succ_pos _)
  rw [UsbRx.CallbackOk, hpc] at hok
  rw [hpc] at hroom hfetched hcontents
  obtain ⟨rfl, hdata⟩ := hok
  have hcount := ringCount_store h.head_lt h.tail_lt hnext
  have hstored := ringContents_store s.rx.data h.head_lt h.tail_lt hnext c
  rw [← hdata, Function.update_eq_self, hdata] at hstored
  refine ⟨Nat.mod_lt _ (Nat.two_pow_pos k), h.tail_lt, h.overflow, ?_, trivial, ?_, hfetched, ?_⟩
  · show bytes.length + ringCount (2 ^ k) ((s.rx.head + 1) % 2 ^ k) s.rx.tail ≤ 2 ^ k - 1
    simp only [CallbackPc.room] at hroom
    omega
  · have hget := h.getC
    unfold UsbRx.GetOk at hget ⊢
    cases hg : s.getC with
    | idle => trivial
    | data tail =>
      rw [hg] at hget
      exact ⟨hget.1, hnext.symm⟩
    | tail tail data =>
      rw [hg] at hget
      exact ⟨hget.1, hnext.symm, hget.2.2⟩
  · refine hcontents.trans ?_
    simp only [RxBuffer.contents, CallbackPc.unstored, List.append_nil]
    rw [hstored]

theorem next (h : RxInv k r s) (hst : s.next bufsize (2 ^ k) = some t) : RxInv k r t := by
  unfold UsbRx.next at hst
  split at hst <;> rename_i hpc
  · cases hst
    exact h.freeHead hpc
  · cases hst
    exact h.goes_on (Nat.zero_le _) trivial (by rw [hpc]; rfl) (by rw [hpc]; rfl)
  · rename_i c bytes
    have hnext := h.not_full (by rw [hpc]; exact Nat.succ_pos _)
    dsimp only at hst
    rw [if_neg (by rwa [bufNext_eq])] at hst
    cases hst
    exact h.goes_on (by rw [hpc]; rfl) (bufNext_eq _) (by rw [hpc]; rfl) (by rw [hpc]; rfl)
  · cases hst
    exact h.storeData hpc
  · cases hst
    exact h.storeHead hpc
  · cases hst

/-- What the callback knows stays true when the reader has made room. -/
theorem callbackOk_take (h : s.CallbackOk (2 ^ k)) (hrx : t.rx.head = s.rx.head)
    (hdata : t.rx.data = s.rx.data) (hpc : t.callback = s.callback)
    (hcount : ringCount (2 ^ k) s.rx.head t.rx.tail ≤ ringCount (2 ^ k) s.rx.head s.rx.tail) :
    t.CallbackOk (2 ^ k) := by
  unfold UsbRx.CallbackOk at h ⊢
  rw [hpc, hrx, hdata]
  cases hc : s.callback with
  | freeHead tail =>
    rw [hc] at h
    exact ⟨h.1, hcount.trans h.2⟩
  | data c next bytes =>
    rw [hc] at h
    exact h
  | head c next bytes =>
    rw [hc] at h
    exact h
  | idle => trivial
  | read free => trivial
  | loop bytes => trivial
  | test c bytes => trivial

/-- `usb_serialGetC` takes the oldest byte and makes room. -/
theorem take {tail : ℕ} {data : Byte} (h : RxInv k r s) (hpc : s.getC = .tail tail data) :
    RxInv k r { s with
      rx := { s.rx with tail := bufNext (2 ^ k) tail }
      getC := .idle
      got := s.got ++ [data] } := by
  have hget := h.getC
  rw [UsbRx.GetOk, hpc] at hget
  obtain ⟨rfl, hne, rfl⟩ := hget
  have hcount := ringCount_take h.head_lt h.tail_lt hne
  rw [← bufNext_eq] at hcount
  have hle : ringCount (2 ^ k) s.rx.head (bufNext (2 ^ k) s.rx.tail) ≤
      ringCount (2 ^ k) s.rx.head s.rx.tail := by omega
  have hroom := h.room
  refine ⟨h.head_lt, bufNext_lt _, h.overflow, ?_, ?_, trivial, h.fetched, ?_⟩
  · show s.callback.room + ringCount (2 ^ k) s.rx.head (bufNext (2 ^ k) s.rx.tail) ≤ 2 ^ k - 1
    omega
  · exact callbackOk_take h.callback rfl rfl rfl hle
  · refine h.contents.trans ?_
    simp only [RxBuffer.contents]
    rw [ringContents_take s.rx.data h.head_lt h.tail_lt hne, ← bufNext_eq]
    simp

theorem getNext (h : RxInv k r s) (hst : s.getNext (2 ^ k) = some t) : RxInv k r t := by
  unfold UsbRx.getNext at hst
  split at hst <;> rename_i hpc
  · cases hst
  · cases hst
    have hget := h.getC
    rw [UsbRx.GetOk, hpc] at hget
    obtain ⟨rfl, hne⟩ := hget
    exact ⟨h.head_lt, h.tail_lt, h.overflow, h.room, h.callback, ⟨rfl, hne, rfl⟩, h.fetched,
      h.contents⟩
  · cases hst
    exact h.take hpc

theorem step (h : RxInv k r s) {e : RxEvent} (hst : s.step bufsize (2 ^ k) e = some t) :
    RxInv k r t := by
  unfold UsbRx.step at hst
  split at hst
  · split at hst <;> rename_i hpc
    · cases hst
      exact h.goes_on (Nat.zero_le _) ⟨h.tail_lt, le_rfl⟩ (by rw [hpc]; rfl) (by rw [hpc]; rfl)
    · cases hst
  · exact h.next hst
  · split at hst <;> rename_i hpc
    · cases hst
      exact h.goes_on (Nat.zero_le _) trivial (by rw [hpc]; rfl) (by rw [hpc]; rfl)
    · split at hst
      · rename_i hlen
        cases hst
        exact h.fetch hpc hlen
      · cases hst
    · cases hst
  · split at hst <;> rename_i hpc
    · cases hst
      exact h.enqueue hpc _
    · cases hst
  · split at hst
    · split at hst
      · cases hst
        exact h
      · rename_i hne
        cases hst
        exact ⟨h.head_lt, h.tail_lt, h.overflow, h.room, h.callback, ⟨rfl, hne⟩, h.fetched,
          h.contents⟩
    · cases hst
  · exact h.getNext hst

end RxInv

theorem rxInv_reachable (h : (usbRx bufsize (2 ^ k) r).Reachable s) : RxInv k r s :=
  h.invariant (RxInv.init r) fun _ _ _ _ hinv hst _ => hinv.step hst

end

/-! ## The result -/

end Esp32Embroidery.Usb
