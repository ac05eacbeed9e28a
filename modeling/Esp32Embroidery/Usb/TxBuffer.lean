import Esp32Embroidery.Lib.Machine
import Esp32Embroidery.Lib.Region

/-!
# The transmit buffer of the USB stream (`usb_serial.c`)

Strings are collected in `txbuf` until a line is complete or the buffer is filled; longer ones
go to TinyUSB after what was collected. `txbuf.s` is where the next string is appended, and in
`_usb_write` where the next byte is taken.

One step is a call, or one enquiry of TinyUSB or of the core with what follows it.

Main results:

* `TxInv.step`: every step keeps the bytes in order.
* `usb_call_ends`: every call can end.
* `usb_transmit_order`: between two calls the bytes that TinyUSB has and those in the buffer
  are the arguments of the calls.
-/

namespace Esp32Embroidery.Usb

open Esp32Embroidery.Lib

/-! ## Model -/

/-- `ASCII_LF` -/
def asciiLf : BitVec 8 := 0x0a

/-- `BLOCK_TX_BUFFER_SIZE`, and `txbuf.max_length` as `usb_serialInit` computes it. -/
structure TxSizes where
  blockTxBufferSize : ℕ
  maxLength : ℕ

/-- Where `usb_out_chars` returns to. -/
inductive Caller
  /-- the call ends -/
  | serial
  /-- line 135 of `_usb_write`, with the length; `next` is what `usb_serialWrite` writes
      after it -/
  | usbWrite (length : ℕ) (next : Option (List (BitVec 8)))
deriving DecidableEq

/-- Where the task is. -/
inductive TxPc
  | idle
  /-- `usb_out_chars`, line 66 -/
  | outChars (bytes : List (BitVec 8)) (caller : Caller)
  /-- the loop of line 67, with the bytes from `i` on -/
  | outLoop (bytes : List (BitVec 8)) (caller : Caller)
  /-- the loop of `_usb_write`, line 127 -/
  | usbWrite (next : Option (List (BitVec 8)))
  /-- line 139 -/
  | blocking (next : Option (List (BitVec 8)))
deriving DecidableEq

/-- `txbuf`, with `s` as an offset in `data`, and the bytes that TinyUSB has taken and the
    arguments of the calls so far. -/
structure UsbTx where
  data : ℕ → BitVec 8
  s : ℕ
  length : ℕ
  pc : TxPc
  sent : List (BitVec 8)
  args : List (BitVec 8)

inductive TxEvent
  /-- `usb_serialWriteS`; the string without its terminator -/
  | writeS (s : List (BitVec 8))
  /-- `usb_serialWrite` -/
  | write (s : List (BitVec 8))
  /-- `usb_serialPutC` -/
  | putC (c : BitVec 8)
  /-- `usb_connected` -/
  | connected (yes : Bool)
  /-- the space that TinyUSB reports in `usb_out_chars`, the number of bytes that it then takes,
      and whether a flush without bytes times out -/
  | space (avail taken : ℕ) (timeout : Bool)
  /-- the space that TinyUSB reports in `_usb_write` -/
  | txfree (txfree : ℕ)
  /-- `hal.stream_blocking_callback` -/
  | callback (ok : Bool)

namespace UsbTx

/-- `_usb_write` up to its loop. -/
def startWrite (u : UsbTx) (next : Option (List (BitVec 8))) : UsbTx :=
  { u with s := 0, pc := .usbWrite next }

/-- `usb_serialWrite` (lines 154–161). -/
def serialWrite (u : UsbTx) (s : List (BitVec 8)) : UsbTx :=
  if u.length ≠ 0 then u.startWrite (some s) else { u with pc := .outChars s .serial }

/-- `usb_serialWriteS` (lines 166–185). The length is narrowed to `uint16_t` for
    `usb_serialWrite`. -/
def serialWriteS (sizes : TxSizes) (u : UsbTx) (s : List (BitVec 8)) : UsbTx :=
  if s = [] then u
  else if s.length + u.length < sizes.blockTxBufferSize then
    let u := { u with
      data := memcpy u.data u.s s
      length := u.length + s.length
      s := u.s + s.length }
    if s.getLast? = some asciiLf ∨ sizes.maxLength < u.length then u.startWrite none else u
  else u.serialWrite (s.take (s.length % 65536))

/-- `usb_serialPutC` (lines 190–202). A zero is an empty string for `usb_serialWriteS`. -/
def serialPutC (sizes : TxSizes) (u : UsbTx) (c : BitVec 8) : UsbTx :=
  if u.length ≠ 0 then u.serialWriteS sizes (if c = 0 then [] else [c])
  else { u with pc := .outChars [c] .serial }

/-- `usb_out_chars` returns. -/
def returned (u : UsbTx) : Caller → UsbTx
  | .serial => { u with pc := .idle }
  | .usbWrite length next =>
    { u with length := u.length - length, s := u.s + length, pc := .blocking next }

/-- A turn of the loop of `usb_out_chars` (lines 67–78). -/
def outTurn (u : UsbTx) (bytes : List (BitVec 8)) (caller : Caller) (avail taken : ℕ)
    (timeout : Bool) : Option UsbTx :=
  if bytes = [] then some (u.returned caller)
  else
    let n := min bytes.length avail
    if n ≠ 0 then
      if taken ≤ n then
        some { u with sent := u.sent ++ bytes.take taken, pc := .outLoop (bytes.drop taken) caller }
      else none
    else if timeout then some (u.returned caller) else some u

/-- A turn of the loop of `_usb_write` (lines 127–137), and what follows it (line 146). -/
def writeTurn (u : UsbTx) (next : Option (List (BitVec 8))) (txfree : ℕ) : UsbTx :=
  if u.length ≠ 0 then
    if txfree > 10 then
      let length := min txfree u.length
      { u with pc := .outChars (region u.data u.s length) (.usbWrite length next) }
    else { u with pc := .blocking next }
  else
    match next with
    | none => { u with s := 0, pc := .idle }
    | some s => { u with s := 0, pc := .outChars s .serial }

/-- Lines 139–143; the callback is asked if there is something left. -/
def afterCallback (u : UsbTx) (next : Option (List (BitVec 8))) (ok : Bool) : UsbTx :=
  if u.length ≠ 0 ∧ ok = false then { u with length := 0, s := 0, pc := .idle }
  else { u with pc := .usbWrite next }

def step (sizes : TxSizes) (u : UsbTx) (e : TxEvent) : Option UsbTx :=
  match u.pc, e with
  | .idle, .writeS s => some ({ u with args := u.args ++ s }.serialWriteS sizes s)
  | .idle, .write s => some ({ u with args := u.args ++ s }.serialWrite s)
  | .idle, .putC c => some ({ u with args := u.args ++ [c] }.serialPutC sizes c)
  | .outChars bytes caller, .connected yes =>
    some (if yes then { u with pc := .outLoop bytes caller } else u.returned caller)
  | .outLoop bytes caller, .space avail taken timeout => u.outTurn bytes caller avail taken timeout
  | .usbWrite next, .txfree txfree => some (u.writeTurn next txfree)
  | .blocking next, .callback ok => some (u.afterCallback next ok)
  | _, _ => none

end UsbTx

/-- The stream after `usb_serialInit`. -/
def usbTx (sizes : TxSizes) (data : ℕ → BitVec 8) : Machine UsbTx TxEvent where
  init := { data := data, s := 0, length := 0, pc := .idle, sent := [], args := [] }
  step := UsbTx.step sizes

/-- The link is up, no flush times out and the callback returns `true`; strings are shorter
    than 65536 bytes, and characters are not zero. -/
def LinkUp (_ : UsbTx) (e : TxEvent) (_ : UsbTx) : Prop :=
  match e with
  | .writeS s | .write s => s.length < 65536
  | .putC c => c ≠ 0
  | .connected yes => yes = true
  | .space _ _ timeout => timeout = false
  | .txfree _ => True
  | .callback ok => ok = true

instance (u : UsbTx) (e : TxEvent) (v : UsbTx) : Decidable (LinkUp u e v) :=
  match e with
  | .writeS s | .write s => inferInstanceAs (Decidable (s.length < 65536))
  | .putC c => inferInstanceAs (Decidable (c ≠ 0))
  | .connected yes => inferInstanceAs (Decidable (yes = true))
  | .space _ _ timeout => inferInstanceAs (Decidable (timeout = false))
  | .txfree _ => inferInstanceAs (Decidable True)
  | .callback ok => inferInstanceAs (Decidable (ok = true))

/-! ## The order of the bytes -/

/-- The bytes that a call or the buffer still holds. -/
def UsbTx.pending (u : UsbTx) : List (BitVec 8) :=
  match u.pc with
  | .idle => region u.data 0 u.length
  | .outChars bytes .serial | .outLoop bytes .serial => bytes
  | .outChars bytes (.usbWrite length next) | .outLoop bytes (.usbWrite length next) =>
    bytes ++ region u.data (u.s + length) (u.length - length) ++ next.getD []
  | .usbWrite next | .blocking next => region u.data u.s u.length ++ next.getD []

/-- Where `txbuf.s` is. -/
def UsbTx.Placed (u : UsbTx) : Prop :=
  match u.pc with
  | .idle => u.s = u.length
  | .outChars _ .serial | .outLoop _ .serial => u.s = 0 ∧ u.length = 0
  | .outChars _ (.usbWrite length _) | .outLoop _ (.usbWrite length _) => length ≤ u.length
  | .usbWrite _ | .blocking _ => True

structure TxInv (sizes : TxSizes) (u : UsbTx) : Prop where
  order : u.sent ++ u.pending = u.args
  placed : u.Placed
  length_lt : u.length < sizes.blockTxBufferSize

namespace TxInv

variable {sizes : TxSizes} {u v : UsbTx}

theorem init (hsize : 2 ≤ sizes.blockTxBufferSize) (data : ℕ → BitVec 8) :
    TxInv sizes (usbTx sizes data).init where
  order := rfl
  placed := rfl
  length_lt := by show 0 < _; omega

theorem startWrite {next : Option (List (BitVec 8))}
    (horder : u.sent ++ (region u.data 0 u.length ++ next.getD []) = u.args)
    (hlt : u.length < sizes.blockTxBufferSize) : TxInv sizes (u.startWrite next) :=
  ⟨horder, trivial, hlt⟩

/-- With nothing in the buffer the bytes go to TinyUSB at once. -/
theorem outChars {s : List (BitVec 8)}
    (horder : u.sent ++ (region u.data 0 u.length ++ s) = u.args) (hs : u.s = u.length)
    (hlt : u.length < sizes.blockTxBufferSize) (hlen : u.length = 0) :
    TxInv sizes { u with pc := .outChars s .serial } := by
  rw [hlen, region_zero, List.nil_append] at horder
  exact ⟨horder, ⟨hs.trans hlen, hlen⟩, hlt⟩

theorem serialWrite {s : List (BitVec 8)}
    (horder : u.sent ++ (region u.data 0 u.length ++ s) = u.args) (hs : u.s = u.length)
    (hlt : u.length < sizes.blockTxBufferSize) : TxInv sizes (u.serialWrite s) := by
  unfold UsbTx.serialWrite
  split
  · exact startWrite horder hlt
  · rename_i hlen
    exact outChars horder hs hlt (not_not.1 hlen)

theorem serialWriteS {s : List (BitVec 8)} (hpc : u.pc = .idle)
    (horder : u.sent ++ (region u.data 0 u.length ++ s) = u.args) (hs : u.s = u.length)
    (hlt : u.length < sizes.blockTxBufferSize) (hlen : s.length < 65536) :
    TxInv sizes (u.serialWriteS sizes s) := by
  unfold UsbTx.serialWriteS
  split
  · rename_i hnil
    rw [hnil, List.append_nil] at horder
    exact ⟨by rw [UsbTx.pending, hpc]; exact horder, by rw [UsbTx.Placed, hpc]; exact hs, hlt⟩
  · split
    · rename_i hroom
      -- the string stands behind what was there
      have hregion : region (memcpy u.data u.s s) 0 (u.length + s.length) =
          region u.data 0 u.length ++ s := by
        rw [region_add, region_memcpy_below u.data s (by omega), Nat.zero_add, hs, region_memcpy]
      have hroom' : u.length + s.length < sizes.blockTxBufferSize := by omega
      rw [← hregion] at horder
      dsimp only
      split
      · refine startWrite ?_ hroom'
        rw [Option.getD_none, List.append_nil]
        exact horder
      · refine ⟨?_, ?_, hroom'⟩
        · rw [UsbTx.pending, hpc]
          exact horder
        · rw [UsbTx.Placed, hpc]
          show u.s + s.length = u.length + s.length
          rw [hs]
    · -- a length below 65536 is not narrowed
      rw [Nat.mod_eq_of_lt hlen, List.take_length]
      exact serialWrite horder hs hlt

theorem serialPutC {c : BitVec 8} (hc : c ≠ 0) (hpc : u.pc = .idle)
    (horder : u.sent ++ (region u.data 0 u.length ++ [c]) = u.args) (hs : u.s = u.length)
    (hlt : u.length < sizes.blockTxBufferSize) : TxInv sizes (u.serialPutC sizes c) := by
  unfold UsbTx.serialPutC
  rw [if_neg hc]
  split
  · exact serialWriteS hpc horder hs hlt (by simp)
  · rename_i hlen
    exact outChars horder hs hlt (not_not.1 hlen)

/-- `usb_out_chars` returns when it has written everything. -/
theorem returned {caller : Caller} (hpc : u.pc = .outLoop [] caller) (h : TxInv sizes u) :
    TxInv sizes (u.returned caller) := by
  obtain ⟨horder, hplaced, hlt⟩ := h
  simp only [UsbTx.pending, UsbTx.Placed, hpc] at horder hplaced
  cases caller with
  | serial =>
    obtain ⟨hs, hlen⟩ := hplaced
    refine ⟨?_, hs.trans hlen.symm, hlt⟩
    show u.sent ++ region u.data 0 u.length = u.args
    rw [hlen]
    exact horder
  | usbWrite length next =>
    refine ⟨horder, trivial, ?_⟩
    show u.length - length < _
    omega

theorem outTurn {bytes : List (BitVec 8)} {caller : Caller} {avail taken : ℕ}
    (hpc : u.pc = .outLoop bytes caller) (h : TxInv sizes u)
    (hst : u.outTurn bytes caller avail taken false = some v) : TxInv sizes v := by
  unfold UsbTx.outTurn at hst
  split at hst
  · rename_i hnil
    cases hst
    exact returned (hnil ▸ hpc) h
  · dsimp only at hst
    split at hst
    · split at hst
      · cases hst
        obtain ⟨horder, hplaced, hlt⟩ := h
        -- what was taken goes over to the bytes sent
        have htake : ∀ rest : List (BitVec 8),
            (u.sent ++ bytes.take taken) ++ (bytes.drop taken ++ rest) =
              u.sent ++ (bytes ++ rest) := by
          intro rest
          rw [List.append_assoc, ← List.append_assoc (bytes.take taken), List.take_append_drop]
        simp only [UsbTx.pending, UsbTx.Placed, hpc] at horder hplaced
        cases caller with
        | serial =>
          refine ⟨?_, hplaced, hlt⟩
          have := htake []
          rw [List.append_nil, List.append_nil] at this
          exact this.trans horder
        | usbWrite length next =>
          refine ⟨?_, hplaced, hlt⟩
          simp only [List.append_assoc] at horder
          simp only [UsbTx.pending, List.append_assoc (bytes.drop taken)]
          exact (htake _).trans horder
      · cases hst
    · cases hst
      exact h

theorem writeTurn {next : Option (List (BitVec 8))} (hpc : u.pc = .usbWrite next)
    (h : TxInv sizes u) (txfree : ℕ) : TxInv sizes (u.writeTurn next txfree) := by
  obtain ⟨horder, -, hlt⟩ := h
  simp only [UsbTx.pending, hpc] at horder
  unfold UsbTx.writeTurn
  split
  · split
    · refine ⟨?_, Nat.min_le_right txfree u.length, hlt⟩
      simp only [UsbTx.pending]
      rw [← region_add, Nat.add_sub_cancel' (Nat.min_le_right txfree u.length)]
      exact horder
    · exact ⟨horder, trivial, hlt⟩
  · rename_i hlen
    have hlen : u.length = 0 := not_not.1 hlen
    rw [hlen, region_zero, List.nil_append] at horder
    cases next with
    | none =>
      refine ⟨?_, hlen.symm, hlt⟩
      show u.sent ++ region u.data 0 u.length = u.args
      rw [hlen]
      exact horder
    | some s => exact ⟨horder, ⟨rfl, hlen⟩, hlt⟩

theorem afterCallback {next : Option (List (BitVec 8))} (hpc : u.pc = .blocking next)
    (h : TxInv sizes u) : TxInv sizes (u.afterCallback next true) := by
  obtain ⟨horder, -, hlt⟩ := h
  simp only [UsbTx.pending, hpc] at horder
  rw [UsbTx.afterCallback, if_neg (by simp)]
  exact ⟨horder, trivial, hlt⟩

/-- Between two calls the next argument goes behind all the others. -/
theorem order_append (hpc : u.pc = .idle) (h : TxInv sizes u) (s : List (BitVec 8)) :
    u.sent ++ (region u.data 0 u.length ++ s) = u.args ++ s := by
  have horder := h.order
  rw [UsbTx.pending, hpc] at horder
  rw [← List.append_assoc, horder]

theorem s_eq (hpc : u.pc = .idle) (h : TxInv sizes u) : u.s = u.length := by
  have hplaced := h.placed
  rwa [UsbTx.Placed, hpc] at hplaced

theorem step {e : TxEvent} (h : TxInv sizes u) (hst : u.step sizes e = some v)
    (hup : LinkUp u e v) : TxInv sizes v := by
  unfold UsbTx.step at hst
  split at hst <;> rename_i hpc
  · cases hst
    have hs := s_eq hpc h
    exact serialWriteS hpc (order_append hpc h _) hs h.length_lt hup
  · cases hst
    have hs := s_eq hpc h
    exact serialWrite (order_append hpc h _) hs h.length_lt
  · cases hst
    have hs := s_eq hpc h
    exact serialPutC hup hpc (order_append hpc h _) hs h.length_lt
  · cases hst
    cases (hup : _ = true)
    rw [if_pos rfl]
    obtain ⟨horder, hplaced, hlt⟩ := h
    rw [UsbTx.pending, hpc] at horder
    rw [UsbTx.Placed, hpc] at hplaced
    rename_i caller
    cases caller with
    | serial => exact ⟨horder, hplaced, hlt⟩
    | usbWrite length next => exact ⟨horder, hplaced, hlt⟩
  · cases (hup : _ = false)
    exact outTurn hpc h hst
  · cases hst
    exact writeTurn hpc h _
  · cases hst
    cases (hup : _ = true)
    exact afterCallback hpc h
  · cases hst

end TxInv

theorem txInv_reachable {sizes : TxSizes} (hsize : 2 ≤ sizes.blockTxBufferSize)
    (data : ℕ → BitVec 8) {u : UsbTx} (h : (usbTx sizes data).ReachableBy LinkUp u) :
    TxInv sizes u :=
  h.invariant (TxInv.init hsize data) fun _ _ _ _ hinv hst hup => hinv.step hst hup

/-! ## Calls end -/

/-- With the link up the call in progress can come to its end, without another one. -/
def Ends (sizes : TxSizes) (data : ℕ → BitVec 8) (u : UsbTx) : Prop :=
  ∃ es v, (usbTx sizes data).run u es = some v ∧ (usbTx sizes data).Along LinkUp u es ∧
    v.pc = .idle ∧ v.args = u.args

section

variable {sizes : TxSizes} {data : ℕ → BitVec 8} {u v : UsbTx}

theorem Ends.of_step (e : TxEvent) (hst : u.step sizes e = some v) (hup : LinkUp u e v)
    (hargs : v.args = u.args) (h : Ends sizes data v) : Ends sizes data u := by
  obtain ⟨es, w, hrun, halong, hpc, hw⟩ := h
  refine ⟨e :: es, w, ?_, Machine.along_cons.2 ⟨v, hst, hup, halong⟩, hpc, hw.trans hargs⟩
  rw [Machine.run_cons]
  exact Option.bind_eq_some_iff.2 ⟨v, hst, hrun⟩

theorem ends_idle (hpc : u.pc = .idle) : Ends sizes data u := ⟨[], u, rfl, trivial, hpc, rfl⟩

theorem UsbTx.args_returned (u : UsbTx) (caller : Caller) : (u.returned caller).args = u.args := by
  cases caller with
  | serial => rfl
  | usbWrite length next => rfl

/-- TinyUSB takes all the bytes at once. -/
theorem ends_outLoop {bytes : List (BitVec 8)} {caller : Caller}
    (hpc : u.pc = .outLoop bytes caller)
    (h : Ends sizes data ({ u with sent := u.sent ++ bytes }.returned caller)) :
    Ends sizes data u := by
  have hdone : Ends sizes data { u with sent := u.sent ++ bytes, pc := .outLoop [] caller } := by
    refine Ends.of_step (.space 0 0 false) rfl rfl (UsbTx.args_returned _ _) ?_
    cases caller with
    | serial => exact h
    | usbWrite length next => exact h
  by_cases hnil : bytes = []
  · subst hnil
    rw [List.append_nil, ← hpc] at hdone
    exact hdone
  · have hlen : bytes.length ≠ 0 := fun h0 => hnil (List.length_eq_zero_iff.1 h0)
    refine Ends.of_step (v := { u with sent := u.sent ++ bytes, pc := .outLoop [] caller })
      (.space bytes.length bytes.length false) ?_ rfl rfl hdone
    rw [UsbTx.step.eq_def, hpc]
    simp [UsbTx.outTurn, hnil]

theorem ends_outChars {bytes : List (BitVec 8)} {caller : Caller}
    (hpc : u.pc = .outChars bytes caller)
    (h : Ends sizes data ({ u with sent := u.sent ++ bytes }.returned caller)) :
    Ends sizes data u := by
  refine Ends.of_step (v := { u with pc := .outLoop bytes caller }) (.connected true) ?_ rfl rfl ?_
  · rw [UsbTx.step.eq_def, hpc]
    rfl
  · refine ends_outLoop rfl ?_
    cases caller with
    | serial => exact h
    | usbWrite length next => exact h

theorem ends_blocking {next : Option (List (BitVec 8))} (hpc : u.pc = .blocking next)
    (h : Ends sizes data { u with pc := .usbWrite next }) : Ends sizes data u := by
  refine Ends.of_step (v := { u with pc := .usbWrite next }) (.callback true) ?_ rfl rfl h
  rw [UsbTx.step.eq_def, hpc]
  simp [UsbTx.afterCallback]

/-- The buffer is empty. -/
theorem ends_flushed {next : Option (List (BitVec 8))} (hpc : u.pc = .usbWrite next)
    (hlen : u.length = 0) : Ends sizes data u := by
  refine Ends.of_step (v := u.writeTurn next 0) (.txfree 0) (by rw [UsbTx.step.eq_def, hpc])
    trivial ?_ ?_
  all_goals unfold UsbTx.writeTurn; rw [if_neg (not_not.2 hlen)]
  · cases next with
    | none => rfl
    | some s => rfl
  · cases next with
    | none => exact ends_idle rfl
    | some s => exact ends_outChars rfl (ends_idle rfl)

theorem ends_usbWrite {next : Option (List (BitVec 8))} (hpc : u.pc = .usbWrite next) :
    Ends sizes data u := by
  by_cases hlen : u.length = 0
  · exact ends_flushed hpc hlen
  · -- there is space for the whole buffer
    have hmin : min (u.length + 11) u.length = u.length := by omega
    refine Ends.of_step (v := { u with
      pc := .outChars (region u.data u.s u.length) (.usbWrite u.length next) })
      (.txfree (u.length + 11)) ?_ trivial rfl ?_
    · rw [UsbTx.step.eq_def, hpc]
      simp only [UsbTx.writeTurn]
      rw [if_pos hlen, if_pos (by omega), hmin]
    · exact ends_outChars rfl (ends_blocking rfl (ends_flushed rfl (Nat.sub_self _)))

/-- Every call can end, from wherever it is. -/
theorem usb_call_ends (sizes : TxSizes) (data : ℕ → BitVec 8) (u : UsbTx) : Ends sizes data u := by
  have hreturned : ∀ (w : UsbTx) (caller : Caller), Ends sizes data (w.returned caller) := by
    intro w caller
    cases caller with
    | serial => exact ends_idle rfl
    | usbWrite length next => exact ends_blocking rfl (ends_usbWrite rfl)
  cases hpc : u.pc with
  | idle => exact ends_idle hpc
  | outChars bytes caller => exact ends_outChars hpc (hreturned _ _)
  | outLoop bytes caller => exact ends_outLoop hpc (hreturned _ _)
  | usbWrite next => exact ends_usbWrite hpc
  | blocking next => exact ends_blocking hpc (ends_usbWrite rfl)

end

/-! ## The result -/

/-- Between two calls, what TinyUSB has and what is in the buffer are the arguments of all
    calls in their order, and the buffer is filled up to `s` and not full. -/
theorem usb_transmit_order (sizes : TxSizes) (hsize : 2 ≤ sizes.blockTxBufferSize)
    (data : ℕ → BitVec 8) {u : UsbTx} (h : (usbTx sizes data).ReachableBy LinkUp u)
    (hidle : u.pc = .idle) :
    u.sent ++ region u.data 0 u.length = u.args ∧ u.s = u.length ∧
      u.length < sizes.blockTxBufferSize := by
  have hinv := txInv_reachable hsize data h
  have horder := hinv.order
  rw [UsbTx.pending, hidle] at horder
  exact ⟨horder, TxInv.s_eq hidle hinv, hinv.length_lt⟩

/-- Two bytes collected, then five that do not fit: the buffer goes out first, and TinyUSB
    takes the others in two parts. -/
theorem usb_transmit_order_around :
    ∃ u : UsbTx, (u.sent = [1, 2, 3, 4, 5, 6, 7] ∧ u.length = 1 ∧ u.pc = .idle) ∧
      u.sent ++ region u.data 0 u.length = u.args ∧ u.s = u.length ∧ u.length < 7 := by
  obtain ⟨u, -, hu, hv⟩ := Machine.exists_reachableBy (usbTx ⟨7, 6⟩ fun _ => 0) LinkUp
    [.writeS [1], .writeS [2], .writeS [3, 4, 5, 6, 7], .txfree 3, .callback true, .txfree 64,
      .connected true, .space 64 2 false, .space 0 0 false, .callback true, .txfree 62,
      .connected true, .space 3 3 false, .space 0 0 false, .space 9 2 false, .space 0 0 false,
      .writeS [8]]
    (fun u => (u.sent, u.length, u.pc)) (v := ([1, 2, 3, 4, 5, 6, 7], 1, .idle)) (by decide +kernel)
    (by decide +kernel)
  simp only [Prod.mk.injEq] at hv
  exact ⟨u, hv, usb_transmit_order ⟨7, 6⟩ (by decide) (fun _ => 0) hu hv.2.2⟩

end Esp32Embroidery.Usb
