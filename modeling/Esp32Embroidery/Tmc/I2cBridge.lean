import Esp32Embroidery.Lib.Machine
import Esp32Embroidery.Tmc.Datagram

/-!
# Trinamic drivers behind the I2C bridge

The bridge sends a datagram on to the axis that was selected last. `tmc_spi_read` and
`tmc_spi_write` (`i2c.c`) keep the axis in a variable and select only another one, but
they take over the new axis without looking at the result of `tmc_set_axis`.

Main results:

* `i2c_datagrams_reach_axis_iff`: along any run, each datagram is sent for the selected
  axis iff none goes out after a failed select, other than to the axis still selected.
* `datagrams_reach_axis_of_select_ok`: so they all are in a run without a failed select.
* `i2c_failed_select_misdirects`: a run with a failed select and a write to the wrong axis.
-/

namespace Esp32Embroidery.Tmc

open Esp32Embroidery.Lib

/-! ## Model -/

/-- A bus transaction: `i2cBusy` was not obtained and nothing was sent, it was sent and
    `i2c_master_cmd_begin` reported an error, or it succeeded. -/
inductive Transfer
  | busy
  | failed
  | ok
  deriving DecidableEq

/-- `axis` (line 232) and, as ghosts, the axis of the last select that succeeded and whether
    the latest call of `tmc_set_axis` returned true. -/
structure I2cBridge where
  axis : BitVec 8
  selected : Option (BitVec 8)
  selectOk : Bool
  deriving DecidableEq

/-- A call with what becomes of its select, if it makes one, and of its datagram.
    `received` is what the five bytes of `buffer` hold after a read transaction. -/
inductive I2cCall
  | read (axis : BitVec 8) (reg : Datagram) (select transfer : Transfer)
      (received : BitVec 8 × BitVec 8 × BitVec 8 × BitVec 8 × BitVec 8)
  | write (axis : BitVec 8) (reg : Datagram) (select transfer : Transfer)

/-- `tmc_set_axis` (lines 235-253), which returns true iff the transaction succeeded. -/
def tmcSetAxis (axis : BitVec 8) (select : Transfer) (s : I2cBridge) : I2cBridge × Bool :=
  match select with
  | .ok => ({ s with selected := some axis, selectOk := true }, true)
  | _ => ({ s with selectOk := false }, false)

/-- `if(driver.axis != axis)` in both calls (lines 260-263 and 302-305). -/
def useAxis (axis : BitVec 8) (select : Transfer) (s : I2cBridge) : I2cBridge :=
  if axis = s.axis then s else { (tmcSetAxis axis select s).1 with axis := axis }

/-- What a call returns: the status, the datagram of the caller and, if it was sent, the
    bytes of the register datagram. -/
structure I2cResult where
  status : BitVec 8
  reg : Datagram
  sent : Option (List (BitVec 8))

/-- `tmc_spi_read` behind its select (lines 265-294). -/
def i2cRead (reg : Datagram) (transfer : Transfer)
    (received : BitVec 8 × BitVec 8 × BitVec 8 × BitVec 8 × BitVec 8) : I2cResult :=
  let request := reg.idx.setWidth 8
  let (b0, b1, b2, b3, b4) := if transfer = .busy then (request, 0, 0, 0, 0) else received
  { status := b0
    reg := { reg with payload := b1 ++ b2 ++ b3 ++ b4 }
    sent := if transfer = .busy then none else some [request] }

/-- `tmc_spi_write` behind its select (lines 307-330). -/
def i2cWrite (reg : Datagram) (transfer : Transfer) : I2cResult :=
  { status := 0
    reg := { reg with write := false }
    sent :=
      if transfer = .busy then none
      else some [{ reg with write := true }.addrValue, payloadData reg.payload 3,
        payloadData reg.payload 2, payloadData reg.payload 1, payloadData reg.payload 0] }

namespace I2cCall

def axis : I2cCall → BitVec 8
  | read axis .. => axis
  | write axis .. => axis

def select : I2cCall → Transfer
  | read _ _ select .. => select
  | write _ _ select _ => select

def result : I2cCall → I2cResult
  | read _ reg _ transfer received => i2cRead reg transfer received
  | write _ reg _ transfer => i2cWrite reg transfer

/-- The call sends a register datagram. -/
def Sends (call : I2cCall) : Prop := call.result.sent.isSome = true

instance (call : I2cCall) : Decidable call.Sends := inferInstanceAs (Decidable (_ = _))

end I2cCall

/-- All calls for the bridge. Before the first select the variable is `0xFF`. -/
def i2cBridge : Machine I2cBridge I2cCall where
  init := { axis := 0xFF, selected := none, selectOk := false }
  step s call := some (useAxis call.axis call.select s)

/-! ## Selecting -/

/-- The latest select up to the datagram of this call succeeded. -/
def SelectOk (s : I2cBridge) (call : I2cCall) : Prop :=
  if call.axis = s.axis then s.selectOk = true else call.select = .ok

instance (s : I2cBridge) (call : I2cCall) : Decidable (SelectOk s call) :=
  inferInstanceAs (Decidable (ite _ _ _))

/-- The variable agrees with the bridge after a select that succeeded. -/
def Agrees (s : I2cBridge) : Prop := s.selectOk = true → s.selected = some s.axis

theorem useAxis_cases (s : I2cBridge) (call : I2cCall) :
    (call.axis = s.axis ∧ useAxis call.axis call.select s = s) ∨
      (call.axis ≠ s.axis ∧ call.select = .ok ∧
        useAxis call.axis call.select s = ⟨call.axis, some call.axis, true⟩) ∨
      (call.axis ≠ s.axis ∧ call.select ≠ .ok ∧
        useAxis call.axis call.select s = ⟨call.axis, s.selected, false⟩) := by
  unfold useAxis tmcSetAxis
  by_cases heq : call.axis = s.axis
  · exact .inl ⟨heq, if_pos heq⟩
  · rw [if_neg heq]
    cases hsel : call.select with
    | ok => exact .inr (.inl ⟨heq, rfl, rfl⟩)
    | busy => exact .inr (.inr ⟨heq, by decide, rfl⟩)
    | failed => exact .inr (.inr ⟨heq, by decide, rfl⟩)

theorem Agrees.useAxis {s : I2cBridge} (h : Agrees s) (call : I2cCall) :
    Agrees (useAxis call.axis call.select s) := by
  rcases useAxis_cases s call with ⟨_, hs⟩ | ⟨_, _, hs⟩ | ⟨_, _, hs⟩ <;> rw [hs]
  · exact h
  · intro _
    rfl
  · intro hok
    exact absurd hok Bool.false_ne_true

/-- After a failed select the bridge keeps its axis. -/
theorem selected_useAxis {s : I2cBridge} (h : Agrees s) (call : I2cCall) :
    (useAxis call.axis call.select s).selected = some call.axis ↔
      (¬SelectOk s call → s.selected = some call.axis) := by
  unfold SelectOk
  rcases useAxis_cases s call with ⟨heq, hs⟩ | ⟨hne, hok, hs⟩ | ⟨hne, hno, hs⟩ <;> rw [hs]
  · rw [if_pos heq, heq]
    by_cases hok : s.selectOk = true
    · simp [hok, h hok]
    · simp [hok]
  · rw [if_neg hne]
    simp [hok]
  · rw [if_neg hne]
    simp [hno]

/-! ## Main results -/

/-- For every sequence of calls and every pattern of failed transfers: each register datagram
    is sent while its axis is the one selected last with success iff no datagram is sent
    behind a latest select that failed (or before any), except to the axis still selected. -/
theorem i2c_datagrams_reach_axis_iff (calls : List I2cCall) :
    i2cBridge.Along (fun _ call t => call.Sends → t.selected = some call.axis) i2cBridge.init
        calls ↔
      i2cBridge.Along (fun s call _ => call.Sends → ¬SelectOk s call →
        s.selected = some call.axis) i2cBridge.init calls := by
  have hinit : Agrees i2cBridge.init := fun h => absurd h Bool.false_ne_true
  refine Machine.along_congr (I := Agrees) (fun s call _ t hs hst => ?_) hinit
  obtain rfl := Option.some.inj hst
  exact ⟨imp_congr_right fun _ => selected_useAxis hs call, fun _ => hs.useAxis call⟩

/-- If no select fails, every datagram reaches its axis. `0xFF` is the number of no axis. -/
theorem datagrams_reach_axis_of_select_ok {calls : List I2cCall}
    (hcalls : ∀ call ∈ calls, call.select = .ok ∧ call.axis ≠ 0xFF) {s : I2cBridge}
    (hs : s.axis = 0xFF ∨ s.selected = some s.axis) :
    i2cBridge.Along (fun _ call t => call.Sends → t.selected = some call.axis) s calls := by
  induction calls generalizing s with
  | nil => trivial
  | cons call calls ih =>
    obtain ⟨⟨hok, hne⟩, hrest⟩ := List.forall_mem_cons.1 hcalls
    have hselected : (useAxis call.axis call.select s).selected = some call.axis ∧
        (useAxis call.axis call.select s).axis = call.axis := by
      rcases useAxis_cases s call with ⟨heq, ht⟩ | ⟨-, -, ht⟩ | ⟨-, hno, -⟩
      · rw [ht]
        rcases hs with hnone | hagrees
        · exact absurd (heq.trans hnone) hne
        · exact ⟨heq ▸ hagrees, heq.symm⟩
      · rw [ht]
        exact ⟨rfl, rfl⟩
      · exact absurd hok hno
    obtain ⟨hsel, haxis⟩ := hselected
    refine Machine.along_cons.2 ⟨_, rfl, fun _ => hsel, ih hrest (.inr ?_)⟩
    rw [hsel, haxis]

/-- The select of axis 1 fails, and the write for it goes to axis 0. -/
theorem i2c_failed_select_misdirects :
    ¬i2cBridge.Along (fun _ call t => call.Sends → t.selected = some call.axis) i2cBridge.init
      [.write 0 ⟨0x10, false, 0⟩ .ok .ok, .write 1 ⟨0x10, false, 0x1F⟩ .failed .ok] := by
  decide

end Esp32Embroidery.Tmc
