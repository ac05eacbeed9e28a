import Esp32Embroidery.Lib.Machine
import Esp32Embroidery.Lib.ShiftRegister
import Esp32Embroidery.Tmc.Datagram
import Mathlib.Logic.Function.Basic

/-!
# A daisy chain of Trinamic drivers

`tmc_spi.c` with one chip select for all motors: each access sends one datagram to every
motor, that of the last motor first. A motor executes what it holds when the chip is
deselected and shifts its reply out in the next frame, so a read takes two frames. The
stored datagrams of the other motors are sent again with every access.

Main results:

* `sendAll_shift`: after a frame every motor holds its own datagram.
* `daisyChain_isolation`: after any sequence of calls no stored datagram has its write bit
  set, a write changes one register and a read none, and a read returns the register.
-/

namespace Esp32Embroidery.Tmc

open Esp32Embroidery.Lib Esp32Embroidery.Lib.ShiftRegister

/-! ## Model -/

/-- A motor driver. Its shift register holds the address byte above the payload. -/
structure Motor where
  shift : BitVec 40
  regs : BitVec 7 → BitVec 32

/-- What is left open of the replies: the status byte, and the payload after a write. -/
structure Replies where
  status : Motor → BitVec 8
  written : Motor → BitVec 32

/-- The chip is deselected: execute the datagram and hold the reply. -/
def Motor.execute (replies : Replies) (m : Motor) : Motor :=
  let idx := m.shift.extractLsb' 32 7
  if m.shift.msb then
    { shift := replies.status m ++ replies.written m
      regs := Function.update m.regs idx (m.shift.extractLsb' 0 32) }
  else { m with shift := replies.status m ++ m.regs idx }

def shifts (motors : ℕ → Motor) : ℕ → BitVec 40 := fun i => (motors i).shift

/-- One byte on the bus of `n` motors. The motor 0 is the first behind the master. -/
def exchange (n : ℕ) (byte : BitVec 8) (motors : ℕ → Motor) : (ℕ → Motor) × BitVec 8 :=
  let moved := transfer n (shifts motors) byte
  (fun i => { motors i with shift := moved.1 i }, moved.2)

/-- `spi_put_byte` (`spi.c`, lines 155-166) does not return the byte it receives. -/
def spiPutByte (n : ℕ) (byte : BitVec 8) (motors : ℕ → Motor) : (ℕ → Motor) × BitVec 8 :=
  ((exchange n byte motors).1, 0)

/-- `spi_get_byte` (`spi.c`, lines 143-153). It transmits any byte. -/
def spiGetByte (n : ℕ) (mosi : BitVec 8) (motors : ℕ → Motor) : (ℕ → Motor) × BitVec 8 :=
  exchange n mosi motors

/-- `spi_deselect` -/
def spiDeselect (replies : Replies) (motors : ℕ → Motor) : ℕ → Motor :=
  fun i => (motors i).execute replies

/-- `datagram` and the static `status` of `tmc_spi_read`, with the motors. -/
structure TmcSpi where
  datagram : ℕ → Datagram
  status : BitVec 8
  motors : ℕ → Motor

/-- The five calls of `spi_put_byte` for a motor. -/
def putDatagram (n : ℕ) (addr : BitVec 8) (payload : BitVec 32) (motors : ℕ → Motor) :
    (ℕ → Motor) × BitVec 8 :=
  let (motors, res) := spiPutByte n addr motors
  let (motors, _) := spiPutByte n (payloadData payload 3) motors
  let (motors, _) := spiPutByte n (payloadData payload 2) motors
  let (motors, _) := spiPutByte n (payloadData payload 1) motors
  let (motors, _) := spiPutByte n (payloadData payload 0) motors
  (motors, res)

/-- `spi_put_byte` and the four calls of `spi_get_byte` for a motor. -/
def getDatagram (n : ℕ) (addr : BitVec 8) (mosi : BitVec 32) (motors : ℕ → Motor) :
    (ℕ → Motor) × BitVec 8 × BitVec 32 :=
  let (motors, res) := spiPutByte n addr motors
  let (motors, data3) := spiGetByte n (payloadData mosi 3) motors
  let (motors, data2) := spiGetByte n (payloadData mosi 2) motors
  let (motors, data1) := spiGetByte n (payloadData mosi 1) motors
  let (motors, data0) := spiGetByte n (payloadData mosi 0) motors
  (motors, res, data3 ++ data2 ++ data1 ++ data0)

/-- The first frame of a read (lines 64-70), for the motors below the index. -/
def requestLoop (n : ℕ) (datagram : ℕ → Datagram) : ℕ → (ℕ → Motor) → ℕ → Motor
  | 0, motors => motors
  | idx + 1, motors =>
    requestLoop n datagram idx (putDatagram n (datagram idx).addrValue 0 motors).1

/-- The second frame of a read (lines 78-93), with the status and the payload so far. -/
def replyLoop (n seq : ℕ) (datagram : ℕ → Datagram) (mosi : ℕ → BitVec 32) :
    ℕ → (ℕ → Motor) × BitVec 8 × BitVec 32 → (ℕ → Motor) × BitVec 8 × BitVec 32
  | 0, st => st
  | idx + 1, (motors, status, payload) =>
    let (motors, res, data) := getDatagram n (datagram idx).addrValue (mosi idx) motors
    replyLoop n seq datagram mosi idx
      (motors, if idx = seq then (res, data) else (status, payload))

/-- The frame of a write (lines 114-126), with the status so far. -/
def writeLoop (n seq : ℕ) : ℕ → TmcSpi × BitVec 8 → TmcSpi × BitVec 8
  | 0, st => st
  | idx + 1, (s, status) =>
    let sent := s.datagram idx
    let (motors, res) := putDatagram n sent.addrValue sent.payload s.motors
    if idx = seq then
      let datagram := Function.update s.datagram idx { sent with idx := 0, write := false }
      writeLoop n seq idx ({ s with motors := motors, datagram := datagram }, res)
    else writeLoop n seq idx ({ s with motors := motors }, status)

/-- `tmc_spi_read` (lines 52-100): the status and the payload. -/
def tmcSpiRead (replies : Replies) (n seq : ℕ) (reg : Datagram) (mosi : ℕ → BitVec 32)
    (s : TmcSpi) : TmcSpi × BitVec 8 × BitVec 32 :=
  let request := { s.datagram seq with idx := reg.idx, write := false }
  let datagram := Function.update s.datagram seq request
  let motors := spiDeselect replies (requestLoop n datagram n s.motors)
  let (motors, status, payload) :=
    replyLoop n seq datagram mosi n (motors, s.status, reg.payload)
  ({ datagram := datagram, status := status, motors := spiDeselect replies motors },
    status, payload)

/-- `tmc_spi_write` (lines 102-133): the status. -/
def tmcSpiWrite (replies : Replies) (n seq : ℕ) (reg : Datagram) (s : TmcSpi) :
    TmcSpi × BitVec 8 :=
  let datagram := Function.update s.datagram seq { reg with write := true }
  let (s, status) := writeLoop n seq n ({ s with datagram := datagram }, 0)
  ({ s with motors := spiDeselect replies s.motors }, status)

/-- A call for the motor `seq`. While it reads, the master transmits `mosi`. -/
inductive TmcCall (n : ℕ)
  | read (seq : Fin n) (reg : Datagram) (mosi : ℕ → BitVec 32)
  | write (seq : Fin n) (reg : Datagram)

/-- All calls after `tmc_spi_init` for a chain of `n` motors in any state. -/
def daisyChain (replies : Replies) (n : ℕ) (motors : ℕ → Motor) :
    Machine TmcSpi (TmcCall n) where
  init := { datagram := fun _ => ⟨0, false, 0⟩, status := 0, motors := motors }
  step s
    | .read seq reg mosi => some (tmcSpiRead replies n seq reg mosi s).1
    | .write seq reg => some (tmcSpiWrite replies n seq reg s).1

/-! ## One motor -/

theorem msb_word (d : Datagram) (payload : BitVec 32) :
    (d.addrValue ++ payload : BitVec 40).msb = d.write := by
  rw [BitVec.msb_append, if_neg (by decide), Datagram.addrValue, BitVec.msb_append,
    if_neg (by decide), BitVec.msb_ofBool]

theorem idx_word (d : Datagram) (payload : BitVec 32) :
    (d.addrValue ++ payload : BitVec 40).extractLsb' 32 7 = d.idx := by
  refine BitVec.eq_of_getLsbD_eq fun i hi => ?_
  simp only [Datagram.addrValue, BitVec.getLsbD_extractLsb', BitVec.getLsbD_append]
  rw [if_neg (by omega), Nat.add_sub_cancel_left, if_pos hi, decide_eq_true hi, Bool.true_and]

theorem payload_word (addr : BitVec 8) (payload : BitVec 32) :
    (addr ++ payload : BitVec 40).extractLsb' 0 32 = payload :=
  BitVec.extractLsb'_append_eq_right

section

variable (replies : Replies) {m : Motor} {d : Datagram} {payload : BitVec 32}
  (h : m.shift = d.addrValue ++ payload)

include h

theorem execute_write (hw : d.write = true) :
    (m.execute replies).regs = Function.update m.regs d.idx payload := by
  unfold Motor.execute
  rw [h, msb_word, if_pos hw, idx_word, payload_word]

theorem execute_read (hw : d.write = false) :
    (m.execute replies).regs = m.regs ∧
      (m.execute replies).shift = replies.status m ++ m.regs d.idx := by
  unfold Motor.execute
  rw [h, msb_word, if_neg (by rw [hw]; exact Bool.false_ne_true), idx_word]
  exact ⟨rfl, rfl⟩

end

/-! ## One datagram on the bus -/

section

variable {n : ℕ} {motors : ℕ → Motor} {rest : List Bool}

theorem exchange_front {x y : BitVec 8} (h : contents (shifts motors) n = bits y ++ rest) :
    (exchange n x motors).2 = y ∧
      contents (shifts (exchange n x motors).1) n = rest ++ bits x :=
  transfer_front (by decide) h

theorem bits_payload (p : BitVec 32) :
    bits p = bits (payloadData p 3) ++ (bits (payloadData p 2) ++
      (bits (payloadData p 1) ++ bits (payloadData p 0))) := by
  calc bits p = bits (payloadData p 3 ++ payloadData p 2 ++ payloadData p 1 ++ payloadData p 0) :=
        (congrArg bits (payloadData_append p)).symm
    _ = bits (payloadData p 3) ++ (bits (payloadData p 2) ++
        (bits (payloadData p 1) ++ bits (payloadData p 0))) := by
      rw [bits_append, bits_append, bits_append, List.append_assoc, List.append_assoc]

/-- The five bytes of a motor: its reply comes out and the datagram goes in at the end. -/
theorem getDatagram_front (addr : BitVec 8) (payload : BitVec 32) {status : BitVec 8}
    {data : BitVec 32}
    (h : contents (shifts motors) n = bits (status ++ data : BitVec 40) ++ rest) :
    (getDatagram n addr payload motors).2.2 = data ∧
      contents (shifts (getDatagram n addr payload motors).1) n =
        rest ++ bits (addr ++ payload : BitVec 40) := by
  have hin : bits (addr ++ payload : BitVec 40) = bits addr ++ bits payload := bits_append _ _
  have hout : bits (status ++ data : BitVec 40) = bits status ++ bits data := bits_append _ _
  rw [hout, bits_payload, List.append_assoc, List.append_assoc, List.append_assoc,
    List.append_assoc] at h
  obtain ⟨_, h4⟩ := exchange_front (x := addr) h
  rw [List.append_assoc, List.append_assoc, List.append_assoc, List.append_assoc] at h4
  obtain ⟨hdata3, h3⟩ := exchange_front (x := payloadData payload 3) h4
  rw [List.append_assoc, List.append_assoc, List.append_assoc, List.append_assoc] at h3
  obtain ⟨hdata2, h2⟩ := exchange_front (x := payloadData payload 2) h3
  rw [List.append_assoc, List.append_assoc, List.append_assoc, List.append_assoc] at h2
  obtain ⟨hdata1, h1⟩ := exchange_front (x := payloadData payload 1) h2
  rw [List.append_assoc, List.append_assoc, List.append_assoc, List.append_assoc] at h1
  obtain ⟨hdata0, h0⟩ := exchange_front (x := payloadData payload 0) h1
  constructor
  · refine Eq.trans ?_ (payloadData_append data)
    rw [← hdata3, ← hdata2, ← hdata1, ← hdata0]
    rfl
  · refine h0.trans ?_
    rw [hin, bits_payload payload]
    simp only [List.append_assoc]

end

/-! ## One frame -/

/-- A frame for the motors below the index, the last one first: address bytes and payloads. -/
def sendAll (n : ℕ) (addr : ℕ → BitVec 8) (payload : ℕ → BitVec 32) :
    ℕ → (ℕ → Motor) → ℕ → Motor
  | 0, motors => motors
  | idx + 1, motors =>
    sendAll n addr payload idx (putDatagram n (addr idx) (payload idx) motors).1

section

variable {n : ℕ} {addr addr' : ℕ → BitVec 8} {payload payload' : ℕ → BitVec 32}
  {motors : ℕ → Motor}

theorem sendAll_regs (idx i : ℕ) :
    (sendAll n addr payload idx motors i).regs = (motors i).regs := by
  induction idx generalizing motors with
  | zero => rfl
  | succ idx ih => exact ih

theorem sendAll_congr {idx : ℕ} (haddr : ∀ i < idx, addr i = addr' i)
    (hpayload : ∀ i < idx, payload i = payload' i) :
    sendAll n addr payload idx motors = sendAll n addr' payload' idx motors := by
  induction idx generalizing motors with
  | zero => rfl
  | succ idx ih =>
    unfold sendAll
    rw [haddr idx (Nat.lt_succ_self idx), hpayload idx (Nat.lt_succ_self idx)]
    exact ih (fun i hi => haddr i (by omega)) fun i hi => hpayload i (by omega)

theorem sendAll_contents {idx : ℕ} {held : ℕ → BitVec 40} {rest : List Bool}
    (h : contents (shifts motors) n = contents held idx ++ rest) :
    contents (shifts (sendAll n addr payload idx motors)) n =
      rest ++ contents (fun i => addr i ++ payload i) idx := by
  induction idx generalizing motors rest with
  | zero => exact h.trans (List.append_nil rest).symm
  | succ idx ih =>
    have hword : held idx = (held idx).extractLsb' 32 8 ++ (held idx).extractLsb' 0 32 :=
      (@BitVec.extractLsb'_append_extractLsb' 8 32 (held idx)).symm
    rw [contents, hword, List.append_assoc] at h
    have hput := (getDatagram_front (addr idx) (payload idx) h).2
    rw [List.append_assoc] at hput
    rw [contents, ← List.append_assoc]
    exact ih hput

/-- After a whole frame every motor holds what was sent for it. -/
theorem sendAll_shift (addr : ℕ → BitVec 8) (payload : ℕ → BitVec 32) (motors : ℕ → Motor)
    {i : ℕ} (hi : i < n) : (sendAll n addr payload n motors i).shift = addr i ++ payload i := by
  have h : contents (shifts (sendAll n addr payload n motors)) n =
      [] ++ contents (fun i => addr i ++ payload i) n :=
    sendAll_contents (List.append_nil (contents (shifts motors) n)).symm
  exact contents_injective (h.trans (List.nil_append _)) i hi

end

/-! ### The loops -/

theorem requestLoop_eq (n : ℕ) (datagram : ℕ → Datagram) (idx : ℕ) (motors : ℕ → Motor) :
    requestLoop n datagram idx motors =
      sendAll n (fun i => (datagram i).addrValue) (fun _ => 0) idx motors := by
  induction idx generalizing motors with
  | zero => rfl
  | succ idx ih => exact ih _

theorem replyLoop_motors (n seq : ℕ) (datagram : ℕ → Datagram) (mosi : ℕ → BitVec 32) (idx : ℕ)
    (st : (ℕ → Motor) × BitVec 8 × BitVec 32) :
    (replyLoop n seq datagram mosi idx st).1 =
      sendAll n (fun i => (datagram i).addrValue) mosi idx st.1 := by
  induction idx generalizing st with
  | zero => rfl
  | succ idx ih => exact ih _

theorem replyLoop_succ (n seq : ℕ) (datagram : ℕ → Datagram) (mosi : ℕ → BitVec 32) (idx : ℕ)
    (motors : ℕ → Motor) (res : BitVec 8 × BitVec 32) :
    replyLoop n seq datagram mosi (idx + 1) (motors, res) =
      replyLoop n seq datagram mosi idx
        ((getDatagram n (datagram idx).addrValue (mosi idx) motors).1,
          if idx = seq then (getDatagram n (datagram idx).addrValue (mosi idx) motors).2
          else res) := rfl

/-- The payload comes from the reply of the motor `seq`. -/
theorem replyLoop_payload {n seq : ℕ} {datagram : ℕ → Datagram} {mosi : ℕ → BitVec 32} {idx : ℕ}
    {motors : ℕ → Motor} {res : BitVec 8 × BitVec 32} {status : ℕ → BitVec 8}
    {data : ℕ → BitVec 32} {rest : List Bool}
    (h : contents (shifts motors) n = contents (fun i => status i ++ data i) idx ++ rest) :
    (replyLoop n seq datagram mosi idx (motors, res)).2.2 =
      if seq < idx then data seq else res.2 := by
  induction idx generalizing motors res rest with
  | zero => rfl
  | succ idx ih =>
    rw [contents, List.append_assoc] at h
    have hget := getDatagram_front (datagram idx).addrValue (mosi idx) h
    rw [List.append_assoc] at hget
    rw [replyLoop_succ, ih hget.2]
    by_cases heq : idx = seq
    · subst heq
      rw [if_neg (Nat.lt_irrefl idx), if_pos rfl, if_pos (Nat.lt_succ_self idx)]
      exact hget.1
    · have hiff : seq < idx ↔ seq < idx + 1 := by omega
      rw [if_neg heq, if_congr hiff rfl rfl]

/-- What `tmc_spi_write` leaves in a stored datagram. -/
def Datagram.cleared (d : Datagram) : Datagram := { d with idx := 0, write := false }

theorem writeLoop_succ (n seq idx : ℕ) (s : TmcSpi) (status : BitVec 8) :
    writeLoop n seq (idx + 1) (s, status) =
      if idx = seq then
        writeLoop n seq idx
          ({ s with
              motors := (putDatagram n (s.datagram idx).addrValue (s.datagram idx).payload
                s.motors).1
              datagram := Function.update s.datagram idx (s.datagram idx).cleared }, 0)
      else
        writeLoop n seq idx
          ({ s with
              motors := (putDatagram n (s.datagram idx).addrValue (s.datagram idx).payload
                s.motors).1 }, status) := rfl

/-- A write sends the datagrams as they are stored and then clears that of `seq`. -/
theorem writeLoop_eq (n seq idx : ℕ) (s : TmcSpi) (status : BitVec 8) :
    (writeLoop n seq idx (s, status)).1 =
      { s with
        motors := sendAll n (fun i => (s.datagram i).addrValue) (fun i => (s.datagram i).payload)
          idx s.motors
        datagram := if seq < idx then Function.update s.datagram seq (s.datagram seq).cleared
          else s.datagram } := by
  induction idx generalizing s status with
  | zero => rfl
  | succ idx ih =>
    rw [writeLoop_succ]
    by_cases heq : idx = seq
    · subst heq
      have hsame : ∀ i < idx, Function.update s.datagram idx (s.datagram idx).cleared i =
          s.datagram i := fun i hi => Function.update_of_ne (by omega) _ _
      rw [if_pos rfl, ih, if_neg (Nat.lt_irrefl idx), if_pos (Nat.lt_succ_self idx)]
      congr 1
      refine sendAll_congr (fun i hi => ?_) fun i hi => ?_
      · exact congrArg Datagram.addrValue (hsame i hi)
      · exact congrArg Datagram.payload (hsame i hi)
    · have hiff : seq < idx ↔ seq < idx + 1 := by omega
      rw [if_neg heq, ih, if_congr hiff rfl rfl]
      rfl

/-! ## One call -/

/-- No stored datagram has its write bit set. -/
def NoWrites (n : ℕ) (s : TmcSpi) : Prop := ∀ i < n, (s.datagram i).write = false

section

variable {replies : Replies} {n seq : ℕ} {reg : Datagram} {s : TmcSpi}

/-- A frame executes what was sent to the motor `i`. -/
theorem deselect_read (replies : Replies) (payload : ℕ → BitVec 32) (motors : ℕ → Motor)
    {datagram : ℕ → Datagram} {i : ℕ} (hi : i < n) (hread : (datagram i).write = false) :
    let sent := sendAll n (fun i => (datagram i).addrValue) payload n motors
    (spiDeselect replies sent i).regs = (motors i).regs ∧
      (spiDeselect replies sent i).shift =
        replies.status (sent i) ++ (motors i).regs (datagram i).idx := by
  intro sent
  have hheld : (sent i).shift = (datagram i).addrValue ++ payload i :=
    sendAll_shift _ payload motors hi
  have hregs : (sent i).regs = (motors i).regs := sendAll_regs n i
  rw [← hregs]
  exact execute_read replies hheld hread

theorem tmcSpiWrite_datagram (hseq : seq < n) :
    (tmcSpiWrite replies n seq reg s).1.datagram =
      Function.update s.datagram seq (Datagram.cleared { reg with write := true }) := by
  let sent := Function.update s.datagram seq { reg with write := true }
  show (writeLoop n seq n ({ s with datagram := sent }, 0)).1.datagram = _
  rw [writeLoop_eq, if_pos hseq]
  have hself : sent seq = { reg with write := true } := Function.update_self _ _ _
  show Function.update sent seq (sent seq).cleared = _
  rw [hself]
  exact Function.update_idem _ _ _

theorem tmcSpiWrite_motors (replies : Replies) (n seq : ℕ) (reg : Datagram) (s : TmcSpi) :
    let sent := Function.update s.datagram seq { reg with write := true }
    (tmcSpiWrite replies n seq reg s).1.motors =
      spiDeselect replies
        (sendAll n (fun i => (sent i).addrValue) (fun i => (sent i).payload) n s.motors) := by
  intro sent
  show spiDeselect replies (writeLoop n seq n ({ s with datagram := sent }, 0)).1.motors = _
  rw [writeLoop_eq]

theorem NoWrites.write (h : NoWrites n s) (hseq : seq < n) :
    NoWrites n (tmcSpiWrite replies n seq reg s).1 := by
  intro i hi
  rw [tmcSpiWrite_datagram hseq]
  by_cases heq : i = seq
  · rw [heq, Function.update_self]
    rfl
  · rw [Function.update_of_ne heq]
    exact h i hi

/-- A write reaches one register of one motor. -/
theorem regs_write (h : NoWrites n s) {i : ℕ} (hi : i < n) (a : BitVec 7) :
    ((tmcSpiWrite replies n seq reg s).1.motors i).regs a =
      if i = seq ∧ a = reg.idx then reg.payload else (s.motors i).regs a := by
  rw [tmcSpiWrite_motors]
  by_cases heq : i = seq
  · subst heq
    have hshift := sendAll_shift
      (fun j => (Function.update s.datagram i { reg with write := true } j).addrValue)
      (fun j => (Function.update s.datagram i { reg with write := true } j).payload) s.motors hi
    have hwrite := execute_write replies hshift (by rw [Function.update_self])
    rw [sendAll_regs, Function.update_self] at hwrite
    refine (congrFun hwrite a).trans ?_
    rw [Function.update_apply]
    exact if_congr (by simp) rfl rfl
  · have hsent : Function.update s.datagram seq { reg with write := true } i = s.datagram i :=
      Function.update_of_ne heq _ _
    have hread := (deselect_read replies (fun j =>
      (Function.update s.datagram seq { reg with write := true } j).payload) s.motors hi
      (hsent ▸ h i hi)).1
    rw [if_neg fun hand => heq hand.1]
    exact congrFun hread a

/-- The datagrams of a read. -/
def readDatagrams (seq : ℕ) (reg : Datagram) (s : TmcSpi) : ℕ → Datagram :=
  Function.update s.datagram seq { s.datagram seq with idx := reg.idx, write := false }

theorem NoWrites.readDatagrams (h : NoWrites n s) (seq : ℕ) (reg : Datagram) {i : ℕ}
    (hi : i < n) :
    (readDatagrams seq reg s i).write = false := by
  by_cases heq : i = seq
  · rw [Tmc.readDatagrams, heq, Function.update_self]
  · rw [Tmc.readDatagrams, Function.update_of_ne heq]
    exact h i hi

theorem NoWrites.read (h : NoWrites n s) (mosi : ℕ → BitVec 32) :
    NoWrites n (tmcSpiRead replies n seq reg mosi s).1 := fun _ hi => h.readDatagrams seq reg hi

/-- The motors after the first frame of a read. -/
theorem request_motors (replies : Replies) (seq : ℕ) (reg : Datagram) (h : NoWrites n s) {i : ℕ}
    (hi : i < n) :
    let motors := spiDeselect replies (requestLoop n (readDatagrams seq reg s) n s.motors)
    (motors i).regs = (s.motors i).regs ∧ ∃ status : BitVec 8,
      (motors i).shift = status ++ (s.motors i).regs (readDatagrams seq reg s i).idx := by
  intro motors
  have hread := deselect_read replies (fun _ => 0) s.motors hi (h.readDatagrams seq reg hi)
  rw [← requestLoop_eq] at hread
  exact ⟨hread.1, _, hread.2⟩

theorem regs_read (h : NoWrites n s) (mosi : ℕ → BitVec 32) {i : ℕ} (hi : i < n) :
    ((tmcSpiRead replies n seq reg mosi s).1.motors i).regs = (s.motors i).regs := by
  have hrequest := (request_motors replies seq reg h hi).1
  refine Eq.trans ?_ hrequest
  show (spiDeselect replies (replyLoop n seq (readDatagrams seq reg s) mosi n _).1 i).regs = _
  rw [replyLoop_motors]
  exact (deselect_read replies mosi _ hi (h.readDatagrams seq reg hi)).1

theorem payload_read (h : NoWrites n s) (hseq : seq < n) (mosi : ℕ → BitVec 32) :
    (tmcSpiRead replies n seq reg mosi s).2.2 = (s.motors seq).regs reg.idx := by
  let motors := spiDeselect replies (requestLoop n (readDatagrams seq reg s) n s.motors)
  have hmotors : ∀ i, ∃ status : BitVec 8, i < n → (motors i).shift =
      status ++ (s.motors i).regs (readDatagrams seq reg s i).idx := by
    intro i
    by_cases hi : i < n
    · obtain ⟨status, hshift⟩ := (request_motors replies seq reg h hi).2
      exact ⟨status, fun _ => hshift⟩
    · exact ⟨0, fun hlt => absurd hlt hi⟩
  choose status hshift using hmotors
  have hcontents : contents (shifts motors) n = contents (fun i =>
      status i ++ (s.motors i).regs (readDatagrams seq reg s i).idx) n ++ [] :=
    (contents_congr hshift).trans (List.append_nil _).symm
  show (replyLoop n seq (readDatagrams seq reg s) mosi n (motors, _)).2.2 = _
  rw [replyLoop_payload hcontents, if_pos hseq, readDatagrams, Function.update_self]

end

/-! ## Main result -/

/-- For every chain, whatever the motors reply beside the register read, and every sequence
    of calls since `tmc_spi_init`: no stored datagram has its write bit set; a write changes
    the addressed register of the addressed motor, to its payload, and nothing else; a read
    changes no register and returns the addressed one. -/
theorem daisyChain_isolation {replies : Replies} {n : ℕ} {motors : ℕ → Motor} {s : TmcSpi}
    (h : (daisyChain replies n motors).Reachable s) :
    (∀ i : Fin n, (s.datagram i).write = false) ∧
      (∀ (seq i : Fin n) (reg : Datagram) (a : BitVec 7),
        ((tmcSpiWrite replies n seq reg s).1.motors i).regs a =
          if i = seq ∧ a = reg.idx then reg.payload else (s.motors i).regs a) ∧
      ∀ (seq : Fin n) (reg : Datagram) (mosi : ℕ → BitVec 32),
        (∀ i : Fin n, ((tmcSpiRead replies n seq reg mosi s).1.motors i).regs =
          (s.motors i).regs) ∧
        (tmcSpiRead replies n seq reg mosi s).2.2 = (s.motors seq).regs reg.idx := by
  have hwrites : NoWrites n s := by
    refine h.invariant (I := NoWrites n) (fun i _ => rfl) fun s call t _ hs hst _ => ?_
    rcases call with ⟨seq, reg, mosi⟩ | ⟨seq, reg⟩ <;> obtain rfl := Option.some.inj hst
    · exact hs.read mosi
    · exact hs.write seq.isLt
  refine ⟨fun i => hwrites i i.isLt, fun seq i reg a => ?_, fun seq reg mosi => ⟨fun i => ?_, ?_⟩⟩
  · rw [regs_write hwrites i.isLt a]
    exact if_congr (and_congr_left fun _ => Fin.val_inj) rfl rfl
  · exact regs_read hwrites mosi i.isLt
  · exact payload_read hwrites seq.isLt mosi

/-- Two motors, after a write to the first. -/
theorem daisyChain_isolation_two :
    ∃ s, (daisyChain ⟨fun _ => 0, fun _ => 0⟩ 2 fun _ => ⟨0, fun _ => 0⟩).Reachable s ∧
      ((tmcSpiWrite ⟨fun _ => 0, fun _ => 0⟩ 2 1 ⟨0x6C, false, 5⟩ s).1.motors 1).regs 0x6C = 5 := by
  let chain := daisyChain ⟨fun _ => 0, fun _ => 0⟩ 2 fun _ => ⟨0, fun _ => 0⟩
  have h : chain.Reachable _ :=
    Machine.ReachableBy.init.step (a := .write 0 ⟨0x10, false, 7⟩) rfl trivial
  exact ⟨_, h, (daisyChain_isolation h).2.1 1 1 ⟨0x6C, false, 5⟩ 0x6C⟩

end Esp32Embroidery.Tmc
