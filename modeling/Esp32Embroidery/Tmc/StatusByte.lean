import Esp32Embroidery.Tmc.DaisyChain

/-!
# The status byte of the Trinamic drivers

A driver sends its status in front of its reply, while the address byte of the next datagram is
sent to it. `tmc_spi.c` takes it from `spi_put_byte`, in a daisy chain and with a chip select for
each motor, but `spi_put_byte` does not return what it receives.

* `slotByte_eq`: while the address byte of a motor is sent, the byte on the bus is the first one
  of the reply of this motor.
* `tmc_status_iff`: it is returned iff it is zero.
-/

namespace Esp32Embroidery.Tmc

open Esp32Embroidery.Lib Esp32Embroidery.Lib.ShiftRegister

/-! ## A chip select for each motor -/

/-- `tmc_spi_read` (lines 170–200) with the motors by their driver id: the motors, the status
    and `*datagram`. -/
def csSpiRead (replies : Replies) (id : ℕ) (datagram : Datagram) (mosi : BitVec 32)
    (motors : ℕ → Motor) : (ℕ → Motor) × BitVec 8 × Datagram :=
  let selected : ℕ → Motor := fun _ => motors id
  let datagram := { datagram with payload := 0, write := false }
  let selected := spiDeselect replies (putDatagram 1 datagram.addrValue 0 selected).1
  let (selected, status, payload) := getDatagram 1 datagram.addrValue mosi selected
  (Function.update motors id (spiDeselect replies selected 0), status,
    { datagram with payload := payload })

/-- `tmc_spi_write` (lines 202–220): the motors, the status and `*datagram`. -/
def csSpiWrite (replies : Replies) (id : ℕ) (datagram : Datagram) (motors : ℕ → Motor) :
    (ℕ → Motor) × BitVec 8 × Datagram :=
  let selected : ℕ → Motor := fun _ => motors id
  let datagram := { datagram with write := true }
  let (selected, status) := putDatagram 1 datagram.addrValue datagram.payload selected
  (Function.update motors id (spiDeselect replies selected 0), status, datagram)

/-! ## The byte on the bus -/

/-- The byte that comes in while the address byte of the motor `seq` is sent, in a frame for the
    motors below the index. -/
def slotByte (n seq : ℕ) (addr : ℕ → BitVec 8) (payload : ℕ → BitVec 32) :
    ℕ → (ℕ → Motor) → BitVec 8
  | 0, _ => 0
  | idx + 1, motors =>
    if idx = seq then (exchange n (addr idx) motors).2
    else slotByte n seq addr payload idx (putDatagram n (addr idx) (payload idx) motors).1

/-- The first byte of the reply that a motor holds. -/
def Motor.statusByte (m : Motor) : BitVec 8 := m.shift.extractLsb' 32 8

section

variable {n seq : ℕ} {addr : ℕ → BitVec 8} {payload : ℕ → BitVec 32} {motors : ℕ → Motor}

theorem shift_eq (w : BitVec 40) : w = w.extractLsb' 32 8 ++ w.extractLsb' 0 32 :=
  (@BitVec.extractLsb'_append_extractLsb' 8 32 w).symm

theorem slotByte_front {idx : ℕ} (held : ℕ → BitVec 40) {rest : List Bool} (hseq : seq < idx)
    (h : contents (shifts motors) n = contents held idx ++ rest) :
    slotByte n seq addr payload idx motors = (held seq).extractLsb' 32 8 := by
  induction idx generalizing motors rest with
  | zero => exact absurd hseq (Nat.not_lt_zero seq)
  | succ idx ih =>
    rw [contents, shift_eq (held idx), List.append_assoc] at h
    unfold slotByte
    split
    · rename_i heq
      rw [bits_append, List.append_assoc] at h
      rw [(exchange_front (x := addr idx) h).1, heq]
    · -- the five bytes of the motor before are out of the way
      have hput := (getDatagram_front (addr idx) (payload idx) h).2
      rw [List.append_assoc] at hput
      exact ih (by omega) hput

/-- It is the byte that the motor had in front when the frame began. -/
theorem slotByte_eq (addr : ℕ → BitVec 8) (payload : ℕ → BitVec 32) (motors : ℕ → Motor)
    (hseq : seq < n) : slotByte n seq addr payload n motors = (motors seq).statusByte :=
  slotByte_front (shifts motors) hseq (List.append_nil _).symm

/-- With a chip select the selected motor is a chain of one. -/
theorem exchange_one (addr : BitVec 8) (motors : ℕ → Motor) :
    (exchange 1 addr motors).2 = (motors 0).statusByte := by
  have hslot := slotByte_eq (fun _ => addr) (fun _ => 0) motors Nat.one_pos
  unfold slotByte at hslot
  rwa [if_pos rfl] at hslot

/-- What a motor holds after a frame. -/
theorem sendAll_eq (addr : ℕ → BitVec 8) (payload : ℕ → BitVec 32) (motors : ℕ → Motor) {i : ℕ}
    (hi : i < n) :
    sendAll n addr payload n motors i = { motors i with shift := addr i ++ payload i } := by
  calc sendAll n addr payload n motors i
      = ⟨(sendAll n addr payload n motors i).shift, (sendAll n addr payload n motors i).regs⟩ := rfl
    _ = { motors i with shift := addr i ++ payload i } := by
      rw [sendAll_shift addr payload motors hi, sendAll_regs]

/-- A motor that was sent a read answers with its status first. -/
theorem statusByte_execute (replies : Replies) {m : Motor} {d : Datagram} (payload : BitVec 32)
    (h : m.shift = d.addrValue ++ payload) (hread : d.write = false) :
    (m.execute replies).statusByte = replies.status m := by
  unfold Motor.statusByte
  rw [(execute_read replies h hread).2]
  exact BitVec.extractLsb'_append_eq_left

end

/-! ## What is returned -/

theorem replyLoop_status {n seq : ℕ} {datagram : ℕ → Datagram} {mosi : ℕ → BitVec 32} (idx : ℕ)
    (motors : ℕ → Motor) (res : BitVec 8 × BitVec 32) :
    (replyLoop n seq datagram mosi idx (motors, res)).2.1 = if seq < idx then 0 else res.1 := by
  induction idx generalizing motors res with
  | zero => rfl
  | succ idx ih =>
    rw [replyLoop_succ, ih]
    by_cases heq : idx = seq
    · rw [if_neg (by omega), if_pos heq, if_pos (by omega)]
      rfl
    · have hiff : seq < idx ↔ seq < idx + 1 := by omega
      rw [if_neg heq, if_congr hiff rfl rfl]

theorem writeLoop_status {n seq : ℕ} (idx : ℕ) (s : TmcSpi) (status : BitVec 8) :
    (writeLoop n seq idx (s, status)).2 = if seq < idx then 0 else status := by
  induction idx generalizing s status with
  | zero => rfl
  | succ idx ih =>
    rw [writeLoop_succ]
    by_cases heq : idx = seq
    · rw [if_pos heq, ih, if_neg (by omega), if_pos (by omega)]
    · have hiff : seq < idx ↔ seq < idx + 1 := by omega
      rw [if_neg heq, ih, if_congr hiff rfl rfl]

/-! ## The byte that the motor sends -/

/-- The byte on the bus for `tmc_spi_read` in the chain, in its second frame. -/
def chainReadByte (replies : Replies) (n seq : ℕ) (reg : Datagram) (mosi : ℕ → BitVec 32)
    (s : TmcSpi) : BitVec 8 :=
  slotByte n seq (fun i => (readDatagrams seq reg s i).addrValue) mosi n
    (spiDeselect replies (requestLoop n (readDatagrams seq reg s) n s.motors))

/-- The byte on the bus for `tmc_spi_write` in the chain. -/
def chainWriteByte (n seq : ℕ) (reg : Datagram) (s : TmcSpi) : BitVec 8 :=
  let sent := Function.update s.datagram seq { reg with write := true }
  slotByte n seq (fun i => (sent i).addrValue) (fun i => (sent i).payload) n s.motors

/-- The address byte of a read. -/
def readAddr (reg : Datagram) : BitVec 8 := { reg with write := false }.addrValue

/-- The byte on the bus for `tmc_spi_read` with a chip select, in its second frame. -/
def csReadByte (replies : Replies) (id : ℕ) (datagram : Datagram) (motors : ℕ → Motor) :
    BitVec 8 :=
  let selected : ℕ → Motor := fun _ => motors id
  (exchange 1 (readAddr datagram)
    (spiDeselect replies (putDatagram 1 (readAddr datagram) 0 selected).1)).2

/-- The byte on the bus for `tmc_spi_write` with a chip select. -/
def csWriteByte (id : ℕ) (datagram : Datagram) (motors : ℕ → Motor) : BitVec 8 :=
  (exchange 1 { datagram with write := true }.addrValue fun _ => motors id).2

/-- A motor that has been sent a read of the register. -/
def Motor.asked (m : Motor) (reg : Datagram) : Motor := 
  { m with shift := readAddr reg ++ (0 : BitVec 32) }

section

variable (replies : Replies) {n seq : ℕ} (reg : Datagram) (s : TmcSpi) (id : ℕ)
  (motors : ℕ → Motor)

/-- The reply of a motor to a request. -/
theorem statusByte_asked (m : Motor) :
    ((m.asked reg).execute replies).statusByte = replies.status (m.asked reg) :=
  statusByte_execute replies (d := { reg with write := false }) 0 rfl rfl

theorem chainReadByte_eq (mosi : ℕ → BitVec 32) (hseq : seq < n) :
    chainReadByte replies n seq reg mosi s = replies.status ((s.motors seq).asked reg) := by
  have hasked : requestLoop n (readDatagrams seq reg s) n s.motors seq =
      (s.motors seq).asked reg := by
    rw [requestLoop_eq, sendAll_eq _ _ s.motors hseq, readDatagrams, Function.update_self]
    rfl
  calc chainReadByte replies n seq reg mosi s
      = ((requestLoop n (readDatagrams seq reg s) n s.motors seq).execute replies).statusByte :=
        slotByte_eq _ _ _ hseq
    _ = (((s.motors seq).asked reg).execute replies).statusByte := by rw [hasked]
    _ = replies.status ((s.motors seq).asked reg) := statusByte_asked replies reg _

theorem chainWriteByte_eq (hseq : seq < n) :
    chainWriteByte n seq reg s = (s.motors seq).statusByte :=
  slotByte_eq _ _ s.motors hseq

theorem csReadByte_eq :
    csReadByte replies id reg motors = replies.status ((motors id).asked reg) := by
  have hasked : (putDatagram 1 (readAddr reg) 0 fun _ => motors id).1 0 =
      (motors id).asked reg :=
    sendAll_eq (fun _ => readAddr reg) (fun _ => 0) (fun _ => motors id) Nat.one_pos
  calc csReadByte replies id reg motors
      = (((putDatagram 1 (readAddr reg) 0 fun _ => motors id).1 0).execute replies).statusByte :=
        exchange_one _ _
    _ = (((motors id).asked reg).execute replies).statusByte := by rw [hasked]
    _ = replies.status ((motors id).asked reg) := statusByte_asked replies reg _

theorem csWriteByte_eq : csWriteByte id reg motors = (motors id).statusByte := exchange_one _ _

end

/-- The returned status is the byte that the addressed motor sends iff that byte is zero: after
    a write the one it held, after a read the one that it answers to the request. -/
theorem tmc_status_iff (replies : Replies) :
    (∀ (n : ℕ) (seq : Fin n) (reg : Datagram) (mosi : ℕ → BitVec 32) (s : TmcSpi),
      ((tmcSpiRead replies n seq reg mosi s).2.1 = chainReadByte replies n seq reg mosi s ↔
        replies.status ((s.motors seq).asked reg) = 0) ∧
      ((tmcSpiWrite replies n seq reg s).2 = chainWriteByte n seq reg s ↔
        (s.motors seq).statusByte = 0)) ∧
    ∀ (id : ℕ) (datagram : Datagram) (mosi : BitVec 32) (motors : ℕ → Motor),
      ((csSpiRead replies id datagram mosi motors).2.1 = csReadByte replies id datagram motors ↔
        replies.status ((motors id).asked datagram) = 0) ∧
      ((csSpiWrite replies id datagram motors).2.1 = csWriteByte id datagram motors ↔
        (motors id).statusByte = 0) := by
  refine ⟨fun n seq reg mosi s => ⟨?_, ?_⟩, fun id datagram mosi motors => ⟨?_, ?_⟩⟩
  · have hstatus : (tmcSpiRead replies n seq reg mosi s).2.1 = 0 := by
      refine (replyLoop_status n _ _).trans ?_
      rw [if_pos seq.isLt]
    rw [hstatus, chainReadByte_eq replies reg s mosi seq.isLt]
    exact eq_comm
  · have hstatus : (tmcSpiWrite replies n seq reg s).2 = 0 := by
      refine (writeLoop_status n _ 0).trans ?_
      rw [if_pos seq.isLt]
    rw [hstatus, chainWriteByte_eq reg s seq.isLt]
    exact eq_comm
  · rw [csReadByte_eq]
    exact eq_comm
  · rw [csWriteByte_eq]
    exact eq_comm

/-- A motor that sends 1, the flag of a reset: zero is returned. -/
theorem tmc_status_reset :
    ∃ motor : Motor, motor.statusByte = 1 ∧
      csWriteByte 0 ⟨0x10, false, 7⟩ (fun _ => motor) = 1 ∧
      (csSpiWrite ⟨fun _ => 1, fun _ => 0⟩ 0 ⟨0x10, false, 7⟩ fun _ => motor).2.1 = 0 :=
  ⟨⟨0x0100000000, fun _ => 0⟩, by decide +kernel, by decide +kernel, rfl⟩

end Esp32Embroidery.Tmc
