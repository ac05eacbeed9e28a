import Esp32Embroidery.Lib.Machine
import Mathlib.Data.List.Basic

/-!
# Bluetooth sessions

`esp_spp_cb` (`bluetooth.c`) accepts one client at a time. A client that opens
while another is connected is disconnected again; `is_second_attempt` is to make
the close event of that client pass without effect. It is one flag for any
number of rejected clients, and the handle of a close event is not looked at.

Main results:

* `connection_tracking`: `session` follows the accepted client through a sequence
  of events iff every close event of that client meets a clear flag and every
  other close event a set flag or no connected client.
* `connection_tracking_overlap`: two rejected attempts that overlap disconnect
  the accepted client.
-/

namespace Esp32Embroidery.Bluetooth

open Esp32Embroidery.Lib

/-! ## Model -/

/-- The handle of a client; `session.connection` is 0 without one. -/
abbrev Handle := BitVec 32

/-- `session`, `is_second_attempt`, `bt_stream.flags.claimed` and the static
    `stream` of `esp_spp_cb` (lines 85, 93-98, 350). The two stream pointers are
    known by whether they are set. -/
structure Session where
  connection : Handle
  dtr : Bool
  dsr : Bool
  sessionStream : Bool
  claimed : Bool
  stream : Bool
  isSecondAttempt : Bool
  deriving DecidableEq

namespace Session

/-- `session = {0}`. -/
def start : Session :=
  { connection := 0, dtr := false, dsr := false, sessionStream := false, claimed := false,
    stream := false, isSecondAttempt := false }

/-- `ESP_SPP_SRV_OPEN_EVT` (lines 361-383); `connected` is the result of
    `stream_connect`, `mpg` whether `hal.stream.type` is `StreamType_MPG`. -/
def srvOpen (s : Session) (handle : Handle) (connected mpg : Bool) : Session :=
  if s.dtr then { s with isSecondAttempt := true }
  else { s with
    sessionStream := s.sessionStream || !s.claimed
    stream := s.stream || (!s.claimed && connected)
    dtr := true
    dsr := !mpg
    connection := handle }

/-- `ESP_SPP_CLOSE_EVT` (lines 388-402), without the flush of `tx_queue`. -/
def close (s : Session) : Session :=
  if s.isSecondAttempt then { s with isSecondAttempt := false }
  else { s with
    connection := 0
    dtr := false
    dsr := false
    stream := false
    sessionStream := s.sessionStream && !s.stream
    claimed := s.claimed && !s.stream }

section

variable (s : Session) (handle : Handle) (connected mpg : Bool)

@[simp] theorem srvOpen_dtr : (s.srvOpen handle connected mpg).dtr = true := by
  unfold srvOpen
  split_ifs with h
  · exact h
  · rfl

theorem srvOpen_connection :
    (s.srvOpen handle connected mpg).connection = if s.dtr then s.connection else handle := by
  unfold srvOpen
  split_ifs <;> rfl

@[simp] theorem close_isSecondAttempt : s.close.isSecondAttempt = false := by
  unfold close
  split_ifs with h
  · rfl
  · simpa using h

theorem close_dtr : s.close.dtr = (s.isSecondAttempt && s.dtr) := by
  unfold close
  split_ifs with h
  · simp [h]
  · simp [h]

theorem close_connection :
    s.close.connection = if s.isSecondAttempt then s.connection else 0 := by
  unfold close
  split_ifs <;> rfl

end

end Session

/-! ## Clients -/

/-- The session, the handles that are open, the client accepted last, and whether
    that client's connection is open. -/
structure Clients where
  session : Session
  opened : List Handle
  accepted : Option Handle
  acceptedOpen : Bool

inductive ClientEvent
  | srvOpen (handle : Handle) (connected mpg : Bool)
  | close (handle : Handle)
  deriving DecidableEq

/-- A client that opens has a handle of its own; a close event is for an open
    handle. -/
def Clients.step (c : Clients) : ClientEvent → Option Clients
  | .srvOpen handle connected mpg =>
    if handle ∈ c.opened then none
    else some {
      session := c.session.srvOpen handle connected mpg
      opened := handle :: c.opened
      accepted := if c.session.dtr then c.accepted else some handle
      acceptedOpen := !c.session.dtr || c.acceptedOpen }
  | .close handle =>
    if handle ∈ c.opened then some {
      session := c.session.close
      opened := c.opened.erase handle
      accepted := c.accepted
      acceptedOpen := c.acceptedOpen && c.accepted ≠ some handle }
    else none

def clients : Machine Clients ClientEvent where
  init := { session := Session.start, opened := [], accepted := none, acceptedOpen := false }
  step := Clients.step

/-- `session` names the accepted client exactly while its connection is open. -/
def Clients.Tracked (c : Clients) : Prop :=
  ∀ h ∈ c.accepted, (c.session.dtr = true ∧ c.session.connection = h) ↔ c.acceptedOpen = true

/-- The flag is right for the close event: clear for the accepted client, and for
    another one set, unless no client is connected. -/
def FlagMatches (c : Clients) (e : ClientEvent) (_ : Clients) : Prop :=
  match e with
  | .srvOpen _ _ _ => True
  | .close handle =>
    if c.acceptedOpen = true ∧ c.accepted = some handle then c.session.isSecondAttempt = false
    else c.session.isSecondAttempt = true ∨ c.acceptedOpen = false

-- through the option: there are too many handles to try
instance (c : Clients) : Decidable c.Tracked :=
  Option.decidableForallMem c.accepted

instance (c : Clients) : ∀ (e : ClientEvent) (d : Clients), Decidable (FlagMatches c e d)
  | .srvOpen _ _ _, _ => .isTrue trivial
  | .close handle, _ => inferInstanceAs (Decidable
      (if c.acceptedOpen = true ∧ c.accepted = some handle then c.session.isSecondAttempt = false
       else c.session.isSecondAttempt = true ∨ c.acceptedOpen = false))

/-! ## Invariant -/

/-- A connected session has the handle of the client accepted last. -/
structure Clients.Named (c : Clients) : Prop where
  connection : c.session.dtr = true → c.accepted = some c.session.connection
  accepted : c.acceptedOpen = true → ∃ h, c.accepted = some h

theorem named_init : clients.init.Named where
  connection := by intro h; cases h
  accepted := by intro h; cases h

/-- Then only `dtr` has to agree with the accepted client's connection. -/
theorem Clients.Named.tracked_iff {c : Clients} (h : c.Named) :
    c.Tracked ↔ c.session.dtr = c.acceptedOpen := by
  constructor
  · intro ht
    cases hd : c.session.dtr with
    | true =>
      have hiff := ht _ (h.connection hd)
      exact (hiff.1 ⟨hd, rfl⟩).symm
    | false =>
      by_contra hne
      have hopen : c.acceptedOpen = true := by simpa using Ne.symm hne
      obtain ⟨a, ha⟩ := h.accepted hopen
      have hiff := ht a ha
      rw [hd] at hiff
      exact absurd (hiff.2 hopen).1 (by decide)
  · intro heq a ha
    rw [heq]
    constructor
    · intro hd
      exact hd.1
    · intro hopen
      have hconn := h.connection (by rw [heq]; exact hopen)
      rw [Option.mem_def.1 ha] at hconn
      exact ⟨hopen, (Option.some.inj hconn).symm⟩

theorem Clients.Named.srvOpen {c d : Clients} (h : c.Named) {handle : Handle}
    {connected mpg : Bool} (hst : clients.step c (.srvOpen handle connected mpg) = some d) :
    d.Named ∧ (c.session.dtr = c.acceptedOpen → d.session.dtr = d.acceptedOpen) := by
  simp only [clients, Clients.step, Option.ite_none_left_eq_some, Option.some.injEq] at hst
  obtain ⟨-, rfl⟩ := hst
  cases hd : c.session.dtr with
  | false =>
    refine ⟨⟨fun _ => ?_, fun _ => ⟨handle, by simp⟩⟩, fun _ => by simp⟩
    simp [Session.srvOpen_connection, hd]
  | true =>
    refine ⟨⟨fun _ => ?_, fun hopen => ?_⟩, fun heq => by simp [← heq]⟩
    · simp [Session.srvOpen_connection, hd, h.connection hd]
    · simpa using h.accepted (by simpa using hopen)

/-- After a close event the session tracks the accepted client iff the flag was
    right. -/
theorem Clients.Named.close {c d : Clients} (h : c.Named) (heq : c.session.dtr = c.acceptedOpen)
    {handle : Handle} (hst : clients.step c (.close handle) = some d) :
    d.Named ∧ (d.session.dtr = d.acceptedOpen ↔ FlagMatches c (.close handle) d) := by
  simp only [clients, Clients.step, Option.ite_none_right_eq_some, Option.some.injEq] at hst
  obtain ⟨-, rfl⟩ := hst
  refine ⟨⟨fun hd => ?_, fun hopen => ?_⟩, ?_⟩
  · simp only [Session.close_dtr, Bool.and_eq_true] at hd
    simp [Session.close_connection, hd.1, h.connection hd.2]
  · simp only [Bool.and_eq_true] at hopen
    exact h.accepted hopen.1
  · simp only [Session.close_dtr, heq, FlagMatches]
    cases hf : c.session.isSecondAttempt with
    | true =>
      -- the event passes without effect
      by_cases hacc : c.acceptedOpen = true ∧ c.accepted = some handle
      · simp [hacc.1, hacc.2]
      · rw [if_neg hacc]
        cases hopen : c.acceptedOpen with
        | true => simpa [hopen] using hacc
        | false => simp
    | false =>
      -- the event disconnects
      by_cases hacc : c.acceptedOpen = true ∧ c.accepted = some handle
      · simp [hacc.2]
      · rw [if_neg hacc]
        cases hopen : c.acceptedOpen with
        | true => simpa [hopen] using hacc
        | false => simp

/-! ## Main result -/

/-- Along every sequence of open and close events the session tracks the accepted
    client after each of them iff the flag is right at each close event. -/
theorem connection_tracking (events : List ClientEvent) :
    clients.Along (fun _ _ d => d.Tracked) clients.init events ↔
      clients.Along FlagMatches clients.init events := by
  refine Machine.along_congr (I := fun c => c.Named ∧ c.session.dtr = c.acceptedOpen) ?_
    ⟨named_init, rfl⟩
  intro c e _ d h hst
  obtain ⟨hnamed, heq⟩ := h
  cases e with
  | srvOpen handle connected mpg =>
    obtain ⟨hd, hdtr⟩ := hnamed.srvOpen hst
    have hdeq := hdtr heq
    exact ⟨iff_of_true (hd.tracked_iff.2 hdeq) trivial, fun _ => ⟨hd, hdeq⟩⟩
  | close handle =>
    obtain ⟨hd, hiff⟩ := hnamed.close heq hst
    exact ⟨hd.tracked_iff.trans hiff, fun ht => ⟨hd, hd.tracked_iff.1 ht⟩⟩

/-- Clients 2 and 3 try while client 1 is connected; the close of client 2 clears
    the flag and the close of client 3 disconnects client 1. -/
theorem connection_tracking_overlap :
    ¬ ∀ events, clients.Along (fun _ _ _ => True) clients.init events →
      clients.Along (fun _ _ d => d.Tracked) clients.init events := by
  intro h
  have ht := h [.srvOpen 1 true false, .srvOpen 2 true false, .srvOpen 3 true false, .close 2,
    .close 3] (by decide +kernel)
  exact absurd ht (by decide +kernel)

end Esp32Embroidery.Bluetooth
