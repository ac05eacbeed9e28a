import Esp32Embroidery.Lib.Machine
import Mathlib.Tactic.Common
import Mathlib.Data.Nat.Notation

/-!
# A stop-and-wait link with credit

A sender delivers frames numbered `1, 2, …` one at a time over a link on which
sender and receiver exchange messages simultaneously: the receiver's reply was
prepared before it saw the frame. The reply names the last accepted frame and
the free places of the receiver's queue. Either side may miss an exchange
without the other noticing.

* `agree_reachable`: the sender works on the frame accepted last or on the next
  one, whatever is lost.
* `room_of_inbox`: if the sender only sends data with credit (or as frame 1), an
  in-order frame always finds room in the queue.
-/

namespace Esp32Embroidery.Lib.StopAndWait

/-- `next` is the number of the frame the sender delivers, `got` the number of
    the last accepted frame, `queued` the occupancy of the receiver's queue,
    `credit` the free places the sender last heard of. `told` is the count in the
    reply the receiver has ready, and `inbox` says that an in-order frame waits
    for the queue. -/
structure State where
  next : ℕ
  got : ℕ
  queued : ℕ
  credit : ℕ
  told : Option ℕ
  inbox : Bool

inductive Event
  /-- the receiver prepares its reply -/
  | reply
  /-- the consumer takes a frame out of the queue -/
  | take
  /-- an exchange, with a data frame or without, heard by the sender or not, seen
      by the receiver or not -/
  | exchange (data heard arrived : Bool)
  /-- the in-order frame goes to the queue, or is dropped when that is full -/
  | settle
  /-- both sides start over with an empty queue -/
  | restart

def State.start : State := ⟨1, 0, 0, 0, none, false⟩

/-- `cap` is the capacity of the receiver's queue. -/
def step (cap : ℕ) (s : State) : Event → Option State
  | .reply => if s.inbox then none else some { s with told := some (cap - s.queued) }
  | .take => if s.queued = 0 then none else some { s with queued := s.queued - 1 }
  | .exchange data heard arrived => s.told.map fun free => { s with
      next := if data ∧ heard ∧ s.got = s.next then s.next + 1 else s.next
      credit := if heard then free else s.credit
      told := none
      inbox := data && arrived && decide (s.next = s.got + 1) }
  | .settle =>
    if s.inbox then
      if s.queued < cap then
        some { s with got := s.got + 1, queued := s.queued + 1, inbox := false }
      else some { s with inbox := false }
    else none
  | .restart => some { State.start with credit := s.credit }

def link (cap : ℕ) : Machine State Event := ⟨State.start, step cap⟩

/-- The sender sends data as frame 1 or with credit. -/
def Disciplined (s : State) : Event → State → Prop
  | .exchange true _ _, _ => s.next ≤ 1 ∨ 0 < s.credit
  | _, _ => True

/-! ## Agreement -/

/-- The sender is at most one frame ahead of the receiver and never behind. -/
structure Agree (s : State) : Prop where
  next : s.next = s.got ∨ s.next = s.got + 1
  inbox : s.inbox = true → s.next = s.got + 1 ∧ s.told = none

theorem Agree.step {cap : ℕ} {s t : State} {e : Event} (h : Agree s) (hst : step cap s e = some t) :
    Agree t := by
  cases e with
  | reply =>
    simp only [StopAndWait.step] at hst
    split_ifs at hst with hin
    cases hst
    exact ⟨h.next, fun hb => absurd hb hin⟩
  | take =>
    simp only [StopAndWait.step] at hst
    split_ifs at hst
    cases hst
    exact ⟨h.next, h.inbox⟩
  | exchange data heard arrived =>
    obtain ⟨free, hfree, rfl⟩ := Option.map_eq_some_iff.1 hst
    refine ⟨?_, fun hin => ?_⟩
    · have := h.next
      simp only
      split_ifs <;> omega
    · simp only [Bool.and_eq_true, decide_eq_true_eq] at hin
      simp [hin.2]
  | settle =>
    simp only [StopAndWait.step] at hst
    split_ifs at hst with hin hroom
    · cases hst
      exact ⟨.inl (h.inbox hin).1, (by intro h; cases h)⟩
    · cases hst
      exact ⟨h.next, (by intro h; cases h)⟩
  | restart =>
    cases hst
    exact ⟨.inr rfl, (by intro h; cases h)⟩

theorem agree_reachable {cap : ℕ} {P : State → Event → State → Prop} {s : State}
    (h : (link cap).ReachableBy P s) : Agree s :=
  h.invariant ⟨.inr rfl, (by intro h; cases h)⟩ fun _ _ _ _ hs hst _ => hs.step hst

/-! ## Flow control -/

/-- What the sender knows of the queue stays true while its frame is not accepted. -/
structure Credit (cap : ℕ) (s : State) : Prop where
  queued_le : s.queued ≤ cap
  queued_le_got : s.queued ≤ s.got
  told : ∀ free, s.told = some free → s.queued + free ≤ cap
  credit : s.next = s.got + 1 → s.got = 0 ∨ s.queued + s.credit ≤ cap
  room : s.inbox = true → s.queued < cap

/-- At the start nothing is queued, so any credit is sound. -/
theorem credit_start (cap c : ℕ) : Credit cap { State.start with credit := c } where
  queued_le := Nat.zero_le _
  queued_le_got := Nat.le_refl _
  told := by intro _ h; cases h
  credit _ := .inl rfl
  room := by intro h; cases h

theorem Credit.exchange {cap : ℕ} (hcap : 0 < cap) {s t : State} {data heard arrived : Bool}
    (h : Credit cap s) (hst : step cap s (.exchange data heard arrived) = some t)
    (hd : Disciplined s (.exchange data heard arrived) t) : Credit cap t := by
  obtain ⟨free, hfree, rfl⟩ := Option.map_eq_some_iff.1 hst
  have htold := h.told free hfree
  refine ⟨h.queued_le, h.queued_le_got, (by intro _ h; cases h), fun hnext => ?_, fun hin => ?_⟩
  · simp only at hnext ⊢
    cases heard with
    | true => exact .inr htold
    | false => exact h.credit (by simpa using hnext)
  · simp only [Bool.and_eq_true, decide_eq_true_eq] at hin
    obtain ⟨⟨rfl, -⟩, hnext⟩ := hin
    have hgot := h.queued_le_got
    rcases hd with hone | hpos
    · simp only; omega
    · have := h.credit hnext
      simp only; omega

theorem Credit.step {cap : ℕ} (hcap : 0 < cap) {s t : State} {e : Event} (hs : Agree s)
    (h : Credit cap s) (hst : step cap s e = some t) (hd : Disciplined s e t) : Credit cap t := by
  cases e with
  | reply =>
    simp only [StopAndWait.step] at hst
    split_ifs at hst
    cases hst
    have := h.queued_le
    exact ⟨this, h.queued_le_got, fun free hf => by cases hf; simp only; omega, h.credit, h.room⟩
  | take =>
    simp only [StopAndWait.step] at hst
    split_ifs at hst with h0
    cases hst
    have h1 := h.queued_le
    have h2 := h.queued_le_got
    refine ⟨by simp only; omega, by simp only; omega, fun free hf => ?_, fun hn => ?_, fun hin => ?_⟩
    · have := h.told free hf
      simp only; omega
    · have := h.credit hn
      simp only; omega
    · have := h.room hin
      simp only; omega
  | exchange data heard arrived => exact h.exchange hcap hst hd
  | settle =>
    simp only [StopAndWait.step] at hst
    have h1 := h.queued_le_got
    split_ifs at hst with hin hroom
    · cases hst
      obtain ⟨hnext, htold⟩ := hs.inbox hin
      exact ⟨hroom, by simp only; omega, fun free hf => by simp [htold] at hf,
        fun hn => by simp only at hn; omega, (by intro h; cases h)⟩
    · exact absurd (h.room hin) hroom
  | restart =>
    cases hst
    exact credit_start cap s.credit

theorem credit_reachable {cap : ℕ} (hcap : 0 < cap) {s : State}
    (h : (link cap).ReachableBy Disciplined s) : Credit cap s :=
  h.invariant (credit_start cap 0) fun _ _ _ hr hs hst hd =>
    hs.step hcap (agree_reachable hr) hst hd

/-- A disciplined sender never overruns the queue: an in-order frame finds room. -/
theorem room_of_inbox {cap : ℕ} (hcap : 0 < cap) {s : State}
    (h : (link cap).ReachableBy Disciplined s) (hin : s.inbox = true) : s.queued < cap :=
  (credit_reachable hcap h).room hin

end Esp32Embroidery.Lib.StopAndWait
