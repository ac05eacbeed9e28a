import Esp32Embroidery.Lib.BoundedQueue
import Esp32Embroidery.Lib.CircularBuffer

/-!
# The frame ring

`rahman/buf/buf.c` keeps pointers to frames in the array `q` with the counters
`head`, `tail` and `size`. `add` on a full ring writes over the oldest pointer
and moves `head` as well as `tail`.

Specification: a queue of pointers that keeps the newest `Q_MAX_SIZE`.

Main result:

* `frameRing_refines`: after `clear`, every sequence of calls returns what the
  queue returns, leaves the same memory, and ends in counters and cells that
  represent the queue.
-/

namespace Esp32Embroidery.Buf

open Esp32Embroidery.Lib

/-! ## Model -/

/-- An address; `NULL` is `none` of type `Option Ptr`. -/
abbrev Ptr := ℕ

/-- `m_t` (lines 6-10). -/
structure Frame where
  type : BitVec 8
  id : BitVec 8
  data : Fin 32 → Option Ptr

/-- `Q_MAX_SIZE` (line 12). -/
def qMaxSize : ℕ := 8

/-- `q`, `head`, `tail` and `size` (lines 14-17), and the frames the pointers
    point to. The counters are `int8_t` and never exceed 8. -/
structure FrameRing where
  mem : Ptr → Frame
  q : ℕ → Option Ptr
  head : ℕ
  tail : ℕ
  size : ℕ

namespace FrameRing

/-- `clear` (lines 21-33). -/
def clear (r : FrameRing) : FrameRing :=
  { r with head := 0, tail := 0, size := 0, q := fun i => if i < qMaxSize then none else r.q i }

/-- `add` (lines 35-48). -/
def add (r : FrameRing) (data : Option Ptr) : FrameRing :=
  let q := Function.update r.q r.tail data
  let tail := (r.tail + 1) % qMaxSize
  if r.size < qMaxSize then { r with q := q, tail := tail, size := r.size + 1 }
  else { r with q := q, tail := tail, head := (r.head + 1) % qMaxSize }

/-- `if (data != NULL && q[head] != NULL) *data = *q[head]` (lines 55-57, 91-93). -/
def copyHead (r : FrameRing) (data : Option Ptr) : Ptr → Frame :=
  match data, r.q r.head with
  | some d, some p => Function.update r.mem d (r.mem p)
  | _, _ => r.mem

/-- `poll()` (lines 70-83): the value it returns and the state after it. -/
def poll (r : FrameRing) : Bool × FrameRing :=
  if 0 < r.size then
    (true, { r with
      q := Function.update r.q r.head none
      head := (r.head + 1) % qMaxSize
      size := r.size - 1 })
  else (false, r)

/-- `poll(data)` (lines 50-67). -/
def pollData (r : FrameRing) (data : Option Ptr) : Bool × FrameRing :=
  if 0 < r.size then
    (true, { r with
      mem := r.copyHead data
      q := Function.update r.q r.head none
      head := (r.head + 1) % qMaxSize
      size := r.size - 1 })
  else (false, r)

/-- `peek` (lines 85-98). -/
def peek (r : FrameRing) (data : Option Ptr) : Bool × FrameRing :=
  if 0 < r.size then (true, { r with mem := r.copyHead data }) else (false, r)

end FrameRing

/-- A call. A frame that is added is not `NULL`. -/
inductive Call
  | clear
  | add (frame : Ptr)
  | pollData (data : Option Ptr)
  | poll
  | peek (data : Option Ptr)

/-- What a call returns (`none` for `void`) and the state after it. -/
def FrameRing.call (r : FrameRing) : Call → Option Bool × FrameRing
  | .clear => (none, r.clear)
  | .add frame => (none, r.add (some frame))
  | .pollData data => ((r.pollData data).1, (r.pollData data).2)
  | .poll => (r.poll.1, r.poll.2)
  | .peek data => ((r.peek data).1, (r.peek data).2)

/-! ## Specification -/

/-- The queue of the newest frames, and the memory. -/
structure NewestFrames where
  mem : Ptr → Frame
  queue : BoundedQueue Ptr qMaxSize

namespace NewestFrames

/-- The memory with the frame `p` copied to `data`. -/
def copy (s : NewestFrames) (p : Ptr) : Option Ptr → Ptr → Frame
  | some d => Function.update s.mem d (s.mem p)
  | none => s.mem

/-- The calls on the queue: a `poll` removes the oldest frame and a `peek` does
    not; both return false on the empty queue and then change nothing. -/
def call (s : NewestFrames) : Call → Option Bool × NewestFrames
  | .clear => (none, { s with queue := .empty })
  | .add frame => (none, { s with queue := s.queue.pushNewest frame })
  | .pollData data =>
    match s.queue.receive with
    | some (p, rest) => (some true, { mem := s.copy p data, queue := rest })
    | none => (some false, s)
  | .poll =>
    match s.queue.receive with
    | some (_, rest) => (some true, { s with queue := rest })
    | none => (some false, s)
  | .peek data =>
    match s.queue.receive with
    | some (p, _) => (some true, { s with mem := s.copy p data })
    | none => (some false, s)

end NewestFrames

/-- The values a sequence of calls returns and the state after it. -/
def runCalls {S : Type} (call : S → Call → Option Bool × S) : S → List Call → List (Option Bool) × S
  | s, [] => ([], s)
  | s, c :: cs =>
    let (out, s') := call s c
    let (outs, t) := runCalls call s' cs
    (out :: outs, t)

/-! ## Refinement -/

/-- The counters and cells represent the queue. -/
structure Represents (r : FrameRing) (s : NewestFrames) : Prop where
  mem : r.mem = s.mem
  head_lt : r.head < qMaxSize
  size : r.size = s.queue.items.length
  tail : r.tail = (r.head + r.size) % qMaxSize
  frames : window r.q qMaxSize r.head r.size = s.queue.items.map some

theorem represents_clear {r : FrameRing} {s : NewestFrames} (hmem : r.mem = s.mem) :
    Represents r.clear { s with queue := .empty } where
  mem := hmem
  head_lt := by show 0 < qMaxSize; decide
  size := rfl
  tail := rfl
  frames := rfl

theorem Represents.add {r : FrameRing} {s : NewestFrames} (h : Represents r s) (frame : Ptr) :
    Represents (r.add (some frame)) { s with queue := s.queue.pushNewest frame } := by
  have hhead := h.head_lt
  have hsize := h.size
  have htail := h.tail
  have hle := s.queue.length_le
  simp only [qMaxSize] at hhead htail hle
  unfold FrameRing.add
  split_ifs with hfull
  · have hlen : s.queue.items.length < qMaxSize := by rw [← hsize]; exact hfull
    have hitems := BoundedQueue.pushNewest_of_lt hlen frame
    refine ⟨h.mem, h.head_lt, ?_, ?_, ?_⟩
    · simp only [hitems, List.length_append, List.length_singleton]
      omega
    · simp only [qMaxSize]
      omega
    · simp only [hitems, List.map_append, List.map_singleton]
      rw [h.tail, window_push r.q hfull, h.frames]
  · -- the tail has caught up with the head
    have hlen : s.queue.items.length = qMaxSize := by simp only [qMaxSize] at hfull ⊢; omega
    have hitems := BoundedQueue.pushNewest_of_full hlen (by decide) frame
    have heq : r.size = qMaxSize := by rw [hsize, hlen]
    refine ⟨h.mem, Nat.mod_lt _ (by decide), ?_, ?_, ?_⟩
    · simp only [hitems, List.length_append, List.length_tail, List.length_singleton, hlen, heq]
      rfl
    · simp only [qMaxSize] at heq ⊢
      omega
    · have hframes := h.frames
      rw [heq] at hframes
      simp only [hitems, List.map_append, List.map_singleton, List.map_tail]
      rw [h.tail, heq, Nat.add_mod_right, window_mod, window_overwrite r.q (by decide), hframes]

/-- A ring that is not empty has the oldest frame at `head`, the others behind it. -/
theorem Represents.oldest {r : FrameRing} {s : NewestFrames} (h : Represents r s)
    (hsize : 0 < r.size) : ∃ p rest, s.queue.receive = some (p, rest) ∧ r.q r.head = some p ∧
      window r.q qMaxSize (r.head + 1) (r.size - 1) = rest.items.map some := by
  have hframes := h.frames
  rw [show r.size = r.size - 1 + 1 by omega, window_cons, Nat.mod_eq_of_lt h.head_lt] at hframes
  cases hrec : s.queue.receive with
  | none =>
    rw [BoundedQueue.receive_eq_none.1 hrec] at hframes
    cases hframes
  | some pr =>
    obtain ⟨p, rest⟩ := pr
    rw [BoundedQueue.receive_eq_some.1 hrec, List.map_cons] at hframes
    obtain ⟨hp, hrest⟩ := List.cons.inj hframes
    exact ⟨p, rest, rfl, hp, hrest⟩

theorem Represents.receive_eq_none {r : FrameRing} {s : NewestFrames} (h : Represents r s)
    (hsize : ¬ 0 < r.size) : s.queue.receive = none := by
  rw [BoundedQueue.receive_eq_none]
  apply List.eq_nil_of_length_eq_zero
  have := h.size
  omega

/-- The oldest pointer is removed: its cell is `NULL` and `head` behind it. -/
theorem Represents.remove {r : FrameRing} {s : NewestFrames} (h : Represents r s)
    (hsize : 0 < r.size) {p : Ptr} {rest : BoundedQueue Ptr qMaxSize}
    (hrec : s.queue.receive = some (p, rest))
    (hrest : window r.q qMaxSize (r.head + 1) (r.size - 1) = rest.items.map some)
    {mem : Ptr → Frame} :
    Represents { r with
      mem := mem
      q := Function.update r.q r.head none
      head := (r.head + 1) % qMaxSize
      size := r.size - 1 } { mem := mem, queue := rest } where
  mem := rfl
  head_lt := Nat.mod_lt _ (by decide)
  size := by
    have := h.size
    rw [BoundedQueue.receive_eq_some.1 hrec, List.length_cons] at this
    simp only
    omega
  tail := by
    have := h.tail
    simp only [qMaxSize] at this ⊢
    omega
  frames := by
    have hle := s.queue.length_le
    have hcell : r.head = (r.head + 1 + (qMaxSize - 1)) % qMaxSize := by
      have := h.head_lt
      simp only [qMaxSize] at this ⊢
      omega
    have hlen : r.size - 1 ≤ qMaxSize - 1 := by rw [h.size]; omega
    simp only [window_mod]
    rw [← hrest]
    nth_rewrite 1 [hcell]
    exact window_update r.q hlen (by decide) none

theorem Represents.copyHead {r : FrameRing} {s : NewestFrames} (h : Represents r s) {p : Ptr}
    (hp : r.q r.head = some p) (data : Option Ptr) : r.copyHead data = s.copy p data := by
  unfold FrameRing.copyHead NewestFrames.copy
  rw [hp, h.mem]
  cases data with
  | none => rfl
  | some d => rfl

/-- One call returns the same value on both sides and keeps the representation. -/
theorem Represents.call {r : FrameRing} {s : NewestFrames} (h : Represents r s) (c : Call) :
    (r.call c).1 = (s.call c).1 ∧ Represents (r.call c).2 (s.call c).2 := by
  cases c with
  | clear => exact ⟨rfl, represents_clear h.mem⟩
  | add frame => exact ⟨rfl, h.add frame⟩
  | pollData data =>
    by_cases hsize : 0 < r.size
    · obtain ⟨p, rest, hrec, hp, hrest⟩ := h.oldest hsize
      simp only [FrameRing.call, FrameRing.pollData, NewestFrames.call, hrec, if_pos hsize,
        h.copyHead hp]
      exact ⟨trivial, h.remove hsize hrec hrest⟩
    · simp only [FrameRing.call, FrameRing.pollData, NewestFrames.call, h.receive_eq_none hsize,
        if_neg hsize]
      exact ⟨trivial, h⟩
  | poll =>
    by_cases hsize : 0 < r.size
    · obtain ⟨p, rest, hrec, hp, hrest⟩ := h.oldest hsize
      simp only [FrameRing.call, FrameRing.poll, NewestFrames.call, hrec, if_pos hsize, ← h.mem]
      exact ⟨trivial, h.remove hsize hrec hrest⟩
    · simp only [FrameRing.call, FrameRing.poll, NewestFrames.call, h.receive_eq_none hsize,
        if_neg hsize]
      exact ⟨trivial, h⟩
  | peek data =>
    by_cases hsize : 0 < r.size
    · obtain ⟨p, rest, hrec, hp, hrest⟩ := h.oldest hsize
      simp only [FrameRing.call, FrameRing.peek, NewestFrames.call, hrec, if_pos hsize,
        h.copyHead hp]
      exact ⟨trivial, rfl, h.head_lt, h.size, h.tail, h.frames⟩
    · simp only [FrameRing.call, FrameRing.peek, NewestFrames.call, h.receive_eq_none hsize,
        if_neg hsize]
      exact ⟨trivial, h⟩

theorem Represents.runCalls {r : FrameRing} {s : NewestFrames} (h : Represents r s)
    (cs : List Call) :
    (runCalls FrameRing.call r cs).1 = (runCalls NewestFrames.call s cs).1 ∧
      Represents (runCalls FrameRing.call r cs).2 (runCalls NewestFrames.call s cs).2 := by
  induction cs generalizing r s with
  | nil => exact ⟨rfl, h⟩
  | cons c cs ih =>
    obtain ⟨hout, hnext⟩ := h.call c
    obtain ⟨houts, hlast⟩ := ih hnext
    refine ⟨?_, hlast⟩
    simp only [Buf.runCalls, hout, houts]

/-- After `clear`, the ring is the queue of the newest `Q_MAX_SIZE` frames: every
    sequence of calls returns the same values and ends in counters and cells that
    represent the queue. -/
theorem frameRing_refines (r : FrameRing) (cs : List Call) :
    (runCalls FrameRing.call r.clear cs).1 =
      (runCalls NewestFrames.call { mem := r.mem, queue := .empty } cs).1 ∧
    Represents (runCalls FrameRing.call r.clear cs).2
      (runCalls NewestFrames.call { mem := r.mem, queue := .empty } cs).2 :=
  (represents_clear (s := { mem := r.mem, queue := .empty }) rfl).runCalls cs

end Esp32Embroidery.Buf
