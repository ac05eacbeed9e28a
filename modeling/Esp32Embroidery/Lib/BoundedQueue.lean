import Mathlib.Data.List.Basic

/-!
# Bounded FIFO queues

A first-in first-out queue of at most `cap` items, with a send that fails when
the queue is full and a receive that fails when it is empty. The bound is a
field, so a queue over its capacity cannot be built. `pushNewest` never fails:
it drops the oldest item when there is no room.
-/

namespace Esp32Embroidery.Lib

/-- A queue of at most `cap` items, oldest first. -/
@[ext] structure BoundedQueue (α : Type*) (cap : ℕ) where
  items : List α
  length_le : items.length ≤ cap

namespace BoundedQueue

variable {α : Type*} {cap : ℕ}

def empty : BoundedQueue α cap := ⟨[], Nat.zero_le _⟩

/-- Append an item, or `none` when the queue is full. -/
def send (q : BoundedQueue α cap) (x : α) : Option (BoundedQueue α cap) :=
  if h : q.items.length < cap then some ⟨q.items ++ [x], by rw [List.length_append]; exact h⟩ else none

/-- Remove the oldest item, or `none` when the queue is empty. -/
def receive (q : BoundedQueue α cap) : Option (α × BoundedQueue α cap) :=
  match h : q.items with
  | [] => none
  | x :: xs => some (x, ⟨xs, by have := q.length_le; rw [h, List.length_cons] at this; omega⟩)

/-- Append an item and keep the newest `cap`. -/
def pushNewest (q : BoundedQueue α cap) (x : α) : BoundedQueue α cap :=
  ⟨(q.items ++ [x]).drop (q.items.length + 1 - cap), by
    rw [List.length_drop, List.length_append, List.length_singleton]; omega⟩

@[simp] theorem items_empty : (empty : BoundedQueue α cap).items = [] := rfl

theorem send_eq_some {q q' : BoundedQueue α cap} {x : α} :
    q.send x = some q' ↔ q.items.length < cap ∧ q'.items = q.items ++ [x] := by
  unfold send
  split_ifs with h
  · simp only [Option.some.injEq, BoundedQueue.ext_iff, h, true_and]
    exact eq_comm
  · simp [h]

theorem send_eq_none {q : BoundedQueue α cap} {x : α} :
    q.send x = none ↔ q.items.length = cap := by
  unfold send
  have := q.length_le
  split_ifs with h
  · simp; omega
  · simp; omega

/-- A queue with room takes the item. -/
theorem exists_send {q : BoundedQueue α cap} (h : q.items.length < cap) (x : α) :
    ∃ q', q.send x = some q' ∧ q'.items = q.items ++ [x] :=
  ⟨⟨q.items ++ [x], by rw [List.length_append]; exact h⟩, send_eq_some.2 ⟨h, rfl⟩, rfl⟩

theorem receive_eq_some {q q' : BoundedQueue α cap} {x : α} :
    q.receive = some (x, q') ↔ q.items = x :: q'.items := by
  unfold receive
  split
  · rename_i h; simp [h]
  · rename_i y ys h
    simp only [Option.some.injEq, Prod.mk.injEq, BoundedQueue.ext_iff, h, List.cons.injEq]

theorem receive_eq_none {q : BoundedQueue α cap} : q.receive = none ↔ q.items = [] := by
  unfold receive
  split
  · rename_i h; simp [h]
  · rename_i y ys h; simp [h]

theorem pushNewest_of_lt {q : BoundedQueue α cap} (h : q.items.length < cap) (x : α) :
    (q.pushNewest x).items = q.items ++ [x] := by
  simp only [pushNewest]
  rw [Nat.sub_eq_zero_of_le h, List.drop_zero]

/-- A full queue drops exactly its oldest item. -/
theorem pushNewest_of_full {q : BoundedQueue α cap} (h : q.items.length = cap) (hcap : 0 < cap)
    (x : α) : (q.pushNewest x).items = q.items.tail ++ [x] := by
  simp only [pushNewest]
  rw [show q.items.length + 1 - cap = 1 by omega, List.drop_one, List.tail_append_of_ne_nil]
  intro hnil
  rw [hnil, List.length_nil] at h
  omega

end BoundedQueue

end Esp32Embroidery.Lib
