import Mathlib.Logic.Function.Basic
import Mathlib.Data.List.Range
import Mathlib.Data.Nat.ModEq
import Mathlib.Tactic.Ring

/-!
# Circular buffers

`window data n start len` are the `len` cells of an `n`-cell array that follow
the index `start`, wrapping at the end. A ring of head and tail indices is a
queue through it.

* `window_succ`, `window_cons`: the last and the first cell.
* `window_push`: a write to the cell behind the window appends to it.
* `window_update`: a write to any other cell outside leaves it alone.
* `window_overwrite`: a write to the first cell of a full window drops that
  cell and appends.

`ringContents data n head tail` is the window from `tail` up to `head`, for a
ring without a counter, which leaves one cell unused.

* `ringContents_store`, `ringContents_take`: `head` and `tail` move on by one.
* `length_ringContents_full`: the ring is full when `head` would meet `tail`.
-/

namespace Esp32Embroidery.Lib

variable {α : Type*}

/-- The cells `start`, `start + 1`, …, `start + len - 1` modulo `n`. -/
def window (data : ℕ → α) (n start len : ℕ) : List α :=
  (List.range len).map fun i => data ((start + i) % n)

@[simp] theorem window_zero (data : ℕ → α) (n start : ℕ) : window data n start 0 = [] := rfl

@[simp] theorem length_window (data : ℕ → α) (n start len : ℕ) :
    (window data n start len).length = len := by
  simp [window]

@[simp] theorem window_mod (data : ℕ → α) (n start len : ℕ) :
    window data n (start % n) len = window data n start len := by
  simp [window]

theorem window_succ (data : ℕ → α) (n start len : ℕ) :
    window data n start (len + 1) = window data n start len ++ [data ((start + len) % n)] := by
  simp [window, List.range_succ]

theorem window_cons (data : ℕ → α) (n start len : ℕ) :
    window data n start (len + 1) = data (start % n) :: window data n (start + 1) len := by
  simp only [window, List.range_succ_eq_map, List.map_cons, List.map_map, Nat.add_zero]
  congr 1
  apply List.map_congr_left
  intro i _
  simp only [Function.comp_apply]
  congr 2
  omega

/-- Two offsets below `n` from the same start are different cells. -/
theorem offset_inj {n start i j : ℕ} (hi : i < n) (hj : j < n)
    (h : (start + i) % n = (start + j) % n) : i = j := by
  have hmod : i ≡ j [MOD n] := Nat.ModEq.add_left_cancel' start h
  rwa [Nat.ModEq, Nat.mod_eq_of_lt hi, Nat.mod_eq_of_lt hj] at hmod

/-- A write behind the window leaves it alone. -/
theorem window_update (data : ℕ → α) {n start len j : ℕ} (hlen : len ≤ j) (hj : j < n) (x : α) :
    window (Function.update data ((start + j) % n) x) n start len = window data n start len := by
  apply List.map_congr_left
  intro i hi
  rw [List.mem_range] at hi
  have hne : (start + i) % n ≠ (start + j) % n := by
    intro h
    have := offset_inj (by omega) hj h
    omega
  exact Function.update_of_ne hne _ _

/-- A write to the cell behind the window appends to it. -/
theorem window_push (data : ℕ → α) {n start len : ℕ} (hlen : len < n) (x : α) :
    window (Function.update data ((start + len) % n) x) n start (len + 1) =
      window data n start len ++ [x] := by
  rw [window_succ, window_update data le_rfl hlen, Function.update_self]

/-- A write to the first cell of a window over the whole array drops that cell
    and appends the new value. -/
theorem window_overwrite (data : ℕ → α) {n start : ℕ} (hn : 0 < n) (x : α) :
    window (Function.update data (start % n) x) n (start + 1) n =
      (window data n start n).tail ++ [x] := by
  obtain ⟨m, rfl⟩ : ∃ m, n = m + 1 := ⟨n - 1, by omega⟩
  have hlast : start % (m + 1) = (start + 1 + m) % (m + 1) := by
    rw [show start + 1 + m = start + (m + 1) by ring, Nat.add_mod_right]
  rw [hlast, window_push data (Nat.lt_succ_self m), window_cons, List.tail_cons]

/-! ## Head and tail without a counter -/

/-- The number of cells from `tail` up to `head`. -/
def ringCount (n head tail : ℕ) : ℕ := (head + n - tail) % n

/-- The cells from `tail` up to `head`. -/
def ringContents (data : ℕ → α) (n head tail : ℕ) : List α :=
  window data n tail (ringCount n head tail)

section

variable {n head tail : ℕ}

theorem ringCount_of_le (hhead : head < n) (h : tail ≤ head) : ringCount n head tail = head - tail := by
  unfold ringCount
  rw [show head + n - tail = head - tail + n by omega, Nat.add_mod_right, Nat.mod_eq_of_lt]
  omega

theorem ringCount_of_lt (htail : tail < n) (h : head < tail) :
    ringCount n head tail = head + n - tail := by
  unfold ringCount
  rw [Nat.mod_eq_of_lt]
  omega

theorem ringCount_lt (hhead : head < n) : ringCount n head tail < n := Nat.mod_lt _ (by omega)

/-- The successor of an index. -/
theorem next_index (hhead : head < n) : (head + 1) % n = if head + 1 = n then 0 else head + 1 := by
  split_ifs with h
  · rw [h, Nat.mod_self]
  · exact Nat.mod_eq_of_lt (by omega)

theorem ringCount_add (hhead : head < n) (htail : tail < n) :
    (tail + ringCount n head tail) % n = head := by
  rcases Nat.lt_or_ge head tail with h | h
  · rw [ringCount_of_lt htail h, show tail + (head + n - tail) = head + n by omega, Nat.add_mod_right,
      Nat.mod_eq_of_lt hhead]
  · rw [ringCount_of_le hhead h, show tail + (head - tail) = head by omega, Nat.mod_eq_of_lt hhead]

theorem ringCount_full (hhead : head < n) (htail : tail < n) (h : (head + 1) % n = tail) :
    ringCount n head tail = n - 1 := by
  rw [next_index hhead] at h
  split_ifs at h with hlast
  · rw [ringCount_of_le hhead (by omega)]
    omega
  · rw [ringCount_of_lt htail (by omega)]
    omega

theorem ringCount_store (hhead : head < n) (htail : tail < n) (h : (head + 1) % n ≠ tail) :
    ringCount n ((head + 1) % n) tail = ringCount n head tail + 1 := by
  rw [next_index hhead] at h ⊢
  split_ifs at h ⊢ with hlast
  · rw [ringCount_of_lt htail (by omega), ringCount_of_le hhead (by omega)]
    omega
  · rcases Nat.lt_or_ge head tail with hlt | hle
    · rw [ringCount_of_lt htail hlt, ringCount_of_lt htail (by omega)]
      omega
    · rw [ringCount_of_le hhead hle, ringCount_of_le (by omega) (by omega)]
      omega

theorem ringCount_take (hhead : head < n) (htail : tail < n) (h : tail ≠ head) :
    ringCount n head tail = ringCount n head ((tail + 1) % n) + 1 := by
  rw [next_index htail]
  split_ifs with hlast
  · rw [ringCount_of_lt htail (by omega), ringCount_of_le hhead (Nat.zero_le _)]
    omega
  · rcases Nat.lt_or_ge head tail with hlt | hle
    · rw [ringCount_of_lt htail hlt, ringCount_of_lt (by omega) (by omega)]
      omega
    · rw [ringCount_of_le hhead hle, ringCount_of_le hhead (by omega)]
      omega

@[simp] theorem ringContents_self (data : ℕ → α) : ringContents data n head head = [] := by
  simp [ringContents, ringCount]

theorem length_ringContents (data : ℕ → α) :
    (ringContents data n head tail).length = ringCount n head tail :=
  length_window _ _ _ _

theorem length_ringContents_full (data : ℕ → α) (hhead : head < n) (htail : tail < n)
    (h : (head + 1) % n = tail) : (ringContents data n head tail).length = n - 1 := by
  rw [length_ringContents, ringCount_full hhead htail h]

/-- A value stored at `head` is the newest. -/
theorem ringContents_store (data : ℕ → α) (hhead : head < n) (htail : tail < n)
    (h : (head + 1) % n ≠ tail) (x : α) :
    ringContents (Function.update data head x) n ((head + 1) % n) tail =
      ringContents data n head tail ++ [x] := by
  unfold ringContents
  rw [ringCount_store hhead htail h]
  nth_rewrite 1 [← ringCount_add hhead htail]
  exact window_push data (ringCount_lt hhead) x

/-- The oldest value is at `tail`. -/
theorem ringContents_take (data : ℕ → α) (hhead : head < n) (htail : tail < n)
    (h : tail ≠ head) :
    ringContents data n head tail = data tail :: ringContents data n head ((tail + 1) % n) := by
  unfold ringContents
  rw [ringCount_take hhead htail h, window_cons, Nat.mod_eq_of_lt htail, window_mod]

/-- The cell at `head` is not part of the contents. -/
theorem ringContents_update_head (data : ℕ → α) (hhead : head < n) (htail : tail < n) (x : α) :
    ringContents (Function.update data head x) n head tail = ringContents data n head tail := by
  unfold ringContents
  nth_rewrite 1 [← ringCount_add hhead htail]
  exact window_update data le_rfl (ringCount_lt hhead) x

end

end Esp32Embroidery.Lib
