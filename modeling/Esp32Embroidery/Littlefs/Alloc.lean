import Esp32Embroidery.Lib.CircularBuffer
import Esp32Embroidery.Lib.Machine
import Mathlib.Algebra.Order.Ring.Nat
import Mathlib.Data.Set.Lattice
import Mathlib.Logic.Function.Basic
import Mathlib.Tactic.Common

/-!
# The block allocator (`littlefs/lfs.c`, lines 526–602)

`lfs_alloc` looks for free blocks in a window of the disk, of which a traversal of the tree has
marked the blocks in use. A block that was allocated and is not in the tree yet is not marked; it
is safe because `ack` blocks at most are looked at between two calls of `lfs_alloc_ack`.

* `alloc_step`: what a candidate that is looked at leaves of the invariant.
* `lfsAlloc_reachable`: in every run, a block that is returned is neither in the tree nor already
  allocated, and `LFS_ERR_NOSPC` means that every block was one or the other.
-/

namespace Esp32Embroidery.Littlefs

open Esp32Embroidery.Lib

/-! ## Model -/

/-- `lfs->free` (lfs.h, line 408). -/
structure Free where
  off : ℕ
  size : ℕ
  i : ℕ
  ack : ℕ
  buffer : ℕ → BitVec 32

/-- `block_count` and `lookahead_size`, as `lfs_init` asserts of the latter (lines 3962–3964). Up
    to 2^31 blocks the distance of lines 530–531 does not wrap before its remainder is taken; a
    partition of less than 2^32 bytes has 2^20 at most (`littlefs_hal.c`, line 125). -/
structure AllocConfig where
  blockCount : ℕ
  lookaheadSize : ℕ
  blockCount_pos : 0 < blockCount
  blockCount_le : blockCount ≤ 2 ^ 31
  lookaheadSize_pos : 0 < lookaheadSize
  dvd_lookaheadSize : 8 ∣ lookaheadSize

variable (cfg : AllocConfig)

/-- Whether the bit of the candidate `off` is set. -/
def Free.marked (free : Free) (off : ℕ) : Bool :=
  free.buffer (off / 32) &&& (1#32 <<< (off % 32)) ≠ 0#32

/-- Lines 533–535: the bit of the candidate is set if it is in the window. -/
def Free.mark (free : Free) (off : ℕ) : Free :=
  if off < free.size then
    { free with
      buffer := Function.update free.buffer (off / 32)
        (free.buffer (off / 32) ||| (1#32 <<< (off % 32))) }
  else free

/-- `lfs_alloc_lookahead` (lines 528–539). -/
def lfsAllocLookahead (free : Free) (block : ℕ) : Free :=
  free.mark
    (((block + 2 ^ 32 - free.off) % 2 ^ 32 + cfg.blockCount) % 2 ^ 32 % cfg.blockCount)

/-- `lfs_alloc_ack` (line 544). -/
def lfsAllocAck (free : Free) : Free := { free with ack := cfg.blockCount }

/-- `lfs_alloc_drop` (line 550). -/
def lfsAllocDrop (free : Free) : Free := lfsAllocAck cfg { free with size := 0, i := 0 }

/-- `x - 1` in 32 bits. -/
@[irreducible]
def decr32 (x : ℕ) : ℕ := (x + 2 ^ 32 - 1) % 2 ^ 32

/-- `lfs->free.i += 1; lfs->free.ack -= 1;`. -/
def Free.next (free : Free) : Free := { free with i := free.i + 1, ack := decr32 free.ack }

/-- The loop that skips blocks in use (lines 570–575), over `n` candidates. -/
def Free.skip : (n : ℕ) → Free → Free
  | 0, free => free
  | n + 1, free => if free.marked free.i then Free.skip n free.next else free

/-- The loop through the window (lines 559–579), over `n` candidates. -/
def Free.search : (n : ℕ) → Free → Option ℕ × Free
  | 0, free => (none, free)
  | n + 1, free =>
    if free.marked free.i then Free.search n free.next
    else (some ((free.off + free.i) % cfg.blockCount), free.next.skip n)

/-- What `lfs_alloc` returns. -/
inductive AllocRet
  | block (b : ℕ)
  | noSpc
  | err
  deriving DecidableEq

/-- The next window before it is marked (lines 588–594). -/
def Free.window (free : Free) : Free :=
  { free with
    off := (free.off + free.size) % cfg.blockCount
    size := min (8 * cfg.lookaheadSize) free.ack
    i := 0
    buffer := fun k => if k < cfg.lookaheadSize / 4 then 0#32 else free.buffer k }

/-- `lfs_alloc` (lines 557–603) with the blocks `tree` that `lfs_fs_rawtraverse` visits, and
    whether its calls fail; `none` if the loop goes on for more than `fuel` windows. -/
def lfsAlloc (tree : List ℕ) (fails : ℕ → Bool) : (fuel n : ℕ) → Free → Option (AllocRet × Free)
  | 0, _, _ => none
  | fuel + 1, n, free =>
    match free.search cfg (free.size - free.i) with
    | (some b, free) => some (.block b, free)
    | (none, free) =>
      if free.ack = 0 then some (.noSpc, free)
      else if fails n then some (.err, lfsAllocDrop cfg (free.window cfg))
      else lfsAlloc tree fails fuel (n + 1)
        (tree.foldl (lfsAllocLookahead cfg) (free.window cfg))

/-! ## Runs -/

/-- The allocator with the blocks of the tree, those allocated since the last `lfs_alloc_ack`, and
    those that were found in use: marked at that time, or in the tree of a call since then. -/
structure AllocSys where
  free : Free
  tree : List ℕ
  pending : List ℕ
  found : Set ℕ

/-- The block of a candidate. -/
def Free.candidate (free : Free) (j : ℕ) : ℕ := (free.off + j) % cfg.blockCount

/-- Blocks that are marked in what is left of the window. -/
def Free.markedBlocks (free : Free) : Set ℕ :=
  {b | ∃ j, free.i ≤ j ∧ j < free.size ∧ free.marked j ∧ b = free.candidate cfg j}

inductive AllocEvent
  | alloc (fails : ℕ → Bool)
  | ack
  | commit (tree : List ℕ)

/-- The windows that a call may need. -/
def AllocConfig.fuel : ℕ := cfg.blockCount + 1

/-- After an error, what was allocated is given up. -/
def AllocSys.returned (s : AllocSys) : AllocRet × Free → AllocSys
  | (.block b, free) =>
    { s with free := free, pending := b :: s.pending, found := s.found ∪ {b | b ∈ s.tree} }
  | (.noSpc, free) => { s with free := free, found := s.found ∪ {b | b ∈ s.tree} }
  | (.err, free) => { s with free := free, pending := [], found := ∅ }

/-- A run starts where `lfs_rawmount` drops the lookahead buffer (lines 4229–4230). -/
def allocMachine (free : Free) (tree : List ℕ) : Machine AllocSys AllocEvent where
  init := ⟨lfsAllocDrop cfg { free with off := free.off % cfg.blockCount }, tree, [], ∅⟩
  step s
    | .alloc fails => (lfsAlloc cfg s.tree fails cfg.fuel 0 s.free).map s.returned
    | .ack => some
      { s with free := lfsAllocAck cfg s.free, pending := [], found := s.free.markedBlocks cfg }
    | .commit tree => some { s with tree := tree }

/-- The tree gets only blocks that were allocated. -/
def AllocEvent.Honest (s : AllocSys) : AllocEvent → Prop
  | .commit tree => ∀ b ∈ tree, b ∈ s.tree ∨ b ∈ s.pending
  | _ => True

/-! ## The bitmap -/

theorem and_one_shiftLeft_ne_zero {x : BitVec 32} {r : ℕ} (hr : r < 32) :
    x &&& (1#32 <<< r) ≠ 0#32 ↔ x.getLsbD r = true := by
  constructor
  · intro h
    by_contra hbit
    apply h
    apply BitVec.eq_of_getLsbD_eq
    intro k hk
    by_cases hkr : k = r
    · subst hkr
      simp [hbit]
    · simp [hk]
      omega
  · intro h hzero
    have hbit := congrArg (fun y => BitVec.getLsbD y r) hzero
    rw [BitVec.getLsbD_eq_getElem hr] at h
    simp [hr, h] at hbit

theorem Free.marked_iff {free : Free} {j : ℕ} :
    free.marked j = true ↔ (free.buffer (j / 32)).getLsbD (j % 32) = true := by
  unfold Free.marked
  rw [decide_eq_true_iff, and_one_shiftLeft_ne_zero (Nat.mod_lt j (by omega))]

variable {cfg} {free : Free} {b j : ℕ}

/-- The bit of a block is that of its distance from the start of the window. -/
theorem lookahead_off (hoff : free.off < cfg.blockCount) (hb : b < cfg.blockCount) :
    ∃ d < cfg.blockCount, free.candidate cfg d = b ∧
      ((b + 2 ^ 32 - free.off) % 2 ^ 32 + cfg.blockCount) % 2 ^ 32 % cfg.blockCount = d := by
  have hcount := cfg.blockCount_le
  unfold Free.candidate
  by_cases hle : free.off ≤ b
  · have hsub : (b + 2 ^ 32 - free.off) % 2 ^ 32 + cfg.blockCount =
        b - free.off + cfg.blockCount := by omega
    refine ⟨b - free.off, by omega, ?_, ?_⟩
    · rw [Nat.add_sub_cancel' hle, Nat.mod_eq_of_lt hb]
    · rw [hsub, Nat.mod_eq_of_lt (show b - free.off + cfg.blockCount < 2 ^ 32 by omega),
        Nat.add_mod_right, Nat.mod_eq_of_lt (by omega)]
  · have hsub : ((b + 2 ^ 32 - free.off) % 2 ^ 32 + cfg.blockCount) % 2 ^ 32 =
        b + cfg.blockCount - free.off := by omega
    refine ⟨b + cfg.blockCount - free.off, by omega, ?_, ?_⟩
    · have hsum : free.off + (b + cfg.blockCount - free.off) = b + cfg.blockCount := by omega
      rw [hsum, Nat.add_mod_right, Nat.mod_eq_of_lt hb]
    · rw [hsub, Nat.mod_eq_of_lt (by omega)]

/-- One more block is marked. -/
theorem lookahead_marked (hoff : free.off < cfg.blockCount) (hb : b < cfg.blockCount)
    (hj : j < cfg.blockCount) (hsize : j < free.size) :
    (lfsAllocLookahead cfg free b).marked j = true ↔
      free.candidate cfg j = b ∨ free.marked j = true := by
  obtain ⟨d, hd, hcand, heq⟩ := lookahead_off hoff hb
  have hiff : free.candidate cfg j = b ↔ j = d := by
    constructor
    · exact fun h => offset_inj hj hd (h.trans hcand.symm)
    · rintro rfl
      exact hcand
  unfold lfsAllocLookahead
  rw [heq, hiff, Free.marked_iff, Free.marked_iff]
  unfold Free.mark
  split_ifs with hin
  · dsimp only
    by_cases hword : j / 32 = d / 32
    · rw [hword, Function.update_self, BitVec.getLsbD_or, Bool.or_eq_true]
      have hone : (1#32 <<< (d % 32)).getLsbD (j % 32) = true ↔ j = d := by
        have hmod := Nat.mod_lt j (show 0 < 32 by omega)
        simp
        omega
      rw [hone]
      exact or_comm
    · rw [Function.update_of_ne hword]
      exact ⟨.inr, fun h => h.resolve_left fun heq => hword (by rw [heq])⟩
  · exact ⟨.inr, fun h => h.resolve_left (by omega)⟩

/-- Nothing else changes. -/
theorem Free.mark_frame (free : Free) (d : ℕ) : (free.mark d).off = free.off ∧
    (free.mark d).size = free.size ∧ (free.mark d).i = free.i ∧ (free.mark d).ack = free.ack := by
  unfold Free.mark
  split_ifs
  · exact ⟨rfl, rfl, rfl, rfl⟩
  · exact ⟨rfl, rfl, rfl, rfl⟩

/-- The window after the traversal: the blocks of the tree are marked, and no others. -/
theorem scan_spec {tree : List ℕ} (hoff : free.off < cfg.blockCount)
    (htree : ∀ b ∈ tree, b < cfg.blockCount) :
    (tree.foldl (lfsAllocLookahead cfg) free).off = free.off ∧
      (tree.foldl (lfsAllocLookahead cfg) free).size = free.size ∧
      (tree.foldl (lfsAllocLookahead cfg) free).i = free.i ∧
      (tree.foldl (lfsAllocLookahead cfg) free).ack = free.ack ∧
      ∀ j < cfg.blockCount, j < free.size →
        ((tree.foldl (lfsAllocLookahead cfg) free).marked j = true ↔
          free.candidate cfg j ∈ tree ∨ free.marked j = true) := by
  induction tree generalizing free with
  | nil => exact ⟨rfl, rfl, rfl, rfl, fun j _ _ => by simp⟩
  | cons b tree ih =>
    obtain ⟨hoff₁, hsize₁, hi₁, hack₁⟩ : (lfsAllocLookahead cfg free b).off = free.off ∧
        (lfsAllocLookahead cfg free b).size = free.size ∧
        (lfsAllocLookahead cfg free b).i = free.i ∧ (lfsAllocLookahead cfg free b).ack = free.ack :=
      free.mark_frame _
    have hlt : (lfsAllocLookahead cfg free b).off < cfg.blockCount := by rwa [hoff₁]
    obtain ⟨hoff', hsize', hi', hack', hmarked⟩ := ih hlt fun c hc =>
      htree c (List.mem_cons_of_mem b hc)
    rw [List.foldl_cons]
    refine ⟨hoff'.trans hoff₁, hsize'.trans hsize₁, hi'.trans hi₁, hack'.trans hack₁,
      fun j hj hlt => ?_⟩
    have hcand : (lfsAllocLookahead cfg free b).candidate cfg j = free.candidate cfg j := by
      unfold Free.candidate
      rw [hoff₁]
    rw [hmarked j hj (by rwa [hsize₁]),
      lookahead_marked hoff (htree b List.mem_cons_self) hj hlt, List.mem_cons, hcand]
    tauto

/-- Nothing is marked in the next window before the traversal. -/
theorem window_marked (hj : j < (free.window cfg).size) : (free.window cfg).marked j = false := by
  have hdvd := cfg.dvd_lookaheadSize
  change j < min (8 * cfg.lookaheadSize) free.ack at hj
  rw [← Bool.not_eq_true, Free.marked_iff]
  change ¬(if j / 32 < cfg.lookaheadSize / 4 then 0#32 else free.buffer (j / 32)).getLsbD _ = true
  rw [if_pos (by omega)]
  simp

/-! ## The invariant -/

/-- The block that was looked at `d` candidates ago. -/
def Free.before (cfg : AllocConfig) (free : Free) (d : ℕ) : ℕ :=
  (free.off + free.i + (cfg.blockCount - d)) % cfg.blockCount

structure AllocSys.Inv (cfg : AllocConfig) (s : AllocSys) : Prop where
  off_lt : s.free.off < cfg.blockCount
  i_le : s.free.i ≤ s.free.size
  size_le : s.free.size ≤ cfg.blockCount
  left_le : s.free.size ≤ s.free.i + s.free.ack
  ack_le : s.free.ack ≤ cfg.blockCount
  tree_lt : ∀ b ∈ s.tree, b < cfg.blockCount
  /-- what is not marked in the rest of the window is free -/
  clear : ∀ j, s.free.i ≤ j → j < s.free.size → s.free.marked j = false →
    s.free.candidate cfg j ∉ s.tree ∧ s.free.candidate cfg j ∉ s.pending
  marks : ∀ j, s.free.i ≤ j → j < s.free.size → s.free.marked j = true →
    s.free.candidate cfg j ∈ s.found
  /-- a block that is pending was looked at since the last `lfs_alloc_ack` -/
  recent : ∀ b ∈ s.pending, ∃ d, 0 < d ∧ d ≤ cfg.blockCount - s.free.ack ∧
    b = s.free.before cfg d
  /-- and what was looked at is pending or was found in use -/
  seen : ∀ d, 0 < d → d ≤ cfg.blockCount - s.free.ack →
    s.free.before cfg d ∈ s.pending ∨ s.free.before cfg d ∈ s.found

variable {s : AllocSys}

theorem AllocSys.Inv.mono {found : Set ℕ} (h : s.Inv cfg) (hsub : s.found ⊆ found) :
    ({ s with found := found } : AllocSys).Inv cfg :=
  { h with
    marks := fun j hj hj' hm => hsub (h.marks j hj hj' hm)
    seen := fun d hd hd' => (h.seen d hd hd').imp_right fun hmem => hsub hmem }

theorem Free.next_ack (free : Free) (hack : 0 < free.ack) (hle : free.ack ≤ cfg.blockCount) :
    free.next.ack = free.ack - 1 := by
  have hcount := cfg.blockCount_le
  change decr32 free.ack = free.ack - 1
  unfold decr32
  omega

theorem Free.before_next {d : ℕ} (hd : d < cfg.blockCount) :
    free.next.before cfg (d + 1) = free.before cfg d := by
  unfold Free.before
  change (free.off + (free.i + 1) + _) % _ = _
  exact congrArg (· % _) (by omega)

theorem Free.before_next_one : free.next.before cfg 1 = free.candidate cfg free.i := by
  have hpos := cfg.blockCount_pos
  have hsum : free.off + (free.i + 1) + (cfg.blockCount - 1) =
      free.off + free.i + cfg.blockCount := by omega
  unfold Free.before Free.candidate
  change (free.off + (free.i + 1) + _) % _ = _
  rw [hsum, Nat.add_mod_right]

/-- A candidate is looked at. It is found in use, or it is allocated. -/
theorem alloc_step {pending : List ℕ} (h : s.Inv cfg) (hlt : s.free.i < s.free.size)
    (hold : ∀ b ∈ s.pending, b ∈ pending)
    (hnew : ∀ b ∈ pending, b ∈ s.pending ∨ b = s.free.candidate cfg s.free.i)
    (hseen : s.free.candidate cfg s.free.i ∈ pending ∨ s.free.candidate cfg s.free.i ∈ s.found) :
    ({ s with free := s.free.next, pending := pending } : AllocSys).Inv cfg := by
  have hleft := h.left_le
  have hsize := h.size_le
  have hack := h.ack_le
  have hnext := s.free.next_ack (by omega) hack
  refine ⟨h.off_lt, hlt, hsize, ?_, ?_, h.tree_lt, fun j hj hj' hm => ?_, fun j hj hj' hm => ?_,
    fun b hb => ?_, fun d hd hd' => ?_⟩
  · change s.free.size ≤ s.free.i + 1 + s.free.next.ack
    omega
  · change s.free.next.ack ≤ cfg.blockCount
    omega
  · change s.free.i + 1 ≤ j at hj
    change j < s.free.size at hj'
    obtain ⟨htree, hpending⟩ := h.clear j (by omega) hj' hm
    refine ⟨htree, fun hmem => ?_⟩
    rcases hnew _ hmem with hmem | heq
    · exact hpending hmem
    · have hsame := offset_inj (by omega) (by omega) heq
      omega
  · change s.free.i + 1 ≤ j at hj
    exact h.marks j (by omega) hj' hm
  · change ∃ d, 0 < d ∧ d ≤ cfg.blockCount - s.free.next.ack ∧ _
    rcases hnew b hb with hb | rfl
    · obtain ⟨d, hd, hd', rfl⟩ := h.recent b hb
      exact ⟨d + 1, by omega, by omega, (Free.before_next (by omega)).symm⟩
    · exact ⟨1, by omega, by omega, Free.before_next_one.symm⟩
  · change d ≤ cfg.blockCount - s.free.next.ack at hd'
    change s.free.next.before cfg d ∈ pending ∨ s.free.next.before cfg d ∈ s.found
    obtain ⟨d, rfl⟩ : ∃ e, d = e + 1 := ⟨d - 1, by omega⟩
    cases d with
    | zero =>
      rw [Free.before_next_one]
      exact hseen
    | succ d =>
      rw [Free.before_next (by omega)]
      exact (h.seen (d + 1) (by omega) (by omega)).imp_left fun hmem => hold _ hmem

theorem AllocSys.Inv.skip {n : ℕ} (h : s.Inv cfg) (hn : s.free.i + n ≤ s.free.size) :
    ({ s with free := s.free.skip n } : AllocSys).Inv cfg := by
  induction n generalizing s with
  | zero => exact h
  | succ n ih =>
    unfold Free.skip
    split_ifs with hm
    · have hstep := alloc_step h (by omega) (fun b hb => hb) (fun b hb => .inl hb)
        (.inr (h.marks _ le_rfl (by omega) hm))
      refine ih hstep ?_
      change s.free.i + 1 + n ≤ s.free.size
      omega
    · exact h

/-- The search through the rest of the window. -/
theorem search_spec {n : ℕ} (h : s.Inv cfg) (hn : s.free.i + n = s.free.size) :
    (∀ b free, s.free.search cfg n = (some b, free) → b < cfg.blockCount ∧ b ∉ s.tree ∧
      b ∉ s.pending ∧ ({ s with free := free, pending := b :: s.pending } : AllocSys).Inv cfg) ∧
    ∀ free, s.free.search cfg n = (none, free) → free.i = free.size ∧
      s.free.ack = free.ack + n ∧ ({ s with free := free } : AllocSys).Inv cfg := by
  induction n generalizing s with
  | zero =>
    refine ⟨(fun b free heq => nomatch heq), fun free heq => ?_⟩
    cases heq
    exact ⟨hn, rfl, h⟩
  | succ n ih =>
    have hack := s.free.next_ack (by have := h.left_le; omega) h.ack_le
    have hsum : s.free.next.i + n = s.free.next.size := by
      change s.free.i + 1 + n = s.free.size
      omega
    unfold Free.search
    cases hm : s.free.marked s.free.i with
    | true =>
      rw [if_pos rfl]
      have hstep := alloc_step h (by omega) (fun b hb => hb) (fun b hb => .inl hb)
        (.inr (h.marks _ le_rfl (by omega) hm))
      obtain ⟨hsome, hnone⟩ := ih hstep hsum
      refine ⟨hsome, fun free heq => ?_⟩
      obtain ⟨hi, hack', hinv⟩ := hnone free heq
      have hleft := h.left_le
      dsimp only at hack'
      exact ⟨hi, by omega, hinv⟩
    | false =>
      rw [if_neg Bool.false_ne_true]
      refine ⟨fun b free heq => ?_, fun free heq => nomatch heq⟩
      cases heq
      obtain ⟨htree, hpending⟩ := h.clear _ le_rfl (by omega) hm
      have hold (b : ℕ) (hb : b ∈ s.pending) : b ∈ s.free.candidate cfg s.free.i :: s.pending :=
        List.mem_cons_of_mem _ hb
      have hstep := alloc_step h (by omega) hold (fun b hb => (List.mem_cons.1 hb).symm)
        (.inl List.mem_cons_self)
      exact ⟨Nat.mod_lt _ cfg.blockCount_pos, htree, hpending, hstep.skip hsum.le⟩

/-- The window is used up, and the next one is marked. -/
theorem AllocSys.Inv.scan (h : s.Inv cfg) (hi : s.free.i = s.free.size) :
    ({ s with
      free := s.tree.foldl (lfsAllocLookahead cfg) (s.free.window cfg)
      found := s.found ∪ {b | b ∈ s.tree} } : AllocSys).Inv cfg := by
  have hpos := cfg.blockCount_pos
  have hoff : (s.free.window cfg).off < cfg.blockCount := Nat.mod_lt _ hpos
  have hack := h.ack_le
  obtain ⟨hoff', hsize', hi', hack', hmarked⟩ := scan_spec hoff h.tree_lt
  generalize s.tree.foldl (lfsAllocLookahead cfg) (s.free.window cfg) = free at *
  have hsize : free.size = min (8 * cfg.lookaheadSize) s.free.ack := hsize'
  have hack'' : free.ack = s.free.ack := hack'
  have hzero : free.i = 0 := hi'
  have hcand (j : ℕ) : (s.free.window cfg).candidate cfg j = free.candidate cfg j := by
    unfold Free.candidate
    rw [hoff']
  have hbits (j : ℕ) (hj : j < free.size) :
      free.marked j = true ↔ free.candidate cfg j ∈ s.tree := by
    rw [hmarked j (by omega) (by omega), hcand]
    refine ⟨fun hor => hor.resolve_right ?_, .inl⟩
    rw [window_marked (by omega)]
    exact Bool.false_ne_true
  have hbefore (d : ℕ) : free.before cfg d = s.free.before cfg d := by
    have hstart : free.off = (s.free.off + s.free.i) % cfg.blockCount := by
      rw [hoff', hi]
      rfl
    unfold Free.before
    rw [hzero, hstart, Nat.add_zero, Nat.mod_add_mod]
  refine ⟨hoff' ▸ hoff, by dsimp only; omega, by dsimp only; omega, by dsimp only; omega,
    by dsimp only; omega, h.tree_lt, fun j hj hj' hm => ?_, fun j hj hj' hm => ?_, fun b hb => ?_,
    fun d hd hd' => ?_⟩
  · refine ⟨fun hmem => ?_, fun hmem => ?_⟩
    · rw [(hbits j hj').2 hmem] at hm
      cases hm
    · -- the pending blocks are those in front of the window, and it is short enough
      obtain ⟨d, hd, hd', heq⟩ := h.recent _ hmem
      rw [← hbefore] at heq
      unfold Free.before Free.candidate at heq
      rw [hzero, Nat.add_zero] at heq
      dsimp only at heq hj'
      have hsame := offset_inj (by omega) (by omega) heq
      omega
  · exact .inr ((hbits j hj').1 hm)
  · dsimp only
    simp only [hbefore, hack'']
    exact h.recent b hb
  · dsimp only at hd' ⊢
    rw [hbefore]
    exact (h.seen d hd (by omega)).imp_right .inl

theorem AllocSys.inv_drop {tree : List ℕ} (hoff : free.off < cfg.blockCount)
    (htree : ∀ b ∈ tree, b < cfg.blockCount) :
    (⟨lfsAllocDrop cfg free, tree, [], ∅⟩ : AllocSys).Inv cfg where
  off_lt := hoff
  i_le := le_rfl
  size_le := Nat.zero_le _
  left_le := Nat.zero_le _
  ack_le := le_rfl
  tree_lt := htree
  clear := fun j _ hj => absurd hj (Nat.not_lt_zero j)
  marks := fun j _ hj => absurd hj (Nat.not_lt_zero j)
  recent := fun b hb => absurd hb List.not_mem_nil
  seen := fun d hd hd' => absurd (hd.trans_le hd') (by
    change ¬0 < cfg.blockCount - cfg.blockCount
    omega)

/-- The blocks in use and given out after a call. -/
theorem lfsAlloc_spec (fails : ℕ → Bool) (n : ℕ) {fuel : ℕ} (h : s.Inv cfg)
    (hfuel : s.free.ack < fuel + (s.free.size - s.free.i)) :
    ∃ r free, lfsAlloc cfg s.tree fails fuel n s.free = some (r, free) ∧
      (s.returned (r, free)).Inv cfg ∧
      (∀ b, r = .block b → b < cfg.blockCount ∧ b ∉ s.tree ∧ b ∉ s.pending) ∧
      (r = .noSpc → free.ack = 0) := by
  induction fuel generalizing s n with
  | zero =>
    have hleft := h.left_le
    omega
  | succ fuel ih =>
    have hleft := h.left_le
    have hle := h.i_le
    obtain ⟨hsome, hnone⟩ := search_spec h (Nat.add_sub_cancel' hle)
    unfold lfsAlloc
    cases hsearch : s.free.search cfg (s.free.size - s.free.i) with
    | mk o free =>
      cases o with
      | some b =>
        obtain ⟨hb, htree, hpending, hinv⟩ := hsome b free hsearch
        refine ⟨_, _, rfl, hinv.mono Set.subset_union_left, fun c hc => ?_, fun h => nomatch h⟩
        cases hc
        exact ⟨hb, htree, hpending⟩
      | none =>
        obtain ⟨hi, hack, hinv⟩ := hnone free hsearch
        dsimp only
        split_ifs with hzero hfail
        · exact ⟨_, _, rfl, hinv.mono Set.subset_union_left, (fun c hc => nomatch hc),
            fun _ => hzero⟩
        · refine ⟨_, _, rfl, ?_, (fun c hc => nomatch hc), fun h => nomatch h⟩
          exact AllocSys.inv_drop (Nat.mod_lt _ cfg.blockCount_pos) h.tree_lt
        · have hscan := hinv.scan hi
          have hlook := cfg.lookaheadSize_pos
          obtain ⟨-, hsize', hi', hack', -⟩ := scan_spec
            (show (free.window cfg).off < cfg.blockCount from Nat.mod_lt _ cfg.blockCount_pos)
            h.tree_lt
          have hsize : (s.tree.foldl (lfsAllocLookahead cfg) (free.window cfg)).size =
              min (8 * cfg.lookaheadSize) free.ack := hsize'
          have hstart : (s.tree.foldl (lfsAllocLookahead cfg) (free.window cfg)).i = 0 := hi'
          have hleft' : (s.tree.foldl (lfsAllocLookahead cfg) (free.window cfg)).ack = free.ack :=
            hack'
          obtain ⟨r, free', heq, hinv', hblock, hspc⟩ := ih (n + 1) hscan
            (by dsimp only; omega)
          refine ⟨r, free', heq, ?_, hblock, hspc⟩
          have hfound : (s.found ∪ {b | b ∈ s.tree}) ∪ {b | b ∈ s.tree} =
              s.found ∪ {b | b ∈ s.tree} := by
            rw [Set.union_assoc, Set.union_self]
          cases r with
          | block b => simpa only [AllocSys.returned, hfound] using hinv'
          | noSpc => simpa only [AllocSys.returned, hfound] using hinv'
          | err => exact hinv'

theorem AllocSys.Inv.fuel (h : s.Inv cfg) :
    s.free.ack < cfg.fuel + (s.free.size - s.free.i) := by
  have hack := h.ack_le
  unfold AllocConfig.fuel
  omega

theorem allocMachine_step {init : Free} {tree : List ℕ} {e : AllocEvent} {t : AllocSys}
    (h : s.Inv cfg) (hstep : (allocMachine cfg init tree).step s e = some t) (he : e.Honest s) :
    t.Inv cfg := by
  cases e with
  | alloc fails =>
    obtain ⟨r, free, heq, hinv, -⟩ := lfsAlloc_spec fails 0 h h.fuel
    change (lfsAlloc cfg s.tree fails cfg.fuel 0 s.free).map s.returned = some t at hstep
    rw [heq] at hstep
    cases hstep
    exact hinv
  | ack =>
    cases hstep
    exact
      { off_lt := h.off_lt
        i_le := h.i_le
        size_le := h.size_le
        left_le := by
          have hsize := h.size_le
          change s.free.size ≤ s.free.i + cfg.blockCount
          omega
        ack_le := le_rfl
        tree_lt := h.tree_lt
        clear := fun j hj hj' hm => ⟨(h.clear j hj hj' hm).1, List.not_mem_nil⟩
        marks := fun j hj hj' hm => ⟨j, hj, hj', hm, rfl⟩
        recent := fun b hb => absurd hb List.not_mem_nil
        seen := fun d hd hd' => absurd (hd.trans_le hd') (by
          change ¬0 < cfg.blockCount - cfg.blockCount
          omega) }
  | commit tree' =>
    cases hstep
    refine { h with tree_lt := fun b hb => ?_, clear := fun j hj hj' hm => ?_ }
    · rcases he b hb with hb | hb
      · exact h.tree_lt b hb
      · obtain ⟨d, -, -, rfl⟩ := h.recent b hb
        exact Nat.mod_lt _ cfg.blockCount_pos
    · obtain ⟨htree, hpending⟩ := h.clear j hj hj' hm
      refine ⟨fun hmem => ?_, hpending⟩
      rcases he _ hmem with hmem | hmem
      · exact htree hmem
      · exact hpending hmem

/-- In every run of allocations and acknowledgements, with a tree that changes by what was
    allocated and in which traversals may fail: a block that `lfs_alloc` returns is neither in the
    tree nor already given out, and it returns `LFS_ERR_NOSPC` only after it has found every block
    in use since the last acknowledgement. It always returns. -/
theorem lfsAlloc_reachable {init : Free} {tree : List ℕ} (htree : ∀ b ∈ tree, b < cfg.blockCount)
    (h : (allocMachine cfg init tree).ReachableBy (fun s e _ => e.Honest s) s)
    (fails : ℕ → Bool) :
    ∃ r free, lfsAlloc cfg s.tree fails cfg.fuel 0 s.free = some (r, free) ∧
      (∀ b, r = .block b → b < cfg.blockCount ∧ b ∉ s.tree ∧ b ∉ s.pending) ∧
      (r = .noSpc → ∀ b < cfg.blockCount, b ∈ s.tree ∨ b ∈ s.pending ∨ b ∈ s.found) := by
  have hpos := cfg.blockCount_pos
  have hinv : s.Inv cfg := by
    refine h.invariant (I := fun s => s.Inv cfg) ?_
      fun s e t _ hs hstep he => allocMachine_step hs hstep he
    exact AllocSys.inv_drop (Nat.mod_lt _ hpos) htree
  obtain ⟨r, free, heq, hret, hblock, hspc⟩ := lfsAlloc_spec fails 0 hinv hinv.fuel
  refine ⟨r, free, heq, hblock, fun hr b hb => ?_⟩
  subst hr
  have hack := hspc rfl
  -- the distance of the block from the last candidate
  obtain ⟨e, he, hcand⟩ : ∃ e < cfg.blockCount, (free.off + free.i + e) % cfg.blockCount = b := by
    refine ⟨(b + (cfg.blockCount - (free.off + free.i) % cfg.blockCount)) % cfg.blockCount,
      Nat.mod_lt _ hpos, ?_⟩
    have hmod := Nat.mod_lt (free.off + free.i) hpos
    have hsum : (free.off + free.i) % cfg.blockCount +
        (b + (cfg.blockCount - (free.off + free.i) % cfg.blockCount)) = b + cfg.blockCount := by
      omega
    rw [Nat.add_mod_mod, ← Nat.mod_add_mod, hsum, Nat.add_mod_right, Nat.mod_eq_of_lt hb]
  have hseen := hret.seen (cfg.blockCount - e) (by omega) (by
    change cfg.blockCount - e ≤ cfg.blockCount - free.ack
    omega)
  have hb' : free.before cfg (cfg.blockCount - e) = b := by
    unfold Free.before
    rw [Nat.sub_sub_self he.le]
    exact hcand
  change free.before cfg (cfg.blockCount - e) ∈ s.pending ∨
    free.before cfg (cfg.blockCount - e) ∈ s.found ∪ {b | b ∈ s.tree} at hseen
  rw [hb'] at hseen
  rcases hseen with hmem | hmem | hmem
  · exact .inr (.inl hmem)
  · exact .inr (.inr hmem)
  · exact .inl hmem

/-- A disk of four blocks. -/
def fourBlocks : AllocConfig := ⟨4, 8, by decide, by decide, by decide, by decide⟩

/-- A block of the tree is freed, and acknowledged. -/
theorem lfsAlloc_reachable_four :
    ∃ r free, lfsAlloc fourBlocks [1] (fun _ => false) fourBlocks.fuel 0
        (lfsAllocAck fourBlocks (lfsAllocDrop fourBlocks ⟨3, 0, 0, 0, fun _ => 0⟩)) =
          some (r, free) ∧
      (∀ b, r = .block b → b < 4 ∧ b ∉ [1] ∧ b ∉ ([] : List ℕ)) ∧
      (r = .noSpc → ∀ b < 4, b ∈ [1] ∨ b ∈ ([] : List ℕ) ∨
        b ∈ (lfsAllocDrop fourBlocks ⟨3, 0, 0, 0, fun _ => 0⟩).markedBlocks fourBlocks) := by
  have hcommit : (AllocEvent.commit [1]).Honest
      (allocMachine fourBlocks ⟨3, 0, 0, 0, fun _ => 0⟩ [0, 1]).init :=
    fun b hb => .inl (List.mem_cons_of_mem 0 hb)
  have hrun := Machine.ReachableBy.init.step (P := fun s e _ => AllocEvent.Honest s e) rfl hcommit
  have hack (s : AllocSys) : AllocEvent.ack.Honest s := trivial
  exact lfsAlloc_reachable (by decide) (hrun.step rfl (hack _)) fun _ => false

end Esp32Embroidery.Littlefs
