import Esp32Embroidery.Littlefs.CtzList

/-!
# Extending a file (`littlefs/lfs.c`, lines 2691–2788)

`lfs_ctz_extend` allocates a block for the next position of a file. An incomplete last block is
copied, so that the version of the file on disk keeps its blocks; behind a full one, the block
gets its pointers. A block that turns out to be bad is left behind for another one.

* `copyOut_spec`, `writePointers_spec`: what the two loops write.
* `lfsCtzExtend_spec`: the new version and the old one after `lfs_ctz_extend`.
-/

namespace Esp32Embroidery.Littlefs

open Esp32Embroidery.Lib

/-- The number of blocks of a file. -/
def blocksOf (blockSize size : ℕ) : ℕ :=
  if size = 0 then 0 else (lfsCtzIndex blockSize (size - 1)).1 + 1

/-- A file of the disk, with its blocks. -/
structure CtzFile (blockSize : ℕ) (disk : ℕ → ℕ → Byte) (head size : ℕ) (blk : ℕ → ℕ) : Prop where
  list : CtzList disk blk (blocksOf blockSize size)
  head_eq : 0 < size → head = blk (lfsCtzIndex blockSize (size - 1)).1

section

variable {w : World} {m : Media} {block off : ℕ}

/-! ## Words and bytes -/

theorem lfsFromle32_congr {f g : ℕ → Byte} {off off' : ℕ}
    (h : ∀ j < 4, f (off + j) = g (off' + j)) : lfsFromle32 f off = lfsFromle32 g off' := by
  have h0 := h 0 (by omega)
  have h1 := h 1 (by omega)
  have h2 := h 2 (by omega)
  have h3 := h 3 (by omega)
  unfold lfsFromle32
  rw [Nat.add_zero, Nat.add_zero] at h0
  rw [h0, h1, h2, h3]

/-- A word that was stored byte by byte. -/
theorem lfsFromle32_of_bytes {f : ℕ → Byte} {n : ℕ} (hn : n < 2 ^ 32)
    (h : ∀ j < 4, (lfsTole32 n)[j]? = some (f (off + j))) : lfsFromle32 f off = n := by
  have h0 := Option.some.inj (h 0 (by omega))
  have h1 := Option.some.inj (h 1 (by omega))
  have h2 := Option.some.inj (h 2 (by omega))
  have h3 := Option.some.inj (h 3 (by omega))
  rw [Nat.add_zero] at h0
  unfold lfsFromle32
  rw [← h0, ← h1, ← h2, ← h3]
  simp only [BitVec.toNat_ofNat]
  omega

/-! ## Programs and erases -/

theorem Media.prog_other (w : World) (m : Media) (off : ℕ) (bytes : List Byte) {b : ℕ}
    (hb : b ≠ block) :
    (m.prog w block off bytes).2.disk b = m.disk b := by
  funext o
  exact if_neg fun h => hb h.1

theorem Media.erase_other (w : World) (m : Media) {b : ℕ} (hb : b ≠ block) :
    (m.erase w block).2.disk b = m.disk b := by
  funext o
  exact if_neg hb

theorem Media.prog_block (w : World) (m : Media) (block off : ℕ) (bytes : List Byte)
    (hok : (m.prog w block off bytes).1 = none) (o : ℕ) :
    (m.prog w block off bytes).2.disk block o =
      if off ≤ o then m.disk block o &&& bytes[o - off]?.getD 0xff else m.disk block o := by
  have herr : w.ret m.calls = none := hok
  unfold Media.prog
  simp only [true_and, herr, if_true]

theorem Media.erase_block (w : World) (m : Media) (block : ℕ)
    (hok : (m.erase w block).1 = none) (o : ℕ) :
    (m.erase w block).2.disk block o = 0xff := by
  have herr : w.ret m.calls = none := hok
  unfold Media.erase
  simp only [herr, if_true]

theorem Jump.of_ne_next (err : LfsErr) : Jump.of (some err) ≠ .next := by
  cases err
  all_goals exact fun h => nomatch h

/-! ## The loops -/

theorem copyOut_other {head nblock n i b : ℕ} (hb : b ≠ nblock) :
    (copyOut w head nblock n i m).2.disk b = m.disk b := by
  induction n generalizing i m with
  | zero => rfl
  | succ n ih =>
    unfold copyOut Media.read
    cases w.ret m.calls with
    | some err => rfl
    | none =>
      dsimp only
      have hprog := Media.prog_other w ⟨m.disk, m.calls + 1⟩ i [m.disk head i] hb
      generalize Media.prog w nblock i [m.disk head i] ⟨m.disk, m.calls + 1⟩ = r at hprog
      obtain ⟨err, m'⟩ := r
      cases err with
      | some err => exact hprog
      | none => exact ih.trans hprog

/-- Bytes behind those that were programmed. -/
theorem and_getD_length {bytes : List Byte} {k : ℕ} (h : bytes.length ≤ k) (x : Byte) :
    x &&& bytes[k]?.getD 0xff = x := by
  rw [List.getElem?_eq_none h]
  exact BitVec.and_allOnes

theorem copyOut_spec {head nblock n i : ℕ} (hne : head ≠ nblock)
    (hblank : ∀ o, i ≤ o → m.disk nblock o = 0xff)
    (hnext : (copyOut w head nblock n i m).1 = .next) (o : ℕ) :
    (copyOut w head nblock n i m).2.disk nblock o =
      if i ≤ o ∧ o < i + n then m.disk head o else m.disk nblock o := by
  induction n generalizing i m with
  | zero => exact (if_neg (by omega)).symm
  | succ n ih =>
    unfold copyOut Media.read at hnext ⊢
    cases hret : w.ret m.calls with
    | some err =>
      rw [hret] at hnext
      cases hnext
    | none =>
      rw [hret] at hnext
      dsimp only at hnext ⊢
      have hother := Media.prog_other w ⟨m.disk, m.calls + 1⟩ i [m.disk head i] hne
      have hblock := Media.prog_block w ⟨m.disk, m.calls + 1⟩ nblock i [m.disk head i]
      generalize Media.prog w nblock i [m.disk head i] ⟨m.disk, m.calls + 1⟩ = r at *
      obtain ⟨err, m'⟩ := r
      cases err with
      | some err => exact absurd hnext (Jump.of_ne_next err)
      | none =>
        dsimp only at hnext hother hblock ⊢
        have hrest : ∀ o, i + 1 ≤ o → m'.disk nblock o = 0xff := by
          intro o ho
          rw [hblock rfl, if_pos (by omega), and_getD_length (show 1 ≤ o - i by omega)]
          exact hblank o (by omega)
        rw [ih hrest hnext, hother, hblock rfl]
        by_cases ho : o = i
        · subst ho
          rw [if_neg (by omega), if_pos le_rfl, if_pos (by omega), Nat.sub_self, hblank _ le_rfl]
          exact BitVec.allOnes_and
        · have hkept : (if i ≤ o then m.disk nblock o &&& [m.disk head i][o - i]?.getD 0xff
              else m.disk nblock o) = m.disk nblock o := by
            split_ifs with hle
            · exact and_getD_length (show 1 ≤ o - i by omega) _
            · rfl
          rw [hkept]
          exact if_congr (by omega) rfl rfl

theorem writePointers_other {nblock n i nhead b : ℕ} (hb : b ≠ nblock) :
    (writePointers w nblock n i nhead m).2.disk b = m.disk b := by
  induction n generalizing i nhead m with
  | zero => rfl
  | succ n ih =>
    unfold writePointers
    have hprog := Media.prog_other w m (4 * i) (lfsTole32 nhead) hb
    generalize Media.prog w nblock (4 * i) (lfsTole32 nhead) m = r at hprog
    obtain ⟨err, m'⟩ := r
    cases err with
    | some err => exact hprog
    | none =>
      dsimp only
      split_ifs
      · exact hprog
      · unfold Media.read
        cases w.ret m'.calls with
        | some err => exact hprog
        | none => exact ih.trans hprog

theorem length_lfsTole32 (n : ℕ) : (lfsTole32 n).length = 4 := rfl

/-- A pointer that is programmed over erased bytes. -/
theorem Media.prog_word {block i p : ℕ} (hp : p < 2 ^ 32)
    (hblank : ∀ o, 4 * i ≤ o → m.disk block o = 0xff)
    (hok : (m.prog w block (4 * i) (lfsTole32 p)).1 = none) :
    (∀ o, o < 4 * i ∨ 4 * (i + 1) ≤ o →
      (m.prog w block (4 * i) (lfsTole32 p)).2.disk block o = m.disk block o) ∧
    lfsFromle32 ((m.prog w block (4 * i) (lfsTole32 p)).2.disk block) (4 * i) = p := by
  have hblock := Media.prog_block w m block (4 * i) (lfsTole32 p) hok
  constructor
  · intro o ho
    rw [hblock]
    split_ifs
    · exact and_getD_length (by rw [length_lfsTole32]; omega) _
    · rfl
  · refine lfsFromle32_of_bytes hp fun j hj => ?_
    have hlen : j < (lfsTole32 p).length := hj
    rw [hblock, if_pos (by omega), Nat.add_sub_cancel_left, hblank _ (by omega),
      List.getElem?_eq_getElem hlen, Option.getD_some]
    exact congrArg some BitVec.allOnes_and.symm

/-- The pointers lead along `p`. -/
theorem writePointers_spec {nblock : ℕ} (n i : ℕ) (p : ℕ → ℕ)
    (hp : ∀ j, i ≤ j → j < i + n → p j ≠ nblock ∧ p j < 2 ^ 32)
    (hchain : ∀ j, i ≤ j → j + 1 < i + n → lfsFromle32 (m.disk (p j)) (4 * j) = p (j + 1))
    (hblank : ∀ o, 4 * i ≤ o → m.disk nblock o = 0xff)
    (hnext : (writePointers w nblock n i (p i) m).1 = .next) :
    (∀ o, o < 4 * i ∨ 4 * (i + n) ≤ o →
      (writePointers w nblock n i (p i) m).2.disk nblock o = m.disk nblock o) ∧
    ∀ j, i ≤ j → j < i + n →
      lfsFromle32 ((writePointers w nblock n i (p i) m).2.disk nblock) (4 * j) = p j := by
  induction n generalizing i m with
  | zero => exact ⟨fun _ _ => rfl, fun j hj hj' => by omega⟩
  | succ n ih =>
    unfold writePointers at hnext ⊢
    have hother (b : ℕ) (hb : b ≠ nblock) := Media.prog_other w m (4 * i) (lfsTole32 (p i)) hb
    have hword := Media.prog_word (w := w) (hp i le_rfl (by omega)).2 hblank
    generalize Media.prog w nblock (4 * i) (lfsTole32 (p i)) m = r at *
    obtain ⟨err, m'⟩ := r
    cases err with
    | some err => exact absurd hnext (Jump.of_ne_next err)
    | none =>
      obtain ⟨hout, hword⟩ := hword rfl
      dsimp only at hnext hother hout hword ⊢
      split_ifs at hnext ⊢ with hlast
      · subst hlast
        refine ⟨hout, fun j hj hj' => ?_⟩
        obtain rfl : j = i := by omega
        exact hword
      · unfold Media.read at hnext ⊢
        cases hret : w.ret m'.calls with
        | some err =>
          rw [hret] at hnext
          cases hnext
        | none =>
          rw [hret] at hnext
          dsimp only at hnext ⊢
          have hhead := hother (p i) (hp i le_rfl (by omega)).1
          have hfollow : lfsFromle32 (m'.disk (p i)) (4 * i) = p (i + 1) := by
            rw [hhead]
            exact hchain i le_rfl (by omega)
          rw [hfollow] at hnext ⊢
          obtain ⟨hkept, hrest⟩ := @ih ⟨m'.disk, m'.calls + 1⟩ (i + 1)
            (fun j hj hj' => hp j (by omega) (by omega))
            (fun j hj hj' => by
              dsimp only
              rw [hother (p j) (hp j (by omega) (by omega)).1]
              exact hchain j (by omega) (by omega))
            (fun o ho => (hout o (by omega)).trans (hblank o (by omega))) hnext
          refine ⟨fun o ho => ?_, fun j hj hj' => ?_⟩
          · rw [hkept o (by omega)]
            exact hout o (by omega)
          · by_cases hj'' : j = i
            · subst hj''
              refine (lfsFromle32_congr fun o ho => ?_).trans hword
              exact hkept _ (by omega)
            · exact hrest j (by omega) (by omega)

/-! ## The new version -/

theorem extendInto_other {blockSize head size nblock b : ℕ} (hb : b ≠ nblock) :
    (extendInto w blockSize head size nblock m).1.2.disk b = m.disk b := by
  unfold extendInto
  have herase := Media.erase_other w m hb
  generalize Media.erase w nblock m = r at herase
  obtain ⟨err, m'⟩ := r
  cases err with
  | some err => exact herase
  | none =>
    dsimp only at herase ⊢
    split_ifs
    · exact herase
    · exact (copyOut_other hb).trans herase
    · exact (writePointers_other hb).trans herase

/-- What a new last block holds. -/
structure LastBlock (blockSize : ℕ) (disk disk' : ℕ → ℕ → Byte) (blk : ℕ → ℕ)
    (size nblock : ℕ) : Prop where
  /-- the pointers -/
  pointer : 0 < (lfsCtzIndex blockSize size).1 → ∀ k ≤ lfsCtz (lfsCtzIndex blockSize size).1,
    lfsFromle32 (disk' nblock) (4 * k) = blk ((lfsCtzIndex blockSize size).1 - 2 ^ k)
  /-- the bytes in front of the place -/
  copied : ∀ pos < size, (lfsCtzIndex blockSize pos).1 = (lfsCtzIndex blockSize size).1 →
    disk' nblock (lfsCtzIndex blockSize pos).2 =
      disk (blk (lfsCtzIndex blockSize pos).1) (lfsCtzIndex blockSize pos).2
  /-- those behind it -/
  erased : ∀ o, (lfsCtzIndex blockSize size).2 ≤ o → disk' nblock o = 0xff

/-- The pointers of a new block: the pointer of the same length in the block that is as far away
    leads on. -/
theorem CtzList.pointer_next {disk : ℕ → ℕ → Byte} {blk : ℕ → ℕ} {n k : ℕ}
    (hlist : CtzList disk blk n) (hn : n < 2 ^ 32) (hk : k + 1 ≤ lfsCtz n) (hpos : n ≠ 0) :
    lfsFromle32 (disk (blk (n - 2 ^ k))) (4 * k) = blk (n - 2 ^ (k + 1)) := by
  obtain ⟨c, hc⟩ := (le_lfsCtz_iff hpos hn).1 hk
  have hpow := Nat.two_pow_pos k
  have hle : 2 * 2 ^ k ≤ n := by
    rw [← Nat.pow_succ']
    exact Nat.le_of_dvd (Nat.pos_of_ne_zero hpos) ⟨c, hc⟩
  have hrest : n - 2 ^ k = 2 ^ k * (2 * c - 1) := by
    rw [Nat.mul_sub, mul_one, hc, Nat.pow_succ, Nat.mul_assoc]
  have hctz : k ≤ lfsCtz (n - 2 ^ k) := (le_lfsCtz_iff (by omega) (by omega)).2 ⟨_, hrest⟩
  rw [hlist.pointer _ (by omega) (by omega) k hctz]
  exact congrArg blk (by rw [Nat.pow_succ']; omega)

/-- The pointers make a last block behind a full one. -/
theorem lastBlock_writePointers {blockSize nblock index last : ℕ} {disk : ℕ → ℕ → Byte}
    {blk : ℕ → ℕ} (hlist : CtzList disk blk (index + 1)) (hindex : index + 1 < 2 ^ 32)
    (hfresh : ∀ i < index + 1, blk i ≠ nblock) (hdisk : ∀ b, b ≠ nblock → m.disk b = disk b)
    (hblank : ∀ o, m.disk nblock o = 0xff)
    (hplace : lfsCtzIndex blockSize (last + 1) = (index + 1, 4 * (lfsCtz (index + 1) + 1)))
    (hmono : ∀ pos ≤ last, (lfsCtzIndex blockSize pos).1 ≤ index)
    (hnext : (writePointers w nblock (lfsCtz (index + 1) + 1) 0 (blk index) m).1 = .next) :
    LastBlock blockSize disk
      (writePointers w nblock (lfsCtz (index + 1) + 1) 0 (blk index) m).2.disk blk (last + 1)
        nblock := by
  have hne : index + 1 ≠ 0 := Nat.succ_ne_zero index
  have hpow (k : ℕ) (hk : k ≤ lfsCtz (index + 1)) : 2 ^ k ≤ index + 1 :=
    Nat.le_of_dvd (Nat.succ_pos index) ((le_lfsCtz_iff hne hindex).1 hk)
  have hfar (k : ℕ) (hk : k ≤ lfsCtz (index + 1)) : index + 1 - 2 ^ k < index + 1 := by
    have hpos := Nat.two_pow_pos k
    have hle := hpow k hk
    omega
  obtain ⟨hkept, hpointers⟩ := writePointers_spec (lfsCtz (index + 1) + 1) 0
    (fun k => blk (index + 1 - 2 ^ k))
    (fun k _ hk => ⟨hfresh _ (hfar k (by omega)), hlist.lt _ (hfar k (by omega))⟩)
    (fun k _ hk => by
      rw [hdisk _ (hfresh _ (hfar k (by omega)))]
      exact hlist.pointer_next hindex (by omega) hne)
    (fun o _ => hblank o) hnext
  refine ⟨fun _ k hk => ?_, fun pos hpos heq => ?_, fun o ho => ?_⟩
  · rw [hplace] at hk ⊢
    exact hpointers k (Nat.zero_le k) (by dsimp only at hk; omega)
  · rw [hplace] at heq
    have hle := hmono pos (by omega)
    dsimp only at heq
    omega
  · rw [hplace] at ho
    have hout := hkept o (.inr (by dsimp only at ho; omega))
    exact hout.trans (hblank o)

/-- A copy of the last block, with room for more. -/
theorem lastBlock_copyOut {blockSize nblock index loff last : ℕ} {disk : ℕ → ℕ → Byte}
    {blk : ℕ → ℕ} (hlist : CtzList disk blk (index + 1)) (hfresh : blk index ≠ nblock)
    (hdisk : ∀ b, b ≠ nblock → m.disk b = disk b) (hblank : ∀ o, m.disk nblock o = 0xff)
    (hheader : header index ≤ loff)
    (hplace : lfsCtzIndex blockSize (last + 1) = (index, loff + 1))
    (hmono : ∀ pos ≤ last, (lfsCtzIndex blockSize pos).1 = index →
      (lfsCtzIndex blockSize pos).2 ≤ loff)
    (hnext : (copyOut w (blk index) nblock (loff + 1) 0 m).1 = .next) :
    LastBlock blockSize disk (copyOut w (blk index) nblock (loff + 1) 0 m).2.disk blk (last + 1)
      nblock := by
  have hcopy := fun o => copyOut_spec hfresh (fun o _ => hblank o) hnext o
  refine ⟨fun hpos k hk => ?_, fun pos hpos heq => ?_, fun o ho => ?_⟩
  · rw [hplace] at hpos hk ⊢
    dsimp only at hpos hk ⊢
    have hlen : header index = 4 * (lfsCtz index + 1) := if_neg (by omega)
    rw [← hlist.pointer index (Nat.lt_succ_self index) hpos k hk]
    refine lfsFromle32_congr fun j hj => ?_
    rw [hcopy, if_pos (by omega), hdisk _ hfresh]
  · rw [hplace] at heq
    have hle := hmono pos (by omega) heq
    rw [hcopy, if_pos (by omega), hdisk _ hfresh, heq]
  · rw [hplace] at ho
    dsimp only at ho
    rw [hcopy, if_neg (by omega)]
    exact hblank o

/-- The first block of a file. -/
theorem lastBlock_first {blockSize nblock : ℕ} {disk disk' : ℕ → ℕ → Byte} {blk : ℕ → ℕ}
    (hB : 128 ≤ blockSize) (hblank : ∀ o, disk' nblock o = 0xff) :
    LastBlock blockSize disk disk' blk 0 nblock := by
  refine ⟨fun hpos => ?_, fun pos hpos => ?_, fun o _ => hblank o⟩
  · rw [lfsCtzIndex_zero hB] at hpos
    exact absurd hpos (Nat.lt_irrefl 0)
  · exact absurd hpos (Nat.not_lt_zero pos)

variable (w) in
theorem extendInto_spec {blockSize head size nblock : ℕ} {blk : ℕ → ℕ} (hB : 128 ≤ blockSize)
    (hsize : size < 2 ^ 32) (hfile : CtzFile blockSize m.disk head size blk)
    (hfresh : ∀ i < blocksOf blockSize size, blk i ≠ nblock)
    (hnext : (extendInto w blockSize head size nblock m).1.1 = .next) :
    (extendInto w blockSize head size nblock m).2 = (lfsCtzIndex blockSize size).2 ∧
      LastBlock blockSize m.disk (extendInto w blockSize head size nblock m).1.2.disk blk size
        nblock := by
  have hdisk (b : ℕ) (hb : b ≠ nblock) := Media.erase_other w m hb
  have hblank := Media.erase_block w m nblock
  unfold extendInto at hnext ⊢
  generalize Media.erase w nblock m = r at *
  obtain ⟨err, m'⟩ := r
  cases err with
  | some err => exact absurd hnext (Jump.of_ne_next err)
  | none =>
    dsimp only at hnext hdisk hblank ⊢
    cases size with
    | zero =>
      rw [if_pos rfl, lfsCtzIndex_zero hB]
      exact ⟨rfl, lastBlock_first hB (hblank rfl)⟩
    | succ last =>
      have hblocks : blocksOf blockSize (last + 1) = (lfsCtzIndex blockSize last).1 + 1 :=
        if_neg (Nat.succ_ne_zero last)
      have hlist := hfile.list
      rw [hblocks] at hlist hfresh
      have hhead : head = blk (lfsCtzIndex blockSize last).1 := hfile.head_eq (Nat.succ_pos last)
      have hspec := lfsCtzIndex_spec last hB (by omega)
      have hlt := lfsCtzIndex_lt last hB (by omega)
      have hplace := lfsCtzIndex_succ hB hsize (Prod.mk.eta (p := lfsCtzIndex blockSize last)).symm
      have hmono (pos : ℕ) (h : pos ≤ last) := lfsCtzIndex_mono hB h (show last < 2 ^ 32 by omega)
      rw [if_neg (Nat.succ_ne_zero last), Nat.add_sub_cancel, hhead] at hnext ⊢
      generalize lfsCtzIndex blockSize last = p at *
      obtain ⟨index, loff⟩ := p
      dsimp only at hlist hfresh hlt hmono hplace hnext ⊢
      by_cases hfull : loff + 1 = blockSize
      · rw [if_pos hfull] at hplace
        rw [if_neg (not_not.2 hfull)] at hnext ⊢
        exact ⟨by rw [hplace], lastBlock_writePointers hlist (by omega) hfresh hdisk (hblank rfl)
          hplace (fun pos h => (hmono pos h).1) hnext⟩
      · rw [if_neg hfull] at hplace
        rw [if_pos hfull] at hnext ⊢
        exact ⟨by rw [hplace], lastBlock_copyOut hlist (hfresh index (Nat.lt_succ_self index))
          hdisk (hblank rfl) hspec.1 hplace (fun pos h => (hmono pos h).2) hnext⟩

theorem blocksOf_cases {blockSize size : ℕ} (hB : 128 ≤ blockSize) (hsize : size < 2 ^ 32) :
    blocksOf blockSize size = (lfsCtzIndex blockSize size).1 ∨
      blocksOf blockSize size = (lfsCtzIndex blockSize size).1 + 1 := by
  unfold blocksOf
  cases size with
  | zero =>
    rw [if_pos rfl, lfsCtzIndex_zero hB]
    exact .inl rfl
  | succ last =>
    rw [if_neg (Nat.succ_ne_zero last), Nat.add_sub_cancel,
      lfsCtzIndex_succ hB hsize rfl]
    split_ifs
    · exact .inl rfl
    · exact .inr rfl

/-- A position of the file is in one of its blocks. -/
theorem index_lt_blocksOf {blockSize size pos : ℕ} (hB : 128 ≤ blockSize) (hsize : size < 2 ^ 32)
    (hpos : pos < size) : (lfsCtzIndex blockSize pos).1 < blocksOf blockSize size := by
  have hle := (lfsCtzIndex_mono hB (show pos ≤ size - 1 by omega) (by omega)).1
  unfold blocksOf
  rw [if_neg (by omega)]
  omega

/-- The blocks of a file with a new last one. -/
theorem CtzList.update {blockSize size nblock : ℕ} {disk disk' : ℕ → ℕ → Byte} {blk : ℕ → ℕ}
    (hB : 128 ≤ blockSize) (hsize : size < 2 ^ 32)
    (hlist : CtzList disk blk (blocksOf blockSize size))
    (hfresh : ∀ i < blocksOf blockSize size, blk i ≠ nblock) (hlt : nblock < 2 ^ 32)
    (hkept : ∀ i < blocksOf blockSize size, disk' (blk i) = disk (blk i))
    (hlast : LastBlock blockSize disk disk' blk size nblock) :
    CtzList disk' (Function.update blk (lfsCtzIndex blockSize size).1 nblock)
        ((lfsCtzIndex blockSize size).1 + 1) ∧
      ∀ pos < size, byteAt blockSize disk'
        (Function.update blk (lfsCtzIndex blockSize size).1 nblock) pos =
          byteAt blockSize disk blk pos := by
  have hblocks := blocksOf_cases hB hsize
  have hpointer := hlast.pointer
  have hcopied := hlast.copied
  have hmono := fun pos (h : pos ≤ size) => (lfsCtzIndex_mono hB h hsize).1
  generalize (lfsCtzIndex blockSize size).1 = last at *
  have hold (i : ℕ) (hi : i < last) : Function.update blk last nblock i = blk i :=
    Function.update_of_ne (by omega) _ _
  have hnew : Function.update blk last nblock last = nblock := Function.update_self _ _ _
  refine ⟨⟨fun i hi hpos k hk => ?_, fun i hi j hj heq => ?_, fun i hi => ?_⟩,
    fun pos hpos => ?_⟩
  · have hpow := Nat.two_pow_pos k
    rw [hold (i - 2 ^ k) (by omega)]
    rcases Nat.lt_succ_iff_lt_or_eq.1 hi with hi' | rfl
    · rw [hold i hi', hkept i (by omega)]
      exact hlist.pointer i (by omega) hpos k hk
    · rw [hnew]
      exact hpointer hpos k hk
  · rcases Nat.lt_succ_iff_lt_or_eq.1 hi with hi' | rfl
    · rw [hold i hi'] at heq
      rcases Nat.lt_succ_iff_lt_or_eq.1 hj with hj' | rfl
      · rw [hold j hj'] at heq
        exact hlist.inj i (by omega) j (by omega) heq
      · rw [hnew] at heq
        exact absurd heq (hfresh i (by omega))
    · rw [hnew] at heq
      rcases Nat.lt_succ_iff_lt_or_eq.1 hj with hj' | rfl
      · rw [hold j hj'] at heq
        exact absurd heq.symm (hfresh j (by omega))
      · rfl
  · rcases Nat.lt_succ_iff_lt_or_eq.1 hi with hi' | rfl
    · rw [hold i hi']
      exact hlist.lt i (by omega)
    · rwa [hnew]
  · have hle := hmono pos (by omega)
    have hmem := index_lt_blocksOf hB hsize hpos
    unfold byteAt
    by_cases heq : (lfsCtzIndex blockSize pos).1 = last
    · rw [← hcopied pos hpos heq, heq, hnew]
    · rw [hold _ (by omega), hkept _ hmem]

/-- After `lfs_ctz_extend` returns 0, whichever blocks were bad: the new block continues the file
    at the position behind its end, every byte in front of it is as before, the bytes from there
    on are erased, and only blocks from the allocator have changed. -/
theorem lfsCtzExtend_spec {blockSize head size nblock : ℕ} {blk : ℕ → ℕ} {allocErr : LfsErr}
    {nblocks : List ℕ} (hB : 128 ≤ blockSize) (hsize : size < 2 ^ 32)
    (hfile : CtzFile blockSize m.disk head size blk)
    (hfresh : ∀ b ∈ nblocks, b < 2 ^ 32 ∧ ∀ i < blocksOf blockSize size, blk i ≠ b)
    (hret : (lfsCtzExtend w blockSize head size allocErr nblocks m).1 = .ok (nblock, off)) :
    nblock ∈ nblocks ∧ off = (lfsCtzIndex blockSize size).2 ∧
      (∀ b, b ∉ nblocks →
        (lfsCtzExtend w blockSize head size allocErr nblocks m).2.disk b = m.disk b) ∧
      CtzList (lfsCtzExtend w blockSize head size allocErr nblocks m).2.disk
        (Function.update blk (lfsCtzIndex blockSize size).1 nblock)
        ((lfsCtzIndex blockSize size).1 + 1) ∧
      (∀ pos < size, byteAt blockSize
        (lfsCtzExtend w blockSize head size allocErr nblocks m).2.disk
        (Function.update blk (lfsCtzIndex blockSize size).1 nblock) pos =
          byteAt blockSize m.disk blk pos) ∧
      ∀ o, off ≤ o →
        (lfsCtzExtend w blockSize head size allocErr nblocks m).2.disk nblock o = 0xff := by
  induction nblocks generalizing m with
  | nil => cases hret
  | cons b nblocks ih =>
    obtain ⟨hlt, hne⟩ := hfresh b List.mem_cons_self
    have hother (c : ℕ) (hc : c ≠ b) :
        (extendInto w blockSize head size b m).1.2.disk c = m.disk c := extendInto_other hc
    have hinto := extendInto_spec w hB hsize hfile hne
    unfold lfsCtzExtend at hret ⊢
    generalize extendInto w blockSize head size b m = r at *
    obtain ⟨⟨jump, m'⟩, off'⟩ := r
    have hkept : ∀ i < blocksOf blockSize size, m'.disk (blk i) = m.disk (blk i) :=
      fun i hi => hother _ (hne i hi)
    cases jump with
    | fail err => cases hret
    | next =>
      cases hret
      obtain ⟨hoff, hlast⟩ := hinto rfl
      obtain ⟨hlist, hbytes⟩ := CtzList.update hB hsize hfile.list hne hlt hkept hlast
      refine ⟨List.mem_cons_self, hoff, fun c hc => hother c fun heq => hc ?_, hlist, hbytes,
        fun o ho => hlast.erased o (hoff ▸ ho)⟩
      exact heq ▸ List.mem_cons_self
    | relocate =>
      -- the block is left behind, and the file is as before
      have hfile' : CtzFile blockSize m'.disk head size blk := by
        refine ⟨⟨fun i hi hpos k hk => ?_, hfile.list.inj, hfile.list.lt⟩, hfile.head_eq⟩
        rw [hkept i hi]
        exact hfile.list.pointer i hi hpos k hk
      obtain ⟨hmem, hoff, hrest, hlist, hbytes, herased⟩ := ih hfile'
        (fun c hc => hfresh c (List.mem_cons_of_mem b hc)) hret
      refine ⟨List.mem_cons_of_mem b hmem, hoff, fun c hc => ?_, hlist, fun pos hpos => ?_,
        herased⟩
      · rw [hrest c fun hcon => hc (List.mem_cons_of_mem b hcon)]
        exact hother c fun heq => hc (heq ▸ List.mem_cons_self)
      · have hmem := index_lt_blocksOf hB hsize hpos
        rw [hbytes pos hpos]
        unfold byteAt
        rw [hkept _ hmem]

/-- A second block, behind a full first one. -/
theorem lfsCtzExtend_spec_second :
    CtzList (lfsCtzExtend noErrors 4096 5 4096 .noSpc [9] ⟨fun _ _ => 0, 0⟩).2.disk
      (Function.update (fun _ => 5) 1 9) 2 := by
  have hret : (lfsCtzExtend noErrors 4096 5 4096 .noSpc [9] ⟨fun _ _ => 0, 0⟩).1 = .ok (9, 4) := by
    decide
  have hB : 128 ≤ 4096 := by decide
  have hsize : 4096 < 2 ^ 32 := by decide
  have hlt : 5 < 2 ^ 32 := by decide
  refine (lfsCtzExtend_spec hB hsize
    ⟨⟨fun i hi hpos => ?_, fun i hi j hj _ => ?_, fun _ _ => hlt⟩, fun _ => rfl⟩
    (fun b hb => ?_) hret).2.2.2.1
  · have hone : blocksOf 4096 4096 = 1 := by decide
    omega
  · have hone : blocksOf 4096 4096 = 1 := by decide
    omega
  · rw [List.mem_singleton.1 hb]
    exact ⟨by decide, fun _ _ => by decide⟩

end

end Esp32Embroidery.Littlefs
