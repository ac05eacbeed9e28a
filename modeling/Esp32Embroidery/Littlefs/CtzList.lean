import Esp32Embroidery.Lib.Loop
import Esp32Embroidery.Littlefs.BlockRuns
import Esp32Embroidery.Littlefs.CtzIndex

/-!
# The blocks of a file (`littlefs/lfs.c`, lines 2656–2831)

The reads and programs are those of a disk, the one that the caches below stand for: which of
their reads return its bytes is the subject of `BlockRefine`. Every call may fail, and a program
or an erase that fails leaves anything in its block.

* `disk_media`: programs and erases through the caches change that disk as they do here.
* `lfsCtzFind_spec`: the place of a position is found, after at most twice as many reads as the
  distance of the blocks has binary digits.
* `lfsCtzTraverse_spec`: every block of the file is visited once.
-/

namespace Esp32Embroidery.Littlefs

open Esp32Embroidery.Lib

/-! ## Model -/

/-- Error codes. -/
inductive LfsErr
  | io
  | corrupt
  | noSpc
  deriving DecidableEq

/-- A disk with the number of calls so far. -/
structure Media where
  disk : ℕ → ℕ → Byte
  calls : ℕ

/-- What the calls return, by their number, and the bytes that a failing one leaves. -/
structure World where
  ret : ℕ → Option LfsErr
  junk : ℕ → ℕ → Byte

/-- `lfs_fromle32` of the four bytes from `off` on. -/
def lfsFromle32 (bytes : ℕ → Byte) (off : ℕ) : ℕ :=
  (bytes off).toNat + 2 ^ 8 * (bytes (off + 1)).toNat + 2 ^ 16 * (bytes (off + 2)).toNat +
    2 ^ 24 * (bytes (off + 3)).toNat

/-- `lfs_tole32`, byte by byte. -/
def lfsTole32 (n : ℕ) : List Byte :=
  [BitVec.ofNat 8 n, BitVec.ofNat 8 (n / 2 ^ 8), BitVec.ofNat 8 (n / 2 ^ 16),
    BitVec.ofNat 8 (n / 2 ^ 24)]

section

variable (w : World)

/-- A read: what it returns; the bytes are those of the disk. -/
def Media.read (m : Media) : Option LfsErr × Media :=
  (w.ret m.calls, { m with calls := m.calls + 1 })

/-- A program of the bytes from `off` on, which only clears bits. One that fails spoils the rest of
    the block. -/
def Media.prog (block off : ℕ) (bytes : List Byte) (m : Media) : Option LfsErr × Media :=
  let err := w.ret m.calls
  (err,
    { disk := fun b o =>
        if b = block ∧ off ≤ o then
          if err = none then m.disk b o &&& bytes[o - off]?.getD 0xff else w.junk m.calls o
        else m.disk b o
      calls := m.calls + 1 })

def Media.erase (block : ℕ) (m : Media) : Option LfsErr × Media :=
  let err := w.ret m.calls
  (err,
    { disk := fun b o =>
        if b = block then if err = none then 0xff else w.junk m.calls o else m.disk b o
      calls := m.calls + 1 })

/-- The locals of `lfs_ctz_find`. -/
structure FindState where
  current : ℕ
  head : ℕ
  media : Media
  err : Option LfsErr

/-- The loop of `lfs_ctz_find` (lines 2669–2683). -/
def findBody (target : ℕ) (s : FindState) : Option FindState :=
  if s.err ≠ none ∨ s.current ≤ target then none
  else
    let skip := min (lfsNpw2 (s.current - target + 1) - 1) (lfsCtz s.current)
    let r := s.media.read w
    some
      { current := if r.1 = none then s.current - 2 ^ skip else s.current
        head := lfsFromle32 (s.media.disk s.head) (4 * skip)
        media := r.2
        err := r.1 }

/-- `lfs_ctz_find` (lines 2656–2688); `none` for a loop that does not end, and no block for an
    empty file. -/
def lfsCtzFind (blockSize head size pos : ℕ) (m : Media) :
    Option (Except LfsErr (Option ℕ × ℕ) × Media) :=
  if size = 0 then some (.ok (none, 0), m)
  else
    let current := (lfsCtzIndex blockSize (size - 1)).1
    let target := lfsCtzIndex blockSize pos
    (runLoop (findBody w target.1) (current + 1) ⟨current, head, m, none⟩).map fun s =>
      match s.err with
      | some e => (.error e, s.media)
      | none => (.ok (some s.head, target.2), s.media)

/-- Where a piece of `lfs_ctz_extend` leads. -/
inductive Jump
  | next
  | relocate
  | fail (err : LfsErr)
  deriving DecidableEq

/-- What is done after a program or an erase (lines 2705–2710, 2736–2741, 2757–2762). -/
def Jump.of : Option LfsErr → Jump
  | none => .next
  | some .corrupt => .relocate
  | some err => .fail err

/-- `n` more bytes of an incomplete block, from `i` on (lines 2724–2742). -/
def copyOut (head nblock : ℕ) : (n i : ℕ) → Media → Jump × Media
  | 0, _, m => (.next, m)
  | n + 1, i, m =>
    match m.read w with
    | (some err, m) => (.fail err, m)
    | (none, m) =>
      match m.prog w nblock i [m.disk head i] with
      | (none, m) => copyOut head nblock n (i + 1) m
      | (some err, m) => (.of (some err), m)

/-- `n` more pointers, from `i` on (lines 2753–2773). -/
def writePointers (nblock : ℕ) : (n i nhead : ℕ) → Media → Jump × Media
  | 0, _, _, m => (.next, m)
  | n + 1, i, nhead, m =>
    match m.prog w nblock (4 * i) (lfsTole32 nhead) with
    | (some err, m) => (.of (some err), m)
    | (none, m) =>
      if n = 0 then (.next, m)
      else
        match m.read w with
        | (some err, m) => (.fail err, m)
        | (none, m) => writePointers nblock n (i + 1) (lfsFromle32 (m.disk nhead) (4 * i)) m

/-- What is done with an allocated block (lines 2703–2778), and `*off`. -/
def extendInto (blockSize head size nblock : ℕ) (m : Media) : (Jump × Media) × ℕ :=
  match m.erase w nblock with
  | (some err, m) => ((.of (some err), m), 0)
  | (none, m) =>
    if size = 0 then ((.next, m), 0)
    else
      let index := (lfsCtzIndex blockSize (size - 1)).1
      let noff := (lfsCtzIndex blockSize (size - 1)).2 + 1
      if noff ≠ blockSize then (copyOut w head nblock noff 0 m, noff)
      else
        let skips := lfsCtz (index + 1) + 1
        (writePointers w nblock skips 0 head m, 4 * skips)

/-- `lfs_ctz_extend` (lines 2691–2788): the block and the offset. The blocks are those that
    `lfs_alloc` gives, until it returns an error. -/
def lfsCtzExtend (blockSize head size : ℕ) (allocErr : LfsErr) :
    List ℕ → Media → Except LfsErr (ℕ × ℕ) × Media
  | [], m => (.error allocErr, m)
  | nblock :: nblocks, m =>
    match extendInto w blockSize head size nblock m with
    | ((.next, m), off) => (.ok (nblock, off), m)
    | ((.relocate, m), _) => lfsCtzExtend blockSize head size allocErr nblocks m
    | ((.fail err, m), _) => (.error err, m)

/-- The loop of `lfs_ctz_traverse` (lines 2802–2830) with a callback on a state. -/
def traverseLoop {σ : Type*} (cb : σ → ℕ → Except LfsErr σ) (data : σ) (head index : ℕ)
    (m : Media) : Except LfsErr σ × Media :=
  match cb data head with
  | .error err => (.error err, m)
  | .ok data =>
    if index = 0 then (.ok data, m)
    else
      match m.read w with
      | (some err, m) => (.error err, m)
      | (none, m) =>
        if index % 2 = 1 then
          traverseLoop cb data (lfsFromle32 (m.disk head) 0) (index - 1) m
        else
          match cb data (lfsFromle32 (m.disk head) 0) with
          | .error err => (.error err, m)
          | .ok data => traverseLoop cb data (lfsFromle32 (m.disk head) 4) (index - 2) m
termination_by index

/-- `lfs_ctz_traverse` (lines 2790–2831). -/
def lfsCtzTraverse {σ : Type*} (cb : σ → ℕ → Except LfsErr σ) (data : σ)
    (blockSize head size : ℕ) (m : Media) : Except LfsErr σ × Media :=
  if size = 0 then (.ok data, m)
  else traverseLoop w cb data head (lfsCtzIndex blockSize (size - 1)).1 m

end

/-! ## The disk of the caches -/

/-- What a call of the caches does to the disk. -/
def Media.exec (w : World) (m : Media) : Op → Media
  | .read .. => (m.read w).2
  | .prog _ block off data size => (m.prog w block off (List.ofFn fun k : Fin size => data k)).2
  | .erase block => (m.erase w block).2
  | .flush _ | .sync _ => m

section

variable {w : World} {cfg : Config} {faults : Faults} {flash : ℕ → ℕ → Byte}
  {pcache rcache : Cache}

/-- A program of erased bytes stores them. -/
theorem disk_prog {m : Media} {s : Sys} {validate : Bool} {block off : ℕ} {data : ℕ → Byte}
    {size : ℕ} (hok : w.ret m.calls = none) (hdisk : m.disk = s.disk)
    (hcareful : (Op.prog validate block off data size).Careful cfg s) :
    (m.exec w (.prog validate block off data size)).disk = stored s.disk block off data size := by
  have hstart : s.bd.progStart cfg block off ≤ off := by
    unfold Bd.progStart
    split_ifs
    · exact Nat.min_le_left _ _
    · exact lfsAligndown_le
  funext b o
  show (if b = block ∧ off ≤ o then _ else m.disk b o) = stored s.disk block off data size b o
  rw [hok, if_pos rfl, hdisk]
  unfold stored copyTo
  by_cases hb : b = block
  · subst hb
    rw [if_pos rfl]
    by_cases hlo : off ≤ o
    · rw [if_pos ⟨rfl, hlo⟩]
      by_cases hhi : o < off + size
      · have hget : (List.ofFn fun k : Fin size => data k)[o - off]? = some (data (o - off)) := by
          rw [List.getElem?_ofFn, dif_pos (by omega)]
        have hones (x : Byte) : 0xff &&& x = x := BitVec.allOnes_and
        rw [if_pos ⟨hlo, hhi⟩, hcareful o (hstart.trans hlo) hhi, hget]
        exact hones _
      · have hget : (List.ofFn fun k : Fin size => data k)[o - off]? = none := by
          rw [List.getElem?_ofFn, dif_neg (by omega)]
        have hones (x : Byte) : x &&& 0xff = x := BitVec.and_allOnes
        rw [if_neg fun h => hhi h.2, hget]
        exact hones _
    · rw [if_neg fun h => hlo h.2, if_neg fun h => hlo h.1]
  · rw [if_neg fun h => hb h.1, if_neg hb]

theorem disk_exec {m : Media} {s : Sys} {op : Op} (hok : w.ret m.calls = none)
    (hdisk : m.disk = s.disk) (hcareful : op.Careful cfg s) :
    (m.exec w op).disk = diskAfter s.disk op := by
  cases op with
  | prog validate block off data size => exact disk_prog hok hdisk hcareful
  | erase block =>
    funext b o
    show (if b = block then _ else m.disk b o) = if b = block then 0xff else s.disk b o
    rw [hok, if_pos rfl, hdisk]
  | read | flush | sync => exact hdisk

/-- After any calls of the caches that are made as they should, their disk is the one that the
    same calls make here. -/
theorem disk_media {ops : List Op} {m : Media} {s t : Sys} (hok : ∀ n, w.ret n = none)
    (hdisk : m.disk = s.disk)
    (hcareful : (blockMachine cfg faults flash pcache rcache).Along
      (fun s op _ => op.Careful cfg s) s ops)
    (hrun : (blockMachine cfg faults flash pcache rcache).run s ops = some t) :
    (ops.foldl (Media.exec w) m).disk = t.disk := by
  induction ops generalizing m s with
  | nil =>
    cases hrun
    exact hdisk
  | cons op ops ih =>
    obtain ⟨s', hstep, hop, hrest⟩ := Machine.along_cons.1 hcareful
    rw [Machine.run_cons, hstep] at hrun
    refine ih ?_ hrest hrun
    rw [step_eq hstep]
    exact disk_exec (hok _) hdisk hop

end

/-! ## Files -/

/-- The blocks `blk 0`, …, `blk (n - 1)` with the pointers in them. -/
structure CtzList (disk : ℕ → ℕ → Byte) (blk : ℕ → ℕ) (n : ℕ) : Prop where
  pointer : ∀ i < n, 0 < i → ∀ k ≤ lfsCtz i, lfsFromle32 (disk (blk i)) (4 * k) = blk (i - 2 ^ k)
  inj : ∀ i < n, ∀ j < n, blk i = blk j → i = j
  lt : ∀ i < n, blk i < 2 ^ 32

/-- The byte at a position. -/
def byteAt (blockSize : ℕ) (disk : ℕ → ℕ → Byte) (blk : ℕ → ℕ) (pos : ℕ) : Byte :=
  disk (blk (lfsCtzIndex blockSize pos).1) (lfsCtzIndex blockSize pos).2

/-- A device without errors. -/
def noErrors : World := ⟨fun _ => none, fun _ _ => 0⟩

/-- A disk with a file in the blocks 5 and 7. -/
def fiveSeven : Media := ⟨fun b o => if b = 7 ∧ o = 0 then 5 else 0, 0⟩

theorem ctzList_fiveSeven : CtzList fiveSeven.disk (fun i => if i = 0 then 5 else 7) 2 := by
  refine ⟨fun i hi hpos k hk => ?_, fun i hi j hj heq => ?_, fun i _ => ?_⟩
  · obtain rfl : i = 1 := by omega
    have hctz : lfsCtz 1 = 0 := by decide
    obtain rfl : k = 0 := by omega
    decide
  · split_ifs at heq
    all_goals omega
  · split_ifs
    all_goals decide

/-! ## Finding a block -/

section

variable {w : World} {disk : ℕ → ℕ → Byte} {blk : ℕ → ℕ} {n i target : ℕ}

theorem le_lfsCtz_iff {k : ℕ} (hi : i ≠ 0) (h : i < 2 ^ 32) : k ≤ lfsCtz i ↔ 2 ^ k ∣ i := by
  rw [lfsCtz_eq hi h, padicValNat_dvd_iff_le hi]

theorem lfsNpw2_succ (d : ℕ) : lfsNpw2 (d + 1) - 1 = Nat.size d - 1 := by
  unfold lfsNpw2
  rw [Nat.add_sub_cancel]

/-- How many reads are left. At first the pointers of the block are short, and longer from block
    to block; then every read takes the highest digit from the distance. -/
def readsLeft (target bound i : ℕ) : ℕ :=
  if 2 ^ (Nat.size (i - target) - 1) ∣ i then Nat.size (i - target)
  else 2 * bound - lfsCtz i

/-- The pointer that is followed does not lead past the target. -/
theorem skip_spec (htarget : target < i) (h : i < 2 ^ 32) {bound : ℕ}
    (hbound : Nat.size (i - target) ≤ bound) :
    ∃ skip, skip = min (lfsNpw2 (i - target + 1) - 1) (lfsCtz i) ∧ skip ≤ lfsCtz i ∧
      target ≤ i - 2 ^ skip ∧ 0 < 2 ^ skip ∧
      readsLeft target bound (i - 2 ^ skip) < readsLeft target bound i := by
  have hi : i ≠ 0 := by omega
  have hd : 0 < i - target := Nat.sub_pos_of_lt htarget
  have hle := two_pow_size_le hd
  have hctz := le_lfsCtz_iff (k := Nat.size (i - target) - 1) hi h
  rw [lfsNpw2_succ]
  refine ⟨_, rfl, min_le_right _ _, ?_⟩
  by_cases hphase : 2 ^ (Nat.size (i - target) - 1) ∣ i
  · -- the pointer over the highest digit is there
    rw [min_eq_left (hctz.2 hphase)]
    have hsize := size_sub_lt hd
    have hrest : i - 2 ^ (Nat.size (i - target) - 1) - target =
        i - target - 2 ^ (Nat.size (i - target) - 1) := by omega
    have hdvd : 2 ^ (Nat.size (i - target - 2 ^ (Nat.size (i - target) - 1)) - 1) ∣
        i - 2 ^ (Nat.size (i - target) - 1) :=
      Nat.dvd_sub ((pow_dvd_pow 2 (by omega)).trans hphase) (pow_dvd_pow 2 (by omega))
    refine ⟨by omega, Nat.two_pow_pos _, ?_⟩
    unfold readsLeft
    rw [if_pos hphase, hrest, if_pos hdvd]
    exact hsize
  · have hlt : lfsCtz i < Nat.size (i - target) - 1 := by
      rw [← Nat.not_le]
      exact fun hcon => hphase (hctz.1 hcon)
    rw [min_eq_right hlt.le]
    have hpow : 2 ^ lfsCtz i ≤ 2 ^ (Nat.size (i - target) - 1) :=
      Nat.pow_le_pow_right (by omega) hlt.le
    have hmore : 2 ^ (lfsCtz i + 1) ∣ i - 2 ^ lfsCtz i := by
      rw [lfsCtz_eq hi h]
      exact two_pow_succ_dvd_sub hi
    refine ⟨by omega, Nat.two_pow_pos _, ?_⟩
    have hsize : Nat.size (i - 2 ^ lfsCtz i - target) ≤ Nat.size (i - target) :=
      Nat.size_le_size (by omega)
    unfold readsLeft
    rw [if_neg hphase]
    split_ifs with hphase'
    · omega
    · have hne : i - 2 ^ lfsCtz i ≠ 0 := by
        intro hzero
        exact hphase' (by rw [hzero]; exact dvd_zero _)
      have hctz' := (le_lfsCtz_iff hne (by omega)).2 hmore
      omega

/-- The block at hand, and the reads that are left of those that were planned. -/
structure FindInv (w : World) (disk : ℕ → ℕ → Byte) (blk : ℕ → ℕ) (n target bound calls : ℕ)
    (s : FindState) : Prop where
  disk_eq : s.media.disk = disk
  lt : s.current < n
  le : target ≤ s.current
  head_eq : s.err = none → s.head = blk s.current
  err : ∀ e, s.err = some e → ∃ k, w.ret k = some e
  size_le : Nat.size (s.current - target) ≤ bound
  calls_le : s.media.calls + (if s.err = none then readsLeft target bound s.current else 0) ≤ calls

theorem findBody_step {bound calls : ℕ} (hlist : CtzList disk blk n) (hn : n ≤ 2 ^ 32)
    (s t : FindState) (h : FindInv w disk blk n target bound calls s)
    (hbody : findBody w target s = some t) :
    FindInv w disk blk n target bound calls t ∧
      (if t.err = none then t.current - target else 0) <
        (if s.err = none then s.current - target else 0) := by
  unfold findBody at hbody
  split_ifs at hbody with hstop
  push Not at hstop
  obtain ⟨hok, hlt⟩ := hstop
  cases hbody
  have hcur := h.lt
  obtain ⟨skip, hskip, hctz, hle, hpos, hless⟩ := skip_spec hlt (by omega) h.size_le
  have hcalls := h.calls_le
  rw [if_pos hok] at hcalls ⊢
  dsimp only [Media.read]
  rw [← hskip]
  by_cases hret : w.ret s.media.calls = none
  · simp only [hret, if_true]
    refine ⟨⟨h.disk_eq, by dsimp only; omega, hle, fun _ => ?_, fun e he => ⟨_, hret ▸ he⟩, ?_, ?_⟩,
      by omega⟩
    · rw [h.disk_eq, h.head_eq hok]
      exact hlist.pointer _ hcur (by omega) skip hctz
    · exact (Nat.size_le_size (by dsimp only; omega)).trans h.size_le
    · dsimp only
      rw [if_pos rfl]
      omega
  · simp only [hret, if_false]
    refine ⟨⟨h.disk_eq, hcur, h.le, fun herr => absurd herr hret,
      fun e he => ⟨_, he⟩, h.size_le, ?_⟩, by omega⟩
    dsimp only
    rw [if_neg hret]
    omega

/-- `lfs_ctz_find` ends, and reads few pointers; without an error of the device it has found the
    block and the offset of the position. -/
theorem lfsCtzFind_spec {blockSize head size pos : ℕ} {m : Media} (hlist : CtzList m.disk blk n)
    (hn : n ≤ 2 ^ 32) (hsize : 0 < size) (hindex : (lfsCtzIndex blockSize (size - 1)).1 < n)
    (hhead : head = blk (lfsCtzIndex blockSize (size - 1)).1)
    (hpos : (lfsCtzIndex blockSize pos).1 ≤ (lfsCtzIndex blockSize (size - 1)).1) :
    ∃ r m', lfsCtzFind w blockSize head size pos m = some (r, m') ∧ m'.disk = m.disk ∧
      m'.calls ≤ m.calls + 2 * Nat.size ((lfsCtzIndex blockSize (size - 1)).1 -
        (lfsCtzIndex blockSize pos).1) ∧
      (r = .ok (some (blk (lfsCtzIndex blockSize pos).1), (lfsCtzIndex blockSize pos).2) ∨
        ∃ e, r = .error e ∧ ∃ k, w.ret k = some e) := by
  have hstart : FindInv w m.disk blk n (lfsCtzIndex blockSize pos).1
      (Nat.size ((lfsCtzIndex blockSize (size - 1)).1 - (lfsCtzIndex blockSize pos).1))
      (m.calls + 2 * Nat.size ((lfsCtzIndex blockSize (size - 1)).1 -
        (lfsCtzIndex blockSize pos).1))
      ⟨(lfsCtzIndex blockSize (size - 1)).1, head, m, none⟩ := by
    refine ⟨rfl, hindex, hpos, fun _ => hhead, (fun e he => nomatch he), le_rfl, ?_⟩
    dsimp only
    rw [if_pos rfl]
    unfold readsLeft
    split_ifs
    all_goals omega
  have hfuel : (if (none : Option LfsErr) = none then
      (lfsCtzIndex blockSize (size - 1)).1 - (lfsCtzIndex blockSize pos).1 else 0) <
        (lfsCtzIndex blockSize (size - 1)).1 + 1 := by
    rw [if_pos rfl]
    omega
  obtain ⟨t, hrun, ht, hdone⟩ := runLoop_spec
    (fun s : FindState => if s.err = none then s.current - (lfsCtzIndex blockSize pos).1 else 0)
    (fun s t hs hbody => findBody_step hlist hn s t hs hbody) hstart hfuel
  unfold lfsCtzFind
  rw [if_neg (by omega)]
  dsimp only
  rw [hrun]
  have hcalls := ht.calls_le
  rw [Option.map_some]
  cases herr : t.err with
  | some e =>
    exact ⟨_, t.media, rfl, ht.disk_eq, by omega, .inr ⟨e, rfl, ht.err e herr⟩⟩
  | none =>
    refine ⟨_, t.media, rfl, ht.disk_eq, by omega, .inl ?_⟩
    have hle := ht.le
    have htarget : t.current = (lfsCtzIndex blockSize pos).1 := by
      by_contra hne
      unfold findBody at hdone
      rw [if_neg (by rintro (hcon | hcon); exacts [hcon herr, by omega])] at hdone
      cases hdone
    rw [ht.head_eq herr, htarget]

/-- From the second block to the first one, by at most two pointers. -/
theorem lfsCtzFind_spec_hundred :
    ∃ r m', lfsCtzFind noErrors 4096 7 5000 100 fiveSeven = some (r, m') ∧
      m'.disk = fiveSeven.disk ∧ m'.calls ≤ 2 ∧
      (r = .ok (some 5, 100) ∨ ∃ e, r = .error e ∧ ∃ k, noErrors.ret k = some e) :=
  lfsCtzFind_spec ctzList_fiveSeven (by decide) (by decide) (by decide) rfl (by decide)

/-! ## Visiting the blocks -/

/-- The blocks from the last one to the first one. -/
def fileBlocks (blk : ℕ → ℕ) : (index : ℕ) → List ℕ
  | 0 => [blk 0]
  | index + 1 => blk (index + 1) :: fileBlocks blk index

theorem mem_fileBlocks {index b : ℕ} : b ∈ fileBlocks blk index ↔ ∃ i ≤ index, blk i = b := by
  induction index with
  | zero => simp [fileBlocks, eq_comm]
  | succ index ih =>
    rw [fileBlocks, List.mem_cons, ih]
    constructor
    · rintro (rfl | ⟨i, hi, rfl⟩)
      · exact ⟨_, le_rfl, rfl⟩
      · exact ⟨i, by omega, rfl⟩
    · rintro ⟨i, hi, rfl⟩
      rcases Nat.le_succ_iff.1 hi with hi | rfl
      · exact .inr ⟨i, hi, rfl⟩
      · exact .inl rfl

theorem CtzList.nodup (h : CtzList disk blk n) {index : ℕ} (hindex : index < n) :
    (fileBlocks blk index).Nodup := by
  induction index with
  | zero => exact List.nodup_singleton _
  | succ index ih =>
    refine List.nodup_cons.2 ⟨fun hmem => ?_, ih (by omega)⟩
    obtain ⟨i, hi, heq⟩ := mem_fileBlocks.1 hmem
    have hsame := h.inj i (by omega) _ hindex heq
    omega

theorem traverseLoop_spec {σ : Type*} {cb : σ → ℕ → Except LfsErr σ} (hn : n ≤ 2 ^ 32)
    {index : ℕ} (hindex : index < n) {data : σ} {m : Media} (hlist : CtzList m.disk blk n) :
    (traverseLoop w cb data (blk index) index m).2.disk = m.disk ∧
      ((traverseLoop w cb data (blk index) index m).1 = (fileBlocks blk index).foldlM cb data ∨
        ∃ e k, (traverseLoop w cb data (blk index) index m).1 = .error e ∧ w.ret k = some e) := by
  induction index using Nat.strongRecOn generalizing data m with
  | ind index ih =>
    have hblocks : ∃ rest, fileBlocks blk index = blk index :: rest := by
      cases index with
      | zero => exact ⟨[], rfl⟩
      | succ index => exact ⟨_, rfl⟩
    obtain ⟨rest, hrest⟩ := hblocks
    rw [traverseLoop, hrest, List.foldlM_cons]
    cases hcb : cb data (blk index) with
    | error err => exact ⟨rfl, .inl rfl⟩
    | ok data' =>
      dsimp only [Media.read]
      cases index with
      | zero =>
        cases hrest
        exact ⟨rfl, .inl rfl⟩
      | succ k =>
        rw [fileBlocks, List.cons.injEq] at hrest
        obtain ⟨-, rfl⟩ := hrest
        rw [if_neg (Nat.succ_ne_zero k)]
        cases hret : w.ret m.calls with
        | some err => exact ⟨rfl, .inr ⟨err, _, rfl, hret⟩⟩
        | none =>
          have hfirst := hlist.pointer (k + 1) hindex (Nat.succ_pos k) 0 (Nat.zero_le _)
          change lfsFromle32 (m.disk (blk (k + 1))) 0 = blk k at hfirst
          dsimp only
          rw [hfirst]
          split_ifs with hodd
          · exact @ih k (Nat.lt_succ_self k) (by omega) data' ⟨m.disk, m.calls + 1⟩ hlist
          · obtain ⟨j, rfl⟩ : ∃ j, k = j + 1 := ⟨k - 1, by omega⟩
            have hdvd : 2 ^ 1 ∣ j + 1 + 1 := by omega
            have hsecond := hlist.pointer (j + 1 + 1) hindex (Nat.succ_pos _) 1
              ((le_lfsCtz_iff (Nat.succ_ne_zero _) (by omega)).2 hdvd)
            change lfsFromle32 (m.disk (blk (j + 1 + 1))) 4 = blk j at hsecond
            have hbind : ((.ok data' : Except LfsErr σ) >>= fun data =>
                (fileBlocks blk (j + 1)).foldlM cb data) =
                cb data' (blk (j + 1)) >>= fun data => (fileBlocks blk j).foldlM cb data := by
              change (blk (j + 1) :: fileBlocks blk j).foldlM cb data' = _
              exact List.foldlM_cons
            rw [hsecond, hbind]
            cases hcb' : cb data' (blk (j + 1)) with
            | error err => exact ⟨rfl, .inl rfl⟩
            | ok data'' => exact @ih j (by omega) (by omega) data'' ⟨m.disk, m.calls + 1⟩ hlist

variable (w) in
/-- The callback sees every block of the file once, from the last one to the first one, unless it
    or the device returns an error. -/
theorem lfsCtzTraverse_spec {σ : Type*} (cb : σ → ℕ → Except LfsErr σ) (data : σ)
    {blockSize size : ℕ} {m : Media} (hn : n ≤ 2 ^ 32) (hlist : CtzList m.disk blk n)
    (hsize : 0 < size) (hindex : (lfsCtzIndex blockSize (size - 1)).1 < n) :
    (fileBlocks blk (lfsCtzIndex blockSize (size - 1)).1).Nodup ∧
      (lfsCtzTraverse w cb data blockSize (blk (lfsCtzIndex blockSize (size - 1)).1) size m).2.disk =
        m.disk ∧
      ((lfsCtzTraverse w cb data blockSize (blk (lfsCtzIndex blockSize (size - 1)).1) size m).1 =
          (fileBlocks blk (lfsCtzIndex blockSize (size - 1)).1).foldlM cb data ∨
        ∃ e k, (lfsCtzTraverse w cb data blockSize (blk (lfsCtzIndex blockSize (size - 1)).1) size
          m).1 = .error e ∧ w.ret k = some e) := by
  unfold lfsCtzTraverse
  rw [if_neg (by omega)]
  exact ⟨hlist.nodup hindex, traverseLoop_spec hn hindex hlist⟩

theorem lfsCtzTraverse_spec_collect :
    (lfsCtzTraverse noErrors (fun (l : List ℕ) b => .ok (b :: l)) [] 4096 7 5000 fiveSeven).1 =
      .ok [5, 7] := by
  have hsize : 0 < 5000 := by decide
  have hindex : (lfsCtzIndex 4096 (5000 - 1)).1 < 2 := by decide
  rcases (lfsCtzTraverse_spec noErrors (fun (l : List ℕ) b => .ok (b :: l)) [] (by decide)
    ctzList_fiveSeven hsize hindex).2.2 with h | ⟨e, k, -, hk⟩
  · exact h
  · cases hk

end

end Esp32Embroidery.Littlefs
