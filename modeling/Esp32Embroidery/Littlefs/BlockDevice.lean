import Esp32Embroidery.Lib.Loop
import Mathlib.Algebra.Order.Ring.Nat
import Mathlib.Tactic.Common

/-!
# The block device below littlefs (`littlefs/lfs.c`, lines 28–258)

`lfs_bd_read` copies bytes of a block from the program cache, the read cache or the device.
`lfs_bd_prog` collects bytes in the program cache, and `lfs_bd_flush` programs them. The device
is the flash of `littlefs_hal.c`: programming only clears bits, and any of its calls may fail.

* `lt_lfsAligndown`, `le_lfsAlignup`, `lfsAlignup_le`: what aligning does to an offset.
-/

namespace Esp32Embroidery.Littlefs

open Esp32Embroidery.Lib

abbrev Byte := BitVec 8

/-! ## Model -/

/-- The sizes of `struct lfs_config` with what `lfs_init` asserts of them (lines 3912–3920). That
    programs are as coarse as reads, and the bound, hold for the sizes of `littlefs_hal.c`. -/
structure Config where
  readSize : ℕ
  progSize : ℕ
  blockSize : ℕ
  blockCount : ℕ
  cacheSize : ℕ
  readSize_pos : 0 < readSize
  progSize_pos : 0 < progSize
  cacheSize_pos : 0 < cacheSize
  blockSize_pos : 0 < blockSize
  progSize_dvd_cacheSize : progSize ∣ cacheSize
  cacheSize_dvd_blockSize : cacheSize ∣ blockSize
  readSize_dvd_progSize : readSize ∣ progSize
  blockSize_lt : blockSize < 2 ^ 30

/-- `esp32_littlefs_hal` (littlefs_hal.c, line 91) on a partition of `blockCount` blocks. -/
def esp32LittlefsHal (blockCount : ℕ) : Config where
  readSize := 128
  progSize := 128
  blockSize := 4096
  blockCount := blockCount
  cacheSize := 512
  readSize_pos := by decide
  progSize_pos := by decide
  cacheSize_pos := by decide
  blockSize_pos := by decide
  progSize_dvd_cacheSize := by decide
  cacheSize_dvd_blockSize := by decide
  readSize_dvd_progSize := by decide
  blockSize_lt := by decide

/-- `lfs_aligndown` (lfs_util.h, line 119). -/
def lfsAligndown (a alignment : ℕ) : ℕ := a - a % alignment

/-- `lfs_alignup` (line 123). -/
def lfsAlignup (a alignment : ℕ) : ℕ := lfsAligndown ((a + alignment - 1) % 2 ^ 32) alignment

/-- `lfs_cache_t` (lfs.h, line 330); `none` is `LFS_BLOCK_NULL`. -/
structure Cache where
  block : Option ℕ
  off : ℕ
  size : ℕ
  buffer : ℕ → Byte

/-- The calls of `lfs_config`. -/
inductive Call
  | read (block off size : ℕ)
  | prog (block off size : ℕ)
  | erase (block : ℕ)
  | sync
  deriving DecidableEq

/-- Which calls of the device fail, by their number, and what a failing call does. -/
structure Faults where
  fails : ℕ → Bool
  junk : ℕ → ℕ → Byte

/-- A device that does what it is told. -/
def noFaults : Faults := ⟨fun _ => false, fun _ _ => 0⟩

/-- The device, the two caches, and the calls so far, newest first. -/
structure Bd where
  flash : ℕ → ℕ → Byte
  pcache : Cache
  rcache : Cache
  calls : List Call

/-- What a function returns; `assertion` is a false `LFS_ASSERT`, and `hangs` no return at all. -/
inductive Ret
  | ok
  | io
  | corrupt
  | assertion
  | hangs
  deriving DecidableEq

/-- The `n` bytes of `src` from `start` on. -/
def copyTo (dst : ℕ → Byte) (start : ℕ) (src : ℕ → Byte) (n : ℕ) : ℕ → Byte :=
  fun i => if start ≤ i ∧ i < start + n then src (i - start) else dst i

/-- `lfs_cache_drop` (line 31). -/
def Cache.drop (c : Cache) : Cache := { c with block := none }

/-- `lfs_cache_zero` (line 38). -/
def Cache.zero (cfg : Config) (c : Cache) : Cache :=
  { c with block := none, buffer := copyTo c.buffer 0 (fun _ => 0xff) cfg.cacheSize }

/-- The conditions of `lfs_bd_read` on a cache (lines 57–72 and 74–89): the rest of its bytes
    from `off` on, or how far ahead it begins. -/
inductive Lookup
  | hit (start len : ℕ)
  | ahead (len : ℕ)
  | miss

def Cache.lookup (c : Cache) (block off : ℕ) : Lookup :=
  if c.block = some block ∧ off < c.off + c.size then
    if c.off ≤ off then .hit (off - c.off) (c.size - (off - c.off)) else .ahead (c.off - off)
  else .miss

/-- The locals of `lfs_bd_read`; `pos` bytes have been copied to `data`. -/
structure ReadState where
  bd : Bd
  off : ℕ
  size : ℕ
  pos : ℕ
  data : ℕ → Byte
  ret : Ret

/-- `memcpy(data, …, diff); data += diff; off += diff; size -= diff;`. -/
def ReadState.take (s : ReadState) (src : ℕ → Byte) (diff : ℕ) : ReadState :=
  { s with
    off := s.off + diff
    size := s.size - diff
    pos := s.pos + diff
    data := copyTo s.data s.pos src diff }

section

variable (cfg : Config) (faults : Faults)

/-- Lines 92–104. -/
def ReadState.bypass (block diff : ℕ) (s : ReadState) : ReadState :=
  let bd := { s.bd with calls := .read block s.off diff :: s.bd.calls }
  let n := s.bd.calls.length
  if faults.fails n then
    { s with bd := bd, data := copyTo s.data s.pos (faults.junk n) diff, ret := .io }
  else { s.take (fun k => s.bd.flash block (s.off + k)) diff with bd := bd }

/-- Lines 106–121. The cache is the block's already when the device is asked. -/
def ReadState.load (hint block : ℕ) (s : ReadState) : ReadState :=
  let off := lfsAligndown s.off cfg.readSize
  let size := min (min (lfsAlignup ((s.off + hint) % 2 ^ 32) cfg.readSize) cfg.blockSize - off)
    cfg.cacheSize
  let n := s.bd.calls.length
  let src := if faults.fails n then faults.junk n else fun k => s.bd.flash block (off + k)
  let rcache := ⟨some block, off, size, copyTo s.bd.rcache.buffer 0 src size⟩
  { s with
    bd := { s.bd with rcache := rcache, calls := .read block off size :: s.bd.calls }
    ret := if faults.fails n then .io else .ok }

/-- Lines 91–121. -/
def ReadState.fromDevice (hint block diff : ℕ) (s : ReadState) : ReadState :=
  if hint ≤ s.size ∧ s.off % cfg.readSize = 0 ∧ cfg.readSize ≤ s.size then
    s.bypass faults block (lfsAligndown diff cfg.readSize)
  else s.load cfg faults hint block

/-- Lines 74–121. -/
def ReadState.pastPcache (hint block diff : ℕ) (s : ReadState) : ReadState :=
  match s.bd.rcache.lookup block s.off with
  | .hit start len => s.take (fun k => s.bd.rcache.buffer (start + k)) (min diff len)
  | .ahead len => s.fromDevice cfg faults hint block (min diff len)
  | .miss => s.fromDevice cfg faults hint block diff

/-- The loop of `lfs_bd_read` (lines 54–122). -/
def readBody (usePcache : Bool) (hint block : ℕ) (s : ReadState) : Option ReadState :=
  if s.ret ≠ .ok ∨ s.size = 0 then none
  else
    match if usePcache then s.bd.pcache.lookup block s.off else .miss with
    | .hit start len =>
      some (s.take (fun k => s.bd.pcache.buffer (start + k)) (min s.size len))
    | .ahead len => some (s.pastPcache cfg faults hint block (min s.size len))
    | .miss => some (s.pastPcache cfg faults hint block s.size)

/-- `lfs_bd_read` (lines 44–125) with a buffer that holds `data`; `usePcache` is that `pcache`
    is not `NULL`. -/
def lfsBdRead (usePcache : Bool) (hint block off : ℕ) (data : ℕ → Byte) (size : ℕ) (bd : Bd) :
    Ret × (ℕ → Byte) × Bd :=
  if cfg.blockCount ≤ block ∨ cfg.blockSize < (off + size) % 2 ^ 32 then (.corrupt, data, bd)
  else
    match runLoop (readBody cfg faults usePcache hint block) (2 * size + 2)
        ⟨bd, off, size, 0, data, .ok⟩ with
    | none => (.hangs, data, bd)
    | some s => (s.ret, s.data, s.bd)

/-- What `lfs_bd_cmp` returns. -/
inductive Cmp
  | eq
  | lt
  | gt
  | err (ret : Ret)
  deriving DecidableEq

/-- `memcmp` of `n` bytes. -/
def memcmp (a b : ℕ → Byte) : ℕ → Cmp
  | 0 => .eq
  | n + 1 =>
    if a 0 = b 0 then memcmp (fun k => a (k + 1)) (fun k => b (k + 1)) n
    else if a 0 < b 0 then .lt else .gt

/-- The loop of `lfs_bd_cmp` (lines 134–149) from `i` on, over `fuel` pieces of at most 8 bytes.
    The buffer `dat` has arbitrary contents. -/
def cmpLoop (usePcache : Bool) (hint block off : ℕ) (buffer dat : ℕ → Byte) (size : ℕ) :
    (fuel i : ℕ) → Bd → Cmp × Bd
  | 0, _, bd => (.eq, bd)
  | fuel + 1, i, bd =>
    if i < size then
      let diff := min (size - i) 8
      match lfsBdRead cfg faults usePcache (hint - i) block (off + i) dat diff bd with
      | (.ok, dat, bd) =>
        match memcmp dat (fun k => buffer (i + k)) diff with
        | .eq => cmpLoop usePcache hint block off buffer dat size fuel (i + diff) bd
        | res => (res, bd)
      | (ret, _, bd) => (.err ret, bd)
    else (.eq, bd)

/-- `lfs_bd_cmp` (lines 127–152). -/
def lfsBdCmp (usePcache : Bool) (hint block off : ℕ) (buffer : ℕ → Byte) (size : ℕ) (bd : Bd) :
    Cmp × Bd :=
  cmpLoop cfg faults usePcache hint block off buffer (fun _ => 0) size size 0 bd

/-- `littlefs_api_prog` (littlefs_hal.c, line 59). A failing call may leave bits set. -/
def Bd.program (block off : ℕ) (src : ℕ → Byte) (size : ℕ) (bd : Bd) : Ret × Bd :=
  let n := bd.calls.length
  let src := if faults.fails n then fun k => src k ||| faults.junk n k else src
  (if faults.fails n then .io else .ok,
    { bd with
      flash := fun b o =>
        if b = block ∧ off ≤ o ∧ o < off + size then bd.flash b o &&& src (o - off)
        else bd.flash b o
      calls := .prog block off size :: bd.calls })

/-- `lfs_bd_flush` (lines 155–186). -/
def lfsBdFlush (validate : Bool) (bd : Bd) : Ret × Bd :=
  match bd.pcache.block with
  | none => (.ok, bd)
  | some block =>
    if cfg.blockCount ≤ block then (.assertion, bd)
    else
      let diff := lfsAlignup bd.pcache.size cfg.progSize
      match bd.program faults block bd.pcache.off bd.pcache.buffer diff with
      | (.ok, bd) =>
        if validate then
          let bd := { bd with rcache := bd.rcache.drop }
          match lfsBdCmp cfg faults false diff block bd.pcache.off bd.pcache.buffer diff bd with
          | (.eq, bd) => (.ok, { bd with pcache := bd.pcache.zero cfg })
          | (.err ret, bd) => (ret, bd)
          | (_, bd) => (.corrupt, bd)
        else (.ok, { bd with pcache := bd.pcache.zero cfg })
      | (ret, bd) => (ret, bd)

/-- `lfs_bd_sync` (lines 190–202). -/
def lfsBdSync (validate : Bool) (bd : Bd) : Ret × Bd :=
  match lfsBdFlush cfg faults validate { bd with rcache := bd.rcache.drop } with
  | (.ok, bd) =>
    (if faults.fails bd.calls.length then .io else .ok, { bd with calls := .sync :: bd.calls })
  | (ret, bd) => (ret, bd)

/-- The locals of `lfs_bd_prog`. -/
structure ProgState where
  bd : Bd
  off : ℕ
  size : ℕ
  pos : ℕ
  ret : Ret

/-- The loop of `lfs_bd_prog` (lines 214–247). -/
def progBody (validate : Bool) (block : ℕ) (data : ℕ → Byte) (s : ProgState) :
    Option ProgState :=
  let c := s.bd.pcache
  if s.ret ≠ .ok ∨ s.size = 0 then none
  else if c.block = some block ∧ c.off ≤ s.off ∧ s.off < c.off + cfg.cacheSize then
    let diff := min s.size (cfg.cacheSize - (s.off - c.off))
    let pcache := { c with
      buffer := copyTo c.buffer (s.off - c.off) (fun k => data (s.pos + k)) diff
      size := max c.size (s.off + diff - c.off) }
    let bd := { s.bd with pcache := pcache }
    let flushed := if pcache.size = cfg.cacheSize then lfsBdFlush cfg faults validate bd
      else (.ok, bd)
    some ⟨flushed.2, s.off + diff, s.size - diff, s.pos + diff, flushed.1⟩
  else if c.block = none then
    some { s with bd := { s.bd with pcache :=
      { c with block := some block, off := lfsAligndown s.off cfg.progSize, size := 0 } } }
  else some { s with ret := .assertion }

/-- `lfs_bd_prog` (lines 206–250). -/
def lfsBdProg (validate : Bool) (block off : ℕ) (data : ℕ → Byte) (size : ℕ) (bd : Bd) :
    Ret × Bd :=
  if cfg.blockCount ≤ block ∨ cfg.blockSize < (off + size) % 2 ^ 32 then (.assertion, bd)
  else
    match runLoop (progBody cfg faults validate block data) (2 * size + 2)
        ⟨bd, off, size, 0, .ok⟩ with
    | none => (.hangs, bd)
    | some s => (s.ret, s.bd)

/-- `lfs_bd_erase` (lines 254–259) on `littlefs_api_erase`. -/
def lfsBdErase (block : ℕ) (bd : Bd) : Ret × Bd :=
  if cfg.blockCount ≤ block then (.assertion, bd)
  else
    let n := bd.calls.length
    let erased := fun o => if faults.fails n then bd.flash block o ||| faults.junk n o else 0xff
    (if faults.fails n then .io else .ok,
      { bd with
        flash := fun b o => if b = block then erased o else bd.flash b o
        calls := .erase block :: bd.calls })

end

/-! ## Caches -/

/-- The byte `o` of the block is in the cache. -/
def Cache.Holds (c : Cache) (block o : ℕ) : Prop :=
  c.block = some block ∧ c.off ≤ o ∧ o < c.off + c.size

instance (c : Cache) (block o : ℕ) : Decidable (c.Holds block o) :=
  inferInstanceAs (Decidable (_ ∧ _ ∧ _))

/-- The bytes that a read is for: those of the program cache, if it is looked at, over those of
    the device. -/
def Bd.contents (bd : Bd) (usePcache : Bool) (block o : ℕ) : Byte :=
  if usePcache ∧ bd.pcache.Holds block o then bd.pcache.buffer (o - bd.pcache.off)
  else bd.flash block o

/-- Outside of `T`, the read cache agrees with the device. -/
def Bd.Fresh (bd : Bd) (T : Set (ℕ × ℕ)) : Prop :=
  ∀ b o, bd.rcache.Holds b o → (b, o) ∉ T → bd.rcache.buffer (o - bd.rcache.off) = bd.flash b o

/-- What the device may be asked for (`lfs_config` in lfs.h). -/
def Call.Valid (cfg : Config) : Call → Prop
  | .read block off size => block < cfg.blockCount ∧ cfg.readSize ∣ off ∧ cfg.readSize ∣ size ∧
      0 < size ∧ off + size ≤ cfg.blockSize
  | .prog block off size => block < cfg.blockCount ∧ cfg.progSize ∣ off ∧ cfg.progSize ∣ size ∧
      off + size ≤ cfg.blockSize
  | .erase block => block < cfg.blockCount
  | .sync => True

@[simp] theorem copyTo_inside {dst src : ℕ → Byte} {start n i : ℕ} (hi : i < n) :
    copyTo dst start src n (start + i) = src i := by
  unfold copyTo
  rw [if_pos (by omega), Nat.add_sub_cancel_left]

theorem copyTo_below {dst src : ℕ → Byte} {start n i : ℕ} (hi : i < start) :
    copyTo dst start src n i = dst i :=
  if_neg fun h => by omega

theorem copyTo_above {dst src : ℕ → Byte} {start n i : ℕ} (hi : start + n ≤ i) :
    copyTo dst start src n i = dst i :=
  if_neg fun h => by omega

section

variable {c : Cache} {block off o start len : ℕ}

theorem Cache.holds_of_hit (h : c.lookup block off = .hit start len) :
    c.Holds block off ∧ start = off - c.off ∧ len = c.size - start := by
  unfold Cache.lookup at h
  split_ifs at h with hin hle
  · cases h
    exact ⟨⟨hin.1, hle, hin.2⟩, rfl, rfl⟩

theorem Cache.of_ahead (h : c.lookup block off = .ahead len) :
    c.block = some block ∧ c.off = off + len ∧ 0 < len := by
  unfold Cache.lookup at h
  split_ifs at h with hin hle
  · cases h
    exact ⟨hin.1, by omega, by omega⟩

theorem Cache.not_holds_of_ahead (h : c.lookup block off = .ahead len) (ho : o < off + len) :
    ¬c.Holds block o := by
  obtain ⟨-, hoff, -⟩ := Cache.of_ahead h
  rintro ⟨-, hle, -⟩
  omega

theorem Cache.not_holds_of_miss (h : c.lookup block off = .miss) (ho : off ≤ o) :
    ¬c.Holds block o := by
  rintro ⟨hblock, -, hlt⟩
  unfold Cache.lookup at h
  rw [if_pos ⟨hblock, by omega⟩] at h
  split_ifs at h

end

/-! ## Alignment -/

section

variable {a r : ℕ}

theorem dvd_lfsAligndown : r ∣ lfsAligndown a r := Nat.dvd_sub_mod a

theorem lfsAligndown_le : lfsAligndown a r ≤ a := Nat.sub_le a _

theorem lt_lfsAligndown (hr : 0 < r) : a < lfsAligndown a r + r := by
  have hmod := Nat.mod_lt a hr
  have hle := Nat.mod_le a r
  unfold lfsAligndown
  omega

theorem lfsAligndown_of_dvd (h : r ∣ a) : lfsAligndown a r = a := by
  unfold lfsAligndown
  rw [Nat.mod_eq_zero_of_dvd h, Nat.sub_zero]

theorem dvd_lfsAlignup : r ∣ lfsAlignup a r := dvd_lfsAligndown

theorem le_lfsAlignup (hr : 0 < r) (h : a + r ≤ 2 ^ 32) : a ≤ lfsAlignup a r := by
  have hlt := lt_lfsAligndown (a := a + r - 1) hr
  unfold lfsAlignup
  rw [Nat.mod_eq_of_lt (by omega)]
  omega

/-- The least multiple that is not below. -/
theorem lfsAlignup_le {b : ℕ} (hr : 0 < r) (h : a ≤ b) (hb : r ∣ b) : lfsAlignup a r ≤ b := by
  obtain ⟨m, rfl⟩ := hb
  obtain ⟨k, hk⟩ : r ∣ lfsAlignup a r := dvd_lfsAlignup
  have hle : lfsAlignup a r ≤ a + r - 1 := lfsAligndown_le.trans (Nat.mod_le _ _)
  rw [hk] at hle ⊢
  have hlt : r * k < r * (m + 1) := by
    rw [Nat.mul_succ]
    omega
  exact Nat.mul_le_mul_left r (Nat.lt_succ_iff.1 (Nat.lt_of_mul_lt_mul_left hlt))

end

section

variable {cfg : Config}

theorem Config.readSize_dvd_cacheSize : cfg.readSize ∣ cfg.cacheSize :=
  cfg.readSize_dvd_progSize.trans cfg.progSize_dvd_cacheSize

theorem Config.progSize_dvd_blockSize : cfg.progSize ∣ cfg.blockSize :=
  cfg.progSize_dvd_cacheSize.trans cfg.cacheSize_dvd_blockSize

theorem Config.readSize_dvd_blockSize : cfg.readSize ∣ cfg.blockSize :=
  cfg.readSize_dvd_progSize.trans cfg.progSize_dvd_blockSize

end

end Esp32Embroidery.Littlefs
