import Esp32Embroidery.Lib.Machine
import Esp32Embroidery.Littlefs.BlockProg

/-!
# Runs of the block device (`littlefs/lfs.c`, lines 44–259)

The calls are compared with a disk without caches, on which a program stores its bytes at once.

* `calls_valid`: in every run, what the device is asked for are whole units within a block, and
  no call hangs.
* `flush_contents`, `store_contents`: a flush moves the bytes of the program cache, and a program
  stores them.
-/

namespace Esp32Embroidery.Littlefs

open Esp32Embroidery.Lib

/-! ## Model -/

/-- The calls that littlefs makes. -/
inductive Op
  | read (usePcache : Bool) (hint block off size : ℕ)
  | prog (validate : Bool) (block off : ℕ) (data : ℕ → Byte) (size : ℕ)
  | flush (validate : Bool)
  | sync (validate : Bool)
  | erase (block : ℕ)

def Bd.exec (cfg : Config) (faults : Faults) (bd : Bd) : Op → Ret × Bd
  | .read usePcache hint block off size =>
    let r := lfsBdRead cfg faults usePcache hint block off (fun _ => 0) size bd
    (r.1, r.2.2)
  | .prog validate block off data size => lfsBdProg cfg faults validate block off data size bd
  | .flush validate => lfsBdFlush cfg faults validate bd
  | .sync validate => lfsBdSync cfg faults validate bd
  | .erase block => lfsBdErase cfg faults block bd

/-- Where a program begins to fill the cache: a gap behind what is in the cache, or in front of
    the place in its unit, is programmed as well. -/
def Bd.progStart (cfg : Config) (bd : Bd) (block off : ℕ) : ℕ :=
  if bd.pcache.block = some block then min off (bd.pcache.off + bd.pcache.size)
  else lfsAligndown off cfg.progSize

/-- The device with the disk that it stands for, and the bytes of the disk that the read cache
    may have missed. -/
structure Sys where
  bd : Bd
  disk : ℕ → ℕ → Byte
  touched : Set (ℕ × ℕ)

/-- The disk after a program of `size` bytes. -/
def stored (disk : ℕ → ℕ → Byte) (block off : ℕ) (data : ℕ → Byte) (size : ℕ) : ℕ → ℕ → Byte :=
  fun b o => if b = block then copyTo (disk b) off data size o else disk b o

def diskAfter (disk : ℕ → ℕ → Byte) : Op → ℕ → ℕ → Byte
  | .prog _ block off data size => stored disk block off data size
  | .erase block => fun b o => if b = block then 0xff else disk b o
  | _ => disk

/-- The bytes of the disk that a program of the operation changes. -/
def progRange (cfg : Config) (bd : Bd) (block off size : ℕ) : Set (ℕ × ℕ) :=
  {p | p.1 = block ∧ bd.progStart cfg block off ≤ p.2 ∧ p.2 < off + size}

/-- A synchronisation and a validated flush bring the read cache up to date; a read that fails
    leaves it with bytes that nobody has read. -/
def touchedAfter (cfg : Config) (s : Sys) (r : Ret × Bd) : Op → Set (ℕ × ℕ)
  | .read .. => if r.1 = .io then s.touched ∪ {p | r.2.rcache.Holds p.1 p.2} else s.touched
  | .prog validate block off _ size =>
    if validate ∧ s.bd.calls.length < r.2.calls.length then {p | r.2.pcache.Holds p.1 p.2}
    else s.touched ∪ progRange cfg s.bd block off size
  | .flush validate =>
    if validate ∧ s.bd.calls.length < r.2.calls.length then ∅ else s.touched
  | .sync _ => ∅
  | .erase block => s.touched ∪ {p | p.1 = block}

/-- A run starts with the caches that `lfs_init` has zeroed (lines 3958–3959), and it goes on as
    long as the calls return. -/
def blockMachine (cfg : Config) (faults : Faults) (flash : ℕ → ℕ → Byte) (pcache rcache : Cache) :
    Machine Sys Op where
  init := ⟨⟨flash, pcache.zero cfg, rcache.zero cfg, []⟩, flash, ∅⟩
  step s op :=
    let r := s.bd.exec cfg faults op
    if r.1 = .assertion ∨ r.1 = .hangs then none
    else some ⟨r.2, diskAfter s.disk op, touchedAfter cfg s r op⟩

/-- No sum of the arguments exceeds 32 bits, and a read of some bytes has a hint. -/
def Op.Bounded (cfg : Config) : Op → Prop
  | .read _ hint _ off size => (size = 0 ∨ 0 < hint) ∧ off + size + hint + cfg.readSize ≤ 2 ^ 32
  | .prog _ _ off _ size => off + size < 2 ^ 32
  | _ => True

/-- What littlefs has to see to: a program is of erased bytes, and a block is erased when no
    program of it is pending. -/
def Op.Careful (cfg : Config) (s : Sys) : Op → Prop
  | .prog _ block off _ size =>
    ∀ o, s.bd.progStart cfg block off ≤ o → o < off + size → s.disk block o = 0xff
  | .erase block => s.bd.pcache.block ≠ some block
  | _ => True

/-- The call is a read, or the device has done what it was told. -/
def Op.Succeeds (cfg : Config) (faults : Faults) (s : Sys) : Op → Prop
  | .read .. => True
  | op => (s.bd.exec cfg faults op).1 = .ok

section

variable {cfg : Config} {faults : Faults} {flash : ℕ → ℕ → Byte} {pcache rcache : Cache}
  {bd : Bd} {s : Sys}

/-! ## What the device is asked for -/

theorem Bd.Ok.init : (⟨flash, pcache.zero cfg, rcache.zero cfg, []⟩ : Bd).Ok cfg :=
  ⟨⟨fun h => absurd rfl h, fun h => absurd rfl h, fun _ hc => nomatch hc⟩, fun _ h => nomatch h⟩

theorem lfsBdRead_of_corrupt {usePcache : Bool} {hint block off size : ℕ} {data : ℕ → Byte}
    (h : cfg.blockCount ≤ block ∨ cfg.blockSize < (off + size) % 2 ^ 32) :
    lfsBdRead cfg faults usePcache hint block off data size bd = (.corrupt, data, bd) :=
  if_pos h

/-- What every call leaves: caches where they may be, and a return. -/
def Returned (cfg : Config) (r : Ret × Bd) : Prop := r.2.Ok cfg ∧ r.1 ≠ .hangs

theorem Bd.Ok.read (h : bd.Ok cfg) {usePcache : Bool} {hint block off size : ℕ}
    {data : ℕ → Byte} (hhint : size = 0 ∨ 0 < hint)
    (hsum : off + size + hint + cfg.readSize ≤ 2 ^ 32) :
    Returned cfg ((lfsBdRead cfg faults usePcache hint block off data size bd).1,
      (lfsBdRead cfg faults usePcache hint block off data size bd).2.2) := by
  by_cases hin : cfg.blockCount ≤ block ∨ cfg.blockSize < (off + size) % 2 ^ 32
  · rw [lfsBdRead_of_corrupt hin]
    exact ⟨h, fun hret => nomatch hret⟩
  · have hunit := cfg.readSize_pos
    rw [Nat.mod_eq_of_lt (show off + size < 2 ^ 32 by omega)] at hin
    have hpost := lfsBdRead_spec faults usePcache data hhint hsum
      (show block < cfg.blockCount by omega) (by omega) h.aligned
      (show bd.Fresh Set.univ from fun b o _ hT => absurd (Set.mem_univ _) hT)
    refine ⟨⟨hpost.aligned, fun b hb => ?_⟩, ?_⟩
    · rw [hpost.pcache_eq] at hb ⊢
      exact h.fits b hb
    · obtain hret | ⟨hret, -⟩ := hpost.ret
      all_goals dsimp only; rw [hret]; decide

theorem Bd.Ok.prog (h : bd.Ok cfg) {validate : Bool} {block off size : ℕ} {data : ℕ → Byte}
    (hsum : off + size < 2 ^ 32) :
    Returned cfg (lfsBdProg cfg faults validate block off data size bd) := by
  by_cases hin : cfg.blockCount ≤ block ∨ cfg.blockSize < (off + size) % 2 ^ 32
  · unfold lfsBdProg
    rw [if_pos hin]
    exact ⟨h, fun hret => nomatch hret⟩
  · rw [Nat.mod_eq_of_lt hsum] at hin
    obtain ⟨t, ht, hinv, -⟩ := lfsBdProg_spec faults validate data
      (I := fun _ => True) (fun _ _ _ _ _ _ => trivial)
      (show block < cfg.blockCount by omega) (show off + size ≤ cfg.blockSize by omega) h trivial
    rw [ht]
    exact ⟨hinv.ok, hinv.ret⟩

theorem Bd.Ok.drop (h : bd.Ok cfg) : ({ bd with rcache := bd.rcache.drop } : Bd).Ok cfg :=
  ⟨h.aligned.drop, h.fits⟩

theorem Bd.Ok.sync (h : bd.Ok cfg) {validate : Bool} :
    Returned cfg (lfsBdSync cfg faults validate bd) := by
  have hflush := h.drop.flush faults validate
  have hne := (lfsBdFlush_ne faults validate h.drop).2
  unfold lfsBdSync
  generalize lfsBdFlush cfg faults validate _ = r at hflush hne
  obtain ⟨ret, bd'⟩ := r
  cases ret
  case ok =>
    refine ⟨⟨hflush.aligned.call trivial, hflush.fits⟩, ?_⟩
    dsimp only
    split_ifs
    · exact fun hret => nomatch hret
    · exact fun hret => nomatch hret
  case hangs => exact absurd rfl hne
  all_goals exact ⟨hflush, fun hret => nomatch hret⟩

theorem Bd.Ok.erase (h : bd.Ok cfg) {block : ℕ} :
    Returned cfg (lfsBdErase cfg faults block bd) := by
  unfold lfsBdErase
  dsimp only
  split_ifs with hblock hfail
  · exact ⟨h, fun hret => nomatch hret⟩
  all_goals
    refine ⟨⟨?_, h.fits⟩, fun hret => nomatch hret⟩
    exact ⟨h.aligned.pcache, h.aligned.rcache,
      (h.aligned.call (c := .erase block) (Nat.lt_of_not_le hblock)).calls⟩

theorem Bd.Ok.exec (h : bd.Ok cfg) {op : Op} (hop : op.Bounded cfg) :
    Returned cfg (bd.exec cfg faults op) := by
  cases op with
  | read usePcache hint block off size => exact h.read hop.1 hop.2
  | prog validate block off data size => exact h.prog hop
  | flush validate => exact ⟨h.flush faults validate, (lfsBdFlush_ne faults validate h).2⟩
  | sync validate => exact h.sync
  | erase block => exact h.erase

theorem step_eq {op : Op} {t : Sys}
    (hstep : (blockMachine cfg faults flash pcache rcache).step s op = some t) :
    t = ⟨(s.bd.exec cfg faults op).2, diskAfter s.disk op,
      touchedAfter cfg s (s.bd.exec cfg faults op) op⟩ := by
  unfold blockMachine at hstep
  dsimp only at hstep
  split_ifs at hstep
  exact (Option.some.inj hstep).symm

/-- In every run, whatever calls of the device fail: it is only asked for whole units within a
    block, and littlefs never waits for it in a loop without end. -/
theorem calls_valid
    (h : (blockMachine cfg faults flash pcache rcache).ReachableBy
      (fun _ op _ => op.Bounded cfg) s) :
    (∀ c ∈ s.bd.calls, c.Valid cfg) ∧
      ∀ op : Op, op.Bounded cfg → (s.bd.exec cfg faults op).1 ≠ .hangs := by
  have hok : s.bd.Ok cfg := by
    refine h.invariant (I := fun s => s.bd.Ok cfg) Bd.Ok.init fun s op t _ hs hstep hop => ?_
    rw [step_eq hstep]
    exact (hs.exec hop).1
  exact ⟨hok.aligned.calls, fun op hop => (hok.exec hop).2⟩

theorem step_of_ok {op : Op} (hok : (s.bd.exec cfg faults op).1 = .ok) :
    (blockMachine cfg faults flash pcache rcache).step s op =
      some ⟨(s.bd.exec cfg faults op).2, diskAfter s.disk op,
        touchedAfter cfg s (s.bd.exec cfg faults op) op⟩ := by
  have hne : ¬((s.bd.exec cfg faults op).1 = .assertion ∨
      (s.bd.exec cfg faults op).1 = .hangs) := by
    rw [hok]
    decide
  exact if_neg hne

/-- A read whose start and end are not aligned, and an erase. -/
theorem calls_valid_read_erase :
    (Call.erase 2).Valid (esp32LittlefsHal 4) ∧ (Call.read 1 0 128).Valid (esp32LittlefsHal 4) := by
  have hread : (Op.read true 8 1 9 6).Bounded (esp32LittlefsHal 4) := by
    exact ⟨.inr (by decide), by decide⟩
  have hinit : (blockMachine (esp32LittlefsHal 4) noFaults (fun _ _ => 0xff)
      ⟨none, 0, 0, fun _ => 0⟩ ⟨none, 0, 0, fun _ => 0⟩).ReachableBy
        (fun _ op _ => op.Bounded (esp32LittlefsHal 4)) _ := Machine.ReachableBy.init
  have hone := hinit.step (a := .read true 8 1 9 6) (step_of_ok (by decide)) hread
  have htwo := hone.step (a := .erase 2) (step_of_ok (by decide))
    (show (Op.erase 2).Bounded _ from trivial)
  have hcalls : ∀ c ∈ [Call.erase 2, .read 1 0 128], c.Valid (esp32LittlefsHal 4) :=
    (calls_valid htwo).1
  exact ⟨hcalls _ List.mem_cons_self, hcalls _ (List.mem_cons_of_mem _ List.mem_cons_self)⟩

/-! ## What a program and a flush do to the bytes -/

/-- The bytes of the program cache: nothing behind those that were stored, and nothing on the
    device under them. -/
structure Bd.Shape (cfg : Config) (bd : Bd) : Prop where
  tail : ∀ k, (∀ b, bd.pcache.block = some b → bd.pcache.size ≤ k) → k < cfg.cacheSize →
    bd.pcache.buffer k = 0xff
  blank : ∀ b, bd.pcache.block = some b → ∀ k < bd.pcache.size,
    bd.flash b (bd.pcache.off + k) = 0xff

theorem Cache.zero_buffer (c : Cache) {k : ℕ} (hk : k < cfg.cacheSize) :
    (c.zero cfg).buffer k = 0xff := by
  have h : copyTo c.buffer 0 (fun _ => 0xff) cfg.cacheSize (0 + k) = 0xff := copyTo_inside hk
  rwa [Nat.zero_add] at h

theorem Bd.Shape.of_zero (hzero : ∃ c, bd.pcache = Cache.zero cfg c) : bd.Shape cfg := by
  obtain ⟨c, hc⟩ := hzero
  refine ⟨fun k _ hk => ?_, fun b hb => ?_⟩
  · rw [hc]
    exact Cache.zero_buffer c hk
  · rw [hc] at hb
    cases hb

theorem Bd.contents_of_none {b o : ℕ} (h : bd.pcache.block = none) :
    bd.contents true b o = bd.flash b o :=
  Bd.contents_of_not_holds fun hp => by
    have hb := hp.2.1
    rw [h] at hb
    cases hb

/-- A flush that succeeds only moves the bytes of the program cache. -/
theorem flush_contents {validate : Bool} (h : bd.Ok cfg) (hshape : bd.Shape cfg)
    (hok : (lfsBdFlush cfg faults validate bd).1 = .ok) :
    (lfsBdFlush cfg faults validate bd).2.Shape cfg ∧
      (lfsBdFlush cfg faults validate bd).2.pcache.block = none ∧
      ∀ b o, (lfsBdFlush cfg faults validate bd).2.flash b o = bd.contents true b o := by
  cases hblock : bd.pcache.block with
  | none =>
    rw [lfsBdFlush_none hblock]
    exact ⟨hshape, hblock, fun b o => (Bd.contents_of_none hblock).symm⟩
  | some block =>
    have hpost := lfsBdFlush_spec faults validate h.aligned h.fits hblock
    obtain ⟨-, -, hsize, hdiff, -⟩ := flush_range h.aligned h.fits hblock
    have hpcache := hpost.pcache
    rw [if_pos hok] at hpcache
    refine ⟨Bd.Shape.of_zero ⟨_, hpcache⟩, by rw [hpcache]; rfl, fun b o => ?_⟩
    rw [hpost.flash (by rw [hok]; decide)]
    by_cases hin : b = block ∧ bd.pcache.off ≤ o ∧
        o < bd.pcache.off + lfsAlignup bd.pcache.size cfg.progSize
    · obtain ⟨rfl, hle, hlt⟩ := hin
      obtain ⟨k, rfl⟩ := Nat.exists_eq_add_of_le hle
      rw [programmed_inside (by omega)]
      by_cases hk : k < bd.pcache.size
      · rw [Bd.contents_of_holds rfl ⟨hblock, hle, by omega⟩, Nat.add_sub_cancel_left,
          hshape.blank b hblock k hk]
        exact BitVec.allOnes_and
      · have htail := hshape.tail k (fun _ _ => Nat.not_lt.1 hk) (by omega)
        rw [Bd.contents_of_not_holds (fun hp => hk (by have := hp.2.2.2; omega)), htail]
        exact BitVec.and_allOnes
    · rw [Bd.contents_of_not_holds]
      · exact if_neg hin
      · rintro ⟨-, hb, hle, hlt⟩
        rw [hblock] at hb
        cases hb
        exact hin ⟨rfl, hle, by omega⟩

/-- The read cache of a flush that succeeds. -/
theorem flush_fresh {validate : Bool} {T : Set (ℕ × ℕ)} (h : bd.Ok cfg) (hshape : bd.Shape cfg)
    (hfresh : bd.Fresh T) (hT : ∀ b o, bd.pcache.Holds b o → (b, o) ∈ T)
    (hok : (lfsBdFlush cfg faults validate bd).1 = .ok) :
    (lfsBdFlush cfg faults validate bd).2.Fresh T ∧
      (validate ∧ bd.pcache.block ≠ none → (lfsBdFlush cfg faults validate bd).2.Fresh ∅) := by
  cases hblock : bd.pcache.block with
  | none =>
    rw [lfsBdFlush_none hblock]
    exact ⟨hfresh, fun hv => absurd rfl hv.2⟩
  | some block =>
    have hpost := lfsBdFlush_spec faults validate h.aligned h.fits hblock
    have hmoved := (flush_contents h hshape hok).2.2
    cases validate with
    | true =>
      have hempty := hpost.fresh rfl hok
      exact ⟨fun b o hb _ => hempty b o hb (Set.notMem_empty _), fun _ => hempty⟩
    | false =>
      refine ⟨fun b o hb hnot => ?_, fun hv => nomatch hv.1⟩
      rw [hpost.rcache rfl] at hb ⊢
      rw [hfresh b o hb hnot, hmoved b o]
      exact (Bd.contents_of_not_holds fun hp => hnot (hT b o hp.2)).symm

section

variable {block off diff stop : ℕ} {src : ℕ → Byte}

theorem Bd.progStart_of_covers (hcovers : bd.pcache.Covers cfg block off) :
    bd.progStart cfg block off = min off (bd.pcache.off + bd.pcache.size) :=
  if_pos hcovers.1

/-- The bytes of the cache before some are stored, or blank bytes. -/
theorem gap_eq (hcovers : bd.pcache.Covers cfg block off)
    (hblank : ∀ o, bd.progStart cfg block off ≤ o → o < stop →
      bd.contents true block o = 0xff) {o : ℕ}
    (hgap : bd.pcache.off + bd.pcache.size ≤ o) (hstop : o < stop) :
    bd.contents true block o = 0xff ∧ bd.flash block o = 0xff := by
  have h := hblank o (by rw [Bd.progStart_of_covers hcovers]; omega) hstop
  refine ⟨h, ?_⟩
  rwa [Bd.contents_of_not_holds (fun hp => by have := hp.2.2.2; omega)] at h

variable (src) in
/-- Bytes that are stored in the cache are read from it, and the others stay. -/
theorem store_contents (hshape : bd.Shape cfg) (hcovers : bd.pcache.Covers cfg block off)
    (hstop : off + diff ≤ stop)
    (hblank : ∀ o, bd.progStart cfg block off ≤ o → o < stop →
      bd.contents true block o = 0xff) (b o : ℕ) :
    ({ bd with pcache := bd.pcache.store off src diff } : Bd).contents true b o =
      if b = block ∧ off ≤ o ∧ o < off + diff then src (o - off) else bd.contents true b o := by
  have hgap := fun {o : ℕ} => gap_eq (o := o) hcovers hblank
  obtain ⟨hblock, hle, hlt⟩ := hcovers
  have hsize : (bd.pcache.store off src diff).size =
      max bd.pcache.size (off + diff - bd.pcache.off) := rfl
  by_cases hb : b = block
  swap
  · rw [if_neg fun h => hb h.1, Bd.contents_of_not_holds, Bd.contents_of_not_holds]
    · exact fun hp => hb (Option.some.inj (hp.2.1.symm.trans hblock))
    · exact fun hp => hb (Option.some.inj (hp.2.1.symm.trans hblock))
  subst hb
  by_cases hin : (bd.pcache.store off src diff).Holds b o
  · have hheld : ({ bd with pcache := bd.pcache.store off src diff } : Bd).pcache.Holds b o := hin
    rw [Bd.contents_of_holds rfl hheld]
    obtain ⟨-, hlo, hhi⟩ := hin
    change bd.pcache.off ≤ o at hlo
    change o < bd.pcache.off + (bd.pcache.store off src diff).size at hhi
    change copyTo bd.pcache.buffer (off - bd.pcache.off) src diff (o - bd.pcache.off) = _
    rw [hsize] at hhi
    split_ifs with hnew
    · obtain ⟨-, hlo', hhi'⟩ := hnew
      have haddr : o - bd.pcache.off = off - bd.pcache.off + (o - off) := by omega
      rw [haddr, copyTo_inside (by omega)]
    · have hout : o < off ∨ off + diff ≤ o := by
        by_contra hcon
        exact hnew ⟨rfl, by omega, by omega⟩
      have hold : copyTo bd.pcache.buffer (off - bd.pcache.off) src diff (o - bd.pcache.off) =
          bd.pcache.buffer (o - bd.pcache.off) := by
        rcases hout with hout | hout
        · exact copyTo_below (by omega)
        · exact copyTo_above (by omega)
      rw [hold]
      by_cases hheld : o < bd.pcache.off + bd.pcache.size
      · exact (Bd.contents_of_holds rfl ⟨hblock, hlo, hheld⟩).symm
      · rw [(hgap (by omega) (by omega)).1]
        refine hshape.tail _ (fun _ _ => ?_) ?_
        all_goals omega
  · have hnot : ¬(bd.pcache.off ≤ o ∧ o < bd.pcache.off + (bd.pcache.store off src diff).size) :=
      fun h => hin ⟨hblock, h.1, h.2⟩
    rw [hsize] at hnot
    rw [if_neg (by omega), Bd.contents_of_not_holds fun hp => hin hp.2,
      Bd.contents_of_not_holds]
    rintro ⟨-, -, hlo, hhi⟩
    omega

variable (src) in
theorem Bd.Shape.store (hshape : bd.Shape cfg) (hcovers : bd.pcache.Covers cfg block off)
    (hstop : off + diff ≤ stop)
    (hblank : ∀ o, bd.progStart cfg block off ≤ o → o < stop →
      bd.contents true block o = 0xff) :
    ({ bd with pcache := bd.pcache.store off src diff } : Bd).Shape cfg := by
  have hgap := fun {o : ℕ} => gap_eq (o := o) hcovers hblank
  obtain ⟨hblock, hle, hlt⟩ := hcovers
  have hsize : (bd.pcache.store off src diff).size =
      max bd.pcache.size (off + diff - bd.pcache.off) := rfl
  refine ⟨fun k hk hcache => ?_, fun b hb k hk => ?_⟩
  · have hk' := hk block hblock
    change (bd.pcache.store off src diff).size ≤ k at hk'
    change copyTo bd.pcache.buffer (off - bd.pcache.off) src diff k = 0xff
    rw [copyTo_above (by omega)]
    exact hshape.tail k (fun _ _ => by omega) hcache
  · change k < (bd.pcache.store off src diff).size at hk
    change bd.flash b (bd.pcache.off + k) = 0xff
    obtain rfl : b = block := Option.some.inj (hb.symm.trans hblock)
    by_cases hold : k < bd.pcache.size
    · exact hshape.blank b hblock k hold
    · exact (hgap (by omega) (by omega)).2

end

end

end Esp32Embroidery.Littlefs
