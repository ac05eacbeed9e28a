import Esp32Embroidery.Littlefs.BlockRead

/-!
# Flushing the program cache (`littlefs/lfs.c`, lines 155–186)

* `lfsBdFlush_spec`: what a flush leaves.
* `lfsBdFlush_validate_iff`: a validated flush that returns 0 has stored the bytes of the program
  cache, whatever the flash held and whichever calls failed; and if none failed, it returns 0 iff
  no bit had to be set.
-/

namespace Esp32Embroidery.Littlefs

open Esp32Embroidery.Lib

variable {cfg : Config} {faults : Faults} {validate : Bool} {block : ℕ} {bd : Bd}

/-- The program cache lies in a block. -/
def Bd.PcacheFits (cfg : Config) (bd : Bd) : Prop :=
  ∀ block, bd.pcache.block = some block → block < cfg.blockCount ∧
    bd.pcache.off + bd.pcache.size ≤ cfg.blockSize ∧ bd.pcache.size ≤ cfg.cacheSize

theorem Config.progSize_le_cacheSize : cfg.progSize ≤ cfg.cacheSize :=
  Nat.le_of_dvd cfg.cacheSize_pos cfg.progSize_dvd_cacheSize

theorem Config.cacheSize_le_blockSize : cfg.cacheSize ≤ cfg.blockSize :=
  Nat.le_of_dvd cfg.blockSize_pos cfg.cacheSize_dvd_blockSize

/-- The bytes that a flush programs: those of the cache up to a whole unit. -/
theorem flush_range (haligned : bd.Aligned cfg) (hfits : bd.PcacheFits cfg)
    (hblock : bd.pcache.block = some block) :
    block < cfg.blockCount ∧ cfg.progSize ∣ bd.pcache.off ∧
      bd.pcache.size ≤ lfsAlignup bd.pcache.size cfg.progSize ∧
      lfsAlignup bd.pcache.size cfg.progSize ≤ cfg.cacheSize ∧
      bd.pcache.off + lfsAlignup bd.pcache.size cfg.progSize ≤ cfg.blockSize := by
  obtain ⟨hcount, hend, hsize⟩ := hfits block hblock
  have hoff := haligned.pcache (by rw [hblock]; exact Option.some_ne_none _)
  have hlt := cfg.blockSize_lt
  have hprog := cfg.progSize_le_cacheSize
  have hcache := cfg.cacheSize_le_blockSize
  have hrest : lfsAlignup bd.pcache.size cfg.progSize ≤ cfg.blockSize - bd.pcache.off :=
    lfsAlignup_le cfg.progSize_pos (by omega) (Nat.dvd_sub cfg.progSize_dvd_blockSize hoff)
  exact ⟨hcount, hoff, le_lfsAlignup cfg.progSize_pos (by omega),
    lfsAlignup_le cfg.progSize_pos hsize cfg.progSize_dvd_cacheSize, by omega⟩

/-- The flash after a program of `size` bytes. -/
def programmed (flash : ℕ → ℕ → Byte) (block off : ℕ) (src : ℕ → Byte) (size : ℕ) :
    ℕ → ℕ → Byte :=
  fun b o => if b = block ∧ off ≤ o ∧ o < off + size then flash b o &&& src (o - off)
    else flash b o

theorem programmed_inside {flash : ℕ → ℕ → Byte} {off size k : ℕ} {src : ℕ → Byte} (hk : k < size) :
    programmed flash block off src size block (off + k) = flash block (off + k) &&& src k := by
  unfold programmed
  rw [if_pos ⟨rfl, by omega, by omega⟩, Nat.add_sub_cancel_left]

/-- What a flush of a cache leaves that is for a block. -/
structure FlushPost (cfg : Config) (faults : Faults) (validate : Bool) (block : ℕ) (bd : Bd)
    (r : Ret × Bd) : Prop where
  ret : r.1 = .ok ∨ r.1 = .io ∧ (∃ n, faults.fails n = true) ∨ r.1 = .corrupt ∧ validate
  aligned : r.2.Aligned cfg
  calls_lt : bd.calls.length < r.2.calls.length
  pcache : r.2.pcache = if r.1 = .ok then bd.pcache.zero cfg else bd.pcache
  flash : r.1 ≠ .io → r.2.flash = programmed bd.flash block bd.pcache.off bd.pcache.buffer
    (lfsAlignup bd.pcache.size cfg.progSize)
  rcache : validate = false → r.2.rcache = bd.rcache
  fresh : validate → r.1 = .ok → r.2.Fresh ∅
  ok_iff : validate → r.1 ≠ .io → (r.1 = .ok ↔
    ∀ k < lfsAlignup bd.pcache.size cfg.progSize,
      bd.flash block (bd.pcache.off + k) &&& bd.pcache.buffer k = bd.pcache.buffer k)

theorem Bd.Aligned.drop (h : bd.Aligned cfg) :
    ({ bd with rcache := bd.rcache.drop } : Bd).Aligned cfg :=
  ⟨h.pcache, fun hne => absurd rfl hne, h.calls⟩

theorem Bd.Aligned.zero (h : bd.Aligned cfg) :
    ({ bd with pcache := bd.pcache.zero cfg } : Bd).Aligned cfg :=
  ⟨fun hne => absurd rfl hne, h.rcache, h.calls⟩

theorem Ret.io_ne_ok : Ret.io ≠ .ok := by decide

theorem Ret.corrupt_ne_ok : Ret.corrupt ≠ .ok := by decide

theorem lfsBdFlush_none (hblock : bd.pcache.block = none) :
    lfsBdFlush cfg faults validate bd = (.ok, bd) := by
  unfold lfsBdFlush
  rw [hblock]

/-- The device is asked to program whole units. -/
theorem Bd.Aligned.program (haligned : bd.Aligned cfg) (hfits : bd.PcacheFits cfg)
    (hblock : bd.pcache.block = some block) (flash : ℕ → ℕ → Byte) :
    ({ bd with
      flash := flash
      calls := .prog block bd.pcache.off (lfsAlignup bd.pcache.size cfg.progSize) ::
        bd.calls } : Bd).Aligned cfg := by
  obtain ⟨hcount, hoff, -, -, hend⟩ := flush_range haligned hfits hblock
  have hvalid : (Call.prog block bd.pcache.off (lfsAlignup bd.pcache.size cfg.progSize)).Valid
      cfg := ⟨hcount, hoff, dvd_lfsAlignup, hend⟩
  exact ⟨haligned.pcache, haligned.rcache, (haligned.call hvalid).calls⟩

/-- The device when a validated flush comes to compare. -/
def Bd.toCompare (cfg : Config) (block : ℕ) (bd : Bd) : Bd :=
  { bd with
    flash := programmed bd.flash block bd.pcache.off bd.pcache.buffer
      (lfsAlignup bd.pcache.size cfg.progSize)
    rcache := bd.rcache.drop
    calls := .prog block bd.pcache.off (lfsAlignup bd.pcache.size cfg.progSize) :: bd.calls }

/-- The comparison of a validated flush. -/
def FlushCmp (cfg : Config) (faults : Faults) (block : ℕ) (bd : Bd) (r : Cmp × Bd) : Prop :=
  CmpPost cfg faults false block bd.pcache.off (lfsAlignup bd.pcache.size cfg.progSize)
    (bd.toCompare cfg block) bd.pcache.buffer 0 r

variable (faults) in
theorem flushCmp_lfsBdCmp (haligned : bd.Aligned cfg) (hfits : bd.PcacheFits cfg)
    (hblock : bd.pcache.block = some block) :
    FlushCmp cfg faults block bd (lfsBdCmp cfg faults false
      (lfsAlignup bd.pcache.size cfg.progSize) block bd.pcache.off bd.pcache.buffer
      (lfsAlignup bd.pcache.size cfg.progSize) (bd.toCompare cfg block)) := by
  obtain ⟨hcount, -, -, hdiff, hend⟩ := flush_range haligned hfits hblock
  have hlt := cfg.blockSize_lt
  have hprog := cfg.progSize_le_cacheSize
  have hcache := cfg.cacheSize_le_blockSize
  have hread : cfg.readSize ≤ cfg.progSize :=
    Nat.le_of_dvd cfg.progSize_pos cfg.readSize_dvd_progSize
  refine lfsBdCmp_spec faults false bd.pcache.buffer le_rfl (by omega) hcount hend
    (haligned.program hfits hblock _).drop ?_
  exact fun _ _ h => absurd h.1.symm (Option.some_ne_none _)

/-- The bytes are equal iff no bit had to be set. -/
theorem FlushCmp.eq_iff {res : Cmp} {bd' : Bd} (hcmp : FlushCmp cfg faults block bd (res, bd'))
    (hne : ∀ ret, res ≠ .err ret) :
    res = .eq ↔ ∀ k < lfsAlignup bd.pcache.size cfg.progSize,
      bd.flash block (bd.pcache.off + k) &&& bd.pcache.buffer k = bd.pcache.buffer k := by
  refine (CmpPost.eq_iff hcmp hne).trans ⟨fun h k hk => ?_, fun h k _ hk => ?_⟩
  · rw [← programmed_inside hk]
    exact h k (Nat.zero_le k) hk
  · exact (programmed_inside hk).trans (h k hk)

theorem FlushCmp.equal {bd' : Bd} (hcmp : FlushCmp cfg faults block bd (.eq, bd')) :
    FlushPost cfg faults true block bd (.ok, { bd' with pcache := bd'.pcache.zero cfg }) := by
  have hnoerr : ∀ ret, Cmp.eq ≠ .err ret := by simp
  have hbytes := (hcmp.eq_iff hnoerr).1 rfl
  obtain ⟨hflash, hpcache, hle, haligned, -, hfresh, -⟩ := hcmp
  exact ⟨.inl rfl, haligned.zero, hle, congrArg (Cache.zero cfg) hpcache, fun _ => hflash,
    fun h => absurd h.symm Bool.false_ne_true, fun _ _ => hfresh hnoerr,
    fun _ _ => iff_of_true rfl hbytes⟩

theorem FlushCmp.failed {ret : Ret} {bd' : Bd}
    (hcmp : FlushCmp cfg faults block bd (.err ret, bd')) :
    FlushPost cfg faults true block bd (ret, bd') := by
  obtain ⟨-, hpcache, hle, haligned, herr, -, -⟩ := hcmp
  obtain ⟨rfl, hfails⟩ := herr ret rfl
  exact ⟨.inr (.inl ⟨rfl, hfails⟩), haligned, hle, hpcache, fun h => absurd rfl h,
    fun h => absurd h.symm Bool.false_ne_true, fun _ h => absurd h Ret.io_ne_ok,
    fun _ h => absurd rfl h⟩

theorem FlushCmp.different {res : Cmp} {bd' : Bd} (hcmp : FlushCmp cfg faults block bd (res, bd'))
    (hne : res ≠ .eq) (hnoerr : ∀ ret, res ≠ .err ret) :
    FlushPost cfg faults true block bd (.corrupt, bd') := by
  have hdiffer := mt (hcmp.eq_iff hnoerr).2 hne
  obtain ⟨hflash, hpcache, hle, haligned, -, -, -⟩ := hcmp
  exact ⟨.inr (.inr ⟨rfl, rfl⟩), haligned, hle, hpcache, fun _ => hflash,
    fun h => absurd h.symm Bool.false_ne_true, fun _ h => absurd h Ret.corrupt_ne_ok,
    fun _ _ => iff_of_false Ret.corrupt_ne_ok hdiffer⟩

variable (faults validate) in
theorem lfsBdFlush_spec (haligned : bd.Aligned cfg) (hfits : bd.PcacheFits cfg)
    (hblock : bd.pcache.block = some block) :
    FlushPost cfg faults validate block bd (lfsBdFlush cfg faults validate bd) := by
  have hcount := (flush_range haligned hfits hblock).1
  have hcalls := haligned.program hfits hblock
  unfold lfsBdFlush
  rw [hblock]
  dsimp only
  rw [if_neg (Nat.not_le.2 hcount)]
  unfold Bd.program
  dsimp only
  by_cases hfail : faults.fails bd.calls.length = true
  · simp only [if_pos hfail]
    exact ⟨.inr (.inl ⟨rfl, _, hfail⟩), hcalls _, Nat.lt_succ_self _, rfl,
      fun hne => absurd rfl hne, fun _ => rfl, fun _ h => absurd h Ret.io_ne_ok,
      fun _ h => absurd rfl h⟩
  simp only [if_neg hfail]
  cases validate with
  | false =>
    exact ⟨.inl rfl, (hcalls _).zero, Nat.lt_succ_self _, rfl, fun _ => rfl, fun _ => rfl,
      fun h => absurd h Bool.false_ne_true, fun h => absurd h Bool.false_ne_true⟩
  | true =>
    have hcmp := flushCmp_lfsBdCmp faults haligned hfits hblock
    unfold Bd.toCompare programmed at hcmp
    simp only [if_true]
    generalize lfsBdCmp cfg faults false _ block _ _ _ _ = r at hcmp ⊢
    obtain ⟨res, bd'⟩ := r
    cases res with
    | eq => exact hcmp.equal
    | err ret => exact hcmp.failed
    | lt => exact hcmp.different (by decide) (by simp)
    | gt => exact hcmp.different (by decide) (by simp)

/-- A validated flush that returns 0 has stored the cache; with a device that does what it is
    told, it returns 0 iff no bit of the flash had to be set, else `LFS_ERR_CORRUPT`. -/
theorem lfsBdFlush_validate_iff (haligned : bd.Aligned cfg) (hfits : bd.PcacheFits cfg)
    (hblock : bd.pcache.block = some block) :
    ((lfsBdFlush cfg faults true bd).1 = .ok →
      ∀ k < bd.pcache.size, (lfsBdFlush cfg faults true bd).2.flash block (bd.pcache.off + k) =
        bd.pcache.buffer k) ∧
    ((∀ n, faults.fails n = false) →
      ((lfsBdFlush cfg faults true bd).1 = .ok ∨ (lfsBdFlush cfg faults true bd).1 = .corrupt) ∧
      ((lfsBdFlush cfg faults true bd).1 = .ok ↔
        ∀ k < lfsAlignup bd.pcache.size cfg.progSize,
          bd.flash block (bd.pcache.off + k) &&& bd.pcache.buffer k = bd.pcache.buffer k)) := by
  obtain ⟨-, -, hsize, -⟩ := flush_range haligned hfits hblock
  have hpost := lfsBdFlush_spec faults true haligned hfits hblock
  constructor
  · intro hok k hk
    have hne : (lfsBdFlush cfg faults true bd).1 ≠ .io := by rw [hok]; decide
    rw [hpost.flash hne, programmed_inside (by omega)]
    exact (hpost.ok_iff rfl hne).1 hok k (by omega)
  · intro hnone
    have hret : (lfsBdFlush cfg faults true bd).1 = .ok ∨
        (lfsBdFlush cfg faults true bd).1 = .corrupt := by
      obtain hok | ⟨-, n, hn⟩ | ⟨hcorrupt, -⟩ := hpost.ret
      · exact .inl hok
      · rw [hnone n] at hn
        cases hn
      · exact .inr hcorrupt
    refine ⟨hret, hpost.ok_iff rfl ?_⟩
    rcases hret with h | h
    · rw [h]; decide
    · rw [h]; decide

/-- Five bytes of an erased block. -/
theorem lfsBdFlush_validate_five :
    (lfsBdFlush (esp32LittlefsHal 4) noFaults true ⟨fun _ _ => 0xff,
      ⟨some 1, 128, 5, fun k => if k < 5 then 0x5a else 0xff⟩, ⟨none, 0, 0, fun _ => 0⟩, []⟩).1 =
      .ok := by
  refine ((lfsBdFlush_validate_iff ⟨fun _ => ⟨1, rfl⟩, fun h => absurd rfl h, ?_⟩ ?_
    (show _ = some 1 from rfl)).2 fun _ => rfl).2.2 fun _ _ => BitVec.allOnes_and
  · exact fun c hc => absurd hc List.not_mem_nil
  · intro b hb
    cases hb
    decide

end Esp32Embroidery.Littlefs
