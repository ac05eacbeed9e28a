import Esp32Embroidery.Littlefs.BlockFlush

/-!
# Programs in a block (`littlefs/lfs.c`, lines 206–250)

* `progBody_step`, `lfsBdProg_spec`: the loop of `lfs_bd_prog` ends.
-/

namespace Esp32Embroidery.Littlefs

open Esp32Embroidery.Lib

variable {cfg : Config} {faults : Faults} {validate : Bool} {block off size : ℕ} {bd : Bd}
  {data : ℕ → Byte}

/-! ## The loop of `lfs_bd_prog` -/

/-- The caches are where they may be. -/
structure Bd.Ok (cfg : Config) (bd : Bd) : Prop where
  aligned : bd.Aligned cfg
  fits : bd.PcacheFits cfg

/-- The program cache is for the place `off`. -/
def Cache.Covers (cfg : Config) (c : Cache) (block off : ℕ) : Prop :=
  c.block = some block ∧ c.off ≤ off ∧ off < c.off + cfg.cacheSize

instance (c : Cache) : Decidable (c.Covers cfg block off) :=
  inferInstanceAs (Decidable (_ ∧ _ ∧ _))

/-- The program cache with `diff` more bytes from the place `off` on. -/
def Cache.store (c : Cache) (off : ℕ) (src : ℕ → Byte) (diff : ℕ) : Cache :=
  { c with
    buffer := copyTo c.buffer (off - c.off) src diff
    size := max c.size (off + diff - c.off) }

/-- The cache set up for the place `off`. -/
def Cache.prepare (cfg : Config) (c : Cache) (block off : ℕ) : Cache :=
  { c with block := some block, off := lfsAligndown off cfg.progSize, size := 0 }

/-- What is done once the bytes are in the cache. -/
def Bd.eager (cfg : Config) (faults : Faults) (validate : Bool) (bd : Bd) : Ret × Bd :=
  if bd.pcache.size = cfg.cacheSize then lfsBdFlush cfg faults validate bd else (.ok, bd)

/-- The three ways of an iteration. -/
theorem progBody_cases {s t : ProgState}
    (hbody : progBody cfg faults validate block data s = some t) :
    s.ret = .ok ∧ 0 < s.size ∧
      ((s.bd.pcache.Covers cfg block s.off ∧
          ∃ diff, diff = min s.size (cfg.cacheSize - (s.off - s.bd.pcache.off)) ∧
            t.off = s.off + diff ∧ t.size = s.size - diff ∧ t.pos = s.pos + diff ∧
            (t.ret, t.bd) = Bd.eager cfg faults validate { s.bd with
              pcache := s.bd.pcache.store s.off (fun k => data (s.pos + k)) diff }) ∨
        (¬s.bd.pcache.Covers cfg block s.off ∧ s.bd.pcache.block = none ∧
          t = { s with bd := { s.bd with pcache := s.bd.pcache.prepare cfg block s.off } }) ∨
        (s.bd.pcache.block ≠ none ∧ t = { s with ret := .assertion })) := by
  unfold progBody at hbody
  dsimp only at hbody
  split_ifs at hbody with hstop hcovers hfull hnone
  all_goals
    push Not at hstop
    cases hbody
    refine ⟨hstop.1, Nat.pos_of_ne_zero hstop.2, ?_⟩
  · refine .inl ⟨hcovers, _, rfl, rfl, rfl, rfl, ?_⟩
    unfold Bd.eager
    exact (if_pos hfull).symm
  · refine .inl ⟨hcovers, _, rfl, rfl, rfl, rfl, ?_⟩
    unfold Bd.eager
    exact (if_neg hfull).symm
  · exact .inr (.inl ⟨hcovers, hnone, rfl⟩)
  · exact .inr (.inr ⟨hnone, rfl⟩)

theorem Cache.covers_prepare (c : Cache) : (c.prepare cfg block off).Covers cfg block off := by
  have hle : lfsAligndown off cfg.progSize ≤ off := lfsAligndown_le
  have hlt : off < lfsAligndown off cfg.progSize + cfg.progSize := lt_lfsAligndown cfg.progSize_pos
  have hprog := cfg.progSize_le_cacheSize
  refine ⟨rfl, hle, ?_⟩
  change off < lfsAligndown off cfg.progSize + cfg.cacheSize
  omega

variable (faults validate) in
/-- A flush that is done, if there is anything to flush, leaves the caches where they may be. -/
theorem Bd.Ok.flush (h : bd.Ok cfg) : (lfsBdFlush cfg faults validate bd).2.Ok cfg := by
  cases hblock : bd.pcache.block with
  | none => rwa [lfsBdFlush_none hblock]
  | some block =>
    have hpost := lfsBdFlush_spec faults validate h.aligned h.fits hblock
    refine ⟨hpost.aligned, fun b hb => ?_⟩
    rw [hpost.pcache] at hb ⊢
    split_ifs at hb ⊢ with hok
    · cases hb
    · exact h.fits b hb

variable (faults validate) in
theorem lfsBdFlush_ne (h : bd.Ok cfg) : (lfsBdFlush cfg faults validate bd).1 ≠ .assertion ∧
    (lfsBdFlush cfg faults validate bd).1 ≠ .hangs := by
  cases hblock : bd.pcache.block with
  | none =>
    rw [lfsBdFlush_none hblock]
    exact ⟨(fun h => nomatch h), (fun h => nomatch h)⟩
  | some block =>
    have hpost := lfsBdFlush_spec faults validate h.aligned h.fits hblock
    obtain hret | ⟨hret, -⟩ | ⟨hret, -⟩ := hpost.ret
    all_goals rw [hret]; decide

theorem Bd.Ok.eager (h : bd.Ok cfg) : (bd.eager cfg faults validate).2.Ok cfg := by
  unfold Bd.eager
  split_ifs
  · exact h.flush faults validate
  · exact h

theorem Bd.eager_ne (h : bd.Ok cfg) : (bd.eager cfg faults validate).1 ≠ .hangs := by
  unfold Bd.eager
  split_ifs
  · exact (lfsBdFlush_ne faults validate h).2
  · exact fun hret => nomatch hret

theorem Bd.Ok.store (h : bd.Ok cfg) (hcovers : bd.pcache.Covers cfg block off) {diff : ℕ}
    (hend : off + diff ≤ cfg.blockSize) (hdiff : diff ≤ cfg.cacheSize - (off - bd.pcache.off)) :
    ({ bd with pcache := bd.pcache.store off data diff } : Bd).Ok cfg := by
  obtain ⟨hblock, hle, hlt⟩ := hcovers
  refine ⟨⟨h.aligned.pcache, h.aligned.rcache, h.aligned.calls⟩, fun b hb => ?_⟩
  obtain ⟨hcount, hrange, hsize⟩ := h.fits b hb
  refine ⟨hcount, ?_, ?_⟩
  · change bd.pcache.off + max bd.pcache.size (off + diff - bd.pcache.off) ≤ cfg.blockSize
    omega
  · change max bd.pcache.size (off + diff - bd.pcache.off) ≤ cfg.cacheSize
    omega

theorem Bd.Ok.prepare (h : bd.Ok cfg) (hcount : block < cfg.blockCount)
    (hend : off ≤ cfg.blockSize) :
    ({ bd with pcache := bd.pcache.prepare cfg block off } : Bd).Ok cfg := by
  refine ⟨⟨fun _ => dvd_lfsAligndown, h.aligned.rcache, h.aligned.calls⟩, fun b hb => ?_⟩
  cases hb
  exact ⟨hcount, lfsAligndown_le.trans hend, Nat.zero_le _⟩

/-- The part of the invariant of the loop that no error breaks. -/
structure ProgInv (cfg : Config) (off size : ℕ) (s : ProgState) : Prop where
  off_eq : s.off = off + s.pos
  size_eq : s.pos + s.size = size
  ok : s.bd.Ok cfg
  ret : s.ret ≠ .hangs

/-- Two units for a byte to program, and one if the cache has to be set up first. -/
def ProgState.measure (cfg : Config) (block : ℕ) (s : ProgState) : ℕ :=
  if s.ret = .ok then 2 * s.size + if s.bd.pcache.Covers cfg block s.off then 0 else 1 else 0

theorem progBody_step (hcount : block < cfg.blockCount) (hend : off + size ≤ cfg.blockSize)
    (s t : ProgState) (h : ProgInv cfg off size s)
    (hbody : progBody cfg faults validate block data s = some t) :
    ProgInv cfg off size t ∧ t.measure cfg block < s.measure cfg block := by
  have hoff := h.off_eq
  have hsize := h.size_eq
  obtain ⟨hok, hpos, hcases⟩ := progBody_cases hbody
  have hmeasure : s.measure cfg block =
      2 * s.size + if s.bd.pcache.Covers cfg block s.off then 0 else 1 := if_pos hok
  obtain ⟨hcovers, diff, hdiff, hoff', hsize', hpos', heager⟩ | ⟨hcovers, hnone, rfl⟩ | ⟨-, rfl⟩ :=
    hcases
  · have hrange := hcovers
    obtain ⟨-, hle, hlt⟩ := hrange
    have hstore : ({ s.bd with pcache := s.bd.pcache.store s.off (fun k => data (s.pos + k)) diff } :
        Bd).Ok cfg := h.ok.store hcovers (by omega) (by omega)
    obtain ⟨hret, hbd⟩ := Prod.mk.inj heager
    refine ⟨⟨by omega, by omega, hbd ▸ hstore.eager, hret ▸ Bd.eager_ne hstore⟩, ?_⟩
    rw [hmeasure, if_pos hcovers]
    unfold ProgState.measure
    split_ifs
    all_goals omega
  · refine ⟨⟨hoff, hsize, h.ok.prepare hcount (by omega), h.ret⟩, ?_⟩
    have hafter : (s.bd.pcache.prepare cfg block s.off).Covers cfg block s.off :=
      s.bd.pcache.covers_prepare
    rw [hmeasure, if_neg hcovers]
    unfold ProgState.measure
    rw [if_pos hok, if_pos hafter]
    exact Nat.lt_succ_self _
  · refine ⟨⟨hoff, hsize, h.ok, (fun hret => nomatch hret)⟩, ?_⟩
    rw [hmeasure]
    unfold ProgState.measure
    rw [if_neg (fun hret => nomatch hret)]
    omega

variable (faults validate data) in
/-- The call ends; what the iterations keep on top of that, as long as none fails, holds then. -/
theorem lfsBdProg_spec {I : ProgState → Prop}
    (hI : ∀ s t, ProgInv cfg off size s → I s →
      progBody cfg faults validate block data s = some t → t.ret = .ok → I t)
    (hcount : block < cfg.blockCount) (hend : off + size ≤ cfg.blockSize) (hbd : bd.Ok cfg)
    (hstart : I ⟨bd, off, size, 0, .ok⟩) :
    ∃ t, lfsBdProg cfg faults validate block off data size bd = (t.ret, t.bd) ∧
      ProgInv cfg off size t ∧ (t.ret = .ok → t.size = 0 ∧ I t) := by
  have hlt := cfg.blockSize_lt
  have hmod : (off + size) % 2 ^ 32 = off + size := Nat.mod_eq_of_lt (by omega)
  have hne : Ret.ok ≠ Ret.hangs := by decide
  have hfuel : (⟨bd, off, size, 0, .ok⟩ : ProgState).measure cfg block < 2 * size + 2 := by
    unfold ProgState.measure
    dsimp only
    split_ifs
    all_goals omega
  have hstep (s t : ProgState) (hs : ProgInv cfg off size s ∧ (s.ret = .ok → I s))
      (hbody : progBody cfg faults validate block data s = some t) :
      (ProgInv cfg off size t ∧ (t.ret = .ok → I t)) ∧
        t.measure cfg block < s.measure cfg block := by
    obtain ⟨ht, hless⟩ := progBody_step hcount hend s t hs.1 hbody
    exact ⟨⟨ht, hI s t hs.1 (hs.2 (progBody_cases hbody).1) hbody⟩, hless⟩
  obtain ⟨t, hrun, ⟨ht, hIt⟩, hdone⟩ := runLoop_spec (ProgState.measure cfg block) hstep
    ⟨⟨rfl, Nat.zero_add size, hbd, hne⟩, fun _ => hstart⟩ hfuel
  refine ⟨t, ?_, ht, fun hok => ⟨?_, hIt hok⟩⟩
  · unfold lfsBdProg
    rw [hmod, if_neg (by omega), hrun]
  · by_contra hne
    unfold progBody at hdone
    rw [if_neg (by rintro (hret | hzero); exacts [hret hok, hne hzero])] at hdone
    split_ifs at hdone

end Esp32Embroidery.Littlefs
