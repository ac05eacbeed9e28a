import Esp32Embroidery.Littlefs.BlockRuns

/-!
# The block device as a disk (`littlefs/lfs.c`, lines 44–259)

* `progView_step`: what an iteration of `lfs_bd_prog` does to the bytes of the disk.
* `sys_step`: what a call does to them.
* `read_refines`: a read returns the bytes of the disk, apart from those that, since the read
  cache was last brought up to date, were programmed or erased, or loaded by a read that failed.
-/

namespace Esp32Embroidery.Littlefs

open Esp32Embroidery.Lib

variable {cfg : Config} {faults : Faults} {validate : Bool} {block off size : ℕ} {data : ℕ → Byte}
  {s₀ : Sys}

/-- The caches and the disk between two calls. -/
structure Sys.Inv (cfg : Config) (s : Sys) : Prop where
  ok : s.bd.Ok cfg
  shape : s.bd.Shape cfg
  size_lt : ∀ b, s.bd.pcache.block = some b → s.bd.pcache.size < cfg.cacheSize
  view : ∀ b o, s.bd.contents true b o = s.disk b o
  pending : ∀ b o, s.bd.pcache.Holds b o → (b, o) ∈ s.touched
  fresh : s.bd.Fresh s.touched

/-- The bytes that are not up to date in the read cache within a program of `s₀`. -/
def progTouched (cfg : Config) (validate : Bool) (block off size : ℕ) (s₀ : Sys) (bd : Bd) :
    Set (ℕ × ℕ) :=
  if validate ∧ s₀.bd.calls.length < bd.calls.length then {p | bd.pcache.Holds p.1 p.2}
  else s₀.touched ∪ progRange cfg s₀.bd block off size

/-- The invariant of the loop of a program, started in `s₀`, on top of `ProgInv`. -/
structure ProgView (cfg : Config) (validate : Bool) (block off size : ℕ) (data : ℕ → Byte)
    (s₀ : Sys) (s : ProgState) : Prop where
  shape : s.bd.Shape cfg
  size_lt : ∀ b, s.bd.pcache.block = some b → s.bd.pcache.size < cfg.cacheSize
  view : ∀ b o, s.bd.contents true b o = stored s₀.disk block off data s.pos b o
  blank : ∀ o, s.bd.progStart cfg block s.off ≤ o → o < off + size →
    s.bd.contents true block o = 0xff
  start_le : s₀.bd.progStart cfg block off ≤ s.bd.progStart cfg block s.off
  calls_le : s₀.bd.calls.length ≤ s.bd.calls.length
  pending : ∀ b o, s.bd.pcache.Holds b o → (b, o) ∈ s₀.touched ∪ progRange cfg s₀.bd block off size
  fresh : s.bd.Fresh (progTouched cfg validate block off size s₀ s.bd)

theorem stored_succ {disk : ℕ → ℕ → Byte} {pos diff b o : ℕ} :
    stored disk block off data (pos + diff) b o =
      if b = block ∧ off + pos ≤ o ∧ o < off + pos + diff then data (pos + (o - (off + pos)))
      else stored disk block off data pos b o := by
  unfold stored copyTo
  by_cases hb : b = block
  swap
  · rw [if_neg hb, if_neg hb, if_neg fun h => hb h.1]
  rw [if_pos hb, if_pos hb]
  by_cases hnew : off + pos ≤ o ∧ o < off + pos + diff
  · rw [if_pos (by omega), if_pos ⟨hb, hnew⟩]
    exact congrArg data (by omega)
  · rw [if_neg fun h : b = block ∧ _ => hnew h.2]
    split_ifs
    · rfl
    · omega
    · omega
    · rfl

theorem stored_zero {disk : ℕ → ℕ → Byte} : stored disk block off data 0 = disk := by
  funext b o
  unfold stored copyTo
  split_ifs
  · omega
  · rfl
  · rfl

/-- The program cache is set up; what it may begin with is nothing. -/
theorem ProgView.prepare {s : ProgState} (h : ProgView cfg validate block off size data s₀ s)
    (hnone : s.bd.pcache.block = none) :
    ProgView cfg validate block off size data s₀
      { s with bd := { s.bd with pcache := s.bd.pcache.prepare cfg block s.off } } := by
  have hold (b o : ℕ) : ¬(s.bd.pcache.prepare cfg block s.off).Holds b o := by
    rintro ⟨-, hle, hlt⟩
    change o < (s.bd.pcache.prepare cfg block s.off).off + 0 at hlt
    omega
  have hcontents (b o : ℕ) : ({ s.bd with pcache := s.bd.pcache.prepare cfg block s.off } :
      Bd).contents true b o = s.bd.contents true b o := by
    rw [Bd.contents_of_none hnone]
    exact Bd.contents_of_not_holds fun hp => hold b o hp.2
  have hstart : ({ s.bd with pcache := s.bd.pcache.prepare cfg block s.off } : Bd).progStart cfg
      block s.off = s.bd.progStart cfg block s.off := by
    have hle : lfsAligndown s.off cfg.progSize ≤ s.off := lfsAligndown_le
    have hset : ({ s.bd with pcache := s.bd.pcache.prepare cfg block s.off } : Bd).progStart cfg
        block s.off = min s.off (lfsAligndown s.off cfg.progSize + 0) := if_pos rfl
    have hunset : s.bd.progStart cfg block s.off = lfsAligndown s.off cfg.progSize :=
      if_neg (by rw [hnone]; exact (Option.some_ne_none block).symm)
    rw [hset, hunset]
    omega
  refine ⟨⟨fun k _ hk => h.shape.tail k (fun b hb => ?_) hk, fun b _ k hk => ?_⟩, fun b hb => ?_,
    fun b o => (hcontents b o).trans (h.view b o), fun o ho ho' => ?_, ?_, h.calls_le,
    fun b o hp => absurd hp (hold b o), ?_⟩
  · rw [hnone] at hb
    cases hb
  · exact absurd hk (Nat.not_lt_zero k)
  · exact cfg.cacheSize_pos
  · rw [hcontents]
    exact h.blank o (hstart ▸ ho) ho'
  · rw [hstart]
    exact h.start_le
  · have hfresh := h.fresh
    unfold progTouched at hfresh ⊢
    intro b o hb hT
    refine hfresh b o hb fun hT' => hT ?_
    split_ifs at hT' ⊢ with hv
    · have hp := hT'.1
      rw [hnone] at hp
      cases hp
    · exact hT'

/-- Bytes are stored in the program cache. -/
theorem ProgView.store {s : ProgState} (h : ProgView cfg validate block off size data s₀ s)
    (hinv : ProgInv cfg off size s) (hcovers : s.bd.pcache.Covers cfg block s.off) {diff : ℕ}
    (hsize : diff ≤ s.size) {bd : Bd}
    (hbd : bd = { s.bd with
      pcache := s.bd.pcache.store s.off (fun k => data (s.pos + k)) diff }) :
    bd.Shape cfg ∧
    (∀ b o, bd.contents true b o = stored s₀.disk block off data (s.pos + diff) b o) ∧
    (∀ o, s.off + diff ≤ o → o < off + size → bd.contents true block o = 0xff) ∧
    (∀ b o, bd.pcache.Holds b o → (b, o) ∈ s₀.touched ∪ progRange cfg s₀.bd block off size) ∧
    bd.Fresh (progTouched cfg validate block off size s₀ bd) := by
  have hoff := hinv.off_eq
  have hsum := hinv.size_eq
  have hstop : s.off + diff ≤ off + size := by omega
  have hcontents := store_contents (fun k => data (s.pos + k)) h.shape hcovers hstop h.blank
  have hstart := Bd.progStart_of_covers hcovers
  have hle := h.start_le
  have hshape := h.shape.store (fun k => data (s.pos + k)) hcovers hstop h.blank
  obtain ⟨hblock, hlow, hhigh⟩ := hcovers
  subst hbd
  refine ⟨hshape, fun b o => ?_, fun o ho ho' => ?_, ?_, ?_⟩
  · rw [hcontents b o, h.view b o, stored_succ, ← hoff]
  · rw [hcontents, if_neg fun hnew => by omega]
    refine h.blank o ?_ ho'
    rw [hstart]
    omega
  · rintro b o ⟨hb, hlo, hhi⟩
    change o < s.bd.pcache.off + max s.bd.pcache.size (s.off + diff - s.bd.pcache.off) at hhi
    change s.bd.pcache.off ≤ o at hlo
    by_cases hold : o < s.bd.pcache.off + s.bd.pcache.size
    · exact h.pending b o ⟨hb, hlo, hold⟩
    · rw [hstart] at hle
      refine .inr ⟨Option.some.inj (hb.symm.trans hblock), ?_, ?_⟩
      all_goals dsimp only; omega
  · have hfresh := h.fresh
    unfold progTouched at hfresh ⊢
    intro b o hb hT
    refine hfresh b o hb fun hT' => hT ?_
    split_ifs at hT' ⊢ with hv
    · obtain ⟨hb', hlo, hhi⟩ := hT'
      refine ⟨hb', hlo, ?_⟩
      change o < s.bd.pcache.off + max s.bd.pcache.size (s.off + diff - s.bd.pcache.off)
      omega
    · exact hT'

/-- A flush keeps what the read cache may have missed; a validated one leaves it fresh. -/
theorem flush_progTouched {bd : Bd} (hok : bd.Ok cfg) (hshape : bd.Shape cfg)
    (hblock : bd.pcache.block = some block)
    (hfresh : bd.Fresh (progTouched cfg validate block off size s₀ bd))
    (hpending : ∀ b o, bd.pcache.Holds b o →
      (b, o) ∈ s₀.touched ∪ progRange cfg s₀.bd block off size)
    (hret : (lfsBdFlush cfg faults validate bd).1 = .ok) :
    (lfsBdFlush cfg faults validate bd).2.Fresh
      (progTouched cfg validate block off size s₀ (lfsBdFlush cfg faults validate bd).2) := by
  have hblocked : bd.pcache.block ≠ none := by
    rw [hblock]
    exact Option.some_ne_none block
  unfold progTouched at hfresh ⊢
  cases validate with
  | true =>
    have hempty := (flush_fresh (T := Set.univ) hok hshape
      (fun b o _ hT => absurd (Set.mem_univ _) hT) (fun b o _ => Set.mem_univ _) hret).2
    exact fun b o hb _ => hempty ⟨rfl, hblocked⟩ b o hb (Set.notMem_empty _)
  | false =>
    rw [if_neg fun hv => nomatch hv.1] at hfresh ⊢
    exact (flush_fresh hok hshape hfresh hpending hret).1

/-- An iteration that fills the program cache, and flushes it. -/
theorem ProgView.full {s t : ProgState} (h : ProgView cfg validate block off size data s₀ s)
    (hinv : ProgInv cfg off size s) (hend : off + size ≤ cfg.blockSize)
    (hcovers : s.bd.pcache.Covers cfg block s.off) {diff : ℕ} (hsize : diff ≤ s.size)
    (hroom : diff ≤ cfg.cacheSize - (s.off - s.bd.pcache.off)) {bd : Bd}
    (hbd : bd = { s.bd with pcache := s.bd.pcache.store s.off (fun k => data (s.pos + k)) diff })
    (hfull : bd.pcache.size = cfg.cacheSize) (hoff : t.off = s.off + diff)
    (hpos : t.pos = s.pos + diff) (hret : (lfsBdFlush cfg faults validate bd).1 = .ok)
    (ht : t.bd = (lfsBdFlush cfg faults validate bd).2) :
    ProgView cfg validate block off size data s₀ t := by
  have hstart_off := hinv.off_eq
  have hsum := hinv.size_eq
  have hle := h.start_le
  have hcalls := h.calls_le
  have hlt := h.size_lt block hcovers.1
  have halign : cfg.progSize ∣ s.bd.pcache.off :=
    hinv.ok.aligned.pcache (by rw [hcovers.1]; exact Option.some_ne_none block)
  have hokbd : bd.Ok cfg := hbd ▸ hinv.ok.store hcovers (by omega) hroom
  obtain ⟨hshape, hview, hblank, hpending, hfresh⟩ := h.store hinv hcovers hsize hbd
  have hstart := Bd.progStart_of_covers hcovers
  obtain ⟨hblock, hlow, hhigh⟩ := hcovers
  have hblock' : bd.pcache.block = some block := by rw [hbd]; exact hblock
  have hsize' : bd.pcache.size = max s.bd.pcache.size (s.off + diff - s.bd.pcache.off) := by
    rw [hbd]
    rfl
  have hcalls' : bd.calls = s.bd.calls := by rw [hbd]
  obtain ⟨hshape', hnone, hmoved⟩ := flush_contents hokbd hshape hret
  have hmono := (lfsBdFlush_spec faults validate hokbd.aligned hokbd.fits hblock').calls_lt
  have hkept := flush_progTouched hokbd hshape hblock' hfresh hpending hret
  rw [← ht] at hshape' hnone hmoved hmono hkept
  rw [hcalls'] at hmono
  have hlast : t.off = s.bd.pcache.off + cfg.cacheSize := by omega
  have hstart' : t.bd.progStart cfg block t.off = t.off := by
    unfold Bd.progStart
    rw [hnone, if_neg (Option.some_ne_none block).symm, hlast]
    exact lfsAligndown_of_dvd (Nat.dvd_add halign cfg.progSize_dvd_cacheSize)
  refine ⟨hshape', fun b hb => ?_, fun b o => ?_, fun o ho ho' => ?_, by omega, by omega,
    fun b o hp => ?_, hkept⟩
  · rw [hnone] at hb
    cases hb
  · rw [Bd.contents_of_none hnone, hmoved, hview, hpos]
  · rw [Bd.contents_of_none hnone, hmoved]
    exact hblank o (by omega) ho'
  · have hb := hp.1
    rw [hnone] at hb
    cases hb

/-- An iteration that leaves room in the program cache. -/
theorem ProgView.partly {s t : ProgState} (h : ProgView cfg validate block off size data s₀ s)
    (hinv : ProgInv cfg off size s) (hcovers : s.bd.pcache.Covers cfg block s.off) {diff : ℕ}
    (hsize : diff ≤ s.size) (hroom : diff ≤ cfg.cacheSize - (s.off - s.bd.pcache.off))
    (hoff : t.off = s.off + diff) (hpos : t.pos = s.pos + diff) (ht : t.bd = { s.bd with
      pcache := s.bd.pcache.store s.off (fun k => data (s.pos + k)) diff })
    (hnot : t.bd.pcache.size ≠ cfg.cacheSize) :
    ProgView cfg validate block off size data s₀ t := by
  have hle := h.start_le
  have hlt := h.size_lt block hcovers.1
  obtain ⟨hshape, hview, hblank, hpending, hfresh⟩ := h.store hinv hcovers hsize ht
  have hstart := Bd.progStart_of_covers hcovers
  obtain ⟨hblock, hlow, hhigh⟩ := hcovers
  have hpoff : t.bd.pcache.off = s.bd.pcache.off := by rw [ht]; rfl
  have hpsize : t.bd.pcache.size = max s.bd.pcache.size (s.off + diff - s.bd.pcache.off) := by
    rw [ht]
    rfl
  have hstart' : t.bd.progStart cfg block t.off = t.off := by
    have hset : t.bd.progStart cfg block t.off = min t.off (t.bd.pcache.off + t.bd.pcache.size) :=
      if_pos (by rw [ht]; exact hblock)
    omega
  refine ⟨hshape, fun b _ => by omega, fun b o => ?_, fun o ho ho' => hblank o (by omega) ho',
    by omega, ?_, hpending, hfresh⟩
  · rw [hview, hpos]
  · rw [ht]
    exact h.calls_le

/-- What an iteration does, as long as no call fails. -/
theorem progView_step (s t : ProgState) (hinv : ProgInv cfg off size s)
    (h : ProgView cfg validate block off size data s₀ s) (hend : off + size ≤ cfg.blockSize)
    (hbody : progBody cfg faults validate block data s = some t) (hok : t.ret = .ok) :
    ProgView cfg validate block off size data s₀ t := by
  obtain ⟨-, hpos, hcases⟩ := progBody_cases hbody
  obtain ⟨hcovers, diff, hdiff, hoff, hsize, hpos', heager⟩ | ⟨-, hnone, rfl⟩ | ⟨-, rfl⟩ := hcases
  · unfold Bd.eager at heager
    split_ifs at heager with hcache
    · obtain ⟨hret, hbd⟩ := Prod.ext_iff.1 heager
      exact h.full hinv hend hcovers (by omega) (by omega) rfl hcache hoff hpos'
        (hret.symm.trans hok) hbd
    · obtain ⟨-, hbd⟩ := Prod.ext_iff.1 heager
      dsimp only at hbd
      have hnot : t.bd.pcache.size ≠ cfg.cacheSize := by
        rw [hbd]
        exact hcache
      exact h.partly hinv hcovers (by omega) (by omega) hoff hpos' hbd hnot
  · exact h.prepare hnone
  · cases hok

/-! ## The calls -/

section

variable {s : Sys} {flash : ℕ → ℕ → Byte} {pcache rcache : Cache}

theorem Bd.contents_eq_of {bd bd' : Bd} (hflash : bd'.flash = bd.flash)
    (hpcache : bd'.pcache = bd.pcache) (usePcache : Bool) (b o : ℕ) :
    bd'.contents usePcache b o = bd.contents usePcache b o := by
  unfold Bd.contents
  rw [hflash, hpcache]

/-- The bytes that the read cache may have missed after a read. -/
def readTouched (s : Sys) (r : Ret × (ℕ → Byte) × Bd) : Set (ℕ × ℕ) :=
  if r.1 = .io then s.touched ∪ {p | r.2.2.rcache.Holds p.1 p.2} else s.touched

theorem Sys.Inv.of_readPost (h : s.Inv cfg) {usePcache : Bool} {r : Ret × (ℕ → Byte) × Bd}
    (hpost : ReadPost cfg faults usePcache block off size s.bd s.touched r)
    (hok : r.2.2.Ok cfg) : (⟨r.2.2, s.disk, readTouched s r⟩ : Sys).Inv cfg := by
  obtain ⟨ret, data, bd⟩ := r
  obtain ⟨hret, hflash, hpcache, -, -, hfresh, -⟩ := hpost
  dsimp only at hok hret hflash hpcache hfresh ⊢
  unfold readTouched
  refine ⟨hok, ⟨fun k hk => ?_, fun b hb => ?_⟩, fun b hb => ?_, fun b o => ?_, fun b o hp => ?_,
    ?_⟩
  · rw [hpcache] at hk ⊢
    exact h.shape.tail k hk
  · rw [hpcache] at hb ⊢
    rw [hflash]
    exact h.shape.blank b hb
  · rw [hpcache] at hb ⊢
    exact h.size_lt b hb
  · exact (Bd.contents_eq_of hflash hpcache true b o).trans (h.view b o)
  · dsimp only at hp ⊢
    rw [hpcache] at hp
    have hT := h.pending b o hp
    split_ifs
    · exact .inl hT
    · exact hT
  · obtain hret | ⟨hret, -⟩ := hret
    · have hne : ret ≠ .io := by rw [hret]; decide
      rw [if_neg hne]
      exact hfresh hret
    · rw [if_pos hret]
      exact fun b o hb hT => absurd (Or.inr hb) hT

/-- A read leaves the disk as it is. -/
theorem Sys.Inv.read (h : s.Inv cfg) {usePcache : Bool} {hint : ℕ} (hhint : size = 0 ∨ 0 < hint)
    (hsum : off + size + hint + cfg.readSize ≤ 2 ^ 32) :
    (⟨(lfsBdRead cfg faults usePcache hint block off data size s.bd).2.2, s.disk,
      readTouched s (lfsBdRead cfg faults usePcache hint block off data size s.bd)⟩ : Sys).Inv
        cfg := by
  by_cases hin : cfg.blockCount ≤ block ∨ cfg.blockSize < (off + size) % 2 ^ 32
  · rw [lfsBdRead_of_corrupt hin]
    exact h
  · have hunit := cfg.readSize_pos
    rw [Nat.mod_eq_of_lt (show off + size < 2 ^ 32 by omega)] at hin
    have hpost := lfsBdRead_spec faults usePcache data hhint hsum
      (show block < cfg.blockCount by omega) (by omega) h.ok.aligned h.fresh
    exact h.of_readPost hpost (h.ok.read hhint hsum).1

/-- A program stores its bytes. -/
theorem Sys.Inv.prog (h : s.Inv cfg) (hsum : off + size < 2 ^ 32)
    (hblank : ∀ o, s.bd.progStart cfg block off ≤ o → o < off + size → s.disk block o = 0xff)
    (hok : (lfsBdProg cfg faults validate block off data size s.bd).1 = .ok) :
    (⟨(lfsBdProg cfg faults validate block off data size s.bd).2,
      stored s.disk block off data size,
      progTouched cfg validate block off size s
        (lfsBdProg cfg faults validate block off data size s.bd).2⟩ : Sys).Inv cfg := by
  by_cases hin : cfg.blockCount ≤ block ∨ cfg.blockSize < (off + size) % 2 ^ 32
  · unfold lfsBdProg at hok
    rw [if_pos hin] at hok
    cases hok
  rw [Nat.mod_eq_of_lt hsum] at hin
  have hend : off + size ≤ cfg.blockSize := by omega
  have hstart : ProgView cfg validate block off size data s ⟨s.bd, off, size, 0, .ok⟩ := by
    refine ⟨h.shape, h.size_lt, fun b o => ?_, fun o ho ho' => ?_, le_rfl, le_rfl,
      fun b o hp => .inl (h.pending b o hp), ?_⟩
    · rw [stored_zero]
      exact h.view b o
    · rw [h.view]
      exact hblank o ho ho'
    · unfold progTouched
      rw [if_neg fun hv => Nat.lt_irrefl _ hv.2]
      exact fun b o hb hT => h.fresh b o hb fun hT' => hT (.inl hT')
  obtain ⟨t, ht, hinv, hdone⟩ := lfsBdProg_spec faults validate data
    (I := ProgView cfg validate block off size data s)
    (fun s' t' hinv' hs' hbody hret => progView_step s' t' hinv' hs' hend hbody hret)
    (show block < cfg.blockCount by omega) hend h.ok hstart
  rw [ht] at hok ⊢
  obtain ⟨hsize, hview⟩ := hdone hok
  have hpos : t.pos = size := by
    have hsum := hinv.size_eq
    omega
  refine ⟨hinv.ok, hview.shape, hview.size_lt, fun b o => ?_, fun b o hp => ?_, hview.fresh⟩
  · have hb := hview.view b o
    rwa [hpos] at hb
  · have hT := hview.pending b o hp
    unfold progTouched
    split_ifs
    · exact hp
    · exact hT

/-- What a flush that succeeds leaves, and that nothing is pending then. -/
theorem Sys.Inv.flush (h : s.Inv cfg) {T : Set (ℕ × ℕ)}
    (hok : (lfsBdFlush cfg faults validate s.bd).1 = .ok)
    (hfresh : (lfsBdFlush cfg faults validate s.bd).2.Fresh T) :
    (⟨(lfsBdFlush cfg faults validate s.bd).2, s.disk, T⟩ : Sys).Inv cfg := by
  obtain ⟨hshape, hnone, hmoved⟩ := flush_contents h.ok h.shape hok
  have hempty (b : ℕ) : (lfsBdFlush cfg faults validate s.bd).2.pcache.block ≠ some b := by
    rw [hnone]
    exact (Option.some_ne_none b).symm
  refine ⟨h.ok.flush faults validate, hshape, fun b hb => absurd hb (hempty b), fun b o => ?_,
    fun b o hp => absurd hp.1 (hempty b), hfresh⟩
  exact (Bd.contents_of_none hnone).trans ((hmoved b o).trans (h.view b o))

theorem flush_fresh_drop (h : s.Inv cfg)
    (hok : (lfsBdFlush cfg faults validate { s.bd with rcache := s.bd.rcache.drop }).1 = .ok) :
    (lfsBdFlush cfg faults validate { s.bd with rcache := s.bd.rcache.drop }).2.Fresh ∅ := by
  have hdrop := h.ok.drop
  cases hblock : s.bd.pcache.block with
  | none =>
    rw [lfsBdFlush_none (by exact hblock)]
    exact fun b o hb => nomatch hb.1
  | some block =>
    have hpost := lfsBdFlush_spec faults validate hdrop.aligned hdrop.fits hblock
    cases validate with
    | true => exact hpost.fresh rfl hok
    | false =>
      intro b o hb
      rw [hpost.rcache rfl] at hb
      exact nomatch hb.1

theorem Sys.Inv.sync (h : s.Inv cfg) (hok : (lfsBdSync cfg faults validate s.bd).1 = .ok) :
    (⟨(lfsBdSync cfg faults validate s.bd).2, s.disk, ∅⟩ : Sys).Inv cfg := by
  have hdrop : (⟨{ s.bd with rcache := s.bd.rcache.drop }, s.disk, s.touched⟩ : Sys).Inv cfg :=
    ⟨h.ok.drop, ⟨h.shape.tail, h.shape.blank⟩, h.size_lt, h.view, h.pending,
      fun b o hb => nomatch hb.1⟩
  unfold lfsBdSync at hok ⊢
  have hflush (hok : (lfsBdFlush cfg faults validate { s.bd with rcache := s.bd.rcache.drop }).1 =
      .ok) := hdrop.flush hok (flush_fresh_drop h hok)
  dsimp only at hflush
  generalize lfsBdFlush cfg faults validate { s.bd with rcache := s.bd.rcache.drop } = r at *
  obtain ⟨ret, bd⟩ := r
  cases ret
  case ok =>
    have hinv := hflush rfl
    exact ⟨⟨hinv.ok.aligned.call trivial, hinv.ok.fits⟩, ⟨hinv.shape.tail, hinv.shape.blank⟩,
      hinv.size_lt, hinv.view, hinv.pending, hinv.fresh⟩
  all_goals cases hok

theorem Sys.Inv.erase (h : s.Inv cfg) (hpending : s.bd.pcache.block ≠ some block)
    (hok : (lfsBdErase cfg faults block s.bd).1 = .ok) :
    (⟨(lfsBdErase cfg faults block s.bd).2,
      fun b o => if b = block then 0xff else s.disk b o,
      s.touched ∪ {p | p.1 = block}⟩ : Sys).Inv cfg := by
  have hinv : (lfsBdErase cfg faults block s.bd).2.Ok cfg := h.ok.erase.1
  unfold lfsBdErase at hok hinv ⊢
  dsimp only at hok hinv ⊢
  split_ifs at hok hinv ⊢ with hcount hfail
  have hne {b : ℕ} (hb : s.bd.pcache.block = some b) : b ≠ block := by
    rintro rfl
    exact hpending hb
  refine ⟨hinv, ⟨h.shape.tail, fun b hb k hk => ?_⟩, h.size_lt, fun b o => ?_,
    fun b o hp => .inl (h.pending b o hp), fun b o hb hT => ?_⟩
  · exact (if_neg (hne hb)).trans (h.shape.blank b hb k hk)
  · by_cases hb : b = block
    · unfold Bd.contents
      dsimp only
      rw [if_neg fun hp => hne hp.2.1 hb, if_pos hb, if_pos hb]
    · have hview := h.view b o
      dsimp only
      rw [if_neg hb, ← hview]
      unfold Bd.contents
      dsimp only
      rw [if_neg hb]
  · have hb' : b ≠ block := fun heq => hT (.inr heq)
    exact (h.fresh b o hb fun hT' => hT (.inl hT')).trans (if_neg hb').symm

theorem Sys.Inv.init :
    (⟨⟨flash, pcache.zero cfg, rcache.zero cfg, []⟩, flash, ∅⟩ : Sys).Inv cfg where
  ok := Bd.Ok.init
  shape := Bd.Shape.of_zero ⟨pcache, rfl⟩
  size_lt := fun _ hb => nomatch hb
  view := fun _ _ => Bd.contents_of_none rfl
  pending := fun _ _ hp => nomatch hp.1
  fresh := fun _ _ hb => nomatch hb.1

/-- Every call keeps the invariant that littlefs makes as it should and that succeeds. -/
theorem sys_step {op : Op} {t : Sys} (h : s.Inv cfg)
    (hstep : (blockMachine cfg faults flash pcache rcache).step s op = some t)
    (hbounded : op.Bounded cfg) (hcareful : op.Careful cfg s)
    (hok : op.Succeeds cfg faults s) : t.Inv cfg := by
  rw [step_eq hstep]
  cases op with
  | read usePcache hint block off size => exact h.read hbounded.1 hbounded.2
  | prog validate block off data size => exact h.prog hbounded hcareful hok
  | flush validate =>
    have hok' : (lfsBdFlush cfg faults validate s.bd).1 = .ok := hok
    obtain ⟨hkept, hempty⟩ := flush_fresh h.ok h.shape h.fresh h.pending hok'
    refine h.flush hok' ?_
    unfold touchedAfter
    dsimp only
    split_ifs with hv
    · -- the cache was not empty, as the device was called
      refine hempty ⟨hv.1, fun hnone => ?_⟩
      have hlt := hv.2
      change s.bd.calls.length < (lfsBdFlush cfg faults validate s.bd).2.calls.length at hlt
      rw [lfsBdFlush_none hnone] at hlt
      exact Nat.lt_irrefl _ hlt
    · exact hkept
  | sync validate => exact h.sync hok
  | erase block => exact h.erase hcareful hok

/-- In every run of calls that littlefs makes as it should, with reads that may fail: a read that
    returns 0 has the bytes of the disk where the program cache has them and is looked at, and
    where, since the last `lfs_bd_sync` or validated flush, the disk was not changed and no failing
    read has left its bytes in the read cache. -/
theorem read_refines
    (h : (blockMachine cfg faults flash pcache rcache).ReachableBy
      (fun s op _ => op.Bounded cfg ∧ op.Careful cfg s ∧ op.Succeeds cfg faults s) s)
    {usePcache : Bool} {hint : ℕ} (hhint : size = 0 ∨ 0 < hint)
    (hsum : off + size + hint + cfg.readSize ≤ 2 ^ 32)
    (hok : (lfsBdRead cfg faults usePcache hint block off data size s.bd).1 = .ok) :
    ∀ i < size, (usePcache ∧ s.bd.pcache.Holds block (off + i)) ∨ (block, off + i) ∉ s.touched →
      (lfsBdRead cfg faults usePcache hint block off data size s.bd).2.1 i =
        s.disk block (off + i) := by
  have hinv : s.Inv cfg := by
    refine h.invariant (I := fun s => s.Inv cfg) Sys.Inv.init fun s op t _ hs hstep hop => ?_
    exact sys_step hs hstep hop.1 hop.2.1 hop.2.2
  by_cases hin : cfg.blockCount ≤ block ∨ cfg.blockSize < (off + size) % 2 ^ 32
  · rw [lfsBdRead_of_corrupt hin] at hok
    cases hok
  have hunit := cfg.readSize_pos
  rw [Nat.mod_eq_of_lt (show off + size < 2 ^ 32 by omega)] at hin
  have hpost := lfsBdRead_spec faults usePcache data hhint hsum
    (show block < cfg.blockCount by omega) (by omega) hinv.ok.aligned hinv.fresh
  intro i hi hsure
  rw [hpost.data hok i hi hsure, ← hinv.view]
  unfold Bd.contents
  by_cases hheld : s.bd.pcache.Holds block (off + i)
  · have huse : usePcache = true := by
      rcases hsure with huse | hT
      · exact huse.1
      · exact absurd (hinv.pending _ _ hheld) hT
    rw [huse]
  · rw [if_neg fun hp => hheld hp.2, if_neg fun hp => hheld hp.2]

/-- A call that returns 0 goes on with such a run. -/
theorem reachableBy_exec (op : Op)
    (h : (blockMachine cfg faults flash pcache rcache).ReachableBy
      (fun s op _ => op.Bounded cfg ∧ op.Careful cfg s ∧ op.Succeeds cfg faults s) s)
    (hbounded : op.Bounded cfg) (hcareful : op.Careful cfg s)
    (hok : (s.bd.exec cfg faults op).1 = .ok) :
    (blockMachine cfg faults flash pcache rcache).ReachableBy
      (fun s op _ => op.Bounded cfg ∧ op.Careful cfg s ∧ op.Succeeds cfg faults s)
      ⟨(s.bd.exec cfg faults op).2, diskAfter s.disk op,
        touchedAfter cfg s (s.bd.exec cfg faults op) op⟩ := by
  refine h.step (step_of_ok hok) ⟨hbounded, hcareful, ?_⟩
  cases op
  case read => exact trivial
  all_goals exact hok

/-- Four bytes that are programmed and synchronised, and read into the read cache. -/
theorem read_refines_four :
    (lfsBdRead (esp32LittlefsHal 4) noFaults false 8 1 0 (fun _ => 0) 4
      (((blockMachine (esp32LittlefsHal 4) noFaults (fun _ _ => 0xff) ⟨none, 0, 0, fun _ => 0⟩
        ⟨none, 0, 0, fun _ => 0⟩).init.bd.exec (esp32LittlefsHal 4) noFaults
          (.prog false 1 0 (fun _ => 0x5a) 4)).2.exec (esp32LittlefsHal 4) noFaults
            (.sync false)).2).2.1 3 = 0x5a := by
  have hprog : (Op.prog false 1 0 (fun _ => 0x5a) 4).Bounded (esp32LittlefsHal 4) := by
    change 0 + 4 < 2 ^ 32
    decide
  have hreach := reachableBy_exec (.sync false) (reachableBy_exec
    (.prog false 1 0 (fun _ => 0x5a) 4) (Machine.ReachableBy.init
      (M := blockMachine (esp32LittlefsHal 4) noFaults (fun _ _ => 0xff) ⟨none, 0, 0, fun _ => 0⟩
        ⟨none, 0, 0, fun _ => 0⟩)) hprog (fun _ _ _ => rfl) (by decide)) trivial trivial (by decide)
  refine read_refines hreach ?_ ?_ ?_ 3 ?_ (.inr (Set.notMem_empty _))
  all_goals decide

end

end Esp32Embroidery.Littlefs
