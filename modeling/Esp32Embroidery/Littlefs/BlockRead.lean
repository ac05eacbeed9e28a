import Esp32Embroidery.Littlefs.BlockDevice

/-!
# Reading a block (`littlefs/lfs.c`, lines 44–151)

* `readBody_step`: what an iteration of `lfs_bd_read` keeps, and the measure that it lowers.
* `lfsBdRead_spec`: a read ends, and what it returned is in the program cache or on the device.
* `lfsBdCmp_spec`: a comparison that says equal has seen equal bytes.
-/

namespace Esp32Embroidery.Littlefs

open Esp32Embroidery.Lib

variable {cfg : Config} {faults : Faults} {usePcache : Bool} {hint block off size : ℕ} {bd : Bd}
  {T : Set (ℕ × ℕ)}

/-- The caches begin where the device can be read and programmed. -/
structure Bd.Aligned (cfg : Config) (bd : Bd) : Prop where
  pcache : bd.pcache.block ≠ none → cfg.progSize ∣ bd.pcache.off
  rcache : bd.rcache.block ≠ none → cfg.readSize ∣ bd.rcache.off
  calls : ∀ c ∈ bd.calls, c.Valid cfg

/-- The bytes of the block that a read is sure of: those that are in the program cache it looks
    at, and those outside of `T`. -/
def Bd.Sure (bd : Bd) (usePcache : Bool) (T : Set (ℕ × ℕ)) (block o : ℕ) : Prop :=
  (usePcache ∧ bd.pcache.Holds block o) ∨ (block, o) ∉ T

/-- The invariant of the loop of a read of `size` bytes from `off` on, started with `bd`. -/
structure ReadInv (cfg : Config) (faults : Faults) (usePcache : Bool) (block off size : ℕ) (bd : Bd)
    (T : Set (ℕ × ℕ)) (s : ReadState) : Prop where
  off_eq : s.off = off + s.pos
  size_eq : s.pos + s.size = size
  flash_eq : s.bd.flash = bd.flash
  pcache_eq : s.bd.pcache = bd.pcache
  calls_le : bd.calls.length ≤ s.bd.calls.length
  aligned : s.bd.Aligned cfg
  ret : s.ret = .ok ∨ s.ret = .io ∧ ∃ n, faults.fails n = true
  fresh : s.ret = .ok → s.bd.Fresh T
  data : s.ret = .ok → ∀ i < s.pos, bd.Sure usePcache T block (off + i) →
    s.data i = bd.contents usePcache block (off + i)

/-- Two units for a byte to read, and one if it has to be loaded first. -/
def ReadState.measure (block : ℕ) (s : ReadState) : ℕ :=
  if s.ret = .ok then 2 * s.size + if s.bd.rcache.Holds block s.off then 0 else 1 else 0

section

variable {s : ReadState} {diff : ℕ} {src : ℕ → Byte}

theorem ReadState.measure_ok (hok : s.ret = .ok) :
    s.measure block = 2 * s.size + if s.bd.rcache.Holds block s.off then 0 else 1 :=
  if_pos hok

theorem ReadState.measure_io (hio : s.ret = .io) : s.measure block = 0 :=
  if_neg (by rw [hio]; decide)

theorem ReadState.measure_pos (hok : s.ret = .ok) (hsize : 0 < s.size) : 0 < s.measure block := by
  rw [ReadState.measure_ok hok]
  omega

theorem ReadState.measure_take (hok : s.ret = .ok) (hpos : 0 < diff) (hle : diff ≤ s.size)
    {t : ReadState} (ht : t.ret = .ok) (hsize : t.size = s.size - diff) :
    t.measure block < s.measure block := by
  rw [ReadState.measure_ok hok, ReadState.measure_ok ht, hsize]
  split_ifs
  all_goals omega

/-- Bytes are copied. -/
theorem ReadInv.take (h : ReadInv cfg faults usePcache block off size bd T s) (hok : s.ret = .ok)
    (hle : diff ≤ s.size)
    (hsrc : ∀ k < diff, bd.Sure usePcache T block (s.off + k) →
      src k = bd.contents usePcache block (s.off + k)) :
    ReadInv cfg faults usePcache block off size bd T (s.take src diff) where
  off_eq := by
    have hoff := h.off_eq
    change s.off + diff = off + (s.pos + diff)
    omega
  size_eq := by
    have hsize := h.size_eq
    change s.pos + diff + (s.size - diff) = size
    omega
  flash_eq := h.flash_eq
  pcache_eq := h.pcache_eq
  calls_le := h.calls_le
  aligned := h.aligned
  ret := h.ret
  fresh := h.fresh
  data := by
    intro _ i hi hsure
    have hoff := h.off_eq
    change i < s.pos + diff at hi
    change copyTo s.data s.pos src diff i = _
    by_cases hold : i < s.pos
    · rw [copyTo_below hold]
      exact h.data hok i hold hsure
    · obtain ⟨k, rfl⟩ := Nat.exists_eq_add_of_le (Nat.not_lt.1 hold)
      rw [copyTo_inside (by omega)]
      have haddr : off + (s.pos + k) = s.off + k := by omega
      rw [haddr] at hsure ⊢
      exact hsrc k (by omega) hsure

theorem Bd.contents_of_holds {o : ℕ} (huse : usePcache = true) (h : bd.pcache.Holds block o) :
    bd.contents usePcache block o = bd.pcache.buffer (o - bd.pcache.off) :=
  if_pos ⟨huse, h⟩

theorem Bd.contents_of_not_holds {o : ℕ} (h : ¬(usePcache ∧ bd.pcache.Holds block o)) :
    bd.contents usePcache block o = bd.flash block o :=
  if_neg h

theorem Bd.Aligned.call (h : bd.Aligned cfg) {c : Call} (hc : c.Valid cfg) :
    ({ bd with calls := c :: bd.calls } : Bd).Aligned cfg where
  pcache := h.pcache
  rcache := h.rcache
  calls := by
    intro c' hc'
    obtain rfl | hc' := List.mem_cons.1 hc'
    · exact hc
    · exact h.calls c' hc'

/-- The hypotheses on the bytes that are read next: the program cache has none of them, and if
    they are read from the device, then a whole unit. -/
structure Uncached (cfg : Config) (usePcache : Bool) (block : ℕ) (bd : Bd) (s : ReadState)
    (diff : ℕ) : Prop where
  pos : 0 < diff
  le : diff ≤ s.size
  unit : s.off % cfg.readSize = 0 → cfg.readSize ≤ s.size → cfg.readSize ≤ diff
  not_holds : ∀ o, s.off ≤ o → o < s.off + diff → ¬(usePcache ∧ bd.pcache.Holds block o)

theorem ReadInv.bypass (h : ReadInv cfg faults usePcache block off size bd T s) (hok : s.ret = .ok)
    (hun : Uncached cfg usePcache block bd s diff) (hblock : block < cfg.blockCount)
    (hend : off + size ≤ cfg.blockSize) (hunit : s.off % cfg.readSize = 0)
    (hsize : cfg.readSize ≤ s.size) :
    ReadInv cfg faults usePcache block off size bd T
        (s.bypass faults block (lfsAligndown diff cfg.readSize)) ∧
      (s.bypass faults block (lfsAligndown diff cfg.readSize)).measure block <
        s.measure block := by
  have hr := cfg.readSize_pos
  have hoff := h.off_eq
  have hsum := h.size_eq
  have hdiff := hun.unit hunit hsize
  have hdiffle := hun.le
  have hle : lfsAligndown diff cfg.readSize ≤ diff := lfsAligndown_le
  have hcalls := h.calls_le.trans (Nat.le_succ _)
  have hpos : 0 < lfsAligndown diff cfg.readSize := by
    have hlt := lt_lfsAligndown (a := diff) hr
    omega
  have hvalid : (Call.read block s.off (lfsAligndown diff cfg.readSize)).Valid cfg :=
    ⟨hblock, Nat.dvd_of_mod_eq_zero hunit, dvd_lfsAligndown, hpos, by omega⟩
  unfold ReadState.bypass
  dsimp only
  split_ifs with hfail
  · exact ⟨⟨hoff, hsum, h.flash_eq, h.pcache_eq, hcalls, h.aligned.call hvalid,
      .inr ⟨rfl, _, hfail⟩, (fun hret => nomatch hret), (fun hret => nomatch hret)⟩,
      by rw [ReadState.measure_io rfl]; exact ReadState.measure_pos hok (by omega)⟩
  · have hsrc (k : ℕ) (hk : k < lfsAligndown diff cfg.readSize)
        (_ : bd.Sure usePcache T block (s.off + k)) :
        s.bd.flash block (s.off + k) = bd.contents usePcache block (s.off + k) := by
      rw [Bd.contents_of_not_holds (hun.not_holds _ (by omega) (by omega)), h.flash_eq]
    have htake := h.take hok (hle.trans hdiffle) hsrc
    exact ⟨⟨htake.off_eq, htake.size_eq, htake.flash_eq, htake.pcache_eq, hcalls,
      h.aligned.call hvalid, htake.ret, h.fresh, htake.data⟩,
      ReadState.measure_take hok hpos (hle.trans hdiffle) hok rfl⟩

/-- What the cache is loaded with: whole units within the block, the next byte among them. -/
theorem load_range (hhint : 0 < hint) (hsum : off + hint + cfg.readSize ≤ 2 ^ 32)
    (hlt : off < cfg.blockSize) {start len : ℕ} (hstart : start = lfsAligndown off cfg.readSize)
    (hlen : len = min (min (lfsAlignup ((off + hint) % 2 ^ 32) cfg.readSize) cfg.blockSize - start)
      cfg.cacheSize) :
    start ≤ off ∧ off < start + len ∧ cfg.readSize ∣ start ∧ cfg.readSize ∣ len ∧
      start + len ≤ cfg.blockSize := by
  have hr := cfg.readSize_pos
  have hcache : cfg.readSize ≤ cfg.cacheSize :=
    Nat.le_of_dvd cfg.cacheSize_pos cfg.readSize_dvd_cacheSize
  have hup := le_lfsAlignup (a := off + hint) hr hsum
  have hle : lfsAligndown off cfg.readSize ≤ off := lfsAligndown_le
  have hnext := lt_lfsAligndown (a := off) hr
  rw [Nat.mod_eq_of_lt (by omega)] at hlen
  rw [← hstart] at hle hnext
  refine ⟨hle, by omega, hstart ▸ dvd_lfsAligndown, ?_, by omega⟩
  have hmin {a b : ℕ} (ha : cfg.readSize ∣ a) (hb : cfg.readSize ∣ b) : cfg.readSize ∣ min a b := by
    rcases min_choice a b with h | h
    · rwa [h]
    · rwa [h]
  rw [hlen]
  refine hmin (Nat.dvd_sub (hmin dvd_lfsAlignup cfg.readSize_dvd_blockSize) ?_)
    cfg.readSize_dvd_cacheSize
  exact hstart ▸ dvd_lfsAligndown

theorem ReadInv.load (h : ReadInv cfg faults usePcache block off size bd T s) (hok : s.ret = .ok)
    (hpos : 0 < s.size) (hhint : 0 < hint) (hsum : off + size + hint + cfg.readSize ≤ 2 ^ 32)
    (hblock : block < cfg.blockCount) (hend : off + size ≤ cfg.blockSize)
    (hnot : ¬s.bd.rcache.Holds block s.off) :
    ReadInv cfg faults usePcache block off size bd T (s.load cfg faults hint block) ∧
      (s.load cfg faults hint block).measure block < s.measure block := by
  have hoff := h.off_eq
  have hsize := h.size_eq
  have hnear : s.off + hint + cfg.readSize ≤ 2 ^ 32 := by omega
  obtain ⟨hle, hlt, hdvd, hdvd', hin⟩ := load_range hhint hnear (by omega) rfl rfl
  unfold ReadState.load
  dsimp only
  generalize min (min (lfsAlignup ((s.off + hint) % 2 ^ 32) cfg.readSize) cfg.blockSize -
    lfsAligndown s.off cfg.readSize) cfg.cacheSize = len at *
  generalize lfsAligndown s.off cfg.readSize = start at *
  have hcalls := h.calls_le.trans (Nat.le_succ _)
  have hvalid : (Call.read block start len).Valid cfg := ⟨hblock, hdvd, hdvd', by omega, hin⟩
  have haligned (buffer : ℕ → Byte) :
      ({ s.bd with
          rcache := ⟨some block, start, len, buffer⟩
          calls := .read block start len :: s.bd.calls } : Bd).Aligned cfg :=
    ⟨h.aligned.pcache, fun _ => hdvd, (h.aligned.call hvalid).calls⟩
  by_cases hfail : faults.fails s.bd.calls.length = true
  · simp only [if_pos hfail]
    exact ⟨⟨hoff, hsize, h.flash_eq, h.pcache_eq, hcalls, haligned _, .inr ⟨rfl, _, hfail⟩,
      (fun hret => nomatch hret), (fun hret => nomatch hret)⟩,
      by rw [ReadState.measure_io rfl]; exact ReadState.measure_pos hok hpos⟩
  · simp only [if_neg hfail]
    refine ⟨⟨hoff, hsize, h.flash_eq, h.pcache_eq, hcalls, haligned _, .inl rfl, fun _ => ?_,
      fun _ => h.data hok⟩, ?_⟩
    · -- the bytes have just come from the device
      intro b o hholds _
      obtain ⟨hb, hbo, hbo'⟩ := hholds
      cases hb
      change start ≤ o at hbo
      change o < start + len at hbo'
      obtain ⟨k, rfl⟩ := Nat.exists_eq_add_of_le hbo
      have hcopy : copyTo s.bd.rcache.buffer 0 (fun k => s.bd.flash block (start + k)) len (0 + k) =
          s.bd.flash block (start + k) := copyTo_inside (by omega)
      rw [Nat.zero_add] at hcopy
      exact (congrArg (copyTo _ 0 _ len) (Nat.add_sub_cancel_left start k)).trans hcopy
    · rw [ReadState.measure_ok hok, ReadState.measure_ok rfl, if_pos ⟨rfl, hle, hlt⟩, if_neg hnot]
      exact Nat.lt_succ_self _

theorem ReadInv.fromDevice (h : ReadInv cfg faults usePcache block off size bd T s)
    (hok : s.ret = .ok)
    (hun : Uncached cfg usePcache block bd s diff) (hhint : 0 < hint)
    (hsum : off + size + hint + cfg.readSize ≤ 2 ^ 32) (hblock : block < cfg.blockCount)
    (hend : off + size ≤ cfg.blockSize) (hnot : ¬s.bd.rcache.Holds block s.off) :
    ReadInv cfg faults usePcache block off size bd T (s.fromDevice cfg faults hint block diff) ∧
      (s.fromDevice cfg faults hint block diff).measure block < s.measure block := by
  unfold ReadState.fromDevice
  split_ifs with hbypass
  · exact h.bypass hok hun hblock hend hbypass.2.1 hbypass.2.2
  · have hpos := hun.pos
    have hle := hun.le
    exact h.load hok (by omega) hhint hsum hblock hend hnot

/-- A cache that begins further on, after whole units. -/
theorem unit_le_of_ahead {c : Cache} {len : ℕ} (hc : c.block ≠ none → cfg.readSize ∣ c.off)
    (h : c.lookup block off = .ahead len) (hunit : off % cfg.readSize = 0) :
    cfg.readSize ≤ len := by
  obtain ⟨hblock, hoff, hpos⟩ := Cache.of_ahead h
  have hdvd := hc (by rw [hblock]; simp)
  rw [hoff] at hdvd
  exact Nat.le_of_dvd hpos ((Nat.dvd_add_right (Nat.dvd_of_mod_eq_zero hunit)).1 hdvd)

theorem ReadInv.pastPcache (h : ReadInv cfg faults usePcache block off size bd T s)
    (hok : s.ret = .ok)
    (hun : Uncached cfg usePcache block bd s diff) (hhint : 0 < hint)
    (hsum : off + size + hint + cfg.readSize ≤ 2 ^ 32) (hblock : block < cfg.blockCount)
    (hend : off + size ≤ cfg.blockSize) :
    ReadInv cfg faults usePcache block off size bd T (s.pastPcache cfg faults hint block diff) ∧
      (s.pastPcache cfg faults hint block diff).measure block < s.measure block := by
  have hpos := hun.pos
  have hle := hun.le
  unfold ReadState.pastPcache
  split
  case h_1 start len hlook =>
    obtain ⟨hholds, rfl, rfl⟩ := Cache.holds_of_hit hlook
    obtain ⟨hcache, hlow, hhigh⟩ := hholds
    refine ⟨h.take hok (by omega) fun k hk hsure => ?_,
      ReadState.measure_take hok (by omega) (by omega) hok rfl⟩
    have hnot := hun.not_holds (s.off + k) (by omega) (by omega)
    have hfresh := h.fresh hok block (s.off + k) ⟨hcache, by omega, by omega⟩
      (hsure.resolve_left hnot)
    rw [Bd.contents_of_not_holds hnot, ← h.flash_eq, ← hfresh]
    exact congrArg _ (by omega)
  case h_2 len hlook =>
    obtain ⟨-, -, hlen⟩ := Cache.of_ahead hlook
    refine h.fromDevice hok ⟨by omega, by omega, fun hunit hsize => ?_, fun o ho ho' => ?_⟩ hhint
      hsum hblock hend (Cache.not_holds_of_ahead hlook (by omega))
    · have hlong := unit_le_of_ahead h.aligned.rcache hlook hunit
      have hlong' := hun.unit hunit hsize
      omega
    · exact hun.not_holds o ho (by omega)
  case h_3 hlook =>
    exact h.fromDevice hok hun hhint hsum hblock hend (Cache.not_holds_of_miss hlook le_rfl)

/-- What an iteration keeps, and the measure it lowers. -/
theorem readBody_step (hhint : size = 0 ∨ 0 < hint)
    (hsum : off + size + hint + cfg.readSize ≤ 2 ^ 32)
    (hblock : block < cfg.blockCount) (hend : off + size ≤ cfg.blockSize) (t : ReadState)
    (h : ReadInv cfg faults usePcache block off size bd T s)
    (hbody : readBody cfg faults usePcache hint block s = some t) :
    ReadInv cfg faults usePcache block off size bd T t ∧ t.measure block < s.measure block := by
  unfold readBody at hbody
  split_ifs at hbody with hstop huse
  all_goals
    push Not at hstop
    obtain ⟨hok, hne⟩ := hstop
    have hsize := h.size_eq
    replace hhint : 0 < hint := hhint.resolve_left (by omega)
  · split at hbody
    case h_1 start len hlook =>
      cases hbody
      obtain ⟨hholds, rfl, rfl⟩ := Cache.holds_of_hit hlook
      rw [h.pcache_eq] at hholds ⊢
      have hrange := hholds
      obtain ⟨hcache, hlow, hhigh⟩ := hrange
      refine ⟨h.take hok (by omega) fun k hk _ => ?_,
        ReadState.measure_take hok (by omega) (by omega) hok rfl⟩
      rw [Bd.contents_of_holds huse ⟨hcache, by omega, by omega⟩]
      exact congrArg _ (by omega)
    case h_2 len hlook =>
      cases hbody
      obtain ⟨-, -, hlen⟩ := Cache.of_ahead hlook
      refine h.pastPcache hok ⟨by omega, by omega, fun hunit hsize => ?_, fun o ho ho' hp => ?_⟩
        hhint hsum hblock hend
      · have hlong := unit_le_of_ahead
          (fun hb => cfg.readSize_dvd_progSize.trans (h.aligned.pcache hb)) hlook hunit
        omega
      · rw [h.pcache_eq] at hlook
        exact Cache.not_holds_of_ahead hlook (by omega) hp.2
    case h_3 hlook =>
      cases hbody
      refine h.pastPcache hok ⟨by omega, le_rfl, fun _ hsize => hsize, fun o ho ho' hp => ?_⟩
        hhint hsum hblock hend
      rw [h.pcache_eq] at hlook
      exact Cache.not_holds_of_miss hlook ho hp.2
  · cases hbody
    exact h.pastPcache hok ⟨by omega, le_rfl, fun _ hsize => hsize, fun o ho ho' hp => huse hp.1⟩
      hhint hsum hblock hend

end

/-! ## The functions -/

/-- What a call of `lfs_bd_read` leaves. -/
structure ReadPost (cfg : Config) (faults : Faults) (usePcache : Bool) (block off size : ℕ)
    (bd : Bd) (T : Set (ℕ × ℕ)) (r : Ret × (ℕ → Byte) × Bd) : Prop where
  ret : r.1 = .ok ∨ r.1 = .io ∧ ∃ n, faults.fails n = true
  flash_eq : r.2.2.flash = bd.flash
  pcache_eq : r.2.2.pcache = bd.pcache
  calls_le : bd.calls.length ≤ r.2.2.calls.length
  aligned : r.2.2.Aligned cfg
  fresh : r.1 = .ok → r.2.2.Fresh T
  data : r.1 = .ok → ∀ i < size, bd.Sure usePcache T block (off + i) →
    r.2.1 i = bd.contents usePcache block (off + i)

variable (faults usePcache) in
/-- A read within a block ends, with the bytes it is for or with an error of the device. -/
theorem lfsBdRead_spec (data : ℕ → Byte) (hhint : size = 0 ∨ 0 < hint)
    (hsum : off + size + hint + cfg.readSize ≤ 2 ^ 32) (hblock : block < cfg.blockCount)
    (hend : off + size ≤ cfg.blockSize) (haligned : bd.Aligned cfg) (hfresh : bd.Fresh T) :
    ReadPost cfg faults usePcache block off size bd T
      (lfsBdRead cfg faults usePcache hint block off data size bd) := by
  have hstart : ReadInv cfg faults usePcache block off size bd T ⟨bd, off, size, 0, data, .ok⟩ :=
    ⟨rfl, Nat.zero_add _, rfl, rfl, le_rfl, haligned, .inl rfl, fun _ => hfresh,
      fun _ i hi => absurd hi (Nat.not_lt_zero i)⟩
  have hfuel : (⟨bd, off, size, 0, data, .ok⟩ : ReadState).measure block < 2 * size + 2 := by
    rw [ReadState.measure_ok rfl]
    dsimp only
    split_ifs
    all_goals omega
  obtain ⟨t, hrun, ht, hdone⟩ := runLoop_spec (ReadState.measure block)
    (fun s t hs hbody => readBody_step hhint hsum hblock hend t hs hbody) hstart hfuel
  have hunit := cfg.readSize_pos
  have hmod : (off + size) % 2 ^ 32 = off + size := Nat.mod_eq_of_lt (by omega)
  unfold lfsBdRead
  rw [hmod, if_neg (by omega), hrun]
  refine ⟨ht.ret, ht.flash_eq, ht.pcache_eq, ht.calls_le, ht.aligned, ht.fresh,
    fun hok i hi hsure => ?_⟩
  have hsize := ht.size_eq
  have hempty : t.size = 0 := by
    by_contra hne
    unfold readBody at hdone
    rw [if_neg (by rintro (hret | hzero); exacts [hret hok, hne hzero])] at hdone
    split at hdone
    all_goals cases hdone
  exact ht.data hok i (by omega) hsure

theorem memcmp_eq_iff {a b : ℕ → Byte} {n : ℕ} : memcmp a b n = .eq ↔ ∀ k < n, a k = b k := by
  induction n generalizing a b with
  | zero => exact iff_of_true rfl fun k hk => absurd hk (Nat.not_lt_zero k)
  | succ n ih =>
    unfold memcmp
    constructor
    · intro h k hk
      split_ifs at h with hzero
      cases k with
      | zero => exact hzero
      | succ k => exact ih.1 h k (by omega)
    · intro h
      rw [if_pos (h 0 (Nat.succ_pos n))]
      exact ih.2 fun k hk => h (k + 1) (by omega)

theorem memcmp_ne_err (a b : ℕ → Byte) (n : ℕ) (ret : Ret) : memcmp a b n ≠ .err ret := by
  induction n generalizing a b with
  | zero => exact fun h => nomatch h
  | succ n ih =>
    unfold memcmp
    split_ifs
    · exact ih _ _
    · exact fun h => nomatch h
    · exact fun h => nomatch h

/-- What a call of `lfs_bd_cmp` leaves that has compared the bytes from `i` on. -/
structure CmpPost (cfg : Config) (faults : Faults) (usePcache : Bool) (block off size : ℕ)
    (bd : Bd) (buffer : ℕ → Byte) (i : ℕ) (r : Cmp × Bd) : Prop where
  flash_eq : r.2.flash = bd.flash
  pcache_eq : r.2.pcache = bd.pcache
  calls_le : bd.calls.length ≤ r.2.calls.length
  aligned : r.2.Aligned cfg
  err : ∀ ret, r.1 = .err ret → ret = .io ∧ ∃ n, faults.fails n = true
  fresh : (∀ ret, r.1 ≠ .err ret) → r.2.Fresh ∅
  eq_iff : (∀ ret, r.1 ≠ .err ret) → (r.1 = .eq ↔ ∀ k, i ≤ k → k < size →
    bd.contents usePcache block (off + k) = buffer k)

/-- `memcmp` of a piece that was read. -/
theorem memcmp_piece_iff {dat buffer contents : ℕ → Byte} {i len : ℕ}
    (hread : ∀ j < len, dat j = contents (i + j)) :
    memcmp dat (fun k => buffer (i + k)) len = .eq ↔
      ∀ k, i ≤ k → k < i + len → contents k = buffer k := by
  rw [memcmp_eq_iff]
  constructor
  · intro h k hk hk'
    obtain ⟨j, rfl⟩ := Nat.exists_eq_add_of_le hk
    exact (hread j (by omega)).symm.trans (h j (by omega))
  · intro h j hj
    exact (hread j hj).trans (h (i + j) (by omega) (by omega))

/-- An equal piece in front of the rest. -/
theorem CmpPost.piece {bd' : Bd} {buffer : ℕ → Byte} {i len : ℕ} {r : Cmp × Bd}
    (h : CmpPost cfg faults usePcache block off size bd' buffer (i + len) r)
    (hflash : bd'.flash = bd.flash) (hpcache : bd'.pcache = bd.pcache)
    (hcalls : bd.calls.length ≤ bd'.calls.length)
    (hpiece : ∀ k, i ≤ k → k < i + len → bd.contents usePcache block (off + k) = buffer k) :
    CmpPost cfg faults usePcache block off size bd buffer i r := by
  have hcontents (o : ℕ) : bd'.contents usePcache block o = bd.contents usePcache block o := by
    unfold Bd.contents
    rw [hflash, hpcache]
  obtain ⟨hflash', hpcache', hcalls', haligned, herr, hfresh, heq⟩ := h
  refine ⟨hflash'.trans hflash, hpcache'.trans hpcache, hcalls.trans hcalls', haligned, herr,
    hfresh, fun hne => (heq hne).trans ?_⟩
  simp only [hcontents]
  constructor
  · intro h k hk hk'
    by_cases hnow : k < i + len
    · exact hpiece k hk hnow
    · exact h k (Nat.not_lt.1 hnow) hk'
  · exact fun h k hk hk' => h k (by omega) hk'

/-- From an up-to-date read cache. -/
theorem cmpLoop_spec {buffer dat : ℕ → Byte} (hsize : size ≤ hint)
    (hsum : off + size + hint + cfg.readSize ≤ 2 ^ 32) (hblock : block < cfg.blockCount)
    (hend : off + size ≤ cfg.blockSize) {fuel i : ℕ} (hfuel : size ≤ i + fuel)
    (haligned : bd.Aligned cfg) (hfresh : bd.Fresh ∅) :
    CmpPost cfg faults usePcache block off size bd buffer i
      (cmpLoop cfg faults usePcache hint block off buffer dat size fuel i bd) := by
  have hdone {bd : Bd} (haligned : bd.Aligned cfg) (hfresh : bd.Fresh ∅) {i : ℕ}
      (hi : size ≤ i) : CmpPost cfg faults usePcache block off size bd buffer i (.eq, bd) :=
    ⟨rfl, rfl, le_rfl, haligned, (fun ret h => nomatch h), fun _ => hfresh,
      fun _ => iff_of_true rfl fun k hk hk' => by omega⟩
  induction fuel generalizing i bd dat with
  | zero => exact hdone haligned hfresh hfuel
  | succ fuel ih =>
    unfold cmpLoop
    split_ifs with hi
    swap
    · exact hdone haligned hfresh (Nat.not_lt.1 hi)
    have hread := lfsBdRead_spec faults usePcache dat (.inr (show 0 < hint - i by omega))
      (show off + i + min (size - i) 8 + (hint - i) + cfg.readSize ≤ 2 ^ 32 by omega) hblock
      (by omega) haligned hfresh
    dsimp only
    generalize lfsBdRead cfg faults usePcache (hint - i) block (off + i) dat (min (size - i) 8)
      bd = r at hread
    obtain ⟨ret, dat', bd'⟩ := r
    obtain ⟨hret, hflash, hpcache, hcalls, haligned', hfresh', hdata⟩ := hread
    obtain hok | ⟨hio, hfails⟩ := hret
    swap
    · cases hio
      exact ⟨hflash, hpcache, hcalls, haligned', fun ret h => by cases h; exact ⟨rfl, hfails⟩,
        fun h => absurd rfl (h _), fun h => absurd rfl (h _)⟩
    cases hok
    have hread (j : ℕ) (hj : j < min (size - i) 8) :
        dat' j = bd.contents usePcache block (off + (i + j)) := by
      rw [← Nat.add_assoc]
      exact hdata rfl j hj (.inr (Set.notMem_empty _))
    have hbytes : memcmp dat' (fun k => buffer (i + k)) (min (size - i) 8) = .eq ↔
        ∀ k, i ≤ k → k < i + min (size - i) 8 →
          bd.contents usePcache block (off + k) = buffer k := memcmp_piece_iff hread
    dsimp only
    split
    case h_1 heq =>
      exact (ih (show size ≤ i + min (size - i) 8 + fuel by omega) haligned' (hfresh' rfl)).piece
        hflash hpcache hcalls (hbytes.1 heq)
    case h_2 hne =>
      have hne' : memcmp dat' (fun k => buffer (i + k)) (min (size - i) 8) ≠ .eq := hne
      refine ⟨hflash, hpcache, hcalls, haligned', fun ret h => absurd h (memcmp_ne_err _ _ _ ret),
        fun _ => hfresh' rfl, fun _ => iff_of_false hne' fun h => hne' (hbytes.2 ?_)⟩
      exact fun k hk hk' => h k hk (by omega)

variable (faults usePcache) in
theorem lfsBdCmp_spec (buffer : ℕ → Byte) (hsize : size ≤ hint)
    (hsum : off + size + hint + cfg.readSize ≤ 2 ^ 32) (hblock : block < cfg.blockCount)
    (hend : off + size ≤ cfg.blockSize) (haligned : bd.Aligned cfg) (hfresh : bd.Fresh ∅) :
    CmpPost cfg faults usePcache block off size bd buffer 0
      (lfsBdCmp cfg faults usePcache hint block off buffer size bd) :=
  cmpLoop_spec hsize hsum hblock hend (Nat.le_add_left size 0) haligned hfresh

end Esp32Embroidery.Littlefs
