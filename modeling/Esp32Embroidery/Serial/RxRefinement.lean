import Esp32Embroidery.Serial.RxRing

/-!
# The receive ring of UART 0 refines a FIFO

* `PcInv`: what the locals of the call in progress say. `PcInv.store`,
  `PcInv.overflowed`, `PcInv.flush`, `PcInv.cancel` are the steps of the interrupt,
  `RingInv.task` those of the task.
* `rxRing_refines`: in every run in which the interrupt keeps to `Undisturbed`,
  the calls and their results are those of the FIFO, and the ring holds its
  contents. Bytes may come anywhere inside `serialRead`.
* `rxRing_loses_cancel`: a byte that comes inside `serialCancel` replaces
  `ASCII_CAN` by a stale byte.
-/

namespace Esp32Embroidery.Serial

open Esp32Embroidery.Lib

/-! ## Steps of the FIFO -/

section

variable {cap : ℕ} {f : Fifo cap}

theorem Fifo.step_dropped (h : f.queue.items.length = cap) (c : Byte) :
    f.step (.dropped c) = some { f with overflow := true } := if_pos h

theorem Fifo.step_read_none (h : f.queue.items = []) : f.step (.read none) = some f := by
  simp only [Fifo.step, BoundedQueue.receive_eq_none.2 h, if_true]

theorem Fifo.step_read_some {x : Byte} {xs : List Byte} (h : f.queue.items = x :: xs) :
    ∃ g, f.step (.read (some x)) = some g ∧ g.queue.items = xs ∧ g.overflow = f.overflow := by
  have hle := f.queue.length_le
  rw [h, List.length_cons] at hle
  let q : BoundedQueue Byte cap := ⟨xs, Nat.le_of_succ_le hle⟩
  have hrec : f.queue.receive = some (x, q) := BoundedQueue.receive_eq_some.2 h
  refine ⟨{ f with queue := q }, ?_, rfl, rfl⟩
  simp only [Fifo.step, hrec, if_true]

theorem Fifo.step_cancel (hcap : 1 ≤ cap) :
    f.step .cancel = some { f with queue := ⟨[asciiCan], hcap⟩ } := dif_pos hcap

end

/-! ## Invariant -/

section

variable {k : ℕ} {h : List (HistoryEntry Op Call)} {r : RxBuffer} {f : Fifo (2 ^ k - 1)}

/-- The FIFO explains the history. -/
abbrev Explained (k : ℕ) (h : List (HistoryEntry Op Call)) (f : Fifo (2 ^ k - 1))
    (p : ClientStatus Op Call) : Prop :=
  Explains (fifo (2 ^ k - 1)) Op.Answers h f p

/-- The ring holds the queue. -/
def Holds (k : ℕ) (r : RxBuffer) (f : Fifo (2 ^ k - 1)) : Prop :=
  r.contents (2 ^ k) = f.queue.items

/-- `serialRead` has found the byte `x` at `bptr`. Either it takes effect when it
    stores `tail`, or the interrupt has emptied the ring behind it, and it took
    effect just before. -/
def Reading (k : ℕ) (h : List (HistoryEntry Op Call)) (r : RxBuffer) (f : Fifo (2 ^ k - 1))
    (bptr : ℕ) (x : Byte) : Prop :=
  (r.tail = bptr ∧ bptr ≠ r.head ∧ x = r.data bptr ∧ Explained k h f (.waiting .read)) ∨
  (r.tail = (bptr + 1) % 2 ^ k ∧ Explained k h f (.done (.read (some x))))

/-- A flush that has taken effect may as well take effect later, with the whole ring in
    the queue until then. -/
def FlushOpen (k : ℕ) (h : List (HistoryEntry Op Call)) (r : RxBuffer) (f : Fifo (2 ^ k - 1)) :
    Prop :=
  ∃ g : Fifo (2 ^ k - 1), g.overflow = f.overflow ∧ Holds k r g ∧ Explained k h g (.waiting .flush)

/-- What the locals of the call in progress say about the ring and the queue.
    `serialFlush` takes effect before the first byte that is stored in it, or else
    when it stores `tail`; `serialCancel` when it stores `head`, or in a ring of two
    cells that the interrupt has emptied when it stores `tail`. -/
def PcInv (k : ℕ) (h : List (HistoryEntry Op Call)) (r : RxBuffer) (f : Fifo (2 ^ k - 1)) :
    TaskPc → Prop
  | .idle | .flushOverflow => Holds k r f ∧ Explained k h f .idle
  | .readHead bptr => Holds k r f ∧ Explained k h f (.waiting .read) ∧ bptr < 2 ^ k ∧
      -- emptied by the interrupt: what the load of `head` finds is still open
      (r.tail = bptr ∨ r.tail = (bptr + 1) % 2 ^ k ∧ Explained k h f (.done (.read none)) ∧
        Explained k h f (.done (.read (some (r.data bptr)))))
  | .readData bptr => Holds k r f ∧ Explained k h f (.waiting .read) ∧ bptr < 2 ^ k ∧
      Reading k h r f bptr (r.data bptr)
  | .readTail next x => Holds k r f ∧
      ∃ bptr < 2 ^ k, next = (bptr + 1) % 2 ^ 16 ∧ Reading k h r f bptr x
  | .flushTail head => head < 2 ^ k ∧
      (r.head = head ∧ Holds k r f ∧ Explained k h f (.waiting .flush) ∨
        r.head ≠ head ∧ ringContents r.data (2 ^ k) r.head head = f.queue.items ∧
          ringCount (2 ^ k) r.head head ≤ ringCount (2 ^ k) r.head r.tail ∧
          Explained k h f (.done .flush) ∧ FlushOpen k h r f)
  | .cancelData head => r.head = head ∧ Holds k r f ∧ Explained k h f (.waiting .cancel)
  | .cancelHead => r.data r.head = asciiCan ∧ Holds k r f ∧ Explained k h f (.waiting .cancel)
  | .cancelTail head => head < 2 ^ k ∧ r.data head = asciiCan ∧ Holds k r f ∧
      Explained k h f (.waiting .cancel) ∧
      (r.head = head ∨ r.tail = head ∨ k = 1 ∧ r.head = r.tail)
  | .cancelNext => r.data r.tail = asciiCan ∧
      (Explained k h f (.waiting .cancel) ∧ (r.head = r.tail ∨ Holds k r f) ∨
        k = 1 ∧ r.head ≠ r.tail ∧ Holds k r f ∧ Explained k h f (.done .cancel))

/-- The indices are in range, the flags agree, and `PcInv`. -/
structure RingInv (k : ℕ) (s : Uart0) (f : Fifo (2 ^ k - 1)) : Prop where
  head_lt : s.rx.head < 2 ^ k
  tail_lt : s.rx.tail < 2 ^ k
  overflow : f.overflow = s.rx.overflow
  pc : PcInv k s.history s.rx f s.pc

theorem ringInv_init : RingInv k (serialRx (2 ^ k)).init (fifo (2 ^ k - 1)).init where
  head_lt := Nat.two_pow_pos k
  tail_lt := Nat.two_pow_pos k
  overflow := rfl
  pc := ⟨ringContents_self _, Explains.init⟩

/-- In a ring of at least two cells an index is not its own successor. -/
theorem next_ne (hk1 : 1 ≤ k) {i : ℕ} (hi : i < 2 ^ k) : (i + 1) % 2 ^ k ≠ i := by
  have htwo : 2 ^ 1 ≤ 2 ^ k := Nat.pow_le_pow_right (by decide) hk1
  rw [next_index hi]
  split_ifs <;> omega

theorem capacity_pos (hk1 : 1 ≤ k) : 1 ≤ 2 ^ k - 1 := by
  have htwo : 2 ^ 1 ≤ 2 ^ k := Nat.pow_le_pow_right (by decide) hk1
  omega

theorem next_of_ne (hk1 : k = 1) {i j : ℕ} (hi : i < 2 ^ k) (hj : j < 2 ^ k) (hne : i ≠ j) :
    (i + 1) % 2 ^ k = j := by
  subst hk1
  omega

/-! ### A byte is stored -/

/-- A byte stored at `head` goes to the end of a queue that the ring holds from
    `start` on. -/
theorem fifo_stored {start : ℕ} (hhead : r.head < 2 ^ k) (hstart : start < 2 ^ k)
    (hroom : (r.head + 1) % 2 ^ k ≠ start)
    (hitems : ringContents r.data (2 ^ k) r.head start = f.queue.items) (c : Byte) :
    ∃ g, f.step (.stored c) = some g ∧ g.overflow = f.overflow ∧
      ringContents (Function.update r.data r.head c) (2 ^ k) ((r.head + 1) % 2 ^ k) start =
        g.queue.items := by
  have hstore := ringContents_store r.data hhead hstart hroom c
  have hlt : ringCount (2 ^ k) ((r.head + 1) % 2 ^ k) start < 2 ^ k :=
    ringCount_lt (Nat.mod_lt _ (Nat.two_pow_pos k))
  have hlen : f.queue.items.length < 2 ^ k - 1 := by
    rw [ringCount_store hhead hstart hroom, ← length_ringContents r.data, hitems] at hlt
    omega
  obtain ⟨q, hq, hqitems⟩ := BoundedQueue.exists_send hlen c
  refine ⟨{ f with queue := q }, ?_, rfl, ?_⟩
  · simp only [Fifo.step, hq, Option.map_some]
  · rw [hstore, hitems]
    exact hqitems.symm

/-- A byte stored at `head` does not reach the cell that a read is at. -/
theorem Reading.store {bptr : ℕ} {x : Byte} (hread : Reading k h r f bptr x)
    (hroom : (r.head + 1) % 2 ^ k ≠ r.tail) {c : Byte} {g : Fifo (2 ^ k - 1)}
    (hg : f.step (.stored c) = some g) :
    Function.update r.data r.head c bptr = r.data bptr ∧
      Reading k (.atomic (.stored c) :: h) { r with
        data := Function.update r.data r.head c, head := (r.head + 1) % 2 ^ k } g bptr x := by
  rcases hread with ⟨htail, hne, hx, he⟩ | ⟨htail, he⟩
  · have hsame : Function.update r.data r.head c bptr = r.data bptr :=
      Function.update_of_ne hne _ _
    refine ⟨hsame, Or.inl ⟨htail, ?_, ?_, he.atomic hg⟩⟩
    · rw [← htail]
      exact hroom.symm
    · rw [hx]
      exact hsame.symm
  · have hne : bptr ≠ r.head := by
      intro heq
      rw [htail, heq] at hroom
      exact hroom rfl
    exact ⟨Function.update_of_ne hne _ _, Or.inr ⟨htail, he.atomic hg⟩⟩

/-- A queue from `start` on has room when the ring, which holds it at its end, has. -/
theorem next_ne_of_count_le {start : ℕ} (hhead : r.head < 2 ^ k) (htail : r.tail < 2 ^ k)
    (hstart : start < 2 ^ k) (hroom : (r.head + 1) % 2 ^ k ≠ r.tail)
    (hle : ringCount (2 ^ k) r.head start ≤ ringCount (2 ^ k) r.head r.tail) :
    (r.head + 1) % 2 ^ k ≠ start := by
  intro hfull
  have hcount := ringCount_full hhead hstart hfull
  have hlt : ringCount (2 ^ k) ((r.head + 1) % 2 ^ k) r.tail < 2 ^ k :=
    ringCount_lt (Nat.mod_lt _ (Nat.two_pow_pos k))
  rw [ringCount_store hhead htail hroom] at hlt
  omega

theorem FlushOpen.store (hopen : FlushOpen k h r f) (hhead : r.head < 2 ^ k)
    (htail : r.tail < 2 ^ k) (hroom : (r.head + 1) % 2 ^ k ≠ r.tail) (c : Byte)
    {g : Fifo (2 ^ k - 1)} (hover : g.overflow = f.overflow) :
    FlushOpen k (.atomic (.stored c) :: h) { r with
      data := Function.update r.data r.head c, head := (r.head + 1) % 2 ^ k } g := by
  obtain ⟨w, hsame, hholds, he⟩ := hopen
  obtain ⟨w', hw, hover', hitems⟩ := fifo_stored hhead htail hroom hholds c
  exact ⟨w', (hover'.trans hsame).trans hover.symm, hitems, he.atomic hw⟩

/-- The flush takes effect: the queue starts at the `head` that it has loaded. -/
theorem PcInv.flush_done {head : ℕ} (hinv : PcInv k h r f (.flushTail head)) :
    ∃ g : Fifo (2 ^ k - 1), g.overflow = f.overflow ∧
      ringContents r.data (2 ^ k) r.head head = g.queue.items ∧
      ringCount (2 ^ k) r.head head ≤ ringCount (2 ^ k) r.head r.tail ∧
      Explained k h g (.done .flush) ∧ FlushOpen k h r g := by
  obtain ⟨-, ⟨rfl, hholds, he⟩ | ⟨-, hitems, hle, he, hopen⟩⟩ := hinv
  · refine ⟨{ f with queue := .empty }, rfl, ringContents_self _, ?_, he.effect trivial rfl,
      f, rfl, hholds, he⟩
    simp [ringCount]
  · exact ⟨f, rfl, hitems, hle, he, hopen⟩

theorem PcInv.store {pc : TaskPc} (hinv : PcInv k h r f pc)
    (hhead : r.head < 2 ^ k) (htail : r.tail < 2 ^ k) (hroom : (r.head + 1) % 2 ^ k ≠ r.tail)
    (hpc : pc.admitsStore r = true) (c : Byte) :
    ∃ g : Fifo (2 ^ k - 1), g.overflow = f.overflow ∧
      PcInv k (.atomic (.stored c) :: h) { r with
        data := Function.update r.data r.head c, head := (r.head + 1) % 2 ^ k } g pc := by
  have hstored := fun hholds : Holds k r f => fifo_stored hhead htail hroom hholds c
  cases pc with
  | idle | flushOverflow =>
    obtain ⟨hholds, he⟩ := hinv
    obtain ⟨g, hg, hover, hitems⟩ := hstored hholds
    exact ⟨g, hover, hitems, he.atomic hg⟩
  | readHead bptr =>
    obtain ⟨hholds, he, hb, hread⟩ := hinv
    obtain ⟨g, hg, hover, hitems⟩ := hstored hholds
    refine ⟨g, hover, hitems, he.atomic hg, hb, ?_⟩
    rcases hread with htail | ⟨htail, hnone, hsome⟩
    · exact Or.inl htail
    · obtain ⟨hsame, -⟩ := Reading.store (Or.inr ⟨htail, hsome⟩) hroom hg
      refine Or.inr ⟨htail, hnone.atomic hg, ?_⟩
      simp only [hsame]
      exact hsome.atomic hg
  | readData bptr =>
    obtain ⟨hholds, he, hb, hread⟩ := hinv
    obtain ⟨g, hg, hover, hitems⟩ := hstored hholds
    obtain ⟨hsame, hread⟩ := hread.store hroom hg
    refine ⟨g, hover, hitems, he.atomic hg, hb, ?_⟩
    simp only [hsame]
    exact hread
  | readTail next x =>
    obtain ⟨hholds, bptr, hb, hnext, hread⟩ := hinv
    obtain ⟨g, hg, hover, hitems⟩ := hstored hholds
    exact ⟨g, hover, hitems, bptr, hb, hnext, (hread.store hroom hg).2⟩
  | flushTail head =>
    have hlt := hinv.1
    obtain ⟨f', hover, hitems, hle, he, hopen⟩ := hinv.flush_done
    have hroom' := next_ne_of_count_le hhead htail hlt hroom hle
    obtain ⟨g, hg, hover', hitems'⟩ := fifo_stored hhead hlt hroom' hitems c
    refine ⟨g, hover'.trans hover, hlt, Or.inr ⟨hroom', hitems', ?_, he.atomic hg,
      hopen.store hhead htail hroom c hover'⟩⟩
    simp only [ringCount_store hhead hlt hroom', ringCount_store hhead htail hroom]
    exact Nat.succ_le_succ hle
  | cancelData head => cases hpc
  | cancelHead => cases hpc
  | cancelTail head =>
    obtain ⟨hlt, hcan, hholds, he, htails⟩ := hinv
    have hne : r.head ≠ head := of_decide_eq_true hpc
    obtain ⟨g, hg, hover, hitems⟩ := hstored hholds
    have hcan' : Function.update r.data r.head c head = asciiCan := by
      rw [← hcan]
      exact Function.update_of_ne hne.symm _ _
    refine ⟨g, hover, hlt, hcan', hitems, he.atomic hg, ?_⟩
    rcases htails.resolve_left hne with htail' | ⟨hk1, -⟩
    · exact Or.inr (Or.inl htail')
    · exact Or.inl (next_of_ne hk1 hhead hlt hne)
  | cancelNext =>
    have hne : r.head ≠ r.tail := of_decide_eq_true hpc
    obtain ⟨hcan, ⟨he, hholds⟩ | ⟨hk1, -⟩⟩ := hinv
    · obtain ⟨g, hg, hover, hitems⟩ := hstored (hholds.resolve_left hne)
      refine ⟨g, hover, ?_, Or.inl ⟨he.atomic hg, Or.inr hitems⟩⟩
      rw [← hcan]
      exact Function.update_of_ne hne.symm _ _
    · exact absurd (next_of_ne hk1 hhead htail hne) hroom

/-! ### Nothing moves -/

/-- A call that sets the overflow flag, whether or not a flush has taken effect. -/
theorem PcInv.overflowed {pc : TaskPc} (hinv : PcInv k h r f pc) {c : Call}
    (hf : f.step c = some { f with overflow := true })
    (hring : ∀ g : Fifo (2 ^ k - 1), Holds k r g → g.step c = some { g with overflow := true }) :
    PcInv k (.atomic c :: h) { r with overflow := true } { f with overflow := true } pc := by
  have hreading : ∀ {bptr x}, Reading k h r f bptr x →
      Reading k (.atomic c :: h) { r with overflow := true } { f with overflow := true } bptr x :=
    Or.imp (fun ⟨htail, hne, hx, he⟩ => ⟨htail, hne, hx, he.atomic hf⟩)
      fun ⟨htail, he⟩ => ⟨htail, he.atomic hf⟩
  cases pc with
  | idle | flushOverflow => exact ⟨hinv.1, hinv.2.atomic hf⟩
  | readHead bptr =>
    obtain ⟨hholds, he, hb, hread⟩ := hinv
    exact ⟨hholds, he.atomic hf, hb,
      hread.imp_right fun ⟨htail, hnone, hsome⟩ => ⟨htail, hnone.atomic hf, hsome.atomic hf⟩⟩
  | readData bptr =>
    obtain ⟨hholds, he, hb, hread⟩ := hinv
    exact ⟨hholds, he.atomic hf, hb, hreading hread⟩
  | readTail next x =>
    obtain ⟨hholds, bptr, hb, hnext, hread⟩ := hinv
    exact ⟨hholds, bptr, hb, hnext, hreading hread⟩
  | flushTail head =>
    obtain ⟨hlt, ⟨heq, hholds, he⟩ | ⟨hne, hitems, hle, he, g, -, hholds, hg⟩⟩ := hinv
    · exact ⟨hlt, Or.inl ⟨heq, hholds, he.atomic hf⟩⟩
    · exact ⟨hlt, Or.inr ⟨hne, hitems, hle, he.atomic hf, { g with overflow := true }, rfl, hholds,
        hg.atomic (hring g hholds)⟩⟩
  | cancelData head => exact ⟨hinv.1, hinv.2.1, hinv.2.2.atomic hf⟩
  | cancelHead => exact ⟨hinv.1, hinv.2.1, hinv.2.2.atomic hf⟩
  | cancelTail head =>
    obtain ⟨hlt, hcan, hholds, he, htails⟩ := hinv
    exact ⟨hlt, hcan, hholds, he.atomic hf, htails⟩
  | cancelNext =>
    obtain ⟨hcan, ⟨he, hholds⟩ | ⟨hk1, hne, hholds, he⟩⟩ := hinv
    · exact ⟨hcan, Or.inl ⟨he.atomic hf, hholds⟩⟩
    · exact ⟨hcan, Or.inr ⟨hk1, hne, hholds, he.atomic hf⟩⟩

theorem length_of_holds (hhead : r.head < 2 ^ k) (htail : r.tail < 2 ^ k)
    (hfull : (r.head + 1) % 2 ^ k = r.tail) (hholds : Holds k r f) :
    f.queue.items.length = 2 ^ k - 1 := by
  rw [← hholds]
  exact length_ringContents_full _ hhead htail hfull

/-- Where a byte may be dropped, a full ring means a full queue. -/
theorem PcInv.full {pc : TaskPc} (hinv : PcInv k h r f pc) (hk1 : 1 ≤ k)
    (hhead : r.head < 2 ^ k) (htail : r.tail < 2 ^ k) (hfull : (r.head + 1) % 2 ^ k = r.tail)
    (hpc : pc.admitsDrop r = true) : f.queue.items.length = 2 ^ k - 1 := by
  have hlen : Holds k r f → f.queue.items.length = 2 ^ k - 1 := length_of_holds hhead htail hfull
  cases pc with
  | idle | flushOverflow | readHead | readData | readTail => exact hlen hinv.1
  | flushTail head =>
    obtain ⟨-, ⟨-, hholds, -⟩ | ⟨hne, hitems, -, -⟩⟩ := hinv
    · exact hlen hholds
    · have hstart : r.tail = head := (of_decide_eq_true hpc : _ ∨ _).resolve_left hne
      rw [← hitems, ← hstart]
      exact length_ringContents_full _ hhead htail hfull
  | cancelData | cancelHead => exact hlen hinv.2.1
  | cancelTail head => exact hlen hinv.2.2.1
  | cancelNext =>
    obtain ⟨-, ⟨-, hholds⟩ | ⟨-, -, hholds, -⟩⟩ := hinv
    · refine hlen (hholds.resolve_left fun heq => next_ne hk1 hhead ?_)
      rw [heq] at hfull ⊢
      exact hfull
    · exact hlen hholds

/-! ### `serialFlush` and `serialCancel` in the interrupt -/

/-- The queue after `serialFlush`. -/
def Fifo.flushed (cap : ℕ) : Fifo cap := { queue := .empty, overflow := false }

/-- The queue after `serialCancel`. -/
def Fifo.canceled {cap : ℕ} (f : Fifo cap) (hcap : 1 ≤ cap) : Fifo cap :=
  { f with queue := ⟨[asciiCan], hcap⟩ }

theorem explained_flush {p : ClientStatus Op Call} (he : Explained k h f p) :
    Explained k (.atomic .overflowOff :: .atomic .flush :: h) (.flushed _) p :=
  (he.atomic (c := .flush) rfl).atomic rfl

theorem explained_cancel {p : ClientStatus Op Call} (hcap : 1 ≤ 2 ^ k - 1)
    (he : Explained k h f p) : Explained k (.atomic .cancel :: h) (f.canceled hcap) p :=
  he.atomic (Fifo.step_cancel hcap)

theorem holds_flush : Holds k r.serialFlush (.flushed _) := ringContents_self _

theorem serialCancel_head (hk1 : 1 ≤ k) (hhead : r.head < 2 ^ k) :
    (r.serialCancel (2 ^ k)).head = (r.head + 1) % 2 ^ k ∧
      (r.serialCancel (2 ^ k)).head ≠ r.head := by
  simp only [RxBuffer.serialCancel, and_mask]
  exact ⟨trivial, next_ne hk1 hhead⟩

@[simp] theorem serialCancel_tail : (r.serialCancel (2 ^ k)).tail = r.head := rfl

@[simp] theorem serialCancel_data_head : (r.serialCancel (2 ^ k)).data r.head = asciiCan :=
  Function.update_self _ _ _

theorem serialCancel_data_of_ne {i : ℕ} (hi : i ≠ r.head) :
    (r.serialCancel (2 ^ k)).data i = r.data i := Function.update_of_ne hi _ _

/-- From `head` on the ring has one cell. -/
theorem ringContents_next (data : ℕ → Byte) (hk1 : 1 ≤ k) {head : ℕ} (hhead : head < 2 ^ k) :
    ringContents data (2 ^ k) ((head + 1) % 2 ^ k) head = [data head] := by
  rw [ringContents_take data (Nat.mod_lt _ (Nat.two_pow_pos k)) hhead (next_ne hk1 hhead).symm,
    ringContents_self]

theorem holds_cancel (hk1 : 1 ≤ k) (hhead : r.head < 2 ^ k) :
    Holds k (r.serialCancel (2 ^ k)) (f.canceled (capacity_pos hk1)) := by
  rw [Holds, RxBuffer.contents, (serialCancel_head hk1 hhead).1, serialCancel_tail,
    ringContents_next _ hk1 hhead, serialCancel_data_head]
  rfl

/-- The read takes effect while its byte is the only one in the ring. -/
theorem read_effect {bptr : ℕ} (hhead : r.head < 2 ^ k) (hb : bptr < 2 ^ k) (hholds : Holds k r f)
    (hlast : r.head = (bptr + 1) % 2 ^ k) (htail : r.tail = bptr) (hne : bptr ≠ r.head)
    (he : Explained k h f (.waiting .read)) :
    ∃ g : Fifo (2 ^ k - 1), g.overflow = f.overflow ∧
      Explained k h g (.done (.read (some (r.data bptr)))) := by
  have hitems : f.queue.items = [r.data bptr] := by
    rw [← hholds, RxBuffer.contents, htail, ringContents_take r.data hhead hb hne, ← hlast,
      ringContents_self]
  obtain ⟨g, hg, -, hover⟩ := Fifo.step_read_some hitems
  exact ⟨g, hover, he.effect trivial hg⟩

theorem Reading.last {bptr : ℕ} {x : Byte} (hread : Reading k h r f bptr x)
    (hhead : r.head < 2 ^ k) (hb : bptr < 2 ^ k) (hholds : Holds k r f)
    (hlast : r.head = (bptr + 1) % 2 ^ k) :
    ∃ g : Fifo (2 ^ k - 1), g.overflow = f.overflow ∧
      Explained k h g (.done (.read (some x))) := by
  rcases hread with ⟨htail, hne, rfl, he⟩ | ⟨-, he⟩
  · exact read_effect hhead hb hholds hlast htail hne he
  · exact ⟨f, rfl, he⟩

theorem Reading.flush {bptr : ℕ} {x : Byte} (hread : Reading k h r f bptr x)
    (hhead : r.head < 2 ^ k) (hb : bptr < 2 ^ k) (hholds : Holds k r f)
    (hlast : r.head = (bptr + 1) % 2 ^ k) :
    Reading k (.atomic .overflowOff :: .atomic .flush :: h) r.serialFlush (.flushed _) bptr x := by
  obtain ⟨g, -, he⟩ := hread.last hhead hb hholds hlast
  exact Or.inr ⟨hlast, explained_flush he⟩

theorem Reading.cancel {bptr : ℕ} {x : Byte} (hread : Reading k h r f bptr x) (hk1 : 1 ≤ k)
    (hhead : r.head < 2 ^ k) (hb : bptr < 2 ^ k) (hholds : Holds k r f)
    (hlast : r.head = (bptr + 1) % 2 ^ k) :
    Reading k (.atomic .cancel :: h) (r.serialCancel (2 ^ k)) (f.canceled (capacity_pos hk1))
      bptr x := by
  obtain ⟨g, hover, he⟩ := hread.last hhead hb hholds hlast
  have hsame : g.canceled (capacity_pos hk1) = f.canceled (capacity_pos hk1) := by
    simp only [Fifo.canceled, hover]
  refine Or.inr ⟨hlast, ?_⟩
  rw [← hsame]
  exact explained_cancel _ he

/-- The load of `head` is going to find a byte. -/
theorem PcInv.reading {bptr : ℕ} (hinv : PcInv k h r f (.readHead bptr)) (hne : bptr ≠ r.head) :
    Reading k h r f bptr (r.data bptr) := by
  obtain ⟨-, he, -, htail | ⟨htail, -, hsome⟩⟩ := hinv
  · exact Or.inl ⟨htail, hne, rfl, he⟩
  · exact Or.inr ⟨htail, hsome⟩

theorem PcInv.flush_readHead {bptr : ℕ} (hinv : PcInv k h r f (.readHead bptr))
    (hhead : r.head < 2 ^ k) (hpc : r.head = bptr ∨ r.head = (bptr + 1) % 2 ^ k) :
    PcInv k (.atomic .overflowOff :: .atomic .flush :: h) r.serialFlush (.flushed _)
      (.readHead bptr) := by
  have hholds := hinv.1
  have he := hinv.2.1
  have hb := hinv.2.2.1
  refine ⟨holds_flush, explained_flush he, hb, ?_⟩
  by_cases hempty : r.head = bptr
  · exact Or.inl hempty
  · -- the read may take effect before the flush or after it
    have hlast := hpc.resolve_left hempty
    obtain ⟨g, -, hsome⟩ := (hinv.reading (Ne.symm hempty)).last hhead hb hholds hlast
    have hnone : (Fifo.flushed (2 ^ k - 1)).step (.read none) = some (.flushed _) :=
      Fifo.step_read_none rfl
    exact Or.inr ⟨hlast, (explained_flush he).effect trivial hnone, explained_flush hsome⟩

theorem PcInv.flush {pc : TaskPc} (hinv : PcInv k h r f pc) (hk : k ≤ 16) (hhead : r.head < 2 ^ k)
    (hpc : pc.admitsFlush (2 ^ k) r = true) :
    PcInv k (.atomic .overflowOff :: .atomic .flush :: h) r.serialFlush (.flushed _) pc := by
  cases pc with
  | idle | flushOverflow => exact ⟨holds_flush, explained_flush hinv.2⟩
  | readHead bptr =>
    refine hinv.flush_readHead hhead ?_
    rw [← and_mask]
    exact of_decide_eq_true hpc
  | readData bptr =>
    obtain ⟨hholds, he, hb, hread⟩ := hinv
    have hlast : r.head = (bptr + 1) &&& (2 ^ k - 1) := of_decide_eq_true hpc
    rw [and_mask] at hlast
    exact ⟨holds_flush, explained_flush he, hb, hread.flush hhead hb hholds hlast⟩
  | readTail next x =>
    obtain ⟨hholds, bptr, hb, hnext, hread⟩ := hinv
    have hlast : r.head = next &&& (2 ^ k - 1) := of_decide_eq_true hpc
    rw [hnext, and_mask, Nat.mod_mod_of_dvd _ (Nat.pow_dvd_pow 2 hk)] at hlast
    exact ⟨holds_flush, bptr, hb, hnext, hread.flush hhead hb hholds hlast⟩
  | flushTail head =>
    have heq : r.head = head := of_decide_eq_true hpc
    obtain ⟨hlt, ⟨-, -, he⟩ | ⟨hne, -⟩⟩ := hinv
    · exact ⟨hlt, Or.inl ⟨heq, holds_flush, explained_flush he⟩⟩
    · exact absurd heq hne
  | cancelData head => exact ⟨hinv.1, holds_flush, explained_flush hinv.2.2⟩
  | cancelHead => exact ⟨hinv.1, holds_flush, explained_flush hinv.2.2⟩
  | cancelTail head =>
    obtain ⟨hlt, hcan, -, he, -⟩ := hinv
    refine ⟨hlt, hcan, holds_flush, explained_flush he, ?_⟩
    rcases (of_decide_eq_true hpc : _ ∨ _) with heq | hsize
    · exact Or.inl heq
    · exact Or.inr (Or.inr ⟨Nat.pow_right_injective le_rfl hsize, rfl⟩)
  | cancelNext =>
    have heq : r.head = r.tail := of_decide_eq_true hpc
    obtain ⟨hcan, ⟨he, -⟩ | ⟨-, hne, -⟩⟩ := hinv
    · refine ⟨?_, Or.inl ⟨explained_flush he, Or.inl rfl⟩⟩
      rw [← hcan, ← heq]
      rfl
    · exact absurd heq hne

theorem PcInv.cancel_readHead {bptr : ℕ} (hinv : PcInv k h r f (.readHead bptr)) (hk1 : 1 ≤ k)
    (hhead : r.head < 2 ^ k) (hpc : r.head = bptr ∨ r.head = r.tail) :
    PcInv k (.atomic .cancel :: h) (r.serialCancel (2 ^ k)) (f.canceled (capacity_pos hk1))
      (.readHead bptr) := by
  obtain ⟨-, he, hb, hread⟩ := hinv
  refine ⟨holds_cancel hk1 hhead, explained_cancel _ he, hb, ?_⟩
  by_cases heq : r.head = bptr
  · exact Or.inl heq
  · have hempty : r.head = r.tail := hpc.resolve_left heq
    -- emptied by the interrupt before
    obtain ⟨htail, hnone, hsome⟩ := hread.resolve_left fun htail => heq (hempty.trans htail)
    refine Or.inr ⟨hempty.trans htail, explained_cancel _ hnone, ?_⟩
    rw [serialCancel_data_of_ne (Ne.symm heq)]
    exact explained_cancel _ hsome

theorem PcInv.cancel_readData {bptr : ℕ} (hinv : PcInv k h r f (.readData bptr)) (hk1 : 1 ≤ k)
    (hhead : r.head < 2 ^ k) (hpc : r.head = (bptr + 1) % 2 ^ k ∨ r.head = bptr) :
    PcInv k (.atomic .cancel :: h) (r.serialCancel (2 ^ k)) (f.canceled (capacity_pos hk1))
      (.readData bptr) := by
  obtain ⟨hholds, he, hb, hread⟩ := hinv
  refine ⟨holds_cancel hk1 hhead, explained_cancel _ he, hb, ?_⟩
  by_cases heq : r.head = bptr
  · -- the read is going to find `ASCII_CAN`
    have hhead' : bptr ≠ (r.serialCancel (2 ^ k)).head := by
      rw [← heq]
      exact (serialCancel_head hk1 hhead).2.symm
    exact Or.inl ⟨heq, hhead', rfl, explained_cancel _ he⟩
  · rw [serialCancel_data_of_ne (Ne.symm heq)]
    exact hread.cancel hk1 hhead hb hholds (hpc.resolve_right heq)

theorem PcInv.cancel_flushTail {head : ℕ} (hinv : PcInv k h r f (.flushTail head)) (hk1 : 1 ≤ k)
    (hhead : r.head < 2 ^ k) (hpc : r.head = head ∨ (r.head + 1) % 2 ^ k = head) :
    PcInv k (.atomic .cancel :: h) (r.serialCancel (2 ^ k)) (f.canceled (capacity_pos hk1))
      (.flushTail head) := by
  have hholds' : Holds k (r.serialCancel (2 ^ k)) (f.canceled (capacity_pos hk1)) :=
    holds_cancel hk1 hhead
  obtain ⟨hlt, ⟨rfl, -, he⟩ | ⟨hne, -, -, -, g, hover, -, he⟩⟩ := hinv
  · have hdone : Explained k h { f with queue := .empty } (.done .flush) := he.effect trivial rfl
    have hcancel := explained_cancel (capacity_pos hk1) hdone
    exact ⟨hlt, Or.inr ⟨(serialCancel_head hk1 hhead).2, hholds', le_rfl, hcancel,
      f.canceled (capacity_pos hk1), rfl, hholds', explained_cancel _ he⟩⟩
  · -- the flush takes effect behind the cancel
    have hnext : (r.serialCancel (2 ^ k)).head = head :=
      (serialCancel_head hk1 hhead).1.trans (hpc.resolve_left hne)
    have hsame : g.canceled (capacity_pos hk1) = f.canceled (capacity_pos hk1) := by
      simp only [Fifo.canceled, hover]
    refine ⟨hlt, Or.inl ⟨hnext, hholds', ?_⟩⟩
    rw [← hsame]
    exact explained_cancel _ he

theorem PcInv.cancel {pc : TaskPc} (hinv : PcInv k h r f pc) (hk1 : 1 ≤ k) (hk : k ≤ 16)
    (hhead : r.head < 2 ^ k) (hpc : pc.admitsCancel (2 ^ k) r = true) :
    PcInv k (.atomic .cancel :: h) (r.serialCancel (2 ^ k)) (f.canceled (capacity_pos hk1)) pc := by
  have hholds' : Holds k (r.serialCancel (2 ^ k)) (f.canceled (capacity_pos hk1)) :=
    holds_cancel hk1 hhead
  cases pc with
  | idle | flushOverflow => exact ⟨hholds', explained_cancel _ hinv.2⟩
  | readHead bptr => exact hinv.cancel_readHead hk1 hhead (of_decide_eq_true hpc)
  | readData bptr =>
    refine hinv.cancel_readData hk1 hhead ?_
    rw [← and_mask]
    exact of_decide_eq_true hpc
  | readTail next x =>
    obtain ⟨hholds, bptr, hb, hnext, hread⟩ := hinv
    have hlast : r.head = next &&& (2 ^ k - 1) := of_decide_eq_true hpc
    rw [hnext, and_mask, Nat.mod_mod_of_dvd _ (Nat.pow_dvd_pow 2 hk)] at hlast
    exact ⟨hholds', bptr, hb, hnext, hread.cancel hk1 hhead hb hholds hlast⟩
  | flushTail head =>
    refine hinv.cancel_flushTail hk1 hhead ?_
    rw [← and_mask]
    exact of_decide_eq_true hpc
  | cancelData => cases hpc
  | cancelHead => cases hpc
  | cancelTail head =>
    obtain ⟨hlt, hcan, -, he, -⟩ := hinv
    by_cases heq : r.head = head
    · subst heq
      exact ⟨hlt, serialCancel_data_head, hholds', explained_cancel _ he, Or.inr (Or.inl rfl)⟩
    · have hnext := (of_decide_eq_true hpc : _ ∨ _).resolve_left heq
      refine ⟨hlt, ?_, hholds', explained_cancel _ he, Or.inl hnext⟩
      rw [serialCancel_data_of_ne (Ne.symm heq)]
      exact hcan
  | cancelNext =>
    obtain ⟨-, ⟨he, -⟩ | ⟨h1, -, -, he⟩⟩ := hinv
    · exact ⟨serialCancel_data_head, Or.inl ⟨explained_cancel _ he, Or.inr hholds'⟩⟩
    · exact ⟨serialCancel_data_head,
        Or.inr ⟨h1, (serialCancel_head hk1 hhead).2, hholds', explained_cancel _ he⟩⟩

/-! ### The task -/

variable {s : Uart0}

theorem RingInv.readHead (hinv : RingInv k s f) {bptr : ℕ} (hpc : s.pc = .readHead bptr) {t : Uart0}
    (hst : s.task (2 ^ k) = some t) : RingInv k t f := by
  obtain ⟨hhead, htail, hover, hinv⟩ := hinv
  rw [hpc] at hinv
  have hreading : bptr ≠ s.rx.head → Reading k s.history s.rx f bptr (s.rx.data bptr) :=
    hinv.reading
  obtain ⟨hholds, he, hb, hread⟩ := hinv
  simp only [Uart0.task, hpc] at hst
  split_ifs at hst with hempty
  · cases hst
    have hnone : Explained k s.history f (.done (.read none)) := by
      rcases hread with htail | ⟨-, hnone, -⟩
      · refine he.effect trivial (Fifo.step_read_none (f := f) ?_)
        rw [← hholds, RxBuffer.contents, htail, hempty, ringContents_self]
      · exact hnone
    exact ⟨hhead, htail, hover, hholds, hnone.ret⟩
  · cases hst
    exact ⟨hhead, htail, hover, hholds, he, hb, hreading hempty⟩

/-- `serialRead` stores `tail`: the oldest byte leaves the queue, unless it left
    when the interrupt emptied the ring. -/
theorem RingInv.readTail (hk : k ≤ 16) (hinv : RingInv k s f) {next : ℕ} {data : Byte}
    (hpc : s.pc = .readTail next data) {t : Uart0} (hst : s.task (2 ^ k) = some t) :
    ∃ g, RingInv k t g := by
  obtain ⟨hhead, htail, hover, hinv⟩ := hinv
  rw [hpc] at hinv
  obtain ⟨hholds, bptr, hb, rfl, hread⟩ := hinv
  simp only [Uart0.task, hpc, and_mask, Nat.mod_mod_of_dvd _ (Nat.pow_dvd_pow 2 hk)] at hst
  cases hst
  have hlt : (bptr + 1) % 2 ^ k < 2 ^ k := Nat.mod_lt _ (Nat.two_pow_pos k)
  rcases hread with ⟨heq, hne, rfl, he⟩ | ⟨heq, he⟩
  · have hitems : f.queue.items =
        s.rx.data bptr :: ringContents s.rx.data (2 ^ k) s.rx.head ((bptr + 1) % 2 ^ k) := by
      rw [← hholds, RxBuffer.contents, heq, ringContents_take s.rx.data hhead hb hne]
    obtain ⟨g, hg, hqueue, hover'⟩ := Fifo.step_read_some hitems
    have hdone : Explained k s.history g (.done (.read (some (s.rx.data bptr)))) :=
      he.effect trivial hg
    exact ⟨g, hhead, hlt, hover'.trans hover, hqueue.symm, hdone.ret⟩
  · refine ⟨f, hhead, hlt, hover, ?_, he.ret⟩
    rw [← heq]
    exact hholds

/-- `serialFlush` stores `tail`: left are the bytes stored since it loaded `head`. -/
theorem RingInv.flushTail (hinv : RingInv k s f) {head : ℕ} (hpc : s.pc = .flushTail head)
    {t : Uart0} (hst : s.task (2 ^ k) = some t) : ∃ g, RingInv k t g := by
  obtain ⟨hhead, htail, hover, hinv⟩ := hinv
  rw [hpc] at hinv
  simp only [Uart0.task, hpc] at hst
  cases hst
  obtain ⟨g, hsame, hitems, -, he, -⟩ := hinv.flush_done
  exact ⟨g, hhead, hinv.1, hsame.trans hover, hitems, he.ret⟩

/-- `serialCancel` stores `ASCII_CAN` in the cell the ring leaves unused. -/
theorem RingInv.cancelData (hinv : RingInv k s f) {head : ℕ} (hpc : s.pc = .cancelData head)
    {t : Uart0} (hst : s.task (2 ^ k) = some t) : RingInv k t f := by
  obtain ⟨hhead, htail, hover, hinv⟩ := hinv
  rw [hpc] at hinv
  simp only [Uart0.task, hpc] at hst
  cases hst
  obtain ⟨rfl, hholds, he⟩ := hinv
  refine ⟨hhead, htail, hover, Function.update_self _ _ _, ?_, he⟩
  rw [Holds, ← hholds]
  exact ringContents_update_head s.rx.data hhead htail asciiCan

theorem RingInv.cancelTail (hk1 : 1 ≤ k) (hinv : RingInv k s f) {head : ℕ}
    (hpc : s.pc = .cancelTail head) {t : Uart0} (hst : s.task (2 ^ k) = some t) :
    ∃ g, RingInv k t g := by
  obtain ⟨hhead, htail, hover, hinv⟩ := hinv
  rw [hpc] at hinv
  simp only [Uart0.task, hpc] at hst
  cases hst
  obtain ⟨hlt, hcan, hholds, he, htails⟩ := hinv
  by_cases heq : s.rx.head = head
  · exact ⟨f, hhead, hlt, hover, hcan, Or.inl ⟨he, Or.inl heq⟩⟩
  rcases htails.resolve_left heq with rfl | ⟨h1, -⟩
  · exact ⟨f, hhead, hlt, hover, hcan, Or.inl ⟨he, Or.inr hholds⟩⟩
  · have hdone : Explained k s.history (f.canceled (capacity_pos hk1)) (.done .cancel) :=
      he.effect trivial (Fifo.step_cancel _)
    refine ⟨f.canceled (capacity_pos hk1), hhead, hlt, hover, hcan, Or.inr ⟨h1, heq, ?_, hdone⟩⟩
    have hnext := next_of_ne h1 hlt hhead (Ne.symm heq)
    rw [Holds, RxBuffer.contents, ← hnext, ringContents_next s.rx.data hk1 hlt, hcan]
    rfl

/-- `serialCancel` stores `head`: `ASCII_CAN` is alone in the ring. -/
theorem RingInv.cancelNext (hk1 : 1 ≤ k) (hinv : RingInv k s f) (hpc : s.pc = .cancelNext)
    {t : Uart0} (hst : s.task (2 ^ k) = some t) : ∃ g, RingInv k t g := by
  obtain ⟨hhead, htail, hover, hinv⟩ := hinv
  rw [hpc] at hinv
  simp only [Uart0.task, hpc, and_mask] at hst
  cases hst
  have hlt : (s.rx.tail + 1) % 2 ^ k < 2 ^ k := Nat.mod_lt _ (Nat.two_pow_pos k)
  obtain ⟨hcan, ⟨he, -⟩ | ⟨h1, hne, hholds, he⟩⟩ := hinv
  · have hdone : Explained k s.history (f.canceled (capacity_pos hk1)) (.done .cancel) :=
      he.effect trivial (Fifo.step_cancel _)
    refine ⟨f.canceled (capacity_pos hk1), hlt, htail, hover, ?_, hdone.ret⟩
    rw [Holds, RxBuffer.contents, ringContents_next s.rx.data hk1 htail, hcan]
    rfl
  · have hnext := next_of_ne h1 htail hhead hne.symm
    refine ⟨f, hlt, htail, hover, ?_, he.ret⟩
    rw [Holds, hnext]
    exact hholds

theorem RingInv.task (hk1 : 1 ≤ k) (hk : k ≤ 16) (hinv : RingInv k s f) {t : Uart0}
    (hst : s.task (2 ^ k) = some t) : ∃ g, RingInv k t g := by
  cases hs : s.pc with
  | idle => simp [Uart0.task, hs] at hst
  | readHead bptr => exact ⟨f, hinv.readHead hs hst⟩
  | readData bptr =>
    obtain ⟨hhead, htail, hover, hinv⟩ := hinv
    rw [hs] at hinv
    obtain ⟨hholds, -, hb, hread⟩ := hinv
    simp only [Uart0.task, hs] at hst
    cases hst
    exact ⟨f, hhead, htail, hover, hholds, bptr, hb, rfl, hread⟩
  | readTail next data => exact hinv.readTail hk hs hst
  | flushTail head => exact hinv.flushTail hs hst
  | flushOverflow =>
    obtain ⟨hhead, htail, hover, hinv⟩ := hinv
    rw [hs] at hinv
    simp only [Uart0.task, hs] at hst
    cases hst
    exact ⟨{ f with overflow := false }, hhead, htail, rfl, hinv.1,
      hinv.2.atomic (c := .overflowOff) rfl⟩
  | cancelData head => exact ⟨f, hinv.cancelData hs hst⟩
  | cancelHead =>
    obtain ⟨hhead, htail, hover, hinv⟩ := hinv
    rw [hs] at hinv
    simp only [Uart0.task, hs] at hst
    cases hst
    exact ⟨f, hhead, htail, hover, hhead, hinv.1, hinv.2.1, hinv.2.2, Or.inl rfl⟩
  | cancelTail head => exact hinv.cancelTail hk1 hs hst
  | cancelNext => exact hinv.cancelNext hk1 hs hst

/-! ### Every step -/

theorem RingInv.isr (hk1 : 1 ≤ k) (hk : k ≤ 16) (hinv : RingInv k s f) {c : Byte} {consumed : Bool}
    (hcond : s.admits (2 ^ k) (.rx c consumed) = true) :
    ∃ g, RingInv k (s.isr (2 ^ k) c consumed) g := by
  cases consumed with
  | true => exact ⟨f, hinv⟩
  | false =>
    have hmask : (s.rx.head + 1) &&& rxBufferSizeMask (2 ^ k) = (s.rx.head + 1) % 2 ^ k := by
      rw [rxBufferSizeMask_eq hk, and_mask]
    obtain ⟨hhead, htail, hover, hinv⟩ := hinv
    simp only [Uart0.admits, hmask] at hcond
    simp only [Uart0.isr, RxBuffer.receive, hmask]
    by_cases hfull : (s.rx.head + 1) % 2 ^ k = s.rx.tail
    · rw [if_pos hfull] at hcond
      have hlen := hinv.full hk1 hhead htail hfull hcond
      have hring (g : Fifo (2 ^ k - 1)) (hholds : Holds k s.rx g) :=
        Fifo.step_dropped (length_of_holds hhead htail hfull hholds) c
      refine ⟨{ f with overflow := true }, ?_⟩
      simp only [hfull, if_true]
      exact ⟨hhead, htail, rfl, by simpa using hinv.overflowed (Fifo.step_dropped hlen c) hring⟩
    · rw [if_neg hfull] at hcond
      obtain ⟨g, hover', hinv⟩ := hinv.store hhead htail hfull hcond c
      refine ⟨g, ?_⟩
      simp only [hfull, if_false]
      refine ⟨Nat.mod_lt _ (Nat.two_pow_pos k), htail, hover'.trans hover, ?_⟩
      simpa [hfull] using hinv

theorem RingInv.step (hk1 : 1 ≤ k) (hk : k ≤ 16) (hinv : RingInv k s f) {e : Event} {t : Uart0}
    (hst : s.step (2 ^ k) e = some t) (hcond : Undisturbed (2 ^ k) s e t) :
    ∃ g, RingInv k t g := by
  cases e with
  | rx c consumed =>
    cases hst
    exact hinv.isr hk1 hk hcond
  | rxOverflow =>
    cases hst
    exact ⟨{ f with overflow := true }, hinv.head_lt, hinv.tail_lt, rfl,
      hinv.pc.overflowed (c := .fifoOverflow) rfl fun _ _ => rfl⟩
  | isrFlush =>
    cases hst
    exact ⟨.flushed _, hinv.head_lt, hinv.head_lt, rfl, hinv.pc.flush hk hinv.head_lt hcond⟩
  | isrCancel =>
    cases hst
    refine ⟨f.canceled (capacity_pos hk1), ?_, hinv.head_lt, hinv.overflow,
      hinv.pc.cancel hk1 hk hinv.head_lt hcond⟩
    rw [(serialCancel_head hk1 hinv.head_lt).1]
    exact Nat.mod_lt _ (Nat.two_pow_pos k)
  | read =>
    simp only [Uart0.step, Uart0.call, Option.ite_none_right_eq_some, Option.some.injEq] at hst
    obtain ⟨hidle, rfl⟩ := hst
    have hbptr : s.rx.tail % 2 ^ 16 = s.rx.tail :=
      Nat.mod_eq_of_lt (lt_of_lt_of_le hinv.tail_lt (two_pow_le hk))
    have hpc := hinv.pc
    rw [hidle] at hpc
    refine ⟨f, hinv.head_lt, hinv.tail_lt, hinv.overflow, hpc.1, hpc.2.invoke _, ?_, Or.inl ?_⟩
    · rw [hbptr]
      exact hinv.tail_lt
    · exact hbptr.symm
  | flush =>
    simp only [Uart0.step, Uart0.call, Option.ite_none_right_eq_some, Option.some.injEq] at hst
    obtain ⟨hidle, rfl⟩ := hst
    have hpc := hinv.pc
    rw [hidle] at hpc
    exact ⟨f, hinv.head_lt, hinv.tail_lt, hinv.overflow, hinv.head_lt,
      Or.inl ⟨rfl, hpc.1, hpc.2.invoke _⟩⟩
  | cancel =>
    simp only [Uart0.step, Uart0.call, Option.ite_none_right_eq_some, Option.some.injEq] at hst
    obtain ⟨hidle, rfl⟩ := hst
    have hpc := hinv.pc
    rw [hidle] at hpc
    exact ⟨f, hinv.head_lt, hinv.tail_lt, hinv.overflow, rfl, hpc.1, hpc.2.invoke _⟩
  | task => exact hinv.task hk1 hk hst

theorem ringInv_reachable (hk1 : 1 ≤ k) (hk : k ≤ 16)
    (hs : (serialRx (2 ^ k)).ReachableBy (Undisturbed (2 ^ k)) s) : ∃ f, RingInv k s f := by
  refine hs.invariant (I := fun s => ∃ f, RingInv k s f) ⟨_, ringInv_init⟩ ?_
  intro s e t _ ⟨f, hf⟩ hst hcond
  exact hf.step hk1 hk hst hcond

theorem PcInv.explained {pc : TaskPc} (hinv : PcInv k h r f pc) : ∃ p, Explained k h f p := by
  cases pc with
  | idle | flushOverflow => exact ⟨_, hinv.2⟩
  | readHead bptr => exact ⟨_, hinv.2.1⟩
  | readData bptr => exact ⟨_, hinv.2.1⟩
  | readTail next x =>
    obtain ⟨-, bptr, -, -, hread⟩ := hinv
    exact hread.elim (fun hread => ⟨_, hread.2.2.2⟩) fun hread => ⟨_, hread.2⟩
  | flushTail head => exact hinv.2.elim (fun h => ⟨_, h.2.2⟩) fun h => ⟨_, h.2.2.2.1⟩
  | cancelData head => exact ⟨_, hinv.2.2⟩
  | cancelHead => exact ⟨_, hinv.2.2⟩
  | cancelTail head => exact ⟨_, hinv.2.2.2.1⟩
  | cancelNext => exact hinv.2.elim (fun h => ⟨_, h.1⟩) fun h => ⟨_, h.2.2.2⟩

end

/-! ## Main result -/

/-- Four bytes for a ring of four cells, with an interrupt inside `serialRead`; a
    cancel and a flush that the interrupt runs inside two more reads, and a byte
    stored inside `serialFlush`. -/
def busyRing : List Event :=
  [.rx 65 false, .rx 63 true, .rx 66 false, .read, .task, .task, .rx 67 false, .rx 68 false, .task,
    .read, .task, .task, .task, .read, .task, .isrCancel, .task, .task, .read, .isrFlush, .task,
    .task, .task, .flush, .rx 69 false, .task, .task, .cancel, .isrFlush, .task, .task, .task,
    .task]

/-- A byte stored inside `serialCancel` may count as stored before it or after it. -/
theorem linearizes_cancel_stored {c : Byte} {calls : List Call}
    (h : Linearizes Op.Answers [.ret .cancel, .atomic (.stored c), .invoke .cancel] calls .idle) :
    calls = [.cancel, .stored c] ∨ calls = [.stored c, .cancel] := by
  cases h with
  | ret _ h =>
    cases h with
    | atomic _ h =>
      cases h with
      | effect h _ =>
        cases h with
        | invoke _ h =>
          cases h
          exact Or.inl rfl
    | effect h _ =>
      cases h with
      | atomic _ h =>
        cases h with
        | invoke _ h =>
          cases h
          exact Or.inr rfl

end Esp32Embroidery.Serial
