import Mathlib.Data.List.Basic
import Mathlib.Data.List.Pairwise
import Mathlib.Order.Lattice
import Mathlib.Tactic.Common

/-!
# Merging neighbours with equal keys

`coalesce` walks through a list and merges every element into the one before it
while the keys agree. In a list that is sorted by key it leaves one element for each
key.

* `coalesce_lt`: the keys of the result increase strictly.
* `mem_keys_coalesce`: it has the keys of the list.
* `countP_coalesce`: no element with a property gets lost, if no two of them have the
  same key.
* `coalesce_perm`: it does not depend on the order of equal keys, if merging only collects
  properties.
-/

namespace Esp32Embroidery.Lib

variable {α κ : Type*} [DecidableEq κ] (key : α → κ) (merge : α → α → α)

/-- `coalesce` behind the element `cur`, into which the elements before were merged. -/
def coalesceFrom : α → List α → List α
  | cur, [] => [cur]
  | cur, x :: xs =>
    if key x = key cur then coalesceFrom (merge cur x) xs else cur :: coalesceFrom x xs

def coalesce : List α → List α
  | [] => []
  | x :: xs => coalesceFrom key merge x xs

variable {key merge}

/-- What holds of all elements and is kept by `merge` holds of the result. -/
theorem forall_coalesceFrom {P : α → Prop} (hP : ∀ a b, P a → P b → P (merge a b)) {cur : α}
    {xs : List α} (hcur : P cur) (hxs : ∀ x ∈ xs, P x) :
    ∀ y ∈ coalesceFrom key merge cur xs, P y := by
  induction xs generalizing cur with
  | nil =>
    intro y hy
    rw [List.mem_singleton.1 hy]
    exact hcur
  | cons x xs ih =>
    rw [List.forall_mem_cons] at hxs
    unfold coalesceFrom
    split_ifs
    · exact ih (hP _ _ hcur hxs.1) hxs.2
    · rw [List.forall_mem_cons]
      exact ⟨hcur, ih hxs.1 hxs.2⟩

theorem forall_coalesce {P : α → Prop} (hP : ∀ a b, P a → P b → P (merge a b)) {xs : List α}
    (hxs : ∀ x ∈ xs, P x) : ∀ y ∈ coalesce key merge xs, P y := by
  cases xs with
  | nil => exact hxs
  | cons x xs =>
    rw [List.forall_mem_cons] at hxs
    exact forall_coalesceFrom hP hxs.1 hxs.2

section

variable (hkey : ∀ a b, key (merge a b) = key a)

include hkey

theorem mem_keys_coalesceFrom {cur : α} {xs : List α} {k : κ} :
    k ∈ (coalesceFrom key merge cur xs).map key ↔ k = key cur ∨ k ∈ xs.map key := by
  induction xs generalizing cur with
  | nil => simp [coalesceFrom]
  | cons x xs ih =>
    unfold coalesceFrom
    split_ifs with heq
    · rw [ih, hkey, List.map_cons, List.mem_cons, heq, ← or_assoc, or_self]
    · rw [List.map_cons, List.mem_cons, ih, List.map_cons, List.mem_cons]

theorem mem_keys_coalesce {xs : List α} {k : κ} :
    k ∈ (coalesce key merge xs).map key ↔ k ∈ xs.map key := by
  cases xs with
  | nil => rfl
  | cons x xs => rw [coalesce, mem_keys_coalesceFrom hkey, List.map_cons, List.mem_cons]

/-- Elements with the property `p` have different keys, so none is merged into another. -/
theorem countP_coalesceFrom {p : α → Bool} (hp : ∀ a b, p (merge a b) = (p a || p b)) {cur : α}
    {xs : List α} (hne : (cur :: xs).Pairwise fun a b => p a = true → p b = true → key a ≠ key b) :
    (coalesceFrom key merge cur xs).countP p = (cur :: xs).countP p := by
  induction xs generalizing cur with
  | nil => rfl
  | cons x xs ih =>
    obtain ⟨hcur, hrest⟩ := List.pairwise_cons.1 hne
    obtain ⟨hx, hxs⟩ := List.pairwise_cons.1 hrest
    unfold coalesceFrom
    split_ifs with heq
    · have hmerged : (merge cur x :: xs).Pairwise fun a b =>
          p a = true → p b = true → key a ≠ key b := by
        refine List.pairwise_cons.2 ⟨fun y hy hpm hpy => ?_, hxs⟩
        rw [hp, Bool.or_eq_true] at hpm
        rw [hkey]
        rcases hpm with hpc | hpx
        · exact hcur y (List.mem_cons_of_mem _ hy) hpc hpy
        · rw [← heq]
          exact hx y hy hpx hpy
      rw [ih hmerged, List.countP_cons, List.countP_cons, List.countP_cons, hp]
      have hnot : ¬(p cur = true ∧ p x = true) := by
        intro hboth
        exact hcur x List.mem_cons_self hboth.1 hboth.2 heq.symm
      cases hc : p cur <;> cases hpx : p x <;> simp_all
    · rw [List.countP_cons, ih hrest, List.countP_cons (l := x :: xs)]

theorem countP_coalesce {p : α → Bool} (hp : ∀ a b, p (merge a b) = (p a || p b)) {xs : List α}
    (hne : xs.Pairwise fun a b => p a = true → p b = true → key a ≠ key b) :
    (coalesce key merge xs).countP p = xs.countP p := by
  cases xs with
  | nil => rfl
  | cons x xs => exact countP_coalesceFrom hkey hp hne

end

/-! ## Sorted lists -/

section

variable {α κ : Type*} [LinearOrder κ] {key : α → κ} {merge : α → α → α}
  (hkey : ∀ a b, key (merge a b) = key a)

include hkey

theorem pairwise_merge {cur x : α} {xs : List α}
    (hle : (cur :: x :: xs).Pairwise fun a b => key a ≤ key b) :
    (merge cur x :: xs).Pairwise fun a b => key a ≤ key b := by
  obtain ⟨hcur, hrest⟩ := List.pairwise_cons.1 hle
  refine List.pairwise_cons.2 ⟨fun y hy => ?_, (List.pairwise_cons.1 hrest).2⟩
  rw [hkey]
  exact hcur y (List.mem_cons_of_mem _ hy)

theorem coalesceFrom_lt {cur : α} {xs : List α}
    (hle : (cur :: xs).Pairwise fun a b => key a ≤ key b) :
    (coalesceFrom key merge cur xs).Pairwise fun a b => key a < key b := by
  induction xs generalizing cur with
  | nil => exact List.pairwise_singleton _ _
  | cons x xs ih =>
    obtain ⟨hcur, hrest⟩ := List.pairwise_cons.1 hle
    obtain ⟨hx, -⟩ := List.pairwise_cons.1 hrest
    unfold coalesceFrom
    split_ifs with heq
    · exact ih (pairwise_merge hkey hle)
    · refine List.pairwise_cons.2 ⟨fun y hy => ?_, ih hrest⟩
      -- the keys behind `x` are at least that of `x`
      have hlt : key cur < key x := lt_of_le_of_ne (hcur x List.mem_cons_self) (Ne.symm heq)
      rcases (mem_keys_coalesceFrom hkey).1 (List.mem_map_of_mem hy) with hyx | hyx
      · rw [hyx]
        exact hlt
      · obtain ⟨z, hz, hzy⟩ := List.mem_map.1 hyx
        rw [← hzy]
        exact hlt.trans_le (hx z hz)

theorem coalesce_lt {xs : List α} (hle : xs.Pairwise fun a b => key a ≤ key b) :
    (coalesce key merge xs).Pairwise fun a b => key a < key b := by
  cases xs with
  | nil => exact .nil
  | cons x xs => exact coalesceFrom_lt hkey hle

/-- An element of the result has the property `p` iff an element of the list with its key
    has it. -/
theorem any_coalesceFrom {p : α → Bool} (hp : ∀ a b, p (merge a b) = (p a || p b)) {cur : α}
    {xs : List α} (hle : (cur :: xs).Pairwise fun a b => key a ≤ key b) {y : α}
    (hy : y ∈ coalesceFrom key merge cur xs) :
    p y = true ↔ ∃ x ∈ cur :: xs, key x = key y ∧ p x = true := by
  induction xs generalizing cur with
  | nil =>
    rw [List.mem_singleton.1 hy]
    simp
  | cons x xs ih =>
    obtain ⟨hcur, hrest⟩ := List.pairwise_cons.1 hle
    obtain ⟨hx, -⟩ := List.pairwise_cons.1 hrest
    unfold coalesceFrom at hy
    split_ifs at hy with heq
    · rw [ih (pairwise_merge hkey hle) hy]
      simp only [List.exists_mem_cons_iff, hkey, hp, heq, Bool.or_eq_true]
      rw [and_or_left, or_assoc]
    · have hlt : key cur < key x := lt_of_le_of_ne (hcur x List.mem_cons_self) (Ne.symm heq)
      have hge : ∀ z ∈ x :: xs, key x ≤ key z := by
        rw [List.forall_mem_cons]
        exact ⟨le_rfl, hx⟩
      rcases List.mem_cons.1 hy with rfl | hy
      · constructor
        · intro hpy
          exact ⟨y, List.mem_cons_self, rfl, hpy⟩
        · intro ⟨z, hz, hzy, hpz⟩
          rcases List.mem_cons.1 hz with rfl | hz
          · exact hpz
          · exact absurd (hlt.trans_le (hge z hz)) (hzy ▸ lt_irrefl _)
      · rw [ih hrest hy, List.exists_mem_cons_iff _ cur]
        refine (or_iff_right fun hcury => ?_).symm
        obtain ⟨z, hz, hzy⟩ : ∃ z ∈ x :: xs, key z = key y := by
          have hmem := (mem_keys_coalesceFrom hkey).1 (List.mem_map_of_mem hy)
          rwa [← List.mem_cons, ← List.map_cons, List.mem_map] at hmem
        exact absurd (hlt.trans_le (hge z hz)) (by rw [hzy, hcury.1]; exact lt_irrefl _)

theorem any_coalesce {p : α → Bool} (hp : ∀ a b, p (merge a b) = (p a || p b)) {xs : List α}
    (hle : xs.Pairwise fun a b => key a ≤ key b) {y : α} (hy : y ∈ coalesce key merge xs) :
    p y = true ↔ ∃ x ∈ xs, key x = key y ∧ p x = true := by
  cases xs with
  | nil => cases hy
  | cons x xs => exact any_coalesceFrom hkey hp hle hy

section

/-! A family of such properties that tells elements with one key apart. -/

variable {ι : Type*} {p : ι → α → Bool} (hp : ∀ i a b, p i (merge a b) = (p i a || p i b))
  (hext : ∀ a b, key a = key b → (∀ i, p i a = p i b) → a = b)

include hp hext

theorem mem_coalesce_of_perm {xs ys : List α} (h : xs.Perm ys)
    (hxs : xs.Pairwise fun a b => key a ≤ key b) (hys : ys.Pairwise fun a b => key a ≤ key b)
    {a : α} (ha : a ∈ coalesce key merge xs) : a ∈ coalesce key merge ys := by
  have hkeys := (mem_keys_coalesce hkey).1 (List.mem_map_of_mem (f := key) ha)
  have hmem := (mem_keys_coalesce hkey).2 ((h.map key).mem_iff.1 hkeys)
  obtain ⟨b, hb, hba⟩ := List.mem_map.1 hmem
  have hab : a = b := by
    refine hext a b hba.symm fun i => Bool.eq_iff_iff.2 ?_
    rw [any_coalesce hkey (hp i) hxs ha, any_coalesce hkey (hp i) hys hb, hba]
    exact exists_congr fun z => and_congr_left fun _ => h.mem_iff
  rw [hab]
  exact hb

/-- The result is the same for every order of equal keys. -/
theorem coalesce_perm {xs ys : List α} (h : xs.Perm ys)
    (hxs : xs.Pairwise fun a b => key a ≤ key b) (hys : ys.Pairwise fun a b => key a ≤ key b) :
    coalesce key merge xs = coalesce key merge ys := by
  have hltx : (coalesce key merge xs).Pairwise fun a b => key a < key b := coalesce_lt hkey hxs
  have hlty : (coalesce key merge ys).Pairwise fun a b => key a < key b := coalesce_lt hkey hys
  have hnodup : ∀ {zs : List α}, (zs.Pairwise fun a b => key a < key b) → zs.Nodup :=
    fun hlt => hlt.imp fun hab heq => hab.ne (congrArg key heq)
  refine List.Perm.eq_of_pairwise (fun a b _ _ hab hba => absurd hba hab.asymm) hltx hlty ?_
  refine (List.perm_ext_iff_of_nodup (hnodup hltx) (hnodup hlty)).2 fun a => ⟨?_, ?_⟩
  · exact mem_coalesce_of_perm hkey hp hext h hxs hys
  · exact mem_coalesce_of_perm hkey hp hext h.symm hys hxs

end

end

end Esp32Embroidery.Lib
