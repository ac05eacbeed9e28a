import Mathlib.Logic.Basic

/-!
# Machines given by a partial step function

A machine is an initial state and a partial step function on events. A run is
a list of events, each enabled where it happens.

* `ReachableBy P s`: some run ends in `s` and every step of it satisfies `P`.
* `ReachableBy.invariant`: the induction rule for invariants.
* `run_invariant`, `run_establishes`: what holds at the end of a piece of a run.
* `along_congr`: two conditions that agree step by step agree along a run.
* `along_events`: a condition on the events alone.
* `reachableBy_of_run`: an executed run reaches its last state.
* `Simulation.reachable`: forward simulation of one machine by another, each
  with its own condition on steps.
-/

namespace Esp32Embroidery.Lib

/-- A machine with states `σ` and events `α`. `step s a = none` means that the
    event `a` cannot happen in the state `s`. -/
structure Machine (σ α : Type*) where
  init : σ
  step : σ → α → Option σ

namespace Machine

variable {σ α τ β : Type*} (M : Machine σ α)

/-- `s` ends a run from the initial state all of whose steps satisfy `P` (of the
    state before, the event and the state after). -/
inductive ReachableBy (P : σ → α → σ → Prop) : σ → Prop
  | init : ReachableBy P M.init
  | step {s : σ} {a : α} {t : σ} : ReachableBy P s → M.step s a = some t → P s a t →
      ReachableBy P t

/-- `s` ends some run from the initial state. -/
abbrev Reachable (s : σ) : Prop := M.ReachableBy (fun _ _ _ => True) s

variable {M} {P Q : σ → α → σ → Prop}

/-- The induction rule: `I` holds initially and every allowed step from a
    reachable state keeps it. -/
theorem ReachableBy.invariant {I : σ → Prop} (hinit : I M.init)
    (hstep : ∀ s a t, M.ReachableBy P s → I s → M.step s a = some t → P s a t → I t) {s : σ}
    (h : M.ReachableBy P s) : I s := by
  induction h with
  | init => exact hinit
  | step hs hst hP ih => exact hstep _ _ _ hs ih hst hP

theorem ReachableBy.mono (hPQ : ∀ s a t, P s a t → Q s a t) {s : σ} (h : M.ReachableBy P s) :
    M.ReachableBy Q s := by
  induction h with
  | init => exact .init
  | step _ hst hP ih => exact .step ih hst (hPQ _ _ _ hP)

theorem ReachableBy.reachable {s : σ} (h : M.ReachableBy P s) : M.Reachable s :=
  h.mono fun _ _ _ _ => trivial

/-! ## Executing a list of events -/

variable (M) in
/-- The state after the events, or `none` if one of them was not enabled. -/
def run : σ → List α → Option σ
  | s, [] => some s
  | s, a :: as => (M.step s a).bind fun t => run t as

variable (M P) in
/-- Every event of the list is enabled where it happens and its step satisfies `P`. -/
def Along : σ → List α → Prop
  | _, [] => True
  | s, a :: as => match M.step s a with
    | none => False
    | some t => P s a t ∧ Along t as

@[simp] theorem run_nil (s : σ) : M.run s [] = some s := rfl

theorem run_cons (s : σ) (a : α) (as : List α) :
    M.run s (a :: as) = (M.step s a).bind fun t => M.run t as := rfl

theorem run_append {s : σ} {as bs : List α} :
    M.run s (as ++ bs) = (M.run s as).bind fun t => M.run t bs := by
  induction as generalizing s with
  | nil => rfl
  | cons a as ih =>
    rw [List.cons_append, run_cons, run_cons, Option.bind_assoc]
    simp only [ih]

theorem run_concat {s : σ} {as : List α} (a : α) :
    M.run s (as ++ [a]) = (M.run s as).bind fun t => M.step t a := by
  simp only [run_append, run_cons, run_nil, Option.bind_fun_some]

theorem along_cons {s : σ} {a : α} {as : List α} :
    M.Along P s (a :: as) ↔ ∃ t, M.step s a = some t ∧ P s a t ∧ M.Along P t as := by
  rw [Along]
  cases M.step s a with
  | none => simp
  | some t => simp

instance decidableAlong [∀ s a t, Decidable (P s a t)] :
    ∀ (s : σ) (as : List α), Decidable (M.Along P s as)
  | _, [] => .isTrue trivial
  | s, a :: as =>
    match h : M.step s a with
    | none => .isFalse (by rw [Along, h]; exact id)
    | some t =>
      have := decidableAlong t as
      decidable_of_iff (P s a t ∧ M.Along P t as) (by rw [Along, h])

theorem ReachableBy.run {s : σ} (h : M.ReachableBy P s) :
    ∀ {as : List α} {t : σ}, M.run s as = some t → M.Along P s as → M.ReachableBy P t := by
  intro as
  induction as generalizing s with
  | nil => rintro t ⟨⟩ -; exact h
  | cons a as ih =>
    intro t hrun halong
    obtain ⟨u, hu, hP, hrest⟩ := along_cons.1 halong
    rw [run_cons, hu] at hrun
    exact ih (h.step hu hP) hrun hrest

/-! ## Invariants of a piece of a run -/

/-- `I` holds at the end of a run if every event that occurs keeps it. -/
theorem run_invariant {I : σ → Prop} {as : List α}
    (hI : ∀ s, ∀ a ∈ as, ∀ t, I s → M.step s a = some t → I t) {s t : σ} (hs : I s)
    (hrun : M.run s as = some t) : I t := by
  induction as generalizing s with
  | nil => cases hrun; exact hs
  | cons a as ih =>
    rw [run_cons] at hrun
    obtain ⟨u, hu, hrest⟩ := Option.bind_eq_some_iff.1 hrun
    have hIu := hI s a List.mem_cons_self u hs hu
    exact ih (fun s b hb => hI s b (List.mem_cons_of_mem a hb)) hIu hrest

/-- An event that occurs and turns the invariant `I` into `Q` leaves `Q` at the end,
    if every event that occurs keeps both. -/
theorem run_establishes {I Q : σ → Prop} {as : List α} {a : α} (ha : a ∈ as)
    (hI : ∀ s, ∀ b ∈ as, ∀ t, I s → M.step s b = some t → I t)
    (hQ : ∀ s, ∀ b ∈ as, ∀ t, Q s → M.step s b = some t → Q t)
    (haQ : ∀ s t, I s → M.step s a = some t → Q t) {s t : σ} (hs : I s)
    (hrun : M.run s as = some t) : Q t := by
  induction as generalizing s with
  | nil => cases ha
  | cons b as ih =>
    rw [run_cons] at hrun
    obtain ⟨u, hu, hrest⟩ := Option.bind_eq_some_iff.1 hrun
    rcases List.mem_cons.1 ha with rfl | ha
    · have hQu := haQ s u hs hu
      exact run_invariant (fun s c hc => hQ s c (List.mem_cons_of_mem a hc)) hQu hrest
    · have hIu := hI s b List.mem_cons_self u hs hu
      exact ih ha (fun s c hc => hI s c (List.mem_cons_of_mem b hc))
        (fun s c hc => hQ s c (List.mem_cons_of_mem b hc)) hIu hrest

/-- Two conditions on steps agree along a run if they agree wherever the invariant
    `I` holds, and a step that meets them keeps `I`. -/
theorem along_congr {I : σ → Prop} {as : List α}
    (hstep : ∀ s, ∀ a ∈ as, ∀ t, I s → M.step s a = some t →
      (P s a t ↔ Q s a t) ∧ (P s a t → I t)) {s : σ} (hs : I s) :
    M.Along P s as ↔ M.Along Q s as := by
  induction as generalizing s with
  | nil => rfl
  | cons a as ih =>
    rw [along_cons, along_cons]
    refine exists_congr fun t => and_congr_right fun hst => ?_
    obtain ⟨hPQ, hIt⟩ := hstep s a List.mem_cons_self t hs hst
    rw [← hPQ]
    refine and_congr_right fun hP => ih (fun u b hb => ?_) (hIt hP)
    exact hstep u b (List.mem_cons_of_mem a hb)

/-- A condition on the events alone, along a run of a machine that can always step. -/
theorem along_events {Q : α → Prop} (htotal : ∀ s a, ∃ t, M.step s a = some t) {s : σ}
    {as : List α} : M.Along (fun _ a _ => Q a) s as ↔ ∀ a ∈ as, Q a := by
  induction as generalizing s with
  | nil => exact iff_of_true trivial fun a ha => by cases ha
  | cons a as ih =>
    obtain ⟨t, ht⟩ := htotal s a
    rw [along_cons, List.forall_mem_cons]
    constructor
    · intro ⟨u, _, hQ, hrest⟩
      exact ⟨hQ, ih.1 hrest⟩
    · intro ⟨hQ, hrest⟩
      exact ⟨t, ht, hQ, ih.2 hrest⟩

/-- A run executed from the initial state reaches its last state. -/
theorem reachableBy_of_run {as : List α} {t : σ} (hrun : M.run M.init as = some t)
    (halong : M.Along P M.init as) : M.ReachableBy P t :=
  ReachableBy.init.run hrun halong

theorem along_of_run {s : σ} {as : List α} {t : σ} (h : M.run s as = some t) :
    M.Along (fun _ _ _ => True) s as := by
  induction as generalizing s with
  | nil => trivial
  | cons a as ih =>
    rw [run_cons] at h
    obtain ⟨u, hu, hrest⟩ := Option.bind_eq_some_iff.1 h
    exact along_cons.2 ⟨u, hu, trivial, ih hrest⟩

theorem reachable_of_run {as : List α} {t : σ} (hrun : M.run M.init as = some t) :
    M.Reachable t :=
  reachableBy_of_run hrun (along_of_run hrun)

variable (M P) in
/-- A run whose outcome `f` has been computed, as a reachable state. -/
theorem exists_reachableBy (as : List α) (f : σ → τ) {v : τ}
    (hrun : (M.run M.init as).map f = some v) (halong : M.Along P M.init as) :
    ∃ t, M.run M.init as = some t ∧ M.ReachableBy P t ∧ f t = v := by
  obtain ⟨t, ht, rfl⟩ := Option.map_eq_some_iff.1 hrun
  exact ⟨t, ht, reachableBy_of_run ht halong, rfl⟩

variable (M) in
theorem exists_reachable (as : List α) (f : σ → τ) {v : τ}
    (hrun : (M.run M.init as).map f = some v) :
    ∃ t, M.run M.init as = some t ∧ M.Reachable t ∧ f t = v := by
  obtain ⟨t, ht, rfl⟩ := Option.map_eq_some_iff.1 hrun
  exact ⟨t, ht, reachable_of_run ht, rfl⟩

/-! ## Forward simulation -/

/-- Every step of `M` allowed by `P` is matched by no step of `N` or by one step
    allowed by `R`. Both sides may use that their states are reachable. -/
structure Simulation (M : Machine σ α) (P : σ → α → σ → Prop) (N : Machine τ β)
    (R : τ → β → τ → Prop) where
  rel : σ → τ → Prop
  init : rel M.init N.init
  step : ∀ {s : σ} {a : α} {s' : σ} {t : τ}, M.ReachableBy P s → N.ReachableBy R t → rel s t →
    M.step s a = some s' → P s a s' →
      rel s' t ∨ ∃ b t', N.step t b = some t' ∧ R t b t' ∧ rel s' t'

/-- Every reachable state of the simulated machine is related to a reachable
    state of the simulating one. -/
theorem Simulation.reachable {N : Machine τ β} {R : τ → β → τ → Prop} (S : Simulation M P N R)
    {s : σ} (h : M.ReachableBy P s) : ∃ t, N.ReachableBy R t ∧ S.rel s t := by
  induction h with
  | init => exact ⟨N.init, .init, S.init⟩
  | step hs hst hP ih =>
    obtain ⟨t, ht, hrel⟩ := ih
    rcases S.step hs ht hrel hst hP with hrel' | ⟨b, t', hb, hR, hrel'⟩
    · exact ⟨t, ht, hrel'⟩
    · exact ⟨t', ht.step hb hR, hrel'⟩

end Machine

end Esp32Embroidery.Lib
