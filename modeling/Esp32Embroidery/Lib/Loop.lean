import Mathlib.Logic.Basic
import Mathlib.Tactic.Common

/-!
# Loops

A loop is a partial function on states: `body s = none` when its condition is false in `s`,
else `body s` is the state after one iteration.

* `LeavesWith body s t`: the loop, started in `s`, ends in `t`.
* `leavesWith_of_none`, `leavesWith_of_some`: the equations of a loop.
* `LeavesWith.invariant`: the rule for what holds at the end.
* `exists_leavesWith`: a measure that every iteration lowers makes the loop end.
* `not_leavesWith`: a loop that can always go on does not end.
* `runLoop`, `runLoop_spec`: a loop executed with enough fuel, by an invariant and a measure.
-/

namespace Esp32Embroidery.Lib

variable {σ : Type*} {body : σ → Option σ}

/-- `t` ends the loop from `s`, after finitely many iterations. -/
inductive LeavesWith (body : σ → Option σ) : σ → σ → Prop
  | stop {s : σ} : body s = none → LeavesWith body s s
  | next {s t u : σ} : body s = some t → LeavesWith body t u → LeavesWith body s u

theorem leavesWith_of_none {s t : σ} (hbody : body s = none) : LeavesWith body s t ↔ t = s := by
  constructor
  · intro h
    cases h with
    | stop _ => rfl
    | next hnext _ =>
      rw [hbody] at hnext
      cases hnext
  · rintro rfl
    exact .stop hbody

/-- The end does not depend on where the loop is looked at. -/
theorem leavesWith_of_some {s t u : σ} (hbody : body s = some t) :
    LeavesWith body s u ↔ LeavesWith body t u := by
  constructor
  · intro h
    cases h with
    | stop hstop =>
      rw [hbody] at hstop
      cases hstop
    | next hnext hrest =>
      rw [hbody] at hnext
      cases hnext
      exact hrest
  · exact .next hbody

/-- The condition is false at the end. -/
theorem LeavesWith.eq_none {s t : σ} (h : LeavesWith body s t) : body t = none := by
  induction h with
  | stop hbody => exact hbody
  | next _ _ ih => exact ih

/-- What every iteration keeps holds at the end. -/
theorem LeavesWith.invariant {I : σ → Prop} (hI : ∀ s t, I s → body s = some t → I t) {s t : σ}
    (h : LeavesWith body s t) (hs : I s) : I t := by
  induction h with
  | stop _ => exact hs
  | next hbody _ ih => exact ih (hI _ _ hs hbody)

/-- A measure that every iteration lowers as long as the invariant `I` holds. -/
theorem exists_leavesWith {I : σ → Prop} (measure : σ → ℕ)
    (hI : ∀ s t, I s → body s = some t → I t ∧ measure t < measure s) {s : σ} (hs : I s) :
    ∃ t, LeavesWith body s t := by
  induction hn : measure s using Nat.strongRecOn generalizing s with
  | ind n ih =>
    cases hbody : body s with
    | none => exact ⟨s, .stop hbody⟩
    | some t =>
      obtain ⟨ht, hlt⟩ := hI s t hs hbody
      obtain ⟨u, hu⟩ := ih (measure t) (hn ▸ hlt) ht rfl
      exact ⟨u, .next hbody hu⟩

/-- A loop whose condition is never false. -/
theorem not_leavesWith {I : σ → Prop} (hI : ∀ s, I s → ∃ t, body s = some t ∧ I t) {s t : σ}
    (hs : I s) : ¬LeavesWith body s t := by
  intro h
  have hinv : I t := by
    refine h.invariant (fun s u hs hbody => ?_) hs
    obtain ⟨v, hv, hIv⟩ := hI s hs
    rw [hbody] at hv
    cases hv
    exact hIv
  obtain ⟨u, hu, -⟩ := hI t hinv
  rw [h.eq_none] at hu
  cases hu

/-! ## Execution -/

/-- The end of the loop, if the condition is tested at most `fuel` times. -/
def runLoop (body : σ → Option σ) : (fuel : ℕ) → σ → Option σ
  | 0, _ => none
  | fuel + 1, s =>
    match body s with
    | none => some s
    | some t => runLoop body fuel t

/-- The rule for a loop: what every iteration keeps holds at the end, and a measure below the
    fuel that every iteration lowers makes it end. -/
theorem runLoop_spec {I : σ → Prop} (measure : σ → ℕ)
    (hI : ∀ s t, I s → body s = some t → I t ∧ measure t < measure s) :
    ∀ {fuel : ℕ} {s : σ}, I s → measure s < fuel →
      ∃ t, runLoop body fuel s = some t ∧ I t ∧ body t = none := by
  intro fuel
  induction fuel with
  | zero => exact fun _ hlt => absurd hlt (Nat.not_lt_zero _)
  | succ fuel ih =>
    intro s hs hlt
    rw [runLoop]
    cases hbody : body s with
    | none => exact ⟨s, rfl, hs, hbody⟩
    | some t =>
      obtain ⟨ht, hless⟩ := hI s t hs hbody
      exact ih ht (by omega)

end Esp32Embroidery.Lib
