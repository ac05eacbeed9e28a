import Esp32Embroidery.Lib.Machine

/-!
# Linearization of a client that an interrupt preempts

A client calls the operations of an object one after the other; each takes some
time and has an invocation and a return. The calls of the interrupt happen at
once, also inside an operation of the client.

* `Linearizes`: an order of all calls in which every operation of the client
  stands at one moment between its invocation and its return.
* `Explains`: that order is a run of the object.
* `Explains.atomic`, `Explains.invoke`, `Explains.effect`, `Explains.ret`: the
  rules to follow an implementation step by step. The moment of an operation
  need not be known when it passes: several explanations can be carried along.
-/

namespace Esp32Embroidery.Lib

/-- What is seen of the object, with the operations `ι` of the client and calls
    `κ` that carry their results. -/
inductive HistoryEntry (ι κ : Type*)
  /-- a call that takes no time -/
  | atomic (c : κ)
  /-- the client begins an operation -/
  | invoke (i : ι)
  /-- the operation of the client ends: it was this call -/
  | ret (c : κ)
  deriving DecidableEq

/-- The operation of the client at the end of a history. -/
inductive ClientStatus (ι κ : Type*)
  | idle
  /-- invoked, and not in the order of the calls yet -/
  | waiting (i : ι)
  /-- in the order of the calls, and not returned yet -/
  | done (c : κ)

variable {ι κ σ : Type*}

/-- The calls in the order they take effect, for a history, newest entry first.
    `answers i c`: the call `c` is the operation `i` with some result. -/
inductive Linearizes (answers : ι → κ → Prop) :
    List (HistoryEntry ι κ) → List κ → ClientStatus ι κ → Prop
  | nil : Linearizes answers [] [] .idle
  | atomic {h : List (HistoryEntry ι κ)} {calls : List κ} {p : ClientStatus ι κ} (c : κ) :
      Linearizes answers h calls p → Linearizes answers (.atomic c :: h) (calls ++ [c]) p
  | invoke {h : List (HistoryEntry ι κ)} {calls : List κ} (i : ι) :
      Linearizes answers h calls .idle → Linearizes answers (.invoke i :: h) calls (.waiting i)
  | effect {h : List (HistoryEntry ι κ)} {calls : List κ} {i : ι} {c : κ} :
      Linearizes answers h calls (.waiting i) → answers i c →
        Linearizes answers h (calls ++ [c]) (.done c)
  | ret {h : List (HistoryEntry ι κ)} {calls : List κ} (c : κ) :
      Linearizes answers h calls (.done c) → Linearizes answers (.ret c :: h) calls .idle

/-- The history has a linearization that is a run of the object to `s`. -/
def Explains (M : Machine σ κ) (answers : ι → κ → Prop) (h : List (HistoryEntry ι κ)) (s : σ)
    (p : ClientStatus ι κ) : Prop :=
  ∃ calls, Linearizes answers h calls p ∧ M.run M.init calls = some s

namespace Explains

variable {M : Machine σ κ} {answers : ι → κ → Prop} {h : List (HistoryEntry ι κ)} {s t : σ}

theorem init : Explains M answers [] M.init .idle := ⟨[], .nil, rfl⟩

theorem run_concat {calls : List κ} {c : κ} (hrun : M.run M.init calls = some s)
    (hst : M.step s c = some t) : M.run M.init (calls ++ [c]) = some t := by
  rw [Machine.run_concat, hrun]
  exact hst

/-- A call of the interrupt, whatever the client is at. -/
theorem atomic {p : ClientStatus ι κ} {c : κ} (he : Explains M answers h s p)
    (hst : M.step s c = some t) : Explains M answers (.atomic c :: h) t p := by
  obtain ⟨calls, hlin, hrun⟩ := he
  exact ⟨calls ++ [c], hlin.atomic c, run_concat hrun hst⟩

theorem invoke (i : ι) (he : Explains M answers h s .idle) :
    Explains M answers (.invoke i :: h) s (.waiting i) := by
  obtain ⟨calls, hlin, hrun⟩ := he
  exact ⟨calls, hlin.invoke i, hrun⟩

/-- The operation of the client takes effect. -/
theorem effect {i : ι} {c : κ} (he : Explains M answers h s (.waiting i)) (hi : answers i c)
    (hst : M.step s c = some t) : Explains M answers h t (.done c) := by
  obtain ⟨calls, hlin, hrun⟩ := he
  exact ⟨calls ++ [c], hlin.effect hi, run_concat hrun hst⟩

theorem ret {c : κ} (he : Explains M answers h s (.done c)) :
    Explains M answers (.ret c :: h) s .idle := by
  obtain ⟨calls, hlin, hrun⟩ := he
  exact ⟨calls, hlin.ret c, hrun⟩

end Explains

end Esp32Embroidery.Lib
