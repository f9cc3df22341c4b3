-- SUMMARY: Code whose state is there also after it has stopped, and when two runs of such code end alike.
import Mathlib.Tactic.Common

/-!
# Simulation of code that may stop

In `StateT σ (Except ε)` the state is gone when the code stops. Here it stays, so that one can ask what
a run did up to the point where it stopped. `Simulates` compares two runs, which may be on different
kinds of state: they come back both with one result or stop both for one reason, and in related states.
Nothing here depends on the program that is run.
-/

namespace Exec

variable {σ τ ε α β : Type}

/-- Code on a state that lasts: it may stop for a reason of type `ε`, and leaves a state also then. -/
abbrev Lasting (σ ε α : Type) := ExceptT ε (StateM σ) α

namespace Lasting

variable {x : Lasting σ ε α} {f : α → Lasting σ ε β} {s s' : σ}

theorem get_run (s : σ) : (get : Lasting σ ε σ) s = (.ok s, s) := rfl

theorem bind_ok {a : α} (h : x s = (.ok a, s')) : (x >>= f) s = f a s' := by
  simp only [bind, ExceptT.bind, ExceptT.mk, StateT.bind, h, ExceptT.bindCont]

theorem bind_error {e : ε} (h : x s = (.error e, s')) : (x >>= f) s = (.error e, s') := by
  simp only [bind, ExceptT.bind, ExceptT.mk, StateT.bind, h, ExceptT.bindCont]
  rfl

end Lasting

/-- From these states the two runs end alike, in states that are related. -/
def Simulates (R : σ → τ → Prop) (x : Lasting σ ε α) (y : Lasting τ ε α) (s : σ) (t : τ) : Prop :=
  (x s).1 = (y t).1 ∧ R (x s).2 (y t).2

namespace Simulates

variable {R : σ → τ → Prop} {x x' : Lasting σ ε α} {y y' : Lasting τ ε α} {f : α → Lasting σ ε β}
  {g : α → Lasting τ ε β} {s s' : σ} {t t' : τ}

theorem pure (a : α) (h : R s t) : Simulates R (pure a : Lasting σ ε α) (pure a) s t := ⟨rfl, h⟩

theorem throw (e : ε) (h : R s t) : Simulates R (throw e : Lasting σ ε α) (throw e) s t := ⟨rfl, h⟩

/-- Two runs that come down to two others. -/
theorem congr (h : Simulates R x y s t) (hx : x' s' = x s) (hy : y' t' = y t) : Simulates R x' y' s' t' := by
  rw [Simulates, hx, hy]
  exact h

theorem bind (h : Simulates R x y s t) (hf : ∀ a s' t', R s' t' → Simulates R (f a) (g a) s' t') :
    Simulates R (x >>= f) (y >>= g) s t := by
  obtain ⟨hend, hR⟩ := h
  cases hx : x s with
  | mk r s' =>
      cases hy : y t with
      | mk r' t' =>
          rw [hx, hy] at hend hR
          cases hend
          cases r with
          | ok a => exact (hf a s' t' hR).congr (Lasting.bind_ok hx) (Lasting.bind_ok hy)
          | error e =>
              rw [Simulates, Lasting.bind_error hx, Lasting.bind_error hy]
              exact ⟨rfl, hR⟩

end Simulates

end Exec
