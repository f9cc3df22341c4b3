-- SUMMARY: Total and partial correctness for stateful code that may stop early, with rules for sequencing and for counted loops.
import Mathlib.Algebra.Order.Ring.Int
import Mathlib.Order.Defs.Unbundled
import Mathlib.Tactic.Common

/-!
# Stateful code that may stop early

Code is a function `StateT σ (Except ε) α`: it threads a state of type `σ` and may stop for a
reason of type `ε`, in which case it never comes back to its caller. `Returns` is total
correctness of one run and `WhenReturns` is partial correctness. `Respects` is about all runs: it says
how the state may change, for a reflexive and transitive relation between states. `Alike` compares two
runs of the same code. Nothing here depends on the program that is run.
-/

namespace Exec

universe u

variable {σ ε α β : Type u}

/-- The code comes back, with a result and a state that satisfy `Q`. -/
def Returns (x : StateT σ (Except ε) α) (s : σ) (Q : α → σ → Prop) : Prop :=
  ∃ a s', x s = .ok (a, s') ∧ Q a s'

/-- If the code comes back, then with a result and a state that satisfy `Q`. -/
def WhenReturns (x : StateT σ (Except ε) α) (s : σ) (Q : α → σ → Prop) : Prop :=
  ∀ a s', x s = .ok (a, s') → Q a s'

/-! ## Running a sequence -/

@[simp] theorem pure_apply (a : α) (s : σ) :
    (pure a : StateT σ (Except ε) α) s = .ok (a, s) := rfl

@[simp] theorem get_apply (s : σ) : (get : StateT σ (Except ε) σ) s = .ok (s, s) := rfl

theorem bind_apply (x : StateT σ (Except ε) α) (f : α → StateT σ (Except ε) β) (s : σ) :
    (x >>= f) s = (x s).bind fun p => f p.1 p.2 := rfl

@[simp] theorem bind_of_ok (a : α) (f : α → Except ε β) : (Except.ok a).bind f = f a := rfl

@[simp] theorem bind_of_error (e : ε) (f : α → Except ε β) :
    (Except.error e).bind f = .error e := rfl

/-- A sequence whose first part is known to come back continues with the second part. -/
theorem bind_run {x : StateT σ (Except ε) α} {f : α → StateT σ (Except ε) β} {s s₁ : σ} {a : α}
    (h : x s = .ok (a, s₁)) : (x >>= f) s = f a s₁ := by
  simp only [bind, StateT.bind, h, Except.bind]

/-- A sequence comes back exactly when both parts do. -/
theorem bind_ok {x : StateT σ (Except ε) α} {f : α → StateT σ (Except ε) β} {s : σ} {r : β × σ} :
    (x >>= f) s = .ok r ↔ ∃ a s₁, x s = .ok (a, s₁) ∧ f a s₁ = .ok r := by
  cases h : x s with
  | error e => simp [bind, StateT.bind, h, Except.bind]
  | ok p =>
      obtain ⟨a, s₁⟩ := p
      simp [bind, StateT.bind, h, Except.bind]

theorem except_bind_ok {x : Except ε α} {f : α → Except ε β} {b : β} :
    x.bind f = .ok b ↔ ∃ a, x = .ok a ∧ f a = .ok b := by
  cases x with
  | error e => simp [Except.bind]
  | ok a => simp [Except.bind]

theorem except_map_ok {x : Except ε α} {f : α → β} {b : β} :
    x.map f = .ok b ↔ ∃ a, x = .ok a ∧ f a = b := by
  cases x with
  | error e => simp [Except.map]
  | ok a => simp [Except.map]

/-! ## Total correctness -/

namespace Returns

variable {x : StateT σ (Except ε) α} {f : α → StateT σ (Except ε) β} {s : σ}
  {P Q : α → σ → Prop} {R : β → σ → Prop}

theorem of_eq {a : α} {s' : σ} (h : x s = .ok (a, s')) (hQ : Q a s') : Returns x s Q :=
  ⟨a, s', h, hQ⟩

/-- Only what the code does from this state matters. -/
theorem congr {y : StateT σ (Except ε) α} (h : Returns x s Q) (hxy : y s = x s) : Returns y s Q := by
  rw [Returns, hxy]
  exact h

theorem mono (h : Returns x s P) (hPQ : ∀ a s', P a s' → Q a s') : Returns x s Q := by
  obtain ⟨a, s', hx, hP⟩ := h
  exact ⟨a, s', hx, hPQ a s' hP⟩

theorem bind (h : Returns x s P) (hf : ∀ a s', P a s' → Returns (f a) s' R) :
    Returns (x >>= f) s R := by
  obtain ⟨a, s₁, hx, hP⟩ := h
  obtain ⟨b, s₂, hb, hR⟩ := hf a s₁ hP
  exact ⟨b, s₂, (bind_run hx).trans hb, hR⟩

/-- What a run returns is what the total specification says. -/
theorem whenReturns (h : Returns x s Q) : WhenReturns x s Q := by
  obtain ⟨a, s₁, hx, hQ⟩ := h
  intro b s₂ hb
  rw [hx] at hb
  cases hb
  exact hQ

end Returns

/-- One run that comes back makes a partial specification total. -/
theorem Returns.of_whenReturns {x : StateT σ (Except ε) α} {s s' : σ} {a : α} {Q : α → σ → Prop}
    (h : WhenReturns x s Q) (hx : x s = .ok (a, s')) : Returns x s Q := ⟨a, s', hx, h a s' hx⟩

/-! ## Partial correctness -/

namespace WhenReturns

variable {x : StateT σ (Except ε) α} {f : α → StateT σ (Except ε) β} {s : σ}
  {P Q : α → σ → Prop} {R : β → σ → Prop}

theorem mono (h : WhenReturns x s P) (hPQ : ∀ a s', P a s' → Q a s') : WhenReturns x s Q :=
  fun a s' hx => hPQ a s' (h a s' hx)

theorem bind (h : WhenReturns x s P) (hf : ∀ a s', P a s' → WhenReturns (f a) s' R) :
    WhenReturns (x >>= f) s R := by
  intro b s₂ hb
  obtain ⟨a, s₁, hx, hfa⟩ := bind_ok.mp hb
  exact hf a s₁ (h a s₁ hx) b s₂ hfa

theorem pure {a : α} (h : Q a s) : WhenReturns (pure a : StateT σ (Except ε) α) s Q := by
  intro b s' hb
  cases hb
  exact h

theorem get {Q : σ → σ → Prop} (h : Q s s) : WhenReturns (get : StateT σ (Except ε) σ) s Q := by
  intro b s' hb
  cases hb
  exact h

theorem modify {g : σ → σ} {Q : PUnit → σ → Prop} (h : Q PUnit.unit (g s)) :
    WhenReturns (modify g : StateT σ (Except ε) PUnit) s Q := by
  intro b s' hb
  cases hb
  exact h

theorem throw (e : ε) : WhenReturns (throw e : StateT σ (Except ε) α) s Q := by
  intro b s' hb
  cases hb

end WhenReturns

/-! ## Counted loops -/

/-- The loop `for (k = i; n more times; k++) body(k)`. -/
def forUp {m : Type u → Type u} [Monad m] (body : Nat → m PUnit) : Nat → Nat → m PUnit
  | _, 0 => Pure.pure PUnit.unit
  | i, n + 1 => do
      body i
      forUp body (i + 1) n

section Loops

variable {body : Nat → StateT σ (Except ε) PUnit} {s : σ}

/-- A loop whose body keeps a total invariant from each index to the next comes back with it. -/
theorem forUp_returns {I : Nat → σ → Prop} {i n : Nat} (h : I i s)
    (hbody : ∀ k s, i ≤ k → k < i + n → I k s → Returns (body k) s fun _ s' => I (k + 1) s') :
    Returns (forUp body i n) s fun _ s' => I (i + n) s' := by
  induction n generalizing i s with
  | zero => exact .of_eq rfl h
  | succ n ih =>
      refine (hbody i s (Nat.le_refl i) (by omega) h).bind fun _ s₁ h₁ => ?_
      have hrest := ih h₁ fun k s hk hkn => hbody k s (by omega) (by omega)
      exact hrest.mono fun _ s' h' => by simpa only [Nat.add_right_comm, Nat.add_assoc] using h'

/-- A loop whose body keeps an invariant whenever it comes back ends with it. -/
theorem forUp_whenReturns {I : Nat → σ → Prop} {i n : Nat} (h : I i s)
    (hbody : ∀ k s, i ≤ k → k < i + n → I k s → WhenReturns (body k) s fun _ s' => I (k + 1) s') :
    WhenReturns (forUp body i n) s fun _ s' => I (i + n) s' := by
  induction n generalizing i s with
  | zero => exact .pure h
  | succ n ih =>
      refine (hbody i s (Nat.le_refl i) (by omega) h).bind fun _ s₁ h₁ => ?_
      have hrest := ih h₁ fun k s hk hkn => hbody k s (by omega) (by omega)
      exact hrest.mono fun _ s' h' => by simpa only [Nat.add_right_comm, Nat.add_assoc] using h'

end Loops

/-! ## Partial correctness that is total under a condition -/

/-- Partial correctness, and total correctness under the condition `T`. -/
def ReturnsIf (T : Prop) (x : StateT σ (Except ε) α) (s : σ) (Q : α → σ → Prop) : Prop :=
  WhenReturns x s Q ∧ (T → Returns x s Q)

namespace ReturnsIf

variable {T : Prop} {x : StateT σ (Except ε) α} {f : α → StateT σ (Except ε) β} {s : σ}
  {P Q : α → σ → Prop} {R : β → σ → Prop}

theorem of_returns (h : Returns x s Q) : ReturnsIf T x s Q := ⟨h.whenReturns, fun _ => h⟩

theorem mono (h : ReturnsIf T x s P) (hPQ : ∀ a s', P a s' → Q a s') : ReturnsIf T x s Q :=
  ⟨h.1.mono hPQ, fun hT => (h.2 hT).mono hPQ⟩

theorem bind (h : ReturnsIf T x s P) (hf : ∀ a s', P a s' → ReturnsIf T (f a) s' R) :
    ReturnsIf T (x >>= f) s R :=
  ⟨h.1.bind fun a s' hP => (hf a s' hP).1, fun hT => (h.2 hT).bind fun a s' hP => (hf a s' hP).2 hT⟩

/-- A run that comes to another run. -/
theorem congr {y : StateT σ (Except ε) α} {s' : σ} (h : ReturnsIf T x s Q) (hxy : y s' = x s) :
    ReturnsIf T y s' Q := by
  rw [ReturnsIf, WhenReturns, Returns, hxy]
  exact h

theorem forUp {body : Nat → StateT σ (Except ε) PUnit} {I : Nat → σ → Prop} {i n : Nat} (h : I i s)
    (hbody : ∀ k s, i ≤ k → k < i + n → I k s → ReturnsIf T (body k) s fun _ s' => I (k + 1) s') :
    ReturnsIf T (forUp body i n) s fun _ s' => I (i + n) s' :=
  ⟨forUp_whenReturns h fun k s hk hk' hI => (hbody k s hk hk' hI).1,
    fun hT => forUp_returns h fun k s hk hk' hI => (hbody k s hk hk' hI).2 hT⟩

end ReturnsIf

/-! ## How the state may change -/

/-- Whenever the code comes back, the state before and the state after are related. -/
def Respects (R : σ → σ → Prop) (x : StateT σ (Except ε) α) : Prop :=
  ∀ s, WhenReturns x s fun _ s' => R s s'

namespace Respects

variable {R R' : σ → σ → Prop} {x y : StateT σ (Except ε) α} {f : α → StateT σ (Except ε) β}

theorem mono (h : Respects R x) (hR : ∀ s s', R s s' → R' s s') : Respects R' x :=
  fun s => (h s).mono fun _ s' => hR s s'

theorem throw (e : ε) : Respects R (throw e : StateT σ (Except ε) α) := fun _ _ _ h => by cases h

theorem modify {g : σ → σ} (hg : ∀ s, R s (g s)) : Respects R (modify g : StateT σ (Except ε) PUnit) :=
  fun s _ s' h => by
    cases h
    exact hg s

theorem ite {c : Prop} [Decidable c] (hx : Respects R x) (hy : Respects R y) :
    Respects R (if c then x else y) := by
  split
  · exact hx
  · exact hy

variable [IsPreorder σ R]

theorem pure (a : α) : Respects R (pure a : StateT σ (Except ε) α) := fun s => .pure (refl_of R s)

theorem get : Respects R (get : StateT σ (Except ε) σ) := fun s _ s' h => by
  cases h
  exact refl_of R s

theorem bind (hx : Respects R x) (hf : ∀ a, Respects R (f a)) : Respects R (x >>= f) := fun s =>
  (hx s).bind fun a s₁ h₁ => (hf a s₁).mono fun _ _ h₂ => trans_of R h₁ h₂

theorem forM {γ : Type} {xs : List γ} {g : γ → StateT σ (Except ε) PUnit} (hg : ∀ c, Respects R (g c)) :
    Respects R (xs.forM g) := by
  induction xs with
  | nil => exact pure _
  | cons c xs ih => exact bind (hg c) fun _ => ih

theorem forUp {body : Nat → StateT σ (Except ε) PUnit} (hbody : ∀ i, Respects R (body i)) (i n : Nat) :
    Respects R (forUp body i n) := by
  induction n generalizing i with
  | zero => exact pure _
  | succ n ih => exact bind (hbody i) fun _ => ih (i + 1)

end Respects

/-! ## Two runs of the same code -/

/-- From related states the code comes back with the same result, in related states. -/
def Alike (R : σ → σ → Prop) (x : StateT σ (Except ε) α) : Prop :=
  ∀ s t, R s t → Returns x s fun a s' => Returns x t fun b t' => b = a ∧ R s' t'

namespace Alike

variable {R : σ → σ → Prop} {x y : StateT σ (Except ε) α} {f : α → StateT σ (Except ε) β}

theorem pure (a : α) : Alike R (pure a : StateT σ (Except ε) α) := fun s t h =>
  .of_eq (pure_apply a s) (.of_eq (pure_apply a t) ⟨rfl, h⟩)

theorem bind (hx : Alike R x) (hf : ∀ a, Alike R (f a)) : Alike R (x >>= f) := by
  intro s t h
  refine (hx s t h).bind fun a s₁ h₁ => ?_
  obtain ⟨a', t₁, hrun, rfl, hR⟩ := h₁
  refine (hf a' s₁ t₁ hR).mono fun b s₂ h₂ => ?_
  obtain ⟨b', t₂, hrun', hend⟩ := h₂
  exact ⟨b', t₂, (bind_run hrun).trans hrun', hend⟩

theorem ite {c : Prop} [Decidable c] (hx : Alike R x) (hy : Alike R y) : Alike R (if c then x else y) := by
  split
  · exact hx
  · exact hy

theorem modify {g : σ → σ} (hg : ∀ s t, R s t → R (g s) (g t)) :
    Alike R (modify g : StateT σ (Except ε) PUnit) := fun s t h =>
  .of_eq (a := PUnit.unit) rfl (.of_eq (a := PUnit.unit) rfl ⟨rfl, hg s t h⟩)

/-- What the code reads of the state is the same in both. -/
theorem get {f : σ → StateT σ (Except ε) β} (hf : ∀ s, Alike R (f s)) (hsame : ∀ s t, R s t → f t = f s) :
    Alike R (get >>= f) := by
  intro s t h
  refine (hf s s t h).mono fun b s' h' => ?_
  rw [Returns, bind_run (get_apply t), hsame s t h]
  exact h'

theorem forM {γ : Type} {xs : List γ} {g : γ → StateT σ (Except ε) PUnit} (hg : ∀ c, Alike R (g c)) :
    Alike R (xs.forM g) := by
  induction xs with
  | nil => exact pure _
  | cons c xs ih => exact bind (hg c) fun _ => ih

theorem forUp {body : Nat → StateT σ (Except ε) PUnit} (hbody : ∀ i, Alike R (body i)) (i n : Nat) :
    Alike R (forUp body i n) := by
  induction n generalizing i with
  | zero => exact pure _
  | succ n ih => exact bind (hbody i) fun _ => ih (i + 1)

end Alike

end Exec
