-- SUMMARY: Watched accesses: what a run that has not strayed says about the accesses it made, and the primitive steps on flat memory.
import LizaOS.Kernel.State

/-!
# Watched accesses

`strayed` is only ever set. From a run that ends with it unset one may therefore read off that every
watched access on the way was inside its object: `clean_bind` splits such a run, and the `_clean`
lemmas give what each primitive step did.
-/

namespace LizaOS

open Exec

variable {μ : Type} {α β : Type}

/-- Code that does not unset `strayed`. -/
def Remembers (x : K μ α) : Prop := ∀ s, WhenReturns x s fun _ s' => s'.strayed = false → s.strayed = false

/-- The relation `Remembers` is about. -/
instance : IsPreorder (Kernel μ) fun s s' => s'.strayed = false → s.strayed = false where
  refl _ := id
  trans _ _ _ h h' hs := h (h' hs)

namespace Remembers

theorem pure (a : α) : Remembers (pure a : K μ α) := Respects.pure a

theorem throw (e : Stop) : Remembers (throw e : K μ α) := Respects.throw e

theorem get : Remembers (get : K μ (Kernel μ)) := Respects.get

theorem modify {f : Kernel μ → Kernel μ} (hf : ∀ s, (f s).strayed = false → s.strayed = false) :
    Remembers (modify f : K μ PUnit) := Respects.modify hf

theorem bind {x : K μ α} {f : α → K μ β} (hx : Remembers x) (hf : ∀ a, Remembers (f a)) :
    Remembers (x >>= f) := Respects.bind hx hf

theorem ite {c : Prop} [Decidable c] {x y : K μ α} (hx : Remembers x) (hy : Remembers y) :
    Remembers (if c then x else y) := Respects.ite hx hy

theorem forM {xs : List β} {f : β → K μ PUnit} (hf : ∀ b, Remembers (f b)) :
    Remembers (xs.forM f) := Respects.forM hf

theorem forUp {body : Nat → K μ PUnit} (hbody : ∀ i, Remembers (body i)) (i n : Nat) :
    Remembers (forUp body i n) := Respects.forUp hbody i n

theorem of_map {r : Except Stop β} (f : β → α × Kernel μ) {s : Kernel μ}
    (hf : ∀ b, (f b).2.strayed = false → s.strayed = false) {a : α} {s' : Kernel μ}
    (h : r.map f = .ok (a, s')) (hs : s'.strayed = false) : s.strayed = false := by
  cases r with
  | error e => cases h
  | ok b =>
      have hfb : f b = (a, s') := by injection h
      have hb := hf b
      rw [hfb] at hb
      exact hb hs

variable [Bus μ]

theorem load8 (a : Word) (obj : Option Extent) : Remembers (load8 a obj : K μ Byte) :=
  fun _ _ _ h => of_map _ (fun _ => Kernel.strayed_of_noted _ _ _ _) h

theorem store8 (a : Word) (b : Byte) (obj : Option Extent) : Remembers (store8 a b obj : K μ Unit) :=
  fun _ _ _ h => of_map _ (fun _ => Kernel.strayed_of_noted _ _ _ _) h

theorem load32 (a : Word) (obj : Option Extent) : Remembers (load32 a obj : K μ Word) :=
  fun _ _ _ h => of_map _ (fun _ => Kernel.strayed_of_noted _ _ _ _) h

theorem store32 (a w : Word) (obj : Option Extent) : Remembers (store32 a w obj : K μ Unit) :=
  fun _ _ _ h => of_map _ (fun _ => Kernel.strayed_of_noted _ _ _ _) h

end Remembers

/-! ## Memory and console

Most code changes memory and the console, and none of the other globals. -/

/-- The states differ in memory and in the globals of the console at most. -/
def Around (s s' : Kernel μ) : Prop :=
  ∃ mem ports vga, s' = { s with mem := mem, ports := ports, vga := vga }

instance : IsPreorder (Kernel μ) Around where
  refl s := ⟨s.mem, s.ports, s.vga, rfl⟩
  trans _ _ _ := by
    rintro ⟨mem, ports, vga, rfl⟩ ⟨mem', ports', vga', rfl⟩
    exact ⟨mem', ports', vga', rfl⟩

namespace Around

variable {s s' : Kernel μ}

theorem strayed (h : Around s s') : s'.strayed = s.strayed := by
  obtain ⟨_, _, _, rfl⟩ := h
  rfl

theorem alloc (h : Around s s') : s'.alloc = s.alloc := by
  obtain ⟨_, _, _, rfl⟩ := h
  rfl

theorem remembers {x : K μ α} (h : Respects Around x) : Remembers x :=
  Respects.mono h fun _ _ hs hclean => hs.strayed.symm.trans hclean

theorem of_map {r : Except Stop β} (f : β → α × Kernel μ) (hf : ∀ b, Around s (f b).2) {a : α}
    (h : r.map f = .ok (a, s')) : Around s s' := by
  cases r with
  | error e => cases h
  | ok b =>
      have hfb : f b = (a, s') := by injection h
      have hb := hf b
      rwa [hfb] at hb

variable [Bus μ]

theorem load8 (a : Word) : Respects Around (load8 a : K μ Byte) :=
  fun s _ _ h => of_map _ (fun _ => refl_of Around s) h

theorem store8 (a : Word) (b : Byte) : Respects Around (store8 a b : K μ Unit) :=
  fun s _ _ h => of_map _ (fun m => ⟨m, s.ports, s.vga, rfl⟩) h

theorem load32 (a : Word) : Respects Around (load32 a : K μ Word) :=
  fun s _ _ h => of_map _ (fun _ => refl_of Around s) h

theorem store32 (a w : Word) : Respects Around (store32 a w : K μ Unit) :=
  fun s _ _ h => of_map _ (fun m => ⟨m, s.ports, s.vga, rfl⟩) h

theorem loadCell (a : Word) : Respects Around (loadCell a : K μ Half) :=
  fun s _ _ h => of_map (fun c => (c, s)) (fun _ => refl_of Around s) h

theorem storeCell (a : Word) (c : Half) : Respects Around (storeCell a c : K μ Unit) :=
  fun s _ _ h => of_map (fun m => ((), { s with mem := m })) (fun m => ⟨m, s.ports, s.vga, rfl⟩) h

omit [Bus μ]

theorem panic : Respects Around (panic : K μ α) := .throw _

theorem assert (c : Prop) [Decidable c] : Respects Around (assert c : K μ Unit) :=
  .ite (.pure _) panic

end Around

/-- A clean run of a sequence is a clean run of each part. -/
theorem clean_bind {x : K μ α} {f : α → K μ β} {s s' : Kernel μ} {b : β}
    (h : (x >>= f) s = .ok (b, s')) (hs : s'.strayed = false) (hf : ∀ a, Remembers (f a)) :
    ∃ a s₁, x s = .ok (a, s₁) ∧ s₁.strayed = false ∧ f a s₁ = .ok (b, s') := by
  obtain ⟨a, s₁, hx, hfa⟩ := bind_ok.mp h
  exact ⟨a, s₁, hx, hf a s₁ b s' hfa hs, hfa⟩

/-! ## Flat memory -/

section Flat

variable {s s' : Kernel Flat} {a : Word} {e : Extent}

/-- The address range of an access of `n` bytes lies in the object, if there is one. -/
def Within (obj : Option Extent) (a : Word) (n : Nat) : Prop :=
  ∀ e ∈ obj, (Extent.ofLen a.toNat n).Within e

theorem within_none (a : Word) (n : Nat) : Within none a n := by
  rintro e ⟨⟩

theorem within_some {n : Nat} : Within (some e) a n ↔ (Extent.ofLen a.toNat n).Within e := by
  simp [Within]

theorem noted_of_within {obj : Option Extent} {n : Nat} (h : Within obj a n) :
    s.noted obj a n = s := by
  cases obj with
  | none => rfl
  | some e => exact Kernel.noted_inside s a n (within_some.mp h)

theorem within_of_noted {obj : Option Extent} {n : Nat} (h : (s.noted obj a n).strayed = false) :
    Within obj a n := by
  cases obj with
  | none => exact within_none a n
  | some e => exact within_some.mpr (Kernel.inside_of_noted s a n h)

variable {obj : Option Extent}

theorem load8_run (h : Within obj a 1) : load8 a obj s = .ok (s.mem.byte a, s) := by
  show Except.ok (s.mem.byte a, s.noted obj a 1) = _
  rw [noted_of_within h]

theorem load32_run (h : Within obj a 4) : load32 a obj s = .ok (s.mem.word a, s) := by
  show Except.ok (s.mem.word a, s.noted obj a 4) = _
  rw [noted_of_within h]

theorem store8_run {b : Byte} (h : Within obj a 1) :
    store8 a b obj s = .ok ((), { s with mem := s.mem.setByte a b }) := by
  show Except.ok ((), { s.noted obj a 1 with mem := s.mem.setByte a b }) = _
  rw [noted_of_within h]

theorem store32_run {w : Word} (h : Within obj a 4) :
    store32 a w obj s = .ok ((), { s with mem := s.mem.setWord a w }) := by
  show Except.ok ((), { s.noted obj a 4 with mem := s.mem.setWord a w }) = _
  rw [noted_of_within h]

theorem load8_clean {b : Byte} (h : load8 a obj s = .ok (b, s')) (hs : s'.strayed = false) :
    Within obj a 1 ∧ b = s.mem.byte a ∧ s' = s := by
  have hin : Within obj a 1 := by
    cases h
    exact within_of_noted hs
  rw [load8_run hin] at h
  cases h
  exact ⟨hin, rfl, rfl⟩

theorem load32_clean {w : Word} (h : load32 a obj s = .ok (w, s')) (hs : s'.strayed = false) :
    Within obj a 4 ∧ w = s.mem.word a ∧ s' = s := by
  have hin : Within obj a 4 := by
    cases h
    exact within_of_noted hs
  rw [load32_run hin] at h
  cases h
  exact ⟨hin, rfl, rfl⟩

theorem store8_clean {b : Byte} (h : store8 a b obj s = .ok ((), s')) (hs : s'.strayed = false) :
    Within obj a 1 ∧ s' = { s with mem := s.mem.setByte a b } := by
  have hin : Within obj a 1 := by
    cases h
    exact within_of_noted hs
  rw [store8_run hin] at h
  cases h
  exact ⟨hin, rfl⟩

theorem store32_clean {w : Word} (h : store32 a w obj s = .ok ((), s')) (hs : s'.strayed = false) :
    Within obj a 4 ∧ s' = { s with mem := s.mem.setWord a w } := by
  have hin : Within obj a 4 := by
    cases h
    exact within_of_noted hs
  rw [store32_run hin] at h
  cases h
  exact ⟨hin, rfl⟩

end Flat

end LizaOS
