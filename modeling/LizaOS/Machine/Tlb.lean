-- SUMMARY: The cache of translations: what an access may find, what it may leave cached, and when the cache agrees with the tables.
import LizaOS.Machine.Mmu

/-!
# The cache of translations

The processor may keep the frame of a page it has looked up, and use it for later accesses until CR3 is
written or the page is invalidated. Which translations are kept, and for how long, is its own choice: an
entry may go at any time. A page that is not present is not kept.
-/

namespace LizaOS

/-- The frames that are cached, by the number of their page. -/
abbrev Tlb := Nat → Option Nat

namespace Tlb

variable {m m' : Mmu} {t t' : Tlb} {A : Nat → Prop} {v : Word} {f p : Nat}

/-- After CR3 has been written. -/
def flushed : Tlb := fun _ => none

/-- An access to `v` may go to the frame at `f`, by what is cached or by the tables. -/
def Reaches (t : Tlb) (m : Mmu) (v : Word) (f : Nat) : Prop :=
  t (pageOf v) = some f ∨ (m.walk v).map Leaf.frame = some f

/-- Pages in `A` may have been cached on the way from `t` to `t'`, and any may have gone. -/
def Fills (A : Nat → Prop) (m : Mmu) (t t' : Tlb) : Prop :=
  ∀ v f, t' (pageOf v) = some f →
    t (pageOf v) = some f ∨ A (pageOf v) ∧ (m.walk v).map Leaf.frame = some f

/-- What is cached is what the tables say. -/
def Agrees (t : Tlb) (m : Mmu) : Prop :=
  ∀ v f, t (pageOf v) = some f → (m.walk v).map Leaf.frame = some f

/-- One more page is cached. -/
def cache (t : Tlb) (v : Word) (f : Nat) : Tlb := fun p => if p = pageOf v then some f else t p

theorem fills_cache (h : (m.walk v).map Leaf.frame = some f) : Fills (· = pageOf v) m t (t.cache v f) := by
  intro w g hcached
  unfold cache at hcached
  split at hcached
  · next hpage =>
    cases hcached
    rw [Mmu.walk, lookup_congr hpage]
    exact .inr ⟨hpage, h⟩
  · exact .inl hcached

theorem Fills.refl (A : Nat → Prop) (m : Mmu) (t : Tlb) : Fills A m t t := fun _ _ h => .inl h

theorem flushed_agrees (m : Mmu) : flushed.Agrees m := fun _ _ h => by cases h

namespace Agrees

/-- Nothing but the tables is to be seen through a cache that agrees with them. -/
theorem reaches (h : t.Agrees m) : t.Reaches m v f ↔ (m.walk v).map Leaf.frame = some f := by
  constructor
  · rintro (hcached | hwalk)
    · exact h v f hcached
    · exact hwalk
  · exact Or.inr

theorem fills (h : t.Agrees m) (ht : Fills A m t t') : t'.Agrees m := by
  intro v f hcached
  rcases ht v f hcached with hold | ⟨_, hwalk⟩
  · exact h v f hold
  · exact hwalk

/-- The tables are changed for one page, and that page is not cached with what it had before. -/
theorem change (h : t.Agrees m) (hsame : ∀ v, pageOf v ≠ p → m'.walk v = m.walk v)
    (hfresh : ∀ v f, pageOf v = p → t p = some f → (m'.walk v).map Leaf.frame = some f) : t.Agrees m' := by
  intro v f hcached
  by_cases hp : pageOf v = p
  · rw [hp] at hcached
    exact hfresh v f hp hcached
  · rw [hsame v hp]
    exact h v f hcached

end Agrees

end Tlb

end LizaOS
