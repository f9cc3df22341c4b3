-- SUMMARY: Half-open ranges of addresses, their overlap, and lists of ranges handed out in ascending order.
import Mathlib.Algebra.Order.Ring.Int
import Mathlib.Tactic.Common

/-!
# Address ranges

An extent is the range `lo ≤ a < hi` of natural numbers. Two facts are used throughout: what lies in
one of two disjoint extents does not lie in the other, and extents that are handed out one above the
other are pairwise disjoint.
-/

/-- The addresses `lo ≤ a < hi`. -/
structure Extent where
  lo : Nat
  hi : Nat
  deriving DecidableEq, Repr

namespace Extent

/-- The extent of `n` addresses from `lo` on. -/
def ofLen (lo n : Nat) : Extent := ⟨lo, lo + n⟩

instance : Membership Nat Extent where
  mem e a := e.lo ≤ a ∧ a < e.hi

theorem mem_iff {a : Nat} {e : Extent} : a ∈ e ↔ e.lo ≤ a ∧ a < e.hi := Iff.rfl

theorem mem_ofLen {a lo n : Nat} : a ∈ ofLen lo n ↔ lo ≤ a ∧ a < lo + n := Iff.rfl

/-- One of the two ends before the other begins. -/
def Disjoint (e f : Extent) : Prop := e.hi ≤ f.lo ∨ f.hi ≤ e.lo

instance (e f : Extent) : Decidable (e.Disjoint f) := by
  unfold Disjoint
  exact inferInstance

/-- No address is in both. Unlike `Disjoint`, this holds of an empty extent anywhere. -/
def Apart (e f : Extent) : Prop := ∀ a, a ∈ e → a ∉ f

/-- `e` lies within `f`. -/
def Within (e f : Extent) : Prop := f.lo ≤ e.lo ∧ e.hi ≤ f.hi

instance (e f : Extent) : Decidable (e.Within f) := by
  unfold Within
  exact inferInstance

/-- The addresses in both. -/
def inter (e f : Extent) : Extent := ⟨max e.lo f.lo, min e.hi f.hi⟩

variable {e f : Extent} {a : Nat}

theorem within_inter {g : Extent} : g.Within (e.inter f) ↔ g.Within e ∧ g.Within f := by
  simp only [Within, inter, Nat.max_le, Nat.le_min]
  exact and_and_and_comm

theorem Disjoint.symm (h : e.Disjoint f) : f.Disjoint e := Or.symm h

theorem Disjoint.not_mem (h : e.Disjoint f) (he : a ∈ e) : a ∉ f := by
  intro hf
  rw [mem_iff] at he hf
  rcases h with h | h <;> omega

theorem Disjoint.apart (h : e.Disjoint f) : e.Apart f := fun _ he => h.not_mem he

theorem Within.trans {g : Extent} (h : e.Within f) (h' : f.Within g) : e.Within g :=
  ⟨Nat.le_trans h'.1 h.1, Nat.le_trans h.2 h'.2⟩

theorem Within.mem (h : e.Within f) (he : a ∈ e) : a ∈ f := by
  rw [mem_iff] at *
  exact ⟨Nat.le_trans h.1 he.1, Nat.lt_of_lt_of_le he.2 h.2⟩

end Extent
