-- SUMMARY: NUL-terminated strings: byte lists without a NUL, and the string a byte memory holds at an address.
import LizaOS.Machine.Bytes

/-!
# C strings

A C string is the list of its bytes before the NUL. `stringAt` reads one from memory within a bound;
it is the whole string when there is a NUL within the bound.
-/

namespace LizaOS

/-- The bytes of a string that has no NUL inside. -/
def Nulless (name : List Byte) : Prop := ∀ b ∈ name, b ≠ 0#8

instance (name : List Byte) : Decidable (Nulless name) := by
  unfold Nulless
  exact inferInstance

theorem Nulless.getD_ne {name : List Byte} (h : Nulless name) {i : Nat} (hi : i < name.length) :
    name.getD i 0#8 ≠ 0#8 := by
  simp only [List.getD_eq_getElem?_getD, List.getElem?_eq_getElem hi, Option.getD_some]
  exact h _ (List.getElem_mem hi)

theorem getD_length (name : List Byte) : name.getD name.length 0#8 = 0#8 := by
  simp [List.getD_eq_getElem?_getD]

/-- The bytes at `p` up to the first NUL, at most `k` of them. -/
def stringAt (m : Bytes) : Nat → Nat → List Byte
  | 0, _ => []
  | k + 1, p => if m p = 0#8 then [] else m p :: stringAt m k (p + 1)

section Strings

variable {m m' : Bytes} {k p : Nat}

theorem stringAt_length (m : Bytes) (k p : Nat) : (stringAt m k p).length ≤ k := by
  induction k generalizing p with
  | zero => exact Nat.le_refl 0
  | succ k ih =>
      unfold stringAt
      split
      · exact Nat.zero_le _
      · exact Nat.succ_le_succ (ih (p + 1))

theorem stringAt_nulless (m : Bytes) (k p : Nat) : Nulless (stringAt m k p) := by
  induction k generalizing p with
  | zero => exact fun b hb => absurd hb List.not_mem_nil
  | succ k ih =>
      unfold stringAt
      split
      · exact fun b hb => absurd hb List.not_mem_nil
      · intro b hb
        rcases List.mem_cons.mp hb with rfl | hmem
        · assumption
        · exact ih (p + 1) b hmem

theorem stringAt_byte {i : Nat} (hi : i < (stringAt m k p).length) :
    m (p + i) = (stringAt m k p).getD i 0#8 := by
  induction k generalizing p i with
  | zero => exact absurd hi (Nat.not_lt_zero i)
  | succ k ih =>
      unfold stringAt at hi ⊢
      split at hi
      · exact absurd hi (Nat.not_lt_zero i)
      · rename_i hz
        rw [if_neg hz]
        cases i with
        | zero => rfl
        | succ i =>
            have hrest := ih (p := p + 1) (i := i) (Nat.lt_of_succ_lt_succ hi)
            rw [Nat.add_right_comm, Nat.add_assoc] at hrest
            simpa using hrest

/-- A string shorter than the bound has ended at a NUL. -/
theorem stringAt_end (h : (stringAt m k p).length < k) : m (p + (stringAt m k p).length) = 0#8 := by
  induction k generalizing p with
  | zero => exact absurd h (Nat.not_lt_zero _)
  | succ k ih =>
      unfold stringAt at h ⊢
      split at h
      · rename_i hz
        rw [if_pos hz]
        exact hz
      · rename_i hz
        rw [if_neg hz]
        have hrest := ih (Nat.lt_of_succ_lt_succ h)
        rw [Nat.add_right_comm, Nat.add_assoc] at hrest
        exact hrest

/-- A string with its NUL within reach reads back byte by byte, NUL included. -/
theorem stringAt_getD (h : m (p + k) = 0#8) {i : Nat} (hi : i ≤ (stringAt m k p).length) :
    m (p + i) = (stringAt m k p).getD i 0#8 := by
  rcases Nat.lt_or_eq_of_le hi with hlt | rfl
  · exact stringAt_byte hlt
  · rw [getD_length]
    rcases Nat.lt_or_eq_of_le (stringAt_length m k p) with hlt | heq
    · exact stringAt_end hlt
    · rw [heq]
      exact h

/-- A string ends at its first NUL at the latest. -/
theorem stringAt_length_le {j : Nat} (h : m (p + j) = 0#8) : (stringAt m k p).length ≤ j := by
  by_cases hlt : j < (stringAt m k p).length
  · induction k generalizing p j with
    | zero => exact absurd hlt (Nat.not_lt_zero j)
    | succ k ih =>
        unfold stringAt at hlt ⊢
        split at hlt
        · exact absurd hlt (Nat.not_lt_zero j)
        · rename_i hz
          rw [if_neg hz]
          cases j with
          | zero => exact absurd h hz
          | succ j =>
              rw [← Nat.add_assoc, Nat.add_right_comm] at h
              exact Nat.succ_le_succ (ih h (Nat.lt_of_succ_lt_succ hlt))
  · exact Nat.le_of_not_lt hlt

theorem stringAt_congr (h : ∀ i, i < k → m' (p + i) = m (p + i)) : stringAt m' k p = stringAt m k p := by
  induction k generalizing p with
  | zero => rfl
  | succ k ih =>
      have hfirst : m' p = m p := h 0 (Nat.succ_pos k)
      have hrest := ih (p := p + 1) fun i hi => by
        have hnext := h (i + 1) (Nat.succ_lt_succ hi)
        rwa [← Nat.add_assoc, Nat.add_right_comm] at hnext
      simp only [stringAt, hfirst, hrest]

/-- A string that is spelled out in memory is the string there. -/
theorem stringAt_eq {name : List Byte} (hname : Nulless name) (hlen : name.length ≤ k)
    (h : ∀ i, i < name.length → m (p + i) = name.getD i 0#8)
    (hnul : name.length < k → m (p + name.length) = 0#8) : stringAt m k p = name := by
  induction k generalizing p name with
  | zero => exact (List.length_eq_zero_iff.mp (Nat.le_zero.mp hlen)).symm
  | succ k ih =>
      cases name with
      | nil =>
          have hz : m p = 0#8 := hnul (Nat.succ_pos k)
          rw [stringAt, if_pos hz]
      | cons b name =>
          have hb : m p = b := h 0 (Nat.succ_pos _)
          have hrest : stringAt m k (p + 1) = name := by
            refine ih (fun c hc => hname c (List.mem_cons_of_mem _ hc)) (Nat.le_of_succ_le_succ hlen) ?_ ?_
            · intro i hi
              have hnext := h (i + 1) (Nat.succ_lt_succ hi)
              rw [← Nat.add_assoc, Nat.add_right_comm] at hnext
              simpa using hnext
            · intro hlt
              have hend := hnul (Nat.succ_lt_succ hlt)
              rwa [List.length_cons, ← Nat.add_assoc, Nat.add_right_comm] at hend
          rw [stringAt, hb, if_neg (hname b (List.mem_cons_self ..)), hrest]

end Strings

end LizaOS
