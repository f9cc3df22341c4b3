-- SUMMARY: A counter that wraps: when it compares as the count it stands for, and when a test by a modulus keeps its period.
import Mathlib.Data.List.Chain
import Mathlib.Data.List.Range

/-!
# Counters that wrap

A counter is the remainder of a count by a modulus `M`. It compares like the count as long as both counts
have wrapped equally often. Something is done at every count at which the counter is a multiple of `t`:
across a wrap this keeps the period `t` exactly if `t` divides `M`. Nothing here depends on the program
that is verified.
-/

namespace Counter

/-! ## Comparison -/

/-- Counts that have wrapped equally often compare like their counters. -/
theorem mod_lt_mod_iff {M x y : Nat} (h : x / M = y / M) : x % M < y % M ↔ x < y := by
  have hx := Nat.div_add_mod x M
  have hy := Nat.div_add_mod y M
  rw [h] at hx
  omega

/-! ## Periods -/

/-- The counts from 1 to `n` at which the counter is a multiple of `t`. -/
def firings (M t : Nat) : Nat → List Nat
  | 0 => []
  | n + 1 => firings M t n ++ if (n + 1) % M % t = 0 then [n + 1] else []

/-- It has been done once for each full period, and one period apart. -/
structure Periodic (M t n : Nat) : Prop where
  count : (firings M t n).length = n / t
  apart : (firings M t n).IsChain fun a b => b = a + t

section Periods

variable {M t n : Nat}

/-- While the tests are those of the count itself, the multiples of `t` are found. -/
theorem firings_multiples (h : ∀ m, m ≤ n → (m % M % t = 0 ↔ t ∣ m)) :
    firings M t n = (List.range (n / t)).map fun k => (k + 1) * t := by
  induction n with
  | zero => simp [firings]
  | succ n ih =>
      rw [firings, ih fun m hm => h m (Nat.le_succ_of_le hm)]
      by_cases hfires : t ∣ n + 1
      · have hlast : (n / t + 1) * t = n + 1 := by
          rw [← Nat.succ_div_of_dvd hfires, Nat.div_mul_cancel hfires]
        rw [if_pos ((h _ (Nat.le_refl _)).mpr hfires), Nat.succ_div_of_dvd hfires, List.range_succ, List.map_append,
          List.map_singleton, hlast]
      · rw [if_neg fun h' => hfires ((h _ (Nat.le_refl _)).mp h'), Nat.succ_div_of_not_dvd hfires, List.append_nil]

theorem isChain_multiples (q : Nat) :
    ((List.range q).map fun k => (k + 1) * t).IsChain fun a b => b = a + t := by
  rw [List.isChain_map, List.isChain_range]
  exact fun k _ => Nat.succ_mul _ _

theorem periodic_of_multiples (h : ∀ m, m ≤ n → (m % M % t = 0 ↔ t ∣ m)) : Periodic M t n := by
  constructor
  · rw [firings_multiples h, List.length_map, List.length_range]
  · rw [firings_multiples h]
    exact isChain_multiples _

theorem firings_prefix {m : Nat} (h : m ≤ n) : ∃ later, firings M t n = firings M t m ++ later := by
  induction h with
  | refl => exact ⟨[], (List.append_nil _).symm⟩
  | step _ ih =>
      obtain ⟨later, heq⟩ := ih
      exact ⟨_, by rw [firings, heq, List.append_assoc]⟩

/-- The period is kept up to the first wrap, and from there on exactly if it divides the modulus. -/
theorem periodic_iff (ht : 0 < t) (hM : t < M) : Periodic M t n ↔ n < M ∨ t ∣ M := by
  constructor
  · intro hperiodic
    by_contra hnot
    rw [not_or, not_lt] at hnot
    obtain ⟨hwrap, hdvd⟩ := hnot
    -- what is done at the wrap comes too soon behind the last multiple
    obtain ⟨k, rfl⟩ : ∃ k, M = k + 1 := ⟨M - 1, by omega⟩
    obtain ⟨later, hlater⟩ := firings_prefix (M := k + 1) (t := t) hwrap
    have hbefore : firings (k + 1) t k = (List.range (k / t)).map fun k => (k + 1) * t :=
      firings_multiples fun m hm => by rw [Nat.mod_eq_of_lt (Nat.lt_succ_of_le hm), Nat.dvd_iff_mod_eq_zero]
    have hatWrap : (k + 1) % (k + 1) % t = 0 := by rw [Nat.mod_self, Nat.zero_mod]
    have hchain := hperiodic.apart
    rw [hlater, firings, if_pos hatWrap, hbefore] at hchain
    obtain ⟨q, hq⟩ : ∃ q, k / t = q + 1 := ⟨k / t - 1, by
      have hpos := Nat.div_pos (Nat.le_of_lt_succ hM) ht
      omega⟩
    rw [hq, List.range_succ, List.map_append, List.map_singleton] at hchain
    have hlast := (List.isChain_append.mp hchain.left_of_append).2.2 ((q + 1) * t) (by simp) (k + 1) rfl
    exact hdvd ⟨q + 2, by rw [hlast, ← Nat.succ_mul, Nat.mul_comm]⟩
  · rintro (hbefore | hdvd)
    · exact periodic_of_multiples fun m hm => by
        rw [Nat.mod_eq_of_lt (Nat.lt_of_le_of_lt hm hbefore), Nat.dvd_iff_mod_eq_zero]
    · exact periodic_of_multiples fun m _ => by rw [Nat.mod_mod_of_dvd _ hdvd, Nat.dvd_iff_mod_eq_zero]

end Periods

end Counter
