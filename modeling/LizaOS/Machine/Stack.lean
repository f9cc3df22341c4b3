-- SUMMARY: Words on a stack that grows downwards: what lies at the stack pointer after a sequence of pushes.
import LizaOS.Machine.Bus

/-!
# Stacks in memory

A stack pointer may stand anywhere, and the words below it may wrap around the end of the address
space. Places in a stack are told apart by their distance.
-/

namespace LizaOS

namespace Flat

/-- The words `ws` lie in memory from `a` upwards. -/
def HoldsWords (m : Flat) : Word → List Word → Prop
  | _, [] => True
  | a, w :: ws => m.word a = w ∧ HoldsWords m (a + 4#32) ws

/-- The memory after the words have been pushed, one after the other. -/
def pushed (m : Flat) (esp : Word) : List Word → Flat
  | [] => m
  | w :: ws => (m.setWord (esp - 4#32) w).pushed (esp - 4#32) ws

/-- Where `n` pushed words begin. -/
def below (esp : Word) (n : Nat) : Word := esp - BitVec.ofNat 32 (4 * n)

variable {m m' : Flat} {a b esp w : Word} {ws vs : List Word}

/-! ## Single words -/

theorem byte_setWord (m : Flat) (a w b : Word) :
    (m.setWord a w).byte b =
      if b = a + 3#32 then byteAt w 3 else if b = a + 2#32 then byteAt w 2
      else if b = a + 1#32 then byteAt w 1 else if b = a then byteAt w 0 else m.byte b := by
  simp only [setWord, setByte, byte, Bytes.write8, BitVec.toNat_inj]

theorem byte_setWord_same (m : Flat) (a w : Word) :
    (m.setWord a w).byte a = byteAt w 0 ∧ (m.setWord a w).byte (a + 1#32) = byteAt w 1 ∧
      (m.setWord a w).byte (a + 2#32) = byteAt w 2 ∧ (m.setWord a w).byte (a + 3#32) = byteAt w 3 := by
  refine ⟨?_, ?_, ?_, ?_⟩
  · rw [byte_setWord, if_neg (by bv_omega), if_neg (by bv_omega), if_neg (by bv_omega), if_pos rfl]
  · rw [byte_setWord, if_neg (by bv_omega), if_neg (by bv_omega), if_pos rfl]
  · rw [byte_setWord, if_neg (by bv_omega), if_pos rfl]
  · rw [byte_setWord, if_pos rfl]

theorem word_setWord_same (m : Flat) (a w : Word) : (m.setWord a w).word a = w := by
  obtain ⟨h₀, h₁, h₂, h₃⟩ := byte_setWord_same m a w
  rw [word, h₀, h₁, h₂, h₃, ofBytes_byteAt]

/-- A byte at a distance from 4 up is not in the word. -/
theorem byte_setWord_other (h : 4 ≤ (b - a).toNat) : (m.setWord a w).byte b = m.byte b := by
  rw [byte_setWord, if_neg (by bv_omega), if_neg (by bv_omega), if_neg (by bv_omega), if_neg (by bv_omega)]

/-! ## Words in a row -/

/-- What the words are depends on their bytes only. -/
theorem HoldsWords.congr (h : m.HoldsWords a ws)
    (hm : ∀ k, k < 4 * ws.length → m'.byte (a + BitVec.ofNat 32 k) = m.byte (a + BitVec.ofNat 32 k)) :
    m'.HoldsWords a ws := by
  induction ws generalizing a with
  | nil => exact trivial
  | cons w ws ih =>
      rw [List.length_cons] at hm
      have h₀ := hm 0 (by omega)
      have h₁ := hm 1 (by omega)
      have h₂ := hm 2 (by omega)
      have h₃ := hm 3 (by omega)
      rw [show a + BitVec.ofNat 32 0 = a from BitVec.add_zero a] at h₀
      refine ⟨?_, ih h.2 fun k hk => ?_⟩
      · rw [← h.1, word, word, h₀, h₁, h₂, h₃]
      · have hk' := hm (k + 4) (by omega)
        have hadd : a + BitVec.ofNat 32 (k + 4) = a + 4#32 + BitVec.ofNat 32 k := by
          rw [BitVec.ofNat_add, BitVec.add_comm (BitVec.ofNat 32 k), BitVec.add_assoc]
        rwa [hadd] at hk'

/-- A word stored below a row of words leaves it as it is. -/
theorem HoldsWords.push (h : m.HoldsWords esp ws) (hfit : 4 * (ws.length + 1) ≤ 2 ^ 32) (w : Word) :
    (m.setWord (esp - 4#32) w).HoldsWords (esp - 4#32) (w :: ws) := by
  refine ⟨word_setWord_same _ _ _, ?_⟩
  rw [BitVec.sub_add_cancel]
  refine h.congr fun k hk => byte_setWord_other ?_
  bv_omega

/-- After the pushes, the words lie at the stack pointer in reverse order. -/
theorem HoldsWords.pushed (h : m.HoldsWords esp ws) (hfit : 4 * (vs.length + ws.length) ≤ 2 ^ 32) :
    (m.pushed esp vs).HoldsWords (below esp vs.length) (vs.reverse ++ ws) := by
  induction vs generalizing m esp ws with
  | nil =>
      have hesp : below esp 0 = esp := BitVec.sub_zero esp
      rw [List.length_nil, hesp]
      exact h
  | cons v vs ih =>
      rw [List.length_cons] at hfit ⊢
      have hesp : below (esp - 4#32) vs.length = below esp (vs.length + 1) := by
        simp only [below]
        bv_omega
      have hrest := ih (h.push (by omega) v) (by rw [List.length_cons]; omega)
      rw [hesp] at hrest
      rw [List.reverse_cons, List.append_assoc, List.singleton_append]
      exact hrest

end Flat

end LizaOS
