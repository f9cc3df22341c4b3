-- SUMMARY: The machine's fixed-width integers and their little-endian bytes.
import Mathlib.Algebra.Order.Ring.Int
import Mathlib.Tactic.Common

/-!
# Machine words

The integer types of `include/types.h`: `uint32`, `uint16` and `uint8`. A word is stored in memory
as four bytes, the least significant first.
-/

namespace LizaOS

abbrev Word := BitVec 32
abbrev Half := BitVec 16
abbrev Byte := BitVec 8

/-- The bytes of a C string literal, without its terminating NUL. -/
def cstr (s : String) : List Byte := s.toList.map fun c => BitVec.ofNat 8 c.toNat

instance (b : Byte) (bs : List Byte) : Decidable (b ∈ bs) := List.instDecidableMemOfLawfulBEq b bs

/-! ## Bytes of a word -/

/-- Byte `k` of a word, byte 0 being the least significant. -/
def byteAt (w : Word) (k : Nat) : Byte := w.extractLsb' (8 * k) 8

def ofBytes (b₀ b₁ b₂ b₃ : Byte) : Word := b₃ ++ b₂ ++ b₁ ++ b₀

@[simp] theorem ofBytes_byteAt (w : Word) :
    ofBytes (byteAt w 0) (byteAt w 1) (byteAt w 2) (byteAt w 3) = w := by
  refine BitVec.eq_of_getLsbD_eq fun i hi => ?_
  simp only [ofBytes, byteAt, BitVec.getLsbD_append, BitVec.getLsbD_extractLsb']
  -- Bit `i` is in byte `i / 8`.
  rcases Nat.lt_or_ge i 8 with h | h
  · simp [h]
  rcases Nat.lt_or_ge i 16 with h' | h'
  · have hbit : 8 + (i - 8) = i := by omega
    have hlt : i - 8 < 8 := by omega
    simp [Nat.not_lt.mpr h, hlt, hbit]
  have hsecond : ¬i - 8 < 8 := by omega
  rcases Nat.lt_or_ge i 24 with h'' | h''
  · have hbit : 16 + (i - 8 - 8) = i := by omega
    have hlt : i - 8 - 8 < 8 := by omega
    simp [Nat.not_lt.mpr h, hsecond, hlt, hbit]
  · have hbit : 24 + (i - 8 - 8 - 8) = i := by omega
    have hlt : i - 8 - 8 - 8 < 8 := by omega
    have hthird : ¬i - 8 - 8 < 8 := by omega
    simp [Nat.not_lt.mpr h, hsecond, hthird, hlt, hbit]

@[simp] theorem byteAt_ofBytes_zero (b₀ b₁ b₂ b₃ : Byte) : byteAt (ofBytes b₀ b₁ b₂ b₃) 0 = b₀ := by
  refine BitVec.eq_of_getLsbD_eq fun i hi => ?_
  simp only [ofBytes, byteAt, BitVec.getLsbD_append, BitVec.getLsbD_extractLsb']
  simp [hi]

/-- The bytes of a word put together from bytes. -/
theorem byteAt_ofBytes (b₀ b₁ b₂ b₃ : Byte) :
    byteAt (ofBytes b₀ b₁ b₂ b₃) 0 = b₀ ∧ byteAt (ofBytes b₀ b₁ b₂ b₃) 1 = b₁ ∧
      byteAt (ofBytes b₀ b₁ b₂ b₃) 2 = b₂ ∧ byteAt (ofBytes b₀ b₁ b₂ b₃) 3 = b₃ := by
  have hlow : ∀ (n : Nat) (x : BitVec n) (b : Byte), (x ++ b).extractLsb' 0 8 = b := fun _ _ _ =>
    BitVec.extractLsb'_append_eq_right
  have hnext : ∀ (n k : Nat) (x : BitVec n) (b : Byte), (x ++ b).extractLsb' (k + 8) 8 = x.extractLsb' k 8 :=
    fun _ _ _ _ => BitVec.extractLsb'_append_eq_of_le (Nat.le_add_left ..)
  have hthird := hnext 24 8 (b₃ ++ b₂ ++ b₁) b₀
  have hfourth := hnext 24 16 (b₃ ++ b₂ ++ b₁) b₀
  refine ⟨hlow 24 (b₃ ++ b₂ ++ b₁) b₀, ?_, ?_, ?_⟩
  · exact (hnext 24 0 (b₃ ++ b₂ ++ b₁) b₀).trans (hlow 16 (b₃ ++ b₂) b₁)
  · exact hthird.trans ((hnext 16 0 (b₃ ++ b₂) b₁).trans (hlow 8 b₃ b₂))
  · exact hfourth.trans ((hnext 16 8 (b₃ ++ b₂) b₁).trans BitVec.extractLsb'_append_eq_left)

@[simp] theorem byteAt_zero (k : Nat) : byteAt 0#32 k = 0#8 := by
  simp [byteAt]

/-- Byte `k` of a half word. -/
def halfByte (h : Half) (k : Nat) : Byte := h.extractLsb' (8 * k) 8

def ofHalfBytes (b₀ b₁ : Byte) : Half := b₁ ++ b₀

@[simp] theorem ofHalfBytes_halfByte (h : Half) : ofHalfBytes (halfByte h 0) (halfByte h 1) = h := by
  refine BitVec.eq_of_getLsbD_eq fun i hi => ?_
  simp only [ofHalfBytes, halfByte, BitVec.getLsbD_append, BitVec.getLsbD_extractLsb']
  rcases Nat.lt_or_ge i 8 with h | h
  · simp [h]
  · have hbit : 8 + (i - 8) = i := by omega
    have hlt : i - 8 < 8 := by omega
    simp [Nat.not_lt.mpr h, hlt, hbit]

/-! ## Arithmetic

Bounds on sums are stated on the value of a word, where `omega` can use them. -/

theorem toNat_add_of_lt {a b : Word} (h : a.toNat + b.toNat < 2 ^ 32) :
    (a + b).toNat = a.toNat + b.toNat := by
  rw [BitVec.toNat_add, Nat.mod_eq_of_lt h]

theorem toNat_add_ofNat {a : Word} {k : Nat} (h : a.toNat + k < 2 ^ 32) :
    (a + BitVec.ofNat 32 k).toNat = a.toNat + k := by
  have hk : k % 2 ^ 32 = k := Nat.mod_eq_of_lt (by omega)
  rw [BitVec.toNat_add, BitVec.toNat_ofNat, hk, Nat.mod_eq_of_lt h]

theorem ne_zero_iff_toNat {w : Word} : w ≠ 0#32 ↔ 0 < w.toNat := by
  rw [ne_eq, ← BitVec.toNat_inj, BitVec.toNat_ofNat]
  omega

/-- The present and write bits are read by masking one bit. -/
theorem and_one_ne_zero {w : Word} : w &&& 1#32 ≠ 0#32 ↔ w.toNat % 2 = 1 := by
  rw [ne_eq, ← BitVec.toNat_inj, BitVec.toNat_and]
  have hmod := Nat.and_two_pow_sub_one_eq_mod w.toNat 1
  simp at *

end LizaOS
