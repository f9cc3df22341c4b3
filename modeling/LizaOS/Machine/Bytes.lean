-- SUMMARY: Byte memory as a function of the address, with little-endian 16-bit and 32-bit accesses.
import LizaOS.Machine.Word

/-!
# Byte memory

A memory is a function from addresses to bytes. The lemmas say what a read sees after a write, at
the same place and elsewhere.
-/

namespace LizaOS

/-- The contents of a byte memory. -/
abbrev Bytes := Nat → Byte

namespace Bytes

def read16 (m : Bytes) (p : Nat) : Half := ofHalfBytes (m p) (m (p + 1))

def read32 (m : Bytes) (p : Nat) : Word := ofBytes (m p) (m (p + 1)) (m (p + 2)) (m (p + 3))

def write8 (m : Bytes) (p : Nat) (b : Byte) : Bytes := fun x => if x = p then b else m x

def write16 (m : Bytes) (p : Nat) (h : Half) : Bytes :=
  (m.write8 p (halfByte h 0)).write8 (p + 1) (halfByte h 1)

def write32 (m : Bytes) (p : Nat) (w : Word) : Bytes :=
  (((m.write8 p (byteAt w 0)).write8 (p + 1) (byteAt w 1)).write8 (p + 2) (byteAt w 2)).write8
    (p + 3) (byteAt w 3)

variable {m m' : Bytes} {p q x : Nat}

@[simp] theorem write8_same (b : Byte) : m.write8 p b p = b := by
  simp [write8]

theorem write8_other {b : Byte} (h : x ≠ p) : m.write8 p b x = m x := by
  simp [write8, h]

theorem write16_other {h : Half} (hx : x < p ∨ p + 2 ≤ x) : m.write16 p h x = m x := by
  rw [write16, write8_other (by omega), write8_other (by omega)]

theorem write32_other {w : Word} (hx : x < p ∨ p + 4 ≤ x) : m.write32 p w x = m x := by
  rw [write32, write8_other (by omega), write8_other (by omega), write8_other (by omega),
    write8_other (by omega)]

@[simp] theorem read16_write16_same (h : Half) : (m.write16 p h).read16 p = h := by
  simp [read16, write16, write8]

theorem read16_write16_other {h : Half} (hq : q + 2 ≤ p ∨ p + 2 ≤ q) : (m.write16 p h).read16 q = m.read16 q := by
  rw [read16, write16_other (by omega), write16_other (by omega)]
  rfl

@[simp] theorem read32_write32_same (w : Word) : (m.write32 p w).read32 p = w := by
  simp [read32, write32, write8]

/-- A word read depends on the four bytes of the word only. -/
theorem read32_congr (h : ∀ x, p ≤ x → x < p + 4 → m x = m' x) : m.read32 p = m'.read32 p := by
  simp only [read32]
  rw [h p (by omega) (by omega), h (p + 1) (by omega) (by omega), h (p + 2) (by omega) (by omega),
    h (p + 3) (by omega) (by omega)]

theorem read32_write32_other {w : Word} (h : q + 4 ≤ p ∨ p + 4 ≤ q) :
    (m.write32 p w).read32 q = m.read32 q :=
  read32_congr fun _ _ _ => write32_other (by omega)

/-- A word of zero bytes is zero. -/
theorem read32_zero (h : ∀ k, k < 4 → m (p + k) = 0#8) : m.read32 p = 0#32 := by
  have h₀ : m p = 0#8 := h 0 (by omega)
  rw [read32, h₀, h 1 (by omega), h 2 (by omega), h 3 (by omega)]
  decide

/-- A word is two half words, the lower one first. -/
theorem read32_eq_halves (m : Bytes) (p : Nat) :
    m.read32 p = (m.read16 (p + 2) ++ m.read16 p : BitVec (16 + 16)) := by
  have hassoc := @BitVec.append_assoc 16 8 8 (m (p + 3) ++ m (p + 2)) (m (p + 1)) (m p)
  exact hassoc

/-- The memory holds a list of bytes from `p` on. -/
def Holds (m : Bytes) (p : Nat) (bs : List Byte) : Prop := ∀ (k : Nat) (hk : k < bs.length), m (p + k) = bs[k]

theorem holds_append {bs cs : List Byte} :
    m.Holds p (bs ++ cs) ↔ m.Holds p bs ∧ m.Holds (p + bs.length) cs := by
  constructor
  · intro h
    refine ⟨fun k hk => ?_, fun k hk => ?_⟩
    · rw [h k (by rw [List.length_append]; omega), List.getElem_append_left hk]
    · rw [Nat.add_assoc, h (bs.length + k) (by rw [List.length_append]; omega),
        List.getElem_append_right (by omega)]
      simp
  · rintro ⟨hb, hc⟩ k hk
    rw [List.length_append] at hk
    rcases Nat.lt_or_ge k bs.length with hlt | hge
    · rw [List.getElem_append_left hlt, hb k hlt]
    · rw [List.getElem_append_right hge, ← hc (k - bs.length) (by omega)]
      congr 1
      omega

theorem holds_map_range {n : Nat} {f : Nat → Byte} :
    m.Holds p ((List.range n).map f) ↔ ∀ k, k < n → m (p + k) = f k := by
  constructor
  · intro h k hk
    have hbyte := h k (by simpa using hk)
    simpa using hbyte
  · intro h k hk
    have hk' : k < n := by simpa using hk
    simpa using h k hk'

theorem read32_write8_other {b : Byte} (h : p < q ∨ q + 4 ≤ p) :
    (m.write8 p b).read32 q = m.read32 q :=
  read32_congr fun _ _ _ => write8_other (by omega)

end Bytes

end LizaOS
