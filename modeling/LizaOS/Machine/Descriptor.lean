-- SUMMARY: Segment descriptors and interrupt gates as the processor reads them from memory.
import LizaOS.Machine.Bus

/-!
# Descriptors

The processor reads a descriptor as two words. Where it looks for a base, a limit or a handler in them is
laid down by the architecture; nothing here depends on how a kernel fills its tables in.
-/

namespace LizaOS

/-- A segment: where it begins, the limit before it is scaled, the access byte and the flags. -/
@[ext]
structure SegmentDescriptor where
  base : Word
  limit : BitVec 20
  access : Byte
  flags : BitVec 4
  deriving DecidableEq, Repr

/-- A gate to an interrupt handler. -/
@[ext]
structure GateDescriptor where
  handler : Word
  selector : Half
  flags : Byte
  reserved : Byte
  deriving DecidableEq, Repr

/-- The layout of a segment descriptor. -/
def SegmentDescriptor.decode (low high : Word) : SegmentDescriptor where
  base := high.extractLsb' 24 8 ++ high.extractLsb' 0 8 ++ low.extractLsb' 16 16
  limit := high.extractLsb' 16 4 ++ low.extractLsb' 0 16
  access := high.extractLsb' 8 8
  flags := high.extractLsb' 20 4

/-- The layout of an interrupt gate. -/
def GateDescriptor.decode (low high : Word) : GateDescriptor where
  handler := high.extractLsb' 16 16 ++ low.extractLsb' 0 16
  selector := low.extractLsb' 16 16
  flags := high.extractLsb' 8 8
  reserved := high.extractLsb' 0 8

/-! ## In memory -/

namespace Flat

/-- The segment descriptor at `a`. -/
def segment (m : Flat) (a : Word) : SegmentDescriptor := .decode (m.word a) (m.word (a + 4#32))

/-- The gate at `a`. -/
def gate (m : Flat) (a : Word) : GateDescriptor := .decode (m.word a) (m.word (a + 4#32))

/-- Both words, for a descriptor that does not wrap. -/
theorem words_eq {m : Flat} {a : Word} (h : a.toNat + 8 ≤ 2 ^ 32) :
    m.word a = m.ram.read32 a.toNat ∧ m.word (a + 4#32) = m.ram.read32 (a.toNat + 4) := by
  have h4 : (a + 4#32).toNat = a.toNat + 4 := toNat_add_ofNat (by omega)
  refine ⟨word_eq (by omega), ?_⟩
  rw [word_eq (by omega), h4]

/-- The two words depend on their eight bytes only. -/
theorem words_congr {m m' : Flat} {a : Word} (h : a.toNat + 8 ≤ 2 ^ 32)
    (hm : ∀ x, a.toNat ≤ x → x < a.toNat + 8 → m'.ram x = m.ram x) :
    m'.word a = m.word a ∧ m'.word (a + 4#32) = m.word (a + 4#32) := by
  obtain ⟨hlow, hhigh⟩ := words_eq (m := m) h
  obtain ⟨hlow', hhigh'⟩ := words_eq (m := m') h
  rw [hlow, hhigh, hlow', hhigh']
  exact ⟨Bytes.read32_congr fun x _ _ => hm x (by omega) (by omega),
    Bytes.read32_congr fun x _ _ => hm x (by omega) (by omega)⟩

/-- And so do the descriptors. -/
theorem segment_congr {m m' : Flat} {a : Word} (h : a.toNat + 8 ≤ 2 ^ 32)
    (hm : ∀ x, a.toNat ≤ x → x < a.toNat + 8 → m'.ram x = m.ram x) : m'.segment a = m.segment a := by
  obtain ⟨hlow, hhigh⟩ := words_congr h hm
  rw [segment, hlow, hhigh, segment]

theorem gate_congr {m m' : Flat} {a : Word} (h : a.toNat + 8 ≤ 2 ^ 32)
    (hm : ∀ x, a.toNat ≤ x → x < a.toNat + 8 → m'.ram x = m.ram x) : m'.gate a = m.gate a := by
  obtain ⟨hlow, hhigh⟩ := words_congr h hm
  rw [gate, hlow, hhigh, gate]

end Flat

/-! ## Bytes -/

section Bytes

variable (w : Word) (b₀ b₁ b₂ b₃ b₄ b₅ b₆ b₇ : Byte)

/-- The halves of a word, by bytes. -/
theorem extract_halves :
    w.extractLsb' 0 16 = byteAt w 1 ++ byteAt w 0 ∧ w.extractLsb' 16 16 = byteAt w 3 ++ byteAt w 2 :=
  ⟨(@BitVec.extractLsb'_append_extractLsb'_eq_extractLsb' 32 8 0 8 8 w rfl).symm,
    (@BitVec.extractLsb'_append_extractLsb'_eq_extractLsb' 32 24 16 8 8 w rfl).symm⟩

/-- The nibbles of a byte of a word. -/
theorem extract_nibbles :
    w.extractLsb' 16 4 = (byteAt w 2).extractLsb' 0 4 ∧ w.extractLsb' 20 4 = (byteAt w 2).extractLsb' 4 4 := by
  constructor <;>
  · refine BitVec.eq_of_getLsbD_eq fun i hi => ?_
    have hlt : i < 8 := by omega
    have hlt' : 4 + i < 8 := by omega
    simp only [byteAt, BitVec.getLsbD_extractLsb', hi, hlt, hlt', decide_true, Bool.true_and, Nat.zero_add,
      ← Nat.add_assoc]

/-- A segment descriptor by its eight bytes. -/
theorem SegmentDescriptor.decode_ofBytes : SegmentDescriptor.decode (ofBytes b₀ b₁ b₂ b₃) (ofBytes b₄ b₅ b₆ b₇) = {
    base := ofBytes b₂ b₃ b₄ b₇
    limit := b₆.extractLsb' 0 4 ++ (b₁ ++ b₀)
    access := b₅
    flags := b₆.extractLsb' 4 4 } := by
  obtain ⟨h₀, h₁, h₂, h₃⟩ := byteAt_ofBytes b₀ b₁ b₂ b₃
  obtain ⟨h₄, h₅, h₆, h₇⟩ := byteAt_ofBytes b₄ b₅ b₆ b₇
  obtain ⟨hlimit, hbase⟩ := extract_halves (ofBytes b₀ b₁ b₂ b₃)
  obtain ⟨hnibble, hflags⟩ := extract_nibbles (ofBytes b₄ b₅ b₆ b₇)
  rw [h₁, h₀] at hlimit
  rw [h₃, h₂] at hbase
  rw [h₆] at hnibble hflags
  have hassoc : b₇ ++ b₄ ++ (b₃ ++ b₂) = ofBytes b₂ b₃ b₄ b₇ :=
    (@BitVec.append_assoc 16 8 8 (b₇ ++ b₄) b₃ b₂).symm
  refine SegmentDescriptor.ext ?_ ?_ h₅ hflags
  · rw [← hassoc, ← hbase]
    exact congrArg₂ (fun x y : Byte => x ++ y ++ (ofBytes b₀ b₁ b₂ b₃).extractLsb' 16 16) h₇ h₄
  · exact congrArg₂ (fun (x : BitVec 4) (y : Half) => x ++ y) hnibble hlimit

/-- A gate by its eight bytes. -/
theorem GateDescriptor.decode_ofBytes : GateDescriptor.decode (ofBytes b₀ b₁ b₂ b₃) (ofBytes b₄ b₅ b₆ b₇) = {
    handler := ofBytes b₀ b₁ b₆ b₇
    selector := b₃ ++ b₂
    flags := b₅
    reserved := b₄ } := by
  obtain ⟨h₀, h₁, h₂, h₃⟩ := byteAt_ofBytes b₀ b₁ b₂ b₃
  obtain ⟨h₄, h₅, h₆, h₇⟩ := byteAt_ofBytes b₄ b₅ b₆ b₇
  obtain ⟨hlow, hselector⟩ := extract_halves (ofBytes b₀ b₁ b₂ b₃)
  obtain ⟨_, hhigh⟩ := extract_halves (ofBytes b₄ b₅ b₆ b₇)
  rw [h₁, h₀] at hlow
  rw [h₃, h₂] at hselector
  rw [h₇, h₆] at hhigh
  have hassoc : b₇ ++ b₆ ++ (b₁ ++ b₀) = ofBytes b₀ b₁ b₆ b₇ :=
    (@BitVec.append_assoc 16 8 8 (b₇ ++ b₆) b₁ b₀).symm
  refine GateDescriptor.ext ?_ hselector h₅ h₄
  rw [← hassoc]
  exact congrArg₂ (fun x y : Half => x ++ y) hhigh hlow

end Bytes

end LizaOS
