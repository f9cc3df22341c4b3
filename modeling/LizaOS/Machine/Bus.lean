-- SUMMARY: What kernel code asks of memory, and the flat memory a C program sees.
import LizaOS.Machine.Bytes

/-!
# The memory bus

Kernel code loads and stores through a bus. The class `Bus` lists the accesses the kernel makes;
`Flat` is the memory of a C program that never faults: plain RAM, with the text screen as a device
of its own beside it. `Mmu` in `LizaOS/Machine/Mmu.lean` is the memory of the real machine, behind
the page tables.
-/

namespace LizaOS

/-- Why control does not come back to the caller. -/
inductive Stop where
  /-- `panic` halted the machine. -/
  | panic
  /-- An access to a page that is not present; the page fault handler panics. -/
  | pageFault
  /-- A call through a pointer that is no function of this kernel. -/
  | wildCall
  /-- The format string was read past its terminating NUL. -/
  | overrun
  /-- A string loop went once around the address space. -/
  | spin
  deriving DecidableEq, Repr

/-- The accesses of kernel code: bytes and words of memory, and the 16-bit cells of the screen. -/
class Bus (μ : Type) where
  load8 : μ → Word → Except Stop Byte
  store8 : μ → Word → Byte → Except Stop μ
  load32 : μ → Word → Except Stop Word
  store32 : μ → Word → Word → Except Stop μ
  loadCell : μ → Word → Except Stop Half
  storeCell : μ → Word → Half → Except Stop μ

/-- Memory without translation. Cells of the screen are kept by their address. -/
structure Flat where
  ram : Bytes
  cells : Word → Half

namespace Flat

/-- RAM and screen that hold zeros. -/
def zero : Flat := { ram := fun _ => 0, cells := fun _ => 0 }

def byte (m : Flat) (a : Word) : Byte := m.ram a.toNat

def setByte (m : Flat) (a : Word) (b : Byte) : Flat := { m with ram := m.ram.write8 a.toNat b }

/-- A word is read byte by byte, its address wrapping at the end of the address space. -/
def word (m : Flat) (a : Word) : Word :=
  ofBytes (m.byte a) (m.byte (a + 1#32)) (m.byte (a + 2#32)) (m.byte (a + 3#32))

def setWord (m : Flat) (a w : Word) : Flat :=
  (((m.setByte a (byteAt w 0)).setByte (a + 1#32) (byteAt w 1)).setByte (a + 2#32) (byteAt w 2)).setByte
    (a + 3#32) (byteAt w 3)

def setCell (m : Flat) (a : Word) (h : Half) : Flat :=
  { m with cells := fun x => if x = a then h else m.cells x }

instance : Bus Flat where
  load8 m a := .ok (m.byte a)
  store8 m a b := .ok (m.setByte a b)
  load32 m a := .ok (m.word a)
  store32 m a w := .ok (m.setWord a w)
  loadCell m a := .ok (m.cells a)
  storeCell m a h := .ok (m.setCell a h)

@[simp] theorem ram_setCell (m : Flat) (a : Word) (h : Half) : (m.setCell a h).ram = m.ram := rfl

/-- A word that does not wrap is the little-endian word at its address. -/
theorem word_eq {m : Flat} {a : Word} (h : a.toNat + 4 ≤ 2 ^ 32) :
    m.word a = m.ram.read32 a.toNat := by
  have h₁ := toNat_add_ofNat (a := a) (k := 1) (by omega)
  have h₂ := toNat_add_ofNat (a := a) (k := 2) (by omega)
  have h₃ := toNat_add_ofNat (a := a) (k := 3) (by omega)
  simp only [word, byte, Bytes.read32]
  rw [h₁, h₂, h₃]

theorem setWord_ram {m : Flat} {a w : Word} (h : a.toNat + 4 ≤ 2 ^ 32) :
    (m.setWord a w).ram = m.ram.write32 a.toNat w := by
  have h₁ := toNat_add_ofNat (a := a) (k := 1) (by omega)
  have h₂ := toNat_add_ofNat (a := a) (k := 2) (by omega)
  have h₃ := toNat_add_ofNat (a := a) (k := 3) (by omega)
  simp only [setWord, setByte, Bytes.write32]
  rw [h₁, h₂, h₃]

end Flat

end LizaOS
