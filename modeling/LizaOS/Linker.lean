-- SUMMARY: The linker script: where it puts the sections of the kernel, and that boot code and kernel get what they rely on.
import LizaOS.Mm.Booted

/-!
# The linker script

`config/linker.ld`. The early sections are linked where they are loaded, from the first megabyte on, and the others
three gigabytes above. The boot code reserves two words in `.early_data` and three pages in `.early_bss`.
-/

namespace LizaOS

/-- The sizes of the sections that depend on the code. -/
structure Sections where
  earlyText : Nat
  text : Nat
  rodata : Nat
  data : Nat
  bss : Nat

namespace Sections

/-- `.__mbHeader`, and what the boot code reserves. -/
def mbHeaderSize : Nat := 12
def earlyDataSize : Nat := 8
def earlyBssSize : Nat := 0x3000

/-- `.early_kmalloc` -/
def earlyKmallocSize : Nat := 0x100000

variable (c : Sections)

def earlyTextAt : Nat := roundUp (0x100000 + mbHeaderSize)
def earlyDataAt : Nat := roundUp (earlyTextAt + c.earlyText)
def earlyBssAt : Nat := roundUp (c.earlyDataAt + earlyDataSize)
def earlyKernelEnd : Nat := c.earlyBssAt + earlyBssSize
def kernelStart : Nat := c.earlyKernelEnd + 0xC0000000
def textAt : Nat := roundUp c.kernelStart
def rodataAt : Nat := roundUp (c.textAt + c.text)
def dataAt : Nat := roundUp (c.rodataAt + c.rodata)
def bssAt : Nat := roundUp (c.dataAt + c.data)
def earlyKmallocAt : Nat := roundUp (c.bssAt + c.bss)
def kernelEnd : Nat := c.earlyKmallocAt + earlyKmallocSize

/-- The assertion at the end of the script. -/
def Asserted : Prop := c.kernelEnd - c.kernelStart < 0x300000

/-- The kernel ends in the memory that one page table covers. -/
def Fits : Prop := c.kernelEnd ≤ 0xC0400000

instance : Decidable c.Asserted := inferInstanceAs (Decidable (_ < _))
instance : Decidable c.Fits := inferInstanceAs (Decidable (_ ≤ _))

/-- What the boot code sees. -/
def symbols : BootSymbols where
  multibootMagic := BitVec.ofNat 32 c.earlyDataAt
  multibootInfo := BitVec.ofNat 32 (c.earlyDataAt + 4)
  earlyBssStart := BitVec.ofNat 32 c.earlyBssAt
  earlyBssSize := BitVec.ofNat 32 earlyBssSize
  pageDirectory := BitVec.ofNat 32 c.earlyBssAt
  lowmemPt := BitVec.ofNat 32 (c.earlyBssAt + 0x1000)
  kernelPt := BitVec.ofNat 32 (c.earlyBssAt + 0x2000)
  earlyKernelEnd := BitVec.ofNat 32 c.earlyKernelEnd
  kernelStart := BitVec.ofNat 32 c.kernelStart
  kernelEnd := BitVec.ofNat 32 c.kernelEnd

/-- What the kernel sees. -/
def layout (pageFaultHandler : Word) : Layout where
  kernelStart := BitVec.ofNat 32 c.kernelStart
  kernelEnd := BitVec.ofNat 32 c.kernelEnd
  earlyKmallocStart := BitVec.ofNat 32 c.earlyKmallocAt
  earlyKmallocEnd := BitVec.ofNat 32 c.kernelEnd
  pageFaultHandler := pageFaultHandler

variable {c}

/-- The sections are in the order of the script, each on a page of its own. -/
structure Ordered (c : Sections) : Prop where
  earlyData : 0x101000 ≤ c.earlyDataAt
  earlyBss : c.earlyDataAt + 8 ≤ c.earlyBssAt
  earlyBss_mod : c.earlyBssAt % 4096 = 0
  text : c.textAt = c.kernelStart
  bss : c.kernelStart ≤ c.bssAt
  heap : c.bssAt + c.bss ≤ c.earlyKmallocAt
  heap_mod : c.earlyKmallocAt % 4096 = 0

theorem ordered (c : Sections) : c.Ordered := by
  have hbss := roundUp_mod (c.earlyDataAt + earlyDataSize)
  have hearly : 0x101000 ≤ c.earlyDataAt := by
    have hheader : earlyTextAt = 0x101000 := by decide
    have hround := le_roundUp (earlyTextAt + c.earlyText)
    unfold earlyDataAt
    omega
  have hdata := le_roundUp (c.earlyDataAt + earlyDataSize)
  have htext : c.textAt = c.kernelStart := by
    refine roundUp_of_aligned ?_
    unfold kernelStart earlyKernelEnd earlyBssSize earlyBssAt
    omega
  have hrodataAt := le_roundUp (c.textAt + c.text)
  have hdataAt := le_roundUp (c.rodataAt + c.rodata)
  have hbssAt := le_roundUp (c.dataAt + c.data)
  refine ⟨hearly, ?_, hbss, htext, ?_, le_roundUp _, roundUp_mod _⟩
  · unfold earlyBssAt earlyDataSize at *
    omega
  · unfold bssAt dataAt rodataAt at *
    omega

/-- The addresses as numbers. -/
theorem Fits.symbols_toNat (h : c.Fits) :
    c.symbols.earlyBssStart.toNat = c.earlyBssAt ∧ c.symbols.pageDirectory.toNat = c.earlyBssAt ∧
      c.symbols.earlyKernelEnd.toNat = c.earlyBssAt + 0x3000 ∧
      c.symbols.kernelStart.toNat = c.earlyBssAt + 0x3000 + 0xC0000000 ∧ c.symbols.kernelEnd.toNat = c.kernelEnd ∧
      c.earlyBssAt + 0x3000 + 0xC0000000 ≤ c.bssAt ∧ c.earlyKmallocAt + 0x100000 = c.kernelEnd ∧
      c.kernelEnd ≤ 0xC0400000 := by
  have hordered := c.ordered
  have hbss := hordered.bss
  have hheap := hordered.heap
  have hstart : c.kernelStart = c.earlyBssAt + 0x3000 + 0xC0000000 := rfl
  have hend : c.kernelEnd = c.earlyKmallocAt + 0x100000 := rfl
  unfold Fits at h
  have hofNat : ∀ n, n ≤ 0xC0400000 → (BitVec.ofNat 32 n).toNat = n := fun n hn => by
    rw [BitVec.toNat_ofNat]
    exact Nat.mod_eq_of_lt (by omega)
  refine ⟨hofNat _ (by omega), hofNat _ (by omega), hofNat _ ?_, ?_, hofNat _ h, by omega, by omega, h⟩
  · show c.earlyBssAt + 0x3000 ≤ _
    omega
  · rw [← hstart]
    exact hofNat _ (by omega)

/-- A kernel that fits passes the assertion. -/
theorem Fits.asserted (h : c.Fits) : c.Asserted := by
  have hordered := c.ordered
  have hearly := hordered.earlyData
  have hbss := hordered.earlyBss
  have hstart : c.kernelStart = c.earlyBssAt + 0x3000 + 0xC0000000 := rfl
  unfold Fits at h
  unfold Asserted
  omega

theorem Fits.linked (h : c.Fits) : c.symbols.Linked := by
  obtain ⟨hbss, hdir, hearly, hstart, hend, hle, hheap, hfits⟩ := h.symbols_toNat
  have hordered := c.ordered
  have hmod := hordered.earlyBss_mod
  have hdata := hordered.earlyData
  have hdata' := hordered.earlyBss
  have hinside := hordered.heap
  have hsize : c.symbols.earlyBssSize.toNat = 0x3000 := show (BitVec.ofNat 32 0x3000).toNat = 0x3000 by decide
  have hadd : ∀ k, c.symbols.pageDirectory + BitVec.ofNat 32 k = BitVec.ofNat 32 (c.earlyBssAt + k) := fun k =>
    (BitVec.ofNat_add ..).symm
  exact
    { end_mod := by omega
      end_gt := by omega
      end_le := by omega
      start_eq := BitVec.ofNat_add ..
      start_le := by omega
      size_lt := by
        have hasserted := h.asserted
        unfold Asserted at hasserted
        have hkernel : c.kernelStart = c.earlyBssAt + 0x3000 + 0xC0000000 := rfl
        omega
      dir_mod := by omega
      lowmemPt_eq := (hadd 0x1000).symm
      kernelPt_eq := (hadd 0x2000).symm
      bss_low := by omega
      bss_high := by omega
      bss_end := by omega }

theorem Fits.layout_linked (h : c.Fits) (pageFaultHandler : Word) : (c.layout pageFaultHandler).Linked := by
  obtain ⟨_, _, _, hstart, hend, hle, hheap, hfits⟩ := h.symbols_toNat
  have hordered := c.ordered
  have hmod := hordered.earlyBss_mod
  have hdata := hordered.earlyData
  have hdata' := hordered.earlyBss
  have hinside := hordered.heap
  have hstart : (c.layout pageFaultHandler).kernelStart.toNat = _ := hstart
  have hend : (c.layout pageFaultHandler).kernelEnd.toNat = _ := hend
  have hlast : (c.layout pageFaultHandler).earlyKmallocEnd.toNat = _ := hend
  have hfirst : (c.layout pageFaultHandler).earlyKmallocStart.toNat = c.earlyKmallocAt := by
    show (BitVec.ofNat 32 c.earlyKmallocAt).toNat = _
    rw [BitVec.toNat_ofNat]
    exact Nat.mod_eq_of_lt (by omega)
  constructor <;> omega

theorem Fits.sameLink (h : c.Fits) (pageFaultHandler : Word) : SameLink c.symbols (c.layout pageFaultHandler) := by
  obtain ⟨_, hdir, _⟩ := h.symbols_toNat
  have hordered := c.ordered
  have hdata := hordered.earlyData
  have hdata' := hordered.earlyBss
  exact ⟨rfl, rfl, by omega⟩

end Sections

end LizaOS
