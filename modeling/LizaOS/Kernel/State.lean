-- SUMMARY: The kernel's global variables as one state, and the primitive steps of kernel code on it.
import LizaOS.Logic.Exec
import LizaOS.Logic.Extent
import LizaOS.Machine.Bus

/-!
# Kernel state

The state of the kernel is the memory it runs on together with the global variables of its drivers.
Memory that C code reaches through pointers (heap blocks, the module image, page tables, the global
`dentry`) lives in `mem`; the scalar globals of each source file are a record of their own.

`strayed` is not part of the kernel. It records whether an access through a pointer into an object
the driver means to stay inside touched a byte outside that object. The extents in `Ramdisk` are the
objects meant.
-/

namespace LizaOS

/-- The colours of `VGA_COLOR_TYPE`. -/
inductive Color where
  | black | blue | green | cyan | red | magenta | brown | grey
  | darkGrey | brightBlue | brightGreen | brightCyan | brightRed | brightMagenta | yellow | white
  deriving DecidableEq, Repr

/-- The value of the enumerator. -/
def Color.code : Color → Byte
  | .black => 0 | .blue => 1 | .green => 2 | .cyan => 3 | .red => 4 | .magenta => 5
  | .brown => 6 | .grey => 7 | .darkGrey => 8 | .brightBlue => 9 | .brightGreen => 10
  | .brightCyan => 11 | .brightRed => 12 | .brightMagenta => 13 | .yellow => 14 | .white => 15

/-- The globals of `mm/alloc.c`. -/
structure Alloc where
  initialized : Bool
  initialBase : Word
  currentBase : Word
  maxBase : Word
  deriving DecidableEq, Repr

/-- The `vga` record of `drivers/vga.c`. -/
structure Vga where
  x : Byte
  y : Byte
  vgaBuff : Word
  pos : Word
  deriving DecidableEq, Repr

/-- The globals of `mm/paging.c`. -/
structure Paging where
  pageDirectory : Word
  ptPhysToVirt : Word
  kernelPagingEnabled : Bool
  deriving DecidableEq, Repr

/-- The globals of `kernel/timer.c` that the kernel sets up at boot. -/
structure Timer where
  gTicks : Word
  gFreqHz : Half
  deriving DecidableEq, Repr

/-- The globals of `drivers/ramdisk.c`. `image` is the extent of the image the driver was given, and
`block` the heap block `root_nodes` points to. -/
structure Ramdisk where
  initrdH : Word
  fileHeaders : Word
  nrootNodes : Word
  root : Word
  dev : Word
  rootNodes : Word
  image : Extent
  block : Extent
  deriving DecidableEq, Repr

/-- `handlers` is `g_interrupt_handlers`; an index outside `0 .. 255` is memory beside the table. -/
structure Kernel (μ : Type) where
  mem : μ
  ports : List (Half × Byte)
  alloc : Alloc
  vga : Vga
  screenBg : Color
  paging : Paging
  handlers : Int → Word
  timer : Timer
  ramdisk : Ramdisk
  strayed : Bool

/-- The state before anything is set up: the globals of the `.bss` section are zero. -/
def Kernel.reset {μ : Type} (mem : μ) : Kernel μ where
  mem := mem
  ports := []
  alloc := { initialized := false, initialBase := 0, currentBase := 0, maxBase := 0 }
  vga := { x := 0, y := 0, vgaBuff := 0, pos := 0 }
  screenBg := .black
  paging := { pageDirectory := 0, ptPhysToVirt := 0, kernelPagingEnabled := false }
  handlers := fun _ => 0
  timer := { gTicks := 0, gFreqHz := 0 }
  ramdisk := { initrdH := 0, fileHeaders := 0, nrootNodes := 0, root := 0, dev := 0, rootNodes := 0,
               image := .ofLen 0 0, block := .ofLen 0 0 }
  strayed := false

/-- Kernel code running on the memory `μ`. -/
abbrev K (μ : Type) := StateT (Kernel μ) (Except Stop)

/-! ## Primitive steps -/

/-- Record an access to `n` bytes, if the pointer is one into a watched object. -/
def Kernel.noted {μ : Type} (s : Kernel μ) (obj : Option Extent) (a : Word) (n : Nat) : Kernel μ :=
  match obj with
  | none => s
  | some e => if (Extent.ofLen a.toNat n).Within e then s else { s with strayed := true }

section Steps

variable {μ : Type} [Bus μ]

def load8 (a : Word) (obj : Option Extent := none) : K μ Byte := fun s =>
  (Bus.load8 s.mem a).map fun b => (b, s.noted obj a 1)

def store8 (a : Word) (b : Byte) (obj : Option Extent := none) : K μ Unit := fun s =>
  (Bus.store8 s.mem a b).map fun m => ((), { s.noted obj a 1 with mem := m })

def load32 (a : Word) (obj : Option Extent := none) : K μ Word := fun s =>
  (Bus.load32 s.mem a).map fun w => (w, s.noted obj a 4)

def store32 (a w : Word) (obj : Option Extent := none) : K μ Unit := fun s =>
  (Bus.store32 s.mem a w).map fun m => ((), { s.noted obj a 4 with mem := m })

def loadCell (a : Word) : K μ Half := fun s =>
  (Bus.loadCell s.mem a).map fun h => (h, s)

def storeCell (a : Word) (h : Half) : K μ Unit := fun s =>
  (Bus.storeCell s.mem a h).map fun m => ((), { s with mem := m })

end Steps

section Steps

variable {μ : Type}

/-- `outb` of `kernel/io.c`. -/
def outb (port : Half) (b : Byte) : K μ Unit := fun s =>
  .ok ((), { s with ports := s.ports ++ [(port, b)] })

/-- `panic` of `kernel/kerror.c`: the machine halts. -/
def panic {α : Type} : K μ α := throw .panic

/-- The `ASSERT` macro. -/
def assert (c : Prop) [Decidable c] : K μ Unit := if c then pure () else panic

end Steps

/-! ## Running the primitive steps

A step on `Flat` always succeeds. -/

namespace Kernel

variable {μ : Type} (s : Kernel μ) (obj : Option Extent) (a : Word) (n : Nat)

/-- Recording an access changes neither the memory nor the driver's globals. -/
theorem noted_keeps : (s.noted obj a n).mem = s.mem ∧ (s.noted obj a n).ramdisk = s.ramdisk := by
  cases obj with
  | none => exact ⟨rfl, rfl⟩
  | some e =>
      simp only [noted]
      split <;> exact ⟨rfl, rfl⟩

variable {e : Extent}

theorem noted_inside (h : (Extent.ofLen a.toNat n).Within e) : s.noted (some e) a n = s :=
  if_pos h

theorem strayed_of_noted (h : (s.noted obj a n).strayed = false) : s.strayed = false := by
  cases obj with
  | none => exact h
  | some e =>
      simp only [noted] at h
      split at h
      · exact h
      · cases h

/-- No access has strayed only if this one did not. -/
theorem inside_of_noted (h : (s.noted (some e) a n).strayed = false) :
    (Extent.ofLen a.toNat n).Within e := by
  simp only [noted] at h
  split at h
  · assumption
  · cases h

end Kernel

section Run

variable {μ : Type} {s : Kernel μ} {f : Kernel μ → Kernel μ}

@[simp] theorem modify_run : (modify f : K μ Unit) s = .ok ((), f s) := rfl

theorem modify_ok {s' : Kernel μ} {u : PUnit} (h : (modify f : K μ PUnit) s = .ok (u, s')) :
    s' = f s := by
  injection h with h
  injection h with _ h
  exact h.symm

@[simp] theorem outb_run (port : Half) (b : Byte) :
    outb port b s = .ok ((), { s with ports := s.ports ++ [(port, b)] }) := rfl

theorem assert_true {c : Prop} [Decidable c] (h : c) : (assert c : K μ Unit) s = .ok ((), s) := by
  rw [assert, if_pos h]
  rfl

theorem assert_false {c : Prop} [Decidable c] (h : ¬c) : (assert c : K μ Unit) s = .error .panic := by
  rw [assert, if_neg h]
  rfl

theorem assert_ok {c : Prop} [Decidable c] {r : Unit × Kernel μ} (h : assert c s = .ok r) :
    c ∧ r = ((), s) := by
  by_cases hc : c
  · rw [assert_true hc] at h
    cases h
    exact ⟨hc, rfl⟩
  · rw [assert, if_neg hc] at h
    cases h

end Run

end LizaOS
