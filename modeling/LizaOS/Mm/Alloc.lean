-- SUMMARY: The early heap: a bump allocator over the globals of `mm/alloc.c`.
import LizaOS.Libc.Stdio
import LizaOS.Mm.Page

/-!
# Early heap

`mm/alloc.c`. The allocator functions read and write only the globals of their file, so they are
written on `Alloc` first and lifted to the kernel state.
-/

namespace LizaOS

/-- Code of `mm/alloc.c`, on its own globals. -/
abbrev AllocM := StateT Alloc (Except Stop)

namespace Alloc

/-- `kmalloc_early`. Both the sum in the test and the new base wrap at 32 bits. -/
def kmallocEarly (size : Word) : AllocM Word := fun a =>
  if ¬a.initialized then .error .panic
  else if size = 0#32 then .ok (0#32, a)
  else if a.maxBase < size + a.currentBase then .error .panic
  else .ok (a.currentBase, { a with currentBase := a.currentBase + size })

/-- The base `kmalloc_early_align` rounds up to. -/
def alignBase (base : Word) : Word :=
  if base &&& ~~~pageAlign ≠ 0#32 then (base &&& pageAlign) + pageSize else base

/-- `kmalloc_early_align`. -/
def kmallocEarlyAlign (size : Word) : AllocM Word := fun a =>
  if ¬a.initialized then .error .panic
  else if size = 0#32 then .ok (0#32, a)
  else kmallocEarly size { a with currentBase := alignBase a.currentBase }

/-- What `kmalloc_early_init` leaves in the globals. -/
def earlyInit (base max : Word) : Alloc :=
  { initialized := true, initialBase := base, currentBase := base, maxBase := max }

end Alloc

variable {μ : Type} [Bus μ]

/-- Run allocator code on the kernel state. -/
def onAlloc {α : Type} (x : AllocM α) : K μ α := fun s =>
  (x s.alloc).map fun (r, a) => (r, { s with alloc := a })

def kmallocEarlyInit (base max : Word) : K μ Unit := do
  assert (base < max)
  kPrintf (cstr "kmalloc_early [%x, %x]\n") (slots [base, max])
  modify fun s => { s with alloc := .earlyInit base max }

def kmallocEarly (size : Word) : K μ Word := onAlloc (Alloc.kmallocEarly size)

def kmallocEarlyAlign (size : Word) : K μ Word := onAlloc (Alloc.kmallocEarlyAlign size)

/-! ## What one request does -/

namespace Alloc

theorem alignBase_eq (base : Word) : alignBase base = pageAlignUp base := rfl

theorem toNat_alignBase (base : Word) :
    (alignBase base).toNat = roundUp base.toNat % 2 ^ 32 := by
  rw [alignBase_eq, toNat_pageAlignUp]

variable {a a' : Alloc} {size r : Word}

/-- A request that comes back has bumped the base, the block ending at or below `maxBase` as the
wrapped test sees it. -/
theorem kmallocEarly_ok (h : kmallocEarly size a = .ok (r, a')) :
    (size = 0#32 ∧ r = 0#32 ∧ a' = a) ∨
    (size ≠ 0#32 ∧ size + a.currentBase ≤ a.maxBase ∧ r = a.currentBase ∧
      a' = { a with currentBase := a.currentBase + size }) := by
  unfold kmallocEarly at h
  split at h
  · cases h
  split at h
  · cases h
    exact .inl ⟨‹_›, rfl, rfl⟩
  split at h
  · cases h
  · rename_i hle
    cases h
    exact .inr ⟨‹_›, BitVec.not_lt.mp hle, rfl, rfl⟩

/-- A request that fits below `maxBase` comes back. -/
theorem kmallocEarly_fits (hi : a.initialized) (hs : size ≠ 0#32)
    (hfit : a.currentBase.toNat + size.toNat ≤ a.maxBase.toNat) :
    kmallocEarly size a = .ok (a.currentBase, { a with currentBase := a.currentBase + size }) := by
  have hmax := a.maxBase.isLt
  have hsum : (size + a.currentBase).toNat = size.toNat + a.currentBase.toNat :=
    toNat_add_of_lt (by omega)
  have hle : ¬a.maxBase < size + a.currentBase := by
    rw [BitVec.lt_def, hsum]
    omega
  simp [kmallocEarly, hi, hs, hle]

end Alloc

end LizaOS
