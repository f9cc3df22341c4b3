-- SUMMARY: The page constants and rounding macros of the paging header, with their arithmetic.
import LizaOS.Machine.Word
import Mathlib.Tactic.IntervalCases

/-!
# Pages

The macros of `include/paging.h`. A page is 4096 bytes; a table holds 1024 entries of one word.
-/

namespace LizaOS

def pageSize : Word := 0x1000#32
def pageAlign : Word := 0xfffff000#32
def notAligned : Word := ~~~pageAlign
def pageEntries : Word := 1024#32
def pageTableSize : Word := 4#32 * pageEntries

def pageEntryPresent : Word := 0x1#32
def pageEntryRw : Word := 0x2#32

/-- `PAGE_ALIGN_UP`. -/
def pageAlignUp (addr : Word) : Word :=
  if addr &&& notAligned ≠ 0 then (addr &&& pageAlign) + pageSize else addr

/-- `PAGES_PER_MB`. -/
def pagesPerMb (mb : Word) : Word := pageAlignUp (mb * 1024#32 * 1024#32) / pageSize

@[simp] theorem notAligned_eq : notAligned = 0xfff#32 := by decide

/-! ## Masks as arithmetic -/

theorem and_pageAlign_eq_shift (w : Word) : w &&& pageAlign = (w >>> 12) <<< 12 := by
  ext i hi
  have hi' : i < 32 := hi
  interval_cases i <;> simp [pageAlign]

/-- Masking with `PAGE_ALIGN` rounds down to a page. -/
theorem toNat_and_pageAlign (w : Word) : (w &&& pageAlign).toNat = w.toNat / 4096 * 4096 := by
  rw [and_pageAlign_eq_shift]
  simp [BitVec.toNat_shiftLeft, Nat.shiftLeft_eq, Nat.shiftRight_eq_div_pow]
  omega

/-- Masking with `NOT_ALIGNED` leaves the offset in the page. -/
theorem toNat_and_notAligned (w : Word) : (w &&& notAligned).toNat = w.toNat % 4096 := by
  rw [notAligned_eq, BitVec.toNat_and]
  exact Nat.and_two_pow_sub_one_eq_mod w.toNat 12

theorem and_notAligned_eq_zero {w : Word} : w &&& notAligned = 0#32 ↔ w.toNat % 4096 = 0 := by
  rw [← BitVec.toNat_inj, toNat_and_notAligned, BitVec.toNat_ofNat]

/-! ## Rounding up -/

/-- The value `PAGE_ALIGN_UP` stands for, before it wraps. -/
def roundUp (n : Nat) : Nat := (n + 4095) / 4096 * 4096

theorem le_roundUp (n : Nat) : n ≤ roundUp n := by
  unfold roundUp
  omega

theorem roundUp_lt (n : Nat) : roundUp n < n + 4096 := by
  unfold roundUp
  omega

theorem roundUp_mod (n : Nat) : roundUp n % 4096 = 0 := by
  unfold roundUp
  omega

theorem roundUp_of_aligned {n : Nat} (h : n % 4096 = 0) : roundUp n = n := by
  unfold roundUp
  omega

/-- A page-aligned bound above `n` is above `n` rounded up. -/
theorem roundUp_le {n m : Nat} (h : n ≤ m) (hm : m % 4096 = 0) : roundUp n ≤ m := by
  unfold roundUp
  omega

theorem roundUp_le_two_pow (w : Word) : roundUp w.toNat ≤ 2 ^ 32 :=
  roundUp_le (Nat.le_of_lt w.isLt) (by decide)

/-- `PAGE_ALIGN_UP` rounds up, except that the last page wraps to zero. -/
theorem toNat_pageAlignUp (w : Word) : (pageAlignUp w).toNat = roundUp w.toNat % 2 ^ 32 := by
  have hw := w.isLt
  unfold pageAlignUp roundUp
  split
  · rename_i h
    have hne : w.toNat % 4096 ≠ 0 := fun h0 => h (and_notAligned_eq_zero.mpr h0)
    rw [BitVec.toNat_add, toNat_and_pageAlign]
    simp only [pageSize, BitVec.toNat_ofNat]
    omega
  · rename_i h
    have h0 : w.toNat % 4096 = 0 := and_notAligned_eq_zero.mp (not_not.mp h)
    omega

end LizaOS
