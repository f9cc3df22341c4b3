-- SUMMARY: Kernel code behind the page tables: loads, stores and memset through a page that is seen.
import LizaOS.Libc.String
import LizaOS.Machine.Mmu

/-!
# Runs through seen pages

An access through a page that is seen goes to its frame. Of the state only the physical memory changes.
-/

namespace LizaOS

open Exec

def Kernel.withPhys (s : Kernel Mmu) (phys : Bytes) : Kernel Mmu := { s with mem := s.mem.withPhys phys }

@[simp] theorem phys_kernelWithPhys (s : Kernel Mmu) (phys : Bytes) : (s.withPhys phys).mem.phys = phys := rfl

section Seen

variable {s : Kernel Mmu} {A : Nat → Prop} {a w t index : Word} {f : Nat}

theorem load32_seen (h : s.mem.Seen A a f) (ha : a.toNat % 4096 + 4 ≤ 4096) :
    load32 a none s = .ok (s.mem.phys.read32 (f + a.toNat % 4096), s) := by
  rw [load32, h.load32 ha]
  rfl

theorem store32_seen (h : s.mem.Seen A a f) (ha : a.toNat % 4096 + 4 ≤ 4096) (w : Word) :
    store32 a w none s = .ok ((), s.withPhys (s.mem.phys.write32 (f + a.toNat % 4096) w)) := by
  rw [store32, h.store32 ha]
  rfl

theorem store8_seen (h : s.mem.Seen A a f) (b : Byte) :
    store8 a b none s = .ok ((), s.withPhys (s.mem.phys.write8 (f + a.toNat % 4096) b)) := by
  rw [store8, h.store8]
  rfl

theorem storeCell_seen (h : s.mem.Seen A a f) (ha : a.toNat % 4096 + 2 ≤ 4096) (c : Half) :
    storeCell a c s = .ok ((), s.withPhys (s.mem.phys.write16 (f + a.toNat % 4096) c)) := by
  rw [storeCell, h.storeCell ha]
  rfl

/-- `memset` on a page fills its frame. -/
theorem memset_seen (h : s.mem.Seen A t f) (ht : t.toNat % 4096 = 0) (hA : ∀ x, InFrame f x → A x)
    (c : Byte) :
    Returns (memset t c 4096) s fun _ s' => ∃ phys, s' = s.withPhys phys ∧
      AgreeOff (InFrame f) s.mem.phys phys ∧ ∀ x, InFrame f x → phys x = c := by
  let Filled (i : Nat) (s' : Kernel Mmu) : Prop := ∃ phys, s' = s.withPhys phys ∧
    AgreeOff (InFrame f) s.mem.phys phys ∧ ∀ x, f ≤ x → x < f + i → phys x = c
  have hloop : Returns (memset t c 4096) s fun _ s' => Filled (0 + 4096) s' := by
    refine forUp_returns (I := Filled) ⟨s.mem.phys, rfl, .refl _, fun x hx hx' => by omega⟩ ?_
    rintro i _ _ hi ⟨phys, rfl, hm, hfilled⟩
    have hoff : t.toNat % 4096 + i < 4096 := by omega
    have hpage := pageOf_add hoff
    have hlt := t.isLt
    have haddr : (t + BitVec.ofNat 32 i).toNat % 4096 = i := by
      rw [toNat_add_ofNat (by omega)]
      omega
    have hstore := store8_seen (s := s.withPhys phys) ((h.agree (hm.mono hA)).congr hpage) c
    rw [haddr] at hstore
    refine .of_eq hstore ⟨_, rfl, hm.trans (AgreeOff.write8 ⟨by omega, by omega⟩), fun x hx hx' => ?_⟩
    by_cases heq : x = f + i
    · rw [heq]
      exact Bytes.write8_same c
    · rw [phys_kernelWithPhys, Bytes.write8_other heq]
      exact hfilled x hx (by omega)
  refine hloop.mono ?_
  rintro _ _ ⟨phys, rfl, hm, hfilled⟩
  exact ⟨phys, rfl, hm, fun x hx => hfilled x hx.1 (by have h := hx.2; omega)⟩

end Seen

end LizaOS
