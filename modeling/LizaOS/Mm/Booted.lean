-- SUMMARY: init_paging on what the boot code leaves: the address space it builds, from the boot tables to its own.
import LizaOS.Asm.Boot
import LizaOS.Mm.AddressSpace

/-!
# From the boot code to init_paging

The tables of the boot code are what `init_paging` relies on. With them it builds exactly the address
space it is for, and no page of the kernel moves when it switches.
-/

namespace LizaOS

open Exec

/-- The kernel's own view of the addresses the boot code was linked with. -/
structure SameLink (sym : BootSymbols) (layout : Layout) : Prop where
  kernelStart : layout.kernelStart = sym.kernelStart
  kernelEnd : layout.kernelEnd = sym.kernelEnd
  early : 0x100000 ≤ sym.pageDirectory.toNat

section Booted

variable {sym : BootSymbols} {layout : Layout} {m : Mmu} {v : Word}

theorem SameLink.lowEnd_eq (h : SameLink sym layout) (hl : sym.Linked) :
    layout.lowEnd = sym.earlyKernelEnd.toNat := by
  have hstart := hl.kernelStart_toNat
  have hphys : physOf sym.kernelStart + 0xC0000000 = sym.kernelStart.toNat := physOf_add (by omega)
  rw [Layout.lowEnd, h.kernelStart]
  omega

/-- The boot code leaves the tables `init_paging` relies on. -/
theorem BootFilled.bootMapped (hl : sym.Linked) (h : SameLink sym layout) (hm : BootFilled sym m.phys)
    (hon : m.pagingOn = true) (hcr3 : m.cr3 = sym.pageDirectory) (hend : sym.kernelEnd.toNat ≤ 0xC0400000) :
    BootMapped m layout := by
  have hmod := hl.dir_mod
  have hearly := h.early
  have hlowEnd := h.lowEnd_eq hl
  have hbss := hl.bss_high
  have hbssend := hl.bss_end
  have hstart := hl.kernelStart_toNat
  have hgt := hl.end_gt
  have hle := hl.end_le
  obtain ⟨hlowmem, hkernel, _⟩ := hl.tables_toNat
  have hroot : m.root = sym.pageDirectory.toNat := by
    rw [Mmu.root, hcr3]
    exact Entry.frame_of_aligned hmod
  have hpage : ∀ v : Word, v.toNat % 4096 = 0 → 4096 * pageOf v = v.toNat := fun v hv => by
    unfold pageOf
    omega
  refine ⟨hon, by rw [hcr3]; exact hmod, by rw [hcr3]; exact hearly, by rw [hcr3, hlowEnd]; omega, ?_, ?_, ?_⟩
  · rintro v ⟨hv, hlow⟩
    rw [Mmu.walk, hroot, hm.lookup_low hl (by omega), hpage v hv]
    exact ⟨true, rfl⟩
  · rintro v ⟨hv, hlow, hhigh⟩
    rw [h.kernelStart] at hlow
    rw [h.kernelEnd] at hhigh
    rw [Mmu.walk, hroot, hm.lookup_kernel hl hend hv (by omega) hhigh]
    exact ⟨true, rfl⟩
  · intro v hv
    have hpde : pdeOf m.phys m.root (dirIndex v) = sym.lowmemPt ||| pagePerm ∨
        pdeOf m.phys m.root (dirIndex v) = sym.kernelPt ||| pagePerm := by
      rw [hroot]
      rcases hv with ⟨_, hlow⟩ | ⟨_, hlow, hhigh⟩
      · have hdir : dirIndex v = 0 := by
          unfold dirIndex
          omega
        rw [hdir]
        exact .inl hm.lowPde
      · rw [h.kernelStart] at hlow
        rw [h.kernelEnd] at hhigh
        have hdir : dirIndex v = 768 := by
          unfold dirIndex
          omega
        rw [hdir]
        exact .inr hm.kernelPde
    rcases hpde with hpde | hpde
    · rw [hpde, (bootEntry (by omega : sym.lowmemPt.toNat % 4096 = 0)).2.2]
      omega
    · rw [hpde, (bootEntry (by omega : sym.kernelPt.toNat % 4096 = 0)).2.2]
      omega

/-! ## A machine that has booted -/

/-- A kernel of two megabytes, with the heap in the second one. -/
def bootLayout : Layout where
  kernelStart := 0xC0106000#32
  kernelEnd := 0xC0306000#32
  earlyKmallocStart := 0xC0200000#32
  earlyKmallocEnd := 0xC0300000#32
  pageFaultHandler := 0xC0107000#32

/-- What `kmain` has set up in front of `init_paging`, on a full screen. -/
def beforePaging (s : Kernel Mmu) : Kernel Mmu :=
  { s with
    alloc := .earlyInit 0xC0200000#32 0xC0300000#32
    vga := { x := 0, y := 24, vgaBuff := vgaAddress, pos := 1920 } }

/-- Where a run ends. One that stops early ends nowhere the machine has been. -/
def endOf : Except Stop (Unit × Kernel Mmu) → Kernel Mmu
  | .ok (_, s) => s
  | .error _ => loaded

/-- The state in front of `init_paging`. -/
def booted : Kernel Mmu :=
  beforePaging (endOf (start (bootSymbols 0xC0306000#32) 0x2BADB002#32 0x9500#32 loaded))

theorem bootLayout_linked : bootLayout.Linked := by
  constructor <;> decide

theorem booted_beforePaging : BeforePaging bootLayout booted := by
  have hlinked : (bootSymbols 0xC0306000#32).Linked := bootSymbols_linked (by decide) (by decide)
  obtain ⟨s', m, hrun, hm, hmem⟩ := start_run hlinked (s := loaded) rfl 0x2BADB002#32 0x9500#32
  have hbooted : booted = beforePaging s' := congrArg (fun r => beforePaging (endOf r)) hrun
  have hon : ({ phys := m, cr0 := 0x80000011#32, cr3 := 0x103000#32 } : Mmu).pagingOn = true := by
    simp [Mmu.pagingOn]
  have hrow : (24#8).toNat = 24 := by decide
  have hpos : (1920#32).toNat = 1920 := by decide
  subst hmem
  rw [hbooted]
  refine ⟨?_, rfl, Alloc.earlyInit_inHeap (by decide), rfl, ?_, ?_⟩
  · exact BootFilled.bootMapped hlinked ⟨rfl, rfl, by decide⟩ hm hon rfl (by decide)
  · exact Nat.le_of_eq hrow
  · show (1920#32).toNat ≤ vgaWidth * (24#8).toNat + 80
    rw [hpos, hrow]
    decide

theorem booted_heapRoom : HeapRoom booted := by
  show roundUp (0xC0200000#32).toNat + 0x5000 ≤ (0xC0300000#32).toNat
  decide

/-! ## init_paging -/

variable {s : Kernel Mmu}

/-- `init_paging` builds exactly the address space it is for, and the pages of the kernel keep their
frames when it switches to it. It comes back if there is room for its tables. -/
theorem initPaging_initial (hl : layout.Linked) (h : BeforePaging layout s) :
    ReturnsIf (HeapRoom s) (initPaging layout) s fun _ s' => s'.mem.pagingOn = true ∧
      (∀ v : Word, v.toNat < 0x100000 →
        s'.mem.walk v = some { frame := 4096 * pageOf v, writable := true }) ∧
      (∀ v : Word, layout.kernelStart.toNat ≤ v.toNat → v.toNat < roundUp layout.kernelEnd.toNat →
        s'.mem.walk v = some { frame := 4096 * pageOf v - 0xC0000000, writable := true } ∧
        (s'.mem.walk v).map Leaf.frame = (s.mem.walk v).map Leaf.frame) ∧
      ∀ v : Word, 0x100000 ≤ v.toNat →
        (v.toNat < layout.kernelStart.toNat ∨ roundUp layout.kernelEnd.toNat ≤ v.toNat) →
        s'.mem.walk v = none := by
  refine (initPaging_returnsIf h hl).mono fun _ s' hafter => ⟨hafter.switched.on, ?_, ?_, ?_⟩
  · intro v hv
    rw [hafter.walk, Layout.initial, if_pos hv]
  · intro v hlow hhigh
    have hgt := hl.start_gt
    have hmod := hl.start_mod
    have hwalk : s'.mem.walk v = some { frame := 4096 * pageOf v - 0xC0000000, writable := true } := by
      rw [hafter.walk, Layout.initial, if_neg (by omega), if_pos ⟨hlow, hhigh⟩]
    refine ⟨hwalk, ?_⟩
    -- the first address of the page
    have hpage : (BitVec.ofNat 32 (4096 * pageOf v)).toNat = 4096 * pageOf v := by
      have hv := v.isLt
      rw [BitVec.toNat_ofNat]
      unfold pageOf
      omega
    have hend : 4096 * pageOf v < layout.kernelEnd.toNat := by
      unfold pageOf
      unfold roundUp at hhigh
      omega
    have hfrom : layout.kernelStart.toNat ≤ 4096 * pageOf v := by
      unfold pageOf
      omega
    obtain ⟨w, hold⟩ := h.mapped.kernel (BitVec.ofNat 32 (4096 * pageOf v))
      ⟨by omega, by omega, by omega⟩
    have hsame : pageOf v = pageOf (BitVec.ofNat 32 (4096 * pageOf v)) := by
      have hdiv : pageOf (BitVec.ofNat 32 (4096 * pageOf v)) = 4096 * pageOf v / 4096 :=
        congrArg (· / 4096) hpage
      omega
    have hphys : physOf (BitVec.ofNat 32 (4096 * pageOf v)) = 4096 * pageOf v - 0xC0000000 :=
      congrArg (· - 0xC0000000) hpage
    have holdwalk : s.mem.walk v = some { frame := 4096 * pageOf v - 0xC0000000, writable := w } := by
      rw [Mmu.walk, lookup_congr hsame, ← hphys]
      exact hold
    rw [hwalk, holdwalk]
    rfl
  · intro v hlow hout
    rw [hafter.walk, Layout.initial, if_neg (by omega), if_neg (by omega)]

theorem initPaging_initial_booted : Returns (initPaging bootLayout) booted fun _ s' =>
    s'.mem.walk 0x1000#32 = some { frame := 0x1000, writable := true } ∧
      s'.mem.walk 0xC0200000#32 = some { frame := 0x200000, writable := true } ∧
      s'.mem.walk 0x400000#32 = none := by
  have hinitial := (initPaging_initial bootLayout_linked booted_beforePaging).2 booted_heapRoom
  refine hinitial.mono fun _ s' h => ⟨?_, ?_, ?_⟩
  · exact h.2.1 0x1000#32 (by decide)
  · exact (h.2.2.1 0xC0200000#32 (by decide) (by decide)).1
  · exact h.2.2.2 0x400000#32 (by decide) (.inl (by decide))

/-! ## Behind init_paging -/

/-- The state behind `init_paging`. -/
@[irreducible] def pagingUp : Kernel Mmu := endOf (initPaging bootLayout booted)

theorem pagingUp_run : initPaging bootLayout booted = .ok ((), pagingUp) := by
  obtain ⟨_, s', hrun, _⟩ := (initPaging_returnsIf booted_beforePaging bootLayout_linked).2 booted_heapRoom
  have hend : pagingUp = s' := by
    unfold pagingUp
    exact congrArg endOf hrun
  rw [hend]
  exact hrun

theorem pagingUp_after : AfterPaging bootLayout booted pagingUp :=
  (initPaging_returnsIf booted_beforePaging bootLayout_linked).1 _ _ pagingUp_run

/-- The tables of the first megabyte and of the kernel are the only ones. -/
theorem pagingUp_present {i : Nat} (hi : i < 1024) :
    Entry.present (dirOf pagingUp.mem.phys pagingUp.paging i) = true ↔ i = 0 ∨ i = 768 := by
  constructor
  · intro hp
    obtain ⟨v, rfl, hv⟩ := pagingUp_after.used i hi hp
    have hstart : bootLayout.kernelStart.toNat = 0xC0106000 := by decide
    have hend : roundUp bootLayout.kernelEnd.toNat = 0xC0306000 := by decide
    unfold Layout.initial at hv
    rw [hstart, hend] at hv
    unfold dirIndex
    by_contra hout
    rw [if_neg (by omega), if_neg (by omega)] at hv
    exact hv rfl
  · intro hi'
    have hpage : ∃ v l, dirIndex v = i ∧ pagingUp.mem.walk v = some l := by
      rcases hi' with rfl | rfl
      · exact ⟨0#32, _, rfl, (pagingUp_after.walk _).trans (if_pos (by decide))⟩
      · exact ⟨0xC0200000#32, _, by decide, (pagingUp_after.walk _).trans
          ((if_neg (by decide)).trans (if_pos (by decide)))⟩
    obtain ⟨v, l, rfl, hwalk⟩ := hpage
    rw [pagingUp_after.switched.walk_eq] at hwalk
    exact (lookup_some hwalk).1

theorem pagingUp_dir : pagingUp.paging.pageDirectory.toNat = 0xC0200000 := by
  rw [pagingUp_after.dir]
  rfl

theorem pagingUp_base : pagingUp.alloc.currentBase.toNat = 0xC0204000 := by
  have hcounted := pagingUp_after.counted
  have hdir := pagingUp_dir
  have hmissing : ∀ i, i < 1024 → missing pagingUp.mem.phys pagingUp.paging i = if i = 0 ∨ i = 768 then 0 else 1 :=
    fun i hi => if_congr (pagingUp_present hi) rfl rfl
  rw [TablesCounted, hmissing 0 (by decide), hmissing 768 (by decide), hmissing 769 (by decide), hdir] at hcounted
  simp at hcounted
  omega

theorem pagingUp_row : pagingUp.vga.y.toNat = 24 := by
  have hle := pagingUp_after.switched.console.row
  exact Nat.le_antisymm hle pagingUp_after.row

end Booted

end LizaOS
