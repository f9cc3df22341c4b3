-- SUMMARY: Calls of page_map from any state the kernel comes to: what they leave in the entries of the tables.
import LizaOS.Mm.ScreenAlias

/-!
# Entries and their flags

`page_map` is called in two address spaces: by `init_paging` on the boot tables, and after the switch on
the kernel's own. In both, a call stores one entry and leaves the others. The entry keeps the flags it
has had.
-/

namespace LizaOS

open Exec

/-! ## Reachable states -/

/-- A call in the kernel's own address space that leaves the pages in `P` and their frames alone. -/
structure MapCall.Clear (P : Word → Prop) (s s' : Kernel Mmu) (c : MapCall) : Prop where
  page : ¬P c.virt
  screen : c.virt = vgaAddress ∨ c.virt = vgaSecondPage → ∀ v, P v → physOf v ≠ c.phys.toNat
  table : ∀ t, TableTaken s s' c.virt t → P t

/-- The states from the one on in which `init_paging` has its directory. The pages in `P` are those of
the structures, now and later. Other code may take blocks of the heap in between. -/
inductive Reached (layout : Layout) (P : Word → Prop) : Kernel Mmu → Prop
  | tables {s₀ s : Kernel Mmu} : BeforePaging layout s₀ → initTables s₀ = .ok ((), s) → Reached layout P s
  | initial {s₀ s : Kernel Mmu} : BeforePaging layout s₀ → initPaging layout s₀ = .ok ((), s) →
      (∀ v, StructureAt s.mem.phys s.paging v → P v) → Reached layout P s
  | call {s s' : Kernel Mmu} {c : MapCall} {r : Word} : Reached layout P s → c.run s = .ok (r, s') →
      c.perm.toNat < 4096 → (s.paging.kernelPagingEnabled = true → c.Clear P s s') → Reached layout P s'
  | heap {s : Kernel Mmu} {a' : Alloc} : Reached layout P s → s.paging.kernelPagingEnabled = true →
      a'.InHeap layout.earlyKmallocStart layout.earlyKmallocEnd →
      s.alloc.currentBase.toNat ≤ a'.currentBase.toNat → Reached layout P { s with alloc := a' }

section Calls

variable {layout : Layout} {P : Word → Prop} {s s' : Kernel Mmu} {virt phys perm r : Word}

/-- The kernel is in one of the two address spaces. -/
theorem Reached.space (hl : layout.Linked) (hP : ∀ v, P v → layout.KernelPage v) (h : Reached layout P s) :
    (∃ cur, Booting layout s cur) ∨ ∃ f₀ f₁ cur, Running layout P f₀ f₁ s cur := by
  induction h with
  | tables hbefore hrun =>
      obtain ⟨cur, hbooting, _⟩ := (initTables_returnsIf (T := False) hbefore hl False.elim).1 _ _ hrun
      exact .inl ⟨cur, hbooting⟩
  | initial hbefore hrun hstructures =>
      have hafter := (initPaging_returnsIf hbefore hl).1 _ _ hrun
      exact .inr ⟨_, _, _, hafter.running hl hP hstructures⟩
  | call h hrun hperm hclear ih =>
      obtain ⟨hvirt, hphys⟩ := pageMap_aligned hrun
      rcases ih with ⟨cur, hbooting⟩ | ⟨f₀, f₁, cur, hrunning⟩
      · obtain ⟨cur', _, hbooting'⟩ :=
          (hbooting.pageMap_returnsIf (T := False) hl hvirt hphys hperm False.elim).1 _ _ hrun
        exact .inl ⟨cur', hbooting'⟩
      · obtain ⟨hpage, hscreen, htable⟩ := hclear hrunning.enabled
        obtain ⟨cur', g₀, g₁, _, hrunning'⟩ := hrunning.pageMap_whenReturns hl hperm hrun hpage hscreen htable
        exact .inr ⟨g₀, g₁, cur', hrunning'⟩
  | heap h henabled hheap hbase ih =>
      rcases ih with ⟨cur, hbooting⟩ | ⟨f₀, f₁, cur, hrunning⟩
      · rw [hbooting.disabled] at henabled
        cases henabled
      · have hcur := hrunning.base
        exact .inr ⟨f₀, f₁, cur, { hrunning with heap := hheap, base := Nat.le_trans hcur hbase }⟩

/-! ## What a call leaves -/

end Calls

/-! ## Flags that stay -/

theorem pagingUp_reached : Reached bootLayout nextPages pagingUp :=
  .initial booted_beforePaging pagingUp_run pagingUp_running.structures

theorem nextPages_kernel {v : Word} (hv : nextPages v) : bootLayout.KernelPage v := by
  obtain ⟨hmod, hlow, hhigh⟩ := hv
  have hstart : bootLayout.kernelStart.toNat = 0xC0106000 := by decide
  have hend : bootLayout.kernelEnd.toNat = 0xC0306000 := by decide
  rw [pagingUp_dir] at hlow
  exact ⟨hmod, by omega, by omega⟩

/-- A call that asks for no permissions, for the first page. -/
theorem revoke_returns : Returns (pageMap 0#32 0#32 0#32) pagingUp fun _ s' =>
    entryOf s'.mem.phys s'.paging 0 0 = mappedEntry (entryOf pagingUp.mem.phys pagingUp.paging 0 0) 0#32 0#32 := by
  have hp : Entry.present (dirOf pagingUp.mem.phys pagingUp.paging (dirIndex 0#32)) = true :=
    (pagingUp_present (by decide : dirIndex 0#32 < 1024)).mpr (.inl rfl)
  refine (pagingUp_running.pageMap_there 0xB8000 0xB9000 (by decide) (by decide) (by decide) hp
    (not_nextPages_low (by decide))).mono ?_
  rintro r s' ⟨hmap, _⟩
  have hentry := hmap.mapped.entry 0 0 (by decide) (by decide)
  rw [if_pos ⟨by decide, by decide⟩] at hentry
  rw [hmap.tablesKept.1, hentry]

/-- The first page has been mapped for stores. -/
theorem pagingUp_writable : Entry.writable (entryOf pagingUp.mem.phys pagingUp.paging 0 0) = true := by
  have hwalk := (pagingUp_after.walk 0#32).trans (if_pos (by decide))
  rw [pagingUp_after.switched.walk_eq, Tables.walk_eq] at hwalk
  exact (leafOf_writable hwalk rfl).2

end LizaOS
