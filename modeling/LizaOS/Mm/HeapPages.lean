-- SUMMARY: Heap pages that kmain maps elsewhere behind init_paging: the calls come back with every other page as it was.
import LizaOS.Mm.MapRuns

/-!
# Heap pages mapped elsewhere

Behind `init_paging` the kernel takes pages of the heap and maps them to frames it wants to read. The pages
have a table already, so no table is made and nothing is printed.
-/

namespace LizaOS

open Exec

/-- `k` is on the tables of `s`, with anything in memory beside them. -/
structure SameTables (cur : Nat) (s k : Kernel Mmu) : Prop where
  mem : ∃ phys, k.mem = s.mem.withPhys phys ∧
    AgreeOff (fun x => ¬StructureFrames s.paging cur x) s.mem.phys phys
  paging : k.paging = s.paging

section Running

variable {layout : Layout} {P : Word → Prop} {f₀ f₁ cur : Nat} {s k s' : Kernel Mmu} {v phys r : Word}

theorem Running.sameTables (h : Running layout P f₀ f₁ s cur) (hk : SameTables cur s k)
    (hheap : k.alloc.InHeap layout.earlyKmallocStart layout.earlyKmallocEnd)
    (hbase : cur ≤ k.alloc.currentBase.toNat) (hstart : k.vga.LineStart) :
    Running layout P f₀ f₁ k cur ∧ ∀ v, k.mem.walk v = s.mem.walk v := by
  obtain ⟨⟨m, hmem, hm⟩, hpaging⟩ := hk
  have hsame := h.agree hm fun x hx => hx
  have hwalk := h.walk_agree hm fun x hx => hx
  cases k
  cases hmem
  cases hpaging
  refine ⟨⟨⟨⟨hsame.on, hsame.root, hsame.enabled, hsame.tables, hsame.low, hheap, hbase, hstart⟩, hsame.fixed,
    hsame.structures⟩, hsame.first, hsame.second, hsame.screen⟩, hwalk⟩

/-- The page of `v` has been mapped to `phys`, and nothing else has happened. -/
structure Remapped (layout : Layout) (dir : Word) (cur : Nat) (v phys : Word) (s s' : Kernel Mmu) : Prop where
  alloc : s'.alloc = s.alloc
  paging : s'.paging = s.paging
  running : ∃ g₀ g₁, Running layout (StructurePage dir cur) g₀ g₁ s' cur
  walk : ∀ w, (s'.mem.walk w).map Leaf.frame =
    if pageOf w = pageOf v then some phys.toNat else (s.mem.walk w).map Leaf.frame
  stores : AgreeOff (StructureFrames s.paging cur) s.mem.phys s'.mem.phys

/-- A page behind the structures that is mapped already is mapped elsewhere. -/
theorem Running.remap_returns {dir : Word} (h : Running layout (StructurePage dir cur) f₀ f₁ s cur)
    (hv : cur ≤ v.toNat) (hlow : 0xC0000 ≤ v.toNat) (hmapped : ∃ f, (s.mem.walk v).map Leaf.frame = some f)
    (hvirt : v.toNat % 4096 = 0) (hphys : phys.toNat % 4096 = 0) :
    Returns (pageMap v phys pageEntryRw) s fun _ s' => Remapped layout dir cur v phys s s' := by
  obtain ⟨_, hmapped⟩ := hmapped
  obtain ⟨l, hwalk, _⟩ := Option.map_eq_some_iff.mp hmapped
  rw [h.walk_eq] at hwalk
  have hp := (lookup_some hwalk).1
  have hfree : ¬StructurePage dir cur v := fun ⟨_, _, hend⟩ => by omega
  have hperm : pageEntryRw.toNat < 4096 := by decide
  obtain ⟨r, s', hrun, hmap, halloc⟩ := h.pageMap_there f₀ f₁ hvirt hphys hperm hp hfree
  have hnext := h.next hvirt hphys hmap hfree
    (by rintro (rfl | rfl) <;> exact absurd hlow (by decide))
    (fun t htaken => by
      have habsent := htaken.1
      rw [dirOf, hp] at habsent
      cases habsent)
    (by rw [halloc]; exact h.heap) (by rw [halloc]; exact h.base)
  -- nothing is printed, so the screen may be taken to be one of the structures
  obtain ⟨hquiet, _⟩ := (h.pageMap_there (physOf s.paging.pageDirectory) (physOf s.paging.pageDirectory) hvirt hphys
    hperm hp hfree).whenReturns r s' hrun
  have hcur := h.tables.cur_ge
  have hdir := h.tables.dir_ge
  refine .of_eq hrun ⟨halloc, hmap.tablesKept.1, hnext, fun w => ?_, hquiet.stores.mono fun x hx => ?_⟩
  · rw [h.walk_next hmap]
    split
    · rfl
    · rfl
  · unfold ScreenFrames InFrame StructureFrames physOf at *
    omega

theorem Running.remap {dir : Word} (h : Running layout (StructurePage dir cur) f₀ f₁ s cur)
    (hv : cur ≤ v.toNat) (hlow : 0xC0000 ≤ v.toNat) (hmapped : ∃ f, (s.mem.walk v).map Leaf.frame = some f)
    (hrun : pageMap v phys pageEntryRw s = .ok (r, s')) :
    v.toNat % 4096 = 0 ∧ phys.toNat % 4096 = 0 ∧ Remapped layout dir cur v phys s s' := by
  obtain ⟨hvirt, hphys⟩ := pageMap_aligned hrun
  exact ⟨hvirt, hphys, (h.remap_returns hv hlow hmapped hvirt hphys).whenReturns r s' hrun⟩

/-- A block of at most a page has been taken from the heap. -/
structure Taken (layout : Layout) (P : Word → Prop) (f₀ f₁ cur : Nat) (size t : Word) (s s' : Kernel Mmu) : Prop where
  mem : s'.mem = s.mem
  paging : s'.paging = s.paging
  addr : t.toNat = roundUp s.alloc.currentBase.toNat
  base : s'.alloc.currentBase.toNat = t.toNat + size.toNat
  upper : s'.alloc.currentBase.toNat ≤ layout.earlyKmallocEnd.toNat
  running : Running layout P f₀ f₁ s' cur

theorem Running.take {size t : Word} (h : Running layout P f₀ f₁ s cur) (hl : layout.Linked) (hne : size ≠ 0#32)
    (hsize : size.toNat ≤ 4096) (hrun : kmallocEarlyAlign size s = .ok (t, s')) :
    Taken layout P f₀ f₁ cur size t s s' := by
  obtain ⟨⟨_, a'⟩, halloc, hs⟩ := except_map_ok.mp hrun
  cases hs
  obtain ⟨hend, _⟩ := h.end_lt hl
  obtain ⟨ht, htop, hheap⟩ := Alloc.kmallocEarlyAlign_small h.heap (by omega) hne hsize halloc
  have hround := le_roundUp s.alloc.currentBase.toNat
  have hbase := h.base
  have htables : SameTables cur s { s with alloc := a' } := ⟨⟨s.mem.phys, rfl, .refl _⟩, rfl⟩
  have hrunning := (h.sameTables htables hheap (by simp only; omega) h.console).1
  exact ⟨rfl, rfl, ht, htop.symm, hheap.upper, hrunning⟩

theorem Running.take_returns {size : Word} (h : Running layout P f₀ f₁ s cur) (hl : layout.Linked) (hne : size ≠ 0#32)
    (hsize : size.toNat ≤ 4096) (hroom : roundUp s.alloc.currentBase.toNat + 4096 ≤ layout.earlyKmallocEnd.toNat) :
    Returns (kmallocEarlyAlign size) s fun t s' => Taken layout P f₀ f₁ cur size t s s' := by
  have hmax := h.heap.maxBase
  exact .of_whenReturns (fun t s' hrun => h.take hl hne hsize hrun)
    (kmallocEarlyAlign_room h.heap.initialized hne (by rw [hmax]; omega))

end Running

end LizaOS
