-- SUMMARY: The address space the boot tables set up: what the paging code relies on in it, and page_map running in it.
import LizaOS.Mm.PageMapRun

/-!
# In the boot address space

Until `init_paging` switches directories the kernel runs on the tables of the boot code. They map the
memory below the kernel to itself and the kernel to its frames, and they lie below the kernel
themselves. What `page_map` stores to is elsewhere, so they stay as they are.
-/

namespace LizaOS

open Exec

/-- What the linker promises of the layout. -/
structure Layout.Linked (layout : Layout) : Prop where
  start_mod : layout.kernelStart.toNat % 4096 = 0
  start_gt : 0xC0100000 < layout.kernelStart.toNat
  start_le : layout.kernelStart.toNat ≤ 0xC0400000
  start_lt : layout.kernelStart.toNat < layout.kernelEnd.toNat
  size_lt : layout.kernelEnd.toNat - layout.kernelStart.toNat < 0x300000
  heap_low : layout.kernelStart.toNat ≤ layout.earlyKmallocStart.toNat
  heap_high : layout.earlyKmallocEnd.toNat ≤ layout.kernelEnd.toNat

/-- Where the memory below the kernel ends. -/
def Layout.lowEnd (layout : Layout) : Nat := physOf layout.kernelStart

theorem Layout.Linked.start_eq {layout : Layout} (h : layout.Linked) :
    layout.lowEnd + 0xC0000000 = layout.kernelStart.toNat ∧ layout.lowEnd % 4096 = 0 ∧
      0x100000 < layout.lowEnd ∧ layout.lowEnd ≤ 0x400000 := by
  have hgt := h.start_gt
  have hle := h.start_le
  have hmod := h.start_mod
  unfold lowEnd physOf
  omega

/-- A page of the kernel. -/
structure Layout.KernelPage (layout : Layout) (v : Word) : Prop where
  mod : v.toNat % 4096 = 0
  low : layout.kernelStart.toNat ≤ v.toNat
  high : v.toNat < layout.kernelEnd.toNat

/-- A page below the kernel. -/
structure Layout.LowPage (layout : Layout) (v : Word) : Prop where
  mod : v.toNat % 4096 = 0
  high : v.toNat < layout.lowEnd

/-- The tables in CR3 map the memory below the kernel to itself and the kernel to its frames, and lie
between the first megabyte and the kernel. -/
structure BootMapped (m : Mmu) (layout : Layout) : Prop where
  on : m.pagingOn = true
  cr3_mod : m.cr3.toNat % 4096 = 0
  cr3_low : 0x100000 ≤ m.cr3.toNat
  cr3_high : m.cr3.toNat + 4096 ≤ layout.lowEnd
  low : ∀ v, layout.LowPage v → ∃ w, m.walk v = some { frame := v.toNat, writable := w }
  kernel : ∀ v, layout.KernelPage v → ∃ w, m.walk v = some { frame := physOf v, writable := w }
  table : ∀ v, layout.LowPage v ∨ layout.KernelPage v →
    0x100000 ≤ Entry.frame (pdeOf m.phys m.root (dirIndex v)) ∧
      Entry.frame (pdeOf m.phys m.root (dirIndex v)) + 4096 ≤ layout.lowEnd

/-- Memory the boot tables are not in. -/
def BootStores (layout : Layout) (x : Nat) : Prop := x < 0x100000 ∨ layout.lowEnd ≤ x

namespace BootMapped

variable {m : Mmu} {layout : Layout} {v : Word} {phys : Bytes} {f : Nat}

theorem root_eq (h : BootMapped m layout) : m.root = m.cr3.toNat := Entry.frame_of_aligned h.cr3_mod

theorem seen (h : BootMapped m layout) (hin : layout.LowPage v ∨ layout.KernelPage v)
    (hw : ∃ w, m.walk v = some { frame := f, writable := w }) : m.Seen (BootStores layout) v f := by
  have hlow := h.cr3_low
  have hhigh := h.cr3_high
  have hroot := h.root_eq
  have hi := dirIndex_lt v
  have hj := tableIndex_lt v
  obtain ⟨htlow, hthigh⟩ := h.table v hin
  refine ⟨h.on, hw, Steady.of_entries ?_ fun _ => ?_⟩
  · rintro x ⟨hx, hx'⟩ hA
    unfold BootStores at hA
    omega
  · rintro x ⟨hx, hx'⟩ hA
    unfold BootStores at hA
    omega

theorem seen_low (h : BootMapped m layout) (hv : layout.LowPage v) :
    m.Seen (BootStores layout) v v.toNat := h.seen (.inl hv) (h.low v hv)

theorem seen_kernel (h : BootMapped m layout) (hv : layout.KernelPage v) :
    m.Seen (BootStores layout) v (physOf v) := h.seen (.inr hv) (h.kernel v hv)

/-- Stores beside the boot tables leave them in order. -/
theorem agree (h : BootMapped m layout) (hm : AgreeOff (BootStores layout) m.phys phys) :
    BootMapped (m.withPhys phys) layout := by
  have hpde : ∀ v, pdeOf phys m.root (dirIndex v) = pdeOf m.phys m.root (dirIndex v) := by
    intro v
    have hlow := h.cr3_low
    have hhigh := h.cr3_high
    have hroot := h.root_eq
    have hi := dirIndex_lt v
    refine hm.read32 fun k hk hA => ?_
    unfold BootStores at hA
    omega
  refine { h with low := fun v hv => ?_, kernel := fun v hv => ?_, table := fun v hv => ?_ }
  · exact ((h.seen_low hv).agree hm).walk
  · exact ((h.seen_kernel hv).agree hm).walk
  · rw [Mmu.phys_withPhys, Mmu.root_withPhys, hpde v]
    exact h.table v hv

end BootMapped

section Translate

variable {s : Kernel Mmu} {layout : Layout} {v : Word}

/-- Before the switch `virt_to_phys` walks the tables in CR3, which are mapped to themselves. -/
theorem virtToPhys_boot (h : BootMapped s.mem layout) (hl : layout.Linked)
    (hdisabled : s.paging.kernelPagingEnabled = false) (hv : layout.KernelPage v) :
    virtToPhys v s = .ok (v - virtBase, s) := by
  have hcr3mod := h.cr3_mod
  have hcr3high := h.cr3_high
  have hroot := h.root_eq
  have hvlow := hv.low
  have hstart := hl.start_gt
  obtain ⟨w, hwalk⟩ := h.kernel v hv
  obtain ⟨hpde, hpte, hframe⟩ := lookup_some hwalk
  obtain ⟨htlow, hthigh⟩ := h.table v (.inr hv)
  -- the directory
  have hdir := h.seen_low ⟨hcr3mod, by omega⟩
  have hload := load32_dirEntry hdir hcr3mod v
  rw [← hroot] at hload
  have hnotpanic : ¬(pdeOf s.mem.phys s.mem.root (dirIndex v) &&& pageAlign = 0x001010D8#32 ∨
      pdeOf s.mem.phys s.mem.root (dirIndex v) = 0x001010D8#32 ∨ s.mem.cr3 = 0x001010D8#32) := by
    rintro (heq | heq | heq)
    · have hmask := toNat_and_pageAlign (pdeOf s.mem.phys s.mem.root (dirIndex v))
      rw [heq, BitVec.toNat_ofNat] at hmask
      omega
    · rw [heq] at hpde
      exact absurd hpde (by decide)
    · rw [heq, BitVec.toNat_ofNat] at hcr3mod
      omega
  have hpanic : virtToPhysPde (pageDirI v) s = .ok (pdeOf s.mem.phys s.mem.root (dirIndex v), s) := by
    rw [virtToPhysPde, bind_run (get_apply s), hdisabled]
    refine (bind_run (get_apply s)).trans ((bind_run hload).trans ?_)
    exact congrFun (if_neg hnotpanic) s
  -- the table
  have htable := toNat_and_pageAlign (pdeOf s.mem.phys s.mem.root (dirIndex v))
  have hseen := h.seen_low (v := pdeOf s.mem.phys s.mem.root (dirIndex v) &&& pageAlign)
    ⟨by omega, by rw [← Entry.frame_eq]; omega⟩
  have hload' : load32 (entryAddr (pdeOf s.mem.phys s.mem.root (dirIndex v) &&& pageAlign) (pageTableI v)) none s =
      .ok (pteOf s.mem.phys (pdeOf s.mem.phys s.mem.root (dirIndex v)) (tableIndex v), s) := by
    rw [load32_entry hseen (by omega) (by rw [pageTableI_toNat]; exact tableIndex_lt v), ← Entry.frame_eq,
      pageTableI_toNat]
    rfl
  rw [virtToPhys, bind_run hpanic, bind_run (assert_true (Entry.and_present_ne_zero hpde)), bind_run hload',
    bind_run (assert_true (Entry.and_present_ne_zero hpte)), bind_run hload']
  exact congrArg (fun e => Except.ok (e, s)) (Entry.and_pageAlign_eq hframe (by omega))

end Translate

/-! ## page_map before the switch -/

/-- The kernel runs on the boot tables and has its own tables up to `cur`. -/
structure Booting (layout : Layout) (s : Kernel Mmu) (cur : Nat) : Prop where
  mapped : BootMapped s.mem layout
  disabled : s.paging.kernelPagingEnabled = false
  tables : Tables s.mem.phys s.paging cur
  low : layout.kernelStart.toNat ≤ s.paging.pageDirectory.toNat
  heap : s.alloc.InHeap layout.earlyKmallocStart layout.earlyKmallocEnd
  base : s.alloc.currentBase.toNat = cur
  console : s.vga.Ready 480

/-- The frames of the text screen. -/
abbrev BootScreen : Nat → Prop := ScreenFrames 0xB8000 0xB9000

namespace BootMapped

variable {m : Mmu} {layout : Layout} {A : Nat → Prop}

theorem screen (h : BootMapped m layout) (hl : layout.Linked) (hA : ∀ x, A x → BootStores layout x)
    (hscreen : ∀ x, BootScreen x → A x) : ScreenSeen m A 0xB8000 0xB9000 := by
  obtain ⟨_, _, hgt, _⟩ := hl.start_eq
  have hfirst : vgaAddress.toNat = 0xB8000 := by decide
  have hsecond : vgaSecondPage.toNat = 0xB9000 := by decide
  have hseen := (h.seen_low ⟨by omega, by omega⟩ : m.Seen (BootStores layout) vgaAddress vgaAddress.toNat)
  have hseen' := (h.seen_low ⟨by omega, by omega⟩ :
    m.Seen (BootStores layout) vgaSecondPage vgaSecondPage.toNat)
  rw [hfirst] at hseen
  rw [hsecond] at hseen'
  exact ⟨hseen.mono hA, hseen'.mono hA, hscreen⟩

end BootMapped

theorem physOf_add {v : Word} (h : 0xC0000000 ≤ v.toNat) : physOf v + 0xC0000000 = v.toNat :=
  Nat.sub_add_cancel h

/-- The screen is below all kernel frames. -/
theorem bootScreen_low {x : Nat} (hx : BootScreen x) : x < 0x100000 := by
  unfold BootScreen ScreenFrames InFrame at hx
  omega

theorem bootScreen_apart {m : Bytes} {paging : Paging} {cur x : Nat} (h : Tables m paging cur)
    (hx : BootScreen x) : ¬StructureFrames paging cur x := by
  have hlow := bootScreen_low hx
  have hge := h.dir_ge
  have hdir := physOf_add (v := paging.pageDirectory) (by omega)
  rintro ⟨hx', _⟩
  omega

namespace Booting

variable {layout : Layout} {s s' : Kernel Mmu} {cur cur' : Nat} {t virt phys perm r : Word} {a' : Alloc}

/-- Pages of the heap from the directory on are kernel pages. -/
theorem kernelPage (h : Booting layout s cur) (hl : layout.Linked) (ht : t.toNat % 4096 = 0)
    (hlow : s.paging.pageDirectory.toNat ≤ t.toNat) (hhigh : t.toNat < layout.earlyKmallocEnd.toNat) :
    layout.KernelPage t := by
  have hstart := h.low
  have hend := hl.heap_high
  exact ⟨ht, by omega, by omega⟩

theorem cur_le (h : Booting layout s cur) : cur ≤ layout.earlyKmallocEnd.toNat := by
  have hbase := h.base
  have hupper := h.heap.upper
  omega

theorem end_lt (hl : layout.Linked) : layout.earlyKmallocEnd.toNat < 0xC0700000 := by
  have hle := hl.start_le
  have hsize := hl.size_lt
  have hhigh := hl.heap_high
  omega

theorem seen_dir (h : Booting layout s cur) (hl : layout.Linked) :
    s.mem.Seen (BootStores layout) s.paging.pageDirectory (physOf s.paging.pageDirectory) := by
  have hcur := h.tables.cur_ge
  have hle := h.cur_le
  exact h.mapped.seen_kernel (h.kernelPage hl h.tables.dir_mod (Nat.le_refl _) (by omega))

theorem seen_rev (h : Booting layout s cur) (hl : layout.Linked) :
    s.mem.Seen (BootStores layout) s.paging.ptPhysToVirt (physOf s.paging.ptPhysToVirt) := by
  have hcur := h.tables.cur_ge
  have hle := h.cur_le
  have hrev := h.tables.rev_eq
  have hmod := h.tables.dir_mod
  exact h.mapped.seen_kernel (h.kernelPage hl (by omega) (by omega) (by omega))

/-- The frames of the heap are apart from the boot tables. -/
theorem structures_apart (h : Booting layout s cur) (hl : layout.Linked) {top x : Nat}
    (hx : StructureFrames s.paging top x) : BootStores layout x := by
  have hlow := h.low
  have hge := h.tables.dir_ge
  have hdir := physOf_add (v := s.paging.pageDirectory) (by omega)
  obtain ⟨hstart, _⟩ := hl.start_eq
  obtain ⟨hx, _⟩ := hx
  exact .inr (by omega)

/-- What is stored while a table is made is apart from the boot tables. -/
theorem stores_apart (h : Booting layout s cur) (hl : layout.Linked) {i : Nat}
    (hn : TableRoom s.mem.phys s.paging cur i t BootScreen) {x : Nat}
    (hx : TableStores s.paging i (physOf t) BootScreen x) : BootStores layout x := by
  have hslots := fun hx => h.structures_apart hl (h.tables.slots_inside hn.index (x := x) hx)
  rcases hx with hx | hx | hx | hx
  · exact h.structures_apart hl (h.tables.new_inside hn.toTableSpace hx)
  · exact hslots (.inl hx)
  · exact hslots (.inr hx)
  · exact .inl (bootScreen_low hx)

/-- The next page of the heap is free for a table. -/
theorem tableRoom (h : Booting layout s cur) {i : Nat} (hi : i < 1024)
    (hp : Entry.present (dirOf s.mem.phys s.paging i) = false) (ht : t.toNat = cur) :
    TableRoom s.mem.phys s.paging cur i t BootScreen := by
  have hge := h.tables.dir_ge
  have hcur := h.tables.cur_ge
  have hnew := physOf_add (v := t) (by omega)
  have hmod := h.tables.cur_mod
  refine ⟨⟨hi, hp, by omega, by omega, fun x hx hx' => ?_⟩, fun x hx hx' => ?_, ?_⟩
  · exact bootScreen_apart h.tables hx (h.tables.walkFrames_inside hx')
  · exact bootScreen_apart h.tables hx (h.tables.rev_inside hx')
  rintro x hx ⟨hx', _⟩
  have hlow := bootScreen_low hx
  omega

theorem alloc_table (h : Booting layout s cur) (hl : layout.Linked)
    (halloc : Alloc.kmallocEarlyAlign pageTableSize s.alloc = .ok (t, a')) :
    t.toNat = cur ∧ a'.currentBase.toNat = cur + 4096 ∧
      a'.InHeap layout.earlyKmallocStart layout.earlyKmallocEnd := by
  have hend := end_lt hl
  obtain ⟨ht, ha', hheap⟩ := Alloc.kmallocEarlyAlign_table h.heap (by omega) halloc
  rw [h.base, roundUp_of_aligned h.tables.cur_mod] at ht
  exact ⟨ht, by omega, hheap⟩

/-- A call leaves the kernel in the same address space. -/
theorem next (h : Booting layout s cur) (hl : layout.Linked)
    (hmap : PageMapped s s' 0xB8000 0xB9000 cur cur' virt phys perm r) : Booting layout s' cur' := by
  have hstores := hmap.stores
  have htables := hmap.mapped.tables
  have hconsole : s'.vga.Ready 480 := by
    rcases hmap.console with heq | hstart
    · rw [heq]
      exact h.console
    · exact hstart.ready.mono (by omega)
  have hheap : s'.alloc.currentBase.toNat = cur' ∧
      s'.alloc.InHeap layout.earlyKmallocStart layout.earlyKmallocEnd := by
    rcases hmap.heap with ⟨_, heq, hcur⟩ | ⟨t, _, halloc, _, hcur, _⟩
    · rw [heq, hcur]
      exact ⟨h.base, h.heap⟩
    · obtain ⟨ht, ha', hheap⟩ := h.alloc_table hl halloc
      exact ⟨by omega, hheap⟩
  obtain ⟨phys', a', ports, vga, rfl⟩ := hmap.state
  refine ⟨h.mapped.agree (hstores.mono fun x hx => ?_), h.disabled, htables, h.low, hheap.2, hheap.1, hconsole⟩
  rcases hx with hx | hx
  · exact h.structures_apart hl hx
  · exact .inl (bootScreen_low hx)

/-- A call for a page without a table comes back if there is room for one. -/
theorem pageMap_make (h : Booting layout s cur) (hl : layout.Linked) (hvirt : virt.toNat % 4096 = 0)
    (hphys : phys.toNat % 4096 = 0) (hperm : perm.toNat < 4096)
    (hp : Entry.present (dirOf s.mem.phys s.paging (dirIndex virt)) = false)
    (halloc : Alloc.kmallocEarlyAlign pageTableSize s.alloc = .ok (t, a')) :
    Returns (pageMap virt phys perm) s fun r s' =>
      PageMapped s s' 0xB8000 0xB9000 cur (t.toNat + 4096) virt phys perm r := by
  obtain ⟨ht, ha', hheap⟩ := h.alloc_table hl halloc
  have hupper := hheap.upper
  have hcur := h.tables.cur_ge
  have hge := h.tables.dir_ge
  have hfree := h.tableRoom (dirIndex_lt virt) hp ht
  have hA := fun x hx => h.stores_apart hl hfree (x := x) hx
  have hpage := h.kernelPage hl hfree.mod (by omega) (by omega)
  have hnew := h.mapped.seen_kernel hpage
  have hdir := h.seen_dir hl
  have hrev := h.seen_rev hl
  have hview : TableView { s with alloc := a' } (dirIndex virt) t 0xB8000 0xB9000 := by
    refine ⟨hdir.mono hA, hrev.mono hA, hnew.mono hA, h.mapped.screen hl hA fun x hx => .inr (.inr (.inr hx)), ?_⟩
    intro m hm
    refine virtToPhys_boot (h.mapped.agree (hm.mono fun x hx => ?_)) hl h.disabled hpage
    exact h.structures_apart hl (h.tables.new_inside hfree.toTableSpace hx)
  exact pageMap_absent_returns hvirt hphys hperm h.tables hfree halloc hview h.console (by decide)

/-- A call of `page_map` before the switch, for any page. It comes back if there is room for a table. -/
theorem pageMap_returnsIf {T : Prop} (h : Booting layout s cur) (hl : layout.Linked)
    (hvirt : virt.toNat % 4096 = 0) (hphys : phys.toNat % 4096 = 0) (hperm : perm.toNat < 4096)
    (hroom : T → Entry.present (dirOf s.mem.phys s.paging (dirIndex virt)) = false →
      cur + 4096 ≤ layout.earlyKmallocEnd.toNat) :
    ReturnsIf T (pageMap virt phys perm) s fun r s' => ∃ cur',
      PageMapped s s' 0xB8000 0xB9000 cur cur' virt phys perm r ∧ Booting layout s' cur' := by
  have hlt := dirIndex_lt virt
  have hdir := h.seen_dir hl
  have hrev := h.seen_rev hl
  cases hp : Entry.present (dirOf s.mem.phys s.paging (dirIndex virt)) with
  | true =>
      have ht := h.tables.table hlt hp
      have hhigh := ht.high
      have hlow := ht.low
      have hle := h.cur_le
      have hstores : ∀ x, InWord (pteAt s.mem.phys s.paging virt) x → BootStores layout x := fun x hx =>
        h.structures_apart hl (h.tables.table_inside hlt hp (Tables.pteAt_inFrame _ _ _ hx)).2
      have htable := (h.mapped.seen_kernel (h.kernelPage hl ht.mod (by omega) (by omega))).mono hstores
      have hcall := pageMap_present_returns 0xB8000 0xB9000 hvirt hphys hperm h.tables hp hdir hrev htable
      exact .of_returns (hcall.mono fun r s' hmap => ⟨cur, hmap, h.next hl hmap⟩)
  | false =>
      refine ⟨fun r s' hrun => ?_, fun hT => ?_⟩
      · obtain ⟨t, halloc⟩ := pageMap_absent_alloc hvirt hphys h.tables hp hdir hrun
        have hmap := (h.pageMap_make hl hvirt hphys hperm hp halloc).whenReturns r s' hrun
        exact ⟨_, hmap, h.next hl hmap⟩
      · have hbase := h.base
        have hmod := h.tables.cur_mod
        obtain ⟨t, a', halloc⟩ := Alloc.kmallocEarlyAlign_total h.heap (by decide : pageTableSize.toNat ≤ 4096) (by
          rw [hbase, roundUp_of_aligned hmod]
          exact hroom hT hp)
        exact (h.pageMap_make hl hvirt hphys hperm hp halloc).mono fun r s' hmap => ⟨_, hmap, h.next hl hmap⟩

end Booting

end LizaOS
