-- SUMMARY: How much of the boot module can be read once it is mounted, and a module without files that is mounted whatever its size.
import LizaOS.Drivers.RamdiskSafety
import LizaOS.Kernel.BootModule
import LizaOS.Mm.Booted

/-!
# The boot module is mounted

`kmain` takes a page from the heap for the module and maps this page. The driver's next block is the page
behind it, so of a longer module the second page is an inode.
-/

namespace LizaOS

open Exec

section Mount

variable {layout : Layout} {s₀ s k s' : Kernel Mmu} {md : BootModule} {mbi : Word} {sym : RamdiskSymbols}

/-- A module that has been mounted can be read if it has no more than a page. Whatever the size, it cannot
if it has more. -/
theorem kmainMount_readable (hl : layout.Linked) (hbefore : BeforePaging layout s₀)
    (hinit : initPaging layout s₀ = .ok ((), s)) (hk : Resumed s k) (hrun : kmainMount sym mbi k = .ok (md, s')) :
    (ModuleReadable md s' → md.size.toNat ≤ 4096) ∧
      (md.Apart layout → (ModuleReadable md s' ↔ md.size.toNat ≤ 4096)) := by
  have hafter := (initPaging_returnsIf hbefore hl).1 _ _ hinit
  obtain ⟨md', s₁, hmodule, hmount⟩ := bind_ok.mp hrun
  obtain ⟨root, s₂, hramdisk, hpure⟩ := bind_ok.mp hmount
  cases hpure
  have hmapped := kmainModule_mapped hl hafter hk hmodule
  have hnot := hmapped.not_readable hl hramdisk
  exact ⟨hnot, fun hapart => ⟨hnot, fun hsize => hmapped.readable hl hapart hsize hramdisk⟩⟩

end Mount

/-! ## A module without files -/

section Listed

variable {layout : Layout} {s₀ s k s' : Kernel Mmu} {md : BootModule} {mbi modsAddr modStart modEnd a : Word}
  {sym : RamdiskSymbols} {dir : Word} {cur f : Nat}

/-- What the boot loader has left: the list is found through `mbi`, and the first module of the list has no
files. It is all beside the tables. -/
structure Listed (cur : Nat) (mbi modsAddr modStart modEnd : Word) (k : Kernel Mmu) : Prop where
  info_low : (mbi + BitVec.ofNat 32 multibootModsAddr).toNat < 0x100000
  info_page : (mbi + BitVec.ofNat 32 multibootModsAddr).toNat % 4096 + 4 ≤ 4096
  mods : k.mem.phys.read32 (mbi + BitVec.ofNat 32 multibootModsAddr).toNat = modsAddr
  mods_mod : modsAddr.toNat % 4096 = 0
  mods_off : ∀ x, InFrame modsAddr.toNat x → ¬StructureFrames k.paging cur x
  start : k.mem.phys.read32 modsAddr.toNat = modStart
  start_mod : modStart.toNat % 4096 = 0
  start_off : ∀ x, InFrame modStart.toNat x → ¬StructureFrames k.paging cur x
  stop : k.mem.phys.read32 (modsAddr.toNat + multibootModuleEnd) = modEnd
  nfiles : k.mem.phys.read32 modStart.toNat = 0#32

theorem Switched.load32_returns (h : Switched layout s cur) (hf : (s.mem.walk a).map Leaf.frame = some f)
    (ha : a.toNat % 4096 + 4 ≤ 4096) :
    Returns (load32 a) s fun w s' => s.mem.phys.read32 (f + a.toNat % 4096) = w ∧ s = s' := by
  obtain ⟨l, hl, rfl⟩ := Option.map_eq_some_iff.mp hf
  exact .of_eq (load32_seen (h.seen ⟨l.writable, hl⟩) ha) ⟨rfl, rfl⟩

theorem four_pageOf (v : Word) : 4096 * pageOf v + v.toNat % 4096 = v.toNat := by
  unfold pageOf
  omega

/-- A page that has been mapped shows what was in its frame before. -/
theorem Remapped.load32_returns {v phys : Word} (h : Remapped layout dir cur v phys s s')
    (hoff : ∀ x, InFrame phys.toNat x → ¬StructureFrames s.paging cur x) (hav : pageOf a = pageOf v)
    (ha : a.toNat % 4096 + 4 ≤ 4096) :
    Returns (load32 a) s' fun w s'' => s.mem.phys.read32 (phys.toNat + a.toNat % 4096) = w ∧ s' = s'' := by
  obtain ⟨g₀, g₁, hrunning⟩ := h.running
  have hframe : (s'.mem.walk a).map Leaf.frame = some phys.toNat := by
    rw [h.walk, if_pos hav]
  rw [← h.stores.read32 fun k hk => hoff _ ⟨by omega, by omega⟩]
  exact hrunning.toSwitched.load32_returns hframe ha

/-- The module is found and its page is mapped, if the heap has two pages. -/
theorem kmainModule_returns (hl : layout.Linked) (hafter : AfterPaging layout s₀ s) (hk : Resumed s k)
    (hlisted : Listed s.alloc.currentBase.toNat mbi modsAddr modStart modEnd k)
    (hroom : roundUp s.alloc.currentBase.toNat + 2 * 4096 ≤ layout.earlyKmallocEnd.toNat) :
    Returns (kmainModule mbi) k fun md s' => md.modStart = modStart ∧ md.modEnd = modEnd ∧
      md.modNewAddr.toNat = roundUp s.alloc.currentBase.toNat + 4096 ∧
      s'.mem.phys.read32 modStart.toNat = 0#32 := by
  obtain ⟨hinfo, hinfopage, hmods, hmodsmod, hmodsoff, hstart, hstartmod, hstartoff, hstop, hnfiles⟩ := hlisted
  obtain ⟨hk', hwalk⟩ := hk.running hl hafter
  have halloc := hk.alloc
  have hlow := hafter.switched.low
  have hcur := hafter.switched.tables.cur_ge
  have hgt := hl.start_gt
  have hround := le_roundUp s.alloc.currentBase.toNat
  have hround' := roundUp_mod s.alloc.currentBase.toNat
  have hsize : (BitVec.ofNat 32 multibootModuleSize).toNat = 16 := by decide
  have hsecond : (BitVec.ofNat 32 multibootModuleEnd).toNat = 4 := by decide
  -- the list is found
  refine (hk'.take_returns hl (by decide) (by decide) (by rw [halloc]; omega)).bind fun loc k₁ h₁ => ?_
  have haddr₁ := h₁.addr
  have hbase₁ := h₁.base
  rw [halloc] at haddr₁
  have hinfomap : (k₁.mem.walk (mbi + BitVec.ofNat 32 multibootModsAddr)).map Leaf.frame =
      some (4096 * pageOf (mbi + BitVec.ofNat 32 multibootModsAddr)) := by
    rw [h₁.mem, hwalk, Layout.initial, if_pos hinfo]
    rfl
  refine (h₁.running.toSwitched.load32_returns hinfomap hinfopage).bind ?_
  rintro _ _ ⟨rfl, rfl⟩
  rw [four_pageOf, h₁.mem, hmods]
  -- its page is mapped
  have hlocmap : ∃ f, (k₁.mem.walk loc).map Leaf.frame = some f := by
    rw [h₁.mem, hwalk]
    exact initial_heap hl (by omega) (by omega)
  refine (h₁.running.remap_returns (by omega) (by omega) hlocmap (by omega) hmodsmod).bind fun _ k₃ h₃ => ?_
  obtain ⟨g₀, g₁, hrunning₃⟩ := h₃.running
  have hpaging₁ := h₁.paging
  rw [← hpaging₁] at hmodsoff
  -- its first entry is read
  have hlocmod : loc.toNat % 4096 = 0 := by omega
  have hoffset : multibootModuleEnd = 4 := rfl
  have hlocend : (loc + BitVec.ofNat 32 multibootModuleEnd).toNat % 4096 = multibootModuleEnd := by
    rw [toNat_add_ofNat (by omega)]
    omega
  refine (h₃.load32_returns hmodsoff (pageOf_add (by omega)) (by omega)).bind ?_
  rintro _ _ ⟨rfl, rfl⟩
  refine (h₃.load32_returns hmodsoff rfl (by omega)).bind ?_
  rintro _ _ ⟨rfl, rfl⟩
  rw [hlocend, hlocmod, h₁.mem, Nat.add_zero, hstart, hstop]
  -- the page for the module
  have hroom₃ : roundUp k₃.alloc.currentBase.toNat = loc.toNat + 4096 := by
    rw [h₃.alloc, hbase₁, hsize]
    unfold roundUp
    omega
  refine (hrunning₃.take_returns hl (by decide) (by decide) (by omega)).bind fun addr k₄ h₄ => ?_
  have haddr₄ := h₄.addr
  have hpage : pageOf addr ≠ pageOf loc := by
    unfold pageOf
    omega
  have hlocmap₄ : (k₄.mem.walk loc).map Leaf.frame = some modsAddr.toNat := by
    rw [h₄.mem, h₃.walk, if_pos rfl]
  have hstart₄ : k₄.mem.phys.read32 (modsAddr.toNat + loc.toNat % 4096) = modStart := by
    rw [hlocmod, Nat.add_zero, h₄.mem, h₃.stores.read32 fun i hi => hmodsoff _ ⟨by omega, by omega⟩, h₁.mem, hstart]
  refine (h₄.running.toSwitched.load32_returns hlocmap₄ (by omega)).bind ?_
  rintro _ _ ⟨rfl, rfl⟩
  rw [hstart₄]
  have haddrmap : ∃ f, (k₄.mem.walk addr).map Leaf.frame = some f := by
    rw [h₄.mem, h₃.walk, if_neg hpage, h₁.mem, hwalk]
    exact initial_heap hl (by omega) (by omega)
  refine (h₄.running.remap_returns (by omega) (by omega) haddrmap (by omega) hstartmod).bind fun _ k₅ h₅ => ?_
  refine .of_eq rfl ⟨rfl, rfl, by dsimp only; omega, ?_⟩
  have hpaging₄ := h₄.paging
  have hpaging₃ := h₃.paging
  rw [← hpaging₁] at hstartoff
  rw [h₅.stores.read32 fun i hi => ?_, h₄.mem, h₃.stores.read32 fun i hi => hstartoff _ ⟨by omega, by omega⟩, h₁.mem,
    hnfiles]
  rw [hpaging₄, hpaging₃]
  exact hstartoff _ ⟨by omega, by omega⟩

/-- The driver may have a page of the heap behind the page of the module. -/
theorem ModuleMapped.heapPage (h : ModuleMapped layout dir cur md s) (hl : layout.Linked)
    (hv : md.modNewAddr.toNat + 4096 ≤ a.toNat) (htop : a.toNat < layout.earlyKmallocEnd.toNat)
    (hmod : a.toNat % 4096 = 0) : HeapPage (MountSpace cur md s) (MountStores md) a := by
  obtain ⟨g₀, g₁, hrunning⟩ := h.running
  have hlow := hrunning.low
  have hcur := hrunning.tables.cur_ge
  have habove := h.above
  obtain ⟨f, hf⟩ := initial_heap hl (by omega) htop
  rw [← h.rest a (.inr hv)] at hf
  refine ⟨?_, .inr (by omega), hmod⟩
  rintro m g ⟨⟨phys, rfl, hagree⟩, _⟩
  exact ⟨_, f, (h.seen hf).agree hagree⟩

/-- A module that says it has no files is mounted, if the heap has two more pages. -/
theorem ModuleMapped.ramdiskInit_returns (sym : RamdiskSymbols) (h : ModuleMapped layout dir cur md s) (hl : layout.Linked)
    (hapart : md.Apart layout) (hzero : s.mem.phys.read32 md.modStart.toNat = 0#32)
    (hroom : md.modNewAddr.toNat + 3 * 4096 ≤ layout.earlyKmallocEnd.toNat) :
    Returns (ramdiskInit sym md.modNewAddr md.size) s fun _ _ => True := by
  obtain ⟨g₀, g₁, hrunning⟩ := h.running
  have hin := hrunning.heap
  have haddr := h.addr_mod
  have hbase := h.base
  have hhigh := hl.heap_high
  have hend := hl.start_le
  have hlen := hl.size_lt
  have hinode : (BitVec.ofNat 32 inodeSize).toNat = 184 := by decide
  have hround₀ : roundUp s.alloc.currentBase.toNat = md.modNewAddr.toNat + 4096 := by
    unfold roundUp
    omega
  have hsmall : (BitVec.ofNat 32 inodeSize).toNat ≤ 4096 := by decide
  obtain ⟨root, a₁, hroot⟩ := Alloc.kmallocEarlyAlign_total hin hsmall (by omega)
  obtain ⟨hrootaddr, hbase₁, hin₁⟩ := Alloc.kmallocEarlyAlign_small hin (by omega) (by decide) (by decide) hroot
  have hround₁ : roundUp a₁.currentBase.toNat = root.toNat + 4096 := by
    unfold roundUp
    omega
  obtain ⟨dev, a₂, hdev⟩ := Alloc.kmallocEarlyAlign_total hin₁ hsmall (by omega)
  obtain ⟨hdevaddr, _, hin₂⟩ := Alloc.kmallocEarlyAlign_small hin₁ (by omega) (by decide) (by decide) hdev
  have hheld : Held (MountSpace cur md s) s.alloc s.ramdisk s :=
    ⟨⟨⟨s.mem.phys, rfl, .refl _⟩, hrunning.console⟩, rfl, rfl⟩
  have hstays : Stays (MountSpace cur md s) md.modNewAddr := by
    rintro m g ⟨⟨phys, rfl, hagree⟩, _⟩
    exact ⟨_, _, (h.seen h.own).agree hagree⟩
  refine LizaOS.ramdiskInit_returns (h.fenced hl hapart) hheld hroot (h.heapPage hl ?_ ?_ ?_) hdev
    (h.heapPage hl ?_ ?_ ?_) hin₂.initialized hstays ?_ (fun m g n hm hload => ?_) (h.printed hapart 0#32)
  all_goals try omega
  rw [h.counted ⟨m, g, hm, hload⟩, hzero]

/-- A module without files is mounted whatever its size, if it lies beside the kernel and the heap has four
pages. -/
theorem kmainMount_returns (hl : layout.Linked) (hafter : AfterPaging layout s₀ s) (hk : Resumed s k)
    (hlisted : Listed s.alloc.currentBase.toNat mbi modsAddr modStart modEnd k)
    (hapart : ∀ md : BootModule, md.modStart = modStart → md.Apart layout)
    (hroom : roundUp s.alloc.currentBase.toNat + 4 * 4096 ≤ layout.earlyKmallocEnd.toNat) :
    Returns (kmainMount sym mbi) k fun md _ => md.modStart = modStart ∧ md.modEnd = modEnd := by
  obtain ⟨md, s₁, hrun, hstart, hend, haddr, hzero⟩ := kmainModule_returns hl hafter hk hlisted (by omega)
  have hmapped := kmainModule_mapped hl hafter hk hrun
  rw [← hstart] at hzero
  obtain ⟨root, s₂, hmount, _⟩ := hmapped.ramdiskInit_returns sym hl (hapart md hstart) hzero (by omega)
  refine ⟨md, s₂, ?_, hstart, hend⟩
  rw [kmainMount, bind_run hrun, bind_run hmount]
  rfl

end Listed

/-! ## A module of any size -/

/-- A list of modules at 0x1000, found through the structure at 0x500, and a module without files at 0x400000. -/
def moduleMemory (m : Bytes) (modEnd : Word) : Bytes :=
  (((m.write32 0x518 0x1000#32).write32 0x1000 0x400000#32).write32 0x1004 modEnd).write32 0x400000 0#32

section Memory

variable {s : Kernel Mmu} {f : Word}

/-- The tables are where `init_paging` has put them on the machine that has booted. -/
structure TablesAt (s : Kernel Mmu) : Prop where
  dir : s.paging.pageDirectory.toNat = 0xC0200000
  base : s.alloc.currentBase.toNat = 0xC0204000

theorem TablesAt.frames (h : TablesAt s) {x : Nat} :
    StructureFrames s.paging s.alloc.currentBase.toNat x ↔ 0x200000 ≤ x ∧ x < 0x204000 := by
  have hdir := h.dir
  have hbase := h.base
  unfold StructureFrames physOf
  omega

theorem TablesAt.resumed (h : TablesAt s) (hstart : s.vga.LineStart) (modEnd : Word) :
    Resumed s (s.withPhys (moduleMemory s.mem.phys modEnd)) := by
  refine ⟨⟨⟨_, rfl, ?_⟩, rfl⟩, rfl, hstart⟩
  have hword : ∀ (m : Bytes) (p : Nat) (w : Word), p + 4 ≤ 0x200000 ∨ 0x204000 ≤ p →
      AgreeOff (fun x => ¬StructureFrames s.paging s.alloc.currentBase.toNat x) m (m.write32 p w) := by
    intro m p w hp
    refine .write32 fun i hi hx => ?_
    have hin := h.frames.mp hx
    omega
  exact (((hword _ _ _ (by decide)).trans (hword _ _ _ (by decide))).trans (hword _ _ _ (by decide))).trans
    (hword _ _ _ (by decide))

theorem TablesAt.listed (h : TablesAt s) (modEnd : Word) : Listed s.alloc.currentBase.toNat 0x500#32 0x1000#32
    0x400000#32 modEnd (s.withPhys (moduleMemory s.mem.phys modEnd)) := by
  have hoff : ∀ f : Word, f.toNat + 4096 ≤ 0x200000 ∨ 0x204000 ≤ f.toNat → ∀ x, InFrame f.toNat x →
      ¬StructureFrames s.paging s.alloc.currentBase.toNat x := by
    rintro f hf x ⟨hlow, hhigh⟩ hx
    have hin := h.frames.mp hx
    omega
  refine ⟨by decide, by decide, ?_, by decide, hoff _ (by decide), ?_, by decide, hoff _ (by decide), ?_, ?_⟩
  · show (moduleMemory s.mem.phys modEnd).read32 0x518 = _
    rw [moduleMemory, Bytes.read32_write32_other (by decide), Bytes.read32_write32_other (by decide),
      Bytes.read32_write32_other (by decide), Bytes.read32_write32_same]
  · show (moduleMemory s.mem.phys modEnd).read32 0x1000 = _
    rw [moduleMemory, Bytes.read32_write32_other (by decide), Bytes.read32_write32_other (by decide),
      Bytes.read32_write32_same]
  · show (moduleMemory s.mem.phys modEnd).read32 0x1004 = _
    rw [moduleMemory, Bytes.read32_write32_other (by decide), Bytes.read32_write32_same]
  · show (moduleMemory s.mem.phys modEnd).read32 0x400000 = _
    rw [moduleMemory, Bytes.read32_write32_same]

end Memory

theorem pagingUp_tablesAt : TablesAt pagingUp := ⟨pagingUp_dir, pagingUp_base⟩

/-- The machine behind `init_paging`, with the module in memory. -/
def moduleUp (modEnd : Word) : Kernel Mmu := pagingUp.withPhys (moduleMemory pagingUp.mem.phys modEnd)

theorem moduleUp_resumed (modEnd : Word) : Resumed pagingUp (moduleUp modEnd) :=
  pagingUp_tablesAt.resumed pagingUp_after.switched.console modEnd

theorem moduleUp_apart {md : BootModule} (h : md.modStart = 0x400000#32) : md.Apart bootLayout := by
  refine ⟨?_, .inr ?_⟩
  · rw [h]
    decide
  · rw [h]
    decide

/-- A module is mounted whatever its size. -/
theorem moduleUp_returns (modEnd : Word) : Returns (kmainMount tinySymbols 0x500#32) (moduleUp modEnd) fun md _ =>
    md.modStart = 0x400000#32 ∧ md.modEnd = modEnd := by
  refine kmainMount_returns bootLayout_linked pagingUp_after (moduleUp_resumed modEnd)
    (pagingUp_tablesAt.listed modEnd) (fun _ => moduleUp_apart) ?_
  rw [pagingUp_base]
  decide

theorem kmainMount_readable_page : ∃ md s', kmainMount tinySymbols 0x500#32 (moduleUp 0x401000#32) = .ok (md, s') ∧
    md.size = 0x1000#32 ∧ ModuleReadable md s' := by
  obtain ⟨md, s', hrun, hstart, hend⟩ := moduleUp_returns 0x401000#32
  have hsize : md.size = 0x1000#32 := by
    rw [BootModule.size, hstart, hend]
    decide
  have hreadable := (kmainMount_readable bootLayout_linked booted_beforePaging pagingUp_run
    (moduleUp_resumed 0x401000#32) hrun).2 (moduleUp_apart hstart)
  refine ⟨md, s', hrun, hsize, hreadable.mpr ?_⟩
  rw [hsize]
  decide

end LizaOS
