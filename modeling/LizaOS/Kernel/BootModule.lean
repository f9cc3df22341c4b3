-- SUMMARY: The boot module that kmain hands to the ramdisk driver: what of it is mapped, and what the driver's heap blocks lie on.
import LizaOS.Drivers.RamdiskFence
import LizaOS.Mm.HeapPages

/-!
# The boot module

The part of `kmain` behind `timer_init`. The first entry of the list of modules is read through a heap page
that is mapped to the list, and another heap page is mapped to the start of the module. One page is all that
is mapped and all that is taken from the heap, whatever the size of the module.
-/

namespace LizaOS

open Exec

/-- `sizeof(multiboot_module_t)`, and the offset of `mod_end`. `mod_start` is the first field. -/
def multibootModuleSize : Nat := 16
def multibootModuleEnd : Nat := 4

/-- The offset of `mods_addr` in `struct multiboot_info`. -/
def multibootModsAddr : Nat := 24

/-- `mod_new_addr`, and the fields of `modules[0]`. -/
structure BootModule where
  modNewAddr : Word
  modStart : Word
  modEnd : Word

def BootModule.size (md : BootModule) : Word := md.modEnd - md.modStart

/-- `kmain` behind `timer_init`, up to the call of `ramdisk_init`. -/
def kmainModule (mbi : Word) : K Mmu BootModule := do
  let newLocation ← kmallocEarlyAlign (BitVec.ofNat 32 multibootModuleSize)
  let modsAddr ← load32 (mbi + BitVec.ofNat 32 multibootModsAddr)
  let _ ← pageMap newLocation modsAddr pageEntryRw
  let modEnd ← load32 (newLocation + BitVec.ofNat 32 multibootModuleEnd)
  let modStart ← load32 newLocation
  let modNewAddr ← kmallocEarlyAlign 4#32
  let modStart' ← load32 newLocation
  let _ ← pageMap modNewAddr modStart' pageEntryRw
  pure { modNewAddr := modNewAddr, modStart := modStart, modEnd := modEnd }

/-- The same, with the call of `ramdisk_init`. -/
def kmainMount (sym : RamdiskSymbols) (mbi : Word) : K Mmu BootModule := do
  let md ← kmainModule mbi
  let _ ← ramdiskInit sym md.modNewAddr md.size
  pure md

/-- The blocks `kmalloc_early_align` has given out behind `mod_new_addr`, with their sizes: two inodes and
the array of inodes. -/
def laterBlocks (s : Kernel Mmu) : List (Word × Word) :=
  [(s.ramdisk.root, BitVec.ofNat 32 inodeSize), (s.ramdisk.dev, BitVec.ofNat 32 inodeSize),
    (s.ramdisk.rootNodes, BitVec.ofNat 32 inodeSize * s.ramdisk.nrootNodes)]

/-- The module can be read where the driver has been given it, and no later block lies on it. -/
structure ModuleReadable (md : BootModule) (s : Kernel Mmu) : Prop where
  translates : ∀ k, k < md.size.toNat →
    s.mem.translate (md.modNewAddr + BitVec.ofNat 32 k) = .ok (md.modStart.toNat + k)
  apart : ∀ b ∈ laterBlocks s, ∀ j k, j < b.2.toNat → k < md.size.toNat →
    b.1 + BitVec.ofNat 32 j ≠ md.modNewAddr + BitVec.ofNat 32 k

/-! ## What is mapped -/

/-- Behind `kmainModule`: the page at `mod_new_addr` is mapped to the start of the module. The pages behind
it, and those below the kernel, are where `init_paging` has mapped them. -/
structure ModuleMapped (layout : Layout) (dir : Word) (cur : Nat) (md : BootModule) (s : Kernel Mmu) : Prop where
  running : ∃ g₀ g₁, Running layout (StructurePage dir cur) g₀ g₁ s cur
  dir_eq : s.paging.pageDirectory = dir
  addr_mod : md.modNewAddr.toNat % 4096 = 0
  start_mod : md.modStart.toNat % 4096 = 0
  above : cur ≤ md.modNewAddr.toNat
  base : s.alloc.currentBase.toNat = md.modNewAddr.toNat + 4
  own : (s.mem.walk md.modNewAddr).map Leaf.frame = some md.modStart.toNat
  rest : ∀ v, v.toNat < 0x110000 ∨ md.modNewAddr.toNat + 4096 ≤ v.toNat →
    (s.mem.walk v).map Leaf.frame = (layout.initial v).map Leaf.frame

section Mapped

variable {layout : Layout} {s₀ s k s₁ : Kernel Mmu} {md : BootModule} {mbi : Word}

theorem load32_same {s s' : Kernel Mmu} {v w : Word} (h : load32 v none s = .ok (w, s')) :
    s' = s ∧ Bus.load32 s.mem v = .ok w := by
  obtain ⟨_, hload, hs⟩ := except_map_ok.mp h
  cases hs
  exact ⟨rfl, hload⟩

/-- A page of the heap is mapped by `init_paging`. -/
theorem initial_heap (hl : layout.Linked) {v : Word} (hlow : layout.kernelStart.toNat ≤ v.toNat)
    (hhigh : v.toNat < layout.earlyKmallocEnd.toNat) : ∃ f, (layout.initial v).map Leaf.frame = some f := by
  have hgt := hl.start_gt
  have hheap := hl.heap_high
  have hround := le_roundUp layout.kernelEnd.toNat
  rw [Layout.initial, if_neg (by omega), if_pos ⟨hlow, by omega⟩]
  exact ⟨_, rfl⟩

/-- The kernel behind `timer_init`, if it was in `s` behind `init_paging`: in between nothing is allocated
and nothing is mapped. Memory beside the tables may hold anything. -/
structure Resumed (s k : Kernel Mmu) : Prop extends SameTables s.alloc.currentBase.toNat s k where
  alloc : k.alloc = s.alloc
  console : k.vga.LineStart

theorem Resumed.running (hl : layout.Linked) (hafter : AfterPaging layout s₀ s) (hk : Resumed s k) :
    Running layout (StructurePage s.paging.pageDirectory s.alloc.currentBase.toNat) 0xB8000 0xB9000 k
      s.alloc.currentBase.toNat ∧ ∀ v, k.mem.walk v = layout.initial v := by
  have hheap := hafter.switched.heap
  obtain ⟨hrunning, hwalk⟩ := (hafter.running_heap hl hheap.upper (Nat.le_refl _)).sameTables hk.toSameTables
    (by rw [hk.alloc]; exact hheap) (by rw [hk.alloc]) hk.console
  exact ⟨hrunning, fun v => (hwalk v).trans (hafter.walk v)⟩

theorem kmainModule_mapped (hl : layout.Linked) (hafter : AfterPaging layout s₀ s) (hk : Resumed s k)
    (hrun : kmainModule mbi k = .ok (md, s₁)) :
    ModuleMapped layout s.paging.pageDirectory s.alloc.currentBase.toNat md s₁ := by
  have halloc := hk.alloc
  have hlow := hafter.switched.low
  have hcur := hafter.switched.tables.cur_ge
  have hgt := hl.start_gt
  obtain ⟨hk', hwalk⟩ := hk.running hl hafter
  -- the heap page for the list of modules
  obtain ⟨loc, k₁, htake₁, hrest₁⟩ := bind_ok.mp hrun
  obtain ⟨hmem₁, hpaging₁, hloc, hbase₁, hend₁, h₁⟩ := hk'.take hl (by decide) (by decide) htake₁
  have hsize : (BitVec.ofNat 32 multibootModuleSize).toNat = 16 := by decide
  have hfour : (4#32).toNat = 4 := by decide
  have hround := le_roundUp k.alloc.currentBase.toNat
  rw [halloc] at hloc hround
  obtain ⟨modsAddr, k₂, hload, hrest₂⟩ := bind_ok.mp hrest₁
  obtain ⟨rfl, _⟩ := load32_same hload
  obtain ⟨r, k₃, hmap, hrest₃⟩ := bind_ok.mp hrest₂
  obtain ⟨hlocmod, _, halloc₃, hpaging₃, ⟨f₀, f₁, h₃⟩, hwalk₃, _⟩ := h₁.remap (by omega) (by omega)
    (by
      rw [hmem₁, hwalk]
      exact initial_heap hl (by omega) (by omega)) hmap
  simp only [hmem₁, hwalk] at hwalk₃
  -- the entry is read twice
  obtain ⟨modEnd, k₄, hload, hrest₄⟩ := bind_ok.mp hrest₃
  obtain ⟨rfl, _⟩ := load32_same hload
  obtain ⟨modStart, k₅, hload, hrest₅⟩ := bind_ok.mp hrest₄
  obtain ⟨rfl, hstart₅⟩ := load32_same hload
  -- the heap page for the module
  obtain ⟨addr, k₆, htake₆, hrest₆⟩ := bind_ok.mp hrest₅
  obtain ⟨hmem₆, hpaging₆, haddr, hbase₆, hend₆, h₆⟩ := h₃.take hl (by decide) (by decide) htake₆
  obtain ⟨modStart', k₇, hload, hrest₇⟩ := bind_ok.mp hrest₆
  obtain ⟨rfl, hstart₇⟩ := load32_same hload
  rw [hmem₆, hstart₅] at hstart₇
  cases hstart₇
  obtain ⟨r', k₈, hmap', hpure⟩ := bind_ok.mp hrest₇
  cases hpure
  rw [halloc₃, hbase₁, hsize] at haddr
  have hnext : addr.toNat = loc.toNat + 4096 := by
    unfold roundUp at haddr
    omega
  have hpage : pageOf addr ≠ pageOf loc := by
    unfold pageOf
    omega
  obtain ⟨_, hmodmod, halloc₈, hpaging₈, h₈, hwalk₈, _⟩ := h₆.remap (by omega) (by omega)
    (by
      rw [hmem₆, hwalk₃, if_neg hpage]
      exact initial_heap hl (by omega) (by omega)) hmap'
  simp only [hmem₆, hwalk₃] at hwalk₈
  have habove : s.alloc.currentBase.toNat ≤ addr.toNat := by omega
  have haddrmod : addr.toNat % 4096 = 0 := by omega
  refine ⟨h₈, ?_, haddrmod, hmodmod, habove, ?_, ?_, fun v hv => ?_⟩
  · rw [hpaging₈, hpaging₆, hpaging₃, hpaging₁, hk.paging]
  · rw [halloc₈, hbase₆, hfour]
  · rw [hwalk₈, if_pos rfl]
  · have hother : pageOf v ≠ pageOf addr ∧ pageOf v ≠ pageOf loc := by
      simp only at hv
      unfold pageOf
      omega
    rw [hwalk₈, if_neg hother.1, if_neg hother.2]

end Mapped

/-! ## Where the driver may store -/

/-- The module lies where a boot loader may put it: above the first megabyte and beside the kernel. -/
structure BootModule.Apart (layout : Layout) (md : BootModule) : Prop where
  low : 0x100000 ≤ md.modStart.toNat
  image : md.modStart.toNat + 4096 ≤ physOf layout.kernelStart ∨
    roundUp layout.kernelEnd.toNat - 0xC0000000 ≤ md.modStart.toNat

/-- The bytes of the structures, and of the number of files in the module. -/
def MountKept (cur : Nat) (md : BootModule) (s : Kernel Mmu) (x : Nat) : Prop :=
  StructureFrames s.paging cur x ∨ InWord md.modStart.toNat x

/-- The memory while the driver mounts, from the state `s` on. -/
def MountSpace (cur : Nat) (md : BootModule) (s : Kernel Mmu) (m : Mmu) (g : Vga) : Prop :=
  (∃ phys, m = s.mem.withPhys phys ∧ AgreeOff (fun x => ¬MountKept cur md s x) s.mem.phys phys) ∧ g.LineStart

/-- The addresses the driver may come to: from the first header on, and from NULL on. -/
def MountStores (md : BootModule) (v : Word) : Prop := v.toNat < 0x110000 ∨ md.modNewAddr.toNat + 4 ≤ v.toNat

theorem Mmu.translate_ok {m : Mmu} {v : Word} {p : Nat} (hon : m.pagingOn = true) :
    m.translate v = .ok p ↔ ∃ f, (m.walk v).map Leaf.frame = some f ∧ p = f + v.toNat % 4096 := by
  rw [Mmu.translate, if_pos hon]
  cases m.walk v with
  | none => simp
  | some l => simp [eq_comm]

namespace ModuleMapped

variable {layout : Layout} {dir v : Word} {cur p : Nat} {md : BootModule} {s : Kernel Mmu} {m : Mmu} {g : Vga}

theorem translate_eq (h : ModuleMapped layout dir cur md s) (hm : MountSpace cur md s m g) (v : Word) :
    m.translate v = s.mem.translate v := by
  obtain ⟨⟨phys, rfl, hagree⟩, _⟩ := hm
  obtain ⟨g₀, g₁, hrunning⟩ := h.running
  have hwalk := hrunning.walk_agree hagree (fun x hx hin => hx (.inl hin)) v
  unfold Mmu.translate
  rw [Mmu.pagingOn_withPhys]
  rw [show (s.mem.withPhys phys).walk v = s.mem.walk v from hwalk]

/-- A page that is mapped stays where it is while the driver mounts. -/
theorem seen (h : ModuleMapped layout dir cur md s) {f : Nat} (hf : (s.mem.walk v).map Leaf.frame = some f) :
    s.mem.Seen (fun x => ¬MountKept cur md s x) v f := by
  obtain ⟨g₀, g₁, hrunning⟩ := h.running
  obtain ⟨l, hl, rfl⟩ := Option.map_eq_some_iff.mp hf
  refine ⟨hrunning.on, ⟨l.writable, hl⟩, ?_⟩
  rw [hrunning.root]
  exact hrunning.tables.steady (fun x hx hin => hx (.inl hin)) v

/-- The last address the driver comes to lies in the kernel. -/
theorem initial_below {f : Nat} (hv : 0xC0100000 ≤ v.toNat)
    (hf : (layout.initial v).map Leaf.frame = some f) : v.toNat < roundUp layout.kernelEnd.toNat ∧
      f + v.toNat % 4096 = v.toNat - 0xC0000000 := by
  unfold Layout.initial at hf
  rw [if_neg (by omega)] at hf
  split at hf
  · next hin =>
    have hframe : 4096 * pageOf v - 0xC0000000 = f := Option.some.inj hf
    unfold pageOf at hframe
    exact ⟨hin.2, by omega⟩
  · cases hf

/-- Where the driver may store, no byte is hit that is to be kept. -/
theorem stores (h : ModuleMapped layout dir cur md s) (hl : layout.Linked) (hapart : md.Apart layout)
    (hv : MountStores md v) (hp : s.mem.translate v = .ok p) : ¬MountKept cur md s p ∧
      (v.toNat < 0x100000 ∨ md.modNewAddr.toNat + 4 ≤ v.toNat ∧ v.toNat < 0xC0702000) := by
  obtain ⟨g₀, g₁, hrunning⟩ := h.running
  obtain ⟨f, hf, rfl⟩ := (Mmu.translate_ok hrunning.on).mp hp
  have hlow := hrunning.low
  have hdir := hrunning.tables.dir_ge
  have hcur := hrunning.tables.cur_ge
  have habove := h.above
  have haddr := h.addr_mod
  have hbase := h.base
  have hupper := hrunning.heap.upper
  have hheap := hl.heap_high
  have hround' := le_roundUp layout.kernelEnd.toNat
  have hgt := hl.start_gt
  have hend := hl.start_le
  have hlen := hl.size_lt
  have hround := roundUp_lt layout.kernelEnd.toNat
  obtain ⟨hstart, himage⟩ := hapart
  unfold physOf at himage
  rcases Nat.lt_or_ge v.toNat 0x100000 with hfirst | hfirst
  · -- the first megabyte is mapped to itself
    rw [h.rest v (.inl (by omega)), Layout.initial, if_pos hfirst] at hf
    have hframe : 4096 * pageOf v = f := Option.some.inj hf
    unfold pageOf at hframe
    refine ⟨?_, .inl hfirst⟩
    rintro (⟨hge, _⟩ | ⟨hge, _⟩)
    · unfold physOf at hge
      omega
    · omega
  rcases Nat.lt_or_ge v.toNat 0x110000 with hgap | hgap
  · rw [h.rest v (.inl hgap), Layout.initial, if_neg (by omega), if_neg (by omega)] at hf
    cases hf
  have hv : md.modNewAddr.toNat + 4 ≤ v.toNat := hv.resolve_left (by omega)
  rcases Nat.lt_or_ge v.toNat (md.modNewAddr.toNat + 4096) with hown | hbehind
  · -- the page of the module
    have hpage : pageOf v = pageOf md.modNewAddr := by
      unfold pageOf
      omega
    have hframe := h.own
    rw [Mmu.walk, ← lookup_congr hpage] at hframe
    obtain rfl := Option.some.inj (hframe.symm.trans hf)
    refine ⟨?_, .inr ⟨hv, by omega⟩⟩
    rintro (⟨hge, hlt⟩ | ⟨_, hlt⟩)
    · unfold physOf at hge
      omega
    · omega
  · rw [h.rest v (.inr hbehind)] at hf
    obtain ⟨hbelow, hframe⟩ := initial_below (by omega) hf
    refine ⟨?_, .inr ⟨hv, by omega⟩⟩
    rintro (⟨_, hlt⟩ | ⟨hge, hlt⟩)
    · omega
    · omega

/-- The driver stays off the tables and the number of files. -/
theorem fenced (h : ModuleMapped layout dir cur md s) (hl : layout.Linked) (hapart : md.Apart layout) :
    Fenced (MountSpace cur md s) (MountStores md) := by
  refine ⟨?_, ?_⟩
  · rintro m g v p b ⟨⟨phys, rfl, hagree⟩, hstart⟩ hv ⟨m', g', hm', hp⟩
    rw [h.translate_eq hm'] at hp
    have hoff := (h.stores hl hapart hv hp).1
    exact ⟨⟨_, rfl, hagree.trans (.write8 hoff)⟩, hstart⟩
  · rintro v hv ⟨p, m, g, hm, hp⟩ d hd
    rw [h.translate_eq hm] at hp
    obtain ⟨_, hin⟩ := h.stores hl hapart hv hp
    have hsum : (v + BitVec.ofNat 32 d).toNat = v.toNat + d := toNat_add_ofNat (by omega)
    unfold MountStores
    rw [hsum]
    omega

/-- Requests from the heap behind the module give pages behind it, or NULL. -/
theorem heapFenced (md : BootModule) (hl : layout.Linked) : HeapFenced (MountStores md) fun b =>
    b.InHeap layout.earlyKmallocStart layout.earlyKmallocEnd ∧ md.modNewAddr.toNat + 4 ≤ b.currentBase.toNat := by
  have hheap := hl.heap_high
  have hend := hl.start_le
  have hlen := hl.size_lt
  refine ⟨?_, ?_⟩
  · rintro b b' size r ⟨hin, hbase⟩ halloc
    have hserve : (Request.align size).serve b = .ok (r, b') := halloc
    have hstart : (Request.align size).start b = roundUp b.currentBase.toNat := rfl
    have hround := le_roundUp b.currentBase.toNat
    have hround' := roundUp_lt b.currentBase.toNat
    have hupper := hin.upper
    rcases Request.serve_ok hserve with ⟨_, rfl, _⟩ | ⟨_, hr, _⟩
    · exact .inl (by decide)
    · rw [hstart, Nat.mod_eq_of_lt (by omega)] at hr
      exact .inr (by omega)
  · rintro b b' r ⟨hin, hbase⟩ halloc
    obtain ⟨hr, htop, hin'⟩ := Alloc.kmallocEarlyAlign_small hin (by omega) (by decide) (by decide) halloc
    have hround := le_roundUp b.currentBase.toNat
    exact ⟨hin', by omega⟩

/-- The number of files does not change. -/
theorem counted (h : ModuleMapped layout dir cur md s) {n : Word}
    (hn : Counted (MountSpace cur md s) md.modNewAddr n) : n = s.mem.phys.read32 md.modStart.toNat := by
  obtain ⟨m, g, ⟨⟨phys, rfl, hagree⟩, _⟩, hload⟩ := hn
  have hseen := (h.seen h.own).agree hagree
  have haddr := h.addr_mod
  rw [hseen.load32 (by omega), haddr] at hload
  obtain rfl := Except.ok.inj hload
  exact hagree.read32 fun k hk hnot => hnot (.inr (inWord_add hk))

/-- A table that has been walked to its end is short. -/
theorem walked_lt (h : ModuleMapped layout dir cur md s) (hl : layout.Linked) (hapart : md.Apart layout)
    {a a₁ a₂ a₃ : Alloc} {n : Word} {s' : Kernel Mmu}
    (hrun : MountRun (MountSpace cur md s) a a₁ a₂ a₃ md.modNewAddr n s') :
    (s.mem.phys.read32 md.modStart.toNat).toNat < 0x20000 := by
  obtain ⟨c, hload, j, _, hcj, hmapped⟩ := hrun.walked
  rw [hrun.initrdH] at hload
  obtain rfl := h.counted ⟨_, _, hrun.inv, hload⟩
  obtain ⟨g₀, g₁, hrunning⟩ := h.running
  have hdir := hrunning.tables.dir_ge
  have hcur := hrunning.tables.cur_ge
  have habove := h.above
  have hbase := h.base
  have hupper := hrunning.heap.upper
  have hheap := hl.heap_high
  have hend := hl.start_le
  have hlen := hl.size_lt
  have hbelow : ∀ v, MountStores md v → Mapped (MountSpace cur md s) v → v.toNat < 0xC0702000 := by
    rintro v hv ⟨p, m, g, hm, hp⟩
    rw [h.translate_eq hm] at hp
    have hin := (h.stores hl hapart hv hp).2
    omega
  have hfield : ∀ k, k < j → (s'.ramdisk.offsetField k).toNat = md.modNewAddr.toNat + 72 + 76 * k := by
    intro k
    induction k with
    | zero =>
        intro _
        rw [Ramdisk.offsetField_zero, hrun.fileHeaders, BitVec.add_assoc, ← BitVec.ofNat_add]
        exact toNat_add_ofNat (by simp only [initrdHeaderSize, headerOffset]; omega)
    | succ k ih =>
        intro hk
        have hprev := ih (by omega)
        have hlt := hbelow _ (.inr (by omega)) (hmapped k (Nat.zero_le k) (by omega))
        rw [Ramdisk.offsetField_succ, toNat_add_ofNat (by simp only [fileHeaderSize]; omega), hprev]
        simp only [fileHeaderSize]
        omega
  rcases Nat.eq_zero_or_pos (s.mem.phys.read32 md.modStart.toNat).toNat with hzero | hpos
  · omega
  · have hlast := hfield ((s.mem.phys.read32 md.modStart.toNat).toNat - 1) (by omega)
    have hlt := hbelow _ (.inr (by omega)) (hmapped ((s.mem.phys.read32 md.modStart.toNat).toNat - 1)
      (Nat.zero_le _) (by omega))
    omega

theorem shortFormat_nfiles (n : Word) : ShortFormat (cstr "nfiles: %d") (slots [n]) := ⟨rfl, by decide, by decide⟩

/-- The line about the number of files is put on the screen, beside what is kept. -/
theorem printed (h : ModuleMapped layout dir cur md s) (hapart : md.Apart layout) (n : Word) (k : Kernel Mmu)
    (hk : MountSpace cur md s k.mem k.vga) :
    Returns (kPrintfln (cstr "nfiles: %d") (slots [n])) k fun _ k' => MountSpace cur md s k'.mem k'.vga := by
  obtain ⟨g₀, g₁, hrunning⟩ := h.running
  obtain ⟨⟨phys, hmem, hagree⟩, hstart⟩ := hk
  have hdir := hrunning.tables.dir_ge
  have hlow := hapart.low
  have hon : ∀ x, BootScreen x → ¬MountKept cur md s x := by
    rintro x hx (⟨hge, _⟩ | ⟨hge, _⟩)
    · have hbelow := bootScreen_low hx
      unfold physOf at hge
      omega
    · have hbelow := bootScreen_low hx
      omega
  have hseen : ∀ v : Word, v.toNat < 0x100000 →
      k.mem.Seen (fun x => ¬MountKept cur md s x) v (4096 * pageOf v) := fun v hv => by
    rw [hmem]
    refine (h.seen ?_).agree hagree
    rw [h.rest v (.inl (by omega)), Layout.initial, if_pos hv]
    rfl
  have hscreen : ScreenSeen k.mem (fun x => ¬MountKept cur md s x) 0xB8000 0xB9000 :=
    ⟨hseen vgaAddress (by decide), hseen vgaSecondPage (by decide), hon⟩
  have hline := kPrintfln_printed (shortFormat_nfiles n) hscreen hstart.ready (by decide)
  refine hline.mono ?_
  rintro _ k' ⟨⟨phys', ports, vga, hk', hm, _⟩, hstart'⟩
  cases hk'
  refine ⟨⟨phys', ?_, ?_⟩, hstart'⟩
  · simp only [hmem, Mmu.withPhys_withPhys]
  · rw [hmem] at hm
    exact hagree.trans (hm.mono hon)

end ModuleMapped

/-! ## The driver's blocks -/

section Blocks

variable {layout : Layout} {dir : Word} {cur : Nat} {md : BootModule} {sym : RamdiskSymbols} {s s' : Kernel Mmu}
  {root : Word}

/-- The first block of the driver is the page behind the one of the module. -/
theorem ModuleMapped.root_eq (h : ModuleMapped layout dir cur md s) (hl : layout.Linked)
    (hrun : ramdiskInit sym md.modNewAddr md.size s = .ok (root, s')) :
    s'.ramdisk.root.toNat = md.modNewAddr.toNat + 4096 := by
  have hheld : Held (fun _ _ => True) s.alloc s.ramdisk s := ⟨trivial, rfl, rfl⟩
  have hf : Fenced (fun _ _ => True) fun _ => True := ⟨fun _ _ _ _ => trivial, fun _ _ _ _ => trivial⟩
  have hb : HeapFenced (fun _ => True) fun _ => True := ⟨fun _ _ => trivial, fun _ _ => trivial⟩
  obtain ⟨a₁, _, _, _, hmount⟩ := ramdiskInit_fenced hf hb trivial hheld
    (fun _ _ _ _ _ _ => trivial) trivial root s' hrun
  obtain ⟨g₀, g₁, hrunning⟩ := h.running
  have hheap := hl.heap_high
  have hend := hl.start_le
  have hlen := hl.size_lt
  obtain ⟨hroot, _⟩ := Alloc.kmallocEarlyAlign_small hrunning.heap (by omega) (by decide) (by decide) hmount.root
  have haddr := h.addr_mod
  rw [hroot, h.base]
  unfold roundUp
  omega

/-- A block behind the page of the module does not reach it. -/
theorem block_apart {b addr : Word} {len j k : Nat} (hb : addr.toNat + 4096 ≤ b.toNat) (hlen : b.toNat + len ≤ 2 ^ 32)
    (hj : j < len) (hk : k < 4096) : b + BitVec.ofNat 32 j ≠ addr + BitVec.ofNat 32 k := by
  intro heq
  have htoNat := congrArg BitVec.toNat heq
  rw [toNat_add_ofNat (by omega), toNat_add_ofNat (by omega)] at htoNat
  omega

/-- What the driver has done when it comes back from a module beside the kernel. -/
theorem ModuleMapped.mountRun (h : ModuleMapped layout dir cur md s) (hl : layout.Linked) (hapart : md.Apart layout)
    (hrun : ramdiskInit sym md.modNewAddr md.size s = .ok (root, s')) :
    ∃ a₁ a₂ a₃ n, MountRun (MountSpace cur md s) s.alloc a₁ a₂ a₃ md.modNewAddr n s' := by
  obtain ⟨g₀, g₁, hrunning⟩ := h.running
  have hupper := hrunning.heap.upper
  have hbase := h.base
  have hheap := hl.heap_high
  have hend := hl.start_le
  have hlen := hl.size_lt
  have hheld : Held (MountSpace cur md s) s.alloc s.ramdisk s :=
    ⟨⟨⟨s.mem.phys, rfl, .refl _⟩, hrunning.console⟩, rfl, rfl⟩
  have hheader : MountStores md (md.modNewAddr + BitVec.ofNat 32 initrdHeaderSize + BitVec.ofNat 32 headerOffset) := by
    rw [BitVec.add_assoc, ← BitVec.ofNat_add]
    refine .inr ?_
    rw [toNat_add_ofNat (by simp only [initrdHeaderSize, headerOffset]; omega)]
    exact Nat.add_le_add_left (by decide) _
  exact ramdiskInit_fenced (h.fenced hl hapart) (ModuleMapped.heapFenced md hl) ⟨hrunning.heap, by omega⟩ hheld
    (fun n k hk => (h.printed hapart n k hk).whenReturns) hheader root s' hrun

/-- The driver's blocks lie behind the page of the module, and do not wrap around. -/
theorem ModuleMapped.blocks_above (h : ModuleMapped layout dir cur md s) (hl : layout.Linked) (hapart : md.Apart layout)
    {a₁ a₂ a₃ : Alloc} {n : Word} (hmount : MountRun (MountSpace cur md s) s.alloc a₁ a₂ a₃ md.modNewAddr n s')
    {b : Word × Word} (hb : b ∈ laterBlocks s') : b.2 = 0#32 ∨
      md.modNewAddr.toNat + 4096 ≤ b.1.toNat ∧ b.1.toNat + b.2.toNat ≤ 2 ^ 32 := by
  obtain ⟨g₀, g₁, hrunning⟩ := h.running
  have haddr := h.addr_mod
  have hbase := h.base
  have hheap := hl.heap_high
  have hend := hl.start_le
  have hlen := hl.size_lt
  have hinode : (BitVec.ofNat 32 inodeSize).toNat = 184 := by decide
  obtain ⟨hroot, htop, hin₁⟩ := Alloc.kmallocEarlyAlign_small hrunning.heap (by omega) (by decide) (by decide) hmount.root
  obtain ⟨hdev, htop₁, hin₂⟩ := Alloc.kmallocEarlyAlign_small hin₁ (by omega) (by decide) (by decide) hmount.dev
  have hupper₁ := hin₁.upper
  have hupper₂ := hin₂.upper
  rw [hinode] at htop htop₁
  rw [hbase] at hroot
  have hfirst : s'.ramdisk.root.toNat = md.modNewAddr.toNat + 4096 := by
    unfold roundUp at hroot
    omega
  have hround := le_roundUp a₁.currentBase.toNat
  simp only [laterBlocks, List.mem_cons, List.not_mem_nil, or_false] at hb
  rcases hb with rfl | rfl | rfl
  · refine .inr ⟨Nat.le_of_eq hfirst.symm, ?_⟩
    dsimp only
    omega
  · refine .inr ?_
    dsimp only
    omega
  · -- the number of files is as small as the table that was walked
    have hshort := h.walked_lt hl hapart hmount
    have hcount := (h.counted hmount.counted).trans (h.counted hmount.stored).symm
    rw [← h.counted hmount.stored] at hshort
    have hnodes := hmount.nodes
    rw [hcount] at hnodes
    have hserve : (Request.align (BitVec.ofNat 32 inodeSize * s'.ramdisk.nrootNodes)).serve a₂ =
      .ok (s'.ramdisk.rootNodes, a₃) := hnodes
    have hround₂ := le_roundUp a₂.currentBase.toNat
    have hround₂' := roundUp_lt a₂.currentBase.toNat
    rcases Request.serve_ok hserve with ⟨hzero, _⟩ | ⟨_, hnode, _⟩
    · exact .inl hzero
    · have hstart : (Request.align (BitVec.ofNat 32 inodeSize * s'.ramdisk.nrootNodes)).start a₂ =
        roundUp a₂.currentBase.toNat := rfl
      have hsize : (BitVec.ofNat 32 inodeSize * s'.ramdisk.nrootNodes).toNat = 184 * s'.ramdisk.nrootNodes.toNat := by
        rw [BitVec.toNat_mul, hinode, Nat.mod_eq_of_lt (by omega)]
      rw [hstart, Nat.mod_eq_of_lt (by omega)] at hnode
      refine .inr ?_
      dsimp only
      omega

/-- A module of one page beside the kernel can be read, whatever it holds. -/
theorem ModuleMapped.readable (h : ModuleMapped layout dir cur md s) (hl : layout.Linked) (hapart : md.Apart layout)
    (hsize : md.size.toNat ≤ 4096) (hrun : ramdiskInit sym md.modNewAddr md.size s = .ok (root, s')) :
    ModuleReadable md s' := by
  obtain ⟨a₁, a₂, a₃, n, hmount⟩ := h.mountRun hl hapart hrun
  have haddr := h.addr_mod
  refine ⟨fun k hk => ?_, fun b hb j k hj hk => ?_⟩
  · rw [h.translate_eq hmount.inv, (h.seen h.own).translate (by omega), haddr, Nat.zero_add]
  · rcases h.blocks_above hl hapart hmount hb with hzero | ⟨habove, hend⟩
    · rw [hzero] at hj
      exact absurd hj (Nat.not_lt_zero j)
    · exact block_apart habove hend hj (by omega)

/-- A module of more than a page lies on the first block of the driver. -/
theorem ModuleMapped.not_readable (h : ModuleMapped layout dir cur md s) (hl : layout.Linked)
    (hrun : ramdiskInit sym md.modNewAddr md.size s = .ok (root, s')) (hr : ModuleReadable md s') :
    md.size.toNat ≤ 4096 := by
  have hroot := h.root_eq hl hrun
  refine Nat.le_of_not_lt fun hlt => ?_
  have hinode : 0 < (BitVec.ofNat 32 inodeSize).toNat := by decide
  refine hr.apart _ (List.mem_cons_self ..) 0 4096 hinode hlt (BitVec.eq_of_toNat_eq ?_)
  have hlt' := s'.ramdisk.root.isLt
  rw [toNat_add_ofNat (by omega), toNat_add_ofNat (by omega)]
  exact hroot

end Blocks

end LizaOS
