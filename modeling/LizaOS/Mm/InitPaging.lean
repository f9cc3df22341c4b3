-- SUMMARY: init_paging: the address space it builds on the boot tables, and the switch to it.
import LizaOS.Mm.BootSpace

/-!
# Setting up paging

`init_paging` fills an empty directory by calls of `page_map`, in two loops, and then switches to it.
What has been mapped at each turn is a function on addresses; the loops extend it page by page.
-/

namespace LizaOS

open Exec

/-- The state `init_paging` starts in. -/
structure BeforePaging (layout : Layout) (s : Kernel Mmu) : Prop where
  mapped : BootMapped s.mem layout
  disabled : s.paging.kernelPagingEnabled = false
  heap : s.alloc.InHeap layout.earlyKmallocStart layout.earlyKmallocEnd
  console : s.vga.Ready 80

/-- The directory, the reverse mapping and three tables fit in the heap. -/
def HeapRoom (s : Kernel Mmu) : Prop :=
  roundUp s.alloc.currentBase.toNat + 0x5000 ≤ s.alloc.maxBase.toNat

/-- The address space `init_paging` is for: the first megabyte, and the kernel. -/
def Layout.initial (layout : Layout) (v : Word) : Option Leaf :=
  if v.toNat < 0x100000 then some { frame := 4096 * pageOf v, writable := true }
  else if layout.kernelStart.toNat ≤ v.toNat ∧ v.toNat < roundUp layout.kernelEnd.toNat then
    some { frame := 4096 * pageOf v - 0xC0000000, writable := true }
  else none

/-- What `init_paging` stores to: the screen, and the heap behind what has been allocated. -/
def PagingStores (layout : Layout) (s₀ : Kernel Mmu) (x : Nat) : Prop :=
  BootScreen x ∨ (roundUp s₀.alloc.currentBase.toNat ≤ x + 0xC0000000 ∧ x + 0xC0000000 < layout.earlyKmallocEnd.toNat)

/-! ## The empty tables -/

section Tables

variable {layout : Layout} {s : Kernel Mmu} {T : Prop} {base max : Word}

theorem kmallocTable_returnsIf (hin : s.alloc.InHeap base max) (hmax : max.toNat + 8192 < 2 ^ 32)
    (hroom : T → roundUp s.alloc.currentBase.toNat + 4096 ≤ max.toNat) :
    ReturnsIf T (kmallocEarlyAlign pageTableSize : K Mmu Word) s fun t s' => ∃ a',
      s' = { s with alloc := a' } ∧ t.toNat = roundUp s.alloc.currentBase.toNat ∧
      a'.currentBase.toNat = t.toNat + 4096 ∧ a'.InHeap base max := by
  have hok : ∀ t a', Alloc.kmallocEarlyAlign pageTableSize s.alloc = .ok (t, a') →
      Returns (kmallocEarlyAlign pageTableSize : K Mmu Word) s fun t s' => ∃ a',
        s' = { s with alloc := a' } ∧ t.toNat = roundUp s.alloc.currentBase.toNat ∧
        a'.currentBase.toNat = t.toNat + 4096 ∧ a'.InHeap base max := by
    intro t a' halloc
    obtain ⟨ht, hend, hin'⟩ := Alloc.kmallocEarlyAlign_table hin hmax halloc
    refine ⟨t, { s with alloc := a' }, ?_, a', rfl, ht, hend.symm, hin'⟩
    rw [kmallocEarlyAlign, onAlloc, halloc]
    rfl
  cases halloc : Alloc.kmallocEarlyAlign pageTableSize s.alloc with
  | error e =>
      refine ⟨fun t s' hrun => ?_, fun hT => ?_⟩
      · rw [kmallocEarlyAlign, onAlloc, halloc] at hrun
        cases hrun
      · obtain ⟨t, a', hrun⟩ := Alloc.kmallocEarlyAlign_total hin (by decide : pageTableSize.toNat ≤ 4096) (hroom hT)
        rw [halloc] at hrun
        cases hrun
  | ok p => exact .of_returns (hok p.1 p.2 halloc)

theorem nativeGetPageDirectory_run : nativeGetPageDirectory s = .ok (s.mem.cr3, s) := rfl

theorem shortFormat_ptd (ptd oldDir : Word) :
    ShortFormat (cstr "paging: PTD at %p (old %p)\n") (slots [ptd, oldDir]) := ⟨rfl, by decide, by decide⟩

/-- The part of `init_paging` that clears the directory and the reverse mapping. -/
def clearTables (pageDirectory ptPhysToVirt : Word) : K Mmu Unit := do
  memset pageDirectory 0 pageTableSize.toNat
  memset ptPhysToVirt 0 pageTableSize.toNat
  let oldDir ← nativeGetPageDirectory
  let ptd ← virtToPhys pageDirectory
  kPrintf (cstr "paging: PTD at %p (old %p)\n") (slots [ptd, oldDir])

theorem clearTables_returns {dir rev : Word} (hmapped : BootMapped s.mem layout) (hl : layout.Linked)
    (hdisabled : s.paging.kernelPagingEnabled = false) (hdir : layout.KernelPage dir)
    (hrev : layout.KernelPage rev) (hnext : physOf rev = physOf dir + 4096) (hready : s.vga.Ready 80) :
    Returns (clearTables dir rev) s fun _ s' => ∃ phys ports vga,
      s' = { s with mem := s.mem.withPhys phys, ports := ports, vga := vga } ∧
      AgreeOff (fun x => InFrame (physOf dir) x ∨ InFrame (physOf rev) x ∨ BootScreen x) s.mem.phys phys ∧
      (∀ i, i < 1024 → phys.read32 (physOf dir + 4 * i) = 0#32 ∧ phys.read32 (physOf rev + 4 * i) = 0#32) ∧
      vga.Ready 480 ∧ s.vga.y.toNat ≤ vga.y.toNat := by
  obtain ⟨hstart, _, hgt, _⟩ := hl.start_eq
  have hdirlow := hdir.low
  have hdirphys := physOf_add (v := dir) (by omega)
  have hsize : pageTableSize.toNat = 4096 := by decide
  have hA : ∀ x, InFrame (physOf dir) x → BootStores layout x := fun x hx => .inr (by have h := hx.1; omega)
  have hA' : ∀ x, InFrame (physOf rev) x → BootStores layout x := fun x hx => .inr (by have h := hx.1; omega)
  have hscreen : ∀ x, BootScreen x → BootStores layout x := fun x hx => .inl (bootScreen_low hx)
  obtain ⟨_, _, hclear, m₁, rfl, hm₁, hzero⟩ := memset_seen (hmapped.seen_kernel hdir) hdir.mod hA 0#8
  have hagree₁ := hm₁.mono hA
  obtain ⟨_, _, hclear', m₂, rfl, hm₂, hzero'⟩ := memset_seen (s := s.withPhys m₁)
    ((hmapped.seen_kernel hrev).agree hagree₁) hrev.mod hA' 0#8
  have hagree₂ : AgreeOff (BootStores layout) s.mem.phys m₂ := hagree₁.trans (hm₂.mono hA')
  have hmapped₂ : BootMapped ((s.withPhys m₁).withPhys m₂).mem layout := hmapped.agree hagree₂
  have htranslate := virtToPhys_boot hmapped₂ hl hdisabled hdir
  obtain ⟨_, _, hprint, ⟨m₃, ports, vga, rfl, hm₃, hy⟩, hready'⟩ := kPrintf_printed
    (shortFormat_ptd (dir - virtBase) s.mem.cr3) (hmapped₂.screen hl (fun x hx => hx) hscreen) hready (by omega)
  refine ⟨(), _, ?_, m₃, ports, vga, rfl, ?_, fun i hi => ?_, hready'.mono (Nat.le_refl 480), hy⟩
  · rw [clearTables, hsize]
    exact (bind_run hclear).trans ((bind_run hclear').trans ((bind_run nativeGetPageDirectory_run).trans
      ((bind_run htranslate).trans hprint)))
  · exact (hm₁.mono fun x hx => .inl hx).trans ((hm₂.mono fun x hx => .inr (.inl hx)).trans
      (hm₃.mono fun x hx => .inr (.inr hx)))
  · have hfar : ∀ x, physOf dir ≤ x → ¬BootScreen x := fun x hx hx' => by
      have h := bootScreen_low hx'
      omega
    refine ⟨?_, ?_⟩
    · rw [hm₃.read32 fun k hk hx => hfar _ (by omega) hx]
      refine Bytes.read32_zero fun k hk => ?_
      rw [phys_kernelWithPhys, hm₂ _ (fun hx => by have h := hx.1; omega)]
      exact hzero _ ⟨by omega, by omega⟩
    · rw [hm₃.read32 fun k hk hx => hfar _ (by omega) hx]
      exact Bytes.read32_zero fun k hk => hzero' _ ⟨by omega, by omega⟩

/-- `init_paging` starts with tables that map nothing. -/
theorem initTables_returnsIf (h : BeforePaging layout s) (hl : layout.Linked)
    (hroom : T → roundUp s.alloc.currentBase.toNat + 8192 ≤ layout.earlyKmallocEnd.toNat) :
    ReturnsIf T initTables s fun _ s' => ∃ cur, Booting layout s' cur ∧
      s'.paging.pageDirectory.toNat = roundUp s.alloc.currentBase.toNat ∧
      cur = s'.paging.pageDirectory.toNat + 8192 ∧ s.vga.y.toNat ≤ s'.vga.y.toNat ∧
      (∀ i, i < 1024 → dirOf s'.mem.phys s'.paging i = 0#32) ∧
      AgreeOff (PagingStores layout s) s.mem.phys s'.mem.phys ∧ s'.handlers = s.handlers := by
  have hend := Booting.end_lt hl
  have hheaplow := hl.heap_low
  have hheaphigh := hl.heap_high
  have hgt := hl.start_gt
  have hlower := h.heap.lower
  have hroundle := le_roundUp s.alloc.currentBase.toNat
  have hroundmod := roundUp_mod s.alloc.currentBase.toNat
  refine (kmallocTable_returnsIf h.heap (by omega) fun hT => by have hT := hroom hT; omega).bind ?_
  rintro dir _ ⟨a₁, rfl, hdir, hcur₁, hheap₁⟩
  have hcurmod : roundUp a₁.currentBase.toNat = dir.toNat + 4096 := by
    rw [hcur₁]
    exact roundUp_of_aligned (by omega)
  refine ReturnsIf.congr ?_ (bind_run modify_run)
  have hroom₁ : T → roundUp a₁.currentBase.toNat + 4096 ≤ layout.earlyKmallocEnd.toNat := fun hT => by
    have hT := hroom hT
    omega
  refine (kmallocTable_returnsIf (s := { s with alloc := a₁, paging := { s.paging with pageDirectory := dir } })
    hheap₁ (by omega) hroom₁).bind ?_
  rintro rev _ ⟨a₂, rfl, hrev, hcur₂, hheap₂⟩
  have hupper := hheap₂.upper
  have hrev : rev.toNat = dir.toNat + 4096 := hrev.trans hcurmod
  refine ReturnsIf.congr ?_ (bind_run modify_run)
  have hdirpage : layout.KernelPage dir := ⟨by omega, by omega, by omega⟩
  have hrevpage : layout.KernelPage rev := ⟨by omega, by omega, by omega⟩
  have hdirphys := physOf_add (v := dir) (by omega)
  have hrevphys := physOf_add (v := rev) (by omega)
  have hclear := clearTables_returns (s := { s with alloc := a₂, paging := { s.paging with pageDirectory := dir, ptPhysToVirt := rev } })
    h.mapped hl h.disabled hdirpage hrevpage (by omega) h.console
  refine .of_returns (hclear.mono ?_)
  rintro _ _ ⟨m, ports, vga, rfl, hagree, hzero, hready, hy⟩
  have hboot : ∀ x, InFrame (physOf dir) x ∨ InFrame (physOf rev) x ∨ BootScreen x → BootStores layout x := by
    obtain ⟨hstart, _⟩ := hl.start_eq
    rintro x (⟨hx, _⟩ | ⟨hx, _⟩ | hx)
    · exact .inr (by omega)
    · exact .inr (by omega)
    · exact .inl (bootScreen_low hx)
  have hstores : ∀ x, InFrame (physOf dir) x ∨ InFrame (physOf rev) x ∨ BootScreen x → PagingStores layout s x := by
    rintro x (⟨hx, hx'⟩ | ⟨hx, hx'⟩ | hx)
    · exact .inr ⟨by omega, by omega⟩
    · exact .inr ⟨by omega, by omega⟩
    · exact .inl hx
  refine ⟨dir.toNat + 8192, ⟨h.mapped.agree (hagree.mono hboot), h.disabled, ?_, hdirpage.low, hheap₂, ?_, hready⟩,
    hdir, rfl, hy, fun i hi => (hzero i hi).1, hagree.mono hstores, rfl⟩
  · have hge : 0xC0100000 ≤ dir.toNat := by omega
    have hmod : (dir.toNat + 8192) % 4096 = 0 := by omega
    refine ⟨hdirpage.mod, hge, hrev, hmod, Nat.le_refl _, fun i hi => .inl (hzero i hi), ?_⟩
    intro i j hi _ hne
    exact absurd (hzero i hi).2 hne
  · have hbase : a₂.currentBase.toNat = dir.toNat + 8192 := by omega
    exact hbase

end Tables

/-! ## The two loops -/

/-- 1 for an index without a table. -/
def missing (m : Bytes) (paging : Paging) (i : Nat) : Nat :=
  if Entry.present (dirOf m paging i) then 0 else 1

/-- Behind the directory and the reverse mapping there is a page for each table that has been made. -/
def TablesCounted (m : Bytes) (paging : Paging) (cur : Nat) : Prop :=
  cur + 4096 * (missing m paging 0 + missing m paging 768 + missing m paging 769) =
    paging.pageDirectory.toNat + 0x5000

/-- A table that has been made maps a page. -/
def TablesUsed (m : Bytes) (paging : Paging) (f : Word → Option Leaf) : Prop :=
  ∀ i, i < 1024 → Entry.present (dirOf m paging i) = true → ∃ v, dirIndex v = i ∧ f v ≠ none

section Congr

variable {m m' : Bytes} {paging : Paging} {cur : Nat} {f : Word → Option Leaf}

theorem TablesCounted.congr (h : TablesCounted m paging cur)
    (hdir : ∀ i, i < 1024 → dirOf m' paging i = dirOf m paging i) : TablesCounted m' paging cur := by
  have hmissing : ∀ i, i < 1024 → missing m' paging i = missing m paging i := fun i hi => by
    rw [missing, hdir i hi]
    rfl
  rw [TablesCounted, hmissing 0 (by decide), hmissing 768 (by decide), hmissing 769 (by decide)]
  exact h

theorem TablesUsed.congr (h : TablesUsed m paging f)
    (hdir : ∀ i, i < 1024 → dirOf m' paging i = dirOf m paging i) : TablesUsed m' paging f :=
  fun i hi hp => h i hi (hdir i hi ▸ hp)

end Congr

/-- `f` is what has been mapped since `init_paging` started in `s₀`. -/
structure Mapping (layout : Layout) (s₀ s : Kernel Mmu) (cur : Nat) (f : Word → Option Leaf) : Prop where
  booting : Booting layout s cur
  dir : s.paging.pageDirectory.toNat = roundUp s₀.alloc.currentBase.toNat
  counted : TablesCounted s.mem.phys s.paging cur
  used : TablesUsed s.mem.phys s.paging f
  walk : ∀ v, Tables.walk s.mem.phys s.paging v = f v
  row : s₀.vga.y.toNat ≤ s.vga.y.toNat
  stores : AgreeOff (PagingStores layout s₀) s₀.mem.phys s.mem.phys
  handlers : s.handlers = s₀.handlers

namespace Mapping

variable {layout : Layout} {s₀ s : Kernel Mmu} {cur : Nat} {f g : Word → Option Leaf} {T : Prop}
  {virt phys : Word}

theorem congr (h : Mapping layout s₀ s cur f) (hfg : ∀ v, f v = g v) : Mapping layout s₀ s cur g :=
  funext hfg ▸ h

/-- A table is made only for an index that has had none. -/
theorem missing_step {m m' : Bytes} {paging : Paging} {cur' i : Nat} {perm : Word}
    (hm : Tables.Mapped m m' paging cur' virt phys perm) (hi : i < 1024) :
    missing m' paging i + (if i = dirIndex virt then missing m paging i else 0) = missing m paging i := by
  unfold missing
  by_cases heq : i = dirIndex virt
  · rw [if_pos heq, heq, hm.present]
    simp
  · rw [if_neg heq, (hm.kept i hi fun h => absurd h heq).1]
    rfl

/-- One call of the loops. -/
theorem step (h : Mapping layout s₀ s cur f) (hl : layout.Linked)
    (hroom : T → roundUp s₀.alloc.currentBase.toNat + 0x5000 ≤ layout.earlyKmallocEnd.toNat)
    (hvirt : virt.toNat % 4096 = 0) (hphys : phys.toNat % 4096 = 0)
    (hi : dirIndex virt = 0 ∨ dirIndex virt = 768 ∨ dirIndex virt = 769) :
    ReturnsIf T (pageMap virt phys pageEntryRw) s fun _ s' => ∃ cur', Mapping layout s₀ s' cur' fun v =>
      if pageOf v = pageOf virt then some { frame := phys.toNat, writable := true } else f v := by
  have hcounted := h.counted
  unfold TablesCounted at hcounted
  have hdir := h.dir
  have hfits : T → Entry.present (dirOf s.mem.phys s.paging (dirIndex virt)) = false →
      cur + 4096 ≤ layout.earlyKmallocEnd.toNat := by
    intro hT hp
    have hspace := hroom hT
    have hmissing : missing s.mem.phys s.paging (dirIndex virt) = 1 := by
      rw [missing, hp]
      rfl
    rcases hi with hi | hi | hi <;> rw [hi] at hmissing <;> omega
  refine (h.booting.pageMap_returnsIf hl hvirt hphys (by decide) hfits).mono ?_
  rintro r s' ⟨cur', hmap, hbooting⟩
  obtain ⟨hpaging, hhandlers⟩ : s'.paging = s.paging ∧ s'.handlers = s.handlers := by
    obtain ⟨_, _, _, _, rfl⟩ := hmap.state
    exact ⟨rfl, rfl⟩
  have hmapped := hmap.mapped
  have hcur : cur' = cur + 4096 * missing s.mem.phys s.paging (dirIndex virt) := by
    rcases hmap.heap with ⟨hp, _, hcur⟩ | ⟨t, hp, halloc, habove, hcur, _⟩
    · rw [missing, hp]
      exact hcur
    · obtain ⟨ht, _, _⟩ := h.booting.alloc_table hl halloc
      rw [missing, hp]
      simp only [Bool.false_eq_true, if_false]
      omega
  have hstores : ∀ x, StructureFrames s.paging cur' x ∨ BootScreen x → PagingStores layout s₀ x := by
    have hge := h.booting.tables.dir_ge
    have hle := hbooting.cur_le
    have hphysDir := physOf_add (v := s.paging.pageDirectory) (by omega)
    rintro x (⟨hx, hx'⟩ | hx)
    · exact .inr ⟨by omega, by omega⟩
    · exact .inl hx
  refine ⟨cur', hbooting, hpaging ▸ hdir, ?_, fun i hi hp => ?_, fun v => ?_, Nat.le_trans h.row hmap.row,
    h.stores.trans (hmap.stores.mono hstores), hhandlers.trans h.handlers⟩
  · unfold TablesCounted
    rw [hpaging]
    have h₀ := missing_step hmapped (i := 0) (by omega)
    have h₁ := missing_step hmapped (i := 768) (by omega)
    have h₂ := missing_step hmapped (i := 769) (by omega)
    rcases hi with hi | hi | hi <;> rw [hi] at hcur h₀ h₁ h₂ <;> simp at h₀ h₁ h₂ <;> omega
  · by_cases heq : i = dirIndex virt
    · exact ⟨virt, heq.symm, by simp⟩
    · have hkept := (hmapped.kept i hi fun h => absurd h heq).1
      rw [hpaging, hkept] at hp
      obtain ⟨v, rfl, hv⟩ := h.used i hi hp
      refine ⟨v, rfl, ?_⟩
      split
      · simp
      · exact hv
  · rw [hpaging, hmapped.walk v, h.walk v, writable_mappedEntry (by decide)]

end Mapping

/-- The first `n` pages are mapped to themselves. -/
def lowPages (n : Nat) (v : Word) : Option Leaf :=
  if pageOf v < n then some { frame := 4096 * pageOf v, writable := true } else none

/-- The first megabyte is mapped, and the first `n` pages of the kernel. -/
def kernelPages (layout : Layout) (n : Nat) (v : Word) : Option Leaf :=
  if pageOf v < 256 then some { frame := 4096 * pageOf v, writable := true }
  else if pageOf layout.kernelStart ≤ pageOf v ∧ pageOf v < pageOf layout.kernelStart + n then
    some { frame := 4096 * pageOf v - 0xC0000000, writable := true }
  else none

section Loops

variable {layout : Layout} {s₀ s : Kernel Mmu} {cur : Nat} {T : Prop}

/-- The loop over the first megabyte. -/
theorem lowLoop_returnsIf (h : Mapping layout s₀ s cur fun _ => none) (hl : layout.Linked)
    (hroom : T → roundUp s₀.alloc.currentBase.toNat + 0x5000 ≤ layout.earlyKmallocEnd.toNat) :
    ReturnsIf T (forUp (fun i => do let _ ← pageIdentMap (BitVec.ofNat 32 i * pageSize) pageEntryRw) 0
      (pagesPerMb 1#32).toNat) s fun _ s' => ∃ cur', Mapping layout s₀ s' cur' (lowPages 256) := by
  have hcount : (pagesPerMb 1#32).toNat = 256 := by decide
  rw [hcount]
  have hempty : Mapping layout s₀ s cur (lowPages 0) := h.congr fun v => (if_neg (Nat.not_lt_zero _)).symm
  refine (ReturnsIf.forUp (I := fun i s => ∃ cur, Mapping layout s₀ s cur (lowPages i)) ⟨cur, hempty⟩ ?_).mono
    fun _ _ hdone => by simpa using hdone
  rintro i s₁ _ hi ⟨cur₁, h₁⟩
  have hsize : pageSize.toNat = 4096 := by decide
  have haddr : (BitVec.ofNat 32 i * pageSize).toNat = 4096 * i := by
    rw [BitVec.toNat_mul, hsize, BitVec.toNat_ofNat]
    omega
  have hlow : dirIndex (BitVec.ofNat 32 i * pageSize) = 0 := by
    unfold dirIndex
    omega
  refine (h₁.step hl hroom (by omega) (by omega) (.inl hlow)).bind ?_
  rintro r s₂ ⟨cur₂, h₂⟩
  refine .of_returns (.of_eq rfl ⟨cur₂, h₂.congr fun v => ?_⟩)
  have hpage : pageOf (BitVec.ofNat 32 i * pageSize) = i := by
    unfold pageOf
    omega
  rw [hpage, haddr]
  unfold lowPages
  by_cases heq : pageOf v = i
  · rw [if_pos heq, if_pos (by omega), heq]
  · rw [if_neg heq]
    exact if_congr (by omega) rfl rfl

/-- The loop over the kernel, at its page `k`. -/
theorem mapKernelPages_returnsIf {virtEnd : Word} {n : Nat} (hl : layout.Linked)
    (hroom : T → roundUp s₀.alloc.currentBase.toNat + 0x5000 ≤ layout.earlyKmallocEnd.toNat)
    (hend : virtEnd.toNat = layout.kernelStart.toNat + 4096 * n) (hfit : virtEnd.toNat ≤ 0xC0700000)
    (m k fuel : Nat) (hk : k + m = n) (hfuel : m < fuel) {cur : Nat} {s : Kernel Mmu}
    (h : Mapping layout s₀ s cur (kernelPages layout k)) :
    ReturnsIf T (mapKernelPages virtEnd fuel (layout.kernelStart + BitVec.ofNat 32 (4096 * k))
      (layout.kernelStart - virtBase + BitVec.ofNat 32 (4096 * k))) s fun _ s' =>
      ∃ cur', Mapping layout s₀ s' cur' (kernelPages layout n) := by
  obtain ⟨hlow, hlowmod, hgt, hle⟩ := hl.start_eq
  have hmod := hl.start_mod
  have hbase : (layout.kernelStart - virtBase).toNat = layout.lowEnd := toNat_sub_virtBase (by omega)
  induction m generalizing k fuel cur s with
  | zero =>
      obtain ⟨fuel, rfl⟩ : ∃ fuel', fuel = fuel' + 1 := ⟨fuel - 1, by omega⟩
      obtain rfl : k = n := by omega
      have hvirt : (layout.kernelStart + BitVec.ofNat 32 (4096 * k)).toNat = layout.kernelStart.toNat + 4096 * k :=
        toNat_add_ofNat (by omega)
      have hstop : ¬layout.kernelStart + BitVec.ofNat 32 (4096 * k) < virtEnd := by
        rw [BitVec.lt_def, hvirt]
        omega
      rw [mapKernelPages, if_neg hstop]
      exact .of_returns (.of_eq rfl ⟨cur, h⟩)
  | succ m ih =>
      obtain ⟨fuel, rfl⟩ : ∃ fuel', fuel = fuel' + 1 := ⟨fuel - 1, by omega⟩
      have hvirt : (layout.kernelStart + BitVec.ofNat 32 (4096 * k)).toNat = layout.kernelStart.toNat + 4096 * k :=
        toNat_add_ofNat (by omega)
      have hphys : (layout.kernelStart - virtBase + BitVec.ofNat 32 (4096 * k)).toNat = layout.lowEnd + 4096 * k := by
        rw [toNat_add_ofNat (by omega), hbase]
      have hgo : layout.kernelStart + BitVec.ofNat 32 (4096 * k) < virtEnd := by
        rw [BitVec.lt_def, hvirt]
        omega
      have hshift : ∀ a : Word, a + BitVec.ofNat 32 (4096 * k) + pageSize = a + BitVec.ofNat 32 (4096 * (k + 1)) := by
        intro a
        rw [BitVec.add_assoc, pageSize, ← BitVec.ofNat_add, Nat.mul_succ]
      rw [mapKernelPages, if_pos hgo, hshift, hshift]
      refine (h.step hl hroom (by omega) (by omega) (by unfold dirIndex; omega)).bind ?_
      rintro r s₁ ⟨cur₁, h₁⟩
      refine ih (k + 1) fuel (by omega) (by omega) (h₁.congr fun v => ?_)
      have hpage : pageOf (layout.kernelStart + BitVec.ofNat 32 (4096 * k)) = pageOf layout.kernelStart + k := by
        unfold pageOf
        omega
      have hstart : 786688 < pageOf layout.kernelStart ∧
          4096 * pageOf layout.kernelStart = layout.kernelStart.toNat := by
        unfold pageOf
        omega
      rw [hpage, hphys]
      unfold kernelPages
      by_cases heq : pageOf v = pageOf layout.kernelStart + k
      · have hframe : layout.lowEnd + 4096 * k = 4096 * pageOf v - 0xC0000000 := by omega
        rw [if_pos heq, if_neg (by omega), if_pos (by omega), hframe]
      · rw [if_neg heq]
        split
        · rfl
        · exact if_congr (by omega) rfl rfl

theorem kernelPages_eq (hl : layout.Linked) {n : Nat}
    (hend : layout.kernelStart.toNat + 4096 * n = roundUp layout.kernelEnd.toNat) (v : Word) :
    kernelPages layout n v = layout.initial v := by
  have hmod := hl.start_mod
  have hstart : 4096 * pageOf layout.kernelStart = layout.kernelStart.toNat := by
    unfold pageOf
    omega
  have hlow : pageOf v < 256 ↔ v.toNat < 0x100000 := by
    unfold pageOf
    omega
  have hkernel : pageOf layout.kernelStart ≤ pageOf v ∧ pageOf v < pageOf layout.kernelStart + n ↔
      layout.kernelStart.toNat ≤ v.toNat ∧ v.toNat < roundUp layout.kernelEnd.toNat := by
    unfold pageOf at *
    omega
  exact if_congr hlow rfl (if_congr hkernel rfl rfl)

theorem mapLowAndKernel_returnsIf (h : Mapping layout s₀ s cur fun _ => none) (hl : layout.Linked)
    (hroom : T → roundUp s₀.alloc.currentBase.toNat + 0x5000 ≤ layout.earlyKmallocEnd.toNat) :
    ReturnsIf T (mapLowAndKernel layout) s fun _ s' => ∃ cur', Mapping layout s₀ s' cur' layout.initial := by
  have hmod := hl.start_mod
  have hstart := hl.start_le
  have hlt := hl.start_lt
  have hsize := hl.size_lt
  have hroundle := le_roundUp layout.kernelEnd.toNat
  have hroundmod := roundUp_mod layout.kernelEnd.toNat
  have hroundlt : roundUp layout.kernelEnd.toNat ≤ 0xC0700000 := roundUp_le (by omega) (by decide)
  obtain ⟨n, hn⟩ : ∃ n, layout.kernelStart.toNat + 4096 * n = roundUp layout.kernelEnd.toNat :=
    ⟨(roundUp layout.kernelEnd.toNat - layout.kernelStart.toNat) / 4096, by omega⟩
  have hend : (pageAlignUp layout.kernelEnd).toNat = layout.kernelStart.toNat + 4096 * n := by
    rw [toNat_pageAlignUp, hn]
    exact Nat.mod_eq_of_lt (by omega)
  refine (lowLoop_returnsIf h hl hroom).bind ?_
  rintro _ s₁ ⟨cur₁, h₁⟩
  have hnone : Mapping layout s₀ s₁ cur₁ (kernelPages layout 0) := by
    refine h₁.congr fun v => ?_
    unfold lowPages kernelPages
    rw [if_neg (by omega : ¬(pageOf layout.kernelStart ≤ pageOf v ∧ pageOf v < pageOf layout.kernelStart + 0))]
  have hloop := mapKernelPages_returnsIf hl hroom hend (by omega) n 0 (2 ^ 20) (by omega) (by omega) hnone
  have hzero : ∀ a : Word, a + BitVec.ofNat 32 (4096 * 0) = a := fun a => BitVec.add_zero a
  rw [hzero, hzero] at hloop
  refine hloop.mono ?_
  rintro _ s₂ ⟨cur₂, h₂⟩
  exact ⟨cur₂, h₂.congr fun v => kernelPages_eq hl hn v⟩

end Loops

/-! ## The switch -/

/-- The kernel runs on its own tables, which end at `cur`. -/
structure Switched (layout : Layout) (s : Kernel Mmu) (cur : Nat) : Prop where
  on : s.mem.pagingOn = true
  root : s.mem.root = physOf s.paging.pageDirectory
  enabled : s.paging.kernelPagingEnabled = true
  tables : Tables s.mem.phys s.paging cur
  low : layout.kernelStart.toNat ≤ s.paging.pageDirectory.toNat
  heap : s.alloc.InHeap layout.earlyKmallocStart layout.earlyKmallocEnd
  base : cur ≤ s.alloc.currentBase.toNat
  console : s.vga.LineStart

/-- What `init_paging` leaves. -/
structure AfterPaging (layout : Layout) (s₀ s : Kernel Mmu) : Prop where
  switched : Switched layout s s.alloc.currentBase.toNat
  dir : s.paging.pageDirectory.toNat = roundUp s₀.alloc.currentBase.toNat
  walk : ∀ v, s.mem.walk v = layout.initial v
  counted : TablesCounted s.mem.phys s.paging s.alloc.currentBase.toNat
  used : TablesUsed s.mem.phys s.paging layout.initial
  row : s₀.vga.y.toNat ≤ s.vga.y.toNat
  stores : AgreeOff (PagingStores layout s₀) s₀.mem.phys s.mem.phys
  handlers : ∀ n, s.handlers n = if n = 14 then layout.pageFaultHandler else s₀.handlers n

section Switch

variable {layout : Layout} {s₀ s : Kernel Mmu} {cur : Nat} {T : Prop}

theorem shortFormat_irq (num : Word) : ShortFormat (cstr "IRQ %d registered\n") (slots [num]) :=
  ⟨rfl, by decide, by decide⟩

theorem shortFormat_pagedir (phys dir : Word) :
    ShortFormat (cstr "pagedir=%p, virtpagedir=%p") (slots [phys, dir]) := ⟨rfl, by decide, by decide⟩

theorem switchDirectory_returns (h : Mapping layout s₀ s cur layout.initial) (hl : layout.Linked) :
    Returns (switchDirectory layout) s fun _ s' => AfterPaging layout s₀ s' := by
  have hb := h.booting
  have hscreen : ∀ x, BootScreen x → BootStores layout x := fun x hx => .inl (bootScreen_low hx)
  have hcur := hb.tables.cur_ge
  have hle := hb.cur_le
  have hge := hb.tables.dir_ge
  have hdir := hb.kernelPage hl hb.tables.dir_mod (Nat.le_refl _) (by omega)
  -- the handler
  obtain ⟨_, _, hirq, ⟨m₁, ports₁, vga₁, rfl, hm₁, hy₁⟩, hready₁⟩ := kPrintf_printed (shortFormat_irq (BitVec.ofInt 32 14))
    (hb.mapped.screen hl (fun x hx => hx) hscreen) hb.console (by omega)
  have hregister : isrRegisterInterruptHandler 14 layout.pageFaultHandler s = .ok ((), { s with
      mem := s.mem.withPhys m₁, ports := ports₁, vga := vga₁
      handlers := fun n => if n = 14 then layout.pageFaultHandler else s.handlers n }) := by
    rw [isrRegisterInterruptHandler, bind_run hirq]
    rfl
  -- the line
  have hmapped₁ := hb.mapped.agree (hm₁.mono hscreen)
  have htranslate₁ := virtToPhys_boot (s := { s with
    mem := s.mem.withPhys m₁, ports := ports₁, vga := vga₁
    handlers := fun n => if n = 14 then layout.pageFaultHandler else s.handlers n }) hmapped₁ hl hb.disabled hdir
  obtain ⟨_, _, hline, ⟨m₂, ports₂, vga₂, rfl, hm₂, hy₂⟩, hstart⟩ := kPrintfln_printed (s := { s with
    mem := s.mem.withPhys m₁, ports := ports₁, vga := vga₁
    handlers := fun n => if n = 14 then layout.pageFaultHandler else s.handlers n })
    (shortFormat_pagedir (s.paging.pageDirectory - virtBase) s.paging.pageDirectory)
    (hmapped₁.screen hl (fun x hx => hx) hscreen) hready₁ (by decide)
  have hmapped₂ := hmapped₁.agree (hm₂.mono hscreen)
  have htranslate₂ := virtToPhys_boot (s := { s with
    mem := s.mem.withPhys m₂, ports := ports₂, vga := vga₂
    handlers := fun n => if n = 14 then layout.pageFaultHandler else s.handlers n }) hmapped₂ hl hb.disabled hdir
  have hagree : AgreeOff BootScreen s.mem.phys m₂ := hm₁.trans hm₂
  have hapart : ∀ x, BootScreen x → ¬StructureFrames s.paging cur x := fun x => bootScreen_apart hb.tables
  refine ⟨(), _, (bind_run hregister).trans ((bind_run (get_apply _)).trans ((bind_run htranslate₁).trans
    ((bind_run hline).trans ((bind_run htranslate₂).trans rfl)))), ?_⟩
  have hphys : (s.paging.pageDirectory - virtBase).toNat = physOf s.paging.pageDirectory :=
    toNat_sub_virtBase (by omega)
  have hroot : Entry.frame (s.paging.pageDirectory - virtBase) = physOf s.paging.pageDirectory := by
    have hadd := physOf_add (v := s.paging.pageDirectory) (by omega)
    have hmod := hb.tables.dir_mod
    rw [Entry.frame_of_aligned (by omega), hphys]
  have hslots := fun i hi => (hb.tables.agree_slots hagree hapart (i := i) hi).1
  refine ⟨⟨?_, hroot, rfl, ?_, hb.low, hb.heap, Nat.le_refl _, hstart⟩, h.dir, fun v => ?_,
    hb.base ▸ h.counted.congr hslots, h.used.congr hslots, ?_, h.stores.trans (hagree.mono fun _ hx => .inl hx),
    fun n => ?_⟩
  · simp [Mmu.pagingOn]
  · have htables := hb.tables.agree hagree hapart
    rw [← hb.base] at htables
    exact htables.enabled true
  · rw [← h.walk v, Mmu.walk, Mmu.root, hroot]
    exact hb.tables.steady hapart v m₂ hagree
  · exact Nat.le_trans h.row (Nat.le_trans hy₁ hy₂)
  · rw [← h.handlers]

/-- `init_paging` comes back if the tables fit in the heap. -/
theorem initPaging_returnsIf (h : BeforePaging layout s) (hl : layout.Linked) :
    ReturnsIf (HeapRoom s) (initPaging layout) s fun _ s' => AfterPaging layout s s' := by
  have hmax := h.heap.maxBase
  have hroom : HeapRoom s → roundUp s.alloc.currentBase.toNat + 0x5000 ≤ layout.earlyKmallocEnd.toNat := fun hT => by
    rw [← hmax]
    exact hT
  refine (initTables_returnsIf h hl fun hT => by have hT := hroom hT; omega).bind ?_
  rintro _ s₁ ⟨cur, hb, hdir, hcur, hrow, hzero, hstores, hhandlers⟩
  have habsent : ∀ i, i < 1024 → Entry.present (dirOf s₁.mem.phys s₁.paging i) = false := fun i hi => by
    rw [hzero i hi]
    decide
  have hempty : Mapping layout s s₁ cur fun _ => none := by
    refine ⟨hb, hdir, ?_, fun i hi hp => ?_, fun v => ?_, hrow, hstores, hhandlers⟩
    · have hmissing : ∀ i, i < 1024 → missing s₁.mem.phys s₁.paging i = 1 := fun i hi => by
        rw [missing, habsent i hi]
        rfl
      have h₀ := hmissing 0 (by decide)
      have h₁ := hmissing 768 (by decide)
      have h₂ := hmissing 769 (by decide)
      unfold TablesCounted
      omega
    · rw [habsent i hi] at hp
      cases hp
    · rw [Tables.walk_eq, hzero _ (dirIndex_lt v)]
      exact leafOf_none (by decide)
  refine (mapLowAndKernel_returnsIf hempty hl hroom).bind ?_
  rintro _ s₂ ⟨cur₂, h₂⟩
  exact .of_returns (switchDirectory_returns h₂ hl)

end Switch

end LizaOS
