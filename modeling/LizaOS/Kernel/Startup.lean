-- SUMMARY: From the entry of the kernel to its timer, for every kernel the linker script links in the reach of the boot tables.
import LizaOS.Kernel.BootRun
import LizaOS.Linker

/-!
# Startup

`_start` as a whole, and `kmain` up to the boot module. The tables of the boot code map the kernel, which clears its own
`.bss` section through them; the interrupt table is in that section, and an entry that is not set has to be zero.
-/

namespace LizaOS

open Exec

/-! ## The code -/

/-- `STACK_SIZE` -/
def stackSize : Nat := 4 * 4096

/-- `_start` from where paging is on, up to the call of `kmain`: the arguments of the call. The scalar globals of the
kernel are in the section that is cleared. -/
def startHigher (sym : BootSymbols) (bssStart bssSize stack : Word) : K Mmu (Word × Word) := do
  repStosb bssStart 0#8 bssSize
  modify fun s => { Kernel.reset s.mem with ports := s.ports }
  let esp := stack + BitVec.ofNat 32 stackSize
  let magic ← load32 sym.multibootMagic
  store32 (esp - 4#32) magic
  let info ← load32 sym.multibootInfo
  store32 (esp - 8#32) info
  pure (info, magic)

/-- Where the linker has put the kernel, and what the kernel uses of its `.bss` section. -/
structure LinkedKernel where
  sections : Sections
  gdt : GdtSymbols
  idt : IdtLabels
  stack : Word
  pageFaultHandler : Word
  timerHandler : Word

namespace LinkedKernel

def layout (k : LinkedKernel) : Layout := k.sections.layout k.pageFaultHandler

def bss (k : LinkedKernel) : Extent := .ofLen k.sections.bssAt k.sections.bss

/-- The stack of the boot code. -/
def stackExtent (k : LinkedKernel) : Extent := .ofLen k.stack.toNat stackSize

/-- The objects are in the section, and apart from each other. The address that `gdt_set_entry` panics for is none of
an entry. -/
structure Proper (k : LinkedKernel) : Prop where
  fits : k.sections.Fits
  gdtTable : k.gdt.table.Within k.bss
  gdtPointer : k.gdt.pointer.Within k.bss
  idtTable : k.idt.table.Within k.bss
  idtPointer : k.idt.pointer.Within k.bss
  stack : k.stackExtent.Within k.bss
  gdtApart : k.gdt.table.Disjoint k.gdt.pointer
  idtApart : k.idt.table.Disjoint k.idt.pointer
  tablesApart : k.gdt.table.Disjoint k.idt.table ∧ k.gdt.table.Disjoint k.idt.pointer
  pointersApart : k.gdt.pointer.Disjoint k.idt.table ∧ k.gdt.pointer.Disjoint k.idt.pointer
  stackApart : k.idt.table.Disjoint k.stackExtent
  notDebugged : ∀ n : Nat, n < gdtDescriptors → k.gdt.entry n - 0xC0000000#32 ≠ 0x001010D8#32

end LinkedKernel

/-- From the entry of the kernel up to the boot module: the arguments `kmain` has been called with. -/
def startup (k : LinkedKernel) (pics : Pics) (eax ebx : Word) : K Mmu (Word × Word) := do
  start k.sections.symbols eax ebx
  let args ← startHigher k.sections.symbols (BitVec.ofNat 32 k.sections.bssAt) (BitVec.ofNat 32 k.sections.bss) k.stack
  kmainSetup k.layout k.gdt k.idt pics k.timerHandler
  pure args

/-! ## Without paging -/

/-- Code that stores in the extent only, while paging is off. -/
def Inside (e : Extent) (x : K Mmu Unit) : Prop :=
  ∀ s s', s.mem.pagingOn = false → x s = .ok ((), s') →
    s'.mem.pagingOn = false ∧ ∀ p, p ∉ e → s'.mem.phys p = s.mem.phys p

namespace Inside

variable {e : Extent} {x : K Mmu Unit} {a w : Word}

theorem pure : Inside e (pure ()) := by
  intro s s' hoff hrun
  cases hrun
  exact ⟨hoff, fun _ _ => rfl⟩

theorem bind {f : Unit → K Mmu Unit} (h : Inside e x) (hf : Inside e (f ())) : Inside e (x >>= f) := by
  intro s s' hoff hrun
  obtain ⟨_, s₁, hx, hrun⟩ := bind_ok.mp hrun
  obtain ⟨hoff₁, hsame⟩ := h s s₁ hoff hx
  obtain ⟨hoff', hsame'⟩ := hf s₁ s' hoff₁ hrun
  exact ⟨hoff', fun p hp => (hsame' p hp).trans (hsame p hp)⟩

theorem store32 (he : (Extent.ofLen a.toNat 4).Within e) (ha : a.toNat + 4 ≤ 2 ^ 32) (w : Word) :
    Inside e (store32 a w) := by
  intro s s' hoff hrun
  rw [store32_off_run hoff ha] at hrun
  cases hrun
  refine ⟨hoff, fun p hp => Bytes.write32_other ?_⟩
  have hout : p ∉ Extent.ofLen a.toNat 4 := fun h => hp (he.mem h)
  rw [Extent.mem_ofLen] at hout
  omega

theorem orWord (he : (Extent.ofLen a.toNat 4).Within e) (ha : a.toNat + 4 ≤ 2 ^ 32) (w : Word) :
    Inside e (orWord a w) := by
  intro s s' hoff hrun
  rw [LizaOS.orWord, bind_run (load32_off_run hoff ha)] at hrun
  exact store32 he ha _ s s' hoff hrun

theorem repStosb {edi ecx : Word} (hfits : edi.toNat + ecx.toNat ≤ 2 ^ 32)
    (he : (Extent.ofLen edi.toNat ecx.toNat).Within e) (al : Byte) : Inside e (repStosb edi al ecx) := by
  intro s s' hoff hrun
  refine forUp_whenReturns (I := fun _ s' => s'.mem.pagingOn = false ∧ ∀ p, p ∉ e → s'.mem.phys p = s.mem.phys p)
    ⟨hoff, fun _ _ => rfl⟩ (fun i s₁ _ hi ⟨hoff₁, hsame⟩ _ s₂ hstore => ?_) _ _ hrun
  rw [store8_off_run hoff₁] at hstore
  cases hstore
  refine ⟨hoff₁, fun p hp => ?_⟩
  have hin : edi.toNat + i ∈ e := he.mem ⟨Nat.le_add_right _ _, by simp only [Extent.ofLen]; omega⟩
  have hother : p ≠ edi.toNat + i := fun heq => hp (heq ▸ hin)
  rw [toNat_add_ofNat (by omega), phys_kernelWithPhys, Bytes.write8_other hother]
  exact hsame p hp

theorem mapLoop {table stop : Word} (he : (Extent.ofLen table.toNat 4096).Within e) (ha : table.toNat + 4096 ≤ 2 ^ 32)
    (phys : Word → Word) (fuel : Nat) (eax : Word) : Inside e (mapLoop table phys stop fuel eax) := by
  induction fuel generalizing eax with
  | zero =>
      intro s s' _ hrun
      cases hrun
  | succ fuel ih =>
      have hentry := toNat_entry ha eax
      have hlt := tableIndex_lt eax
      have hwithin : (Extent.ofLen (table + 4#32 * ((eax >>> pageShift) &&& 0x3ff#32)).toNat 4).Within e := by
        obtain ⟨hlow, hhigh⟩ := he
        simp only [Extent.ofLen] at hlow hhigh
        constructor
        · simp only [Extent.ofLen, hentry]
          omega
        · simp only [Extent.ofLen, hentry]
          omega
      rw [LizaOS.mapLoop]
      refine (store32 hwithin (by omega) _).bind ((orWord hwithin (by omega) _).bind ?_)
      dsimp only
      split
      · exact ih _
      · exact pure

end Inside

section Boot

variable {sym : BootSymbols} {s s' : Kernel Mmu}

/-- `_start` stores the two words, and otherwise in the early `.bss` section. -/
theorem start_words (h : sym.Linked) (hoff : s.mem.pagingOn = false) {eax ebx : Word}
    (hmagic : sym.multibootMagic.toNat + 4 ≤ sym.earlyBssStart.toNat)
    (hinfo : sym.multibootInfo.toNat + 4 ≤ sym.earlyBssStart.toNat)
    (hapart : sym.multibootMagic.toNat + 4 ≤ sym.multibootInfo.toNat)
    (hrun : start sym eax ebx s = .ok ((), s')) :
    s'.mem.phys.read32 sym.multibootMagic.toNat = eax ∧ s'.mem.phys.read32 sym.multibootInfo.toNat = ebx := by
  have hle := h.end_le
  have hlow := h.bss_low
  have hhigh := h.bss_high
  have hend := h.bss_end
  obtain ⟨hlowmem, hkernel, hdir⟩ := h.tables_toNat
  let e : Extent := .ofLen sym.earlyBssStart.toNat sym.earlyBssSize.toNat
  have hwithin : ∀ a n, sym.pageDirectory.toNat ≤ a → a + n ≤ sym.pageDirectory.toNat + 0x3000 →
      (Extent.ofLen a n).Within e := fun a n ha hn => by
    constructor
    · exact Nat.le_trans hlow ha
    · exact Nat.le_trans hn hhigh
  have hslot : (sym.pageDirectory + 4#32 * (kernelBase >>> 22)).toNat = sym.pageDirectory.toNat + 4 * 768 := by
    have hindex : (4#32 * (kernelBase >>> 22)).toNat = 4 * 768 := by decide
    rw [toNat_add_of_lt (by omega), hindex]
  have hrest : Inside e (do
      repStosb sym.earlyBssStart 0#8 sym.earlyBssSize
      store32 sym.pageDirectory sym.lowmemPt
      orWord sym.pageDirectory pagePerm
      lowmem sym
      store32 (sym.pageDirectory + 4#32 * (kernelBase >>> 22)) sym.kernelPt
      orWord (sym.pageDirectory + 4#32 * (kernelBase >>> 22)) pagePerm
      higher sym) := by
    refine (Inside.repStosb (by omega) ⟨Nat.le_refl _, Nat.le_refl _⟩ _).bind ?_
    refine (Inside.store32 (hwithin _ _ (by omega) (by omega)) (by omega) _).bind ?_
    refine (Inside.orWord (hwithin _ _ (by omega) (by omega)) (by omega) _).bind ?_
    refine (Inside.mapLoop (hwithin _ _ (by omega) (by omega)) (by omega) _ _ _).bind ?_
    refine (Inside.store32 (hwithin _ _ (by omega) (by omega)) (by omega) _).bind ?_
    refine (Inside.orWord (hwithin _ _ (by omega) (by omega)) (by omega) _).bind ?_
    exact Inside.mapLoop (hwithin _ _ (by omega) (by omega)) (by omega) _ _ _
  obtain ⟨_, s₁, hfirst, hrun⟩ := bind_ok.mp hrun
  obtain ⟨_, s₂, hsecond, hrun⟩ := bind_ok.mp hrun
  rw [store32_off_run hoff (by omega)] at hfirst
  cases hfirst
  have hstored := store32_off_run (s := s.withPhys (s.mem.phys.write32 sym.multibootMagic.toNat eax)) (w := ebx) hoff
    (by omega : sym.multibootInfo.toNat + 4 ≤ 2 ^ 32)
  rw [hstored] at hsecond
  cases hsecond
  obtain ⟨_, s₃, h₃, hrun⟩ := bind_ok.mp hrun
  obtain ⟨_, s₄, h₄, hrun⟩ := bind_ok.mp hrun
  obtain ⟨_, s₅, h₅, hrun⟩ := bind_ok.mp hrun
  obtain ⟨_, s₆, h₆, hrun⟩ := bind_ok.mp hrun
  obtain ⟨_, s₇, h₇, hrun⟩ := bind_ok.mp hrun
  obtain ⟨_, s₈, h₈, hrun⟩ := bind_ok.mp hrun
  obtain ⟨_, s₉, h₉, hrun⟩ := bind_ok.mp hrun
  cases hrun
  obtain ⟨_, hsame⟩ := hrest (s.withPhys ((s.mem.phys.write32 sym.multibootMagic.toNat eax).write32
    sym.multibootInfo.toNat ebx)) s₉ hoff (bind_ok.mpr ⟨_, _, h₃, bind_ok.mpr ⟨_, _, h₄, bind_ok.mpr ⟨_, _, h₅,
    bind_ok.mpr ⟨_, _, h₆, bind_ok.mpr ⟨_, _, h₇, bind_ok.mpr ⟨_, _, h₈, h₉⟩⟩⟩⟩⟩⟩)
  have hread : ∀ a, a + 4 ≤ sym.earlyBssStart.toNat → s₉.mem.phys.read32 a =
      ((s.mem.phys.write32 sym.multibootMagic.toNat eax).write32 sym.multibootInfo.toNat ebx).read32 a := by
    intro a ha
    refine Bytes.read32_congr fun x hx hx' => hsame x fun hin => ?_
    have hle := hin.1
    simp only [e, Extent.ofLen] at hle
    omega
  refine ⟨(hread _ hmagic).trans ?_, (hread _ hinfo).trans (Bytes.read32_write32_same ..)⟩
  rw [Bytes.read32_write32_other (by omega)]
  exact Bytes.read32_write32_same ..

end Boot

/-! ## Behind the boot tables -/

section Higher

variable {layout : Layout} {s : Kernel Mmu}

/-- `rep stosb` in the image. -/
theorem repStosb_mapped (hl : layout.Linked) (hm : BootMapped s.mem layout) {edi ecx : Word} (al : Byte)
    (hfits : edi.toNat + ecx.toNat ≤ 2 ^ 32) (hin : (Extent.ofLen edi.toNat ecx.toNat).Within layout.image) :
    Returns (repStosb edi al ecx) s fun _ s' => ∃ phys, s' = s.withPhys phys ∧
      AgreeOff layout.ImageFrame s.mem.phys phys ∧
      ∀ x, x ∈ Extent.ofLen edi.toNat ecx.toNat → s'.mem.image.ram x = al := by
  let Filled (i : Nat) (s' : Kernel Mmu) : Prop := ∃ phys, s' = s.withPhys phys ∧
    AgreeOff layout.ImageFrame s.mem.phys phys ∧ ∀ x, edi.toNat ≤ x → x < edi.toNat + i → s'.mem.image.ram x = al
  have hloop : Returns (repStosb edi al ecx) s fun _ s' => Filled (0 + ecx.toNat) s' := by
    refine forUp_returns (I := Filled) ⟨s.mem.phys, rfl, .refl _, fun x hx hx' => by omega⟩ ?_
    rintro i _ _ hi ⟨phys, rfl, hagree, hfilled⟩
    have haddr : (edi + BitVec.ofNat 32 i).toNat = edi.toNat + i := toNat_add_ofNat (by omega)
    obtain ⟨phys', hstore, hagree', himage⟩ := Mirrors.store8 hl (Layout.inImage hin hfits (by omega : i < ecx.toNat)) al
      (s.withPhys phys) () _ (hm.agree (hagree.mono fun _ hx => hx.bootStores)) rfl
    have hmem : ((s.withPhys phys).withPhys phys').mem.image =
        (s.withPhys phys).mem.image.setByte (edi + BitVec.ofNat 32 i) al := congrArg Kernel.mem himage
    refine .of_eq hstore ⟨phys', rfl, hagree.trans hagree', fun x hx hx' => ?_⟩
    rw [hmem]
    show Bytes.write8 _ _ _ _ = _
    rw [haddr]
    by_cases heq : x = edi.toNat + i
    · rw [heq]
      exact Bytes.write8_same al
    · rw [Bytes.write8_other heq]
      exact hfilled x hx (by omega)
  refine hloop.mono ?_
  rintro _ _ ⟨phys, rfl, hagree, hfilled⟩
  exact ⟨phys, rfl, hagree, fun x hx => hfilled x hx.1 (by have h := hx.2; simp only [Extent.ofLen] at h; omega)⟩

/-- A word pushed on the stack. -/
theorem push_mapped (hl : layout.Linked) (hm : BootMapped s.mem layout) {a : Word} (hfits : a.toNat + 4 ≤ 2 ^ 32)
    (hin : (Extent.ofLen a.toNat 4).Within layout.image) (w : Word) :
    ∃ phys, store32 a w none s = .ok ((), s.withPhys phys) ∧ AgreeOff layout.ImageFrame s.mem.phys phys ∧
      ∀ x, x ∉ Extent.ofLen a.toNat 4 → (s.withPhys phys).mem.image.ram x = s.mem.image.ram x := by
  obtain ⟨phys, hstore, hagree, himage⟩ := Mirrors.store32 hl (fun k hk => Layout.inImage hin hfits hk) w s () _ hm rfl
  have hmem : (s.withPhys phys).mem.image = s.mem.image.setWord a w := congrArg Kernel.mem himage
  refine ⟨phys, hstore, hagree, fun x hx => ?_⟩
  rw [Extent.mem_ofLen] at hx
  rw [hmem, Flat.setWord_ram hfits]
  exact Bytes.write32_other (by omega)

/-- A word of the early sections. -/
theorem load32_early (hl : layout.Linked) (hm : BootMapped s.mem layout) {a : Word} (ha : a.toNat + 4 ≤ layout.lowEnd)
    (hpage : a.toNat % 4096 + 4 ≤ 4096) : load32 a none s = .ok (s.mem.phys.read32 a.toNat, s) := by
  have hload := load32_seen (hm.seen_self hl (by omega : a.toNat < layout.lowEnd)) hpage
  rwa [four_pageOf] at hload

end Higher

/-! ## The whole way -/

namespace LinkedKernel

variable {k : LinkedKernel}

theorem Proper.linked (h : k.Proper) : k.layout.Linked := h.fits.layout_linked k.pageFaultHandler

theorem Proper.addresses (h : k.Proper) : k.layout.earlyKmallocStart.toNat = k.sections.earlyKmallocAt ∧
    k.layout.earlyKmallocEnd.toNat = k.sections.earlyKmallocAt + 0x100000 ∧ k.sections.earlyKmallocAt % 4096 = 0 ∧
    k.layout.kernelStart.toNat ≤ k.sections.bssAt ∧ k.sections.bssAt + k.sections.bss ≤ k.sections.earlyKmallocAt ∧
    k.sections.earlyKmallocAt + 0x100000 ≤ 0xC0400000 ∧ k.layout.kernelEnd.toNat = k.sections.earlyKmallocAt + 0x100000 ∧
    k.layout.lowEnd = k.sections.earlyBssAt + 0x3000 := by
  obtain ⟨_, _, _, hstart, hend, hle, hheap, hfits⟩ := h.fits.symbols_toNat
  have hordered := k.sections.ordered
  have hinside := hordered.heap
  have hstart : k.layout.kernelStart.toNat = k.sections.earlyBssAt + 0x3000 + 0xC0000000 := hstart
  have hend : k.layout.kernelEnd.toNat = k.sections.kernelEnd := hend
  have hlast : k.layout.earlyKmallocEnd.toNat = k.sections.kernelEnd := hend
  have hfirst : k.layout.earlyKmallocStart.toNat = k.sections.earlyKmallocAt := by
    show (BitVec.ofNat 32 k.sections.earlyKmallocAt).toNat = _
    rw [BitVec.toNat_ofNat]
    exact Nat.mod_eq_of_lt (by omega)
  obtain ⟨hlow, _⟩ := h.linked.start_eq
  exact ⟨hfirst, by omega, hordered.heap_mod, by omega, hinside, by omega, by omega, by omega⟩

theorem Proper.bss_within (h : k.Proper) : k.bss.Within k.layout.image := by
  obtain ⟨hfirst, _, _, hlow, hhigh, _, hend, _⟩ := h.addresses
  constructor
  · exact hlow
  · simp only [bss, Extent.ofLen, Layout.image, Nat.le_min]
    omega

/-- What is in the section ends in the reach of the boot tables. -/
theorem Proper.fits_of_within (h : k.Proper) {lo n : Nat} (hin : (Extent.ofLen lo n).Within k.bss) :
    lo + n ≤ 0xC0400000 := by
  obtain ⟨_, _, _, _, hhigh, hle, _⟩ := h.addresses
  have hin := hin.2
  simp only [bss, Extent.ofLen] at hin
  omega

theorem Proper.objects (h : k.Proper) : KernelObjects k.layout k.gdt k.idt := by
  have hbss := h.bss_within
  have hfits : ∀ {lo n : Nat}, (Extent.ofLen lo n).Within k.bss → lo + n ≤ 2 ^ 32 := fun hin =>
    Nat.le_trans (h.fits_of_within hin) (by decide)
  refine ⟨⟨hfits h.gdtTable, hfits h.gdtPointer, h.gdtApart⟩, h.gdtTable.trans hbss, h.gdtPointer.trans hbss,
    ⟨hfits h.idtTable, hfits h.idtPointer, h.idtApart⟩, h.idtTable.trans hbss, h.idtPointer.trans hbss, ?_,
    h.notDebugged⟩
  rintro x (hx | hx)
  · exact ⟨h.tablesApart.1.not_mem hx, h.tablesApart.2.not_mem hx⟩
  · exact ⟨h.pointersApart.1.not_mem hx, h.pointersApart.2.not_mem hx⟩

/-- What `kmain` is called with, and on. -/
structure Called (k : LinkedKernel) (s s' : Kernel Mmu) : Prop where
  mapped : BootMapped s'.mem k.layout
  zero : ∀ x, x ∈ k.idt.table → s'.mem.image.ram x = 0#8
  reset : ∃ m, s' = { Kernel.reset m with ports := s.ports }

variable {s : Kernel Mmu} {eax ebx : Word}

/-- A word below the top of the stack. -/
theorem Proper.stack_word (h : k.Proper) {n : Nat} (hn : 4 ≤ n) (hn' : n ≤ stackSize) :
    (k.stack + BitVec.ofNat 32 stackSize - BitVec.ofNat 32 n).toNat + 4 ≤ 2 ^ 32 ∧
      (Extent.ofLen (k.stack + BitVec.ofNat 32 stackSize - BitVec.ofNat 32 n).toNat 4).Within k.stackExtent := by
  have hfits := h.fits_of_within h.stack
  have hsize : stackSize = 16384 := rfl
  have htop : (k.stack + BitVec.ofNat 32 stackSize).toNat = k.stack.toNat + stackSize := toNat_add_ofNat (by omega)
  have hoff : (BitVec.ofNat 32 n).toNat = n := by
    rw [BitVec.toNat_ofNat]
    exact Nat.mod_eq_of_lt (by omega)
  have haddr : (k.stack + BitVec.ofNat 32 stackSize - BitVec.ofNat 32 n).toNat = k.stack.toNat + stackSize - n := by
    rw [BitVec.toNat_sub_of_le (by rw [BitVec.le_def, htop, hoff]; omega), htop, hoff]
  refine ⟨by omega, ?_, ?_⟩
  · simp only [stackExtent, Extent.ofLen, haddr]
    omega
  · simp only [stackExtent, Extent.ofLen, haddr]
    omega

theorem Proper.startHigher_returns (h : k.Proper) (hm : BootMapped s.mem k.layout)
    (hmagic : s.mem.phys.read32 k.sections.symbols.multibootMagic.toNat = eax)
    (hinfo : s.mem.phys.read32 k.sections.symbols.multibootInfo.toNat = ebx) :
    Returns (startHigher k.sections.symbols (BitVec.ofNat 32 k.sections.bssAt) (BitVec.ofNat 32 k.sections.bss) k.stack) s
      fun args s' => args = (ebx, eax) ∧ Called k s s' := by
  obtain ⟨_, _, _, hlow, hhigh, hle, _, hlowEnd⟩ := h.addresses
  have hl := h.linked
  obtain ⟨hstart, _⟩ := hl.start_eq
  have hordered := k.sections.ordered
  have hdata := hordered.earlyBss
  have hmod : k.sections.earlyDataAt % 4096 = 0 := roundUp_mod _
  have hofNat : ∀ n, n ≤ 0xC0400000 → (BitVec.ofNat 32 n).toNat = n := fun n hn => by
    rw [BitVec.toNat_ofNat]
    exact Nat.mod_eq_of_lt (by omega)
  have hbssAt : (BitVec.ofNat 32 k.sections.bssAt).toNat = k.sections.bssAt := hofNat _ (by omega)
  have hbss : (BitVec.ofNat 32 k.sections.bss).toNat = k.sections.bss := hofNat _ (by omega)
  have hwordAt : k.sections.symbols.multibootMagic.toNat = k.sections.earlyDataAt := hofNat _ (by omega)
  have hinfoAt : k.sections.symbols.multibootInfo.toNat = k.sections.earlyDataAt + 4 := hofNat _ (by omega)
  -- the section
  obtain ⟨_, _, hclear, phys₁, rfl, hagree₁, hfilled⟩ := repStosb_mapped hl hm 0#8 (by omega)
    (by rw [hbssAt, hbss]; exact h.bss_within :
      (Extent.ofLen (BitVec.ofNat 32 k.sections.bssAt).toNat (BitVec.ofNat 32 k.sections.bss).toNat).Within k.layout.image)
  rw [hbssAt, hbss] at hfilled
  have hm₁ : BootMapped (s.withPhys phys₁).mem k.layout := hm.agree (hagree₁.mono fun _ hx => hx.bootStores)
  -- what is below the kernel is as it was
  have hword : ∀ {phys : Bytes}, AgreeOff k.layout.ImageFrame s.mem.phys phys → ∀ a, a + 4 ≤ k.layout.lowEnd →
      phys.read32 a = s.mem.phys.read32 a := fun hagree a ha => hagree.read32 fun j hj hx => by
    have hx := hx.low
    omega
  -- the two arguments
  obtain ⟨hfits₁, hin₁⟩ := h.stack_word (by decide : 4 ≤ 4) (by decide)
  obtain ⟨phys₂, hpush, hagree₂, hkept⟩ := push_mapped (s := { Kernel.reset (s.withPhys phys₁).mem with ports := s.ports })
    hl hm₁ hfits₁ (hin₁.trans (h.stack.trans h.bss_within)) eax
  have hm₂ := hm₁.agree (hagree₂.mono fun _ hx => hx.bootStores)
  obtain ⟨hfits₂, hin₂⟩ := h.stack_word (by decide : 4 ≤ 8) (by decide)
  obtain ⟨phys₃, hpush', hagree₃, hkept'⟩ := push_mapped
    (s := { Kernel.reset ((s.withPhys phys₁).mem.withPhys phys₂) with ports := s.ports })
    hl hm₂ hfits₂ (hin₂.trans (h.stack.trans h.bss_within)) ebx
  have hload := load32_early (s := { Kernel.reset (s.withPhys phys₁).mem with ports := s.ports })
    (a := k.sections.symbols.multibootMagic) hl hm₁ (by omega) (by omega)
  have hload' := load32_early (s := { Kernel.reset ((s.withPhys phys₁).mem.withPhys phys₂) with ports := s.ports })
    (a := k.sections.symbols.multibootInfo) hl hm₂ (by omega) (by omega)
  rw [show ({ Kernel.reset (s.withPhys phys₁).mem with ports := s.ports } : Kernel Mmu).mem.phys.read32
    k.sections.symbols.multibootMagic.toNat = eax from (hword hagree₁ _ (by omega)).trans hmagic] at hload
  rw [show ({ Kernel.reset ((s.withPhys phys₁).mem.withPhys phys₂) with ports := s.ports } : Kernel Mmu).mem.phys.read32
    k.sections.symbols.multibootInfo.toNat = ebx from
      (hword (hagree₁.trans hagree₂) _ (by omega)).trans hinfo] at hload'
  refine ⟨(ebx, eax), { Kernel.reset ((s.withPhys phys₁).mem.withPhys phys₃) with ports := s.ports }, ?_, rfl,
    hm₂.agree (hagree₃.mono fun _ hx => hx.bootStores), fun x hx => ?_, _, rfl⟩
  · exact (bind_run hclear).trans ((bind_run modify_run).trans ((bind_run hload).trans ((bind_run hpush).trans
      ((bind_run hload').trans ((bind_run hpush').trans rfl)))))
  · have hnot := h.stackApart.not_mem hx
    have hlast := hkept' x fun hin => hnot (hin₂.mem hin)
    have hfirst := hkept x fun hin => hnot (hin₁.mem hin)
    exact hlast.trans (hfirst.trans (hfilled x (h.idtTable.mem hx)))

end LinkedKernel

section Startup

variable {k : LinkedKernel} {s : Kernel Mmu}

/-- A kernel of a little more than one megabyte. -/
def smallKernel : LinkedKernel where
  sections := { earlyText := 0x200, text := 0x8000, rodata := 0x2000, data := 0x100, bss := 0x8000 }
  gdt := { gGdt := 0xC0115000#32, gGdtPtr := 0xC0115030#32 }
  idt := { gIdt := 0xC0115100#32, gIdtPtr := 0xC0115040#32, stub := fun g => 0xC0107000#32 + BitVec.ofNat 32 (16 * g.vector) }
  stack := 0xC0111000#32
  pageFaultHandler := 0xC0108000#32
  timerHandler := 0xC0108100#32

theorem smallKernel_proper : smallKernel.Proper := by
  constructor <;> decide

end Startup

end LizaOS
