-- SUMMARY: kmain from its first line to the timer: it comes back, and what the processor and the devices then work with.
import LizaOS.Kernel.ModuleRun
import LizaOS.Libc.ConsolePorts
import LizaOS.Libc.FormatOutput
import LizaOS.Mm.Booted
import LizaOS.Mm.KernelImage

/-!
# Coming up

`kmain` up to the boot module: the screen, the heap, the descriptor tables, paging, the interrupt controllers and the
timer. Each part stores to memory of its own, so what one part has set up is there at the end, too.
-/

namespace LizaOS

open Exec

/-! ## The code -/

/-- `kmain` up to `init_paging` -/
def kmainTables (layout : Layout) (gdt : GdtSymbols) (idt : IdtLabels) : K Mmu Unit := do
  screenInit .black
  screenPutText (cstr "welcone to my os mydjbfv")
  kmallocEarlyInit layout.earlyKmallocStart layout.earlyKmallocEnd
  gdtInit gdt
  idtInit idt

/-- `inb` of a port of the interrupt controllers, which have been `pics` and have been sent all that has been sent
since. -/
def inbPicsFrom (pics : Pics) (port : Half) : K Mmu Byte := fun s => .ok ((pics.writes s.ports).inb port, s)

/-- `kmain` behind `init_paging`, up to the boot module. -/
def kmainDevices (pics : Pics) (timerHandler : Word) : K Mmu Unit := do
  pic8259Init (inbPicsFrom pics) outb
  timerInit timerHandler

def kmainSetup (layout : Layout) (gdt : GdtSymbols) (idt : IdtLabels) (pics : Pics) (timerHandler : Word) :
    K Mmu Unit := do
  kmainTables layout gdt idt
  initPaging layout
  kmainDevices pics timerHandler

/-! ## The screen -/

section Screen

variable {layout : Layout} {s : Kernel Mmu}

/-- Memory below the kernel is mapped to itself. -/
theorem BootMapped.seen_self {m : Mmu} (h : BootMapped m layout) (hl : layout.Linked) {v : Word}
    (hv : v.toNat < layout.lowEnd) : m.Seen (BootStores layout) v (4096 * pageOf v) := by
  obtain ⟨_, hmod, _, _⟩ := hl.start_eq
  have hpage : (BitVec.ofNat 32 (4096 * pageOf v)).toNat = 4096 * pageOf v := by
    have hlt := v.isLt
    rw [BitVec.toNat_ofNat]
    unfold pageOf
    omega
  have hlow : layout.LowPage (BitVec.ofNat 32 (4096 * pageOf v)) := by
    refine ⟨by omega, ?_⟩
    rw [hpage]
    unfold pageOf
    omega
  have hseen := h.seen_low hlow
  rw [hpage] at hseen
  refine hseen.congr ?_
  have hdiv : pageOf (BitVec.ofNat 32 (4096 * pageOf v)) = 4096 * pageOf v / 4096 := congrArg (· / 4096) hpage
  omega

/-- `vga_clear` stores far behind the screen, but below the first megabyte. -/
theorem vgaClear_mapped (hm : BootMapped s.mem layout) (hl : layout.Linked) (bg : Color) :
    Returns (vgaClear bg) s fun _ s' => ∃ phys, s' = s.withPhys phys ∧
      AgreeOff (fun x => x < 0x100000) s.mem.phys phys := by
  obtain ⟨_, _, hgt, _⟩ := hl.start_eq
  have hloop : Returns (vgaClear bg) s fun _ s' => (fun _ s' => ∃ phys, s' = s.withPhys phys ∧
      AgreeOff (fun x => x < 0x100000) s.mem.phys phys) (0 + vgaMax) s' := by
    refine forUp_returns (I := fun _ s' => ∃ phys, s' = s.withPhys phys ∧
      AgreeOff (fun x => x < 0x100000) s.mem.phys phys) ⟨s.mem.phys, rfl, .refl _⟩ ?_
    rintro i _ _ hi ⟨phys, rfl, hagree⟩
    have hi : i < 64000 := by
      have hmax : vgaMax = 64000 := rfl
      omega
    have haddr := cellAddr_toNat vgaAddress i
    have hbase : vgaAddress.toNat = 0xB8000 := by decide
    rw [hbase] at haddr
    have hcell : (cellAddr vgaAddress (BitVec.ofNat 32 i)).toNat = 0xB8000 + 2 * i := by omega
    have hseen := (hm.agree (hagree.mono fun _ hx => .inl hx)).seen_self hl (by omega : (cellAddr vgaAddress
      (BitVec.ofNat 32 i)).toNat < layout.lowEnd)
    have hpage : 4096 * pageOf (cellAddr vgaAddress (BitVec.ofNat 32 i)) +
        (cellAddr vgaAddress (BitVec.ofNat 32 i)).toNat % 4096 = 0xB8000 + 2 * i := by
      unfold pageOf
      omega
    have hstore := storeCell_seen (s := s.withPhys phys) hseen (by omega) (blankCell bg)
    rw [hpage] at hstore
    refine .of_eq hstore ⟨_, rfl, hagree.trans (AgreeOff.write16 fun k hk => ?_)⟩
    show 0xB8000 + 2 * i + k < 0x100000
    omega
  exact hloop

end Screen

/-! ## Lines -/

section Lines

variable {μ : Type} [Bus μ] {fmt : List Byte} {args : Bytes} {pieces : List Piece}

/-- The parser puts out a newline behind a format that it comes to the end of. -/
theorem print_newline (hfmt : Nulless fmt) (hlast : fmt.getLast? ≠ some (chr '%')) (h : print fmt args = .ok pieces) :
    print (fmt ++ [newline]) args = .ok (pieces ++ [.text [newline]]) := by
  obtain ⟨items, tail, hitems, rfl, htail⟩ := exists_items hfmt
  rcases htail with rfl | rfl | hcut
  · rw [List.append_nil] at h ⊢
    have hall : ∀ item ∈ items ++ [.byte newline], Item.Ok item := by
      intro item hitem
      rcases List.mem_append.mp hitem with hmem | hmem
      · exact hitems item hmem
      · rw [List.mem_singleton.mp hmem]
        exact ⟨by decide, by decide⟩
    have hline : renderAll (items ++ [.byte newline]) = renderAll items ++ [newline] := renderAll_append ..
    rw [print_renderAll hitems] at h
    rw [← hline, print_renderAll hall, runAll_append, ← Except.ok.inj h]
    rfl
  · exact absurd (by rw [List.getLast?_append]; rfl) hlast
  · rw [print_cutOff hitems hcut] at h
    cases h

/-- `k_printfln` is `k_printf` with a newline at the end of its format. -/
theorem kPrintf_newline (hfmt : Nulless fmt) (hlast : fmt.getLast? ≠ some (chr '%')) (h : print fmt args = .ok pieces) :
    (kPrintf (fmt ++ [newline]) args : K μ Unit) = kPrintfln fmt args := by
  have hone : ([Piece.text [newline]] : List Piece).forM putPiece = (screenPut newline : K μ Unit) := by
    rw [List.forM_eq_forM, List.forM_cons, List.forM_nil]
    show (do
      [newline].forM screenPut
      pure ()) = _
    rw [List.forM_eq_forM, List.forM_cons, List.forM_nil]
    simp
  unfold kPrintfln kPrintf
  rw [print_newline hfmt hlast h, h]
  show (pieces ++ [Piece.text [newline]]).forM putPiece = (do
    pieces.forM putPiece
    screenPut newline : K μ Unit)
  rw [← hone, List.forM_eq_forM, List.forM_append]

variable {A : Nat → Prop} {f₀ f₁ slack : Nat} {s : Kernel Mmu}

theorem kPrintf_line_printed (hfmt : ShortFormat fmt args) (hnul : Nulless fmt)
    (hlast : fmt.getLast? ≠ some (chr '%')) (hs : ScreenSeen s.mem A f₀ f₁) (hr : s.vga.Ready slack)
    (hslack : slack ≤ 1600) :
    Returns (kPrintf (fmt ++ [newline]) args : K Mmu Unit) s fun _ s' => Printed f₀ f₁ s s' ∧ s'.vga.LineStart := by
  have htext := hfmt.text
  cases hprint : print fmt args with
  | error e =>
      rw [hprint] at htext
      cases htext
  | ok pieces =>
      rw [kPrintf_newline hnul hlast hprint]
      exact kPrintfln_printed hfmt hs hr hslack

theorem isrRegisterInterruptHandler_printed (num : Int) (handler : Word) (hnum : num < noInterruptHandlers)
    (hs : ScreenSeen s.mem A f₀ f₁) (hr : s.vga.Ready slack) (hslack : slack ≤ 1600) :
    Returns (isrRegisterInterruptHandler num handler) s fun _ s' => ∃ s₁, Printed f₀ f₁ s s₁ ∧ s₁.vga.LineStart ∧
      s' = { s₁ with handlers := fun n => if n = num then handler else s.handlers n } := by
  have hfmt : ShortFormat (cstr "IRQ %d registered") (slots [BitVec.ofInt 32 num]) := ⟨rfl, by decide, by decide⟩
  have hline : cstr "IRQ %d registered\n" = cstr "IRQ %d registered" ++ [newline] := by decide
  unfold isrRegisterInterruptHandler
  rw [hline]
  refine (kPrintf_line_printed hfmt (by decide) (by decide) hs hr hslack).bind fun _ s₁ ⟨hprinted, hstart⟩ => ?_
  rw [if_pos hnum]
  refine .of_eq modify_run ⟨s₁, hprinted, hstart, ?_⟩
  obtain ⟨_, _, _, rfl, _⟩ := hprinted
  rfl

end Lines

/-! ## The descriptor tables -/

/-- An exception on the way to a gate. -/
theorem Flat.vectored_error {m : Flat} {idtr : Half × Word} {v e : Nat} (h : m.vectored idtr v = .error e) :
    e = 11 ∨ e = 13 := by
  unfold Flat.vectored at h
  split at h
  · dsimp only at h
    split at h
    · cases h
    · cases h
      exact .inl rfl
  · cases h
    exact .inr rfl

/-- What a vector gets to depends on the table only. -/
theorem Flat.entered_congr {m m' : Flat} {idtr : Half × Word} {v : Nat} (hfits : idtr.2.toNat + 2048 ≤ 2 ^ 32)
    (hm : ∀ x, idtr.2.toNat ≤ x → x < idtr.2.toNat + 2048 → m'.ram x = m.ram x) (hv : v < 256) :
    m'.entered idtr v = m.entered idtr v := by
  have hvectored : ∀ n, n < 256 → m'.vectored idtr n = m.vectored idtr n := by
    intro n hn
    have haddr : (idtr.2 + BitVec.ofNat 32 (8 * n)).toNat = idtr.2.toNat + 8 * n := toNat_add_ofNat (by omega)
    rw [vectored, vectored, gate_congr (by omega) fun x hx hx' => hm x (by omega) (by omega)]
  rw [entered, entered, hvectored v hv]
  cases hfirst : m.vectored idtr v with
  | ok g => rfl
  | error e =>
      have he := vectored_error hfirst
      dsimp only
      rw [hvectored e (by omega), hvectored 8 (by decide)]

/-- What the processor finds in the two tables. -/
structure DescriptorsUp (gdt : GdtSymbols) (idt : IdtLabels) (m : Flat) : Prop where
  segments : GdtHolds gdt gdtInitCalls m
  idtr : m.gdtPtr idt.gIdtPtr = (0xF800#16, idt.gIdt)
  vectors : ∀ v, v < 256 → m.entered (m.gdtPtr idt.gIdtPtr) v = some (idt.stub (Gate.at v))

/-- Two pairs of objects in the image of the kernel, none of them where `gdt_set_entry` panics. -/
structure KernelObjects (layout : Layout) (gdt : GdtSymbols) (idt : IdtLabels) : Prop where
  gdtPlaced : gdt.Placed
  gdtTable : gdt.table.Within layout.image
  gdtPointer : gdt.pointer.Within layout.image
  idtPlaced : idt.Placed
  idtTable : idt.table.Within layout.image
  idtPointer : idt.pointer.Within layout.image
  apart : ∀ x, x ∈ gdt.table ∨ x ∈ gdt.pointer → x ∉ idt.table ∧ x ∉ idt.pointer
  notDebugged : ∀ n : Nat, n < gdtDescriptors → gdt.entry n - 0xC0000000#32 ≠ 0x001010D8#32

section Tables

variable {layout : Layout} {gdt : GdtSymbols} {idt : IdtLabels} {m m' : Flat} {s : Kernel Mmu}

theorem GdtHolds.congr {sets : List GdtCall} (h : GdtHolds gdt sets m) (hsym : gdt.Placed)
    (hm : ∀ x, x ∈ gdt.table ∨ x ∈ gdt.pointer → m'.ram x = m.ram x) : GdtHolds gdt sets m' := by
  refine ⟨?_, fun n c hn hlast => ?_⟩
  · rw [gdtPtr_congr hsym fun x hx => hm x (.inr hx)]
    exact h.pointer
  · have hfits := hsym.table_fits
    have hentry := hsym.entry_toNat (Int.natCast_nonneg n) (by exact_mod_cast hn)
    rw [Int.toNat_natCast] at hentry
    unfold gdtDescriptors gdtEntrySize at *
    refine (Flat.segment_congr (by omega) fun x hx hx' => hm x (.inl ?_)).trans (h.entry n c hn hlast)
    rw [GdtSymbols.table, Extent.mem_ofLen, gdtEntrySize, gdtDescriptors]
    omega

/-- The tables depend on their bytes in the image only. -/
theorem DescriptorsUp.congr (h : DescriptorsUp gdt idt m) (ho : KernelObjects layout gdt idt)
    (hm : ∀ x, x ∈ layout.image → m'.ram x = m.ram x) : DescriptorsUp gdt idt m' := by
  have hpointer : m'.gdtPtr idt.gIdtPtr = m.gdtPtr idt.gIdtPtr :=
    Flat.gdtPtr_congr ho.idtPlaced.pointer_fits fun x hx => hm x (ho.idtPointer.mem hx)
  refine ⟨h.segments.congr ho.gdtPlaced fun x hx => hm x ?_, hpointer.trans h.idtr, fun v hv => ?_⟩
  · exact hx.elim ho.gdtTable.mem ho.gdtPointer.mem
  · rw [hpointer, ← h.vectors v hv, h.idtr]
    exact Flat.entered_congr ho.idtPlaced.table_fits (fun x hx hx' => hm x (ho.idtTable.mem ⟨hx, hx'⟩)) hv

/-- `gdt_set_entry` stores to its entry only. -/
theorem gdtCalls_outside (hsym : gdt.Placed) {calls : List GdtCall} (hcalls : ∀ c ∈ calls, c.InRange)
    {t t' : Kernel Flat} (hrun : calls.forM (GdtCall.run gdt) t = .ok ((), t')) {x : Nat} (hx : x ∉ gdt.table) :
    t'.mem.ram x = t.mem.ram x := by
  induction calls generalizing t with
  | nil =>
      cases hrun
      rfl
  | cons c calls ih =>
      obtain ⟨_, t₁, hcall, hrest⟩ := bind_ok.mp hrun
      obtain ⟨hindex, hlt⟩ := hcalls c (List.mem_cons_self ..)
      have hfits := hsym.table_fits
      have hentry := hsym.entry_toNat hindex hlt
      rw [GdtSymbols.table, Extent.mem_ofLen] at hx
      unfold gdtDescriptors gdtEntrySize at *
      rw [ih (fun d hd => hcalls d (List.mem_cons_of_mem c hd)) hrest, gdtSetEntry_ok (by omega) hcall]
      exact Bytes.fill_outside (by omega)

theorem gdtInit_outside (hsym : gdt.Placed) {t t' : Kernel Flat} (hrun : gdtInit gdt t = .ok ((), t')) {x : Nat}
    (hx : x ∉ gdt.table) (hx' : x ∉ gdt.pointer) : t'.mem.ram x = t.mem.ram x := by
  rw [gdtInit_eq] at hrun
  obtain ⟨_, t₁, hlimit, hrun⟩ := bind_ok.mp hrun
  obtain ⟨_, t₂, hbase, hcalls⟩ := bind_ok.mp hrun
  have hpointer := hsym.pointer_fits
  have hone : (gdt.gGdtPtr + 1#32).toNat = gdt.gGdtPtr.toNat + 1 := toNat_add_ofNat (by omega)
  have htwo : (gdt.gGdtPtr + 2#32).toNat = gdt.gGdtPtr.toNat + 2 := toNat_add_ofNat (by omega)
  rw [GdtSymbols.pointer, Extent.mem_ofLen] at hx'
  rw [gdtCalls_outside hsym (by decide) hcalls hx, store32_mem hbase, store16_mem hlimit, Flat.setWord_ram (by omega)]
  refine (Bytes.write32_other (by omega)).trans ?_
  exact (Bytes.write8_other (by omega)).trans (Bytes.write8_other (by omega))

/-- The two tables are filled in, in memory that is mapped by the boot tables. -/
theorem descriptors_mapped (hl : layout.Linked) (ho : KernelObjects layout gdt idt) (hm : BootMapped s.mem layout)
    (hzero : ∀ x, x ∈ idt.table → s.mem.image.ram x = 0#8) :
    Returns (do gdtInit gdt; idtInit idt : K Mmu Unit) s fun _ s' => ∃ phys, s' = s.withPhys phys ∧
      AgreeOff layout.ImageFrame s.mem.phys phys ∧ DescriptorsUp gdt idt s'.mem.image := by
  obtain ⟨_, hgdt⟩ := gdtRun_returns ho.gdtPlaced ho.notDebugged (List.forall_mem_nil _) s.image
  obtain ⟨_, t₁, hgdt, _⟩ := bind_ok.mp hgdt
  have hholds := gdtInit_holds ho.gdtPlaced hgdt
  obtain ⟨phys₁, hrun₁, hagree₁, himage₁⟩ := gdtInit_mirrors hl ho.gdtPlaced ho.gdtTable ho.gdtPointer s () t₁ hm hgdt
  obtain ⟨t₂, hidt, hholds'⟩ := idtInit_holds ho.idtPlaced t₁
  rw [← himage₁] at hidt
  obtain ⟨phys₂, hrun₂, hagree₂, himage₂⟩ := idtInit_mirrors hl ho.idtPlaced ho.idtTable ho.idtPointer
    (s.withPhys phys₁) () t₂ (hm.agree (hagree₁.mono fun _ hx => hx.bootStores)) hidt
  refine ⟨(), _, bind_ok.mpr ⟨_, _, hrun₁, hrun₂⟩, phys₂, rfl, hagree₁.trans hagree₂, ?_⟩
  have hmem : ((s.withPhys phys₁).withPhys phys₂).mem.image = t₂.mem := congrArg Kernel.mem himage₂
  rw [hmem]
  have hzero₁ : ∀ x, x ∈ idt.table → t₁.mem.ram x = 0#8 := by
    intro x hx
    rw [gdtInit_outside ho.gdtPlaced hgdt (fun h => (ho.apart x (.inl h)).1 hx) fun h => (ho.apart x (.inr h)).1 hx]
    exact hzero x hx
  have hlast : ∀ n, lastGate [] n = none := fun _ => rfl
  have hcalls : IdtHolds idt t₁.mem (idtStubs.map idt.call ++ []) t₂.mem := by
    rw [List.append_nil]
    exact hholds'
  refine ⟨hholds.congr ho.gdtPlaced fun x hx => ?_, hholds'.pointer, fun v hv => ?_⟩
  · exact hholds'.outside x (ho.apart x hx).1 (ho.apart x hx).2
  · exact hcalls.entered ho.idtPlaced hzero₁ hv (hlast v) fun _ => hlast 11

end Tables

/-! ## In front of paging -/

/-- The first megabyte, the globals of the screen and those of the heap may have changed. -/
structure LowChanged (s s' : Kernel Mmu) : Prop where
  mem : ∃ phys, s'.mem = s.mem.withPhys phys ∧ AgreeOff (fun x => x < 0x100000) s.mem.phys phys
  paging : s'.paging = s.paging
  handlers : s'.handlers = s.handlers

/-- What `kmain` has set up in front of `init_paging`. -/
structure TablesUp (layout : Layout) (gdt : GdtSymbols) (idt : IdtLabels) (s s' : Kernel Mmu) : Prop where
  before : BeforePaging layout s'
  heap : s'.alloc = .earlyInit layout.earlyKmallocStart layout.earlyKmallocEnd
  handlers : s'.handlers = s.handlers
  descriptors : DescriptorsUp gdt idt s'.mem.image

section Before

variable {layout : Layout} {gdt : GdtSymbols} {idt : IdtLabels} {s s' s'' : Kernel Mmu}

theorem LowChanged.trans (h : LowChanged s s') (h' : LowChanged s' s'') : LowChanged s s'' := by
  obtain ⟨⟨phys, hmem, hagree⟩, hpaging, hhandlers⟩ := h
  obtain ⟨⟨phys', hmem', hagree'⟩, hpaging', hhandlers'⟩ := h'
  rw [hmem] at hmem' hagree'
  exact ⟨⟨phys', hmem', hagree.trans hagree'⟩, hpaging'.trans hpaging, hhandlers'.trans hhandlers⟩

theorem Printed.lowChanged (h : Printed 0xB8000 0xB9000 s s') : LowChanged s s' := by
  obtain ⟨phys, _, _, rfl, hagree, _⟩ := h
  exact ⟨⟨phys, rfl, hagree.mono fun _ hx => bootScreen_low hx⟩, rfl, rfl⟩

theorem LowChanged.bootMapped (h : LowChanged s s') (hm : BootMapped s.mem layout) : BootMapped s'.mem layout := by
  obtain ⟨phys, hmem, hagree⟩ := h.mem
  rw [hmem]
  exact hm.agree (hagree.mono fun _ hx => .inl hx)

/-- The image is above the first megabyte. -/
theorem LowChanged.image (h : LowChanged s s') (hl : layout.Linked) {x : Nat} (hx : x ∈ layout.image) :
    s'.mem.image.ram x = s.mem.image.ram x := by
  obtain ⟨phys, hmem, hagree⟩ := h.mem
  have hgt := hl.start_gt
  have hlow : layout.kernelStart.toNat ≤ x := hx.1
  rw [hmem]
  refine hagree _ ?_
  unfold frameOf
  omega

theorem screenInit_mapped (hm : BootMapped s.mem layout) (hl : layout.Linked) (bg : Color) :
    Returns (screenInit bg) s fun _ s' => LowChanged s s' ∧ s'.vga.Ready 0 := by
  obtain ⟨_, _, hclear, phys, rfl, hagree⟩ := vgaClear_mapped hm hl bg
  refine ⟨(), { s.withPhys phys with vga := { x := 0, y := 0, pos := 0, vgaBuff := vgaAddress }, screenBg := bg }, ?_,
    ⟨⟨phys, rfl, hagree⟩, rfl, rfl⟩, rfl, Nat.zero_le _, Nat.zero_le _⟩
  rw [screenInit, vgaInit]
  exact bind_ok.mpr ⟨_, _, bind_ok.mpr ⟨_, _, hclear, rfl⟩, rfl⟩

theorem kmallocEarlyInit_mapped {base max : Word} {slack : Nat} (hm : BootMapped s.mem layout) (hl : layout.Linked)
    (hlt : base < max) (hr : s.vga.Ready slack) (hslack : slack ≤ 1600) :
    Returns (kmallocEarlyInit base max) s fun _ s' => LowChanged s s' ∧ s'.vga.LineStart ∧
      s'.alloc = .earlyInit base max := by
  have hfmt : ShortFormat (cstr "kmalloc_early [%x, %x]") (slots [base, max]) := ⟨rfl, by decide, by decide⟩
  have hline : cstr "kmalloc_early [%x, %x]\n" = cstr "kmalloc_early [%x, %x]" ++ [newline] := by decide
  have hscreen := hm.screen hl (A := BootScreen) (fun _ hx => .inl (bootScreen_low hx)) fun _ hx => hx
  unfold kmallocEarlyInit
  rw [hline]
  refine Returns.congr ?_ (bind_run (assert_true hlt))
  refine (kPrintf_line_printed hfmt (by decide) (by decide) hscreen hr hslack).bind fun _ s₁ ⟨hprinted, hstart⟩ => ?_
  obtain ⟨hmem, hpaging, hhandlers⟩ := hprinted.lowChanged
  exact .of_eq modify_run ⟨⟨hmem, hpaging, hhandlers⟩, hstart, rfl⟩

/-- `kmain` comes to `init_paging` with all it relies on. -/
theorem kmainTables_returns (hl : layout.Linked) (ho : KernelObjects layout gdt idt)
    (hheap : layout.earlyKmallocStart < layout.earlyKmallocEnd) (hm : BootMapped s.mem layout)
    (hdisabled : s.paging.kernelPagingEnabled = false) (hzero : ∀ x, x ∈ idt.table → s.mem.image.ram x = 0#8) :
    Returns (kmainTables layout gdt idt) s fun _ s' => TablesUp layout gdt idt s s' := by
  refine (screenInit_mapped hm hl .black).bind fun _ s₁ ⟨h₁, hready₁⟩ => ?_
  have hm₁ := h₁.bootMapped hm
  have hscreen := hm₁.screen hl (A := BootScreen) (fun _ hx => .inl (bootScreen_low hx)) fun _ hx => hx
  refine (screenText_printed (cstr "welcone to my os mydjbfv") hscreen hready₁ (by decide)).bind
    fun _ s₂ ⟨hprinted, hready₂⟩ => ?_
  have h₂ := h₁.trans hprinted.lowChanged
  refine (kmallocEarlyInit_mapped (h₂.bootMapped hm) hl hheap hready₂ (by decide)).bind
    fun _ s₃ ⟨hchanged, hstart, halloc⟩ => ?_
  have h₃ := h₂.trans hchanged
  refine (descriptors_mapped hl ho (h₃.bootMapped hm) fun x hx => ?_).mono ?_
  · rw [h₃.image hl (ho.idtTable.mem hx)]
    exact hzero x hx
  · rintro _ _ ⟨phys, rfl, hagree, hup⟩
    refine ⟨⟨(h₃.bootMapped hm).agree (hagree.mono fun _ hx => hx.bootStores), ?_, ?_, ?_⟩, halloc, h₃.handlers, hup⟩
    · exact (congrArg Paging.kernelPagingEnabled h₃.paging).trans hdisabled
    · show s₃.alloc.InHeap _ _
      rw [halloc]
      exact Alloc.earlyInit_inHeap hheap
    · exact hstart.ready.mono (by decide)

end Before

/-! ## Ports -/

section Ports

variable {μ : Type}

theorem noted_ports (s : Kernel μ) (obj : Option Extent) (a : Word) (n : Nat) :
    (s.noted obj a n).ports = s.ports := by
  cases obj with
  | none => rfl
  | some e =>
      simp only [Kernel.noted]
      split <;> rfl

theorem kmallocEarlyAlign_sends (size : Word) : Respects SentToCrtc (kmallocEarlyAlign size : K μ Word) := by
  intro s _ s' hrun
  obtain ⟨_, _, hs⟩ := except_map_ok.mp hrun
  cases hs
  exact .of_eq rfl

theorem assert_sends (c : Prop) [Decidable c] : Respects SentToCrtc (assert c : K μ Unit) :=
  .ite (.pure _) (.throw _)

variable [Bus μ]

theorem load8_sends (a : Word) (obj : Option Extent) : Respects SentToCrtc (load8 a obj : K μ Byte) := by
  intro s _ s' hrun
  obtain ⟨_, _, hs⟩ := except_map_ok.mp hrun
  cases hs
  exact .of_eq (noted_ports s obj a 1)

theorem store8_sends (a : Word) (b : Byte) (obj : Option Extent) : Respects SentToCrtc (store8 a b obj : K μ Unit) := by
  intro s _ s' hrun
  obtain ⟨_, _, hs⟩ := except_map_ok.mp hrun
  cases hs
  exact .of_eq (noted_ports s obj a 1)

theorem load32_sends (a : Word) (obj : Option Extent) : Respects SentToCrtc (load32 a obj : K μ Word) := by
  intro s _ s' hrun
  obtain ⟨_, _, hs⟩ := except_map_ok.mp hrun
  cases hs
  exact .of_eq (noted_ports s obj a 4)

theorem store32_sends (a w : Word) (obj : Option Extent) : Respects SentToCrtc (store32 a w obj : K μ Unit) := by
  intro s _ s' hrun
  obtain ⟨_, _, hs⟩ := except_map_ok.mp hrun
  cases hs
  exact .of_eq (noted_ports s obj a 4)

theorem store16_sends (a : Word) (h : Half) : Respects SentToCrtc (store16 a h : K μ Unit) :=
  (store8_sends _ _ _).bind fun _ => store8_sends _ _ _

theorem kPrintfln_sends (fmt : List Byte) (args : Bytes) : Respects SentToCrtc (kPrintfln fmt args : K μ Unit) :=
  (kPrintf_sends fmt args).bind fun _ => screenPut_sends _

theorem memset_sends (dst : Word) (c : Byte) (n : Nat) : Respects SentToCrtc (memset dst c n : K μ Unit) :=
  .forUp (fun _ => store8_sends _ _ _) 0 n

theorem isrRegisterInterruptHandler_sends (num : Int) (handler : Word) :
    Respects SentToCrtc (isrRegisterInterruptHandler num handler : K μ Unit) :=
  (kPrintf_sends _ _).bind fun _ => .ite (.modify fun _ => .of_eq rfl) (.pure _)

theorem gdtSetEntry_sends (sym : GdtSymbols) (index : Int) (base limit : Word) (access gran : Byte) :
    Respects SentToCrtc (gdtSetEntry sym index base limit access gran : K μ Unit) := by
  unfold gdtSetEntry
  refine (store16_sends _ _).bind fun _ => (store16_sends _ _).bind fun _ => (store8_sends _ _ _).bind fun _ => ?_
  refine (store8_sends _ _ _).bind fun _ => (store8_sends _ _ _).bind fun _ => (load8_sends _ _).bind fun _ => ?_
  refine (store8_sends _ _ _).bind fun _ => (store8_sends _ _ _).bind fun _ => .ite ?_ (.pure _)
  exact (kPrintfln_sends _ _).bind fun _ => .throw _

theorem gdtInit_sends (sym : GdtSymbols) : Respects SentToCrtc (gdtInit sym : K μ Unit) := by
  unfold gdtInit
  refine (store16_sends _ _).bind fun _ => (store32_sends _ _ _).bind fun _ => ?_
  refine (gdtSetEntry_sends _ _ _ _ _ _).bind fun _ => (gdtSetEntry_sends _ _ _ _ _ _).bind fun _ => ?_
  refine (gdtSetEntry_sends _ _ _ _ _ _).bind fun _ => (gdtSetEntry_sends _ _ _ _ _ _).bind fun _ => ?_
  exact gdtSetEntry_sends _ _ _ _ _ _

theorem idtSetEntry_sends (sym : IdtSymbols) (index : Int) (base : Word) (segSel : Half) (flags : Byte) :
    Respects SentToCrtc (idtSetEntry sym index base segSel flags : K μ Unit) := by
  unfold idtSetEntry
  refine (store16_sends _ _).bind fun _ => (store16_sends _ _).bind fun _ => (store8_sends _ _ _).bind fun _ => ?_
  exact (store8_sends _ _ _).bind fun _ => store16_sends _ _

theorem idtInit_sends (sym : IdtLabels) : Respects SentToCrtc (idtInit sym : K μ Unit) :=
  (store32_sends _ _ _).bind fun _ => (store16_sends _ _).bind fun _ =>
    .forM fun c => idtSetEntry_sends _ c.index c.base c.segSel c.flags

theorem kmainTables_sends (layout : Layout) (gdt : GdtSymbols) (idt : IdtLabels) :
    Respects SentToCrtc (kmainTables layout gdt idt) := by
  unfold kmainTables screenInit vgaInit vgaClear kmallocEarlyInit
  refine Respects.bind (.bind (.bind (.forUp (fun _ => storeCell_sends _ _) _ _) fun _ => .modify fun _ => .of_eq rfl)
    fun _ => .modify fun _ => .of_eq rfl) fun _ => ?_
  refine Respects.bind (.forM fun c => screenPut_sends c) fun _ => Respects.bind ?_ fun _ =>
    (gdtInit_sends gdt).bind fun _ => idtInit_sends idt
  exact (assert_sends _).bind fun _ => (kPrintf_sends _ _).bind fun _ => .modify fun _ => .of_eq rfl

theorem virtToPhys_sends (v : Word) : Respects SentToCrtc (virtToPhys v) := by
  unfold virtToPhys virtToPhysPde
  refine Respects.bind (Respects.get.bind fun _ => .ite ?_ ?_) fun _ => ?_
  · exact (load32_sends _ _).bind fun _ => (load32_sends _ _).bind fun _ => .pure _
  · exact Respects.get.bind fun _ => (load32_sends _ _).bind fun _ => .ite (.throw _) (.pure _)
  · refine (assert_sends _).bind fun _ => (load32_sends _ _).bind fun _ => (assert_sends _).bind fun _ => ?_
    exact (load32_sends _ _).bind fun _ => .pure _

theorem updateEntry_sends (entry : Word) (f : Word → Word) : Respects SentToCrtc (updateEntry entry f) :=
  (load32_sends _ _).bind fun _ => store32_sends _ _ _

theorem pageMapPte_sends (pt index phys perm : Word) : Respects SentToCrtc (pageMapPte pt index phys perm) := by
  unfold pageMapPte
  refine (assert_sends _).bind fun _ => (assert_sends _).bind fun _ => (updateEntry_sends _ _).bind fun _ => ?_
  exact (updateEntry_sends _ _).bind fun _ => (updateEntry_sends _ _).bind fun _ => updateEntry_sends _ _

theorem createTable_sends (dirI : Word) : Respects SentToCrtc (createTable dirI) := by
  unfold createTable
  refine (kmallocEarlyAlign_sends _).bind fun _ => (memset_sends _ _ _).bind fun _ => (virtToPhys_sends _).bind fun _ =>
    (virtToPhys_sends _).bind fun _ => Respects.get.bind fun _ => (store32_sends _ _ _).bind fun _ => ?_
  exact (load32_sends _ _).bind fun _ => (kPrintfln_sends _ _).bind fun _ => store32_sends _ _ _

theorem pageMap_sends (virt phys perm : Word) : Respects SentToCrtc (pageMap virt phys perm) := by
  unfold pageMap
  refine (assert_sends _).bind fun _ => Respects.get.bind fun paging => (assert_sends _).bind fun _ =>
    (load32_sends _ _).bind fun _ => ?_
  have hentry : Respects SentToCrtc (do
      let pageTable ← load32 (entryAddr paging.paging.ptPhysToVirt (pageDirI virt))
      pageMapPte pageTable (pageTableI virt) phys perm
      pure (entryAddr pageTable (pageTableI virt)) : K Mmu Word) :=
    (load32_sends _ _).bind fun _ => (pageMapPte_sends _ _ _ _).bind fun _ => .pure _
  exact .ite ((createTable_sends _).bind fun _ => hentry) hentry

theorem mapKernelPages_sends (virtEnd : Word) (fuel : Nat) (virt addr : Word) :
    Respects SentToCrtc (mapKernelPages virtEnd fuel virt addr) := by
  induction fuel generalizing virt addr with
  | zero => exact .throw _
  | succ fuel ih => exact .ite ((pageMap_sends _ _ _).bind fun _ => ih _ _) (.pure _)

theorem initTables_sends : Respects SentToCrtc initTables := by
  unfold initTables nativeGetPageDirectory
  refine (kmallocEarlyAlign_sends _).bind fun _ => Respects.bind (.modify fun _ => .of_eq rfl) fun _ =>
    (kmallocEarlyAlign_sends _).bind fun _ => Respects.bind (.modify fun _ => .of_eq rfl) fun _ => ?_
  refine (memset_sends _ _ _).bind fun _ => (memset_sends _ _ _).bind fun _ => ?_
  exact (Respects.get.bind fun _ => .pure _).bind fun _ => (virtToPhys_sends _).bind fun _ => kPrintf_sends _ _

theorem mapLowAndKernel_sends (layout : Layout) : Respects SentToCrtc (mapLowAndKernel layout) := by
  unfold mapLowAndKernel
  refine Respects.bind (.forUp (fun _ => ?_) _ _) fun _ => mapKernelPages_sends _ _ _ _
  exact (pageMap_sends _ _ _).bind fun _ => .pure _

theorem switchDirectory_sends (layout : Layout) : Respects SentToCrtc (switchDirectory layout) := by
  unfold switchDirectory nativeSetPageDirectory nativePagingEnable
  refine (isrRegisterInterruptHandler_sends _ _).bind fun _ => Respects.get.bind fun _ =>
    (virtToPhys_sends _).bind fun _ => (kPrintfln_sends _ _).bind fun _ => (virtToPhys_sends _).bind fun _ => ?_
  refine Respects.bind (.modify fun _ => .of_eq rfl) fun _ => Respects.bind (.modify fun _ => .of_eq rfl) fun _ => ?_
  exact .modify fun _ => .of_eq rfl

theorem initPaging_sends (layout : Layout) : Respects SentToCrtc (initPaging layout) :=
  initTables_sends.bind fun _ => (mapLowAndKernel_sends layout).bind fun _ => switchDirectory_sends layout

end Ports

/-! ## Behind paging -/

/-- What `kmain` has set up when it comes to the boot module. -/
structure KernelUp (layout : Layout) (gdt : GdtSymbols) (idt : IdtLabels) (pics : Pics) (timerHandler : Word)
    (s s' : Kernel Mmu) : Prop where
  paged : s'.mem.pagingOn = true ∧ ∀ v, s'.mem.walk v = layout.initial v
  descriptors : DescriptorsUp gdt idt s'.mem.seen
  handlers : ∀ n, s'.handlers n = if n = 32 then timerHandler else if n = 14 then layout.pageFaultHandler else s.handlers n
  programmed : (pics.writes s'.ports).Programmed 0x20 0x28
  idle : (pics.writes s'.ports).Idle ∧ ∀ n, (pics.writes s'.ports).raised n = false
  masks : ∀ n, (pics.writes s'.ports).masked n = (pics.writes s.ports).masked n
  rate : s'.timer.gFreqHz = 100#16 ∧ ∀ pit : Pit, RightRate 100#16 (pit.writes s'.ports)

section Devices

variable {layout : Layout} {gdt : GdtSymbols} {idt : IdtLabels} {pics : Pics} {timerHandler : Word}
  {s₀ s s' : Kernel Mmu}

theorem AfterPaging.screen (h : AfterPaging layout s₀ s) : ScreenSeen s.mem BootScreen 0xB8000 0xB9000 := by
  have hseen : ∀ v : Word, v.toNat < 0x100000 → s.mem.Seen BootScreen v (4096 * pageOf v) := by
    intro v hv
    refine ⟨h.switched.on, ⟨true, (h.walk v).trans (if_pos hv)⟩, ?_⟩
    rw [h.switched.root]
    exact h.switched.tables.steady (fun _ hx => bootScreen_apart h.switched.tables hx) v
  exact ⟨hseen vgaAddress (by decide), hseen vgaSecondPage (by decide), fun _ hx => hx⟩

/-- What the devices are set up with. -/
structure DevicesUp (pics : Pics) (timerHandler : Word) (s s' : Kernel Mmu) : Prop where
  mem : ∃ phys, s'.mem = s.mem.withPhys phys ∧ AgreeOff BootScreen s.mem.phys phys
  paging : s'.paging = s.paging
  alloc : s'.alloc = s.alloc
  console : s'.vga.LineStart
  handlers : s'.handlers = fun n => if n = 32 then timerHandler else s.handlers n
  frequency : s'.timer.gFreqHz = 100#16
  ports : ∃ ws, s'.ports = s.ports ++ initWrites ((pics.writes s.ports).inb pic1Data) ((pics.writes s.ports).inb pic2Data) ++
    frequencyWrites 100#16 ++ ws ∧ ∀ w ∈ ws, CrtcPort w.1

theorem kmainDevices_returns (pics : Pics) (timerHandler : Word)
    (hscreen : ScreenSeen s.mem BootScreen 0xB8000 0xB9000) (hstart : s.vga.LineStart) :
    Returns (kmainDevices pics timerHandler) s fun _ s' => DevicesUp pics timerHandler s s' := by
  have hinit : pic8259Init (inbPicsFrom pics) outb s = .ok ((), { s with
      ports := s.ports ++ initWrites ((pics.writes s.ports).inb pic1Data) ((pics.writes s.ports).inb pic2Data) }) :=
    pic8259Init_sends (pics.writes s.ports).inb fun _ => rfl
  obtain ⟨_, s', hrun, s₁, ⟨phys, ports, vga, rfl, hagree, _⟩, hstart', rfl⟩ := isrRegisterInterruptHandler_printed
    (s := { s with
      timer := { s.timer with gFreqHz := 100#16 }
      ports := s.ports ++ initWrites ((pics.writes s.ports).inb pic1Data) ((pics.writes s.ports).inb pic2Data) ++
        frequencyWrites 100#16 })
    irqBase timerHandler (by decide) hscreen hstart.ready (by decide)
  have hports := isrRegisterInterruptHandler_sends irqBase timerHandler _ _ _ hrun
  have htimer : timerSetFrequency 100#16 { s with
      ports := s.ports ++ initWrites ((pics.writes s.ports).inb pic1Data) ((pics.writes s.ports).inb pic2Data) } =
        .ok ((), { s with
          timer := { s.timer with gFreqHz := 100#16 }
          ports := s.ports ++ initWrites ((pics.writes s.ports).inb pic1Data) ((pics.writes s.ports).inb pic2Data) ++
            frequencyWrites 100#16 }) := timerSetFrequency_run (by decide) _
  exact ⟨(), _, (bind_run hinit).trans ((bind_run htimer).trans hrun), ⟨phys, rfl, hagree⟩, rfl, rfl, hstart', rfl, rfl, hports⟩

/-- The interrupt controllers and the timer take their own bytes from what has been sent. -/
theorem DevicesUp.lines (h : DevicesUp pics timerHandler s s') :
    (pics.writes s'.ports).Programmed 0x20 0x28 ∧ (pics.writes s'.ports).Idle ∧
      (∀ n, (pics.writes s'.ports).raised n = false) ∧
      (∀ n, (pics.writes s'.ports).masked n = (pics.writes s.ports).masked n) ∧
      ∀ pit : Pit, RightRate 100#16 (pit.writes s'.ports) := by
  obtain ⟨ws, hports, hws⟩ := h.ports
  have hpics : pics.writes s'.ports = { master := Pics.initialised 0x20#8 4#8 (pics.writes s.ports).master.imr
                                        slave := Pics.initialised 0x28#8 2#8 (pics.writes s.ports).slave.imr } := by
    rw [hports, Pics.writes_append, Pics.writes_crtc hws, Pics.writes_append, Pics.writes_frequency,
      Pics.writes_append]
    exact Pics.writes_init _ _ _
  rw [hpics]
  refine ⟨Pics.initialised_programmed _ _, ⟨fun _ => rfl, fun _ => rfl⟩, fun n => ?_, fun n => rfl, fun pit => ?_⟩
  · unfold Pics.raised
    split
    · rfl
    · rfl
  · rw [hports, Pit.writes_append, Pit.writes_crtc hws, Pit.writes_append]
    exact rightRate_of_le (by decide) _

/-- Behind `timer_init` the kernel is on the tables of `init_paging`. -/
theorem DevicesUp.resumed (h : DevicesUp pics timerHandler s s') (hafter : AfterPaging layout s₀ s) : Resumed s s' := by
  obtain ⟨phys, hmem, hagree⟩ := h.mem
  exact { mem := ⟨phys, hmem, hagree.mono fun _ hx => bootScreen_apart hafter.switched.tables hx⟩
          paging := h.paging
          alloc := h.alloc
          console := h.console }

end Devices

/-! ## The whole way -/

section Setup

variable {layout : Layout} {gdt : GdtSymbols} {idt : IdtLabels} {pics : Pics} {timerHandler : Word}
  {s s₁ s₂ s' : Kernel Mmu}

/-- The image is mapped to its frames, and what is there was there in front of `init_paging`. -/
theorem seen_image (hl : layout.Linked) (h₁ : TablesUp layout gdt idt s s₁) (h₂ : AfterPaging layout s₁ s₂)
    (h' : DevicesUp pics timerHandler s₂ s') (hpaged : s'.mem.pagingOn = true)
    (hwalk : ∀ v, s'.mem.walk v = layout.initial v) {x : Nat} (hx : x ∈ layout.image) :
    s'.mem.seen.ram x = s₁.mem.image.ram x := by
  obtain ⟨hlow, hhigh⟩ := hx
  simp only [Layout.image] at hlow hhigh
  have hgt := hl.start_gt
  have hmod := hl.start_mod
  have hend := layout.kernelEnd.isLt
  have hround := le_roundUp layout.kernelEnd.toNat
  have hvalue : (BitVec.ofNat 32 x).toNat = x := by
    rw [BitVec.toNat_ofNat]
    exact Nat.mod_eq_of_lt (by omega)
  have htranslate : s'.mem.translate (BitVec.ofNat 32 x) = .ok (frameOf x) := by
    have hsplit := four_pageOf (BitVec.ofNat 32 x)
    rw [hvalue] at hsplit
    have hframe : 4096 * pageOf (BitVec.ofNat 32 x) - 0xC0000000 + x % 4096 = frameOf x := by
      unfold frameOf
      omega
    rw [Mmu.translate, if_pos hpaged, hwalk, Layout.initial, hvalue, if_neg (by omega), if_pos ⟨by omega, by omega⟩]
    exact congrArg Except.ok hframe
  obtain ⟨phys, hmem, hagree⟩ := h'.mem
  have hseen : s'.mem.seen.ram x = s'.mem.phys (frameOf x) := by
    simp only [Mmu.seen, htranslate]
  have hframe : frameOf x + 0xC0000000 = x := by
    unfold frameOf
    omega
  rw [hseen, hmem]
  show phys (frameOf x) = s₁.mem.phys (frameOf x)
  rw [hagree _ fun hscreen => ?_, h₂.stores _ fun hstore => ?_]
  · rcases hstore with hscreen | ⟨hheap, _⟩
    · have hbelow := bootScreen_low hscreen
      omega
    · rw [h₁.heap] at hheap
      have hbase : layout.earlyKmallocStart.toNat ≤ frameOf x + 0xC0000000 := Nat.le_trans (le_roundUp _) hheap
      omega
  · have hbelow := bootScreen_low hscreen
    omega

/-- `kmain` comes to the boot module, and all that it has set up is in place. -/
theorem kmainSetup_comesUp (pics : Pics) (timerHandler : Word) (hl : layout.Linked) (ho : KernelObjects layout gdt idt)
    (hroom : roundUp layout.earlyKmallocStart.toNat + 0x5000 ≤ layout.earlyKmallocEnd.toNat)
    (hm : BootMapped s.mem layout) (hdisabled : s.paging.kernelPagingEnabled = false)
    (hzero : ∀ x, x ∈ idt.table → s.mem.image.ram x = 0#8) :
    Returns (kmainSetup layout gdt idt pics timerHandler) s fun _ s' =>
      KernelUp layout gdt idt pics timerHandler s s' := by
  have hbase := le_roundUp layout.earlyKmallocStart.toNat
  have hheap : layout.earlyKmallocStart < layout.earlyKmallocEnd := BitVec.lt_def.mpr (by omega)
  obtain ⟨_, s₁, hrun₁, h₁⟩ := kmainTables_returns hl ho hheap hm hdisabled hzero
  have hfits : HeapRoom s₁ := by
    rw [HeapRoom, h₁.heap]
    exact hroom
  obtain ⟨_, s₂, hrun₂, h₂⟩ := (initPaging_returnsIf h₁.before hl).2 hfits
  obtain ⟨_, s', hrun', h'⟩ := kmainDevices_returns pics timerHandler h₂.screen h₂.switched.console
  obtain ⟨hrunning, hwalk⟩ := (h'.resumed h₂).running hl h₂
  obtain ⟨hprogrammed, hidle, hraised, hmasks, hrate⟩ := h'.lines
  refine ⟨(), s', bind_ok.mpr ⟨_, _, hrun₁, bind_ok.mpr ⟨_, _, hrun₂, hrun'⟩⟩, ⟨hrunning.on, hwalk⟩, ?_, fun n => ?_,
    hprogrammed, ⟨hidle, hraised⟩, fun n => ?_, h'.frequency, hrate⟩
  · exact h₁.descriptors.congr ho fun x hx => seen_image hl h₁ h₂ h' hrunning.on hwalk hx
  · rw [h'.handlers]
    dsimp only
    rw [h₂.handlers, h₁.handlers]
  · obtain ⟨ws, hws, hcrtc⟩ := trans_of SentToCrtc (kmainTables_sends layout gdt idt s _ _ hrun₁)
      (initPaging_sends layout s₁ _ _ hrun₂)
    rw [hmasks, hws, Pics.writes_append, Pics.writes_crtc hcrtc]

end Setup

end LizaOS