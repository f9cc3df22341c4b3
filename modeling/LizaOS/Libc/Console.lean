-- SUMMARY: Printing through the page tables: it comes back, and stores in the two pages of the text screen only.
import LizaOS.Drivers.VgaRun
import LizaOS.Kernel.Isr
import LizaOS.Libc.PrintLength
import LizaOS.Libc.StdioRun
import LizaOS.Machine.Mmu

/-!
# The console behind the page tables

The driver writes to the screen at a virtual address. As long as the lines are short, it stays in the
two pages from `vgaAddress` on; wherever these are mapped is where a line that is printed ends up.
-/

namespace LizaOS

open Exec

/-! ## The screen's pages -/

/-- The page behind the first page of the screen. -/
def vgaSecondPage : Word := 0xB9000#32

/-- The bytes of the two frames the screen is mapped to. -/
def ScreenFrames (f₀ f₁ : Nat) (x : Nat) : Prop := InFrame f₀ x ∨ InFrame f₁ x

/-- The screen is mapped to the frames at `f₀` and `f₁`, and stores in `A`, which may be stores to the
screen, leave it there. -/
structure ScreenSeen (m : Mmu) (A : Nat → Prop) (f₀ f₁ : Nat) : Prop where
  first : m.Seen A vgaAddress f₀
  second : m.Seen A vgaSecondPage f₁
  stores : ∀ x, ScreenFrames f₀ f₁ x → A x

/-- The number of cells in the two pages. -/
def screenCells : Nat := 4096

/-- The physical address of cell `i`. -/
def cellAt (f₀ f₁ i : Nat) : Nat := if i < 2048 then f₀ + 2 * i else f₁ + 2 * (i - 2048)

theorem cellAt_inside {f₀ f₁ i k : Nat} (hi : i < screenCells) (hk : k < 2) :
    ScreenFrames f₀ f₁ (cellAt f₀ f₁ i + k) := by
  simp only [screenCells, cellAt] at *
  split
  · exact .inl ⟨by omega, by omega⟩
  · exact .inr ⟨by omega, by omega⟩

namespace ScreenSeen

variable {m : Mmu} {A : Nat → Prop} {f₀ f₁ i : Nat} {phys : Bytes}

theorem agree (h : ScreenSeen m A f₀ f₁) (hm : AgreeOff A m.phys phys) :
    ScreenSeen (m.withPhys phys) A f₀ f₁ :=
  ⟨h.first.agree hm, h.second.agree hm, h.stores⟩

/-- A cell is in one of the two pages, and does not cross into the next. -/
theorem cell (h : ScreenSeen m A f₀ f₁) (hi : i < screenCells) :
    ∃ f, m.Seen A (cellAddr vgaAddress (BitVec.ofNat 32 i)) f ∧
      (cellAddr vgaAddress (BitVec.ofNat 32 i)).toNat % 4096 + 2 ≤ 4096 ∧
      f + (cellAddr vgaAddress (BitVec.ofNat 32 i)).toNat % 4096 = cellAt f₀ f₁ i := by
  have haddr := cellAddr_toNat vgaAddress i
  simp only [vgaAddress, BitVec.toNat_ofNat, screenCells] at haddr hi
  rcases Nat.lt_or_ge i 2048 with hlo | hhi
  · refine ⟨f₀, h.first.congr ?_, ?_, ?_⟩
    · simp only [pageOf, vgaAddress, BitVec.toNat_ofNat, haddr]
      omega
    · simp only [vgaAddress, haddr]
      omega
    · simp only [vgaAddress, haddr, cellAt, if_pos hlo]
      omega
  · refine ⟨f₁, h.second.congr ?_, ?_, ?_⟩
    · simp only [pageOf, vgaAddress, vgaSecondPage, BitVec.toNat_ofNat, haddr]
      omega
    · simp only [vgaAddress, haddr]
      omega
    · simp only [vgaAddress, haddr, cellAt, if_neg (Nat.not_lt.mpr hhi)]
      omega

end ScreenSeen

/-! ## What printing leaves -/

/-- The cursor is at most `slack` cells behind the start of its row. -/
structure Vga.Ready (vga : Vga) (slack : Nat) : Prop where
  buff : vga.vgaBuff = vgaAddress
  row : vga.y.toNat ≤ vgaHeight
  pos : vga.pos.toNat ≤ vgaWidth * vga.y.toNat + slack

theorem Vga.Ready.mono {vga : Vga} {a b : Nat} (h : vga.Ready a) (hab : a ≤ b) : vga.Ready b :=
  ⟨h.buff, h.row, Nat.le_trans h.pos (Nat.add_le_add_left hab _)⟩

/-- The cursor is at the start of its row. -/
structure Vga.LineStart (vga : Vga) : Prop where
  buff : vga.vgaBuff = vgaAddress
  row : vga.y.toNat ≤ vgaHeight
  pos : vga.pos.toNat = vgaWidth * vga.y.toNat

theorem Vga.LineStart.ready {vga : Vga} (h : vga.LineStart) : vga.Ready 0 :=
  ⟨h.buff, h.row, Nat.le_of_eq h.pos⟩

/-- The states differ in the frames of the screen and in the driver's globals at most, and the row of
the cursor has not gone up. -/
def Printed (f₀ f₁ : Nat) (s s' : Kernel Mmu) : Prop :=
  ∃ phys ports vga, s' = { s with mem := s.mem.withPhys phys, ports := ports, vga := vga } ∧
    AgreeOff (ScreenFrames f₀ f₁) s.mem.phys phys ∧ s.vga.y.toNat ≤ vga.y.toNat

namespace Printed

variable {f₀ f₁ : Nat} {s s₁ s₂ : Kernel Mmu} {A : Nat → Prop}

theorem refl (s : Kernel Mmu) : Printed f₀ f₁ s s :=
  ⟨s.mem.phys, s.ports, s.vga, rfl, .refl _, Nat.le_refl _⟩

theorem trans (h : Printed f₀ f₁ s s₁) (h' : Printed f₀ f₁ s₁ s₂) : Printed f₀ f₁ s s₂ := by
  obtain ⟨phys, ports, vga, rfl, hm, hy⟩ := h
  obtain ⟨phys', ports', vga', rfl, hm', hy'⟩ := h'
  exact ⟨phys', ports', vga', rfl, hm.trans hm', Nat.le_trans hy hy'⟩

/-- Only the driver's globals have changed. -/
theorem globals {ports : List (Half × Byte)} {vga : Vga} (hy : s.vga.y.toNat ≤ vga.y.toNat) :
    Printed f₀ f₁ s { s with ports := ports, vga := vga } :=
  ⟨s.mem.phys, ports, vga, rfl, .refl _, hy⟩

theorem screen (h : Printed f₀ f₁ s s₁) (hs : ScreenSeen s.mem A f₀ f₁) :
    ScreenSeen s₁.mem A f₀ f₁ := by
  obtain ⟨phys, ports, vga, rfl, hm, _⟩ := h
  exact hs.agree (hm.mono hs.stores)

end Printed

/-! ## The driver -/

section Driver

variable {A : Nat → Prop} {f₀ f₁ i slack : Nat} {s : Kernel Mmu}

theorem loadCell_screen (hs : ScreenSeen s.mem A f₀ f₁) (hi : i < screenCells) :
    loadCell (cellAddr vgaAddress (BitVec.ofNat 32 i)) s =
      .ok (s.mem.phys.read16 (cellAt f₀ f₁ i), s) := by
  obtain ⟨f, hseen, hoff, haddr⟩ := hs.cell hi
  rw [loadCell, hseen.loadCell hoff, haddr]
  rfl

theorem storeCell_screen (hs : ScreenSeen s.mem A f₀ f₁) (hi : i < screenCells) (c : Half) :
    storeCell (cellAddr vgaAddress (BitVec.ofNat 32 i)) c s =
      .ok ((), { s with mem := s.mem.withPhys (s.mem.phys.write16 (cellAt f₀ f₁ i) c) }) := by
  obtain ⟨f, hseen, hoff, haddr⟩ := hs.cell hi
  rw [storeCell, hseen.storeCell hoff, haddr]
  rfl

theorem agreeOff_cell (m : Bytes) (hi : i < screenCells) (c : Half) :
    AgreeOff (ScreenFrames f₀ f₁) m (m.write16 (cellAt f₀ f₁ i) c) :=
  AgreeOff.write16 fun _ hk => cellAt_inside hi hk

theorem scrollCell_run (hs : ScreenSeen s.mem A f₀ f₁) (hi : i < scrollCells) :
    scrollCell vgaAddress i s = .ok ((), { s with
      mem := s.mem.withPhys (s.mem.phys.write16 (cellAt f₀ f₁ i)
        (s.mem.phys.read16 (cellAt f₀ f₁ (i + vgaWidth)))) }) := by
  simp only [scrollCells] at hi
  have hsrc : i + vgaWidth < screenCells := by
    simp only [vgaWidth, screenCells]
    omega
  have hdst : i < screenCells := by
    simp only [screenCells]
    omega
  rw [scrollCell, bind_run (loadCell_screen hs hsrc)]
  exact storeCell_screen hs hdst _

/-- The loop of `scroll` moves each row to the one above, as long as it reads and stores in the pages
of the screen. -/
theorem scrollLoop_printed (hs : ScreenSeen s.mem A f₀ f₁) :
    Returns (forUp (scrollCell vgaAddress) 0 scrollCells) s fun _ s' =>
      ∃ phys, s' = { s with mem := s.mem.withPhys phys } ∧
        AgreeOff (ScreenFrames f₀ f₁) s.mem.phys phys := by
  let Copied (_ : Nat) (s' : Kernel Mmu) : Prop :=
    ∃ phys, s' = { s with mem := s.mem.withPhys phys } ∧
      AgreeOff (ScreenFrames f₀ f₁) s.mem.phys phys
  have hstart : Copied 0 s := ⟨s.mem.phys, rfl, .refl _⟩
  have hloop : Returns (forUp (scrollCell vgaAddress) 0 scrollCells) s
      fun _ s' => Copied (0 + scrollCells) s' := by
    refine forUp_returns (I := Copied) hstart fun k s' _ hk hcopied => ?_
    obtain ⟨phys, rfl, hm⟩ := hcopied
    have hk' : k < 2120 := by simpa [scrollCells] using hk
    have hsame := hs.agree (hm.mono hs.stores)
    refine .of_eq (scrollCell_run hsame hk') ⟨_, rfl, hm.trans (agreeOff_cell _ ?_ _)⟩
    simp only [screenCells]
    omega
  exact hloop

/-- `scroll` comes back, in the last row. -/
theorem scroll_printed (hs : ScreenSeen s.mem A f₀ f₁) (hr : s.vga.Ready slack)
    (hy : vgaHeight ≤ s.vga.y.toNat) :
    Returns (scroll : K Mmu Unit) s fun _ s' => Printed f₀ f₁ s s' ∧ s'.vga.LineStart := by
  obtain ⟨_, s₁, hrun, phys, rfl, hm⟩ := scrollLoop_printed hs
  have hrow : s.vga.y.toNat = 24 := Nat.le_antisymm hr.row hy
  rw [← hr.buff] at hrun
  rw [Returns, scroll, bind_run (get_apply s), bind_run hrun]
  refine ⟨(), _, rfl, ⟨phys, s.ports, _, rfl, hm, Nat.le_of_eq hrow⟩, hr.buff, Nat.le_refl 24, ?_⟩
  have hext : (s.vga.y.zeroExtend 32 : Word).toNat = 24 := by
    rw [BitVec.zeroExtend_eq_setWidth, BitVec.toNat_setWidth, hrow]
  simp only [BitVec.toNat_mul, hext]
  decide

/-- A newline comes back with the cursor at the start of a row. -/
theorem screenPut_newline_printed (hs : ScreenSeen s.mem A f₀ f₁) (hr : s.vga.Ready slack) :
    Returns (screenPut newline : K Mmu Unit) s fun _ s' => Printed f₀ f₁ s s' ∧ s'.vga.LineStart := by
  rcases Nat.lt_or_ge s.vga.y.toNat vgaHeight with hy | hy
  · have hput : screenPut newline s = .ok ((), { s with
        vga := { s.vga with
          pos := (s.vga.y.zeroExtend 32 + 1#32) * BitVec.ofNat 32 vgaWidth
          x := 0
          y := s.vga.y + 1#8 }
        ports := s.ports ++ cursorWrites 0 (s.vga.y + 1#8) }) := by
      simp [screenPut, charProcess, vgaNewline, bind_apply, Nat.not_le.mpr hy, vgaPositionCursor_run]
    simp only [vgaHeight] at hy
    have hnext : (s.vga.y + 1#8).toNat = s.vga.y.toNat + 1 := by
      rw [BitVec.toNat_add, BitVec.toNat_ofNat]
      omega
    refine .of_eq hput ⟨.globals (by simp only [hnext]; omega), hr.buff, ?_, ?_⟩
    · simp only [hnext, vgaHeight]
      omega
    · simp only [hnext, vgaWidth, BitVec.zeroExtend_eq_setWidth, BitVec.toNat_mul, BitVec.toNat_add,
        BitVec.toNat_setWidth, BitVec.toNat_ofNat]
      omega
  · have hput : screenPut newline s = (do
        scroll
        vgaPositionCursor (← get).vga.x (← get).vga.y) s := by
      simp [screenPut, charProcess, vgaNewline, bind_apply, hy]
    refine Returns.congr ?_ hput
    refine (scroll_printed hs hr hy).bind fun _ s₁ h₁ => ?_
    exact .of_eq (vgaPositionCursor_run s₁.vga.x s₁.vga.y)
      ⟨h₁.1.trans (.globals (Nat.le_refl _)), h₁.2⟩

/-- Any byte comes back, with the cursor one cell further at most. -/
theorem screenPut_printed (hs : ScreenSeen s.mem A f₀ f₁) (hr : s.vga.Ready slack)
    (hslack : slack < 2000) (c : Byte) :
    Returns (screenPut c : K Mmu Unit) s fun _ s' => Printed f₀ f₁ s s' ∧ s'.vga.Ready (slack + 1) := by
  by_cases hnl : c = newline
  · subst hnl
    exact (screenPut_newline_printed hs hr).mono fun _ _ h => ⟨h.1, h.2.ready.mono (Nat.zero_le _)⟩
  by_cases hnul : c = 0#8
  · subst hnul
    exact .of_eq rfl ⟨.refl s, hr.mono (Nat.le_succ _)⟩
  · have hpos := hr.pos
    have hrow := hr.row
    simp only [vgaWidth, vgaHeight] at hpos hrow
    have hcell : s.vga.pos = BitVec.ofNat 32 s.vga.pos.toNat := by simp
    have hlt : s.vga.pos.toNat < screenCells := by
      simp only [screenCells]
      omega
    have hstore := storeCell_screen hs hlt (vgaItemEntry c .white s.screenBg)
    rw [← hcell, ← hr.buff] at hstore
    have hput : screenPut c s = vgaWriteB c .white s.screenBg s := by
      simp [screenPut, charProcess, hnl, hnul, bind_apply]
    rw [Returns, hput, vgaWriteB, bind_run (get_apply s), bind_run hstore]
    refine ⟨(), _, vgaPositionCursor_run (s.vga.x + 1#8) s.vga.y, ⟨_, _, _, rfl, ?_, ?_⟩, hr.buff,
      hr.row, ?_⟩
    · exact agreeOff_cell _ hlt _
    · exact Nat.le_refl _
    · simp only [vgaWidth, BitVec.toNat_add, BitVec.toNat_ofNat]
      omega

theorem screenText_printed (bs : List Byte) (hs : ScreenSeen s.mem A f₀ f₁) (hr : s.vga.Ready slack)
    (hslack : slack + bs.length ≤ 2000) :
    Returns (bs.forM screenPut : K Mmu Unit) s fun _ s' =>
      Printed f₀ f₁ s s' ∧ s'.vga.Ready (slack + bs.length) := by
  induction bs generalizing s slack with
  | nil => exact .of_eq rfl ⟨.refl s, hr⟩
  | cons c bs ih =>
      rw [List.length_cons] at hslack
      refine (screenPut_printed hs hr (by omega) c).bind fun _ s₁ h₁ => ?_
      refine (ih (h₁.1.screen hs) h₁.2 (by omega)).mono fun _ s₂ h₂ => ⟨h₁.1.trans h₂.1, ?_⟩
      exact h₂.2.mono (by rw [List.length_cons]; omega)

theorem putPieces_printed {pieces : List Piece} (htext : pieces.all Piece.isText = true)
    (hs : ScreenSeen s.mem A f₀ f₁) (hr : s.vga.Ready slack)
    (hslack : slack + textLength pieces ≤ 2000) :
    Returns (pieces.forM putPiece : K Mmu Unit) s fun _ s' =>
      Printed f₀ f₁ s s' ∧ s'.vga.Ready (slack + textLength pieces) := by
  induction pieces generalizing s slack with
  | nil => exact .of_eq rfl ⟨.refl s, hr⟩
  | cons piece pieces ih =>
      rw [List.all_cons, Bool.and_eq_true] at htext
      cases piece with
      | string ptr width flags => cases htext.1
      | text bs =>
          have hlen : textLength (.text bs :: pieces) = bs.length + textLength pieces := rfl
          rw [hlen] at hslack ⊢
          refine (screenText_printed bs hs hr (by omega)).bind fun _ s₁ h₁ => ?_
          refine (ih htext.2 (h₁.1.screen hs) h₁.2 (by omega)).mono fun _ s₂ h₂ => ?_
          exact ⟨h₁.1.trans h₂.1, h₂.2.mono (by omega)⟩

/-! ## Formatted output -/

/-- The most bytes the formats of this section may put out. -/
def lineLimit : Nat := 400

/-- A format that parses, has no `%s` and no field widths, and a bounded length. -/
structure ShortFormat (fmt : List Byte) (args : Bytes) : Prop where
  text : (print fmt args).map (·.all Piece.isText) = .ok true
  unsized : Unsized fmt
  short : fmt.length + conversionLimit * fmt.count (chr '%') ≤ lineLimit

theorem kPrintf_printed {fmt : List Byte} {args : Bytes} (hfmt : ShortFormat fmt args)
    (hs : ScreenSeen s.mem A f₀ f₁) (hr : s.vga.Ready slack) (hslack : slack ≤ 1600) :
    Returns (kPrintf fmt args : K Mmu Unit) s fun _ s' =>
      Printed f₀ f₁ s s' ∧ s'.vga.Ready (slack + lineLimit) := by
  unfold kPrintf
  have htext := hfmt.text
  cases hprint : print fmt args with
  | error e =>
      rw [hprint] at htext
      cases htext
  | ok pieces =>
      rw [hprint] at htext
      have hlen := Nat.le_trans (print_length_le hfmt.unsized hprint) hfmt.short
      simp only [lineLimit] at hlen
      refine (putPieces_printed (Except.ok.inj htext) hs hr (by omega)).mono fun _ s₁ h₁ => ?_
      exact ⟨h₁.1, h₁.2.mono (Nat.add_le_add_left hlen slack)⟩

/-- A line ends at the start of a row. -/
theorem kPrintfln_printed {fmt : List Byte} {args : Bytes} (hfmt : ShortFormat fmt args)
    (hs : ScreenSeen s.mem A f₀ f₁) (hr : s.vga.Ready slack) (hslack : slack ≤ 1600) :
    Returns (kPrintfln fmt args : K Mmu Unit) s fun _ s' =>
      Printed f₀ f₁ s s' ∧ s'.vga.LineStart := by
  refine (kPrintf_printed hfmt hs hr hslack).bind fun _ s₁ h₁ => ?_
  exact (screenPut_newline_printed (h₁.1.screen hs) h₁.2).mono fun _ s₂ h₂ => ⟨h₁.1.trans h₂.1, h₂.2⟩

end Driver

end LizaOS
