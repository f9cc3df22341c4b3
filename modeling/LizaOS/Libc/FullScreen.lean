-- SUMMARY: A line printed in the last row of the screen, cell by cell, wherever the two pages of the screen are mapped.
import LizaOS.Libc.Console

/-!
# The last row

A line that is printed in the last row scrolls the screen. Which cell gets what is given here for the
physical memory, so that it can be said what becomes of a frame that the screen is mapped to by mistake.
-/

namespace LizaOS

open Exec

section Cells

variable {f₀ f₁ : Nat} {m : Bytes} {i j : Nat}

/-- The frames of the two pages are apart. -/
def FramesApart (f₀ f₁ : Nat) : Prop := f₀ + 4096 ≤ f₁ ∨ f₁ + 4096 ≤ f₀

/-- The contents of cell `i`. -/
def cellOf (m : Bytes) (f₀ f₁ i : Nat) : Half := m.read16 (cellAt f₀ f₁ i)

theorem cellOf_write16 (hf : FramesApart f₀ f₁) (hi : i < screenCells) (hj : j < screenCells) (c : Half) :
    cellOf (m.write16 (cellAt f₀ f₁ i) c) f₀ f₁ j = if j = i then c else cellOf m f₀ f₁ j := by
  by_cases hji : j = i
  · rw [if_pos hji, hji, cellOf, Bytes.read16_write16_same]
  · rw [if_neg hji, cellOf, Bytes.read16_write16_other]
    · rfl
    · simp only [FramesApart, screenCells, cellAt] at *
      split <;> split <;> omega

/-- Two cells of the first page as one word. -/
theorem read32_cells (m : Bytes) (f₀ f₁ : Nat) (hi : i < 1024) :
    m.read32 (f₀ + 4 * i) = (cellOf m f₀ f₁ (2 * i + 1) ++ cellOf m f₀ f₁ (2 * i) : BitVec (16 + 16)) := by
  have hlow : cellAt f₀ f₁ (2 * i) = f₀ + 4 * i := by
    rw [cellAt, if_pos (by omega)]
    omega
  have hhigh : cellAt f₀ f₁ (2 * i + 1) = f₀ + 4 * i + 2 := by
    rw [cellAt, if_pos (by omega)]
    omega
  rw [Bytes.read32_eq_halves, cellOf, cellOf, hlow, hhigh]

/-- A word is an entry of a present page if its first character is odd. -/
theorem present_cells (m : Bytes) (f₀ f₁ : Nat) (hi : i < 1024) :
    Entry.present (m.read32 (f₀ + 4 * i)) = (cellOf m f₀ f₁ (2 * i)).getLsbD 0 := by
  rw [read32_cells m f₀ f₁ hi, Entry.present, BitVec.getLsbD_append]
  rfl

theorem vgaItemEntry_zero (c : Byte) (fore back : Color) : (vgaItemEntry c fore back).getLsbD 0 = c.getLsbD 0 := by
  simp [vgaItemEntry]

end Cells

/-! ## Text -/

section Text

variable {A : Nat → Prop} {f₀ f₁ : Nat} {s : Kernel Mmu} {c : Byte} {bs : List Byte}

/-- A character goes to the cell at `pos`. -/
theorem screenPut_cell (hs : ScreenSeen s.mem A f₀ f₁) (hbuff : s.vga.vgaBuff = vgaAddress)
    (hpos : s.vga.pos.toNat < screenCells) (hc : Printable c) :
    screenPut c s = .ok ((), { s with
      mem := s.mem.withPhys (s.mem.phys.write16 (cellAt f₀ f₁ s.vga.pos.toNat) (vgaItemEntry c .white s.screenBg))
      vga := { s.vga with pos := s.vga.pos + 1#32, x := s.vga.x + 1#8 }
      ports := s.ports ++ cursorWrites (s.vga.x + 1#8) s.vga.y }) := by
  have hcell : s.vga.pos = BitVec.ofNat 32 s.vga.pos.toNat := by simp
  have hstore := storeCell_screen hs hpos (vgaItemEntry c .white s.screenBg)
  rw [← hcell, ← hbuff] at hstore
  have hput : screenPut c s = vgaWriteB c .white s.screenBg s := by
    simp only [screenPut, charProcess, hc.1, hc.2, if_false]
    rfl
  rw [hput, vgaWriteB, bind_run (get_apply s), bind_run hstore]
  exact vgaPositionCursor_run (s.vga.x + 1#8) s.vga.y

/-- The text has been put in the cells from `pos` on. -/
structure TextShown (f₀ f₁ : Nat) (bs : List Byte) (s s' : Kernel Mmu) : Prop where
  state : ∃ phys ports vga, s' = { s with mem := s.mem.withPhys phys, ports := ports, vga := vga }
  buff : s'.vga.vgaBuff = s.vga.vgaBuff
  row : s'.vga.y = s.vga.y
  pos : s'.vga.pos.toNat = s.vga.pos.toNat + bs.length
  agree : AgreeOff (ScreenFrames f₀ f₁) s.mem.phys s'.mem.phys
  shown : ∀ j, j < screenCells → cellOf s'.mem.phys f₀ f₁ j =
    if s.vga.pos.toNat ≤ j ∧ j < s.vga.pos.toNat + bs.length then
      vgaItemEntry (bs.getD (j - s.vga.pos.toNat) 0#8) .white s.screenBg
    else cellOf s.mem.phys f₀ f₁ j

theorem screenText_cells (hf : FramesApart f₀ f₁) (hs : ScreenSeen s.mem A f₀ f₁)
    (hbuff : s.vga.vgaBuff = vgaAddress) (hfit : s.vga.pos.toNat + bs.length ≤ screenCells)
    (hbs : ∀ c ∈ bs, Printable c) :
    Returns (bs.forM screenPut : K Mmu Unit) s fun _ s' => TextShown f₀ f₁ bs s s' := by
  induction bs generalizing s with
  | nil =>
      refine .of_eq rfl ⟨⟨_, _, _, rfl⟩, rfl, rfl, rfl, .refl _, fun j hj => ?_⟩
      rw [if_neg (by simp only [List.length_nil]; omega)]
  | cons c bs ih =>
      rw [List.length_cons] at hfit
      have hlt : s.vga.pos.toNat < screenCells := by omega
      have hput := screenPut_cell hs hbuff hlt (hbs c (List.mem_cons_self ..))
      have hagree : AgreeOff (ScreenFrames f₀ f₁) s.mem.phys (s.mem.phys.write16 (cellAt f₀ f₁ s.vga.pos.toNat)
          (vgaItemEntry c .white s.screenBg)) := agreeOff_cell s.mem.phys hlt _
      have hcells := fun j hj => cellOf_write16 (m := s.mem.phys) (j := j) hf hlt hj (vgaItemEntry c .white s.screenBg)
      generalize s.mem.phys.write16 (cellAt f₀ f₁ s.vga.pos.toNat) (vgaItemEntry c .white s.screenBg) = m₁
        at hput hagree hcells
      have hnext : (s.vga.pos + 1#32).toNat = s.vga.pos.toNat + 1 := toNat_add_ofNat (by
        unfold screenCells at hfit
        omega)
      refine (Returns.of_eq hput rfl).bind (P := fun _ s₁ => s₁ = _) ?_
      rintro _ _ rfl
      have hrest := ih (s := { s with
        mem := s.mem.withPhys m₁
        vga := { s.vga with pos := s.vga.pos + 1#32, x := s.vga.x + 1#8 }
        ports := s.ports ++ cursorWrites (s.vga.x + 1#8) s.vga.y }) (hs.agree (hagree.mono hs.stores)) hbuff
        (by simp only [hnext]; omega) fun c hc => hbs c (List.mem_cons_of_mem _ hc)
      refine hrest.mono ?_
      rintro _ s' ⟨⟨phys, ports, vga, rfl⟩, hbuff', hrow, hpos, hagree', hshown⟩
      simp only [hnext] at hpos hshown
      refine ⟨⟨phys, ports, vga, rfl⟩, hbuff', hrow, ?_, hagree.trans hagree', fun j hj => ?_⟩
      · rw [hpos, List.length_cons]
        omega
      · rw [hshown j hj, Mmu.phys_withPhys, hcells j hj, List.length_cons]
        by_cases hjp : j = s.vga.pos.toNat
        · rw [if_neg (by omega), if_pos hjp, if_pos (by omega), hjp, Nat.sub_self]
          rfl
        · rw [if_neg hjp]
          by_cases hin : s.vga.pos.toNat + 1 ≤ j ∧ j < s.vga.pos.toNat + 1 + bs.length
          · have hsucc : j - s.vga.pos.toNat = j - (s.vga.pos.toNat + 1) + 1 := by omega
            rw [if_pos hin, if_pos (by omega), hsucc, List.getD_cons_succ]
          · rw [if_neg hin, if_neg (by omega)]

end Text

/-! ## Lines -/

/-- The bytes of a text. -/
def textOf (pieces : List Piece) : List Byte :=
  pieces.flatMap fun
    | .text bs => bs
    | .string _ _ _ => []

section Lines

variable {A : Nat → Prop} {f₀ f₁ : Nat} {s : Kernel Mmu} {pieces : List Piece}

theorem putPieces_eq (htext : pieces.all Piece.isText = true) :
    (pieces.forM putPiece : K Mmu Unit) = (textOf pieces).forM screenPut := by
  induction pieces with
  | nil => rfl
  | cons piece pieces ih =>
      rw [List.all_cons, Bool.and_eq_true] at htext
      cases piece with
      | string ptr width flags => cases htext.1
      | text bs =>
          have hcons : textOf (.text bs :: pieces) = bs ++ textOf pieces := rfl
          have hrest := ih htext.2
          simp only [List.forM_eq_forM] at hrest ⊢
          rw [hcons, List.forM_append, ← hrest, List.forM_cons]
          rfl

/-- The loop of `scroll` moves the cells up by a row. -/
theorem scrollLoop_cells (hf : FramesApart f₀ f₁) (hs : ScreenSeen s.mem A f₀ f₁) :
    Returns (forUp (scrollCell vgaAddress) 0 scrollCells) s fun _ s' =>
      ∃ phys, s' = { s with mem := s.mem.withPhys phys } ∧ AgreeOff (ScreenFrames f₀ f₁) s.mem.phys phys ∧
        ∀ j, j < scrollCells → cellOf phys f₀ f₁ j = cellOf s.mem.phys f₀ f₁ (j + vgaWidth) := by
  let Copied (k : Nat) (s' : Kernel Mmu) : Prop :=
    ∃ phys, s' = { s with mem := s.mem.withPhys phys } ∧ AgreeOff (ScreenFrames f₀ f₁) s.mem.phys phys ∧
      ∀ j, j < screenCells → cellOf phys f₀ f₁ j =
        if j < k then cellOf s.mem.phys f₀ f₁ (j + vgaWidth) else cellOf s.mem.phys f₀ f₁ j
  have hstart : Copied 0 s := ⟨s.mem.phys, rfl, .refl _, fun j _ => rfl⟩
  have hloop : Returns (forUp (scrollCell vgaAddress) 0 scrollCells) s
      fun _ s' => Copied (0 + scrollCells) s' := by
    refine forUp_returns (I := Copied) hstart fun k s' _ hk hcopied => ?_
    obtain ⟨phys, rfl, hm, hcells⟩ := hcopied
    simp only [scrollCells] at hk
    have hcell : k < screenCells := by
      unfold screenCells
      omega
    have hsrc : k + vgaWidth < screenCells := by
      unfold screenCells vgaWidth
      omega
    refine .of_eq (scrollCell_run (hs.agree (hm.mono hs.stores)) (by unfold scrollCells; omega))
      ⟨_, rfl, hm.trans (agreeOff_cell _ hcell _), fun j hj => ?_⟩
    have hold := hcells (k + vgaWidth) hsrc
    rw [if_neg (by unfold vgaWidth; omega)] at hold
    rw [cellOf_write16 hf hcell hj]
    by_cases hjk : j = k
    · rw [if_pos hjk, if_pos (by omega), hjk]
      exact hold
    · rw [if_neg hjk, Mmu.phys_withPhys, hcells j hj]
      exact if_congr (by omega) rfl rfl
  refine hloop.mono ?_
  rintro _ s' ⟨phys, rfl, hm, hcells⟩
  refine ⟨phys, rfl, hm, fun j hj => ?_⟩
  have hcell : j < screenCells := Nat.lt_trans hj (by decide)
  rw [hcells j hcell, if_pos (by omega)]

/-- A line in the last row comes to stand in the row above it, under the rest of the screen. -/
theorem kPrintfln_lastRow {fmt : List Byte} {args : Bytes} (hf : FramesApart f₀ f₁)
    (hs : ScreenSeen s.mem A f₀ f₁) (hstart : s.vga.LineStart) (hrow : s.vga.y.toNat = vgaHeight)
    (hprint : print fmt args = .ok pieces) (htext : pieces.all Piece.isText = true)
    (hbs : ∀ c ∈ textOf pieces, Printable c) (hlen : (textOf pieces).length ≤ vgaWidth) :
    Returns (kPrintfln fmt args : K Mmu Unit) s fun _ s' =>
      ∀ j, j < scrollCells → cellOf s'.mem.phys f₀ f₁ j =
        if 1840 ≤ j ∧ j < 1840 + (textOf pieces).length then
          vgaItemEntry ((textOf pieces).getD (j - 1840) 0#8) .white s.screenBg
        else cellOf s.mem.phys f₀ f₁ (j + vgaWidth) := by
  have hpos : s.vga.pos.toNat = 1920 := by
    rw [hstart.pos, hrow]
    rfl
  have hfit : s.vga.pos.toNat + (textOf pieces).length ≤ screenCells := by
    unfold vgaWidth at hlen
    unfold screenCells
    omega
  have hputs : (kPrintf fmt args : K Mmu Unit) = (textOf pieces).forM screenPut := by
    rw [kPrintf, hprint, ← putPieces_eq htext]
  rw [kPrintfln, hputs]
  refine (screenText_cells hf hs hstart.buff hfit hbs).bind ?_
  rintro _ s₁ ⟨⟨phys, ports, vga, rfl⟩, hbuff, hrow', hpos', hagree, hshown⟩
  have hs₁ := hs.agree (hagree.mono hs.stores)
  obtain ⟨_, _, hloop, m, rfl, _, hcells⟩ := scrollLoop_cells (s := { s with
    mem := s.mem.withPhys phys, ports := ports, vga := vga }) hf hs₁
  have hlast : vgaHeight ≤ vga.y.toNat := by
    rw [show vga.y = s.vga.y from hrow', hrow]
  have hscroll : (scroll : K Mmu Unit) { s with mem := s.mem.withPhys phys, ports := ports, vga := vga } =
      .ok ((), { s with
        mem := s.mem.withPhys m, ports := ports
        vga := { vga with
          x := 0
          pos := vga.y.zeroExtend 32 * BitVec.ofNat 32 vgaWidth
          y := BitVec.ofNat 8 vgaHeight } }) := by
    rw [scroll, bind_run (get_apply _)]
    rw [← hstart.buff, ← hbuff] at hloop
    exact (bind_run hloop).trans rfl
  have hput : screenPut newline { s with mem := s.mem.withPhys phys, ports := ports, vga := vga } = (do
      scroll
      vgaPositionCursor (← get).vga.x (← get).vga.y : K Mmu Unit)
        { s with mem := s.mem.withPhys phys, ports := ports, vga := vga } := by
    simp [screenPut, charProcess, vgaNewline, bind_apply, hlast]
  refine Returns.congr ?_ hput
  refine .of_eq ((bind_run hscroll).trans (vgaPositionCursor_run _ _)) fun j hj => ?_
  have hcell := hcells j hj
  unfold scrollCells at hj
  have hwidth : vgaWidth = 80 := rfl
  rw [hwidth] at hcell hlen ⊢
  have hsrc := hshown (j + 80) (by unfold screenCells; omega)
  rw [hpos] at hsrc
  refine hcell.trans (hsrc.trans ?_)
  have hoff : j + 80 - 1920 = j - 1840 := by omega
  rw [hoff]
  exact if_congr (by omega) rfl rfl

end Lines

end LizaOS
