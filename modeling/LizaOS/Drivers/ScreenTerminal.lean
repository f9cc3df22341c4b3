-- SUMMARY: The screen shows what an abstract scrolling terminal shows, for every stream of lines that fit.
import LizaOS.Logic.Terminal
import LizaOS.Drivers.VgaRun

/-!
# The screen as a terminal

The screen is compared with `Terminal.Lines` on the visible rows and on the rows below them that the
copy loop of `scroll` reads: a blank row below the last one is what makes the new bottom line blank.
-/

namespace LizaOS

open Exec Terminal

/-- The lines `screen_put` makes of a stream. -/
def screenLines (stream : List Byte) : Lines Byte := lines newline 0#8 stream

/-- What a cell holds when the terminal shows this. -/
def render (bg : Color) : Option Byte → Half
  | none => blankCell bg
  | some ch => vgaItemEntry ch .white bg

/-! ## Where the driver writes -/

/-- The driver writes its next character where the terminal does. -/
structure WritesAt (t : Lines Byte) (vga : Vga) : Prop where
  buff : vga.vgaBuff = vgaAddress
  y : vga.y.toNat = t.row vgaHeight
  pos : vga.pos.toNat = vgaWidth * t.row vgaHeight + t.cur.length

section Position

variable {t : Lines Byte} {vga : Vga}

theorem writesAt_put (h : WritesAt t vga) (c : Byte) (hroom : vga.pos.toNat + 1 < 2 ^ 32) :
    WritesAt (t.put c) { vga with pos := vga.pos + 1#32, x := vga.x + 1#8 } where
  buff := h.buff
  y := h.y
  pos := by
    show (vga.pos + 1#32).toNat = _
    rw [toNat_add_ofNat (k := 1) hroom, h.pos, Lines.cur_put, List.length_append]
    rfl

theorem writesAt_newline (h : WritesAt t vga) (hlast : t.last < vgaHeight) :
    WritesAt t.newline { vga with
      pos := (vga.y.zeroExtend 32 + 1#32) * BitVec.ofNat 32 vgaWidth
      x := 0
      y := vga.y + 1#8 } := by
  have hrow : t.row vgaHeight = t.last := Nat.min_eq_left (Nat.le_of_lt hlast)
  have hrow' : t.newline.row vgaHeight = t.last + 1 := by
    rw [Lines.row, Lines.last_newline]
    exact Nat.min_eq_left hlast
  have hy := h.y
  rw [hrow] at hy
  have hsmall : t.last < 24 := hlast
  refine ⟨h.buff, ?_, ?_⟩
  · show (vga.y + 1#8).toNat = _
    rw [hrow', BitVec.toNat_add, hy]
    simp
    omega
  · have hwide : (vga.y.zeroExtend 32 + 1#32).toNat = t.last + 1 := by
      rw [toNat_add_of_lt (by simp [hy]; omega)]
      simp [hy]
      omega
    rw [hrow', BitVec.toNat_mul, hwide]
    simp [vgaWidth]
    omega

theorem writesAt_scroll (h : WritesAt t vga) (hlast : vgaHeight ≤ t.last) :
    WritesAt t.newline { vga with
      x := 0
      pos := vga.y.zeroExtend 32 * BitVec.ofNat 32 vgaWidth
      y := BitVec.ofNat 8 vgaHeight } := by
  have hrow' : t.newline.row vgaHeight = vgaHeight := by
    rw [Lines.row, Lines.last_newline]
    exact Nat.min_eq_right (by omega)
  have hy := h.y
  rw [Lines.row, Nat.min_eq_right hlast] at hy
  refine ⟨h.buff, ?_, ?_⟩
  · rw [hrow']
    rfl
  · rw [hrow', BitVec.toNat_mul]
    simp [hy, vgaWidth, vgaHeight]

theorem WritesAt.y_lt (h : WritesAt t vga) (hlast : t.last < vgaHeight) : vga.y.toNat < vgaHeight := by
  rw [h.y, Lines.row, Nat.min_eq_left (Nat.le_of_lt hlast)]
  exact hlast

theorem WritesAt.le_y (h : WritesAt t vga) (hlast : vgaHeight ≤ t.last) : vgaHeight ≤ vga.y.toNat := by
  rw [h.y]
  exact Nat.le_min.mpr ⟨hlast, Nat.le_refl _⟩

end Position

/-! ## Each byte -/

/-- The screen shows the terminal `t`, and the driver writes next where `t` does. -/
structure Shows (bg : Color) (t : Lines Byte) (s : Kernel Flat) : Prop where
  background : s.screenBg = bg
  writes : WritesAt t s.vga
  cells : ∀ i, i < scrollCells + vgaWidth →
    s.mem.cell i = render bg (t.shown vgaHeight (i / vgaWidth) (i % vgaWidth))

section Steps

variable {bg : Color} {t : Lines Byte} {s : Kernel Flat}

theorem shows_screenInit (bg : Color) (s : Kernel Flat) :
    Returns (screenInit bg) s fun _ s' => Shows bg .empty s' := by
  refine (screenInit_returns bg).mono ?_
  rintro _ s' ⟨m, _, hblank, rfl⟩
  exact {
    background := rfl
    writes := ⟨rfl, rfl, rfl⟩
    cells := fun i hi => by
      have hmax : i < vgaMax := Nat.lt_trans hi (by decide)
      simpa [render] using hblank i hmax }

/-- A character goes to the end of the line being written, if the line has room for it. -/
theorem shows_put {c : Byte} (h : Shows bg t s) (hc : Printable c) (hroom : t.cur.length < vgaWidth) :
    Returns (screenPut c) s fun _ s' => Shows bg (t.put c) s' := by
  have hrow : t.row vgaHeight ≤ vgaHeight := Nat.min_le_right _ _
  have hpos := h.writes.pos
  simp only [vgaWidth, vgaHeight] at hroom hrow hpos
  refine .of_eq (screenPut_printable hc) {
    background := h.background
    writes := writesAt_put h.writes c (by omega)
    cells := fun i hi => ?_ }
  have haddr : cellAddr s.vga.vgaBuff s.vga.pos =
      cellAddr vgaAddress (BitVec.ofNat 32 s.vga.pos.toNat) := by simp [h.writes.buff]
  have hi' : i < 2200 := hi
  rw [haddr, Flat.cell_setCell _ _ (by omega) (by omega), Lines.shown_put, h.cells i hi, h.background]
  have hcell : i = s.vga.pos.toNat ↔
      i / vgaWidth = t.row vgaHeight ∧ i % vgaWidth = t.cur.length := by
    simp only [vgaWidth, vgaHeight]
    omega
  by_cases hi_pos : i = s.vga.pos.toNat
  · rw [if_pos hi_pos, if_pos (hcell.mp hi_pos), render]
  · rw [if_neg hi_pos, if_neg (mt hcell.mpr hi_pos)]

/-- Above the last row a newline moves to the next row, which is blank already. -/
theorem shows_newline (h : Shows bg t s) (hlast : t.last < vgaHeight) :
    Returns (screenPut newline) s fun _ s' => Shows bg t.newline s' := by
  refine .of_eq (screenPut_newline (h.writes.y_lt hlast)) {
    background := h.background
    writes := writesAt_newline h.writes hlast
    cells := fun i hi => ?_ }
  rw [Lines.shown_newline hlast]
  exact h.cells i hi

/-- In the last row a newline scrolls: each row takes over the row below it, and the last row takes
over a row that nothing has been written to. -/
theorem shows_newline_scroll (h : Shows bg t s) (hlast : vgaHeight ≤ t.last) :
    Returns (screenPut newline) s fun _ s' => Shows bg t.newline s' := by
  refine (screenPut_newline_scroll (h.writes.le_y hlast) h.writes.buff).mono ?_
  rintro _ s' ⟨m, _, hcells, rfl⟩
  refine {
    background := h.background
    writes := writesAt_scroll h.writes hlast
    cells := fun i hi => ?_ }
  have hi' : i < 2200 := hi
  rw [hcells i (by omega), Lines.shown_newline_scroll hlast]
  by_cases hmoved : i < scrollCells
  · have hsrc : i + vgaWidth < scrollCells + vgaWidth := Nat.add_lt_add_right hmoved _
    have hdiv : (i + vgaWidth) / vgaWidth = i / vgaWidth + 1 := Nat.add_div_right i (by decide)
    rw [if_pos hmoved, h.cells _ hsrc, hdiv, Nat.add_mod_right]
  · -- Row 26 is below the terminal before and after.
    have hbelow : t.row vgaHeight < i / vgaWidth := by
      have hrow : t.row vgaHeight ≤ vgaHeight := Nat.min_le_right _ _
      simp only [scrollCells, vgaWidth, vgaHeight] at *
      omega
    rw [if_neg hmoved, h.cells i hi, Lines.shown_of_below hbelow,
      Lines.shown_of_below (Nat.lt_succ_of_lt hbelow)]

/-- One byte keeps the screen and the terminal together, if the byte's line has room for it. -/
theorem shows_screenPut (h : Shows bg t s) (c : Byte)
    (hroom : (feed newline 0#8 t c).cur.length ≤ vgaWidth) :
    Returns (screenPut c) s fun _ s' => Shows bg (feed newline 0#8 t c) s' := by
  unfold feed at hroom ⊢
  by_cases hnl : c = newline
  · rw [if_pos hnl, hnl]
    rcases Nat.lt_or_ge t.last vgaHeight with hlast | hlast
    · exact shows_newline h hlast
    · exact shows_newline_scroll h hlast
  · rw [if_neg hnl] at hroom ⊢
    by_cases hnul : c = 0#8
    · rw [if_pos hnul, hnul]
      exact .of_eq screenPut_nul h
    · rw [if_neg hnul] at hroom ⊢
      refine shows_put h ⟨hnl, hnul⟩ ?_
      simpa [Nat.succ_le_iff] using hroom

end Steps

/-! ## A whole stream -/

/-- The bytes of a stream keep the screen and the terminal together, if the lines in the end have
room. -/
theorem shows_stream {bg : Color} {t : Lines Byte} {s : Kernel Flat} (h : Shows bg t s)
    (stream : List Byte)
    (hfit : ∀ j, ((stream.foldl (feed newline 0#8) t).line j).length ≤ vgaWidth) :
    Returns (stream.forM screenPut) s fun _ s' =>
      Shows bg (stream.foldl (feed newline 0#8) t) s' := by
  induction stream generalizing t s with
  | nil => exact .of_eq rfl h
  | cons c stream ih =>
      have hroom : (feed newline 0#8 t c).cur.length ≤ vgaWidth := by
        have hprefix := foldl_line_grows newline 0#8 stream (feed newline 0#8 t c)
          (feed newline 0#8 t c).last
        rw [Lines.line_last] at hprefix
        exact Nat.le_trans hprefix.length_le (hfit _)
      exact (shows_screenPut h c hroom).bind fun _ s₁ h₁ => ih h₁ hfit

/-- After `screen_init` and a stream whose lines have at most 80 bytes, every cell of the 25 rows
holds the character the terminal shows there, or is blank, and the next character goes to the end of
the last line. -/
theorem screen_shows_lines (bg : Color) (stream : List Byte) (s : Kernel Flat)
    (hfit : ∀ line ∈ (screenLines stream).all, line.length ≤ 80) :
    Returns (do screenInit bg; stream.forM screenPut) s fun _ s' =>
      let m := (screenLines stream).last
      (∀ r c, r ≤ 24 → c < 80 → s'.mem.cell (80 * r + c) =
        match ((screenLines stream).line (if m ≤ 24 then r else m - 24 + r))[c]? with
        | some ch => vgaItemEntry ch .white bg
        | none => blankCell bg) ∧
      s'.vga.pos.toNat = 80 * min m 24 + ((screenLines stream).line m).length := by
  have hlines : ∀ j, ((stream.foldl (feed newline 0#8) .empty).line j).length ≤ vgaWidth := by
    intro j
    rcases Nat.lt_or_ge (screenLines stream).last j with hj | hj
    · exact (Lines.line_of_gt (t := screenLines stream) hj) ▸ Nat.zero_le _
    · exact hfit _ (Lines.line_mem_all hj)
  have hrun := (shows_screenInit bg s).bind fun _ s₁ h₁ => shows_stream h₁ stream hlines
  refine hrun.mono fun _ s' hshows => ⟨fun r c hr hc => ?_, ?_⟩
  · have hcell := hshows.cells (80 * r + c) (by simp only [scrollCells, vgaWidth]; omega)
    have hdiv : (80 * r + c) / vgaWidth = r := by simp only [vgaWidth]; omega
    have hmod : (80 * r + c) % vgaWidth = c := by simp only [vgaWidth]; omega
    rw [hdiv, hmod] at hcell
    have hline : Lines.top vgaHeight (screenLines stream) + r =
        if (screenLines stream).last ≤ 24 then r else (screenLines stream).last - 24 + r := by
      simp only [Lines.top, vgaHeight]
      split <;> omega
    rw [hcell, ← hline]
    show render bg ((screenLines stream).shown vgaHeight r c) = _
    unfold Lines.shown render
    cases ((screenLines stream).line (Lines.top vgaHeight (screenLines stream) + r))[c]? <;> rfl
  · rw [Lines.line_last]
    exact hshows.writes.pos

/-- Two lines on a blue screen. -/
theorem screen_shows_lines_hello :
    Returns (do screenInit .blue; (cstr "hello\nworld").forM screenPut) (.reset Flat.zero) fun _ s' =>
      s'.vga.pos.toNat = 80 * 1 + 5 := by
  have hrun := screen_shows_lines .blue (cstr "hello\nworld") (.reset Flat.zero) (by decide)
  exact hrun.mono fun _ s' h => h.2

end LizaOS
