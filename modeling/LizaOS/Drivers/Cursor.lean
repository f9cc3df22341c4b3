-- SUMMARY: The hardware cursor and the redundant position of the VGA driver, for streams of any line lengths.
import LizaOS.Drivers.ScreenTerminal

/-!
# The cursor

The CRT controller keeps the location of the cursor in two registers, written through an index port and
a data port. The driver computes the location from row and column, and stores at `pos`. The column is a
byte and is not set back at the end of a row, so it comes to 0 again on a line of 256 characters.
-/

namespace LizaOS

open Exec Terminal

/-! ## The CRT controller -/

/-- The registers behind the two ports. -/
structure Crtc where
  index : Byte
  cursorHigh : Byte
  cursorLow : Byte

namespace Crtc

/-- What a port write does. -/
def write (crtc : Crtc) (w : Half × Byte) : Crtc :=
  if w.1 = vgaCrtcIndex then { crtc with index := w.2 }
  else if w.1 = vgaCrtcData then
    if crtc.index = 14 then { crtc with cursorHigh := w.2 }
    else if crtc.index = 15 then { crtc with cursorLow := w.2 }
    else crtc
  else crtc

/-- The registers after the writes, from all zero on. -/
def after (ports : List (Half × Byte)) : Crtc :=
  ports.foldl write { index := 0, cursorHigh := 0, cursorLow := 0 }

def location (crtc : Crtc) : Nat := crtc.cursorHigh.toNat * 256 + crtc.cursorLow.toNat

theorem foldl_cursorWrites (crtc : Crtc) (x y : Byte) :
    (cursorWrites x y).foldl write crtc = {
      index := 15
      cursorHigh := ((y.zeroExtend 16 * BitVec.ofNat 16 vgaWidth + x.zeroExtend 16 : Half) >>> 8).truncate 8
      cursorLow := (y.zeroExtend 16 * BitVec.ofNat 16 vgaWidth + x.zeroExtend 16 : Half).truncate 8 } := by
  simp [cursorWrites, write, vgaCrtcIndex, vgaCrtcData]

theorem location_split (loc : Half) :
    location { index := 15, cursorHigh := (loc >>> 8).truncate 8, cursorLow := loc.truncate 8 } = loc.toNat := by
  have hlt := loc.isLt
  simp only [location, BitVec.truncate_eq_setWidth, BitVec.toNat_setWidth, BitVec.toNat_ushiftRight,
    Nat.shiftRight_eq_div_pow]
  omega

/-- `vga_position_cursor` sets the location it has computed. -/
theorem location_cursorWrites (ports : List (Half × Byte)) {x y : Byte} (hy : y.toNat ≤ vgaHeight) :
    (after (ports ++ cursorWrites x y)).location = y.toNat * vgaWidth + x.toNat := by
  have hx := x.isLt
  have hy' : y.toNat ≤ 24 := hy
  rw [after, List.foldl_append, foldl_cursorWrites, location_split]
  simp [vgaWidth]
  omega

end Crtc

/-! ## Row, column and index -/

/-- The index is that of the row and column. -/
def PositionAgrees (vga : Vga) : Prop := vga.pos.toNat = vga.y.toNat * vgaWidth + vga.x.toNat

/-- The position agrees before and behind each byte, and each byte that is not NUL leaves the cursor
where the next character will be stored. -/
def CursorFollows : List Byte → Kernel Flat → Prop
  | [], s => PositionAgrees s.vga
  | c :: stream, s => PositionAgrees s.vga ∧ Returns (screenPut c) s fun _ s' =>
      (c ≠ 0#8 → (Crtc.after s'.ports).location = s'.vga.pos.toNat) ∧ CursorFollows stream s'

/-- The driver counts the characters of the line modulo 256. -/
structure Counts (t : Lines Byte) (vga : Vga) : Prop where
  writes : WritesAt t vga
  column : vga.x.toNat = t.cur.length % 256

section Steps

variable {t : Lines Byte} {s : Kernel Flat}

theorem Counts.row_le (h : Counts t s.vga) : s.vga.y.toNat ≤ vgaHeight := by
  rw [h.writes.y]
  exact Nat.min_le_right _ _

/-- Up to the first line that is too long. -/
theorem positionAgrees_iff (h : Counts t s.vga) (hlen : t.cur.length ≤ 256) :
    PositionAgrees s.vga ↔ t.cur.length ≤ 255 := by
  have hpos := h.writes.pos
  have hy := h.writes.y
  have hx := h.column
  unfold PositionAgrees
  rw [hpos, hy, hx, Nat.mul_comm]
  omega

/-- One byte, on a line that is not too long yet. -/
theorem counts_screenPut (h : Counts t s.vga) (hlen : t.cur.length ≤ 255) (c : Byte) :
    Returns (screenPut c) s fun _ s' => Counts (feed newline 0#8 t c) s'.vga ∧
      (c ≠ 0#8 → (Crtc.after s'.ports).location = s'.vga.y.toNat * vgaWidth + s'.vga.x.toNat) := by
  have hrow := h.row_le
  unfold feed
  by_cases hnl : c = newline
  · subst hnl
    rw [if_pos rfl]
    rcases Nat.lt_or_ge t.last vgaHeight with hlast | hlast
    · have hcounts : Counts t.newline { s.vga with
          pos := (s.vga.y.zeroExtend 32 + 1#32) * BitVec.ofNat 32 vgaWidth
          x := 0
          y := s.vga.y + 1#8 } := ⟨writesAt_newline h.writes hlast, rfl⟩
      refine .of_eq (screenPut_newline (h.writes.y_lt hlast)) ⟨hcounts, fun _ => ?_⟩
      have hnext : (s.vga.y + 1#8).toNat ≤ vgaHeight := by
        have hy := hcounts.writes.y
        rw [hy]
        exact Nat.min_le_right _ _
      exact Crtc.location_cursorWrites _ hnext
    · refine (screenPut_newline_scroll (h.writes.le_y hlast) h.writes.buff).mono ?_
      rintro _ s' ⟨m, _, _, rfl⟩
      exact ⟨⟨writesAt_scroll h.writes hlast, rfl⟩, fun _ => Crtc.location_cursorWrites _ (by decide)⟩
  · rw [if_neg hnl]
    by_cases hnul : c = 0#8
    · subst hnul
      rw [if_pos rfl]
      exact .of_eq screenPut_nul ⟨h, fun hne => absurd rfl hne⟩
    · rw [if_neg hnul]
      have hpos := h.writes.pos
      have hx := h.column
      have hy : t.row vgaHeight ≤ 24 := Nat.min_le_right _ _
      have hroom : s.vga.pos.toNat + 1 < 2 ^ 32 := by
        rw [hpos]
        simp only [vgaWidth]
        omega
      refine .of_eq (screenPut_printable ⟨hnl, hnul⟩) ⟨⟨writesAt_put h.writes c hroom, ?_⟩, fun _ => ?_⟩
      · show (s.vga.x + 1#8).toNat = _
        rw [BitVec.toNat_add, hx, Lines.cur_put, List.length_append]
        exact Nat.mod_add_mod _ _ _
      · exact Crtc.location_cursorWrites _ hrow

end Steps

/-! ## A whole stream -/

/-- Only the last of the lines may be too long, and by one character at most. -/
structure BarelyFits (t : Lines Byte) : Prop where
  others : ∀ j, j ≠ t.last → (t.line j).length ≤ 255
  last : t.cur.length ≤ 256

theorem BarelyFits.all_iff {t : Lines Byte} (h : BarelyFits t) :
    (∀ j, (t.line j).length ≤ 255) ↔ t.cur.length ≤ 255 := by
  constructor
  · intro hall
    rw [← Lines.line_last]
    exact hall t.last
  · intro hcur j
    by_cases hj : j = t.last
    · rw [hj, Lines.line_last]
      exact hcur
    · exact h.others j hj

theorem BarelyFits.feed {t : Lines Byte} (h : BarelyFits t) (hcur : t.cur.length ≤ 255) (c : Byte) :
    BarelyFits (feed newline 0#8 t c) := by
  have hall := h.all_iff.mpr hcur
  unfold Terminal.feed
  split
  · refine ⟨fun j _ => ?_, Nat.zero_le _⟩
    rw [Lines.line_newline]
    exact hall j
  split
  · exact h
  · refine ⟨fun j hj => ?_, ?_⟩
    · have hne : j ≠ t.last := hj
      rw [Lines.line_put, if_neg hne]
      exact hall j
    · rw [Lines.cur_put, List.length_append]
      exact Nat.succ_le_succ hcur

/-- From where nothing has gone wrong, the cursor follows exactly as long as no line gets too long. -/
theorem cursorFollows_iff_lines {t : Lines Byte} {s : Kernel Flat} (h : Counts t s.vga) (hfits : BarelyFits t)
    (stream : List Byte) :
    CursorFollows stream s ↔ ∀ j, ((stream.foldl (feed newline 0#8) t).line j).length ≤ 255 := by
  induction stream generalizing t s with
  | nil =>
      rw [CursorFollows, positionAgrees_iff h hfits.last]
      exact hfits.all_iff.symm
  | cons c stream ih =>
      rw [CursorFollows, positionAgrees_iff h hfits.last, List.foldl_cons]
      constructor
      · rintro ⟨hcur, _, s₁, hput, _, hrest⟩
        obtain ⟨_, s₂, hput', hcounts, _⟩ := counts_screenPut h hcur c
        rw [hput] at hput'
        cases hput'
        exact (ih hcounts (hfits.feed hcur c)).mp hrest
      · intro hall
        have hcur : t.cur.length ≤ 255 := by
          have hgrows := (feed_line_grows newline 0#8 t c t.last).trans
            (foldl_line_grows newline 0#8 stream (feed newline 0#8 t c) t.last)
          rw [Lines.line_last] at hgrows
          exact Nat.le_trans hgrows.length_le (hall t.last)
        refine ⟨hcur, (counts_screenPut h hcur c).mono ?_⟩
        rintro _ s₁ ⟨hcounts, hlocation⟩
        have hrest := (ih hcounts (hfits.feed hcur c)).mpr hall
        have hagrees : PositionAgrees s₁.vga := by
          cases stream with
          | nil => exact hrest
          | cons c stream => exact hrest.1
        exact ⟨fun hc => (hlocation hc).trans hagrees.symm, hrest⟩

theorem cursorFollows_screenInit (bg : Color) (stream : List Byte) (s : Kernel Flat) :
    (Returns (screenInit bg) s fun _ s' => CursorFollows stream s') ↔
      ∀ j, ((screenLines stream).line j).length ≤ 255 := by
  have hempty : BarelyFits .empty := by
    refine ⟨fun j _ => ?_, Nat.zero_le _⟩
    rw [Lines.line_empty]
    exact Nat.zero_le _
  obtain ⟨_, s₁, hinit, m, _, _, rfl⟩ := screenInit_returns (s := s) bg
  have hiff := cursorFollows_iff_lines (t := .empty) (s := { s with
    mem := m, vga := { x := 0, y := 0, pos := 0, vgaBuff := vgaAddress }, screenBg := bg })
    ⟨⟨rfl, rfl, rfl⟩, rfl⟩ hempty stream
  rw [screenLines, lines, ← hiff]
  constructor
  · rintro ⟨_, s₂, hinit', hfollows⟩
    rw [hinit] at hinit'
    cases hinit'
    exact hfollows
  · exact fun hfollows => ⟨_, _, hinit, hfollows⟩

/-- After `screen_init` the position agrees in every state, and the cursor follows the text, exactly for
the streams without a line of 256 characters. -/
theorem cursorFollows_iff (bg : Color) (stream : List Byte) (s : Kernel Flat) :
    (Returns (screenInit bg) s fun _ s' => CursorFollows stream s') ↔
      ∀ line ∈ (screenLines stream).all, line.length ≤ 255 := by
  rw [cursorFollows_screenInit]
  constructor
  · intro hall line hline
    obtain ⟨j, hj, rfl⟩ := List.mem_iff_getElem.mp hline
    have hshort := hall j
    rwa [Lines.line, List.getD_eq_getElem?_getD, List.getElem?_eq_getElem hj] at hshort
  · intro hall j
    rcases Nat.lt_or_ge (screenLines stream).last j with hj | hj
    · rw [Lines.line_of_gt hj]
      exact Nat.zero_le _
    · exact hall _ (Lines.line_mem_all hj)

/-- On a line of 256 characters the column is 0 again. -/
theorem not_cursorFollows_wide :
    ¬Returns (screenInit .black) (.reset Flat.zero) fun _ s' =>
      CursorFollows (List.replicate 256 97#8) s' := by
  rw [cursorFollows_screenInit]
  intro hall
  have hwide : ((screenLines (List.replicate 256 97#8)).line 0).length = 256 := by decide +kernel
  have hshort := hall 0
  omega

end LizaOS
