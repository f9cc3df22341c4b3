-- SUMMARY: Exactly which streams the screen prints without leaving the screen or overwriting visible text.
import LizaOS.Drivers.ScreenTerminal

/-!
# Where the screen writes

The driver never breaks a line: `vga_write_b` goes on at `pos`, so a long line runs into the rows
below it, and the newline after it goes back to the row below the one the line began in. A cell is
held from the moment a character is stored in it until a scroll moves the character on.
-/

namespace LizaOS

open Exec Terminal

/-- `screen_put(c)` stores one cell, and that is number `k` of the screen, whatever the cells hold. -/
def StoresAt (c : Byte) (s : Kernel Flat) (k : Nat) : Prop :=
  ∃ v, ∀ m : Flat, Returns (screenPut c) { s with mem := m } fun _ s' =>
    s'.mem = m.setCell (cellAddr vgaAddress (BitVec.ofNat 32 k)) v

/-- The store of `vga_write_b`, if the byte makes one, is to the cell `k`, which is on the screen and free. -/
def PutSafe (c : Byte) (s : Kernel Flat) (held : Nat → Bool) (k : Nat) : Prop :=
  Printable c → StoresAt c s k ∧ k < vgaWidth * (vgaHeight + 1) ∧ held k = false

/-- The cells that hold a printed character after `screen_put(c)`, whose store, if it makes one, is to the cell `k`. -/
def heldAfter (c : Byte) (s : Kernel Flat) (k : Nat) (held : Nat → Bool) : Nat → Bool :=
  if c = newline then
    if vgaHeight ≤ s.vga.y.toNat then
      fun i => if i < scrollCells then held (i + vgaWidth) else held i
    else held
  else if c = 0#8 then held
  else fun i => i == k || held i

/-- Every store is safe when the bytes are put one after the other. -/
def OutputSafe : List Byte → Kernel Flat → (Nat → Bool) → Prop
  | [], _, _ => True
  | c :: stream, s, held =>
      ∃ k, PutSafe c s held k ∧ Returns (screenPut c) s fun _ s' => OutputSafe stream s' (heldAfter c s k held)

/-! ## The position and the held cells -/

/-- As long as nothing went wrong, the driver writes where the lines run on, and the held cells are
those of the printed characters, seen from the row that is on top. -/
structure Tracks (t : Lines Byte) (s : Kernel Flat) (held : Nat → Bool) : Prop where
  writes : WritesAt t s.vga
  held : ∀ i, held i = true ↔ t.Printed vgaWidth (i + vgaWidth * t.top vgaHeight)
  fits : t.Fits vgaWidth vgaHeight

section Steps

variable {t : Lines Byte} {s : Kernel Flat} {held : Nat → Bool}

theorem Tracks.next (h : Tracks t s held) :
    s.vga.pos.toNat + vgaWidth * t.top vgaHeight = t.next vgaWidth := by
  have hrow := Lines.top_add_row vgaHeight t
  rw [h.writes.pos, Lines.next, ← hrow, Nat.mul_add]
  omega

/-- No character is printed below the rows that are shown. -/
theorem printed_lt (h : t.Fits vgaWidth vgaHeight) {p : Nat} (hp : t.Printed vgaWidth p) :
    p < vgaWidth * (vgaHeight + 1) + vgaWidth * t.top vgaHeight := by
  obtain ⟨j, hlo, hhi⟩ := hp
  have hin := h.inside j
  rcases Nat.lt_or_ge t.last j with hj | hj
  · rw [Lines.line_of_gt hj] at hhi
    exact absurd hlo (Nat.not_le.mpr hhi)
  · simp only [vgaWidth, vgaHeight, Lines.top] at *
    omega

/-- A printable byte is stored where the driver stands. -/
theorem storesAt_iff {c : Byte} (hc : Printable c) (hbuff : s.vga.vgaBuff = vgaAddress) {k : Nat} (hk : k < 2 ^ 31)
    (hpos : s.vga.pos.toNat < 2 ^ 31) : StoresAt c s k ↔ k = s.vga.pos.toNat := by
  have hat : cellAddr s.vga.vgaBuff s.vga.pos = cellAddr vgaAddress (BitVec.ofNat 32 s.vga.pos.toNat) := by
    rw [hbuff, BitVec.ofNat_toNat, BitVec.setWidth_eq]
  constructor
  · rintro ⟨v, hstores⟩
    -- a memory in which no cell holds what is stored shows where it is stored
    have hmem := (hstores { ram := s.mem.ram, cells := fun _ => v + 1#16 }).whenReturns _ _ (screenPut_printable hc)
    dsimp only at hmem
    have hcell := congrArg (Flat.cell · k) hmem
    rw [hat, Flat.cell_setCell _ _ hpos hk, Flat.cell_setCell _ _ hk hk, if_pos rfl] at hcell
    by_contra hne
    rw [if_neg hne] at hcell
    have hother : v + 1#16 = v := hcell
    bv_omega
  · rintro rfl
    refine ⟨vgaItemEntry c .white s.screenBg, fun m => .of_eq (screenPut_printable hc) ?_⟩
    rw [← hat]

theorem putSafe_iff (h : Tracks t s held) {c : Byte} (hc : Printable c) (k : Nat) :
    PutSafe c s held k ↔ k = s.vga.pos.toNat ∧ (t.put c).Fits vgaWidth vgaHeight := by
  have hshown : s.vga.pos.toNat ≤ 2000 := by
    have hlast := h.fits.inside t.last
    rw [h.writes.pos, Lines.row, ← Lines.line_last]
    exact hlast
  have hheld := h.held s.vga.pos.toNat
  rw [h.next] at hheld
  have hfree : held s.vga.pos.toNat = false ↔ ¬ t.Printed vgaWidth (t.next vgaWidth) := by
    rw [← hheld, Bool.not_eq_true]
  rw [Lines.fits_put h.fits, ← h.writes.pos, ← hfree]
  constructor
  · intro hsafe
    obtain ⟨hstores, hin, hk⟩ := hsafe hc
    have hlt : k < 2000 := hin
    obtain rfl := (storesAt_iff hc h.writes.buff (by omega) (by omega)).mp hstores
    exact ⟨rfl, hin, hk⟩
  · rintro ⟨rfl, hin, hk⟩ _
    exact ⟨(storesAt_iff hc h.writes.buff (by omega) (by omega)).mpr rfl, hin, hk⟩

theorem tracks_put (h : Tracks t s held) {c : Byte} (hc : Printable c)
    (hfits : (t.put c).Fits vgaWidth vgaHeight) :
    Returns (screenPut c) s fun _ s' => Tracks (t.put c) s' (heldAfter c s s.vga.pos.toNat held) := by
  have hroom : s.vga.pos.toNat < 2000 := by
    rw [h.writes.pos]
    exact ((Lines.fits_put h.fits c).mp hfits).1
  refine .of_eq (screenPut_printable hc) {
    writes := writesAt_put h.writes c (by omega)
    held := fun i => ?_
    fits := hfits }
  have htop : (t.put c).top vgaHeight = t.top vgaHeight := rfl
  rw [htop, Lines.printed_put, ← h.next, ← h.held i]
  simp [heldAfter, hc.1, hc.2]

theorem tracks_newline (h : Tracks t s held) (k : Nat) (hlast : t.last < vgaHeight) :
    Returns (screenPut newline) s fun _ s' => Tracks t.newline s' (heldAfter newline s k held) := by
  have hy := h.writes.y_lt hlast
  refine .of_eq (screenPut_newline hy) {
    writes := writesAt_newline h.writes hlast
    held := fun i => ?_
    fits := Lines.fits_newline.mpr h.fits }
  have htop : t.newline.top vgaHeight = t.top vgaHeight := by
    simp only [Lines.top, Lines.last_newline]
    omega
  rw [htop, Lines.printed_newline, ← h.held i, heldAfter, if_pos rfl, if_neg (Nat.not_le.mpr hy)]

/-- A scroll takes the held cells along. Those it leaves where they are hold nothing. -/
theorem tracks_newline_scroll (h : Tracks t s held) (k : Nat) (hlast : vgaHeight ≤ t.last) :
    Returns (screenPut newline) s fun _ s' => Tracks t.newline s' (heldAfter newline s k held) := by
  have hy := h.writes.le_y hlast
  refine (screenPut_newline_scroll hy h.writes.buff).mono ?_
  rintro _ s' ⟨m, _, _, rfl⟩
  refine {
    writes := writesAt_scroll h.writes hlast
    held := fun i => ?_
    fits := Lines.fits_newline.mpr h.fits }
  have hmove : i + vgaWidth * t.newline.top vgaHeight =
      i + vgaWidth + vgaWidth * t.top vgaHeight := by
    simp only [Lines.top, Lines.last_newline, vgaWidth]
    omega
  rw [hmove, Lines.printed_newline, ← h.held (i + vgaWidth), heldAfter, if_pos rfl, if_pos hy]
  by_cases hi : i < scrollCells
  · rw [if_pos hi]
  · have hfree : ∀ k, vgaWidth * (vgaHeight + 1) ≤ k → ¬ held k = true := by
      intro k hk hheld
      have hlt := printed_lt h.fits ((h.held k).mp hheld)
      omega
    have hi' : 2120 ≤ i := Nat.not_lt.mp hi
    have hlow : vgaWidth * (vgaHeight + 1) ≤ i := Nat.le_trans (by decide) hi'
    rw [if_neg hi]
    exact iff_of_false (hfree i hlow) (hfree _ (Nat.le_add_right_of_le hlow))

/-- One byte either makes a safe store and keeps the position and the held cells on track, or the
lines do not fit any more. -/
theorem tracks_screenPut (h : Tracks t s held) (c : Byte) :
    ((feed newline 0#8 t c).Fits vgaWidth vgaHeight → ∃ k, PutSafe c s held k) ∧
      ∀ k, PutSafe c s held k → (feed newline 0#8 t c).Fits vgaWidth vgaHeight ∧
        Returns (screenPut c) s fun _ s' => Tracks (feed newline 0#8 t c) s' (heldAfter c s k held) := by
  unfold feed
  by_cases hnl : c = newline
  · subst hnl
    rw [if_pos rfl, Lines.fits_newline]
    refine ⟨fun _ => ⟨0, fun hc => absurd rfl hc.1⟩, fun k _ => ⟨h.fits, ?_⟩⟩
    rcases Nat.lt_or_ge t.last vgaHeight with hlast | hlast
    · exact tracks_newline h k hlast
    · exact tracks_newline_scroll h k hlast
  · rw [if_neg hnl]
    by_cases hnul : c = 0#8
    · subst hnul
      rw [if_pos rfl]
      exact ⟨fun _ => ⟨0, fun hc => absurd rfl hc.2⟩, fun _ _ => ⟨h.fits, .of_eq screenPut_nul h⟩⟩
    · rw [if_neg hnul]
      refine ⟨fun hfits => ⟨_, (putSafe_iff h ⟨hnl, hnul⟩ _).mpr ⟨rfl, hfits⟩⟩, fun k hk => ?_⟩
      obtain ⟨rfl, hfits⟩ := (putSafe_iff h ⟨hnl, hnul⟩ k).mp hk
      exact ⟨hfits, tracks_put h ⟨hnl, hnul⟩ hfits⟩

end Steps

/-! ## A whole stream -/

/-- From a state on track, the stores of a stream are safe exactly when the lines fit in the end. -/
theorem outputSafe_iff_fits {t : Lines Byte} {s : Kernel Flat} {held : Nat → Bool}
    (h : Tracks t s held) (stream : List Byte) :
    OutputSafe stream s held ↔
      (stream.foldl (feed newline 0#8) t).Fits vgaWidth vgaHeight := by
  induction stream generalizing t s held with
  | nil => exact iff_of_true trivial h.fits
  | cons c stream ih =>
      obtain ⟨hsafe, hrun⟩ := tracks_screenPut h c
      rw [OutputSafe, List.foldl_cons]
      constructor
      · rintro ⟨k, hk, _, s₁, hput, hrest⟩
        obtain ⟨_, _, s₂, hput', htracks⟩ := hrun k hk
        rw [hput] at hput'
        cases hput'
        exact (ih htracks).mp hrest
      · intro hfits
        have hfits' := hfits.of_grows (foldl_line_grows newline 0#8 stream (feed newline 0#8 t c))
        obtain ⟨k, hk⟩ := hsafe hfits'
        refine ⟨k, hk, (hrun k hk).2.mono fun _ s₁ htracks => ?_⟩
        exact (ih htracks).mpr hfits

theorem tracks_screenInit (bg : Color) (s : Kernel Flat) :
    Returns (screenInit bg) s fun _ s' => Tracks .empty s' fun _ => false := by
  refine (screenInit_returns bg).mono ?_
  rintro _ s' ⟨m, _, _, rfl⟩
  exact {
    writes := ⟨rfl, rfl, rfl⟩
    held := fun i => iff_of_false Bool.false_ne_true (Lines.not_printed_empty _ _)
    fits := Lines.fits_empty }

theorem outputSafe_iff_lines_fit (bg : Color) (stream : List Byte) (s : Kernel Flat) :
    (Returns (screenInit bg) s fun _ s' => OutputSafe stream s' fun _ => false) ↔
      (screenLines stream).Fits vgaWidth vgaHeight := by
  obtain ⟨_, s₁, hinit, htracks⟩ := tracks_screenInit bg s
  rw [screenLines, lines, ← outputSafe_iff_fits htracks stream]
  constructor
  · rintro ⟨_, s₂, hinit', hsafe⟩
    rw [hinit] at hinit'
    cases hinit'
    exact hsafe
  · exact fun hsafe => ⟨_, s₁, hinit, hsafe⟩

/-- The stores of `screen_put` after `screen_init` stay on the screen and in free cells exactly when
each line `L_j` has at most `2000 - 80 * min j 24` bytes and each line before a line that is not
empty ends above the row of that line. -/
theorem outputSafe_iff (bg : Color) (stream : List Byte) (s : Kernel Flat) :
    (Returns (screenInit bg) s fun _ s' => OutputSafe stream s' fun _ => false) ↔
      (∀ j, ((screenLines stream).line j).length ≤ 2000 - 80 * min j 24) ∧
        ∀ i j, i < j → (screenLines stream).line j ≠ [] →
          ((screenLines stream).line i).length ≤ 80 * (j - i) := by
  rw [outputSafe_iff_lines_fit]
  constructor
  · rintro ⟨hinside, hapart⟩
    refine ⟨fun j => ?_, fun i j hij hj => ?_⟩
    · have hj := hinside j
      simp only [vgaWidth, vgaHeight] at hj
      omega
    · have hends := hapart i j hij hj
      simp only [vgaWidth] at hends
      omega
  · rintro ⟨hshort, hends⟩
    refine ⟨fun j => ?_, fun i j hij hj => ?_⟩
    · have hj := hshort j
      simp only [vgaWidth, vgaHeight]
      omega
    · have hi := hends i j hij hj
      simp only [vgaWidth]
      omega

/-- A line of 81 bytes, and a byte in the next line: it is stored over the last byte of the first. -/
theorem not_outputSafe_overlong :
    ¬ Returns (screenInit .black) (.reset Flat.zero) fun _ s' =>
      OutputSafe (List.replicate 81 97#8 ++ cstr "\nb") s' fun _ => false := by
  rw [outputSafe_iff_lines_fit]
  intro hfits
  have hends := hfits.apart 0 1 (by decide) (by decide)
  exact absurd hends (by decide)

end LizaOS
