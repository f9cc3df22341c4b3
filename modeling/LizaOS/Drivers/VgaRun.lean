-- SUMMARY: What the VGA driver and the screen do on a flat memory, step by step.
import LizaOS.Drivers.Vga

/-!
# Runs of the VGA driver

On a flat memory the driver never stops early. The lemmas give, for each function, the state it
leaves; cells are named by their index in the screen buffer.
-/

namespace LizaOS

open Exec

theorem cellAddr_toNat (buff : Word) (i : Nat) :
    (cellAddr buff (BitVec.ofNat 32 i)).toNat = (buff.toNat + 2 * i) % 2 ^ 32 := by
  simp only [cellAddr, BitVec.toNat_add, BitVec.toNat_mul, BitVec.toNat_ofNat]
  omega

theorem cellAddr_inj (buff : Word) {i j : Nat} (hi : i < 2 ^ 31) (hj : j < 2 ^ 31) :
    cellAddr buff (BitVec.ofNat 32 i) = cellAddr buff (BitVec.ofNat 32 j) ↔ i = j := by
  constructor
  · intro h
    have hnat := congrArg BitVec.toNat h
    rw [cellAddr_toNat, cellAddr_toNat] at hnat
    omega
  · rintro rfl
    rfl

namespace Flat

/-- Cell `i` of the screen buffer. -/
def cell (m : Flat) (i : Nat) : Half := m.cells (cellAddr vgaAddress (BitVec.ofNat 32 i))

theorem cell_setCell (m : Flat) (h : Half) {i j : Nat} (hi : i < 2 ^ 31) (hj : j < 2 ^ 31) :
    (m.setCell (cellAddr vgaAddress (BitVec.ofNat 32 i)) h).cell j = if j = i then h else m.cell j := by
  by_cases hji : j = i
  · simp [cell, setCell, hji]
  · simp [cell, setCell, cellAddr_inj vgaAddress hj hi, hji]

end Flat

/-! ## The driver -/

/-- The port writes of `vga_position_cursor`. -/
def cursorWrites (x y : Byte) : List (Half × Byte) :=
  let cursorLocation : Half := y.zeroExtend 16 * BitVec.ofNat 16 vgaWidth + x.zeroExtend 16
  [(vgaCrtcIndex, 14), (vgaCrtcData, (cursorLocation >>> 8).truncate 8),
    (vgaCrtcIndex, 15), (vgaCrtcData, cursorLocation.truncate 8)]

section AnyBus

variable {μ : Type} {s : Kernel μ}

theorem vgaPositionCursor_run (x y : Byte) :
    vgaPositionCursor x y s = .ok ((), { s with ports := s.ports ++ cursorWrites x y }) := by
  simp [vgaPositionCursor, cursorWrites, bind_apply]

end AnyBus

variable {s : Kernel Flat}

/-- A character is stored in the cell at `pos`. -/
theorem vgaWriteB_run (ch : Byte) (fore back : Color) :
    vgaWriteB ch fore back s = .ok ((), { s with
      mem := s.mem.setCell (cellAddr s.vga.vgaBuff s.vga.pos) (vgaItemEntry ch fore back)
      vga := { s.vga with pos := s.vga.pos + 1#32, x := s.vga.x + 1#8 }
      ports := s.ports ++ cursorWrites (s.vga.x + 1#8) s.vga.y }) := by
  exact vgaPositionCursor_run (s.vga.x + 1#8) s.vga.y

/-- The copy loop moves the cells above the first `vgaWidth` down by a row. It copies upwards from
cells it has not overwritten yet. -/
theorem scroll_loop (s : Kernel Flat) (h : s.vga.vgaBuff = vgaAddress) :
    Returns (forUp (scrollCell s.vga.vgaBuff) 0 scrollCells) s fun _ s' =>
      ∃ m : Flat, s' = { s with mem := m } ∧ m.ram = s.mem.ram ∧
        ∀ j, j < 2 ^ 31 → m.cell j =
          if j < scrollCells then s.mem.cell (j + vgaWidth) else s.mem.cell j := by
  let Copied (k : Nat) (s' : Kernel Flat) : Prop :=
    ∃ m : Flat, s' = { s with mem := m } ∧ m.ram = s.mem.ram ∧
      ∀ j, j < 2 ^ 31 → m.cell j = if j < k then s.mem.cell (j + vgaWidth) else s.mem.cell j
  have hstart : Copied 0 s := ⟨s.mem, rfl, rfl, fun j _ => by simp⟩
  have hloop : Returns (forUp (scrollCell s.vga.vgaBuff) 0 scrollCells) s
      fun _ s' => Copied (0 + scrollCells) s' := by
    refine forUp_returns (I := Copied) hstart fun k s' _ hk hcopied => ?_
    obtain ⟨m, rfl, hram, hcells⟩ := hcopied
    have hk' : k < 2120 := by simpa [scrollCells] using hk
    refine .of_eq rfl ⟨_, rfl, ?_, fun j hj => ?_⟩
    · simpa using hram
    · have hsrc := hcells (k + vgaWidth) (by simp only [vgaWidth]; omega)
      have hread : m.cells (cellAddr s.vga.vgaBuff (BitVec.ofNat 32 (k + vgaWidth))) =
          s.mem.cell (k + vgaWidth) := by
        rw [h]
        rwa [if_neg (by omega)] at hsrc
      simp only [hread]
      rw [h, Flat.cell_setCell _ _ (by omega) hj, hcells j hj]
      by_cases hjk : j = k
      · simp [hjk]
      · simp [hjk, show j < k + 1 ↔ j < k by omega]
  simpa only [Copied, Nat.zero_add] using hloop

theorem scroll_returns (h : s.vga.vgaBuff = vgaAddress) :
    Returns (scroll : K Flat Unit) s fun _ s' =>
      ∃ m : Flat, m.ram = s.mem.ram ∧
        (∀ j, j < 2 ^ 31 → m.cell j =
          if j < scrollCells then s.mem.cell (j + vgaWidth) else s.mem.cell j) ∧
        s' = { s with
          mem := m
          vga := { s.vga with
            x := 0
            pos := s.vga.y.zeroExtend 32 * BitVec.ofNat 32 vgaWidth
            y := BitVec.ofNat 8 vgaHeight } } := by
  unfold scroll
  rw [Returns]
  obtain ⟨_, s₁, hrun, m, rfl, hram, hcells⟩ := scroll_loop s h
  refine ⟨(), _, ?_, m, hram, hcells, rfl⟩
  rw [bind_run (get_apply s), bind_run hrun]
  rfl

/-- `vga_clear` leaves the blank value in every cell of the buffer. -/
theorem vgaClear_returns (bg : Color) :
    Returns (vgaClear bg) s fun _ s' =>
      ∃ m : Flat, s' = { s with mem := m } ∧ m.ram = s.mem.ram ∧
        ∀ j, j < 2 ^ 31 → m.cell j = if j < vgaMax then blankCell bg else s.mem.cell j := by
  let Cleared (k : Nat) (s' : Kernel Flat) : Prop :=
    ∃ m : Flat, s' = { s with mem := m } ∧ m.ram = s.mem.ram ∧
      ∀ j, j < 2 ^ 31 → m.cell j = if j < k then blankCell bg else s.mem.cell j
  have hstart : Cleared 0 s := ⟨s.mem, rfl, rfl, fun j _ => by simp⟩
  have hloop : Returns (vgaClear bg) s fun _ s' => Cleared (0 + vgaMax) s' := by
    refine forUp_returns (I := Cleared) hstart fun k s' _ hk hcleared => ?_
    obtain ⟨m, rfl, hram, hcells⟩ := hcleared
    have hk' : k < 64000 := by simpa [vgaMax, vgaMaxWidth, vgaMaxHeight] using hk
    refine .of_eq rfl ⟨_, rfl, ?_, fun j hj => ?_⟩
    · simpa using hram
    · rw [Flat.cell_setCell _ _ (by omega) hj, hcells j hj]
      by_cases hjk : j = k
      · simp [hjk]
      · simp [hjk, show j < k + 1 ↔ j < k by omega]
  simpa only [Cleared, Nat.zero_add] using hloop

/-! ## The screen -/

theorem screenInit_returns (bg : Color) :
    Returns (screenInit bg) s fun _ s' =>
      ∃ m : Flat, m.ram = s.mem.ram ∧ (∀ j, j < vgaMax → m.cell j = blankCell bg) ∧
        s' = { s with
          mem := m
          vga := { x := 0, y := 0, pos := 0, vgaBuff := vgaAddress }
          screenBg := bg } := by
  obtain ⟨_, s₁, hrun, m, rfl, hram, hcells⟩ := vgaClear_returns (s := s) bg
  refine ⟨(), _, ?_, m, hram, fun j hj => ?_, rfl⟩
  · unfold screenInit vgaInit
    rw [bind_run (bind_run hrun)]
    rfl
  · have hlt : j < 2 ^ 31 := by
      simp only [vgaMax, vgaMaxWidth, vgaMaxHeight] at hj
      omega
    rw [hcells j hlt, if_pos hj]

@[simp] theorem screenPut_nul : screenPut 0#8 s = .ok ((), s) := rfl

/-- The byte is shown as a character. -/
def Printable (c : Byte) : Prop := c ≠ newline ∧ c ≠ 0#8

instance (c : Byte) : Decidable (Printable c) := by
  unfold Printable
  exact inferInstance

theorem screenPut_printable {c : Byte} (h : Printable c) :
    screenPut c s = .ok ((), { s with
      mem := s.mem.setCell (cellAddr s.vga.vgaBuff s.vga.pos) (vgaItemEntry c .white s.screenBg)
      vga := { s.vga with pos := s.vga.pos + 1#32, x := s.vga.x + 1#8 }
      ports := s.ports ++ cursorWrites (s.vga.x + 1#8) s.vga.y }) := by
  simp only [screenPut, charProcess, h.1, h.2, if_false]
  exact (bind_run (get_apply s)).trans (vgaWriteB_run c .white s.screenBg)

/-- A newline above the last row moves to the start of the next row. -/
theorem screenPut_newline (h : s.vga.y.toNat < vgaHeight) :
    screenPut newline s = .ok ((), { s with
      vga := { s.vga with
        pos := (s.vga.y.zeroExtend 32 + 1#32) * BitVec.ofNat 32 vgaWidth
        x := 0
        y := s.vga.y + 1#8 }
      ports := s.ports ++ cursorWrites 0 (s.vga.y + 1#8) }) := by
  simp [screenPut, charProcess, vgaNewline, bind_apply, Nat.not_le.mpr h, vgaPositionCursor_run]

/-- A newline in the last row scrolls. -/
theorem screenPut_newline_scroll (h : vgaHeight ≤ s.vga.y.toNat) (hb : s.vga.vgaBuff = vgaAddress) :
    Returns (screenPut newline) s fun _ s' =>
      ∃ m : Flat, m.ram = s.mem.ram ∧
        (∀ j, j < 2 ^ 31 → m.cell j =
          if j < scrollCells then s.mem.cell (j + vgaWidth) else s.mem.cell j) ∧
        s' = { s with
          mem := m
          vga := { s.vga with
            x := 0
            pos := s.vga.y.zeroExtend 32 * BitVec.ofNat 32 vgaWidth
            y := BitVec.ofNat 8 vgaHeight }
          ports := s.ports ++ cursorWrites 0 (BitVec.ofNat 8 vgaHeight) } := by
  obtain ⟨_, s₁, hrun, m, hram, hcells, rfl⟩ := scroll_returns hb
  refine ⟨(), _, ?_, m, hram, hcells, rfl⟩
  simp [screenPut, charProcess, vgaNewline, bind_apply, h, hrun, vgaPositionCursor_run]

end LizaOS
