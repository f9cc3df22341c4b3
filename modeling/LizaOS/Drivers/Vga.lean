-- SUMMARY: The text-mode VGA driver and the screen on top of it.
import LizaOS.Kernel.State

/-!
# VGA text driver

`drivers/vga.c` and `kernel/screen.c`. The screen has 25 rows of 80 cells, although `VGA_HEIGHT` is
24: `vga.y` counts the rows from 0 and stops at `VGA_HEIGHT`. The driver keeps the write position
three times, as column `x`, row `y` and linear index `pos`.
-/

namespace LizaOS

def vgaAddress : Word := 0xB8000#32
def vgaCrtcIndex : Half := 0x3D4#16
def vgaCrtcData : Half := 0x3D5#16
def vgaMaxWidth : Nat := 320
def vgaMaxHeight : Nat := 200
def vgaMax : Nat := vgaMaxWidth * vgaMaxHeight
def vgaWidth : Nat := 80
def vgaHeight : Nat := 24

/-- The number of cells `scroll` moves. -/
def scrollCells : Nat := 2200 - 80

/-- A screen cell: background and foreground colour in the high byte, the character in the low. -/
def vgaItemEntry (ch : Byte) (foreColor backColor : Color) : Half :=
  let ah : Byte := (backColor.code <<< 4) ||| foreColor.code
  (ah.zeroExtend 16 <<< 8) ||| ch.zeroExtend 16

/-- The address of cell `i` of a 16-bit buffer. -/
def cellAddr (buff : Word) (i : Word) : Word := buff + 2#32 * i

variable {μ : Type} [Bus μ]

/-- Tell the CRT controller where the hardware cursor is. -/
def vgaPositionCursor (x y : Byte) : K μ Unit := do
  let cursorLocation : Half := y.zeroExtend 16 * BitVec.ofNat 16 vgaWidth + x.zeroExtend 16
  outb vgaCrtcIndex 14
  outb vgaCrtcData ((cursorLocation >>> 8).truncate 8)
  outb vgaCrtcIndex 15
  outb vgaCrtcData (cursorLocation.truncate 8)

/-- One turn of the copy loop of `scroll`. -/
def scrollCell (buff : Word) (i : Nat) : K μ Unit := do
  let cell ← loadCell (cellAddr buff (BitVec.ofNat 32 (i + vgaWidth)))
  storeCell (cellAddr buff (BitVec.ofNat 32 i)) cell

/-- Move the screen up by one row. `pos` is computed from the row before `y` is set. The source
passes the two colours here and to `vga_newline`, which do not use them. -/
def scroll : K μ Unit := do
  let buff := (← get).vga.vgaBuff
  Exec.forUp (scrollCell buff) 0 scrollCells
  modify fun s => { s with vga := { s.vga with
    x := 0
    pos := s.vga.y.zeroExtend 32 * BitVec.ofNat 32 vgaWidth
    y := BitVec.ofNat 8 vgaHeight } }

def vgaWriteB (ch : Byte) (foreColor backColor : Color) : K μ Unit := do
  let vga := (← get).vga
  storeCell (cellAddr vga.vgaBuff vga.pos) (vgaItemEntry ch foreColor backColor)
  modify fun s => { s with vga := { s.vga with pos := vga.pos + 1#32, x := s.vga.x + 1#8 } }
  let vga := (← get).vga
  vgaPositionCursor vga.x vga.y

/-- The blank value of a cell after `vga_clear`. -/
def blankCell (bg : Color) : Half := bg.code.zeroExtend 16

def vgaClear (bg : Color) : K μ Unit :=
  Exec.forUp (fun i => storeCell (cellAddr vgaAddress (BitVec.ofNat 32 i)) (blankCell bg)) 0 vgaMax

def vgaInit (bg : Color) : K μ Unit := do
  vgaClear bg
  modify fun s => { s with vga := { x := 0, y := 0, pos := 0, vgaBuff := vgaAddress } }

def vgaNewline : K μ Unit := do
  let vga := (← get).vga
  if vgaHeight ≤ vga.y.toNat then
    scroll
    let vga := (← get).vga
    vgaPositionCursor vga.x vga.y
  else
    modify fun s => { s with vga := { s.vga with
      pos := (s.vga.y.zeroExtend 32 + 1#32) * BitVec.ofNat 32 vgaWidth
      x := 0
      y := s.vga.y + 1#8 } }
    let vga := (← get).vga
    vgaPositionCursor vga.x vga.y

/-! ## The screen -/

def screenInit (bg : Color) : K μ Unit := do
  vgaInit bg
  modify fun s => { s with screenBg := bg }

/-- The byte `'\n'`. -/
def newline : Byte := 10#8

def charProcess (c : Byte) : K μ Unit := do
  if c = newline then vgaNewline
  else if c = 0#8 then pure ()
  else vgaWriteB c .white (← get).screenBg

def screenPut (c : Byte) : K μ Unit := charProcess c

/-- `screen_put_text`, on the bytes of the string before its NUL. -/
def screenPutText (text : List Byte) : K μ Unit := text.forM charProcess

end LizaOS
