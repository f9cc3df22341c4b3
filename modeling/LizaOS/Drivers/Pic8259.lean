-- SUMMARY: The driver of the interrupt controllers, and what its bytes make of them.
import LizaOS.Kernel.Dispatch
import LizaOS.Machine.Pic

/-!
# Driver of the interrupt controllers

`drivers/8259_pic.c`. The controllers are initialised from whatever state they are in, and are told of the end
of each interrupt.
-/

namespace LizaOS

open Exec

def pic1Command : Half := 0x20#16
def pic1Data : Half := 0x21#16
def pic2Command : Half := 0xA0#16
def pic2Data : Half := 0xA1#16

/-- `ICW1`, `ICW4_8086` and `PIC_EOI`. -/
def icw1 : Byte := 0x11#8
def icw48086 : Byte := 0x01#8
def picEoi : Byte := 0x20#8

/-- `pic8259_init` -/
def pic8259Init {m : Type → Type} [Monad m] (inb : Half → m Byte) (outb : Half → Byte → m Unit) : m Unit := do
  let a1 ← inb pic1Data
  let a2 ← inb pic2Data
  outb pic1Command icw1
  outb pic2Command icw1
  -- the vectors
  outb pic1Data 0x20#8
  outb pic2Data 0x28#8
  -- the line the second controller is connected to
  outb pic1Data 4#8
  outb pic2Data 2#8
  outb pic1Data icw48086
  outb pic2Data icw48086
  outb pic1Data a1
  outb pic2Data a2

/-- The bytes `pic8259_init` sends, if it has read these masks. -/
def initWrites (a1 a2 : Byte) : List (Half × Byte) :=
  [(pic1Command, icw1), (pic2Command, icw1), (pic1Data, 0x20#8), (pic2Data, 0x28#8), (pic1Data, 4#8), (pic2Data, 2#8),
    (pic1Data, icw48086), (pic2Data, icw48086), (pic1Data, a1), (pic2Data, a2)]

/-- The masks are read before anything is sent. -/
theorem pic8259Init_sends {μ : Type} {inb : Half → K μ Byte} (read : Half → Byte) {s : Kernel μ}
    (hinb : ∀ port, inb port s = .ok (read port, s)) : pic8259Init inb outb s =
      .ok ((), { s with ports := s.ports ++ initWrites (read pic1Data) (read pic2Data) }) := by
  have hrun : pic8259Init inb outb s = .ok ((), { s with ports := s.ports ++ [(pic1Command, icw1)] ++
      [(pic2Command, icw1)] ++ [(pic1Data, 0x20#8)] ++ [(pic2Data, 0x28#8)] ++ [(pic1Data, 4#8)] ++ [(pic2Data, 2#8)] ++
      [(pic1Data, icw48086)] ++ [(pic2Data, icw48086)] ++ [(pic1Data, read pic1Data)] ++
      [(pic2Data, read pic2Data)] }) := by
    rw [pic8259Init, bind_run (hinb _), bind_run (hinb _)]
    rfl
  rw [hrun]
  simp only [List.append_assoc]
  rfl

/-- The bytes `pic8259_eoi` sends. -/
def eoiWrites (irq : Byte) : List (Half × Byte) :=
  if 0x28#8 ≤ irq then [(pic2Command, picEoi), (pic1Command, picEoi)] else [(pic1Command, picEoi)]

theorem pic8259Eoi_writes {μ : Type} [Bus μ] (irq : Byte) (s : Kernel μ) :
    pic8259Eoi irq s = .ok ((), { s with ports := s.ports ++ eoiWrites irq }) := by
  unfold pic8259Eoi eoiWrites
  split
  · show Except.ok ((), { s with ports := s.ports ++ [_] ++ [_] }) = _
    rw [List.append_assoc]
    rfl
  · rfl

namespace Pics

variable {p : Pics}

/-- A controller behind its initialisation. -/
def initialised (vector cascade imr : Byte) : Pic where
  stage := .mask
  icw1 := icw1
  vector := vector
  cascade := cascade
  mode := icw48086
  imr := imr
  irr _ := false
  isr _ := false

/-- From any state, also in the middle of an initialisation. -/
theorem writes_init (p : Pics) (a1 a2 : Byte) :
    p.writes (initWrites a1 a2) = { master := initialised 0x20#8 4#8 a1, slave := initialised 0x28#8 2#8 a2 } := by
  simp [writes, initWrites, outb, pic1Command, pic1Data, pic2Command, pic2Data, Pic.command, Pic.data, Pic.lastStage,
    initialised, icw1, icw48086]

theorem initialised_programmed (a1 a2 : Byte) : Programmed
    { master := initialised 0x20#8 4#8 a1, slave := initialised 0x28#8 2#8 a2 } 0x20 0x28 := by
  have hfirst : (0x20#8 &&& 0xF8#8).toNat = 0x20 := by decide
  have hsecond : (0x28#8 &&& 0xF8#8).toNat = 0x28 := by decide
  have hmode : icw48086.getLsbD 1 = false := by decide
  exact ⟨rfl, rfl, hfirst, hsecond, rfl, rfl, hmode, hmode⟩

theorem outb_eoi (p : Pics) :
    p.outb pic1Command picEoi = { p with master := p.master.endOfInterrupt } ∧
      p.outb pic2Command picEoi = { p with slave := p.slave.endOfInterrupt } := ⟨rfl, rfl⟩

/-- The second controller is told of the end of its own interrupts only, the first one of all. -/
theorem writes_eoi (p : Pics) (n : Fin 16) : p.writes (eoiWrites (BitVec.ofNat 8 (32 + n))) = p.ended n := by
  have hsecond : 0x28#8 ≤ BitVec.ofNat 8 (32 + n.val) ↔ ¬n.val < 8 := by
    have hforty : (0x28#8).toNat = 40 := rfl
    have hirq : (BitVec.ofNat 8 (32 + n.val)).toNat = 32 + n := by
      rw [BitVec.toNat_ofNat]
      omega
    rw [BitVec.le_def, hforty, hirq]
    omega
  unfold eoiWrites ended
  by_cases hn : n.val < 8
  · rw [if_neg (not_not.mpr hn ∘ hsecond.mp), if_pos hn]
    exact (outb_eoi p).1
  · rw [if_pos (hsecond.mpr hn), if_neg hn]
    show (p.outb pic2Command picEoi).outb pic1Command picEoi = _
    rw [(outb_eoi p).2, (outb_eoi _).1]

end Pics

end LizaOS
