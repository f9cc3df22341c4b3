-- SUMMARY: The interval timer of a PC: how its first channel is programmed, and how often it interrupts.
import LizaOS.Machine.Word

/-!
# The interval timer

The first channel of the 8253 in its periodic modes. The other modes, the other channels and reading a count are
left out.
-/

namespace LizaOS

structure Pit where
  /-- The bytes of a count that are written, the mode, and whether it counts in decimal. -/
  access : BitVec 2
  mode : BitVec 3
  bcd : Bool
  /-- The low byte of a count of which the high byte is still to come. -/
  low : Option Byte
  reload : Nat
  /-- The clocks to the next interrupt. It is 0 while there is no count. -/
  count : Nat
  deriving DecidableEq, Repr

namespace Pit

def channel0 : Half := 0x40#16
def control : Half := 0x43#16

/-- A count of 0 stands for the largest. -/
def period (bcd : Bool) (n : Half) : Nat :=
  if bcd then
    let digits := n.toNat % 16 + 10 * (n.toNat / 16 % 16) + 100 * (n.toNat / 256 % 16) + 1000 * (n.toNat / 4096)
    if digits = 0 then 10000 else digits
  else if n = 0#16 then 65536 else n.toNat

/-- A count that is running is replaced at its end. -/
def load (n : Half) (p : Pit) : Pit :=
  { p with
    low := none
    reload := period p.bcd n
    count := if p.count = 0 then period p.bcd n else p.count }

def outb (p : Pit) (port : Half) (b : Byte) : Pit :=
  if port = control then
    -- a control word for the first channel that is not a latch command
    if b.extractLsb' 6 2 = 0#2 ∧ b.extractLsb' 4 2 ≠ 0#2 then
      { p with access := b.extractLsb' 4 2, mode := b.extractLsb' 1 3, bcd := b.getLsbD 0, low := none, count := 0 }
    else p
  else if port = channel0 then
    if p.access = 1#2 then p.load (0#8 ++ b)
    else if p.access = 2#2 then p.load (b ++ 0#8)
    else if p.access = 3#2 then
      match p.low with
      | none => { p with low := some b }
      | some l => p.load (b ++ l)
    else p
  else p

/-- The bytes of a driver, one after the other. -/
def writes (p : Pit) (ws : List (Half × Byte)) : Pit := ws.foldl (fun p w => p.outb w.1 w.2) p

/-- One clock, and whether there is an interrupt at it. -/
def clock (p : Pit) : Bool × Pit :=
  if p.count = 0 then (false, p)
  else if p.count = 1 then (p.mode.getLsbD 1, { p with count := p.reload })
  else (false, { p with count := p.count - 1 })

/-- The interrupts of a number of clocks. -/
def clocks : Nat → Pit → Nat × Pit
  | 0, p => (0, p)
  | n + 1, p =>
      let (k, p) := clocks n p
      (k + p.clock.1.toNat, p.clock.2)

/-- A count is running in a periodic mode. -/
structure Periodic (p : Pit) : Prop where
  mode : p.mode.getLsbD 1 = true
  pos : 0 < p.count
  le : p.count ≤ p.reload

section Run

variable {p : Pit}

/-- The interrupts come one period apart, the first when the count is over. -/
theorem clocks_eq (h : p.Periodic) (n : Nat) : p.clocks n =
    ((n + (p.reload - p.count)) / p.reload,
      { p with count := p.reload - (n + (p.reload - p.count)) % p.reload }) := by
  have hpos := h.pos
  have hle := h.le
  induction n with
  | zero =>
      have hlt : 0 + (p.reload - p.count) < p.reload := by omega
      have hcount : p.reload - (0 + (p.reload - p.count)) = p.count := by omega
      rw [clocks, Nat.div_eq_of_lt hlt, Nat.mod_eq_of_lt hlt, hcount]
  | succ n ih =>
      have hreload : 0 < p.reload := by omega
      rw [clocks, ih, Nat.add_right_comm n 1]
      generalize n + (p.reload - p.count) = x
      have hmod := Nat.mod_lt x hreload
      have hdiv := Nat.div_add_mod x p.reload
      by_cases hlast : x % p.reload + 1 = p.reload
      · have hone : p.reload - x % p.reload = 1 := by omega
        have hsucc : x + 1 = p.reload * (x / p.reload + 1) := by
          rw [Nat.mul_succ]
          omega
        simp only [clock, hone, if_neg Nat.one_ne_zero, if_true, h.mode, Bool.toNat_true]
        rw [hsucc, Nat.mul_div_cancel_left _ hreload, Nat.mul_mod_right, Nat.sub_zero]
      · have hnext : (x + 1) / p.reload = x / p.reload ∧ (x + 1) % p.reload = x % p.reload + 1 := by
          refine (Nat.div_mod_unique hreload).mpr ⟨?_, by omega⟩
          omega
        have hcount : ¬p.reload - x % p.reload = 0 ∧ ¬p.reload - x % p.reload = 1 := by omega
        simp only [clock, if_neg hcount.1, if_neg hcount.2, Bool.toNat_false, Nat.add_zero]
        rw [hnext.1, hnext.2, Nat.sub_sub]

theorem clocks_mono {m n : Nat} (h : m ≤ n) : (p.clocks m).1 ≤ (p.clocks n).1 := by
  induction h with
  | refl => exact Nat.le_refl _
  | step _ ih => exact Nat.le_add_right_of_le ih

end Run

end Pit

end LizaOS
