-- SUMMARY: The table of interrupt handlers.
import LizaOS.Libc.Stdio

/-!
# Interrupt handlers

`kernel/isr.c`, as far as the kernel runs it while it boots with interrupts off.
-/

namespace LizaOS

def noInterruptHandlers : Int := 256

variable {μ : Type} [Bus μ]

/-- `isr_register_interrupt_handler`. A negative `num` passes the test. -/
def isrRegisterInterruptHandler (num : Int) (handler : Word) : K μ Unit := do
  kPrintf (cstr "IRQ %d registered\n") (slots [BitVec.ofInt 32 num])
  if num < noInterruptHandlers then
    modify fun s => { s with handlers := fun n => if n = num then handler else s.handlers n }

end LizaOS
