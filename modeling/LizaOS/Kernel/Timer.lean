-- SUMMARY: The timer interrupt, its table of periodic functions, and sleep.
import LizaOS.Kernel.State

/-!
# Timer

`kernel/timer.c`. The handler of the timer interrupt counts the ticks and calls the functions of the table
that are due. What a function does when it is called is not part of the state here; that it is called, and
in which interrupt, is.
-/

namespace LizaOS

open Exec

def maximumTimerFunctions : Nat := 256

/-- `TIMER_FUNC_ARGS`, as far as the handler reads it. -/
structure TimerFuncArgs where
  timeout : Word
  deriving DecidableEq, Repr

/-- `TIMER_FUNCTION_MANAGER`. The arrays have `maximumTimerFunctions` elements. -/
structure TimerFunctionManager where
  functions : Nat → Word
  funcArgs : Nat → TimerFuncArgs

/-- A call of a timer function. -/
structure TimerCall where
  /-- The number of the interrupt it is made in, from 1. -/
  interrupt : Nat
  entry : Nat
  function : Word
  /-- The element of `func_args` the argument points to. -/
  args : Nat
  deriving DecidableEq, Repr

/-- The globals of the file, and what has happened. -/
structure Timers where
  timer : Timer
  manager : TimerFunctionManager
  interrupts : Nat
  calls : List TimerCall

abbrev T (α : Type) := StateT Timers (Except Stop) α

/-! ## The timer interrupt -/

/-- `g_ticks++` -/
def Timer.tick (t : Timer) : Timer := { t with gTicks := t.gTicks + 1#32 }

/-- `functions[i](args)` -/
def callFunction (i args : Nat) : T Unit := do
  let s ← get
  if s.manager.functions i = 0#32 then throw .wildCall
  modify fun s => { s with
    calls := s.calls ++ [{ interrupt := s.interrupts, entry := i, function := s.manager.functions i, args := args }] }

/-- A turn of the loop of `timer_handler`. -/
def timerHandlerEntry (i : Nat) : T Unit := do
  let s ← get
  let args := s.manager.funcArgs i
  if args.timeout ≠ 0#32 then
    if s.timer.gTicks % args.timeout = 0#32 then callFunction i i

def timerHandler : T Unit := do
  modify fun s => { s with timer := s.timer.tick, interrupts := s.interrupts + 1 }
  forUp timerHandlerEntry 0 maximumTimerFunctions

/-- A number of timer interrupts. -/
def timerInterrupts : Nat → T Unit
  | 0 => pure ()
  | n + 1 => do
      timerInterrupts n
      timerHandler

/-! ## Sleeping -/

/-- `end` of `sleep`. The product is one of `int`s. -/
def sleepEnd (t : Timer) (sec : Int) : Word := t.gTicks + BitVec.ofInt 32 (sec * t.gFreqHz.toNat)

def Timer.ticks : Nat → Timer → Timer
  | 0, t => t
  | n + 1, t => (Timer.ticks n t).tick

/-- The loop of `sleep`, for at most `fuel` tests. Between two tests timer interrupts occur, `bursts k` of them
before the test `k`. Gives the test at which the loop is left. -/
def sleepLoop (stop : Word) (bursts : Nat → Nat) : Nat → Nat → Timer → Option Nat
  | 0, _, _ => none
  | fuel + 1, k, t =>
      let t := t.ticks (bursts k)
      if t.gTicks < stop then sleepLoop stop bursts fuel (k + 1) t else some k

def sleep (t : Timer) (sec : Int) (bursts : Nat → Nat) (fuel : Nat) : Option Nat :=
  sleepLoop (sleepEnd t sec) bursts fuel 0 t

end LizaOS
