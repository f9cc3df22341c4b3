-- SUMMARY: The rest of the interrupt code: what is printed about the registers, and the dispatch to the handlers.
import LizaOS.Asm.Exceptions
import LizaOS.Asm.Irq
import LizaOS.Kernel.Isr
import LizaOS.Logic.Simulation

/-!
# Dispatch

`isr_irq_handler`, `isr_exception_handler` and `print_registers` of `kernel/isr.c`. A caller passes its
arguments in slots; behind them is what the stack held before.

The dispatch is of interest for what it did also if it ends in a panic, so its code runs on a state that
lasts: the kernel, and the record of what was done.
-/

namespace LizaOS

open Exec Cpu

/-- The argument list of a call: the slots passed, and behind them the bytes of `beyond`. -/
def argSlots (ws : List Word) (beyond : Bytes) : Bytes :=
  fun k => if k < 4 * ws.length then slots ws k else beyond (k - 4 * ws.length)

/-! ## What is done -/

inductive Act where
  /-- An interrupt arrives at the code that dispatches it. -/
  | delivered (vector : Nat)
  /-- A handler is called, with a pointer to this structure. -/
  | called (handler : Word) (reg : Registers)
  /-- An element of `g_interrupt_handlers` is loaded or stored. -/
  | handlerIndex (i : Int)
  /-- An element of `exception_messages` is loaded. -/
  | messageIndex (i : Nat)

structure Dispatch (μ : Type) where
  kernel : Kernel μ
  acts : List Act

/-- Code of the dispatch. -/
abbrev D (μ α : Type) := Lasting (Dispatch μ) Stop α

section Steps

variable {μ : Type}

def note (act : Act) : D μ Unit := fun d => (.ok (), { d with acts := d.acts ++ [act] })

theorem note_run (act : Act) (d : Dispatch μ) : note act d = (.ok (), { d with acts := d.acts ++ [act] }) := rfl

/-- Other kernel code that is called. -/
def kernelCode {α : Type} (x : K μ α) : D μ α := fun d =>
  match x d.kernel with
  | .ok (a, s) => (.ok a, { d with kernel := s })
  | .error e => (.error e, d)

/-- `g_interrupt_handlers[i]` -/
def loadHandler (i : Int) : D μ Word := do
  note (.handlerIndex i)
  return (← get).kernel.handlers i

theorem loadHandler_run (i : Int) (d : Dispatch μ) :
    loadHandler i d = (.ok (d.kernel.handlers i), { d with acts := d.acts ++ [.handlerIndex i] }) := rfl

/-- A call through a pointer to a function whose code is `body`. -/
def called (body : D μ Unit) (handler : Word) (reg : Registers) : D μ Unit := do
  note (.called handler reg)
  body

theorem called_run (body : D μ Unit) (handler : Word) (reg : Registers) (d : Dispatch μ) :
    called body handler reg d = body { d with acts := d.acts ++ [.called handler reg] } := rfl

/-- `g_interrupt_handlers[i] = handler` -/
def storeHandler (i : Int) (handler : Word) : D μ Unit := do
  note (.handlerIndex i)
  kernelCode (modify fun s => { s with handlers := fun n => if n = i then handler else s.handlers n })

end Steps

/-! ## The code -/

def exceptionMessages : List String :=
  ["Division By Zero", "Debug", "Non Maskable Interrupt", "Breakpoint", "Overflow", "BOUND Range Exceeded",
    "Invalid Opcode", "Device Not Available (No Math Coprocessor)", "Double Fault",
    "Coprocessor Segment Overrun", "Invalid TSS", "Segment Not Present", "Stack-Segment Fault",
    "General Protection", "Page Fault", "Unknown Interrupt (intel reserved)",
    "x87 FPU Floating-Point Error (Math Fault)", "Alignment Check", "Machine Check",
    "SIMD Floating-Point Exception", "Virtualization Exception", "Reserved", "Reserved", "Reserved", "Reserved",
    "Reserved", "Reserved", "Reserved", "Reserved", "Reserved", "Reserved", "Reserved"]

section Code

variable {μ : Type} [Bus μ]

def printRegisters (beyond : Bytes) (reg : Registers) : K μ Unit := do
  kPrintf (cstr "eax=0x%x, ebx=0x%x, ecx=0x%x, edx=0x%x\n")
    (argSlots [reg.eax, reg.ebx, reg.ecx, reg.edx] beyond)
  kPrintf (cstr "edi=0x%x, esi=0x%x, ebp=0x%x, esp=0x%x\n")
    (argSlots [reg.edi, reg.esi, reg.ebp, reg.esp] beyond)
  -- five directives and four arguments
  kPrintf (cstr "eip=0x%x, cs=0x%x, ss=0x%x, eflags=0x%x, useresp=0x%x\n")
    (argSlots [reg.eip, reg.ss, reg.eflags, reg.useresp] beyond)

/-- `pic8259_eoi` -/
def pic8259Eoi (irq : Byte) : K μ Unit := do
  -- to the slave as well if it is one of its interrupts
  if 0x28#8 ≤ irq then outb 0xA0#16 0x20#8
  outb 0x20#16 0x20#8

/-- `isr_register_interrupt_handler`, with the access to the table on record. -/
def registerHandler (num : Int) (handler : Word) : D μ Unit := do
  kernelCode (kPrintf (cstr "IRQ %d registered\n") (slots [BitVec.ofInt 32 num]))
  if num < noInterruptHandlers then storeHandler num handler

/-- To the kernel it is the call. -/
theorem registerHandler_kernel {num : Int} {handler : Word} {d : Dispatch μ} {s : Kernel μ}
    (h : isrRegisterInterruptHandler num handler d.kernel = .ok ((), s)) :
    ∃ acts, registerHandler num handler d = (.ok (), { kernel := s, acts := acts }) := by
  obtain ⟨_, s₁, hprint, hrest⟩ := bind_ok.mp h
  have hprinted : kernelCode (kPrintf (cstr "IRQ %d registered\n") (slots [BitVec.ofInt 32 num])) d =
      (.ok (), { d with kernel := s₁ }) := by
    rw [kernelCode, hprint]
  rw [registerHandler, Lasting.bind_ok hprinted]
  by_cases hnum : num < noInterruptHandlers
  · rw [if_pos hnum] at hrest ⊢
    obtain ⟨_, rfl⟩ := Prod.mk.inj (Except.ok.inj hrest)
    exact ⟨_, rfl⟩
  · rw [if_neg hnum] at hrest ⊢
    obtain ⟨_, rfl⟩ := Prod.mk.inj (Except.ok.inj hrest)
    exact ⟨_, rfl⟩

variable (call : Word → Registers → D μ Unit)

/-- `isr_irq_handler`. The code of a handler is behind a pointer: `call` runs it. -/
def isrIrqHandler (reg : Registers) : D μ Unit := do
  if (← loadHandler reg.intNo.toNat) ≠ 0#32 then
    let handler ← loadHandler reg.intNo.toNat
    call handler reg
  kernelCode (pic8259Eoi (reg.intNo.setWidth 8))

/-- `isr_exception_handler` -/
def isrExceptionHandler (beyond : Bytes) (reg : Registers) : D μ Unit := do
  if (← loadHandler reg.intNo.toNat) ≠ 0#32 then
    kernelCode (printRegisters beyond reg)
    let handler ← loadHandler reg.intNo.toNat
    call handler reg
  kernelCode (printRegisters beyond reg)
  note (.messageIndex reg.intNo.toNat)
  kernelCode (kPrintfln (cstr "[PANIC] Halt and catch fire") (slots []))
  -- the messages are constants; what is behind the last one is not known
  kernelCode ((cstr "received pointer: " ++ cstr (exceptionMessages.getD reg.intNo.toNat "") ++ [newline]).forM
    screenPut)
  throw .panic

end Code

/-! ## The vectors -/

/-- The entries `idt_init` makes. -/
inductive Gate where
  | exception (v : Fin 32)
  | irq (n : Fin 16)
  /-- The entry 128. -/
  | system

/-- The circumstances in which an interrupt is delivered: the processor, what it pushes above `cs`, its error
code, and what the stack holds behind the arguments of a call. -/
structure Interrupted where
  cpu : Cpu
  pad : Half
  err : Word
  beyond : Bytes

namespace Gate

def vector : Gate → Nat
  | .exception v => v
  | .irq n => 32 + n
  | .system => 128

/-- No C code runs before the stub's call. -/
def uncalled : Callee where
  returnAddr := 0#32
  body := id

/-- The structure the stub of the gate hands to the C code. -/
def registers (at' : Interrupted) : Gate → Registers
  | .exception v => exceptionRegisters uncalled v at'.pad at'.err at'.cpu
  | .irq n =>
      let (reg, mem) := irqArgument uncalled n at'.pad at'.cpu
      Registers.read mem reg
  | .system =>
      -- an `int` instruction: no error code
      let c := run uncalled (upToCall exception128) (at'.cpu.deliver at'.pad none)
      Registers.read c.mem (c.reg .esp)

/-- The C code the stub of the gate calls. -/
def handle {μ : Type} [Bus μ] (call : Word → Registers → D μ Unit) (at' : Interrupted) (g : Gate) : D μ Unit :=
  match g with
  | .irq _ => isrIrqHandler call (g.registers at')
  | .exception _ | .system => isrExceptionHandler call at'.beyond (g.registers at')

end Gate

/-! ## Runs -/

/-- A change of the state by code that leaves the table of handlers to `isr_register_interrupt_handler`. -/
structure OwnWork (μ : Type) where
  work : Kernel μ → Kernel μ
  handlers : ∀ s, (work s).handlers = s.handlers

/-- What happens in a run, in the order in which it begins. While the handler of a delivery runs, more may
happen: it registers handlers, it is interrupted itself, it changes the state, it panics. -/
inductive Event (μ : Type) where
  | register (num : Int) (handler : Word)
  | deliver (g : Gate) (at' : Interrupted) (inside : List (Event μ))
  | own (w : OwnWork μ)
  | panic

section Runs

variable {μ : Type} [Bus μ]

mutual

def Event.run : Event μ → D μ Unit
  | .register num handler => registerHandler num handler
  | .deliver g at' inside => do
      note (.delivered g.vector)
      g.handle (called (runEvents inside)) at'
  | .own w => kernelCode (modify w.work)
  | .panic => throw .panic

def runEvents : List (Event μ) → D μ Unit
  | [] => pure ()
  | e :: es => do
      e.run
      runEvents es

end

end Runs

end LizaOS
