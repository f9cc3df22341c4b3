-- SUMMARY: The processor as far as the assembly stubs use it: registers, the instructions, and how an interrupt is delivered.
import LizaOS.Machine.Stack

/-!
# The processor

The state is that of code running in the kernel's own rings: the stack is not switched when an
interrupt is delivered. `eip` is the address an interrupt returns to; while a stub runs, the place in
it is the rest of its list of instructions.
-/

namespace LizaOS

inductive Reg where
  | eax | ecx | edx | ebx | esp | ebp | esi | edi
  deriving DecidableEq, Repr

/-- The data segment registers. -/
inductive Sreg where
  | ds | es | fs | gs | ss
  deriving DecidableEq, Repr

structure Cpu where
  reg : Reg → Word
  seg : Sreg → Half
  cs : Half
  eip : Word
  eflags : Word
  /-- The limit and the base `lgdt` has loaded. -/
  gdtr : Half × Word
  mem : Flat

inductive Instr where
  | cli
  | sti
  /-- `push` of an immediate, sign extended to a word. -/
  | pushImm (w : Word)
  | push (r : Reg)
  | pop (r : Reg)
  | pusha
  | popa
  /-- `mov` of an immediate to the low half of a register. -/
  | movImm16 (r : Reg) (h : Half)
  /-- `mov` of a segment register to the low half of a register. -/
  | movFromSeg (r : Reg) (s : Sreg)
  /-- `mov` of the low half of a register to a segment register. -/
  | movToSeg (s : Sreg) (r : Reg)
  /-- `mov r, [esp + n]` -/
  | loadArg (r : Reg) (n : Word)
  | addEsp (n : Word)
  | lgdt (r : Reg)
  /-- A far jump to the instruction behind it. -/
  | jmpFar (selector : Half)
  /-- A call of C code, which comes back behind it. -/
  | call
  | ret
  | iret
  deriving DecidableEq, Repr

namespace Cpu

/-! ## Registers and stack -/

def setReg (c : Cpu) (r : Reg) (w : Word) : Cpu :=
  { c with reg := fun r' => if r' = r then w else c.reg r' }

def setSeg (c : Cpu) (s : Sreg) (h : Half) : Cpu :=
  { c with seg := fun s' => if s' = s then h else c.seg s' }

/-- The low half of a register. -/
def low (c : Cpu) (r : Reg) : Half := (c.reg r).setWidth 16

/-- A word with another low half. -/
def withLow (w : Word) (h : Half) : Word := w.extractLsb' 16 16 ++ h

def pushWord (c : Cpu) (w : Word) : Cpu :=
  { c.setReg .esp (c.reg .esp - 4#32) with mem := c.mem.setWord (c.reg .esp - 4#32) w }

/-- The word at the top of the stack. -/
def top (c : Cpu) : Word := c.mem.word (c.reg .esp)

/-- The stack pointer goes up by a word. -/
def dropWord (c : Cpu) : Cpu := c.setReg .esp (c.reg .esp + 4#32)

/-- `pop`. The stack pointer goes up before the register is loaded. -/
def popReg (c : Cpu) (r : Reg) : Cpu := c.dropWord.setReg r c.top

/-! ## Flags -/

def interruptFlag : Word := 0x200#32

/-- What the delivery through an interrupt gate clears: `TF`, `IF`, `NT` and `RF`. -/
def gateFlags : Word := 0x14300#32

def putFlag (eflags bit : Word) (b : Bool) : Word := if b then eflags ||| bit else eflags &&& ~~~bit

/-- The flags after an addition: carry, parity, adjust, zero, sign and overflow. -/
def addFlags (eflags a b : Word) : Word :=
  let r := a + b
  let ones := (List.range 8).countP fun i => r.getLsbD i
  let eflags := putFlag eflags 0x1#32 (2 ^ 32 ≤ a.toNat + b.toNat)
  let eflags := putFlag eflags 0x4#32 (ones % 2 = 0)
  let eflags := putFlag eflags 0x10#32 (16 ≤ a.toNat % 16 + b.toNat % 16)
  let eflags := putFlag eflags 0x40#32 (r = 0#32)
  let eflags := putFlag eflags 0x80#32 r.msb
  putFlag eflags 0x800#32 (a.msb = b.msb ∧ r.msb ≠ a.msb)

/-! ## Instructions -/

/-- The C code that is called. -/
structure Callee where
  /-- The address the call comes back to. -/
  returnAddr : Word
  /-- From its entry to behind its `ret`. -/
  body : Cpu → Cpu

variable (callee : Callee)

/-- One instruction. -/
def exec : Instr → Cpu → Cpu
  | .cli, c => { c with eflags := c.eflags &&& ~~~interruptFlag }
  | .sti, c => { c with eflags := c.eflags ||| interruptFlag }
  | .pushImm w, c => c.pushWord w
  | .push r, c => c.pushWord (c.reg r)
  | .pop r, c => c.popReg r
  | .pusha, c =>
      -- `esp` is pushed as it was before the first of the pushes
      [Reg.eax, .ecx, .edx, .ebx, .esp, .ebp, .esi, .edi].foldl (fun c' r => c'.pushWord (c.reg r)) c
  | .popa, c =>
      -- the word for `esp` is skipped
      ((((((((c.popReg .edi).popReg .esi).popReg .ebp).dropWord).popReg .ebx).popReg .edx).popReg .ecx).popReg
        .eax)
  | .movImm16 r h, c => c.setReg r (withLow (c.reg r) h)
  | .movFromSeg r s, c => c.setReg r (withLow (c.reg r) (c.seg s))
  | .movToSeg s r, c => c.setSeg s (c.low r)
  | .loadArg r n, c => c.setReg r (c.mem.word (c.reg .esp + n))
  | .addEsp n, c =>
      { c.setReg .esp (c.reg .esp + n) with eflags := addFlags c.eflags (c.reg .esp) n }
  | .lgdt r, c =>
      { c with gdtr := (ofHalfBytes (c.mem.byte (c.reg r)) (c.mem.byte (c.reg r + 1#32)),
          c.mem.word (c.reg r + 2#32)) }
  | .jmpFar selector, c => { c with cs := selector }
  | .call, c => callee.body (c.pushWord callee.returnAddr)
  | .ret, c => { c.dropWord with eip := c.top }
  | .iret, c =>
      let c₁ := c.dropWord
      let c₂ := c₁.dropWord
      { c₂.dropWord with eip := c.top, cs := c₁.top.setWidth 16, eflags := c₂.top }

def run (code : List Instr) (c : Cpu) : Cpu := code.foldl (fun c i => exec callee i c) c

/-! ## Delivery of an interrupt -/

/-- The word pushed for `cs`. The processor does not say what is in its upper half. -/
def csWord (pad cs : Half) : Word := pad ++ cs

/-- The processor pushes the frame, with an error code or without, and enters a stub through an
interrupt gate of the kernel's code segment. -/
def deliver (pad : Half) (err : Option Word) (c : Cpu) : Cpu :=
  let c' := ((c.pushWord c.eflags).pushWord (csWord pad c.cs)).pushWord c.eip
  let c' := match err with
    | none => c'
    | some e => c'.pushWord e
  { c' with cs := 0x08#16, eflags := c.eflags &&& ~~~gateFlags }

end Cpu

/-! ## The register frame -/

/-- `REGISTERS`. -/
structure Registers where
  ds : Word
  edi : Word
  esi : Word
  ebp : Word
  esp : Word
  ebx : Word
  edx : Word
  ecx : Word
  eax : Word
  intNo : Word
  errCode : Word
  eip : Word
  cs : Word
  eflags : Word
  useresp : Word
  ss : Word
  deriving DecidableEq, Repr

/-- The structure at an address. -/
def Registers.read (m : Flat) (p : Word) : Registers where
  ds := m.word p
  edi := m.word (p + 4#32)
  esi := m.word (p + 8#32)
  ebp := m.word (p + 12#32)
  esp := m.word (p + 16#32)
  ebx := m.word (p + 20#32)
  edx := m.word (p + 24#32)
  ecx := m.word (p + 28#32)
  eax := m.word (p + 32#32)
  intNo := m.word (p + 36#32)
  errCode := m.word (p + 40#32)
  eip := m.word (p + 44#32)
  cs := m.word (p + 48#32)
  eflags := m.word (p + 52#32)
  useresp := m.word (p + 56#32)
  ss := m.word (p + 60#32)

end LizaOS
