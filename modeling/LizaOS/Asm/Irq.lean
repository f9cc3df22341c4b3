-- SUMMARY: The stubs of the hardware interrupts, and that the interrupted code does not notice them.
import LizaOS.Asm.Frame

/-!
# Hardware interrupts

`asm/irq.asm`, and `load_gdt`, which leaves the data segment registers alike. The handler hands a
pointer to the structure on the stack to C, so the stack pointer itself is saved around the call.
-/

namespace LizaOS

open Cpu

/-! ## The code -/

def irqHandler : List Instr := saveRegisters ++ [.push .esp, .call, .pop .esp] ++ restoreRegisters

/-- The macro `IRQ`, for the vector it is given. The jump goes on with `irq_handler`. -/
def irq (v : Word) : List Instr := [.cli, .pushImm 0#32, .pushImm v] ++ irqHandler

def irq0 : List Instr := irq 32#32
def irq1 : List Instr := irq 33#32
def irq2 : List Instr := irq 34#32
def irq3 : List Instr := irq 35#32
def irq4 : List Instr := irq 36#32
def irq5 : List Instr := irq 37#32
def irq6 : List Instr := irq 38#32
def irq7 : List Instr := irq 39#32
def irq8 : List Instr := irq 40#32
def irq9 : List Instr := irq 41#32
def irq10 : List Instr := irq 42#32
def irq11 : List Instr := irq 43#32
def irq12 : List Instr := irq 44#32
def irq13 : List Instr := irq 45#32
def irq14 : List Instr := irq 46#32
def irq15 : List Instr := irq 47#32

/-- The stubs as `idt_init` enters them for the vectors from 32 on. -/
def irqStubs : List (List Instr) :=
  [irq0, irq1, irq2, irq3, irq4, irq5, irq6, irq7, irq8, irq9, irq10, irq11, irq12, irq13,
    irq14, irq15]

def irqStub (n : Fin 16) : List Instr := irqStubs[n]

def loadGdt : List Instr :=
  [.loadArg .eax 4#32, .lgdt .eax,
    -- kernel data segment
    .movImm16 .eax 0x10#16, .movToSeg .ds .eax, .movToSeg .es .eax, .movToSeg .fs .eax, .movToSeg .gs .eax,
    .movToSeg .ss .eax, .jmpFar 0x08#16, .ret]

/-! ## What C code keeps -/

/-- Entered in the state `c`, the callee keeps to the calling convention: it gives the stack pointer and the
registers it must save back, and writes none of the `n` bytes from its argument on. -/
structure FollowsCdecl (callee : Callee) (n : Nat) (c : Cpu) : Prop where
  esp : (callee.body c).reg .esp = c.reg .esp + 4#32
  ebx : (callee.body c).reg .ebx = c.reg .ebx
  ebp : (callee.body c).reg .ebp = c.reg .ebp
  esi : (callee.body c).reg .esi = c.reg .esi
  edi : (callee.body c).reg .edi = c.reg .edi
  args : ∀ k, k < n →
    (callee.body c).mem.byte (c.reg .esp + 4#32 + BitVec.ofNat 32 k) =
      c.mem.byte (c.reg .esp + 4#32 + BitVec.ofNat 32 k)

/-- The words from the argument of `isr_irq_handler` up to the stack of the interrupted code. -/
def irqWords : Nat := 15

/-! ## Transparency -/

/-- The data segment registers hold one selector. -/
def OneSegment (c : Cpu) : Prop := ∀ s, s ≠ .ss → c.seg s = c.seg .ds

/-- The interrupted state with the code of the stub run up to the call of `isr_irq_handler`. -/
def beforeCall (callee : Callee) (n : Fin 16) (pad : Half) (c : Cpu) : Cpu :=
  run callee (irqStub n |>.takeWhile (· ≠ .call)) (c.deliver pad none)

/-- The pointer `isr_irq_handler` receives, and the memory it then sees. -/
def irqArgument (callee : Callee) (n : Fin 16) (pad : Half) (c : Cpu) : Word × Flat :=
  let c' := beforeCall callee n pad c
  (c'.top, c'.mem)

/-- The state `isr_irq_handler` is entered in. -/
def irqEntered (callee : Callee) (n : Fin 16) (pad : Half) (c : Cpu) : Cpu :=
  (beforeCall callee n pad c).pushWord callee.returnAddr

/-- The structure shows the interrupt. -/
structure ShowsInterrupt (n : Fin 16) (pad : Half) (c : Cpu) (r : Registers) : Prop where
  intNo : r.intNo = BitVec.ofNat 32 (32 + n)
  errCode : r.errCode = 0#32
  eax : r.eax = c.reg .eax
  ecx : r.ecx = c.reg .ecx
  edx : r.edx = c.reg .edx
  ebx : r.ebx = c.reg .ebx
  ebp : r.ebp = c.reg .ebp
  esi : r.esi = c.reg .esi
  edi : r.edi = c.reg .edi
  eip : r.eip = c.eip
  cs : r.cs = csWord pad c.cs
  eflags : r.eflags = c.eflags
  ds : r.ds.setWidth 16 = c.seg .ds

/-- The state `c'` goes on as `c` would. -/
structure Resumes (c c' : Cpu) : Prop where
  reg : ∀ r, c'.reg r = c.reg r
  eip : c'.eip = c.eip
  cs : c'.cs = c.cs
  eflags : c'.eflags = c.eflags
  seg : ∀ s, s ≠ .ss → c'.seg s = c.seg s

/-- `load_gdt` leaves one selector in them. -/
theorem loadGdt_oneSegment (callee : Callee) (c : Cpu) : OneSegment (run callee loadGdt c) := by
  intro s hs
  cases s with
  | ss => exact absurd rfl hs
  | _ => rfl

section Interrupts

variable (callee : Callee) (n : Fin 16) (pad : Half) {c : Cpu}

/-- The code of a stub up to the call of `isr_irq_handler`. -/
def irqEntry (n : Fin 16) : List Instr :=
  [.cli, .pushImm 0#32, .pushImm (BitVec.ofNat 32 (32 + n))] ++ saveRegisters ++ [.push .esp]

theorem irqStub_entry :
    (irqStub n).takeWhile (· ≠ .call) = irqEntry n ∧
      irqStub n = irqEntry n ++ .call :: ([.pop .esp] ++ restoreRegisters) := by
  revert n
  decide

/-- The structure on the stack at the call. -/
def irqFrame (n : Fin 16) (pad : Half) (esp : Word) (c : Cpu) : List Word :=
  [withLow (c.reg .eax) (c.seg .ds), c.reg .edi, c.reg .esi, c.reg .ebp, esp, c.reg .ebx, c.reg .edx,
    c.reg .ecx, c.reg .eax, BitVec.ofNat 32 (32 + n), 0#32, c.eip, csWord pad c.cs, c.eflags]

/-- At the call the structure is on the stack, and its address above it. -/
theorem irqEntry_stacked (c : Cpu) :
    ∃ esp, (run callee (irqEntry n) (c.deliver pad none)).Stacked
        ((c.reg .esp - 56#32) :: irqFrame n pad esp c) ∧
      (run callee (irqEntry n) (c.deliver pad none)).reg .esp = c.reg .esp - 60#32 := by
  have hempty : c.Stacked [] := trivial
  have hraised : (c.deliver pad none).Stacked [c.eip, csWord pad c.cs, c.eflags] :=
    ((hempty.pushWord (by simp) c.eflags).pushWord (by simp) (csWord pad c.cs)).pushWord (by simp) c.eip
  let c₁ := run callee [.cli, .pushImm 0#32, .pushImm (BitVec.ofNat 32 (32 + n))] (c.deliver pad none)
  have hstub : c₁.Stacked [BitVec.ofNat 32 (32 + n), 0#32, c.eip, csWord pad c.cs, c.eflags] :=
    (hraised.pushWord (by simp) 0#32).pushWord (by simp) (BitVec.ofNat 32 (32 + n))
  obtain ⟨esp, hsaved⟩ := saveRegisters_frame (c := c) callee c₁ hstub (by simp)
    (fun r hr => by simp [c₁, run, exec, deliver, hr]) rfl
  have hesp : (run callee saveRegisters c₁).reg .esp = c.reg .esp - 56#32 := by
    show c.reg .esp - 4#32 - 4#32 - 4#32 - 4#32 - 4#32 - 4#32 - 4#32 - 4#32 - 4#32 - 4#32 - 4#32 - 4#32 -
      4#32 - 4#32 = _
    bv_omega
  refine ⟨esp, ?_, ?_⟩
  · rw [← hesp]
    exact hsaved.pushWord (by simp) _
  · have hpush : (run callee (irqEntry n) (c.deliver pad none)).reg .esp =
        (run callee saveRegisters c₁).reg .esp - 4#32 := rfl
    rw [hpush, hesp]
    bv_omega

variable {callee} in
/-- The call leaves the argument and the structure on the stack. -/
theorem call_stacked {ws : List Word}
    (hcallee : FollowsCdecl callee (4 * ws.length) (c.pushWord callee.returnAddr)) (h : c.Stacked ws)
    (hfit : 4 * (ws.length + 1) ≤ 2 ^ 32) :
    (exec callee .call c).Stacked ws ∧ (exec callee .call c).reg .esp = c.reg .esp := by
  have hpushed := h.pushWord hfit callee.returnAddr
  have hesp : (exec callee .call c).reg .esp = c.reg .esp := by
    refine hcallee.esp.trans ?_
    exact BitVec.sub_add_cancel _ _
  refine ⟨?_, hesp⟩
  rw [Stacked, hesp]
  have habove : (c.pushWord callee.returnAddr).mem.HoldsWords (c.reg .esp) ws := by
    have hdrop := hpushed.dropWord
    rwa [Stacked, show (c.pushWord callee.returnAddr).dropWord.reg .esp = c.reg .esp from
      BitVec.sub_add_cancel _ _] at hdrop
  refine habove.congr fun k hk => ?_
  have hargs := hcallee.args k hk
  rwa [show (c.pushWord callee.returnAddr).reg .esp + 4#32 = c.reg .esp from BitVec.sub_add_cancel _ _]
    at hargs

/-- The code behind the call takes the structure off the stack again. -/
theorem irqExit_resumes {esp : Word} {c' : Cpu} (hseg : OneSegment c)
    (h : c'.Stacked ((c.reg .esp - 56#32) :: irqFrame n pad esp c))
    (hesp : c'.reg .esp = c.reg .esp - 60#32) :
    Resumes c (run callee ([.pop .esp] ++ restoreRegisters) c') := by
  have hpopped : (c'.popReg .esp).reg .esp = c.reg .esp - 56#32 := h.top
  have hframe : (c'.popReg .esp).Stacked (irqFrame n pad esp c) := by
    have hdrop := h.dropWord
    have hsame : c'.dropWord.reg .esp = (c'.popReg .esp).reg .esp := by
      rw [hpopped]
      show c'.reg .esp + 4#32 = _
      rw [hesp]
      bv_omega
    rw [Stacked, hsame] at hdrop
    exact hdrop
  have hrun : run callee ([.pop .esp] ++ restoreRegisters) c' =
      run callee restoreRegisters (c'.popReg .esp) := run_append _ _ _ _
  have hrestored := restoreRegisters_run callee hframe
  rw [hrun]
  generalize run callee restoreRegisters (c'.popReg .esp) = c'' at hrestored ⊢
  obtain ⟨⟨heax, hecx, hedx, hebx, hesp', hebp, hesi, hedi⟩, ⟨heip, hcs, hflags⟩, hds⟩ := hrestored
  refine ⟨fun r => ?_, heip, hcs.trans ?_, hflags, fun s hs => ?_⟩
  · cases r with
    | eax => exact heax
    | ecx => exact hecx
    | edx => exact hedx
    | ebx => exact hebx
    | esp => rw [hesp', hpopped, BitVec.sub_add_cancel]
    | ebp => exact hebp
    | esi => exact hesi
    | edi => exact hedi
  · refine BitVec.eq_of_getLsbD_eq fun i hi => ?_
    simp only [csWord, BitVec.getLsbD_setWidth, BitVec.getLsbD_append, hi, if_true, decide_true, Bool.true_and]
  · rw [hds s hs, withLow_setWidth, hseg s hs]

/-- `isr_irq_handler` gets a pointer to a structure that shows the interrupt. -/
theorem irqArgument_shows :
    ShowsInterrupt n pad c (Registers.read (irqArgument callee n pad c).2 (irqArgument callee n pad c).1) := by
  obtain ⟨esp, hstacked, hesp⟩ := irqEntry_stacked callee n pad c
  unfold irqArgument beforeCall
  rw [(irqStub_entry n).1]
  generalize run callee (irqEntry n) (c.deliver pad none) = c' at hstacked hesp ⊢
  simp only [hstacked.top]
  -- the pointer is where the stack pointer stood before it was pushed
  have hframe := hstacked.dropWord
  have hat : c'.dropWord.reg .esp = c.reg .esp - 56#32 := by
    show c'.reg .esp + 4#32 = _
    rw [hesp]
    bv_omega
  have hregs := hframe.registers
  rw [hat] at hregs
  have hmem : c'.dropWord.mem = c'.mem := rfl
  rw [hmem] at hregs
  rw [hregs]
  exact ⟨rfl, rfl, rfl, rfl, rfl, rfl, rfl, rfl, rfl, rfl, rfl, rfl, withLow_setWidth _ _⟩

/-- An interrupt is transparent, and `isr_irq_handler` gets a pointer to a structure that shows it. -/
theorem irq_transparent (hcallee : FollowsCdecl callee (4 * irqWords) (irqEntered callee n pad c))
    (hseg : OneSegment c) :
    Resumes c (run callee (irqStub n) (c.deliver pad none)) ∧
      ShowsInterrupt n pad c
        (Registers.read (irqArgument callee n pad c).2 (irqArgument callee n pad c).1) := by
  obtain ⟨esp, hstacked, hesp⟩ := irqEntry_stacked callee n pad c
  refine ⟨?_, irqArgument_shows callee n pad⟩
  rw [irqEntered, beforeCall, (irqStub_entry n).1] at hcallee
  rw [(irqStub_entry n).2, run_append, run_cons]
  generalize run callee (irqEntry n) (c.deliver pad none) = c' at hstacked hesp hcallee ⊢
  obtain ⟨hcall, hcallesp⟩ := call_stacked hcallee hstacked (by simp [irqFrame])
  exact irqExit_resumes callee n pad hseg hcall (hcallesp.trans hesp)

/-- A handler that leaves its own values in the registers it need not save, in its own frame and in a global. -/
def scratchCallee : Callee where
  returnAddr := 0xC0101000#32
  body c := { c.dropWord with
    reg := fun r => if r = .esp then c.reg .esp + 4#32 else if r ∈ [Reg.eax, .ecx, .edx] then 0#32 else c.reg r
    eflags := 0x46#32
    mem := (c.mem.setWord (c.reg .esp - 4#32) 0xDEADBEEF#32).setWord 0xC010C000#32 1#32 }

theorem scratchCallee_followsCdecl {c : Cpu} (hesp : c.reg .esp = 0xC010FFB0#32) :
    FollowsCdecl scratchCallee (4 * irqWords) c where
  esp := rfl
  ebx := rfl
  ebp := rfl
  esi := rfl
  edi := rfl
  args k hk := by
    rw [irqWords] at hk
    rw [hesp]
    refine (Flat.byte_setWord_other ?_).trans (Flat.byte_setWord_other ?_)
    · bv_omega
    · rw [hesp]
      bv_omega

/-- The timer interrupts code behind `load_gdt`, on the stack below `0xC0110000`. -/
theorem irq_transparent_timer :
    let c : Cpu := run scratchCallee loadGdt {
      reg := fun r => if r = .esp then 0xC010FFEC#32 else 0x1234#32
      seg := fun _ => 0x18#16, cs := 0x08#16, eip := 0xC0100000#32, eflags := 0x202#32
      gdtr := (0#16, 0#32), mem := .zero }
    Resumes c (run scratchCallee (irqStub 0) (c.deliver 0#16 none)) ∧
      ShowsInterrupt 0 0#16 c
        (Registers.read (irqArgument scratchCallee 0 0#16 c).2 (irqArgument scratchCallee 0 0#16 c).1) :=
  irq_transparent scratchCallee 0 0#16 (scratchCallee_followsCdecl rfl) (loadGdt_oneSegment _ _)

end Interrupts

end LizaOS
