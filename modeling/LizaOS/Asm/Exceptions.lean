-- SUMMARY: The stubs of the processor's exceptions, and for which vectors the handler gets the right register frame.
import LizaOS.Asm.Frame

/-!
# Exceptions

`asm/exceptions.asm`. A stub pushes the number of its vector, and below it an error code of 0 where the
processor has pushed none. The C handler takes the structure that is then on the stack by value.
-/

namespace LizaOS

open Cpu

/-! ## The stubs -/

def exceptionHandler : List Instr := saveRegisters ++ [.call] ++ restoreRegisters

/-- A stub for an exception without an error code: it stores the default error code 0. The jump goes
on with `exception_handler`. -/
def pushDefault (v : Word) : List Instr := [.cli, .pushImm 0#32, .pushImm v] ++ exceptionHandler

/-- A stub for an exception with an error code. -/
def pushNumber (v : Word) : List Instr := [.cli, .pushImm v] ++ exceptionHandler

def exception0 : List Instr := pushDefault 0#32
def exception1 : List Instr := pushDefault 1#32
def exception2 : List Instr := pushDefault 2#32
def exception3 : List Instr := pushDefault 3#32
def exception4 : List Instr := pushDefault 4#32
def exception5 : List Instr := pushDefault 5#32
def exception6 : List Instr := pushDefault 6#32
def exception7 : List Instr := pushDefault 7#32
def exception8 : List Instr := pushNumber 8#32
def exception9 : List Instr := pushDefault 9#32
def exception10 : List Instr := pushNumber 10#32
def exception11 : List Instr := pushNumber 11#32
def exception12 : List Instr := pushNumber 12#32
def exception13 : List Instr := pushNumber 13#32
def exception14 : List Instr := pushNumber 14#32
def exception15 : List Instr := pushDefault 15#32
def exception16 : List Instr := pushDefault 16#32
def exception17 : List Instr := pushDefault 17#32
def exception18 : List Instr := pushDefault 18#32
def exception19 : List Instr := pushDefault 19#32
def exception20 : List Instr := pushDefault 20#32
def exception21 : List Instr := pushDefault 21#32
def exception22 : List Instr := pushDefault 22#32
def exception23 : List Instr := pushDefault 23#32
def exception24 : List Instr := pushDefault 24#32
def exception25 : List Instr := pushDefault 25#32
def exception26 : List Instr := pushDefault 26#32
def exception27 : List Instr := pushDefault 27#32
def exception28 : List Instr := pushDefault 28#32
def exception29 : List Instr := pushDefault 29#32
def exception30 : List Instr := pushDefault 30#32
def exception31 : List Instr := pushDefault 31#32
def exception128 : List Instr := pushDefault 128#32

/-- The stubs as `idt_init` enters them for the vectors from 0 on. -/
def exceptionStubs : List (List Instr) :=
  [exception0, exception1, exception2, exception3, exception4, exception5, exception6,
    exception7, exception8, exception9, exception10, exception11, exception12, exception13,
    exception14, exception15, exception16, exception17, exception18, exception19, exception20,
    exception21, exception22, exception23, exception24, exception25, exception26, exception27,
    exception28, exception29, exception30, exception31]

def exceptionStub (v : Fin 32) : List Instr := exceptionStubs[v]

/-- The code up to its call. -/
def upToCall (code : List Instr) : List Instr := code.takeWhile (· ≠ .call)

/-! ## What the handler receives -/

/-- The vectors for which the processor pushes an error code. -/
def pushesErrorCode (v : Fin 32) : Bool := v ∈ [8, 10, 11, 12, 13, 14, 17, 21, 29, 30]

/-- The state the exception leaves when its stub is entered. -/
def raised (v : Fin 32) (pad : Half) (err : Word) (c : Cpu) : Cpu :=
  c.deliver pad (if pushesErrorCode v then some err else none)

/-- The structure `isr_exception_handler` receives: it lies where the stack pointer stands at the call. -/
def exceptionRegisters (callee : Callee) (v : Fin 32) (pad : Half) (err : Word) (c : Cpu) : Registers :=
  let c' := run callee (upToCall (exceptionStub v)) (raised v pad err c)
  Registers.read c'.mem (c'.reg .esp)

/-- The structure shows the exception. -/
structure ShowsException (v : Fin 32) (pad : Half) (err : Word) (c : Cpu) (r : Registers) : Prop where
  intNo : r.intNo = BitVec.ofNat 32 v
  errCode : r.errCode = if pushesErrorCode v then err else 0#32
  eip : r.eip = c.eip
  cs : r.cs = csWord pad c.cs
  eflags : r.eflags = c.eflags
  ds : r.ds.setWidth 16 = c.seg .ds
  eax : r.eax = c.reg .eax
  ecx : r.ecx = c.reg .ecx
  edx : r.edx = c.reg .edx
  ebx : r.ebx = c.reg .ebx
  ebp : r.ebp = c.reg .ebp
  esi : r.esi = c.reg .esi
  edi : r.edi = c.reg .edi

/-- The vectors whose stub leaves the error code to the processor. -/
def relaysErrorCode (v : Fin 32) : Bool := v ∈ [8, 10, 11, 12, 13, 14]

section Exceptions

variable (callee : Callee) (v : Fin 32) (pad : Half) (err : Word) (c : Cpu)

theorem upToCall_exceptionStub :
    upToCall (exceptionStub v) =
      (if relaysErrorCode v then [.cli, .pushImm (BitVec.ofNat 32 v)]
      else [.cli, .pushImm 0#32, .pushImm (BitVec.ofNat 32 v)]) ++ saveRegisters := by
  revert v
  decide

theorem raised_stacked :
    (raised v pad err c).Stacked
      ((if pushesErrorCode v then [err] else []) ++ [c.eip, csWord pad c.cs, c.eflags]) := by
  have hempty : c.Stacked [] := trivial
  have hframe := ((hempty.pushWord (by simp) c.eflags).pushWord (by simp) (csWord pad c.cs)).pushWord
    (by simp) c.eip
  unfold raised
  cases pushesErrorCode v with
  | true => exact hframe.pushWord (by simp) err
  | false => exact hframe

/-- The words on the stack when the handler is called: what was saved, the vector, and what the stub and
the processor have pushed below it. -/
theorem exception_stacked :
    ∃ esp, (run callee (upToCall (exceptionStub v)) (raised v pad err c)).Stacked
      ([withLow (c.reg .eax) (c.seg .ds), c.reg .edi, c.reg .esi, c.reg .ebp, esp, c.reg .ebx, c.reg .edx,
          c.reg .ecx, c.reg .eax, BitVec.ofNat 32 v] ++
        ((if relaysErrorCode v then [] else [0#32]) ++
          ((if pushesErrorCode v then [err] else []) ++ [c.eip, csWord pad c.cs, c.eflags]))) := by
  have hraised := raised_stacked v pad err c
  have hkept : ∀ r, r ≠ .esp → (raised v pad err c).reg r = c.reg r := by
    intro r hr
    unfold raised
    cases pushesErrorCode v <;> simp [deliver, hr]
  have hds : (raised v pad err c).seg .ds = c.seg .ds := by
    unfold raised
    cases pushesErrorCode v <;> rfl
  generalize raised v pad err c = c' at *
  generalize hws : (if pushesErrorCode v then [err] else []) ++ [c.eip, csWord pad c.cs, c.eflags] = ws at *
  have hlen : ws.length ≤ 4 := by
    rw [← hws]
    cases pushesErrorCode v <;> simp
  rw [upToCall_exceptionStub, run_append]
  by_cases hcode : relaysErrorCode v = true
  · rw [if_pos hcode, if_pos hcode]
    have hpushed := hraised.pushWord (by omega) (BitVec.ofNat 32 v)
    refine saveRegisters_frame callee (run callee [.cli, .pushImm (BitVec.ofNat 32 v)] c') hpushed
      (by simp only [List.append_eq, List.nil_append, List.length_cons]; omega) (fun r hr => ?_) hds
    rw [← hkept r hr]
    exact reg_pushWord _ _ hr
  · rw [if_neg hcode, if_neg hcode]
    have hpushed := (hraised.pushWord (by omega) 0#32).pushWord (by rw [List.length_cons]; omega)
      (BitVec.ofNat 32 v)
    refine saveRegisters_frame callee (run callee [.cli, .pushImm 0#32, .pushImm (BitVec.ofNat 32 v)] c') hpushed
      (by simp only [List.append_eq, List.cons_append, List.nil_append, List.length_cons]; omega)
      (fun r hr => ?_) hds
    rw [← hkept r hr]
    exact (reg_pushWord _ _ hr).trans (reg_pushWord _ _ hr)

/-- Where the stub stores an error code exactly if the processor has not, the structure shows the
exception. -/
theorem showsException_of_agree (h : relaysErrorCode v = true ↔ pushesErrorCode v = true) :
    ShowsException v pad err c (exceptionRegisters callee v pad err c) := by
  obtain ⟨esp, hstacked⟩ := exception_stacked callee v pad err c
  unfold exceptionRegisters
  by_cases hcode : relaysErrorCode v = true
  · have hpushes := h.mp hcode
    rw [if_pos hcode, hpushes, if_pos rfl] at hstacked
    simp only [hstacked.registers]
    exact ⟨rfl, by rw [hpushes]; rfl, rfl, rfl, rfl, withLow_setWidth _ _, rfl, rfl, rfl, rfl, rfl, rfl, rfl⟩
  · have hpushes : pushesErrorCode v = false := Bool.eq_false_iff.mpr fun hp => hcode (h.mpr hp)
    rw [if_neg hcode, hpushes, if_neg (by decide)] at hstacked
    simp only [hstacked.registers]
    exact ⟨rfl, by rw [hpushes]; rfl, rfl, rfl, rfl, withLow_setWidth _ _, rfl, rfl, rfl, rfl, rfl, rfl, rfl⟩

/-- Where both have, every later field shows the word before its own. -/
theorem showsException_shifted (hstub : ¬relaysErrorCode v = true) (hcpu : pushesErrorCode v = true) :
    ShowsException v pad err c (exceptionRegisters callee v pad err c) ↔
      err = 0#32 ∧ c.eip = 0#32 ∧ csWord pad c.cs = 0#32 ∧ c.eflags = 0#32 := by
  obtain ⟨esp, hstacked⟩ := exception_stacked callee v pad err c
  unfold exceptionRegisters
  rw [if_neg hstub, hcpu, if_pos rfl] at hstacked
  simp only [hstacked.registers]
  constructor
  · intro hshows
    have herr := hshows.errCode
    have heip := hshows.eip
    have hcs := hshows.cs
    have hflags := hshows.eflags
    simp only [hcpu, if_true] at herr heip hcs hflags
    exact ⟨herr.symm, heip.symm.trans herr.symm, hcs.symm.trans (heip.symm.trans herr.symm),
      hflags.symm.trans (hcs.symm.trans (heip.symm.trans herr.symm))⟩
  · rintro ⟨herr, heip, hcs, hflags⟩
    exact ⟨rfl, by rw [hcpu, if_pos rfl, herr], herr.trans heip.symm, heip.trans hcs.symm,
      hcs.trans hflags.symm, withLow_setWidth _ _, rfl, rfl, rfl, rfl, rfl, rfl, rfl⟩

/-- The number is right in any case: it is above the error codes. -/
theorem exceptionRegisters_intNo : (exceptionRegisters callee v pad err c).intNo = BitVec.ofNat 32 v := by
  have hvectors : ∀ v : Fin 32, relaysErrorCode v = true → pushesErrorCode v = true := by decide
  obtain ⟨esp, hstacked⟩ := exception_stacked callee v pad err c
  unfold exceptionRegisters
  by_cases hcode : relaysErrorCode v = true
  · rw [if_pos hcode, hvectors v hcode, if_pos rfl] at hstacked
    simp only [hstacked.registers]
  · rw [if_neg hcode] at hstacked
    cases hpushes : pushesErrorCode v with
    | false =>
        rw [hpushes, if_neg (by decide)] at hstacked
        simp only [hstacked.registers]
    | true =>
        rw [hpushes, if_pos rfl] at hstacked
        simp only [hstacked.registers]

/-- The stub of an `int` instruction. -/
theorem exception128_intNo :
    (Registers.read (run callee (upToCall exception128) (c.deliver pad none)).mem
      ((run callee (upToCall exception128) (c.deliver pad none)).reg .esp)).intNo = 128#32 := by
  have hcode : upToCall exception128 = [.cli, .pushImm 0#32, .pushImm 128#32] ++ saveRegisters := by decide
  have hempty : c.Stacked [] := trivial
  have hraised : (c.deliver pad none).Stacked [c.eip, csWord pad c.cs, c.eflags] :=
    ((hempty.pushWord (by simp) c.eflags).pushWord (by simp) (csWord pad c.cs)).pushWord (by simp) c.eip
  have hpushed := (hraised.pushWord (by simp) 0#32).pushWord (by simp) 128#32
  obtain ⟨esp, hstacked⟩ := saveRegisters_frame (c := c) callee
    (run callee [.cli, .pushImm 0#32, .pushImm 128#32] (c.deliver pad none)) hpushed (by simp)
    (fun r hr => by simp [run, exec, deliver, hr]) rfl
  rw [hcode, run_append, hstacked.registers]

/-- The handler gets the right structure for every vector but 17, 21, 29 and 30: for these the stub
stores an error code though the processor has, and the structure is right only if all the words from
the error code on are 0. -/
theorem showsException_iff :
    ShowsException v pad err c (exceptionRegisters callee v pad err c) ↔
      v ∉ [17, 21, 29, 30] ∨
        err = 0#32 ∧ c.eip = 0#32 ∧ csWord pad c.cs = 0#32 ∧ c.eflags = 0#32 := by
  have hvectors : ∀ v : Fin 32, (v ∉ [17, 21, 29, 30] → (relaysErrorCode v = true ↔ pushesErrorCode v = true)) ∧
      (v ∈ [17, 21, 29, 30] → ¬relaysErrorCode v = true ∧ pushesErrorCode v = true) := by decide
  by_cases hv : v ∈ [17, 21, 29, 30]
  · obtain ⟨hstub, hcpu⟩ := (hvectors v).2 hv
    rw [showsException_shifted callee v pad err c hstub hcpu]
    exact ⟨.inr, fun h => h.resolve_left fun hno => hno hv⟩
  · exact ⟨fun _ => .inl hv, fun _ => showsException_of_agree callee v pad err c ((hvectors v).1 hv)⟩

/-- Kernel code at an instruction that accesses memory without alignment. -/
def alignmentCheck : Cpu where
  reg _ := 0x1000#32
  seg _ := 0x10#16
  cs := 0x08#16
  eip := 0x100000#32
  eflags := 0x202#32
  gdtr := (0#16, 0#32)
  mem := .zero

/-- The processor pushes the error code 0 for an alignment check, and the stub another. -/
theorem not_showsException_alignment :
    ¬ShowsException 17 0#16 0#32 alignmentCheck
      (exceptionRegisters { returnAddr := 0#32, body := id } 17 0#16 0#32 alignmentCheck) := by
  rw [showsException_shifted _ _ _ _ _ (by decide) (by decide)]
  decide

end Exceptions

end LizaOS
