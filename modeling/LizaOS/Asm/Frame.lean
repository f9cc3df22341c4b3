-- SUMMARY: The common parts of the interrupt handlers: the registers saved on the stack as a `REGISTERS` structure, and restored.
import LizaOS.Machine.Cpu

/-!
# Saving and restoring the registers

`exception_handler` and `irq_handler` begin and end with the same instructions. What they do is said
in terms of the words on the stack: the first puts the lower part of a `REGISTERS` structure on it, the
second takes a whole structure off.
-/

namespace LizaOS

open Cpu

/-- The beginning of both handlers. -/
def saveRegisters : List Instr :=
  [.pusha, .movFromSeg .eax .ds, .push .eax,
    -- load kernel data segment
    .movImm16 .eax 0x10#16, .movToSeg .ds .eax, .movToSeg .es .eax, .movToSeg .fs .eax, .movToSeg .gs .eax]

/-- Their end. -/
def restoreRegisters : List Instr :=
  [.pop .ebx, .movToSeg .ds .ebx, .movToSeg .es .ebx, .movToSeg .fs .ebx, .movToSeg .gs .ebx,
    .popa, .addEsp 0x8#32, .sti, .iret]

namespace Cpu

variable (callee : Callee) {c : Cpu} {r : Reg} {w : Word} {ws : List Word}

theorem run_append (code code' : List Instr) (c : Cpu) :
    run callee (code ++ code') c = run callee code' (run callee code c) :=
  List.foldl_append

theorem run_cons (i : Instr) (code : List Instr) (c : Cpu) :
    run callee (i :: code) c = run callee code (exec callee i c) := rfl

/-! ## Stacks -/

/-- The words at the stack pointer. -/
def Stacked (c : Cpu) (ws : List Word) : Prop := c.mem.HoldsWords (c.reg .esp) ws

theorem Stacked.pushWord (h : c.Stacked ws) (hfit : 4 * (ws.length + 1) ≤ 2 ^ 32) (w : Word) :
    (c.pushWord w).Stacked (w :: ws) :=
  Flat.HoldsWords.push h hfit w

theorem Stacked.top (h : c.Stacked (w :: ws)) : c.top = w := h.1

theorem Stacked.dropWord (h : c.Stacked (w :: ws)) : c.dropWord.Stacked ws := h.2

@[simp] theorem reg_pushWord (c : Cpu) (w : Word) (hr : r ≠ .esp) : (c.pushWord w).reg r = c.reg r :=
  if_neg hr

@[simp] theorem withLow_setWidth (w : Word) (h : Half) : (withLow w h).setWidth 16 = h := by
  refine BitVec.eq_of_getLsbD_eq fun i hi => ?_
  have hlow : i < 32 := by omega
  simp only [withLow, BitVec.getLsbD_setWidth, BitVec.getLsbD_append, hi, if_true, decide_true, Bool.true_and]

/-! ## Saving -/

/-- The words `saveRegisters` puts on the stack. -/
def savedWords (c : Cpu) : List Word :=
  [withLow (c.reg .eax) (c.seg .ds), c.reg .edi, c.reg .esi, c.reg .ebp, c.reg .esp, c.reg .ebx, c.reg .edx,
    c.reg .ecx, c.reg .eax]

theorem saveRegisters_stacked (h : c.Stacked ws) (hfit : 4 * (ws.length + 9) ≤ 2 ^ 32) :
    (run callee saveRegisters c).Stacked (c.savedWords ++ ws) := by
  have hpushed : ∀ vs : List Word, vs.length = 9 →
      (c.mem.pushed (c.reg .esp) vs).HoldsWords (Flat.below (c.reg .esp) 9) (vs.reverse ++ ws) := by
    intro vs hlen
    have hwords : (c.mem.pushed (c.reg .esp) vs).HoldsWords (Flat.below (c.reg .esp) vs.length)
        (vs.reverse ++ ws) := Flat.HoldsWords.pushed h (by omega)
    rwa [hlen] at hwords
  have hwords := hpushed c.savedWords.reverse rfl
  rw [List.reverse_reverse] at hwords
  have hesp : (run callee saveRegisters c).reg .esp = Flat.below (c.reg .esp) 9 := by
    simp only [run, saveRegisters, exec, List.foldl_cons, List.foldl_nil, Cpu.pushWord, setReg, setSeg,
      Flat.below]
    simp only [if_true, reduceCtorEq, if_false]
    bv_omega
  rw [Stacked, hesp]
  exact hwords

/-- The same for a handler that is entered with the registers of `c`, except for `esp`. -/
theorem saveRegisters_frame (c' : Cpu) (h : c'.Stacked ws) (hfit : 4 * (ws.length + 9) ≤ 2 ^ 32)
    (hreg : ∀ r, r ≠ .esp → c'.reg r = c.reg r) (hds : c'.seg .ds = c.seg .ds) :
    ∃ esp, (run callee saveRegisters c').Stacked
      ([withLow (c.reg .eax) (c.seg .ds), c.reg .edi, c.reg .esi, c.reg .ebp, esp, c.reg .ebx, c.reg .edx,
        c.reg .ecx, c.reg .eax] ++ ws) := by
  have hsaved : (run callee saveRegisters c').Stacked (c'.savedWords ++ ws) :=
    saveRegisters_stacked callee h hfit
  unfold savedWords at hsaved
  rw [hds, hreg .eax (by decide), hreg .edi (by decide), hreg .esi (by decide), hreg .ebp (by decide),
    hreg .ebx (by decide), hreg .edx (by decide), hreg .ecx (by decide)] at hsaved
  exact ⟨c'.reg .esp, hsaved⟩

/-! ## Restoring -/

/-- The general registers a frame restores, all but `esp`. -/
theorem restoreRegisters_run {ds edi esi ebp esp ebx edx ecx eax intNo errCode eip cs eflags : Word}
    (h : c.Stacked (ds :: edi :: esi :: ebp :: esp :: ebx :: edx :: ecx :: eax :: intNo :: errCode :: eip ::
      cs :: eflags :: ws)) :
    let c' := run callee restoreRegisters c
    (c'.reg .eax = eax ∧ c'.reg .ecx = ecx ∧ c'.reg .edx = edx ∧ c'.reg .ebx = ebx ∧
      c'.reg .esp = c.reg .esp + 56#32 ∧ c'.reg .ebp = ebp ∧ c'.reg .esi = esi ∧ c'.reg .edi = edi) ∧
    (c'.eip = eip ∧ c'.cs = cs.setWidth 16 ∧ c'.eflags = eflags) ∧
    ∀ s, s ≠ .ss → c'.seg s = ds.setWidth 16 := by
  obtain ⟨hds, hedi, hesi, hebp, _, hebx, hedx, hecx, heax, _, _, heip, hcs, heflags, _⟩ := h
  have hesp : (run callee restoreRegisters c).reg .esp = c.reg .esp + 56#32 := by
    show c.reg .esp + 4#32 + 4#32 + 4#32 + 4#32 + 4#32 + 4#32 + 4#32 + 4#32 + 4#32 + 0x8#32 + 4#32 + 4#32 +
      4#32 = _
    bv_omega
  -- the vector and the error code are dropped by one addition
  have hdrop : ∀ a : Word, a + 4#32 + 4#32 = a + 0x8#32 := fun a => by bv_omega
  rw [hdrop (c.reg .esp + 4#32 + 4#32 + 4#32 + 4#32 + 4#32 + 4#32 + 4#32 + 4#32 + 4#32)] at heip hcs heflags
  refine ⟨⟨heax, hecx, hedx, hebx, hesp, hebp, hesi, hedi⟩, ⟨heip, ?_, heflags⟩, fun s hs => ?_⟩
  · rw [← hcs]
    rfl
  · rw [← hds]
    cases s with
    | ss => exact absurd rfl hs
    | _ => rfl

/-! ## The structure on the stack -/

/-- The fields of the structure that lies at a stack pointer. -/
theorem Stacked.registers {ds edi esi ebp esp ebx edx ecx eax intNo errCode eip cs eflags : Word}
    (h : c.Stacked (ds :: edi :: esi :: ebp :: esp :: ebx :: edx :: ecx :: eax :: intNo :: errCode :: eip ::
      cs :: eflags :: ws)) :
    Registers.read c.mem (c.reg .esp) =
      { ds, edi, esi, ebp, esp, ebx, edx, ecx, eax, intNo, errCode, eip, cs, eflags
        useresp := c.mem.word (c.reg .esp + 56#32), ss := c.mem.word (c.reg .esp + 60#32) } := by
  obtain ⟨hds, hedi, hesi, hebp, hesp, hebx, hedx, hecx, heax, hint, herr, heip, hcs, heflags, _⟩ := h
  simp only [BitVec.add_assoc, BitVec.reduceAdd] at hesi hebp hesp hebx hedx hecx heax hint herr heip
  simp only [BitVec.add_assoc, BitVec.reduceAdd] at hcs heflags
  simp only [Registers.read, hds, hedi, hesi, hebp, hesp, hebx, hedx, hecx, heax, hint, herr, heip, hcs, heflags]

end Cpu

end LizaOS
