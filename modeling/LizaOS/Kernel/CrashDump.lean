-- SUMMARY: What print_registers shows under its labels, and which argument slots its formats read.
import LizaOS.Kernel.Dispatch
import LizaOS.Libc.PrintNumber
import Mathlib.Data.List.GetD

/-!
# The crash dump

A line of the dump is a row of fields: a label, and a word in hexadecimal. The labels are in the format,
the words are read from the slots in order. The third line has one label more than arguments.
-/

namespace LizaOS

open Exec

/-! ## Rows -/

/-- The lower-case hexadecimal digits of a word. -/
def hexText (w : Word) : List Byte :=
  if w = 0#32 then [chr '0'] else digitText 16 (chr 'a') w.toNat

def hexDirective : Item := .directive { flags := [], width := [], length := [], conv := chr 'x' }

/-- The format of a row, with the text in front of each field. -/
def rowItems : List String → List Item
  | [] => [.byte newline]
  | lead :: leads => (cstr lead).map .byte ++ hexDirective :: rowItems leads

/-- The row these fields should give. -/
def rowOf : List (String × Word) → List Byte
  | [] => [newline]
  | field :: fields => cstr field.1 ++ (hexText field.2 ++ rowOf fields)

/-- The words a row reads from the cursor on. -/
def rowWords (args : Bytes) : List String → Nat → List (String × Word)
  | [], _ => []
  | lead :: leads, ap => (lead, args.read32 ap) :: rowWords args leads (ap + 4)

/-- The reads of a row, a slot for each label. -/
def rowReads : List String → Nat → List ArgRead
  | [], _ => []
  | _ :: leads, ap => { start := ap, next := ap + 4 } :: rowReads leads (ap + 4)

section Rows

variable {load : Word → Except Stop Byte} {args : Bytes}

theorem printi_hex (w : Word) : printi w 16 false 0 0#32 (chr 'a') = hexText w := by
  have hprints : ∀ bs, prints bs 0 0#32 = bs := by
    intro bs
    simp [prints, hasFlag]
  unfold hexText
  by_cases hw : w = 0#32
  · subst hw
    rw [if_pos rfl]
    rfl
  · have hhide : hasFlag 0#32 hideSign = false := by decide
    have hbase : ¬((Radix.hex.base : Int) = 10 ∧ hasFlag 0#32 padwZero = true) := by decide
    have hsign : numberSign .hex w 0#32 = [] := if_neg (by decide)
    have hmag : magnitude .hex w = w.toNat := if_neg fun h => Bool.false_ne_true h.1
    have hkept : keptFlags Radix.hex.base 0#32 = 0#32 := rfl
    rw [if_neg hw, ← hprints (digitText 16 (chr 'a') w.toNat), ← hmag]
    change printi w (Radix.hex.base : Int) Radix.hex.sign 0 0#32 (chr 'a') = _
    rw [printi_nonzero hhide hw, if_neg hbase, hsign, hkept, List.nil_append]
    rfl

theorem hexDirective_run (ap : Nat) :
    hexDirective.run args ap = (.text (hexText (args.read32 ap)), ap + 4) := by
  rw [← printi_hex]
  rfl

/-- Plain bytes are put out as they are. -/
theorem bytes_output (bs : List Byte) {items : List Item} {ap : Nat} {out : List Byte}
    (h : outputBytes load (runAll args items ap).1 = .ok out) :
    outputBytes load (runAll args (bs.map .byte ++ items) ap).1 = .ok (bs ++ out) := by
  induction bs with
  | nil => exact h
  | cons b bs ih =>
      rw [List.map_cons, List.cons_append, runAll, outputBytes_cons]
      have hrest : outputBytes load (runAll args (bs.map Item.byte ++ items) (Item.run args ap (.byte b)).2).1 =
          .ok (bs ++ out) := ih
      rw [hrest]
      rfl

/-- A row shows the words at the cursor. -/
theorem row_output (leads : List String) (ap : Nat) :
    outputBytes load (runAll args (rowItems leads) ap).1 = .ok (rowOf (rowWords args leads ap)) := by
  induction leads generalizing ap with
  | nil => rfl
  | cons lead leads ih =>
      rw [rowItems]
      refine bytes_output (cstr lead) ?_
      rw [runAll, hexDirective_run, outputBytes_cons, ih (ap + 4)]
      rfl

theorem bytes_reads (bs : List Byte) (items : List Item) (ap : Nat) :
    argReads args (bs.map .byte ++ items) ap = argReads args items ap := by
  induction bs with
  | nil => rfl
  | cons b bs ih => exact ih

theorem row_reads (leads : List String) (ap : Nat) :
    argReads args (rowItems leads) ap = rowReads leads ap := by
  induction leads generalizing ap with
  | nil => rfl
  | cons lead leads ih =>
      have hconv : chr 'x' ∈ conversions := by decide
      rw [rowItems, bytes_reads, hexDirective, argReads, if_pos hconv, rowReads]
      exact congrArg _ (ih (ap + 4))

theorem rowReads_le {leads : List String} {ap : Nat} {r : ArgRead} (h : r ∈ rowReads leads ap) :
    r.start + r.size ≤ ap + 4 * leads.length := by
  induction leads generalizing ap with
  | nil => cases h
  | cons lead leads ih =>
      rw [List.length_cons]
      rcases List.mem_cons.mp h with rfl | hmem
      · simp only [ArgRead.size]
        omega
      · have hrest := ih hmem
        omega

/-- The last label of a row is read from the last slot. -/
theorem rowReads_last (lead : String) (leads : List String) (ap : Nat) :
    { start := ap + 4 * leads.length, next := ap + 4 * leads.length + 4 : ArgRead } ∈
      rowReads (lead :: leads) ap := by
  induction leads generalizing lead ap with
  | nil => exact List.mem_cons_self ..
  | cons lead' leads ih =>
      have hlast := ih lead' (ap + 4)
      have hap : ap + 4 + 4 * leads.length = ap + 4 * (lead' :: leads).length := by
        rw [List.length_cons]
        omega
      rw [hap] at hlast
      exact List.mem_cons_of_mem _ hlast

end Rows

/-! ## Slots -/

section Slots

variable {ws : List Word} {beyond : Bytes}

/-- A slot that is passed is read back. -/
theorem argSlots_read32 {i : Nat} (hi : i < ws.length) :
    (argSlots ws beyond).read32 (4 * i) = ws.getD i 0#32 := by
  rw [← slots_read32]
  exact Bytes.read32_congr fun x _ hx => if_pos (by omega)

/-- The slot behind those passed is what the stack held. -/
theorem argSlots_beyond : (argSlots ws beyond).read32 (4 * ws.length) = beyond.read32 0 := by
  have hbyte : ∀ k, argSlots ws beyond (4 * ws.length + k) = beyond k := by
    intro k
    rw [argSlots, if_neg (by omega), Nat.add_sub_cancel_left]
  have hfirst : argSlots ws beyond (4 * ws.length) = beyond 0 := hbyte 0
  rw [Bytes.read32, hfirst, hbyte 1, hbyte 2, hbyte 3]
  rfl

/-- The slots passed, and the one behind them. -/
theorem argSlots_next (ws : List Word) (beyond : Bytes) {j : Nat} (hj : j < (ws ++ [beyond.read32 0]).length) :
    (argSlots ws beyond).read32 (4 * j) = (ws ++ [beyond.read32 0]).getD j 0#32 := by
  rw [List.length_append, List.length_singleton] at hj
  rcases Nat.lt_succ_iff_lt_or_eq.mp hj with hlt | rfl
  · rw [argSlots_read32 hlt, List.getD_append _ _ _ _ hlt]
  · rw [argSlots_beyond, List.getD_append_right _ _ _ _ (Nat.le_refl _), Nat.sub_self]
    rfl

end Slots

/-! ## The dump -/

/-- A line of the dump: the labels of its format, the arguments it is called with, and the fields of the
structure that have these names. -/
structure DumpLine where
  leads : List String
  args : List Word
  fields : List Word

def dumpLines (reg : Registers) : List DumpLine :=
  [{ leads := ["eax=0x", ", ebx=0x", ", ecx=0x", ", edx=0x"]
     args := [reg.eax, reg.ebx, reg.ecx, reg.edx]
     fields := [reg.eax, reg.ebx, reg.ecx, reg.edx] },
   { leads := ["edi=0x", ", esi=0x", ", ebp=0x", ", esp=0x"]
     args := [reg.edi, reg.esi, reg.ebp, reg.esp]
     fields := [reg.edi, reg.esi, reg.ebp, reg.esp] },
   { leads := ["eip=0x", ", cs=0x", ", ss=0x", ", eflags=0x", ", useresp=0x"]
     args := [reg.eip, reg.ss, reg.eflags, reg.useresp]
     fields := [reg.eip, reg.cs, reg.ss, reg.eflags, reg.useresp] }]

/-- The line shows each field under its label, and its format reads the slots passed only. -/
structure TruthfulLine (beyond : Bytes) (line : DumpLine) : Prop where
  text : ∀ load, ∃ cw, printed load (renderAll (rowItems line.leads)) (argSlots line.args beyond) =
    .ok (rowOf (line.leads.zip line.fields), cw)
  inside : ∀ r ∈ argReads (argSlots line.args beyond) (rowItems line.leads) 0,
    r.start + r.size ≤ 4 * line.args.length

/-- The lines about the registers, with the slip in the third. -/
def dumpText (beyond : Bytes) (reg : Registers) : List Byte :=
  rowOf [("eax=0x", reg.eax), (", ebx=0x", reg.ebx), (", ecx=0x", reg.ecx), (", edx=0x", reg.edx)] ++
  rowOf [("edi=0x", reg.edi), (", esi=0x", reg.esi), (", ebp=0x", reg.ebp), (", esp=0x", reg.esp)] ++
  rowOf [("eip=0x", reg.eip), (", cs=0x", reg.ss), (", ss=0x", reg.eflags), (", eflags=0x", reg.useresp),
    (", useresp=0x", beyond.read32 0)]

/-- The lines with each field under its label. -/
def fieldText (reg : Registers) : List Byte :=
  (dumpLines reg).flatMap fun line => rowOf (line.leads.zip line.fields)

/-- The dump tells the truth: `print_registers` puts out these lines, and reads no slot but those it passes. -/
structure TruthfulDump (μ : Type) [Bus μ] (beyond : Bytes) (reg : Registers) : Prop where
  text : (printRegisters beyond reg : K μ Unit) = (fieldText reg).forM screenPut
  inside : ∀ line ∈ dumpLines reg, ∀ r ∈ argReads (argSlots line.args beyond) (rowItems line.leads) 0,
    r.start + r.size ≤ 4 * line.args.length

section Dump

variable {μ : Type} [Bus μ]

/-- `print_registers` prints these lines. -/
theorem printRegisters_eq (beyond : Bytes) (reg : Registers) :
    (printRegisters beyond reg : K μ Unit) = (dumpLines reg).forM fun line =>
      kPrintf (renderAll (rowItems line.leads)) (argSlots line.args beyond) := by
  have hfirst : renderAll (rowItems ["eax=0x", ", ebx=0x", ", ecx=0x", ", edx=0x"]) =
      cstr "eax=0x%x, ebx=0x%x, ecx=0x%x, edx=0x%x\n" := by decide
  have hsecond : renderAll (rowItems ["edi=0x", ", esi=0x", ", ebp=0x", ", esp=0x"]) =
      cstr "edi=0x%x, esi=0x%x, ebp=0x%x, esp=0x%x\n" := by decide
  have hthird : renderAll (rowItems ["eip=0x", ", cs=0x", ", ss=0x", ", eflags=0x", ", useresp=0x"]) =
      cstr "eip=0x%x, cs=0x%x, ss=0x%x, eflags=0x%x, useresp=0x%x\n" := by decide
  simp only [printRegisters, dumpLines, List.forM_eq_forM, List.forM_cons, List.forM_nil, hfirst, hsecond, hthird,
    bind_pure_unit]

/-- What a row shows, if its slots hold these words. -/
theorem rowWords_eq {args : Bytes} {ws : List Word} (h : ∀ j, j < ws.length → args.read32 (4 * j) = ws.getD j 0#32)
    {leads : List String} {i : Nat} (hlen : i + leads.length = ws.length) :
    rowWords args leads (4 * i) = leads.zip (ws.drop i) := by
  induction leads generalizing i with
  | nil => rfl
  | cons lead leads ih =>
      rw [List.length_cons] at hlen
      have hi : i < ws.length := by omega
      have hdrop : ws.drop i = ws.getD i 0#32 :: ws.drop (i + 1) := by
        rw [List.drop_eq_getElem_cons hi, List.getD_eq_getElem _ _ hi]
      rw [rowWords, h i hi, hdrop, List.zip_cons_cons, ← ih (by omega)]
      rfl

/-- A row is printed as the words it reads. -/
theorem row_prints {leads : List String} (hok : ∀ item ∈ rowItems leads, item.Ok)
    (load : Word → Except Stop Byte) (args : Bytes) :
    printed load (renderAll (rowItems leads)) args =
      .ok (rowOf (rowWords args leads 0), toInt32 (0 + ((rowOf (rowWords args leads 0)).length : Int))) := by
  have houtputs := outputs_eq load (runAll args (rowItems leads) 0).1 0
  have hzero : toInt32 0 = 0 := by decide
  rw [row_output, hzero, Except.map] at houtputs
  rw [printed, print_renderAll hok]
  exact houtputs

theorem row_printed {leads : List String} {args : Bytes} {ws : List Word}
    (hok : ∀ item ∈ rowItems leads, item.Ok) (h : ∀ j, j < ws.length → args.read32 (4 * j) = ws.getD j 0#32)
    (hlen : leads.length = ws.length) (load : Word → Except Stop Byte) :
    ∃ cw, printed load (renderAll (rowItems leads)) args = .ok (rowOf (leads.zip ws), cw) := by
  have hwords := rowWords_eq h (i := 0) ((Nat.zero_add _).trans hlen)
  have hprints := row_prints hok load args
  rw [Nat.mul_zero, List.drop_zero] at hwords
  rw [hwords] at hprints
  exact ⟨_, hprints⟩

theorem printRegisters_text (beyond : Bytes) (reg : Registers) :
    (printRegisters beyond reg : K μ Unit) = (dumpText beyond reg).forM screenPut := by
  have hline : ∀ (leads : List String) {ws : List Word} (args : Bytes), (∀ item ∈ rowItems leads, item.Ok) →
      (∀ j, j < ws.length → args.read32 (4 * j) = ws.getD j 0#32) → leads.length = ws.length →
      (kPrintf (renderAll (rowItems leads)) args : K μ Unit) = (rowOf (leads.zip ws)).forM screenPut := by
    intro leads ws args hok hslots hlen
    obtain ⟨cw, hprinted⟩ := row_printed hok hslots hlen fun _ => .error .spin
    exact kPrintf_silent hprinted
  have hfirst := hline ["eax=0x", ", ebx=0x", ", ecx=0x", ", edx=0x"]
    (argSlots [reg.eax, reg.ebx, reg.ecx, reg.edx] beyond) (by decide) (fun j hj => argSlots_read32 hj) rfl
  have hsecond := hline ["edi=0x", ", esi=0x", ", ebp=0x", ", esp=0x"]
    (argSlots [reg.edi, reg.esi, reg.ebp, reg.esp] beyond) (by decide) (fun j hj => argSlots_read32 hj) rfl
  have hthird := hline ["eip=0x", ", cs=0x", ", ss=0x", ", eflags=0x", ", useresp=0x"]
    (argSlots [reg.eip, reg.ss, reg.eflags, reg.useresp] beyond) (by decide)
    (fun j hj => argSlots_next _ beyond hj) rfl
  rw [printRegisters_eq, dumpLines]
  simp only [List.forM_eq_forM, List.forM_cons, List.forM_nil, bind_pure_unit] at hfirst hsecond hthird ⊢
  rw [hfirst, hsecond, hthird, dumpText]
  simp only [List.forM_append, bind_assoc]
  rfl

/-- A line with a slot for each label, in the order of the labels. -/
theorem truthfulLine_of_args {line : DumpLine} {beyond : Bytes} (hok : ∀ item ∈ rowItems line.leads, item.Ok)
    (hargs : line.args = line.fields) (hlen : line.leads.length = line.args.length) :
    TruthfulLine beyond line := by
  constructor
  · intro load
    rw [← hargs]
    exact row_printed hok (fun j hj => argSlots_read32 hj) hlen load
  · intro r hr
    rw [row_reads] at hr
    have hle := rowReads_le hr
    omega

/-- A line with more labels than slots reads on behind them. -/
theorem exists_read_beyond (line : DumpLine) (beyond : Bytes) (hlen : line.args.length < line.leads.length) :
    ∃ r ∈ argReads (argSlots line.args beyond) (rowItems line.leads) 0, 4 * line.args.length < r.start + r.size := by
  obtain ⟨lead, leads, hleads⟩ := List.exists_cons_of_length_pos (Nat.zero_lt_of_lt hlen)
  have hlast := rowReads_last lead leads 0
  rw [← hleads] at hlast
  rw [hleads, List.length_cons] at hlen
  refine ⟨_, by rw [row_reads]; exact hlast, ?_⟩
  simp only [ArgRead.size]
  omega

theorem not_truthfulDump (beyond : Bytes) (reg : Registers) : ¬TruthfulDump μ beyond reg := by
  intro h
  have hthird := h.inside _ (List.mem_cons_of_mem _ (List.mem_cons_of_mem _ (List.mem_cons_self ..)))
  obtain ⟨r, hr, hbeyond⟩ := exists_read_beyond ((dumpLines reg).get ⟨2, Nat.lt_succ_self 2⟩) beyond
    (Nat.lt_succ_self 4)
  exact Nat.not_lt.mpr (hthird r hr) hbeyond

/-- `print_registers` puts out three lines. The first two are right for every structure. The third is for none: each
label from `cs` on shows the word of the next, and the last one the word behind the arguments. -/
theorem truthfulDump_never (beyond : Bytes) (reg : Registers) :
    (printRegisters beyond reg : K μ Unit) = (dumpText beyond reg).forM screenPut ∧
      (printRegisters beyond reg : K μ Unit) = ((dumpLines reg).forM fun line =>
        kPrintf (renderAll (rowItems line.leads)) (argSlots line.args beyond)) ∧
      (∀ line ∈ (dumpLines reg).take 2, TruthfulLine beyond line) ∧
      (∀ load, ∃ cw, printed load (cstr "eip=0x%x, cs=0x%x, ss=0x%x, eflags=0x%x, useresp=0x%x\n")
          (argSlots [reg.eip, reg.ss, reg.eflags, reg.useresp] beyond) =
        .ok (rowOf [("eip=0x", reg.eip), (", cs=0x", reg.ss), (", ss=0x", reg.eflags),
          (", eflags=0x", reg.useresp), (", useresp=0x", beyond.read32 0)], cw)) ∧
      ¬TruthfulDump μ beyond reg := by
  have hfirst : ∀ item ∈ rowItems ["eax=0x", ", ebx=0x", ", ecx=0x", ", edx=0x"], item.Ok := by decide
  have hsecond : ∀ item ∈ rowItems ["edi=0x", ", esi=0x", ", ebp=0x", ", esp=0x"], item.Ok := by decide
  have hthird : ∀ item ∈ rowItems ["eip=0x", ", cs=0x", ", ss=0x", ", eflags=0x", ", useresp=0x"], item.Ok := by
    decide
  refine ⟨printRegisters_text beyond reg, printRegisters_eq beyond reg, ?_, fun load => ?_,
    not_truthfulDump beyond reg⟩
  · rintro line (_ | ⟨_, _ | ⟨_, ⟨⟩⟩⟩)
    · exact truthfulLine_of_args hfirst rfl rfl
    · exact truthfulLine_of_args hsecond rfl rfl
  · exact row_printed hthird (fun j hj => argSlots_next _ beyond hj) rfl load

/-- A general protection fault of kernel code. -/
def faultingRegisters : Registers where
  ds := 0x10#32
  edi := 0#32
  esi := 0#32
  ebp := 0xC0105FF0#32
  esp := 0xC0105FD0#32
  ebx := 0#32
  edx := 0#32
  ecx := 0#32
  eax := 0xDEAD#32
  intNo := 13#32
  errCode := 0#32
  eip := 0xC0106123#32
  cs := 0x08#32
  eflags := 0x202#32
  useresp := 0xC0105FF4#32
  ss := 0x10#32

theorem not_truthfulDump_fault : ¬TruthfulDump Flat (fun _ => 0#8) faultingRegisters :=
  not_truthfulDump _ _

end Dump

end LizaOS
