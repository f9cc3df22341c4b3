-- SUMMARY: What an exception puts on the screen before the machine halts, for every vector, and what can be read off it.
import LizaOS.Kernel.CrashDump
import LizaOS.Libc.StdioRun

/-!
# Faults

`page_fault_handler` of `mm/paging.c`, `panic` of `kernel/kerror.c`, and the whole of what
`isr_exception_handler` prints. None of its formats reads a string from memory, so the text does not
depend on what memory holds or on how it is mapped.
-/

namespace LizaOS

open Exec Cpu

/-! ## The code -/

section Code

variable {μ : Type} [Bus μ]

/-- `panic`, with its reason. What `vprintf` prints is what `k_printf` prints. -/
def panicWith (reason : List Byte) (args : Bytes) : D μ Unit := do
  kernelCode (kPrintfln (cstr "[PANIC] Halt and catch fire") (slots []))
  kernelCode (kPrintf reason args)
  throw .panic

/-- `page_fault_handler`. The processor has left the address in `cr2`. -/
def pageFaultHandler (cr2 : Word) (regs : Registers) : D μ Unit := do
  let present : Word := if regs.errCode &&& 0x1#32 = 0#32 then 1#32 else 0#32
  let rw := regs.errCode &&& 0x2#32
  let us := regs.errCode &&& 0x4#32
  let reserved := regs.errCode &&& 0x8#32
  let id := regs.errCode &&& 0x10#32
  kernelCode (kPrintfln
    (cstr "Page fault at address=%p | present=%d read-only=%d user-mode=%d\nreserved=%d instruction-fetch=%d")
    (slots [cr2, present, rw, us, reserved, id]))
  panicWith (cstr "here") (slots [])

end Code

/-! ## The texts -/

/-- A word as `%p` prints it: eight digits. -/
def pointerText (w : Word) : List Byte :=
  cstr "0x" ++ (List.range 8).map fun i => digitByte (chr 'A') (w.toNat / 16 ^ (7 - i) % 16)

/-- What the error code of a page fault tells. -/
structure PageFault where
  address : Word
  present : Bool
  write : Bool
  user : Bool
  reserved : Bool
  fetch : Bool
  deriving DecidableEq, Repr

def PageFault.of (cr2 err : Word) : PageFault where
  address := cr2
  present := err.getLsbD 0
  write := err.getLsbD 1
  user := err.getLsbD 2
  reserved := err.getLsbD 3
  fetch := err.getLsbD 4

/-- A bit as the decimal number of its mask. -/
def bitText (mask : String) (b : Bool) : List Byte := if b then cstr mask else cstr "0"

/-- The report of a page fault. The first label is the other way round: 1 is for a page that is not present.
The others show the bit in its place. -/
def PageFault.text (f : PageFault) : List Byte :=
  cstr "Page fault at address=" ++ pointerText f.address ++
  cstr " | present=" ++ bitText "1" (!f.present) ++
  cstr " read-only=" ++ bitText "2" f.write ++
  cstr " user-mode=" ++ bitText "4" f.user ++
  cstr "\nreserved=" ++ bitText "8" f.reserved ++
  cstr " instruction-fetch=" ++ bitText "16" f.fetch

def panicText : List Byte := cstr "[PANIC] Halt and catch fire\n"

/-- What the handler of page faults puts out, with the panic behind the report. -/
def faultReport (cr2 : Word) (reg : Registers) : List Byte :=
  (PageFault.of cr2 reg.errCode).text ++ [newline] ++ panicText ++ cstr "here"

/-- All that is printed about an exception. Only that of a page fault has a handler. -/
def exceptionText (v : Fin 32) (beyond : Bytes) (reg : Registers) (cr2 : Word) : List Byte :=
  dumpText beyond reg ++
    if v.val = 14 then faultReport cr2 reg
    else panicText ++ (cstr "received pointer: " ++ cstr (exceptionMessages.getD v "") ++ [newline])

/-- What is done about an exception, beside printing. -/
def exceptionActs (v : Fin 32) (pageFault : Word) (reg : Registers) : List Act :=
  .handlerIndex v :: if v.val = 14 then [.handlerIndex 14, .called pageFault reg] else [.messageIndex v]

/-! ## Pointers -/

section Pointers

/-- Digits with zeros in front of them, up to `k` places. -/
theorem digitText_padded {convbase : Byte} {n k : Nat} (hn : n < 16 ^ k) :
    List.replicate (k - (digitText 16 convbase n).length) (digitByte convbase 0) ++ digitText 16 convbase n =
      (List.range k).map fun i => digitByte convbase (n / 16 ^ (k - 1 - i) % 16) := by
  have hlen : (Nat.digits 16 n).length ≤ k := (Nat.digits_length_le_iff (by decide) n).mpr hn
  have htext : (digitText 16 convbase n).length = (Nat.digits 16 n).length := by
    rw [digitText, List.length_reverse, List.length_map]
  refine List.ext_getElem ?_ fun i hi hi' => ?_
  · rw [List.length_append, List.length_replicate, List.length_map, List.length_range, htext]
    omega
  · rw [List.length_map, List.length_range] at hi'
    rw [List.getElem_map, List.getElem_range, ← Nat.getD_digits n (k - 1 - i) (by decide)]
    rcases Nat.lt_or_ge i (k - (Nat.digits 16 n).length) with hpad | hdigit
    · rw [List.getElem_append_left (by rw [List.length_replicate, htext]; exact hpad), List.getElem_replicate,
        List.getD_eq_default _ _ (by omega)]
    · rw [List.getElem_append_right (by rw [List.length_replicate, htext]; exact hdigit)]
      have hplace : k - 1 - i < (Nat.digits 16 n).length := by omega
      rw [List.getD_eq_getElem _ _ hplace]
      simp only [digitText, List.getElem_reverse, List.getElem_map, List.length_replicate, List.length_reverse,
        List.length_map]
      congr 2
      omega

theorem prints_hex {ds : List Byte} (hlen : ds.length ≤ 8) :
    prints ds 8 (dispHexd ||| padwZero) = cstr "0x" ++ (List.replicate (8 - ds.length) (chr '0') ++ ds) := by
  have hzero : hasFlag (dispHexd ||| padwZero) padwZero = true := by decide
  have hhexd : hasFlag (dispHexd ||| padwZero) dispHexd = true := by decide
  have hleft : hasFlag (dispHexd ||| padwZero) leftJust = false := by decide
  rcases Nat.lt_or_eq_of_le hlen with hlt | heq
  · have hshort : ¬(ds.length : Int) ≥ 8 := by omega
    have hwidth : ((8 : Int) - ds.length).toNat = 8 - ds.length := by omega
    have hroom : (8 : Int) - ds.length ≠ 0 := by omega
    simp [prints, hzero, hhexd, hleft, hshort, hwidth, hroom]
  · simp [prints, hzero, hhexd, hleft, heq]

/-- `%p` shows all the digits of the word. -/
theorem printi_pointer (w : Word) : printi w 16 false 8 (dispHexd ||| padwZero) (chr 'A') = pointerText w := by
  by_cases hw : w = 0#32
  · subst hw
    decide
  · have hhide : hasFlag (dispHexd ||| padwZero) hideSign = false := by decide
    have hbase : ¬((Radix.hex.base : Int) = 10 ∧ hasFlag (dispHexd ||| padwZero) padwZero = true) := by decide
    have hsign : numberSign .hex w (dispHexd ||| padwZero) = [] := if_neg (by decide)
    have hmag : magnitude .hex w = w.toNat := if_neg fun h => Bool.false_ne_true h.1
    have hkept : keptFlags Radix.hex.base (dispHexd ||| padwZero) = dispHexd ||| padwZero := rfl
    have hlt : w.toNat < 16 ^ 8 := w.isLt
    have hlen : (digitText 16 (chr 'A') w.toNat).length ≤ 8 := by
      rw [digitText, List.length_reverse, List.length_map]
      exact (Nat.digits_length_le_iff (by decide) _).mpr hlt
    change printi w (Radix.hex.base : Int) Radix.hex.sign 8 (dispHexd ||| padwZero) (chr 'A') = _
    rw [printi_nonzero hhide hw, if_neg hbase, hsign, hkept, List.nil_append, hmag]
    change prints (digitText 16 (chr 'A') w.toNat) 8 _ = _
    rw [prints_hex hlen, pointerText]
    exact congrArg _ (digitText_padded hlt)

@[simp] theorem pointerText_length (w : Word) : (pointerText w).length = 10 := by
  rw [pointerText, List.length_append, List.length_map, List.length_range]
  rfl

/-- The word can be read off its digits. -/
theorem pointerText_inj {w w' : Word} (h : pointerText w = pointerText w') : w = w' := by
  have hdigits := List.append_cancel_left h
  have hplace : ∀ i, i < 8 → w.toNat / 16 ^ (7 - i) % 16 = w'.toNat / 16 ^ (7 - i) % 16 := by
    intro i hi
    have hbyte := (List.map_inj_left.mp hdigits) i (List.mem_range.mpr hi)
    have hvalue := congrArg (digitValue (chr 'A')) hbyte
    rwa [digitValue_digitByte (.inr rfl) (Nat.mod_lt _ (by decide)),
      digitValue_digitByte (.inr rfl) (Nat.mod_lt _ (by decide))] at hvalue
  have h₀ := hplace 0 (by decide)
  have h₁ := hplace 1 (by decide)
  have h₂ := hplace 2 (by decide)
  have h₃ := hplace 3 (by decide)
  have h₄ := hplace 4 (by decide)
  have h₅ := hplace 5 (by decide)
  have h₆ := hplace 6 (by decide)
  have h₇ := hplace 7 (by decide)
  have hlt := w.isLt
  have hlt' := w'.isLt
  refine BitVec.eq_of_toNat_eq ?_
  simp only [Nat.reduceSub, Nat.reducePow] at h₀ h₁ h₂ h₃ h₄ h₅ h₆ h₇
  omega

end Pointers

/-! ## Labelled words -/

section Labelled

/-- A directive with nothing between its `%` and its conversion. -/
def plain (conv : Char) : Item := .directive { flags := [], width := [], length := [], conv := chr conv }

/-- A format that shows words under labels. -/
def labelItems (labels : List (String × Char)) : List Item :=
  labels.flatMap fun label => (cstr label.1).map .byte ++ [plain label.2]

variable {e : Stop} {args : Bytes} {items : List Item} {ap : Nat} {bs out : List Byte} {conv : Char}
  {labels : List (String × Char)}

/-- One label and its word, before the rest of the format. -/
theorem label_output (lead : String) (hrun : (plain conv).run args ap = (.text bs, ap + 4))
    (h : outputBytes (fun _ => .error e) (runAll args (labelItems labels) (ap + 4)).1 = .ok out) :
    outputBytes (fun _ => .error e) (runAll args (labelItems ((lead, conv) :: labels)) ap).1 =
      .ok (cstr lead ++ (bs ++ out)) := by
  have hsplit : labelItems ((lead, conv) :: labels) = (cstr lead).map .byte ++ plain conv :: labelItems labels := by
    rw [labelItems, List.flatMap_cons, List.append_assoc]
    rfl
  rw [hsplit]
  refine bytes_output (cstr lead) ?_
  rw [runAll, hrun, outputBytes_cons, h]
  rfl

/-- What a format prints is what its items put out. -/
theorem printed_items (hok : ∀ item ∈ items, item.Ok)
    (h : outputBytes (fun _ => .error e) (runAll args items 0).1 = .ok bs) :
    ∃ cw, printed (fun _ => .error e) (renderAll items) args = .ok (bs, cw) := by
  have hcount := outputs_eq (fun _ => .error e) (runAll args items 0).1 0
  have hzero : toInt32 0 = 0 := by decide
  rw [h, hzero] at hcount
  rw [printed, print_renderAll hok]
  exact ⟨_, hcount⟩

/-- Plain text is put out as it is. -/
theorem plainText_printed (e : Stop) (args : Bytes) {bs : List Byte} (h : ∀ c ∈ bs, c ≠ 0#8 ∧ c ≠ chr '%') :
    ∃ cw, printed (fun _ => .error e) bs args = .ok (bs, cw) := by
  have hok : ∀ item ∈ bs.map Item.byte, item.Ok := by
    intro item hitem
    obtain ⟨c, hc, rfl⟩ := List.mem_map.mp hitem
    exact h c hc
  have hformat : renderAll (bs.map Item.byte) = bs := by
    rw [renderAll, List.flatMap_map]
    exact List.flatMap_singleton' bs
  have houtput : outputBytes (fun _ => .error e) (runAll args (bs.map Item.byte ++ []) 0).1 = .ok (bs ++ []) :=
    bytes_output bs rfl
  rw [List.append_nil, List.append_nil] at houtput
  obtain ⟨cw, hprinted⟩ := printed_items hok houtput
  rw [hformat] at hprinted
  exact ⟨cw, hprinted⟩

/-- `%d` of one bit of a word. -/
theorem bit_run {b : Bool} (w : Word) (mask : String) (hword : args.read32 ap = if b then w else 0#32)
    (hmask : printi w 10 true 0 0#32 (chr 'a') = cstr mask) :
    (plain 'd').run args ap = (.text (bitText mask b), ap + 4) := by
  have hrun : (plain 'd').run args ap = (.text (printi (args.read32 ap) 10 true 0 0#32 (chr 'a')), ap + 4) := rfl
  have hzero : printi 0#32 10 true 0 0#32 (chr 'a') = cstr "0" := by decide
  rw [hrun, hword]
  cases b with
  | true => rw [if_pos rfl, hmask, bitText, if_pos rfl]
  | false => rw [if_neg Bool.false_ne_true, hzero, bitText, if_neg Bool.false_ne_true]

theorem pointer_run : (plain 'p').run args ap = (.text (pointerText (args.read32 ap)), ap + 4) := by
  rw [← printi_pointer]
  rfl

end Labelled

/-! ## The report of a page fault -/

section Report

variable {μ : Type} [Bus μ]

def faultLabels : List (String × Char) :=
  [("Page fault at address=", 'p'), (" | present=", 'd'), (" read-only=", 'd'), (" user-mode=", 'd'),
    ("\nreserved=", 'd'), (" instruction-fetch=", 'd')]

/-- The handler's format on the handler's arguments. -/
theorem faultText_printed (e : Stop) (cr2 err : Word) : ∃ cw, printed (fun _ => .error e)
    (cstr "Page fault at address=%p | present=%d read-only=%d user-mode=%d\nreserved=%d instruction-fetch=%d")
    (slots [cr2, if err &&& 0x1#32 = 0#32 then 1#32 else 0#32, err &&& 0x2#32, err &&& 0x4#32, err &&& 0x8#32,
      err &&& 0x10#32]) = .ok ((PageFault.of cr2 err).text, cw) := by
  have hformat : renderAll (labelItems faultLabels) =
      cstr "Page fault at address=%p | present=%d read-only=%d user-mode=%d\nreserved=%d instruction-fetch=%d" := by
    decide
  have hok : ∀ item ∈ labelItems faultLabels, item.Ok := by decide
  have hbit := BitVec.and_twoPow err
  have hpresent : (if err &&& 0x1#32 = 0#32 then 1#32 else 0#32) = if !err.getLsbD 0 then 1#32 else 0#32 := by
    have hand : err &&& 0x1#32 = if err.getLsbD 0 then 0x1#32 else 0#32 := hbit 0
    rw [hand]
    cases err.getLsbD 0 <;> rfl
  have hslot := slots_read32 [cr2, if err &&& 0x1#32 = 0#32 then 1#32 else 0#32, err &&& 0x2#32, err &&& 0x4#32,
    err &&& 0x8#32, err &&& 0x10#32]
  generalize slots [cr2, if err &&& 0x1#32 = 0#32 then 1#32 else 0#32, err &&& 0x2#32, err &&& 0x4#32, err &&& 0x8#32,
    err &&& 0x10#32] = args at *
  have haddress : (plain 'p').run args 0 = (.text (pointerText cr2), 0 + 4) := by
    have hrun : (plain 'p').run args (4 * 0) = (.text (pointerText (args.read32 (4 * 0))), 4 * 0 + 4) := pointer_run
    rwa [hslot 0] at hrun
  have hshown : (plain 'd').run args 4 = (.text (bitText "1" !err.getLsbD 0), 8) :=
    bit_run 1#32 _ ((hslot 1).trans hpresent) rfl
  have hwrite : (plain 'd').run args 8 = (.text (bitText "2" (err.getLsbD 1)), 12) :=
    bit_run 2#32 _ ((hslot 2).trans (hbit 1)) rfl
  have huser : (plain 'd').run args 12 = (.text (bitText "4" (err.getLsbD 2)), 16) :=
    bit_run 4#32 _ ((hslot 3).trans (hbit 2)) rfl
  have hreserved : (plain 'd').run args 16 = (.text (bitText "8" (err.getLsbD 3)), 20) :=
    bit_run 8#32 _ ((hslot 4).trans (hbit 3)) rfl
  have hfetch : (plain 'd').run args 20 = (.text (bitText "16" (err.getLsbD 4)), 24) :=
    bit_run 16#32 _ ((hslot 5).trans (hbit 4)) rfl
  have hend : outputBytes (fun _ => .error e) (runAll args (labelItems []) 24).1 = .ok [] := rfl
  have houtput := label_output "Page fault at address=" haddress (label_output " | present=" hshown
    (label_output " read-only=" hwrite (label_output " user-mode=" huser (label_output "\nreserved=" hreserved
    (label_output " instruction-fetch=" hfetch hend)))))
  obtain ⟨cw, hprinted⟩ := printed_items hok houtput
  rw [← hformat]
  refine ⟨cw, hprinted.trans ?_⟩
  simp only [PageFault.text, PageFault.of, List.append_assoc, List.append_nil]

theorem bitText_length (mask : String) (hmask : (cstr mask).length = 1) (b : Bool) : (bitText mask b).length = 1 := by
  cases b with
  | true => exact hmask
  | false => rfl

theorem bitText_inj {mask : String} (hmask : cstr mask ≠ cstr "0") {b b' : Bool}
    (h : bitText mask b = bitText mask b') : b = b' := by
  cases b <;> cases b'
  · rfl
  · exact absurd h.symm hmask
  · exact absurd h hmask
  · rfl

/-- The report shows the address and the five bits. -/
theorem PageFault.text_inj {f g : PageFault} (h : f.text = g.text) : f = g := by
  have hone := bitText_length "1" rfl
  have htwo := bitText_length "2" rfl
  have hfour := bitText_length "4" rfl
  have height := bitText_length "8" rfl
  unfold PageFault.text at h
  -- every part but the last has one length, so the texts agree part by part
  obtain ⟨h, hfetch⟩ := List.append_inj h (by simp [hone, htwo, hfour, height])
  obtain ⟨h, hreserved⟩ := List.append_inj (List.append_cancel_right h) (by simp [hone, htwo, hfour])
  obtain ⟨h, huser⟩ := List.append_inj (List.append_cancel_right h) (by simp [hone, htwo])
  obtain ⟨h, hwrite⟩ := List.append_inj (List.append_cancel_right h) (by simp [hone])
  obtain ⟨h, hpresent⟩ := List.append_inj (List.append_cancel_right h) (by simp)
  have haddress := pointerText_inj (List.append_cancel_left (List.append_cancel_right h))
  have hshown := bitText_inj (by decide) hpresent
  cases f
  cases g
  simp only [PageFault.mk.injEq]
  exact ⟨haddress, Bool.not_inj hshown, bitText_inj (by decide) hwrite, bitText_inj (by decide) huser,
    bitText_inj (by decide) hreserved, bitText_inj (by decide) hfetch⟩

end Report

/-! ## The whole text -/

/-- Code of the kernel that comes back leaves the record alone. -/
theorem kernelCode_ok {μ α : Type} {x : K μ α} {a : α} {s s' : Kernel μ} (h : x s = .ok (a, s')) (acts : List Act) :
    kernelCode x { kernel := s, acts := acts } = (.ok a, { kernel := s', acts := acts }) := by
  rw [kernelCode, h]

section Whole

variable {μ : Type} [Bus μ]

theorem screenText_append (bs bs' : List Byte) :
    ((bs ++ bs').forM screenPut : K μ Unit) = bs.forM screenPut >>= fun _ => bs'.forM screenPut := by
  simp

theorem screenText_ok {bs bs' : List Byte} {s s' : Kernel μ}
    (h : (bs ++ bs').forM screenPut s = .ok (PUnit.unit, s')) :
    ∃ s₁, bs.forM screenPut s = .ok (PUnit.unit, s₁) ∧ bs'.forM screenPut s₁ = .ok (PUnit.unit, s') := by
  rw [screenText_append] at h
  obtain ⟨_, s₁, hfirst, hrest⟩ := bind_ok.mp h
  exact ⟨s₁, hfirst, hrest⟩

theorem kPrintfln_text {fmt : List Byte} {args : Bytes} {bs : List Byte}
    (h : (kPrintf fmt args : K μ Unit) = bs.forM screenPut) :
    (kPrintfln fmt args : K μ Unit) = (bs ++ [newline]).forM screenPut := by
  have hlast : ([newline].forM screenPut : K μ Unit) = screenPut newline := by
    simp
  rw [kPrintfln, h, screenText_append, hlast]

theorem panicLine_text : (kPrintfln (cstr "[PANIC] Halt and catch fire") (slots []) : K μ Unit) =
    panicText.forM screenPut := by
  obtain ⟨cw, hprinted⟩ := plainText_printed .spin (slots [])
    (by decide : ∀ c ∈ cstr "[PANIC] Halt and catch fire", c ≠ 0#8 ∧ c ≠ chr '%')
  exact kPrintfln_text (kPrintf_silent hprinted)

/-- `panic` puts out its line and the reason, and does not come back. -/
theorem panicWith_run {reason bs : List Byte} {args : Bytes} {d : Dispatch μ} {s : Kernel μ}
    (hreason : (kPrintf reason args : K μ Unit) = bs.forM screenPut)
    (h : (panicText ++ bs).forM screenPut d.kernel = .ok (PUnit.unit, s)) :
    panicWith reason args d = (.error .panic, { d with kernel := s }) := by
  obtain ⟨s₁, hline, hrest⟩ := screenText_ok h
  rw [← panicLine_text] at hline
  rw [← hreason] at hrest
  rw [panicWith, Lasting.bind_ok (kernelCode_ok hline _), Lasting.bind_ok (kernelCode_ok hrest _)]
  rfl

/-- The handler of page faults puts out its report, and does not come back. -/
theorem pageFaultHandler_run {cr2 : Word} {reg : Registers} {d : Dispatch μ} {s : Kernel μ}
    (h : (faultReport cr2 reg).forM screenPut d.kernel = .ok (PUnit.unit, s)) :
    pageFaultHandler cr2 reg d = (.error .panic, { d with kernel := s }) := by
  obtain ⟨cw, hprinted⟩ := faultText_printed .spin cr2 reg.errCode
  obtain ⟨_, hhere⟩ := plainText_printed .spin (slots []) (by decide : ∀ c ∈ cstr "here", c ≠ 0#8 ∧ c ≠ chr '%')
  rw [faultReport, List.append_assoc] at h
  obtain ⟨s₁, hreport, hrest⟩ := screenText_ok h
  rw [← kPrintfln_text (kPrintf_silent hprinted)] at hreport
  have hpanic := panicWith_run (d := { d with kernel := s₁ }) (kPrintf_silent hhere) hrest
  rw [pageFaultHandler, Lasting.bind_ok (kernelCode_ok hreport _)]
  exact hpanic

/-- The address and the low five bits of the error code can be read off the report. -/
theorem faultReport_inj {cr2 cr2' : Word} {reg reg' : Registers} (h : faultReport cr2 reg = faultReport cr2' reg') :
    cr2 = cr2' ∧ reg.errCode.setWidth 5 = reg'.errCode.setWidth 5 := by
  have hsame := PageFault.text_inj (List.append_cancel_right (List.append_cancel_right (List.append_cancel_right h)))
  simp only [PageFault.of, PageFault.mk.injEq] at hsame
  obtain ⟨haddress, h₀, h₁, h₂, h₃, h₄⟩ := hsame
  refine ⟨haddress, BitVec.eq_of_getLsbD_eq fun i hi => ?_⟩
  rw [BitVec.getLsbD_setWidth, BitVec.getLsbD_setWidth]
  interval_cases i <;> simp only [h₀, h₁, h₂, h₃, h₄]

/-- The handler of page faults puts out its report, and two faults have one report only if they have one address and
agree in the five bits the kernel knows. -/
theorem pageFault_readable (cr2 cr2' : Word) (reg reg' : Registers) :
    (∀ (d : Dispatch μ) s, (faultReport cr2 reg).forM screenPut d.kernel = .ok (PUnit.unit, s) →
      pageFaultHandler cr2 reg d = (.error .panic, { d with kernel := s })) ∧
    (faultReport cr2 reg = faultReport cr2' reg' ↔
      cr2 = cr2' ∧ reg.errCode.setWidth 5 = reg'.errCode.setWidth 5) := by
  refine ⟨fun d s h => pageFaultHandler_run h, faultReport_inj, ?_⟩
  rintro ⟨rfl, hbits⟩
  have hbit : ∀ i, i < 5 → reg.errCode.getLsbD i = reg'.errCode.getLsbD i := by
    intro i hi
    have heq := congrArg (fun w => w.getLsbD i) hbits
    simpa only [BitVec.getLsbD_setWidth, hi, decide_true, Bool.true_and] using heq
  simp only [faultReport, PageFault.of, hbit 0 (by decide), hbit 1 (by decide), hbit 2 (by decide), hbit 3 (by decide),
    hbit 4 (by decide)]

/-- The dispatcher without a handler for the vector. -/
theorem isrExceptionHandler_unhandled {beyond : Bytes} {reg : Registers} {call : Word → Registers → D μ Unit}
    {d : Dispatch μ} {s : Kernel μ} (htable : d.kernel.handlers reg.intNo.toNat = 0#32)
    (h : (dumpText beyond reg ++ (panicText ++ (cstr "received pointer: " ++
      cstr (exceptionMessages.getD reg.intNo.toNat "") ++ [newline]))).forM screenPut d.kernel = .ok (PUnit.unit, s)) :
    isrExceptionHandler call beyond reg d = (.error .panic, { kernel := s, acts :=
      d.acts ++ [.handlerIndex reg.intNo.toNat, .messageIndex reg.intNo.toNat] }) := by
  obtain ⟨s₁, hdump, hrest⟩ := screenText_ok h
  obtain ⟨s₂, hline, hmessage⟩ := screenText_ok hrest
  rw [← printRegisters_text] at hdump
  rw [← panicLine_text] at hline
  have hload := loadHandler_run (reg.intNo.toNat : Int) d
  rw [htable] at hload
  rw [isrExceptionHandler, Lasting.bind_ok hload, if_neg (not_not.mpr rfl)]
  beta_reduce
  rw [Lasting.bind_ok (kernelCode_ok hdump _), Lasting.bind_ok (note_run _ _), Lasting.bind_ok (kernelCode_ok hline _),
    Lasting.bind_ok (kernelCode_ok hmessage _), List.append_assoc]
  rfl

theorem printRegisters_around (beyond : Bytes) (reg : Registers) :
    Respects Around (printRegisters beyond reg : K μ Unit) :=
  (kPrintf_around _ _).bind fun _ => (kPrintf_around _ _).bind fun _ => kPrintf_around _ _

/-- The dispatcher with the handler of page faults. -/
theorem isrExceptionHandler_pageFault {beyond : Bytes} {reg : Registers} {cr2 pageFault : Word}
    {call : Word → Registers → D μ Unit} {d : Dispatch μ} {s : Kernel μ}
    (hcall : call pageFault reg = called (pageFaultHandler cr2 reg) pageFault reg) (hfault : pageFault ≠ 0#32)
    (htable : d.kernel.handlers reg.intNo.toNat = pageFault)
    (h : (dumpText beyond reg ++ faultReport cr2 reg).forM screenPut d.kernel = .ok (PUnit.unit, s)) :
    isrExceptionHandler call beyond reg d = (.error .panic, { kernel := s, acts :=
      d.acts ++ [.handlerIndex reg.intNo.toNat, .handlerIndex reg.intNo.toNat, .called pageFault reg] }) := by
  obtain ⟨s₁, hdump, hrest⟩ := screenText_ok h
  rw [← printRegisters_text] at hdump
  have hload := loadHandler_run (reg.intNo.toNat : Int) d
  rw [htable] at hload
  have hagain := loadHandler_run (reg.intNo.toNat : Int)
    ({ kernel := s₁, acts := d.acts ++ [.handlerIndex reg.intNo.toNat] } : Dispatch μ)
  obtain ⟨_, _, _, hkept⟩ := printRegisters_around beyond reg d.kernel _ _ hdump
  have htable' : s₁.handlers reg.intNo.toNat = pageFault := by
    rw [hkept]
    exact htable
  rw [htable'] at hagain
  have hbody := pageFaultHandler_run (d := { kernel := s₁, acts :=
    d.acts ++ [.handlerIndex reg.intNo.toNat] ++ [.handlerIndex reg.intNo.toNat] ++ [.called pageFault reg] }) hrest
  have hcalled := (called_run (pageFaultHandler cr2 reg) pageFault reg { kernel := s₁, acts :=
    d.acts ++ [.handlerIndex reg.intNo.toNat] ++ [.handlerIndex reg.intNo.toNat] }).trans hbody
  rw [isrExceptionHandler, Lasting.bind_ok hload, if_pos hfault, Lasting.bind_ok (kernelCode_ok hdump _),
    Lasting.bind_ok hagain, hcall, Lasting.bind_error hcalled]
  simp only [List.append_assoc]
  rfl

/-- With the table `kmain` leaves, every exception puts its whole text on the screen and halts the machine. The
registers in it are those of the interrupted code, but for the vectors whose frame is shifted. -/
theorem exception_reported (v : Fin 32) (at' : Interrupted) (cr2 pageFault : Word) (call : Word → Registers → D μ Unit)
    (d : Dispatch μ) (s : Kernel μ) (hcall : ∀ reg, call pageFault reg = called (pageFaultHandler cr2 reg) pageFault reg)
    (hfault : pageFault ≠ 0#32) (htable : ∀ n : Fin 32, d.kernel.handlers n = if n = 14 then pageFault else 0#32)
    (hscreen : (exceptionText v at'.beyond ((Gate.exception v).registers at') cr2).forM screenPut d.kernel =
      .ok (PUnit.unit, s)) :
    (Gate.exception v).handle call at' d = (.error .panic,
        { kernel := s, acts := d.acts ++ exceptionActs v pageFault ((Gate.exception v).registers at') }) ∧
      (v ∉ [17, 21, 29, 30] →
        ShowsException v at'.pad at'.err at'.cpu ((Gate.exception v).registers at')) := by
  have hno : ((Gate.exception v).registers at').intNo.toNat = v := by
    have hnumber := exceptionRegisters_intNo Gate.uncalled v at'.pad at'.err at'.cpu
    change (exceptionRegisters Gate.uncalled v at'.pad at'.err at'.cpu).intNo.toNat = v
    rw [hnumber, BitVec.toNat_ofNat, Nat.mod_eq_of_lt (by omega)]
  refine ⟨?_, fun hv => (showsException_iff Gate.uncalled v at'.pad at'.err at'.cpu).mpr (.inl hv)⟩
  change isrExceptionHandler call at'.beyond ((Gate.exception v).registers at') d = _
  have hentry := htable v
  rw [← hno] at hentry
  unfold exceptionText exceptionActs at *
  by_cases hv : v = 14
  · have hval : v.val = 14 := congrArg Fin.val hv
    rw [if_pos hv] at hentry
    rw [if_pos hval] at hscreen ⊢
    rw [isrExceptionHandler_pageFault (hcall _) hfault hentry hscreen, hno, hv]
    rfl
  · have hval : v.val ≠ 14 := fun h => hv (Fin.ext h)
    rw [if_neg hv] at hentry
    rw [if_neg hval] at hscreen ⊢
    rw [← hno] at hscreen
    rw [isrExceptionHandler_unhandled hentry hscreen, hno]

/-- A page that is not present, under code that has just been entered. -/
def interruptedRead : Interrupted where
  cpu := alignmentCheck
  pad := 0#16
  err := 0#32
  beyond := fun _ => 0#8

theorem exception_reported_read : ∃ s acts,
    (Gate.exception 14).handle (fun handler reg => called (pageFaultHandler 0xDEADBEEF#32 reg) handler reg) interruptedRead
        { kernel := { Kernel.reset Flat.zero with handlers := fun n => if n = 14 then 0xC0107000#32 else 0#32 }
          acts := [] } = (.error .panic, { kernel := s, acts := acts }) ∧
      ShowsException 14 0#16 0#32 alignmentCheck ((Gate.exception 14).registers interruptedRead) := by
  obtain ⟨_, s, hrun, _⟩ := screenText_console
    (s := { Kernel.reset Flat.zero with handlers := fun n => if n = 14 then 0xC0107000#32 else 0#32 })
    (exceptionText 14 interruptedRead.beyond ((Gate.exception 14).registers interruptedRead) 0xDEADBEEF#32)
  have hreported := exception_reported 14 interruptedRead 0xDEADBEEF#32 0xC0107000#32
    (fun handler reg => called (pageFaultHandler 0xDEADBEEF#32 reg) handler reg)
    { kernel := { Kernel.reset Flat.zero with handlers := fun n => if n = 14 then 0xC0107000#32 else 0#32 }
      acts := [] } s (fun _ => rfl) (by decide) (by decide) hrun
  exact ⟨s, _, hreported.1, hreported.2 (by decide)⟩

end Whole

end LizaOS
