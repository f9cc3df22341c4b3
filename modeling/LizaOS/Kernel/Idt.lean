-- SUMMARY: The interrupt descriptor table, and how both tables are read back by the processor.
import LizaOS.Kernel.Gdt

/-!
# The interrupt descriptor table

`idt_set_entry` of `kernel/idt.c`. Its entries and those of the global descriptor table are read back as
they were given to the code, bit for bit.
-/

namespace LizaOS

open Exec

/-- `IDT_DESCRIPTORS` -/
def idtDescriptors : Nat := 256

/-- Where the linker has put the table. -/
structure IdtSymbols where
  gIdt : Word

/-- `&g_idt[index]` -/
def IdtSymbols.entry (sym : IdtSymbols) (index : Int) : Word := sym.gIdt + BitVec.ofInt 32 ((8 : Nat) * index)

def idtSetEntry {μ : Type} [Bus μ] (sym : IdtSymbols) (index : Int) (base : Word) (segSel : Half) (flags : Byte) :
    K μ Unit := do
  let i := sym.entry index
  store16 i ((base &&& 0xFFFF#32).setWidth 16)
  store16 (i + 2#32) segSel
  store8 (i + 4#32) 0#8
  store8 (i + 5#32) flags
  store16 (i + 6#32) (((base >>> 16) &&& 0xFFFF#32).setWidth 16)

/-! ## One entry -/

/-- Byte `k` of an entry. -/
def idtByte (base : Word) (segSel : Half) (flags : Byte) (k : Nat) : Byte :=
  [byteAt base 0, byteAt base 1, halfByte segSel 0, halfByte segSel 1, 0#8, flags, byteAt base 2,
    byteAt base 3].getD k 0#8

/-- What an entry is for. -/
def gateOf (base : Word) (segSel : Half) (flags : Byte) : GateDescriptor where
  handler := base
  selector := segSel
  flags := flags
  reserved := 0#8

section Entry

variable {sym : IdtSymbols} {index : Int} {base : Word} {segSel : Half} {flags : Byte} {s : Kernel Flat}
  {m : Flat} {a : Word}

/-- The bytes of an entry are those of its gate. -/
theorem decode_idtByte (hfit : a.toNat + 8 ≤ 2 ^ 32)
    (hm : ∀ k, k < 8 → m.ram (a.toNat + k) = idtByte base segSel flags k) :
    m.gate a = gateOf base segSel flags := by
  obtain ⟨hlow, hhigh⟩ := Flat.words_eq hfit (m := m)
  have hfirst := hm 0 (by decide)
  rw [Nat.add_zero] at hfirst
  have hbase : ofBytes (byteAt base 0) (byteAt base 1) (byteAt base 2) (byteAt base 3) = base := ofBytes_byteAt base
  rw [Flat.gate, hlow, hhigh, Bytes.read32, Bytes.read32]
  simp only [Nat.add_assoc, Nat.reduceAdd]
  rw [hfirst, hm 1 (by decide), hm 2 (by decide), hm 3 (by decide), hm 4 (by decide), hm 5 (by decide),
    hm 6 (by decide), hm 7 (by decide)]
  exact (GateDescriptor.decode_ofBytes ..).trans
    (GateDescriptor.ext hbase (ofHalfBytes_halfByte segSel) rfl rfl)

theorem idtSetEntry_run (hfit : (sym.entry index).toNat + 8 ≤ 2 ^ 32) :
    idtSetEntry sym index base segSel flags s =
      .ok ((), { s with mem := s.mem.fill (sym.entry index).toNat 8 (idtByte base segSel flags) }) := by
  have hrun : ∀ m : Flat, (let i := sym.entry index
        let m := s.mem.setByte i (halfByte ((base &&& 0xFFFF#32).setWidth 16) 0)
        let m := m.setByte (i + 1#32) (halfByte ((base &&& 0xFFFF#32).setWidth 16) 1)
        let m := m.setByte (i + 2#32) (halfByte segSel 0)
        let m := m.setByte (i + 2#32 + 1#32) (halfByte segSel 1)
        let m := m.setByte (i + 4#32) 0#8
        let m := m.setByte (i + 5#32) flags
        let m := m.setByte (i + 6#32) (halfByte (((base >>> 16) &&& 0xFFFF#32).setWidth 16) 0)
        m.setByte (i + 6#32 + 1#32) (halfByte (((base >>> 16) &&& 0xFFFF#32).setWidth 16) 1)) = m →
      idtSetEntry sym index base segSel flags s = .ok ((), { s with mem := m }) := by
    rintro _ rfl
    rfl
  obtain ⟨hlow₀, hlow₁, _, _⟩ := maskedBytes base
  obtain ⟨hhigh₀, hhigh₁, _, _⟩ := maskedBytes (base >>> 16)
  have hthird : sym.entry index + 2#32 + 1#32 = sym.entry index + 3#32 := by
    rw [BitVec.add_assoc]
    rfl
  have hseventh : sym.entry index + 6#32 + 1#32 = sym.entry index + 7#32 := by
    rw [BitVec.add_assoc]
    rfl
  have hshift : byteAt (base >>> 16) 0 = byteAt base 2 ∧ byteAt (base >>> 16) 1 = byteAt base 3 := by
    refine ⟨?_, ?_⟩ <;>
    · refine BitVec.eq_of_getLsbD_eq fun i hi => ?_
      rw [byteAt, byteAt]
      interval_cases i <;> simp
  refine hrun _ ?_
  simp only [hlow₀, hlow₁, hhigh₀, hhigh₁, hthird, hseventh, hshift]
  exact Flat.setByte_eight s.mem (idtByte base segSel flags) hfit

end Entry

/-! ## Reading back -/

section RoundTrip

variable {gdt : GdtSymbols} {idt : IdtSymbols} {index vector : Int}

/-- What is stored in an entry of either table decodes to what was asked for, and nothing else is
stored to. -/
theorem descriptors_roundTrip (hgdt : gdt.gGdt.toNat + gdtEntrySize * gdtDescriptors ≤ 2 ^ 32)
    (hidt : idt.gIdt.toNat + 8 * idtDescriptors ≤ 2 ^ 32) (hindex : 0 ≤ index) (hindexlt : index < gdtDescriptors)
    (hvector : 0 ≤ vector) (hvectorlt : vector < idtDescriptors)
    (hdebug : gdt.entry index - 0xC0000000#32 ≠ 0x001010D8#32) (base limit : Word) (access gran : Byte)
    (handler : Word) (segSel : Half) (flags : Byte) (s : Kernel Flat) :
    (Returns (gdtSetEntry gdt index base limit access gran) s fun _ s' =>
      s'.mem.segment (gdt.entry index) =
        { base := base, limit := limit.setWidth 20, access := access, flags := gran.extractLsb' 4 4 } ∧
      ∀ x, x ∉ Extent.ofLen (gdt.entry index).toNat 8 → s'.mem.ram x = s.mem.ram x) ∧
    Returns (idtSetEntry idt vector handler segSel flags) s fun _ s' =>
      s'.mem.gate (idt.entry vector) =
        { handler := handler, selector := segSel, flags := flags, reserved := 0#8 } ∧
      ∀ x, x ∉ Extent.ofLen (idt.entry vector).toNat 8 → s'.mem.ram x = s.mem.ram x := by
  have hentry : (gdt.entry index).toNat = _ := tableEntry_toNat hgdt hindex hindexlt
  have hgate : (idt.entry vector).toNat = _ := tableEntry_toNat hidt hvector hvectorlt
  unfold gdtDescriptors gdtEntrySize idtDescriptors at *
  refine ⟨.of_eq (gdtSetEntry_run (by omega) hdebug) ⟨?_, fun x hx => ?_⟩,
    .of_eq (idtSetEntry_run (by omega)) ⟨?_, fun x hx => ?_⟩⟩
  · exact decode_gdtByte (by omega) fun k hk => Bytes.fill_inside hk
  · rw [Extent.mem_ofLen] at hx
    exact Bytes.fill_outside (by omega)
  · exact decode_idtByte (by omega) fun k hk => Bytes.fill_inside hk
  · rw [Extent.mem_ofLen] at hx
    exact Bytes.fill_outside (by omega)

end RoundTrip

/-- A table of gates at the beginning of a page. -/
def tinyIdt : IdtSymbols := { gIdt := 0xC010B000#32 }

theorem descriptors_roundTrip_kernel :
    (Returns (gdtSetEntry tinyGdt 1 0#32 0xFFFFFFFF#32 0x9A#8 0xCF#8) (Kernel.reset Flat.zero) fun _ s' =>
      s'.mem.segment (tinyGdt.entry 1) = { base := 0#32, limit := 0xFFFFF#20, access := 0x9A#8, flags := 0xC#4 }) ∧
    Returns (idtSetEntry tinyIdt 128 0xC0101234#32 0x08#16 0x8E#8) (Kernel.reset Flat.zero) fun _ s' =>
      s'.mem.gate (tinyIdt.entry 128) =
        { handler := 0xC0101234#32, selector := 0x08#16, flags := 0x8E#8, reserved := 0#8 } := by
  obtain ⟨hsegment, hgate⟩ := @descriptors_roundTrip tinyGdt tinyIdt 1 128 tinyGdt_placed.table_fits (by decide)
    (by decide) (by decide) (by decide) (by decide) (by decide) 0#32 0xFFFFFFFF#32 0x9A#8 0xCF#8 0xC0101234#32
    0x08#16 0x8E#8 (.reset .zero)
  have hlimit : (0xFFFFFFFF#32).setWidth 20 = 0xFFFFF#20 := by decide
  have hflags : (0xCF#8).extractLsb' 4 4 = 0xC#4 := by decide
  refine ⟨hsegment.mono fun _ _ h => ?_, hgate.mono fun _ _ h => h.1⟩
  rw [h.1, hlimit, hflags]

end LizaOS
