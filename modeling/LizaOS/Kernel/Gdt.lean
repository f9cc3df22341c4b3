-- SUMMARY: The global descriptor table: how its entries are stored, and which of them the processor can load.
import LizaOS.Asm.Irq
import LizaOS.Libc.Stdio
import LizaOS.Libc.StringRun
import LizaOS.Logic.Extent
import LizaOS.Machine.Descriptor
import Mathlib.Tactic.IntervalCases

/-!
# The global descriptor table

`kernel/gdt.c`. The table and the pointer to it are objects of the kernel's own. The fields of an entry
are stored one by one, the granularity byte in two steps.
-/

namespace LizaOS

open Exec

/-! ## The code -/

section Code

variable {μ : Type} [Bus μ]

/-- A store to a `uint16`. -/
def store16 (a : Word) (h : Half) : K μ Unit := do
  store8 a (halfByte h 0)
  store8 (a + 1#32) (halfByte h 1)

/-- Where the linker has put the table and the pointer to it. -/
structure GdtSymbols where
  gGdt : Word
  gGdtPtr : Word

/-- `sizeof(GDT)` and `GDT_DESCRIPTORS`. -/
def gdtEntrySize : Nat := 8
def gdtDescriptors : Nat := 5

/-- `&g_gdt[index]` -/
def GdtSymbols.entry (sym : GdtSymbols) (index : Int) : Word := sym.gGdt + BitVec.ofInt 32 (gdtEntrySize * index)

def gdtSetEntry (sym : GdtSymbols) (index : Int) (base limit : Word) (access gran : Byte) : K μ Unit := do
  let g := sym.entry index
  store16 g ((limit &&& 0xFFFF#32).setWidth 16)
  store16 (g + 2#32) ((base &&& 0xFFFF#32).setWidth 16)
  store8 (g + 4#32) (((base >>> 16) &&& 0xFF#32).setWidth 8)
  store8 (g + 5#32) access
  store8 (g + 6#32) (((limit >>> 16) &&& 0x0F#32).setWidth 8)
  let granularity ← load8 (g + 6#32)
  store8 (g + 6#32) (granularity ||| (gran &&& 0xF0#8))
  store8 (g + 7#32) (((base >>> 24) &&& 0xFF#32).setWidth 8)
  if g - 0xC0000000#32 = 0x001010D8#32 then do
    kPrintfln (cstr "gdt %p") (slots [g - 0xC0000000#32])
    panic

/-- `gdt_init` up to `load_gdt`, which loads the pointer. -/
def gdtInit (sym : GdtSymbols) : K μ Unit := do
  -- `sizeof(g_gdt) * (GDT_DESCRIPTORS - 1)`
  store16 sym.gGdtPtr (BitVec.ofNat 16 (gdtEntrySize * gdtDescriptors * (gdtDescriptors - 1)))
  store32 (sym.gGdtPtr + 2#32) sym.gGdt
  gdtSetEntry sym 0 0#32 0#32 0#8 0#8
  gdtSetEntry sym 1 0#32 0xFFFFFFFF#32 0x9A#8 0xCF#8
  gdtSetEntry sym 2 0#32 0xFFFFFFFF#32 0x92#8 0xCF#8
  gdtSetEntry sym 3 0#32 0xFFFFFFFF#32 0xFA#8 0xCF#8
  gdtSetEntry sym 4 0#32 0xFFFFFFFF#32 0xF2#8 0xCF#8

end Code

/-- The limit and the base `lgdt` loads from `a`. -/
def Flat.gdtPtr (m : Flat) (a : Word) : Half × Word :=
  (ofHalfBytes (m.byte a) (m.byte (a + 1#32)), m.word (a + 2#32))

/-- The pointer depends on its six bytes only. -/
theorem Flat.gdtPtr_congr {m m' : Flat} {a : Word} (hfits : a.toNat + 6 ≤ 2 ^ 32)
    (hm : ∀ x, x ∈ Extent.ofLen a.toNat 6 → m'.ram x = m.ram x) : m'.gdtPtr a = m.gdtPtr a := by
  have hfirst : ∀ k, k < 6 → (a + BitVec.ofNat 32 k).toNat = a.toNat + k := fun k hk => toNat_add_ofNat (by omega)
  have hbyte : ∀ k, k < 6 → m'.byte (a + BitVec.ofNat 32 k) = m.byte (a + BitVec.ofNat 32 k) := by
    intro k hk
    rw [Flat.byte, Flat.byte, hfirst k hk]
    exact hm _ (Extent.mem_ofLen.mpr ⟨by omega, by omega⟩)
  have hword : m'.word (a + 2#32) = m.word (a + 2#32) := by
    have htwo := hfirst 2 (by decide)
    rw [Flat.word_eq (by omega), Flat.word_eq (by omega)]
    exact Bytes.read32_congr fun x _ _ => hm x (Extent.mem_ofLen.mpr ⟨by omega, by omega⟩)
  have hzero := hbyte 0 (by decide)
  rw [BitVec.add_zero] at hzero
  rw [Flat.gdtPtr, Flat.gdtPtr, hzero, hbyte 1 (by decide), hword]

/-- `load_gdt` loads the pointer it is called with. -/
theorem loadGdt_gdtr (callee : Cpu.Callee) (c : Cpu) :
    (Cpu.run callee loadGdt c).gdtr = c.mem.gdtPtr (c.mem.word (c.reg .esp + 4#32)) := rfl

/-! ## One entry -/

/-- The code takes a word apart with masks and shifts. -/
theorem maskedBytes (w : Word) :
    halfByte ((w &&& 0xFFFF#32).setWidth 16) 0 = byteAt w 0 ∧
      halfByte ((w &&& 0xFFFF#32).setWidth 16) 1 = byteAt w 1 ∧
      ((w >>> 16) &&& 0xFF#32).setWidth 8 = byteAt w 2 ∧ ((w >>> 24) &&& 0xFF#32).setWidth 8 = byteAt w 3 := by
  refine ⟨?_, ?_, ?_, ?_⟩ <;>
  · refine BitVec.eq_of_getLsbD_eq fun i hi => ?_
    rw [byteAt]
    interval_cases i <;> simp [halfByte]

/-- The granularity byte holds the last bits of the limit below the flags. -/
def granularity (limit : Word) (gran : Byte) : Byte :=
  ((limit >>> 16) &&& 0x0F#32).setWidth 8 ||| (gran &&& 0xF0#8)

theorem extract_granularity (limit : Word) (gran : Byte) :
    (granularity limit gran).extractLsb' 0 4 = limit.extractLsb' 16 4 ∧
      (granularity limit gran).extractLsb' 4 4 = gran.extractLsb' 4 4 := by
  refine ⟨?_, ?_⟩ <;>
  · refine BitVec.eq_of_getLsbD_eq fun i hi => ?_
    rw [granularity]
    interval_cases i <;> simp

/-- Byte `k` of an entry. -/
def gdtByte (base limit : Word) (access gran : Byte) (k : Nat) : Byte :=
  [byteAt limit 0, byteAt limit 1, byteAt base 0, byteAt base 1, byteAt base 2, access,
    granularity limit gran, byteAt base 3].getD k 0#8

/-- What an entry is for: a limit of 20 bits, and the high nibble of `gran`. -/
def segmentOf (base limit : Word) (access gran : Byte) : SegmentDescriptor where
  base := base
  limit := limit.setWidth 20
  access := access
  flags := gran.extractLsb' 4 4

/-- The bytes of an entry are those of its descriptor. -/
theorem decode_gdtByte {base limit : Word} {access gran : Byte} {m : Flat} {a : Word}
    (hfit : a.toNat + 8 ≤ 2 ^ 32)
    (hm : ∀ k, k < 8 → m.ram (a.toNat + k) = gdtByte base limit access gran k) :
    m.segment a = segmentOf base limit access gran := by
  obtain ⟨hlow, hhigh⟩ := Flat.words_eq hfit (m := m)
  obtain ⟨hnibble, hflags⟩ := extract_granularity limit gran
  have hfirst := hm 0 (by decide)
  rw [Nat.add_zero] at hfirst
  have hbase : ofBytes (byteAt base 0) (byteAt base 1) (byteAt base 2) (byteAt base 3) = base := ofBytes_byteAt base
  rw [Flat.segment, hlow, hhigh, Bytes.read32, Bytes.read32]
  simp only [Nat.add_assoc, Nat.reduceAdd]
  rw [hfirst, hm 1 (by decide), hm 2 (by decide), hm 3 (by decide), hm 4 (by decide), hm 5 (by decide),
    hm 6 (by decide), hm 7 (by decide)]
  have hlimit : (granularity limit gran).extractLsb' 0 4 ++ (byteAt limit 1 ++ byteAt limit 0) =
      limit.setWidth 20 := by
    have happend := @BitVec.extractLsb'_append_extractLsb'_eq_extractLsb' 32 16 0 16 4 limit rfl
    rw [hnibble, ← (extract_halves limit).1, happend]
    exact (BitVec.setWidth_eq_extractLsb' (by decide)).symm
  exact (SegmentDescriptor.decode_ofBytes ..).trans (SegmentDescriptor.ext hbase hlimit rfl hflags)

namespace Flat

@[simp] theorem byte_setByte (m : Flat) (a : Word) (b : Byte) : (m.setByte a b).byte a = b := Bytes.write8_same b

theorem setByte_setByte (m : Flat) (a : Word) (b b' : Byte) : (m.setByte a b).setByte a b' = m.setByte a b' := by
  rw [setByte, setByte, setByte]
  congr 1
  funext x
  by_cases hx : x = a.toNat <;> simp [Bytes.write8, hx]

/-- Eight bytes stored one after the other. -/
theorem setByte_eight (m : Flat) (f : Nat → Byte) {a : Word} (h : a.toNat + 8 ≤ 2 ^ 32) :
    (((((((m.setByte a (f 0)).setByte (a + 1#32) (f 1)).setByte (a + 2#32) (f 2)).setByte (a + 3#32) (f 3)).setByte
      (a + 4#32) (f 4)).setByte (a + 5#32) (f 5)).setByte (a + 6#32) (f 6)).setByte (a + 7#32) (f 7) =
      m.fill a.toNat 8 f := by
  have hstep : ∀ k, k < 8 →
      (m.fill a.toNat k f).setByte (a + BitVec.ofNat 32 k) (f k) = m.fill a.toNat (k + 1) f :=
    fun k hk => setByte_fill (by omega)
  have hzero := hstep 0 (by decide)
  rw [fill_zero, BitVec.add_zero] at hzero
  rw [hzero, hstep 1 (by decide), hstep 2 (by decide), hstep 3 (by decide), hstep 4 (by decide),
    hstep 5 (by decide), hstep 6 (by decide), hstep 7 (by decide)]

end Flat

section Entry

variable {sym : GdtSymbols} {index : Int} {base limit : Word} {access gran : Byte} {s s' : Kernel Flat}

/-- The eight bytes are stored, in front of the test that panics. -/
theorem gdtSetEntry_eq (hfit : (sym.entry index).toNat + 8 ≤ 2 ^ 32) :
    gdtSetEntry sym index base limit access gran s =
      (if sym.entry index - 0xC0000000#32 = 0x001010D8#32 then do
          kPrintfln (cstr "gdt %p") (slots [sym.entry index - 0xC0000000#32])
          panic
        else pure () : K Flat Unit)
        { s with mem := s.mem.fill (sym.entry index).toNat 8 (gdtByte base limit access gran) } := by
  have hrun : ∀ m : Flat, (let g := sym.entry index
        let m := s.mem.setByte g (halfByte ((limit &&& 0xFFFF#32).setWidth 16) 0)
        let m := m.setByte (g + 1#32) (halfByte ((limit &&& 0xFFFF#32).setWidth 16) 1)
        let m := m.setByte (g + 2#32) (halfByte ((base &&& 0xFFFF#32).setWidth 16) 0)
        let m := m.setByte (g + 2#32 + 1#32) (halfByte ((base &&& 0xFFFF#32).setWidth 16) 1)
        let m := m.setByte (g + 4#32) (((base >>> 16) &&& 0xFF#32).setWidth 8)
        let m := m.setByte (g + 5#32) access
        let m := m.setByte (g + 6#32) (((limit >>> 16) &&& 0x0F#32).setWidth 8)
        let m := m.setByte (g + 6#32) (m.byte (g + 6#32) ||| (gran &&& 0xF0#8))
        m.setByte (g + 7#32) (((base >>> 24) &&& 0xFF#32).setWidth 8)) = m →
      gdtSetEntry sym index base limit access gran s =
        (if sym.entry index - 0xC0000000#32 = 0x001010D8#32 then do
            kPrintfln (cstr "gdt %p") (slots [sym.entry index - 0xC0000000#32])
            panic
          else pure () : K Flat Unit) { s with mem := m } := by
    rintro _ rfl
    rfl
  obtain ⟨hlimit₀, hlimit₁, _, _⟩ := maskedBytes limit
  obtain ⟨hbase₀, hbase₁, hbase₂, hbase₃⟩ := maskedBytes base
  have hnext : sym.entry index + 2#32 + 1#32 = sym.entry index + 3#32 := by rw [BitVec.add_assoc]; rfl
  refine hrun _ ?_
  simp only [hlimit₀, hlimit₁, hbase₀, hbase₁, hbase₂, hbase₃, hnext]
  rw [Flat.byte_setByte, Flat.setByte_setByte]
  exact Flat.setByte_eight s.mem (gdtByte base limit access gran) hfit

/-- An entry that is not at the address the code is looking for. -/
theorem gdtSetEntry_run (hfit : (sym.entry index).toNat + 8 ≤ 2 ^ 32)
    (hdebug : sym.entry index - 0xC0000000#32 ≠ 0x001010D8#32) :
    gdtSetEntry sym index base limit access gran s =
      .ok ((), { s with mem := s.mem.fill (sym.entry index).toNat 8 (gdtByte base limit access gran) }) := by
  rw [gdtSetEntry_eq hfit, if_neg hdebug]
  rfl

/-- A call comes back only for such an entry. -/
theorem gdtSetEntry_ok (hfit : (sym.entry index).toNat + 8 ≤ 2 ^ 32)
    (hrun : gdtSetEntry sym index base limit access gran s = .ok ((), s')) :
    s' = { s with mem := s.mem.fill (sym.entry index).toNat 8 (gdtByte base limit access gran) } := by
  by_cases hdebug : sym.entry index - 0xC0000000#32 = 0x001010D8#32
  · rw [gdtSetEntry_eq hfit, if_pos hdebug] at hrun
    obtain ⟨_, _, _, hpanic⟩ := bind_ok.mp hrun
    cases hpanic
  · rw [gdtSetEntry_run hfit hdebug] at hrun
    cases hrun
    rfl

end Entry

/-! ## The table -/

/-- A call of `gdt_set_entry`. -/
structure GdtCall where
  index : Int
  base : Word
  limit : Word
  access : Byte
  gran : Byte
  deriving DecidableEq, Repr

namespace GdtCall

def run {μ : Type} [Bus μ] (sym : GdtSymbols) (c : GdtCall) : K μ Unit :=
  gdtSetEntry sym c.index c.base c.limit c.access c.gran

/-- The index is one of the table. -/
def InRange (c : GdtCall) : Prop := 0 ≤ c.index ∧ c.index < gdtDescriptors

instance (c : GdtCall) : Decidable c.InRange := inferInstanceAs (Decidable (_ ∧ _))

def segment (c : GdtCall) : SegmentDescriptor := segmentOf c.base c.limit c.access c.gran

end GdtCall

/-- The calls `gdt_init` makes. -/
def gdtInitCalls : List GdtCall :=
  [⟨0, 0#32, 0#32, 0#8, 0#8⟩, ⟨1, 0#32, 0xFFFFFFFF#32, 0x9A#8, 0xCF#8⟩, ⟨2, 0#32, 0xFFFFFFFF#32, 0x92#8, 0xCF#8⟩,
    ⟨3, 0#32, 0xFFFFFFFF#32, 0xFA#8, 0xCF#8⟩, ⟨4, 0#32, 0xFFFFFFFF#32, 0xF2#8, 0xCF#8⟩]

/-- `gdt_init`, and calls of `gdt_set_entry` behind it. -/
def gdtRun {μ : Type} [Bus μ] (sym : GdtSymbols) (calls : List GdtCall) : K μ Unit := do
  gdtInit sym
  calls.forM (GdtCall.run sym)

/-- The last call for an index. -/
def lastSet (calls : List GdtCall) (n : Nat) : Option GdtCall := calls.reverse.find? fun c => c.index = n

theorem lastSet_append (calls : List GdtCall) (c : GdtCall) (n : Nat) :
    lastSet (calls ++ [c]) n = if c.index = n then some c else lastSet calls n := by
  rw [lastSet, List.reverse_append, List.reverse_singleton, List.singleton_append, List.find?_cons]
  by_cases h : c.index = n <;> simp [h, lastSet]

/-- Where an entry of a table of descriptors is. -/
theorem tableEntry_toNat {table : Word} {count : Nat} {index : Int} (hfits : table.toNat + 8 * count ≤ 2 ^ 32)
    (hindex : 0 ≤ index) (hlt : index < count) :
    (table + BitVec.ofInt 32 ((8 : Nat) * index)).toNat = table.toNat + 8 * index.toNat := by
  have hoffset : BitVec.ofInt 32 ((8 : Nat) * index) = BitVec.ofNat 32 (8 * index.toNat) := by
    rw [← BitVec.ofInt_natCast]
    congr 1
    omega
  rw [hoffset]
  exact toNat_add_ofNat (by omega)

namespace GdtSymbols

/-- `g_gdt` and `g_gdt_ptr` -/
def table (sym : GdtSymbols) : Extent := .ofLen sym.gGdt.toNat (gdtEntrySize * gdtDescriptors)
def pointer (sym : GdtSymbols) : Extent := .ofLen sym.gGdtPtr.toNat 6

/-- Two objects of the kernel. -/
structure Placed (sym : GdtSymbols) : Prop where
  table_fits : sym.gGdt.toNat + gdtEntrySize * gdtDescriptors ≤ 2 ^ 32
  pointer_fits : sym.gGdtPtr.toNat + 6 ≤ 2 ^ 32
  apart : sym.table.Disjoint sym.pointer

theorem Placed.entry_toNat {sym : GdtSymbols} (h : sym.Placed) {index : Int} (hindex : 0 ≤ index)
    (hlt : index < gdtDescriptors) : (sym.entry index).toNat = sym.gGdt.toNat + 8 * index.toNat :=
  tableEntry_toNat h.table_fits hindex hlt

end GdtSymbols

section Table

variable {sym : GdtSymbols} {s s' : Kernel Flat} {m m' : Flat} {sets calls : List GdtCall} {c : GdtCall} {n : Nat}

theorem gdtPtr_congr (h : sym.Placed) (hm : ∀ x, x ∈ sym.pointer → m'.ram x = m.ram x) :
    m'.gdtPtr sym.gGdtPtr = m.gdtPtr sym.gGdtPtr := Flat.gdtPtr_congr h.pointer_fits hm

/-- The pointer is what `gdt_init` has made it, and the entries are as they have been set. -/
structure GdtHolds (sym : GdtSymbols) (sets : List GdtCall) (m : Flat) : Prop where
  pointer : m.gdtPtr sym.gGdtPtr = (160#16, sym.gGdt)
  entry : ∀ (n : Nat) (c : GdtCall), n < gdtDescriptors → lastSet sets n = some c →
    m.segment (sym.entry n) = c.segment

/-- A call sets its entry and keeps the others. -/
theorem GdtHolds.step (h : GdtHolds sym sets s.mem) (hsym : sym.Placed) (hc : c.InRange)
    (hrun : c.run sym s = .ok ((), s')) : GdtHolds sym (sets ++ [c]) s'.mem := by
  obtain ⟨hindex, hlt⟩ := hc
  have hfits := hsym.table_fits
  have hentry := hsym.entry_toNat hindex hlt
  have hother : ∀ n : Nat, n < gdtDescriptors → (sym.entry n).toNat = sym.gGdt.toNat + 8 * n := fun n hn =>
    hsym.entry_toNat (Int.natCast_nonneg n) (by exact_mod_cast hn)
  unfold gdtDescriptors gdtEntrySize at *
  have hmem := gdtSetEntry_ok (by omega) hrun
  subst hmem
  constructor
  · rw [gdtPtr_congr hsym fun x hx => ?_]
    · exact h.pointer
    · have hapart := hsym.apart.symm.not_mem hx
      rw [GdtSymbols.table, Extent.mem_ofLen, gdtEntrySize, gdtDescriptors] at hapart
      exact Bytes.fill_outside (by omega)
  · intro n c' hn hlast
    rw [lastSet_append] at hlast
    have hn5 : n < 5 := hn
    have hn' := hother n hn5
    split at hlast
    · rename_i heq
      cases hlast
      rw [← heq]
      refine decode_gdtByte (by omega) fun k hk => ?_
      exact Bytes.fill_inside hk
    · rename_i hne
      refine (Flat.segment_congr (by omega) fun x hx hx' => ?_).trans (h.entry n c' hn hlast)
      exact Bytes.fill_outside (by omega)

/-- Any number of calls. -/
theorem GdtHolds.forM (h : GdtHolds sym sets s.mem) (hsym : sym.Placed) (hcalls : ∀ c ∈ calls, c.InRange)
    (hrun : calls.forM (GdtCall.run sym) s = .ok ((), s')) : GdtHolds sym (sets ++ calls) s'.mem := by
  induction calls generalizing sets s with
  | nil =>
      cases hrun
      rwa [List.append_nil]
  | cons c calls ih =>
      obtain ⟨_, s₁, hcall, hrest⟩ := bind_ok.mp hrun
      have hnext := h.step hsym (hcalls c (List.mem_cons_self ..)) hcall
      have hall := ih hnext (fun d hd => hcalls d (List.mem_cons_of_mem c hd)) hrest
      rwa [List.append_assoc, List.singleton_append] at hall

theorem store16_mem {a : Word} {h : Half} (hrun : store16 a h s = .ok ((), s')) :
    s'.mem = (s.mem.setByte a (halfByte h 0)).setByte (a + 1#32) (halfByte h 1) := by
  cases hrun
  rfl

theorem store32_mem {a w : Word} (hrun : store32 a w none s = .ok ((), s')) : s'.mem = s.mem.setWord a w := by
  cases hrun
  rfl

/-- The pointer is stored first. -/
theorem gdtPtr_stored (m : Flat) (p w : Word) (h : Half) :
    (((m.setByte p (halfByte h 0)).setByte (p + 1#32) (halfByte h 1)).setWord (p + 2#32) w).gdtPtr p = (h, w) := by
  have hone : (p + 1#32).toNat ≠ p.toNat := by bv_omega
  have hfirst : ((m.setByte p (halfByte h 0)).setByte (p + 1#32) (halfByte h 1)).byte p = halfByte h 0 :=
    (Bytes.write8_other hone.symm).trans (Flat.byte_setByte _ _ _)
  rw [Flat.gdtPtr, Flat.byte_setWord_other (by bv_omega), Flat.byte_setWord_other (by bv_omega), hfirst,
    Flat.byte_setByte, ofHalfBytes_halfByte, Flat.word_setWord_same]

/-- `gdt_init` is made of the pointer and calls. -/
theorem gdtInit_eq (sym : GdtSymbols) : gdtInit sym = (do
    store16 sym.gGdtPtr 160#16
    store32 (sym.gGdtPtr + 2#32) sym.gGdt
    gdtInitCalls.forM (GdtCall.run sym) : K Flat Unit) := by
  simp [gdtInit, gdtInitCalls, GdtCall.run, gdtEntrySize, gdtDescriptors]

theorem gdtInit_holds (hsym : sym.Placed) (hrun : gdtInit sym s = .ok ((), s')) :
    GdtHolds sym gdtInitCalls s'.mem := by
  rw [gdtInit_eq] at hrun
  obtain ⟨_, s₁, hlimit, hrun⟩ := bind_ok.mp hrun
  obtain ⟨_, s₂, hbase, hcalls⟩ := bind_ok.mp hrun
  have hstart : GdtHolds sym [] s₂.mem := by
    refine ⟨?_, fun _ _ _ h => ?_⟩
    · rw [store32_mem hbase, store16_mem hlimit]
      exact gdtPtr_stored s.mem sym.gGdtPtr sym.gGdt 160#16
    · cases h
  exact hstart.forM hsym (by decide) hcalls

/-! ## Loading a selector -/

/-- Where the processor finds descriptor `n`. -/
def descriptorAt (sym : GdtSymbols) (m : Flat) (n : Nat) : Word :=
  (m.gdtPtr sym.gGdtPtr).2 + BitVec.ofNat 32 (gdtEntrySize * n)

/-- The eight bytes the processor reads for index `n` are of the table, and make up the descriptor that was
set last. -/
structure LoadsOwn (sym : GdtSymbols) (sets : List GdtCall) (m : Flat) (n : Nat) : Prop where
  inside : ∀ k, k < 8 → (descriptorAt sym m n + BitVec.ofNat 32 k).toNat ∈ sym.table
  decodes : (lastSet sets n).map GdtCall.segment = some (m.segment (descriptorAt sym m n))
  alone : ∀ m' : Flat, (∀ x, x ∈ sym.table → m'.ram x = m.ram x) →
    m'.segment (descriptorAt sym m n) = m.segment (descriptorAt sym m n)

/-- `gdt_init` has set each entry. -/
theorem lastSet_init (calls : List GdtCall) (hn : n < gdtDescriptors) :
    ∃ c, lastSet (gdtInitCalls ++ calls) n = some c := by
  have hinit : ∀ n, n < 5 → (lastSet gdtInitCalls n).isSome := by decide
  have happend : lastSet (gdtInitCalls ++ calls) n = (lastSet calls n).or (lastSet gdtInitCalls n) := by
    rw [lastSet, List.reverse_append, List.find?_append]
    rfl
  rw [happend]
  cases lastSet calls n with
  | some c => exact ⟨c, rfl⟩
  | none => exact Option.isSome_iff_exists.mp (hinit n hn)

theorem GdtHolds.descriptorAt_eq (h : GdtHolds sym sets m) (n : Nat) :
    descriptorAt sym m n = sym.gGdt + BitVec.ofNat 32 (8 * n) ∧ descriptorAt sym m n = sym.entry n := by
  have hoffset : BitVec.ofInt 32 ((gdtEntrySize : Int) * n) = BitVec.ofNat 32 (gdtEntrySize * n) := by
    rw [← BitVec.ofInt_natCast, Int.natCast_mul]
  rw [descriptorAt, h.pointer, GdtSymbols.entry, hoffset]
  exact ⟨rfl, rfl⟩

theorem GdtHolds.loadsOwn (h : GdtHolds sym (gdtInitCalls ++ calls) m) (hsym : sym.Placed)
    (hn : n < gdtDescriptors) : LoadsOwn sym (gdtInitCalls ++ calls) m n := by
  have hfits := hsym.table_fits
  have hentry := hsym.entry_toNat (Int.natCast_nonneg n) (by exact_mod_cast hn)
  obtain ⟨_, hat⟩ := h.descriptorAt_eq n
  obtain ⟨c, hlast⟩ := lastSet_init calls hn
  have hdecodes := h.entry n c hn hlast
  have hmem : ∀ x, (sym.entry n).toNat ≤ x → x < (sym.entry n).toNat + 8 → x ∈ sym.table := by
    intro x _ _
    rw [GdtSymbols.table, Extent.mem_ofLen]
    unfold gdtDescriptors gdtEntrySize at *
    omega
  unfold gdtDescriptors at hfits hn
  unfold gdtEntrySize at hfits
  constructor
  · intro k hk
    rw [hat, toNat_add_ofNat (by omega)]
    exact hmem _ (by omega) (by omega)
  · rw [hat, hlast, hdecodes]
    rfl
  · intro m' hm
    rw [hat]
    exact Flat.segment_congr (by omega) fun x hx hx' => hm x (hmem x hx hx')

/-- The descriptors behind the table are other memory. -/
theorem GdtHolds.not_loadsOwn (h : GdtHolds sym sets m) (hsym : sym.Placed) (hn : gdtDescriptors ≤ n)
    (hlast : 8 * n + 7 ≤ 160) : ¬LoadsOwn sym sets m n := by
  intro hown
  obtain ⟨hat, _⟩ := h.descriptorAt_eq n
  have hfits := hsym.table_fits
  have hlt := sym.gGdt.isLt
  have hinside := hown.inside 0 (by decide)
  rw [BitVec.add_zero, hat, GdtSymbols.table, Extent.mem_ofLen, BitVec.toNat_add, BitVec.toNat_ofNat] at hinside
  unfold gdtDescriptors gdtEntrySize at *
  omega

/-- The limit published is too large: a selector the processor accepts is for a descriptor of the table
exactly if its index is. -/
theorem loadsOwn_iff (hsym : sym.Placed) (hcalls : ∀ c ∈ calls, c.InRange)
    (hrun : gdtRun sym calls s = .ok ((), s'))
    (haccepted : 8 * n + 7 ≤ (s'.mem.gdtPtr sym.gGdtPtr).1.toNat) :
    LoadsOwn sym (gdtInitCalls ++ calls) s'.mem n ↔ n < gdtDescriptors := by
  obtain ⟨_, s₁, hinit, hrest⟩ := bind_ok.mp hrun
  have hholds := (gdtInit_holds hsym hinit).forM hsym hcalls hrest
  have hlimit : (160#16).toNat = 160 := rfl
  rw [hholds.pointer, hlimit] at haccepted
  refine ⟨fun h => ?_, hholds.loadsOwn hsym⟩
  exact Nat.lt_of_not_le fun hn => hholds.not_loadsOwn hsym hn haccepted h

/-- The calls come back if no entry is at the address the code is looking for. -/
theorem gdtCalls_returns (hsym : sym.Placed)
    (hdebug : ∀ n : Nat, n < gdtDescriptors → sym.entry n - 0xC0000000#32 ≠ 0x001010D8#32)
    (hcalls : ∀ c ∈ calls, c.InRange) (s : Kernel Flat) :
    ∃ s', calls.forM (GdtCall.run sym) s = .ok ((), s') := by
  induction calls generalizing s with
  | nil => exact ⟨s, rfl⟩
  | cons c calls ih =>
      obtain ⟨hindex, hlt⟩ := hcalls c (List.mem_cons_self ..)
      have hfits := hsym.table_fits
      have hentry := hsym.entry_toNat hindex hlt
      have hnat : ((c.index.toNat : Nat) : Int) = c.index := Int.toNat_of_nonneg hindex
      have hnot := hdebug c.index.toNat (by omega)
      rw [hnat] at hnot
      unfold gdtDescriptors gdtEntrySize at *
      have hcall := @gdtSetEntry_run sym c.index c.base c.limit c.access c.gran s (by omega) hnot
      obtain ⟨s', hrest⟩ := ih (fun d hd => hcalls d (List.mem_cons_of_mem c hd)) _
      exact ⟨s', bind_ok.mpr ⟨_, _, hcall, hrest⟩⟩

theorem gdtRun_returns (hsym : sym.Placed)
    (hdebug : ∀ n : Nat, n < gdtDescriptors → sym.entry n - 0xC0000000#32 ≠ 0x001010D8#32)
    (hcalls : ∀ c ∈ calls, c.InRange) (s : Kernel Flat) : ∃ s', gdtRun sym calls s = .ok ((), s') := by
  obtain ⟨s₁, hinit⟩ : ∃ s₁, gdtInit sym s = .ok ((), s₁) := by
    obtain ⟨s₁, hinit⟩ := gdtCalls_returns hsym hdebug (by decide : ∀ c ∈ gdtInitCalls, c.InRange) _
    refine ⟨s₁, ?_⟩
    rw [gdtInit_eq]
    exact bind_ok.mpr ⟨_, _, rfl, bind_ok.mpr ⟨_, _, rfl, hinit⟩⟩
  obtain ⟨s', hrest⟩ := gdtCalls_returns hsym hdebug hcalls s₁
  exact ⟨s', bind_ok.mpr ⟨_, _, hinit, hrest⟩⟩

end Table

/-- The table at the end of a page, and the pointer behind it. -/
def tinyGdt : GdtSymbols := { gGdt := 0xC0109FD0#32, gGdtPtr := 0xC010A000#32 }

theorem tinyGdt_placed : tinyGdt.Placed := by
  constructor <;> decide

/-- A data segment is set, and loaded. -/
theorem loadsOwn_iff_data : ∃ s', gdtRun tinyGdt [⟨2, 0x1000#32, 0xFFFFF#32, 0x92#8, 0xC0#8⟩] (.reset .zero) =
      .ok ((), s') ∧
    LoadsOwn tinyGdt (gdtInitCalls ++ [⟨2, 0x1000#32, 0xFFFFF#32, 0x92#8, 0xC0#8⟩]) s'.mem 2 := by
  have hcalls : ∀ c ∈ [(⟨2, 0x1000#32, 0xFFFFF#32, 0x92#8, 0xC0#8⟩ : GdtCall)], c.InRange := by decide
  obtain ⟨s', hrun⟩ := gdtRun_returns tinyGdt_placed (by decide) hcalls (.reset .zero)
  obtain ⟨_, s₁, hinit, hrest⟩ := bind_ok.mp hrun
  have hholds := (gdtInit_holds tinyGdt_placed hinit).forM tinyGdt_placed hcalls hrest
  refine ⟨s', hrun, (loadsOwn_iff tinyGdt_placed hcalls hrun ?_).mpr (by decide)⟩
  rw [hholds.pointer]
  decide

/-- The selector 0x28 is accepted, and its descriptor is behind the table. -/
theorem not_loadsOwn_behind : ∃ s', gdtRun tinyGdt [] (.reset .zero) = .ok ((), s') ∧
    8 * 5 + 7 ≤ (s'.mem.gdtPtr tinyGdt.gGdtPtr).1.toNat ∧ ¬LoadsOwn tinyGdt (gdtInitCalls ++ []) s'.mem 5 := by
  have hcalls : ∀ c ∈ ([] : List GdtCall), c.InRange := by decide
  obtain ⟨s', hrun⟩ := gdtRun_returns tinyGdt_placed (by decide) hcalls (.reset .zero)
  obtain ⟨_, s₁, hinit, hrest⟩ := bind_ok.mp hrun
  have hholds := (gdtInit_holds tinyGdt_placed hinit).forM tinyGdt_placed hcalls hrest
  refine ⟨s', hrun, ?_, hholds.not_loadsOwn tinyGdt_placed (by decide) (by decide)⟩
  rw [hholds.pointer]
  decide

end LizaOS
