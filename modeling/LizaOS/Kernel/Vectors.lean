-- SUMMARY: The interrupt table as `idt_init` leaves it, and the stub each vector gets to through it.
import LizaOS.Kernel.Idt
import LizaOS.Kernel.IrqLines

/-!
# Vectors

`idt_init`, with any calls of `idt_set_entry` behind it. The processor looks a vector up in the table it has been
given; where it finds no gate it raises an exception, which goes through the table as well.
-/

namespace LizaOS

open Exec

/-! ## The processor -/

namespace Flat

/-- The gate of a vector: the exceptions are those for an entry behind the limit and for one that is not present. -/
def vectored (m : Flat) (idtr : Half × Word) (v : Nat) : Except Nat GateDescriptor :=
  if 8 * v + 7 ≤ idtr.1.toNat then
    let g := m.gate (idtr.2 + BitVec.ofNat 32 (8 * v))
    if g.flags.getLsbD 7 then .ok g else .error 11
  else .error 13

/-- Where the processor goes on. An exception while it looks for the gate of an exception is a double fault, and
with none for that it is reset. -/
def entered (m : Flat) (idtr : Half × Word) (v : Nat) : Option Word :=
  match m.vectored idtr v with
  | .ok g => some g.handler
  | .error e =>
      match m.vectored idtr e with
      | .ok g => some g.handler
      | .error _ =>
          match m.vectored idtr 8 with
          | .ok g => some g.handler
          | .error _ => none

end Flat

/-! ## The code -/

/-- Where the linker has put the table, the pointer to it and the stubs: `exception_0` and so on, `irq_0` and so on,
and `exception_128`. -/
structure IdtLabels extends IdtSymbols where
  gIdtPtr : Word
  stub : Gate → Word

/-- A call of `idt_set_entry`. -/
structure IdtCall where
  index : Int
  base : Word
  segSel : Half
  flags : Byte
  deriving DecidableEq, Repr

namespace IdtCall

def run {μ : Type} [Bus μ] (sym : IdtSymbols) (c : IdtCall) : K μ Unit :=
  idtSetEntry sym c.index c.base c.segSel c.flags

/-- The index is one of the table. -/
def InRange (c : IdtCall) : Prop := 0 ≤ c.index ∧ c.index < idtDescriptors

instance (c : IdtCall) : Decidable c.InRange := inferInstanceAs (Decidable (_ ∧ _))

def gate (c : IdtCall) : GateDescriptor := gateOf c.base c.segSel c.flags

end IdtCall

/-- The call `idt_init` makes for a stub. -/
def IdtLabels.call (sym : IdtLabels) (g : Gate) : IdtCall := ⟨g.vector, sym.stub g, 0x08#16, 0x8E#8⟩

/-- The stubs in the order of the calls. -/
def idtStubs : List Gate := (List.finRange 32).map .exception ++ (List.finRange 16).map .irq ++ [.system]

/-- `idt_init` up to `load_idt`, which loads the pointer. -/
def idtInit {μ : Type} [Bus μ] (sym : IdtLabels) : K μ Unit := do
  store32 (sym.gIdtPtr + 2#32) sym.gIdt
  -- `sizeof(g_idt) * (IDT_DESCRIPTORS - 1)`
  store16 sym.gIdtPtr (BitVec.ofNat 16 (8 * idtDescriptors * (idtDescriptors - 1)))
  (idtStubs.map sym.call).forM (IdtCall.run sym.toIdtSymbols)

/-- `idt_init`, and calls of `idt_set_entry` behind it. -/
def idtRun {μ : Type} [Bus μ] (sym : IdtLabels) (calls : List IdtCall) : K μ Unit := do
  idtInit sym
  calls.forM (IdtCall.run sym.toIdtSymbols)

/-- The last call for an index. -/
def lastGate (calls : List IdtCall) (n : Nat) : Option IdtCall := calls.reverse.find? fun c => c.index = n

/-! ## The stubs -/

section Stubs

variable {v : Nat}

theorem Gate.at_vector (g : Gate) : Gate.at g.vector = g := by
  cases g with
  | exception v => exact dif_pos v.isLt
  | irq n => exact Gate.at_irq n
  | system => rfl

theorem Gate.vector_at (h : v < 48 ∨ v = 128) : (Gate.at v).vector = v := by
  unfold Gate.at
  split
  · rfl
  · split
    · next hge _ =>
      exact Nat.add_sub_cancel' (Nat.le_of_not_lt hge)
    · next hlt => rw [if_pos (h.resolve_left hlt), h.resolve_left hlt, Gate.vector]

theorem Gate.vector_cases (g : Gate) : g.vector < 48 ∨ g.vector = 128 := by
  cases g with
  | exception v => exact .inl (Nat.lt_trans v.isLt (by decide))
  | irq n => exact .inl (Nat.add_lt_add_left n.isLt 32)
  | system => exact .inr rfl

/-- No stub is left out. -/
theorem mem_idtStubs (g : Gate) : g ∈ idtStubs := by
  rw [idtStubs, List.mem_append, List.mem_append]
  cases g with
  | exception v => exact .inl (.inl (List.mem_map_of_mem (List.mem_finRange v)))
  | irq n => exact .inl (.inr (List.mem_map_of_mem (List.mem_finRange n)))
  | system => exact .inr (List.mem_singleton.mpr rfl)

theorem idtStubs_inRange (sym : IdtLabels) : ∀ c ∈ idtStubs.map sym.call, c.InRange := by
  intro c hc
  obtain ⟨g, _, rfl⟩ := List.mem_map.mp hc
  have hvector := g.vector_cases
  rw [IdtCall.InRange, IdtLabels.call, idtDescriptors]
  dsimp only
  omega

end Stubs

/-! ## The table -/

namespace IdtLabels

/-- `g_idt` and `g_idt_ptr` -/
def table (sym : IdtLabels) : Extent := .ofLen sym.gIdt.toNat (8 * idtDescriptors)
def pointer (sym : IdtLabels) : Extent := .ofLen sym.gIdtPtr.toNat 6

/-- Two objects of the kernel. -/
structure Placed (sym : IdtLabels) : Prop where
  table_fits : sym.gIdt.toNat + 8 * idtDescriptors ≤ 2 ^ 32
  pointer_fits : sym.gIdtPtr.toNat + 6 ≤ 2 ^ 32
  apart : sym.table.Disjoint sym.pointer

theorem Placed.entry_toNat {sym : IdtLabels} (h : sym.Placed) {index : Int} (hindex : 0 ≤ index)
    (hlt : index < idtDescriptors) : (sym.entry index).toNat = sym.gIdt.toNat + 8 * index.toNat :=
  tableEntry_toNat h.table_fits hindex hlt

end IdtLabels

/-- The pointer is what `idt_init` has made it, the entries are as they have been set, and all else is as it was. -/
structure IdtHolds (sym : IdtLabels) (m₀ : Flat) (sets : List IdtCall) (m : Flat) : Prop where
  pointer : m.gdtPtr sym.gIdtPtr = (0xF800#16, sym.gIdt)
  entry : ∀ n : Nat, n < idtDescriptors →
    m.gate (sym.entry n) = ((lastGate sets n).map IdtCall.gate).getD (m₀.gate (sym.entry n))
  outside : ∀ x, x ∉ sym.table → x ∉ sym.pointer → m.ram x = m₀.ram x

section Table

variable {sym : IdtLabels} {m₀ : Flat} {s : Kernel Flat} {sets calls : List IdtCall} {c : IdtCall} {n : Nat}

theorem lastGate_append (calls : List IdtCall) (c : IdtCall) (n : Nat) :
    lastGate (calls ++ [c]) n = if c.index = n then some c else lastGate calls n := by
  rw [lastGate, List.reverse_append, List.reverse_singleton, List.singleton_append, List.find?_cons]
  by_cases h : c.index = n <;> simp [h, lastGate]

/-- A call sets its entry and keeps the others. -/
theorem IdtHolds.step (h : IdtHolds sym m₀ sets s.mem) (hsym : sym.Placed) (hc : c.InRange) :
    ∃ s', c.run sym.toIdtSymbols s = .ok ((), s') ∧ IdtHolds sym m₀ (sets ++ [c]) s'.mem := by
  obtain ⟨hindex, hlt⟩ := hc
  have hfits := hsym.table_fits
  have hentry := hsym.entry_toNat hindex hlt
  have hother : ∀ n : Nat, n < idtDescriptors → (sym.entry n).toNat = sym.gIdt.toNat + 8 * n := fun n hn =>
    hsym.entry_toNat (Int.natCast_nonneg n) (by exact_mod_cast hn)
  have htable : ∀ x, x ∉ sym.table → x < sym.gIdt.toNat ∨ sym.gIdt.toNat + 8 * idtDescriptors ≤ x := by
    intro x hx
    rw [IdtLabels.table, Extent.mem_ofLen] at hx
    omega
  unfold idtDescriptors at *
  refine ⟨_, idtSetEntry_run (by omega), ?_, fun n hn => ?_, fun x hx hx' => ?_⟩
  · rw [← h.pointer]
    refine Flat.gdtPtr_congr hsym.pointer_fits fun x hx => ?_
    have hapart := htable x (hsym.apart.symm.not_mem hx)
    exact Bytes.fill_outside (by omega)
  · unfold idtDescriptors at hn
    have hn' := hother n hn
    rw [lastGate_append]
    by_cases heq : c.index = n
    · rw [if_pos heq, ← heq]
      exact decode_idtByte (by omega) fun k hk => Bytes.fill_inside hk
    · rw [if_neg heq, ← h.entry n hn]
      exact Flat.gate_congr (by omega) fun x hx hx' => Bytes.fill_outside (by omega)
  · have hx'' := htable x hx
    rw [← h.outside x hx hx']
    exact Bytes.fill_outside (by omega)

/-- Any number of calls. -/
theorem IdtHolds.forM (h : IdtHolds sym m₀ sets s.mem) (hsym : sym.Placed) (hcalls : ∀ c ∈ calls, c.InRange) :
    ∃ s', calls.forM (IdtCall.run sym.toIdtSymbols) s = .ok ((), s') ∧ IdtHolds sym m₀ (sets ++ calls) s'.mem := by
  induction calls generalizing sets s with
  | nil => exact ⟨s, rfl, by rwa [List.append_nil]⟩
  | cons c calls ih =>
      obtain ⟨s₁, hcall, h₁⟩ := h.step hsym (hcalls c (List.mem_cons_self ..))
      obtain ⟨s', hrest, h'⟩ := ih h₁ fun d hd => hcalls d (List.mem_cons_of_mem c hd)
      rw [List.append_assoc, List.singleton_append] at h'
      exact ⟨s', bind_ok.mpr ⟨_, _, hcall, hrest⟩, h'⟩

/-- The pointer is stored with its base first. -/
theorem Flat.idtPtr_stored (m : Flat) (p w : Word) (h : Half) :
    (((m.setWord (p + 2#32) w).setByte p (halfByte h 0)).setByte (p + 1#32) (halfByte h 1)).gdtPtr p = (h, w) := by
  have hword : ∀ (a : Word) (b : Byte), (∀ k, k < 4 → a ≠ p + 2#32 + BitVec.ofNat 32 k) → ∀ m : Flat,
      (m.setByte a b).word (p + 2#32) = m.word (p + 2#32) := by
    intro a b ha m
    have hbyte : ∀ k, k < 4 → (m.setByte a b).byte (p + 2#32 + BitVec.ofNat 32 k) =
        m.byte (p + 2#32 + BitVec.ofNat 32 k) := fun k hk =>
      Bytes.write8_other fun heq => ha k hk (BitVec.eq_of_toNat_eq heq.symm)
    have hzero := hbyte 0 (by decide)
    rw [BitVec.add_zero] at hzero
    rw [Flat.word, Flat.word, hzero, hbyte 1 (by decide), hbyte 2 (by decide), hbyte 3 (by decide)]
  have hfirst : p ≠ p + 1#32 := by bv_omega
  have hapart : ∀ k, k < 4 → p ≠ p + 2#32 + BitVec.ofNat 32 k ∧ p + 1#32 ≠ p + 2#32 + BitVec.ofNat 32 k := by
    intro k hk
    constructor <;> interval_cases k <;> bv_omega
  have hlow : (((m.setWord (p + 2#32) w).setByte p (halfByte h 0)).setByte (p + 1#32) (halfByte h 1)).byte p =
      halfByte h 0 :=
    (Bytes.write8_other fun heq => hfirst (BitVec.eq_of_toNat_eq heq)).trans (Flat.byte_setByte _ _ _)
  rw [Flat.gdtPtr, hlow, Flat.byte_setByte, ofHalfBytes_halfByte, hword _ _ fun k hk => (hapart k hk).2,
    hword _ _ fun k hk => (hapart k hk).1, Flat.word_setWord_same]

theorem idtInit_holds (hsym : sym.Placed) (s : Kernel Flat) :
    ∃ s', idtInit sym s = .ok ((), s') ∧ IdtHolds sym s.mem (idtStubs.map sym.call) s'.mem := by
  have hpointer := hsym.pointer_fits
  have hstart : IdtHolds sym s.mem [] (((s.mem.setWord (sym.gIdtPtr + 2#32) sym.gIdt).setByte sym.gIdtPtr
      (halfByte 0xF800#16 0)).setByte (sym.gIdtPtr + 1#32) (halfByte 0xF800#16 1)) := by
    have hframe : ∀ x, x ∉ sym.pointer → (((s.mem.setWord (sym.gIdtPtr + 2#32) sym.gIdt).setByte sym.gIdtPtr
        (halfByte 0xF800#16 0)).setByte (sym.gIdtPtr + 1#32) (halfByte 0xF800#16 1)).ram x = s.mem.ram x := by
      intro x hx
      have hone : (sym.gIdtPtr + 1#32).toNat = sym.gIdtPtr.toNat + 1 := toNat_add_ofNat (by omega)
      have htwo : (sym.gIdtPtr + 2#32).toNat = sym.gIdtPtr.toNat + 2 := toNat_add_ofNat (by omega)
      rw [IdtLabels.pointer, Extent.mem_ofLen] at hx
      refine (Bytes.write8_other (by omega)).trans ((Bytes.write8_other (by omega)).trans ?_)
      rw [Flat.setWord_ram (by omega)]
      exact Bytes.write32_other (by omega)
    refine ⟨Flat.idtPtr_stored s.mem sym.gIdtPtr sym.gIdt 0xF800#16, fun n hn => ?_, fun x _ hx => hframe x hx⟩
    have hfits := hsym.table_fits
    have hentry := hsym.entry_toNat (Int.natCast_nonneg n) (by exact_mod_cast hn)
    rw [Int.toNat_natCast] at hentry
    refine Flat.gate_congr (by omega) fun x hx hx' => hframe x (hsym.apart.not_mem ?_)
    rw [IdtLabels.table, Extent.mem_ofLen]
    omega
  obtain ⟨s', hforM, h'⟩ := IdtHolds.forM (s := { s with mem := _ }) hstart hsym (idtStubs_inRange sym)
  exact ⟨s', bind_ok.mpr ⟨_, _, rfl, bind_ok.mpr ⟨_, _, rfl, hforM⟩⟩, h'⟩

end Table

/-! ## The vectors -/

section Vectors

variable {sym : IdtLabels} {m₀ m : Flat} {s : Kernel Flat} {calls : List IdtCall} {v : Nat}

/-- The stubs `idt_init` enters, by their vectors. -/
theorem lastGate_init (sym : IdtLabels) (v : Nat) : lastGate (idtStubs.map sym.call) v =
    if v < 48 ∨ v = 128 then some (sym.call (Gate.at v)) else none := by
  have hfind : lastGate (idtStubs.map sym.call) v =
      (idtStubs.reverse.find? fun g => (g.vector : Int) = v).map sym.call := by
    rw [lastGate, ← List.map_reverse, List.find?_map]
    rfl
  rw [hfind]
  cases hg : idtStubs.reverse.find? fun g => (g.vector : Int) = v with
  | some g =>
      have hvector : g.vector = v := by simpa using List.find?_some hg
      rw [← hvector, if_pos g.vector_cases, Gate.at_vector]
      rfl
  | none =>
      rw [if_neg fun h => ?_]
      · rfl
      · have hnot := List.find?_eq_none.mp hg (Gate.at v) (List.mem_reverse.mpr (mem_idtStubs _))
        rw [Gate.vector_at h] at hnot
        exact hnot (decide_eq_true rfl)

theorem lastGate_append_list (sets calls : List IdtCall) (n : Nat) :
    lastGate (sets ++ calls) n = (lastGate calls n).or (lastGate sets n) := by
  rw [lastGate, List.reverse_append, List.find?_append]
  rfl

/-- What the processor finds for a vector in a table that `idt_init` has filled in, if an entry was zero before. -/
theorem IdtHolds.vectored (h : IdtHolds sym m₀ (idtStubs.map sym.call ++ calls) m) (hsym : sym.Placed)
    (hzero : ∀ x, x ∈ sym.table → m₀.ram x = 0#8) (hv : v < idtDescriptors) :
    m.vectored (m.gdtPtr sym.gIdtPtr) v = match lastGate calls v with
      | some c => if c.flags.getLsbD 7 then .ok c.gate else .error 11
      | none => if v < 48 ∨ v = 128 then .ok (sym.call (Gate.at v)).gate else .error 11 := by
  have hfits := hsym.table_fits
  have hentry := hsym.entry_toNat (Int.natCast_nonneg v) (by exact_mod_cast hv)
  rw [Int.toNat_natCast] at hentry
  have hat : sym.gIdt + BitVec.ofNat 32 (8 * v) = sym.entry v := by
    apply BitVec.eq_of_toNat_eq
    rw [hentry, toNat_add_ofNat (by omega)]
  have hnone : m₀.gate (sym.entry v) = gateOf 0#32 0#16 0#8 := by
    refine decode_idtByte (by omega) fun k hk => ?_
    rw [hzero _ (by rw [IdtLabels.table, Extent.mem_ofLen]; omega)]
    interval_cases k <;> rfl
  have hgate := h.entry v hv
  rw [lastGate_append_list, lastGate_init, hnone] at hgate
  have hinside : 8 * v + 7 ≤ (0xF800#16).toNat := by
    have hlimit : (0xF800#16).toNat = 63488 := rfl
    unfold idtDescriptors at hv
    omega
  rw [Flat.vectored, h.pointer, if_pos hinside]
  simp only
  rw [hat, hgate]
  cases lastGate calls v with
  | some c => rfl
  | none =>
      by_cases hstub : v < 48 ∨ v = 128
      · have hpresent : (sym.call (Gate.at v)).gate.flags.getLsbD 7 = true := show (0x8E#8).getLsbD 7 = true by decide
        rw [if_pos hstub]
        simp only [if_pos hstub]
        exact if_pos hpresent
      · have habsent : ¬(gateOf 0#32 0#16 0#8).flags.getLsbD 7 = true := show ¬(0#8).getLsbD 7 = true by decide
        rw [if_neg hstub]
        simp only [if_neg hstub]
        exact if_neg habsent

/-- A vector that nothing has been set for behind `idt_init` gets to a stub, those without one through vector 11. -/
theorem IdtHolds.entered (h : IdtHolds sym m₀ (idtStubs.map sym.call ++ calls) m) (hsym : sym.Placed)
    (hzero : ∀ x, x ∈ sym.table → m₀.ram x = 0#8) (hv : v < idtDescriptors) (hnone : lastGate calls v = none)
    (hnone' : ¬(v < 48 ∨ v = 128) → lastGate calls 11 = none) :
    m.entered (m.gdtPtr sym.gIdtPtr) v = some (sym.stub (Gate.at v)) := by
  rw [Flat.entered, h.vectored hsym hzero hv, hnone]
  by_cases hstub : v < 48 ∨ v = 128
  · simp only [if_pos hstub]
    rfl
  · simp only [if_neg hstub]
    rw [h.vectored hsym hzero (by decide), hnone' hstub]
    have hat : Gate.at v = Gate.at 11 := by
      unfold Gate.at
      rw [dif_neg (by omega), dif_neg (by omega), if_neg (by omega)]
      rfl
    rw [hat]
    rfl

end Vectors

/-- The table at the beginning of a page with the pointer behind it, and the stubs in a page of code. -/
def tinyLabels : IdtLabels where
  gIdt := 0xC010B000#32
  gIdtPtr := 0xC010B800#32
  stub g := 0xC0101000#32 + BitVec.ofNat 32 (16 * g.vector)

theorem tinyLabels_placed : tinyLabels.Placed := by
  constructor <;> decide

end LizaOS
