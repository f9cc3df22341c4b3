-- SUMMARY: The memory of the real machine: physical bytes behind the page tables that CR3 points to.
import LizaOS.Machine.Bus
import LizaOS.Machine.PageWalk

/-!
# The memory management unit

The processor runs at ring 0 with `CR0.WP` clear, so a store needs the page to be present and no
more. There is no translation cache: each access walks the tables as they are. An access of several
bytes translates all of them before it stores any.
-/

namespace LizaOS

structure Mmu where
  phys : Bytes
  cr0 : Word
  cr3 : Word

namespace Mmu

/-- `CR0.PG`. -/
def pagingOn (m : Mmu) : Bool := m.cr0.getLsbD 31

/-- The physical address of the directory. -/
def root (m : Mmu) : Nat := Entry.frame m.cr3

/-- The walk of the page of `v` from the directory in CR3. -/
def walk (m : Mmu) (v : Word) : Option Leaf := lookup m.phys m.root v

def translate (m : Mmu) (a : Word) : Except Stop Nat :=
  if m.pagingOn then
    match m.walk a with
    | some l => .ok (l.frame + a.toNat % 4096)
    | none => .error .pageFault
  else .ok a.toNat

def withPhys (m : Mmu) (phys : Bytes) : Mmu := { m with phys := phys }

instance : Bus Mmu where
  load8 m a := (m.translate a).map m.phys
  store8 m a b := (m.translate a).map fun p => m.withPhys (m.phys.write8 p b)
  load32 m a := do
    let p₀ ← m.translate a
    let p₁ ← m.translate (a + 1#32)
    let p₂ ← m.translate (a + 2#32)
    let p₃ ← m.translate (a + 3#32)
    return ofBytes (m.phys p₀) (m.phys p₁) (m.phys p₂) (m.phys p₃)
  store32 m a w := do
    let p₀ ← m.translate a
    let p₁ ← m.translate (a + 1#32)
    let p₂ ← m.translate (a + 2#32)
    let p₃ ← m.translate (a + 3#32)
    return m.withPhys ((((m.phys.write8 p₀ (byteAt w 0)).write8 p₁ (byteAt w 1)).write8 p₂
      (byteAt w 2)).write8 p₃ (byteAt w 3))
  loadCell m a := do
    let p₀ ← m.translate a
    let p₁ ← m.translate (a + 1#32)
    return ofHalfBytes (m.phys p₀) (m.phys p₁)
  storeCell m a h := do
    let p₀ ← m.translate a
    let p₁ ← m.translate (a + 1#32)
    return m.withPhys ((m.phys.write8 p₀ (halfByte h 0)).write8 p₁ (halfByte h 1))

@[simp] theorem phys_withPhys (m : Mmu) (phys : Bytes) : (m.withPhys phys).phys = phys := rfl

@[simp] theorem root_withPhys (m : Mmu) (phys : Bytes) : (m.withPhys phys).root = m.root := rfl

@[simp] theorem pagingOn_withPhys (m : Mmu) (phys : Bytes) :
    (m.withPhys phys).pagingOn = m.pagingOn := rfl

@[simp] theorem withPhys_withPhys (m : Mmu) (phys phys' : Bytes) :
    (m.withPhys phys).withPhys phys' = m.withPhys phys' := rfl

/-! ## Pages that are seen

A page is seen at a frame if it is mapped there whatever is stored in the region `A`. -/

/-- The page of `v` is mapped to the frame at `f`, and stores in `A` do not change that. -/
structure Seen (m : Mmu) (A : Nat → Prop) (v : Word) (f : Nat) : Prop where
  on : m.pagingOn = true
  walk : ∃ w, m.walk v = some { frame := f, writable := w }
  steady : Steady m.phys m.root A v

namespace Seen

variable {m : Mmu} {A B : Nat → Prop} {v a : Word} {f k : Nat} {phys : Bytes}

theorem mono (h : m.Seen B v f) (hAB : ∀ x, A x → B x) : m.Seen A v f :=
  ⟨h.on, h.walk, h.steady.mono hAB⟩

/-- Stores in the region leave the page seen. -/
theorem agree (h : m.Seen A v f) (hm : AgreeOff A m.phys phys) : (m.withPhys phys).Seen A v f := by
  refine ⟨h.on, ?_, h.steady.agree hm⟩
  obtain ⟨w, hw⟩ := h.walk
  exact ⟨w, (h.steady phys hm).trans hw⟩

theorem congr (h : m.Seen A v f) (hvw : pageOf a = pageOf v) : m.Seen A a f := by
  refine ⟨h.on, ?_, h.steady.congr hvw⟩
  obtain ⟨w, hw⟩ := h.walk
  exact ⟨w, (lookup_congr hvw).trans hw⟩

theorem translate (h : m.Seen A v f) (hk : v.toNat % 4096 + k < 4096) :
    m.translate (v + BitVec.ofNat 32 k) = .ok (f + (v.toNat % 4096 + k)) := by
  obtain ⟨w, hw⟩ := (h.congr (pageOf_add hk)).walk
  have hlt := v.isLt
  have hoff : (v + BitVec.ofNat 32 k).toNat % 4096 = v.toNat % 4096 + k := by
    rw [toNat_add_ofNat (by omega)]
    omega
  rw [Mmu.translate, if_pos h.on, hw, hoff]

theorem translate_self (h : m.Seen A v f) : m.translate v = .ok (f + v.toNat % 4096) := by
  obtain ⟨w, hw⟩ := h.walk
  rw [Mmu.translate, if_pos h.on, hw]

variable {p : Nat}

theorem store8 (h : m.Seen A a f) (b : Byte) :
    Bus.store8 m a b = .ok (m.withPhys (m.phys.write8 (f + a.toNat % 4096) b)) := by
  simp only [Bus.store8, h.translate_self, Except.map]

/-- A word inside a page is a word of its frame. -/
theorem load32 (h : m.Seen A a f) (ha : a.toNat % 4096 + 4 ≤ 4096) :
    Bus.load32 m a = .ok (m.phys.read32 (f + a.toNat % 4096)) := by
  have h₁ := h.translate (k := 1) (by omega)
  have h₂ := h.translate (k := 2) (by omega)
  have h₃ := h.translate (k := 3) (by omega)
  simp only [Bus.load32, h.translate_self, h₁, h₂, h₃]
  rfl

theorem store32 (h : m.Seen A a f) (ha : a.toNat % 4096 + 4 ≤ 4096) (w : Word) :
    Bus.store32 m a w = .ok (m.withPhys (m.phys.write32 (f + a.toNat % 4096) w)) := by
  have h₁ := h.translate (k := 1) (by omega)
  have h₂ := h.translate (k := 2) (by omega)
  have h₃ := h.translate (k := 3) (by omega)
  simp only [Bus.store32, h.translate_self, h₁, h₂, h₃]
  rfl

theorem loadCell (h : m.Seen A a f) (ha : a.toNat % 4096 + 2 ≤ 4096) :
    Bus.loadCell m a = .ok (m.phys.read16 (f + a.toNat % 4096)) := by
  have h₁ := h.translate (k := 1) (by omega)
  simp only [Bus.loadCell, h.translate_self, h₁]
  rfl

theorem storeCell (h : m.Seen A a f) (ha : a.toNat % 4096 + 2 ≤ 4096) (c : Half) :
    Bus.storeCell m a c = .ok (m.withPhys (m.phys.write16 (f + a.toNat % 4096) c)) := by
  have h₁ := h.translate (k := 1) (by omega)
  simp only [Bus.storeCell, h.translate_self, h₁]
  rfl

end Seen

end Mmu

end LizaOS
