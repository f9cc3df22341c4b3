-- SUMMARY: Code that works on objects of the kernel image runs behind the boot tables as it runs on flat memory.
import LizaOS.Kernel.Vectors
import LizaOS.Mm.BootSpace

/-!
# The kernel image

The image is mapped as a whole, so memory as the kernel sees it there is flat. Code that stores to objects of the
image only does the same behind the boot tables as on this memory.
-/

namespace LizaOS

open Exec

/-! ## Memory as it is seen -/

/-- The frame address behind an address of the kernel. -/
@[irreducible] def frameOf (x : Nat) : Nat := x - 0xC0000000

/-- Memory at the addresses of the kernel. -/
def Mmu.image (m : Mmu) : Flat := { ram := fun x => m.phys (frameOf x), cells := fun _ => 0#16 }

/-- Memory as the processor reads it. -/
def Mmu.seen (m : Mmu) : Flat :=
  { ram := fun x => match m.translate (BitVec.ofNat 32 x) with
      | .ok p => m.phys p
      | .error _ => 0#8
    cells := fun _ => 0#16 }

/-- The same kernel on other memory. -/
def Kernel.on {μ ν : Type} (s : Kernel μ) (m : ν) : Kernel ν :=
  { mem := m, ports := s.ports, alloc := s.alloc, vga := s.vga, screenBg := s.screenBg, paging := s.paging,
    handlers := s.handlers, timer := s.timer, ramdisk := s.ramdisk, strayed := s.strayed }

def Kernel.image (s : Kernel Mmu) : Kernel Flat := s.on s.mem.image

namespace Layout

/-- The image is in front of the heap. -/
structure InImage (layout : Layout) (a : Word) : Prop where
  low : layout.kernelStart.toNat ≤ a.toNat
  high : a.toNat < layout.earlyKmallocStart.toNat
  mapped : a.toNat < layout.kernelEnd.toNat

structure ImageFrame (layout : Layout) (x : Nat) : Prop where
  low : layout.lowEnd ≤ x
  high : x + 0xC0000000 < layout.earlyKmallocStart.toNat

end Layout

/-- Wherever `y` comes back on the memory seen, `x` comes back with the same, and stores to the image only. -/
def Mirrors {α : Type} (layout : Layout) (x : K Mmu α) (y : K Flat α) : Prop :=
  ∀ (s : Kernel Mmu) (r : α) (t : Kernel Flat), BootMapped s.mem layout → y s.image = .ok (r, t) →
    ∃ phys, x s = .ok (r, s.withPhys phys) ∧ AgreeOff layout.ImageFrame s.mem.phys phys ∧
      (s.withPhys phys).image = t

section Image

variable {layout : Layout} {m : Mmu} {a : Word} {α β : Type} {x : K Mmu α} {y : K Flat α}

theorem Layout.ImageFrame.bootStores {p : Nat} (h : layout.ImageFrame p) : BootStores layout p := .inr h.1

theorem Layout.InImage.frame (hl : layout.Linked) (h : layout.InImage a) :
    layout.ImageFrame (frameOf a.toNat) := by
  obtain ⟨hlow, _⟩ := hl.start_eq
  have hge := h.low
  have hlt := h.high
  unfold frameOf
  exact ⟨by omega, by omega⟩

/-- An address of the image is translated to its frame. -/
theorem BootMapped.translate_image (h : BootMapped m layout) (hl : layout.Linked) (ha : layout.InImage a) :
    m.translate a = .ok (frameOf a.toNat) := by
  obtain ⟨hge, _, hlt⟩ := ha
  have hmod := hl.start_mod
  have hgt := hl.start_gt
  have ha := a.isLt
  have hsub : (a - BitVec.ofNat 32 (a.toNat % 4096)).toNat = a.toNat - a.toNat % 4096 := by
    have hoff : (BitVec.ofNat 32 (a.toNat % 4096)).toNat = a.toNat % 4096 := by
      rw [BitVec.toNat_ofNat]
      omega
    rw [BitVec.toNat_sub_of_le (by rw [BitVec.le_def, hoff]; exact Nat.mod_le _ _), hoff]
  have hpage : layout.KernelPage (a - BitVec.ofNat 32 (a.toNat % 4096)) := by
    refine ⟨?_, ?_, ?_⟩ <;> rw [hsub] <;> omega
  have hseen : m.Seen (BootStores layout) a (physOf (a - BitVec.ofNat 32 (a.toNat % 4096))) := by
    refine (h.seen_kernel hpage).congr ?_
    unfold pageOf
    rw [hsub]
    omega
  have hframe : physOf (a - BitVec.ofNat 32 (a.toNat % 4096)) + a.toNat % 4096 = frameOf a.toNat := by
    unfold physOf frameOf
    rw [hsub]
    omega
  rw [hseen.translate_self, hframe]

/-- A byte stored at an address of the kernel. -/
theorem Mmu.image_setByte (m : Mmu) (ha : 0xC0000000 < a.toNat) (b : Byte) :
    (m.withPhys (m.phys.write8 (frameOf a.toNat) b)).image = m.image.setByte a b := by
  have hframe : ∀ x, frameOf x = frameOf a.toNat ↔ x = a.toNat := by
    intro x
    unfold frameOf
    omega
  have hram : (fun x => (m.phys.write8 (frameOf a.toNat) b) (frameOf x)) =
      Bytes.write8 (fun x => m.phys (frameOf x)) a.toNat b := by
    funext x
    unfold Bytes.write8
    exact if_congr (hframe x) rfl rfl
  exact congrArg (fun ram => ({ ram := ram, cells := fun _ => 0#16 } : Flat)) hram

namespace Mirrors

theorem pure (r : α) : Mirrors layout (pure r) (pure r) := by
  intro s r' t _ hrun
  cases hrun
  exact ⟨s.mem.phys, rfl, .refl _, rfl⟩

theorem bind {f : α → K Mmu β} {g : α → K Flat β} (h : Mirrors layout x y)
    (hf : ∀ r, Mirrors layout (f r) (g r)) : Mirrors layout (x >>= f) (y >>= g) := by
  intro s r t hm hrun
  obtain ⟨r₁, t₁, hy, hg⟩ := bind_ok.mp hrun
  obtain ⟨phys₁, hx, hagree₁, himage₁⟩ := h s r₁ t₁ hm hy
  obtain ⟨phys₂, hf₂, hagree₂, himage₂⟩ := hf r₁ (s.withPhys phys₁) r t
    (hm.agree (hagree₁.mono fun _ hx => hx.bootStores)) (by rw [himage₁]; exact hg)
  exact ⟨phys₂, bind_ok.mpr ⟨_, _, hx, hf₂⟩, hagree₁.trans hagree₂, himage₂⟩

/-- Code that does not come back on the memory seen. -/
theorem of_never (h : ∀ s r t, y s ≠ .ok (r, t)) : Mirrors layout x y :=
  fun s r t _ hrun => absurd hrun (h s.image r t)

theorem ite {c : Prop} [Decidable c] {x' : K Mmu α} {y' : K Flat α} (h : Mirrors layout x y)
    (h' : Mirrors layout x' y') : Mirrors layout (if c then x else x') (if c then y else y') := by
  split
  · exact h
  · exact h'

theorem forM {γ : Type} {f : γ → K Mmu Unit} {g : γ → K Flat Unit} {cs : List γ}
    (h : ∀ c ∈ cs, Mirrors layout (f c) (g c)) : Mirrors layout (cs.forM f) (cs.forM g) := by
  induction cs with
  | nil => exact .pure _
  | cons c cs ih =>
      exact (h c (List.mem_cons_self ..)).bind fun _ => ih fun c' hc' => h c' (List.mem_cons_of_mem c hc')

theorem load8 (hl : layout.Linked) (ha : layout.InImage a) :
    Mirrors layout (LizaOS.load8 a) (LizaOS.load8 a) := by
  intro s r t hm hrun
  cases hrun
  have hload : Bus.load8 s.mem a = .ok (s.mem.phys (frameOf a.toNat)) := by
    simp only [Bus.load8, hm.translate_image hl ha, Except.map]
  refine ⟨s.mem.phys, ?_, .refl _, rfl⟩
  rw [LizaOS.load8, hload]
  rfl

theorem store8 (hl : layout.Linked) (ha : layout.InImage a) (b : Byte) :
    Mirrors layout (LizaOS.store8 a b) (LizaOS.store8 a b) := by
  intro s r t hm hrun
  cases hrun
  have hgt := hl.start_gt
  have hlow := ha.low
  have hstore : Bus.store8 s.mem a b = .ok (s.mem.withPhys (s.mem.phys.write8 (frameOf a.toNat) b)) := by
    simp only [Bus.store8, hm.translate_image hl ha, Except.map]
  refine ⟨s.mem.phys.write8 (frameOf a.toNat) b, ?_, .write8 (ha.frame hl), ?_⟩
  · rw [LizaOS.store8, hstore]
    rfl
  · exact congrArg s.on (s.mem.image_setByte (by omega) b)

theorem store16 (hl : layout.Linked) (ha : layout.InImage a) (ha' : layout.InImage (a + 1#32)) (h : Half) :
    Mirrors layout (LizaOS.store16 a h) (LizaOS.store16 a h) :=
  (store8 hl ha _).bind fun _ => store8 hl ha' _

theorem store32 (hl : layout.Linked) (ha : ∀ k, k < 4 → layout.InImage (a + BitVec.ofNat 32 k)) (w : Word) :
    Mirrors layout (LizaOS.store32 a w) (LizaOS.store32 a w) := by
  have hzero := ha 0 (by decide)
  rw [BitVec.add_zero] at hzero
  have hone := ha 1 (by decide)
  have htwo := ha 2 (by decide)
  have hthree := ha 3 (by decide)
  have hhigh : ∀ {a}, layout.InImage a → 0xC0000000 < a.toNat := fun h => by
    have hgt := hl.start_gt
    have hlow := h.low
    omega
  have himage : ∀ {a}, layout.InImage a → ∀ (m : Mmu) (b : Byte),
      (m.withPhys (m.phys.write8 (frameOf a.toNat) b)).image = m.image.setByte a b := fun h m b =>
    m.image_setByte (hhigh h) b
  intro s r t hm hrun
  cases hrun
  refine ⟨(((s.mem.phys.write8 (frameOf a.toNat) (byteAt w 0)).write8 (frameOf (a + 1#32).toNat) (byteAt w 1)).write8
    (frameOf (a + 2#32).toNat) (byteAt w 2)).write8 (frameOf (a + 3#32).toNat) (byteAt w 3), ?_, ?_, ?_⟩
  · have hstore : Bus.store32 s.mem a w = .ok (s.mem.withPhys ((((s.mem.phys.write8 (frameOf a.toNat)
        (byteAt w 0)).write8 (frameOf (a + 1#32).toNat) (byteAt w 1)).write8 (frameOf (a + 2#32).toNat)
        (byteAt w 2)).write8 (frameOf (a + 3#32).toNat) (byteAt w 3))) := by
      simp only [Bus.store32, hm.translate_image hl hzero, hm.translate_image hl hone, hm.translate_image hl htwo,
        hm.translate_image hl hthree]
      rfl
    rw [LizaOS.store32, hstore]
    rfl
  · exact (AgreeOff.write8 (hzero.frame hl)).trans ((AgreeOff.write8 (hone.frame hl)).trans
      ((AgreeOff.write8 (htwo.frame hl)).trans (.write8 (hthree.frame hl))))
  · refine congrArg s.on (?_ : _ = s.mem.image.setWord a w)
    rw [Flat.setWord, ← himage hzero, ← himage hone, ← himage htwo, ← himage hthree]
    rfl

end Mirrors

end Image

/-! ## The descriptor tables -/

/-- The part of the address space that holds the image. -/
def Layout.image (layout : Layout) : Extent :=
  ⟨layout.kernelStart.toNat, min layout.earlyKmallocStart.toNat layout.kernelEnd.toNat⟩

section Tables

variable {layout : Layout} {a : Word} {n : Nat}

theorem Layout.inImage (h : (Extent.ofLen a.toNat n).Within layout.image) (hfits : a.toNat + n ≤ 2 ^ 32) {k : Nat}
    (hk : k < n) : layout.InImage (a + BitVec.ofNat 32 k) := by
  obtain ⟨hlow, hhigh⟩ := h
  have hadd : (a + BitVec.ofNat 32 k).toNat = a.toNat + k := toNat_add_ofNat (by omega)
  simp only [Layout.image, Extent.ofLen] at hlow hhigh
  refine ⟨?_, ?_, ?_⟩ <;> rw [hadd] <;> omega

theorem Layout.inImage_self (h : (Extent.ofLen a.toNat n).Within layout.image) (hfits : a.toNat + n ≤ 2 ^ 32)
    (hn : 0 < n) : layout.InImage a := by
  have hzero := Layout.inImage h hfits hn
  rwa [BitVec.add_zero] at hzero

/-- Offsets are added up. -/
theorem add_ofNat_one (a : Word) (k : Nat) : a + BitVec.ofNat 32 k + 1#32 = a + BitVec.ofNat 32 (k + 1) := by
  rw [BitVec.add_assoc, ← BitVec.ofNat_add]

/-- The entry of a table in the image. -/
theorem entry_within {table : Word} {count : Nat} {index : Int} (hfits : table.toNat + 8 * count ≤ 2 ^ 32)
    (h : (Extent.ofLen table.toNat (8 * count)).Within layout.image) (hindex : 0 ≤ index) (hlt : index < count) :
    (Extent.ofLen (table + BitVec.ofInt 32 ((8 : Nat) * index)).toNat 8).Within layout.image ∧
      (table + BitVec.ofInt 32 ((8 : Nat) * index)).toNat + 8 ≤ 2 ^ 32 := by
  have hentry := tableEntry_toNat hfits hindex hlt
  obtain ⟨hlow, hhigh⟩ := h
  simp only [Extent.ofLen] at hlow hhigh
  refine ⟨⟨?_, ?_⟩, ?_⟩
  · simp only [Extent.ofLen, hentry]
    omega
  · simp only [Extent.ofLen, hentry]
    omega
  · omega

theorem gdtSetEntry_mirrors {sym : GdtSymbols} (hl : layout.Linked) (hsym : sym.Placed)
    (htable : sym.table.Within layout.image) {c : GdtCall} (hc : c.InRange) :
    Mirrors layout (c.run sym) (c.run sym) := by
  obtain ⟨hwithin, hfits⟩ := entry_within hsym.table_fits htable hc.1 hc.2
  have hin : ∀ {k}, k < 8 → layout.InImage (sym.entry c.index + BitVec.ofNat 32 k) := fun hk =>
    Layout.inImage hwithin hfits hk
  have hself : layout.InImage (sym.entry c.index) := Layout.inImage_self hwithin hfits (by decide)
  have hthird : layout.InImage (sym.entry c.index + 2#32 + 1#32) := by
    rw [add_ofNat_one _ 2]
    exact hin (by decide)
  unfold GdtCall.run gdtSetEntry
  refine (Mirrors.store16 hl hself (hin (by decide)) _).bind fun _ => ?_
  refine (Mirrors.store16 hl (hin (by decide)) hthird _).bind fun _ => ?_
  refine (Mirrors.store8 hl (hin (by decide)) _).bind fun _ => ?_
  refine (Mirrors.store8 hl (hin (by decide)) _).bind fun _ => ?_
  refine (Mirrors.store8 hl (hin (by decide)) _).bind fun _ => ?_
  refine (Mirrors.load8 hl (hin (by decide))).bind fun _ => ?_
  refine (Mirrors.store8 hl (hin (by decide)) _).bind fun _ => ?_
  refine (Mirrors.store8 hl (hin (by decide)) _).bind fun _ => ?_
  refine .ite (.of_never fun s r t hrun => ?_) (.pure _)
  obtain ⟨_, _, _, hpanic⟩ := bind_ok.mp hrun
  cases hpanic

theorem idtSetEntry_mirrors {sym : IdtLabels} (hl : layout.Linked) (hsym : sym.Placed)
    (htable : sym.table.Within layout.image) {c : IdtCall} (hc : c.InRange) :
    Mirrors layout (c.run sym.toIdtSymbols) (c.run sym.toIdtSymbols) := by
  obtain ⟨hwithin, hfits⟩ := entry_within hsym.table_fits htable hc.1 hc.2
  have hin : ∀ {k}, k < 8 → layout.InImage (sym.entry c.index + BitVec.ofNat 32 k) := fun hk =>
    Layout.inImage hwithin hfits hk
  have hself : layout.InImage (sym.entry c.index) := Layout.inImage_self hwithin hfits (by decide)
  have hnext : ∀ {k}, k + 1 < 8 → layout.InImage (sym.entry c.index + BitVec.ofNat 32 k + 1#32) := fun hk => by
    rw [add_ofNat_one]
    exact hin hk
  unfold IdtCall.run idtSetEntry
  refine (Mirrors.store16 hl hself (hin (by decide)) _).bind fun _ => ?_
  refine (Mirrors.store16 hl (hin (by decide)) (hnext (by decide)) _).bind fun _ => ?_
  refine (Mirrors.store8 hl (hin (by decide)) _).bind fun _ => ?_
  refine (Mirrors.store8 hl (hin (by decide)) _).bind fun _ => ?_
  exact Mirrors.store16 hl (hin (by decide)) (hnext (by decide)) _

/-- The pointer to a table is stored in two parts. -/
theorem pointer_mirrors (hl : layout.Linked) {p : Word} (hfits : p.toNat + 6 ≤ 2 ^ 32)
    (hp : (Extent.ofLen p.toNat 6).Within layout.image) (limit : Half) (base : Word) :
    Mirrors layout (store16 p limit) (store16 p limit) ∧
      Mirrors layout (store32 (p + 2#32) base) (store32 (p + 2#32) base) := by
  have hin : ∀ {k}, k < 6 → layout.InImage (p + BitVec.ofNat 32 k) := fun hk => Layout.inImage hp hfits hk
  refine ⟨.store16 hl (Layout.inImage_self hp hfits (by decide)) (hin (by decide)) _, .store32 hl (fun k hk => ?_) _⟩
  rw [BitVec.add_assoc, ← BitVec.ofNat_add]
  exact hin (by omega)

theorem gdtInit_mirrors {sym : GdtSymbols} (hl : layout.Linked) (hsym : sym.Placed)
    (htable : sym.table.Within layout.image) (hpointer : sym.pointer.Within layout.image) :
    Mirrors layout (gdtInit sym) (gdtInit sym) := by
  have hcall : ∀ {index : Int} {base limit : Word} {access gran : Byte}, 0 ≤ index → index < gdtDescriptors →
      Mirrors layout (gdtSetEntry sym index base limit access gran) (gdtSetEntry sym index base limit access gran) :=
    fun {index base limit access gran} hindex hlt =>
      gdtSetEntry_mirrors (c := ⟨index, base, limit, access, gran⟩) hl hsym htable ⟨hindex, hlt⟩
  obtain ⟨hlimit, hbase⟩ := pointer_mirrors hl hsym.pointer_fits hpointer
    (BitVec.ofNat 16 (gdtEntrySize * gdtDescriptors * (gdtDescriptors - 1))) sym.gGdt
  unfold gdtInit
  refine hlimit.bind fun _ => hbase.bind fun _ => ?_
  refine (hcall (by decide) (by decide)).bind fun _ => (hcall (by decide) (by decide)).bind fun _ => ?_
  exact (hcall (by decide) (by decide)).bind fun _ => (hcall (by decide) (by decide)).bind fun _ =>
    hcall (by decide) (by decide)

theorem idtInit_mirrors {sym : IdtLabels} (hl : layout.Linked) (hsym : sym.Placed)
    (htable : sym.table.Within layout.image) (hpointer : sym.pointer.Within layout.image) :
    Mirrors layout (idtInit sym) (idtInit sym) := by
  obtain ⟨hlimit, hbase⟩ := pointer_mirrors hl hsym.pointer_fits hpointer
    (BitVec.ofNat 16 (8 * idtDescriptors * (idtDescriptors - 1))) sym.gIdt
  unfold idtInit
  refine hbase.bind fun _ => hlimit.bind fun _ => .forM fun c hc => ?_
  exact idtSetEntry_mirrors hl hsym htable (idtStubs_inRange sym c hc)

end Tables

end LizaOS
