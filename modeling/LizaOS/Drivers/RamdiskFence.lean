-- SUMMARY: Mounting any image behind a fence: what is allocated, and how far the table of files was walked.
import LizaOS.Drivers.Ramdisk
import LizaOS.Mm.Fence

/-!
# Mounting behind a fence

`ramdisk_init` trusts the image: the number of files, the names, and the size of the array it asks for. On
an image that is not one it stores far behind its objects, but always upwards from them.
-/

namespace LizaOS

open Exec

variable {I : Mmu → Vga → Prop} {G : Word → Prop} {a a' : Alloc} {rd : Ramdisk} {s s' : Kernel Mmu}
  {sym : RamdiskSymbols} {v w addr size : Word} {obj : Option Extent}

/-! ## Inodes -/

theorem Fenced.storeFields (hf : Fenced I G) (h : Held I a rd s) {node : Word} (hv : G node)
    (hmapped : Mapped I node) (obj : Option Extent) {fields : List (Nat × Word)}
    (hfields : ∀ f ∈ fields, f.1 + 4 ≤ 4096) :
    WhenReturns (storeFields node obj fields) s fun _ s' => Held I a rd s' := by
  induction fields generalizing s with
  | nil => exact .pure h
  | cons f fields ih =>
      have hlow := hfields f (List.mem_cons_self ..)
      have hfield := hf.ahead hv hmapped f.1 (by omega)
      refine (hf.store32 h hfield f.2 obj).bind fun _ s₁ h₁ => ?_
      exact ih h₁.1 fun f hf => hfields f (List.mem_cons_of_mem _ hf)

theorem directoryFields_low (sym : RamdiskSymbols) : ∀ f ∈ directoryFields sym, f.1 + 4 ≤ 4096 := by
  simp [directoryFields, inodeLength, inodeIno, inodeGid, inodeUid, inodeMask, inodeFlags, inodeRead, inodeWrite,
    inodeOpen, inodeClose, inodeReaddir, inodeFinddir, inodePtr, inodeImpl]

theorem fileOwnerFields_low : ∀ f ∈ fileOwnerFields, f.1 + 4 ≤ 4096 := by
  simp [fileOwnerFields, inodeGid, inodeUid, inodeMask]

theorem fileFields_low (sym : RamdiskSymbols) (i length : Word) : ∀ f ∈ fileFields sym i length, f.1 + 4 ≤ 4096 := by
  simp [fileFields, inodeLength, inodeIno, inodeFlags, inodeRead, inodeWrite, inodeReaddir, inodeFinddir,
    inodeOpen, inodeClose, inodeImpl]

theorem initDirectory_fenced (hf : Fenced I G) (h : Held I a rd s) (name : List Byte)
    (hG : ∀ r a', Alloc.kmallocEarlyAlign (BitVec.ofNat 32 inodeSize) a = .ok (r, a') → G r) :
    WhenReturns (initDirectory sym name) s fun r s' =>
      ∃ a', Alloc.kmallocEarlyAlign (BitVec.ofNat 32 inodeSize) a = .ok (r, a') ∧ Held I a' rd s' := by
  refine (kmallocEarlyAlign_held h _).bind fun r s₁ ⟨a', halloc, h₁⟩ => ?_
  have hr := hG r a' halloc
  refine (hf.strcpy h₁ hr (.lit name) none).bind fun _ s₂ ⟨h₂, hmapped⟩ => ?_
  refine (hf.storeFields h₂ hr hmapped none (directoryFields_low sym)).bind fun _ s₃ h₃ => ?_
  exact .pure ⟨a', halloc, h₃⟩

/-! ## Files -/

/-- The field of header `i` that is patched. -/
def Ramdisk.offsetField (rd : Ramdisk) (i : Nat) : Word :=
  rd.header (BitVec.ofNat 32 i) + BitVec.ofNat 32 headerOffset

theorem Ramdisk.offsetField_zero (rd : Ramdisk) :
    rd.offsetField 0 = rd.fileHeaders + BitVec.ofNat 32 headerOffset := by
  show rd.fileHeaders + BitVec.ofNat 32 fileHeaderSize * 0#32 + _ = _
  rw [BitVec.mul_zero, BitVec.add_zero]

theorem Ramdisk.offsetField_succ (rd : Ramdisk) (i : Nat) :
    rd.offsetField (i + 1) = rd.offsetField i + BitVec.ofNat 32 fileHeaderSize := by
  unfold offsetField header
  rw [BitVec.ofNat_add, BitVec.mul_add, ← BitVec.add_assoc]
  have hone : BitVec.ofNat 32 fileHeaderSize * BitVec.ofNat 32 1 = BitVec.ofNat 32 fileHeaderSize := by decide
  rw [hone, BitVec.add_assoc, BitVec.add_comm (BitVec.ofNat 32 fileHeaderSize), ← BitVec.add_assoc]

theorem Ramdisk.node_zero (rd : Ramdisk) : rd.node (BitVec.ofNat 32 0) = rd.rootNodes := by
  show rd.rootNodes + BitVec.ofNat 32 inodeSize * 0#32 = _
  rw [BitVec.mul_zero, BitVec.add_zero]

theorem Ramdisk.node_succ (rd : Ramdisk) (i : Nat) :
    rd.node (BitVec.ofNat 32 (i + 1)) = rd.node (BitVec.ofNat 32 i) + BitVec.ofNat 32 inodeSize := by
  unfold node
  rw [BitVec.ofNat_add, BitVec.mul_add, ← BitVec.add_assoc]
  have hone : BitVec.ofNat 32 inodeSize * BitVec.ofNat 32 1 = BitVec.ofNat 32 inodeSize := by decide
  rw [hone]

/-- A turn of the loop touches the header and the inode of the file. -/
theorem initFile_fenced (hf : Fenced I G) (h : Held I a rd s) {i : Nat} (hheader : G (rd.offsetField i))
    (hnode : G (rd.node (BitVec.ofNat 32 i))) :
    WhenReturns (initFile sym addr (BitVec.ofNat 32 i)) s fun _ s' =>
      Held I a rd s' ∧ Mapped I (rd.offsetField i) ∧ Mapped I (rd.node (BitVec.ofNat 32 i)) := by
  refine (WhenReturns.get (Q := fun r s' => r.ramdisk = rd ∧ Held I a rd s') ⟨h.ramdisk, h⟩).bind ?_
  rintro s₀ s₁ ⟨hrd, h₁⟩
  rw [hrd]
  refine (load32_held h₁ (rd.offsetField i) rd.image).bind fun offset s₂ ⟨h₂, _, _⟩ => ?_
  refine (hf.store32 h₂ hheader (offset + addr) none).bind fun _ s₃ ⟨h₃, hheader'⟩ => ?_
  refine (hf.strcpy h₃ hnode _ _).bind fun _ s₄ ⟨h₄, hnode'⟩ => ?_
  refine (hf.storeFields h₄ hnode hnode' _ fileOwnerFields_low).bind fun _ s₅ h₅ => ?_
  refine (load32_held h₅ _ _).bind fun length s₆ ⟨h₆, _, _⟩ => ?_
  refine (hf.storeFields h₆ hnode hnode' _ (fileFields_low sym _ length)).mono fun _ s₇ h₇ => ?_
  exact ⟨h₇, hheader', hnode'⟩

/-- The number of files the driver has read, and the turns its loop has made for it. -/
def Walked (I : Mmu → Vga → Prop) (rd : Ramdisk) (m : Mmu) (i : Nat) : Prop :=
  ∃ n, Bus.load32 m rd.initrdH = .ok n ∧ ∃ j, i ≤ j ∧ n.toNat ≤ j ∧ ∀ k, i ≤ k → k < j → Mapped I (rd.offsetField k)

theorem initFiles_fenced (hf : Fenced I G) (h : Held I a rd s) (fuel i : Nat) (hlt : i < 2 ^ 32)
    (hheader : G (rd.offsetField i)) (hnode : G (rd.node (BitVec.ofNat 32 i))) :
    WhenReturns (initFiles sym addr fuel (BitVec.ofNat 32 i)) s fun _ s' =>
      Held I a rd s' ∧ Walked I rd s'.mem i := by
  induction fuel generalizing s i with
  | zero => exact .throw _
  | succ fuel ih =>
      refine (WhenReturns.get (Q := fun r s' => r.ramdisk = rd ∧ Held I a rd s') ⟨h.ramdisk, h⟩).bind ?_
      rintro s₀ s₁ ⟨hrd, h₁⟩
      rw [hrd]
      refine (load32_held h₁ rd.initrdH rd.image).bind fun n s₂ ⟨h₂, hmem, hload⟩ => ?_
      rw [← hmem] at hload
      have hi : (BitVec.ofNat 32 i).toNat = i := by
        rw [BitVec.toNat_ofNat]
        exact Nat.mod_eq_of_lt hlt
      split
      · next hturn =>
        rw [BitVec.lt_def, hi] at hturn
        have hn := n.isLt
        refine (initFile_fenced hf h₂ hheader hnode).bind fun _ s₃ ⟨h₃, hheader', hnode'⟩ => ?_
        have hnext : G (rd.offsetField (i + 1)) := by
          rw [Ramdisk.offsetField_succ]
          exact hf.ahead hheader hheader' _ (by decide)
        have hnext' : G (rd.node (BitVec.ofNat 32 (i + 1))) := by
          rw [Ramdisk.node_succ]
          exact hf.ahead hnode hnode' _ (by decide)
        have hsucc : BitVec.ofNat 32 i + 1#32 = BitVec.ofNat 32 (i + 1) := (BitVec.ofNat_add i 1).symm
        rw [hsucc]
        refine (ih h₃ (i + 1) (by omega) hnext hnext').mono fun _ s' ⟨h', n', hload', j, hij, hnj, hwalked⟩ => ?_
        refine ⟨h', n', hload', j, by omega, hnj, fun k hik hkj => ?_⟩
        rcases Nat.lt_or_eq_of_le hik with hlt | rfl
        · exact hwalked k hlt hkj
        · exact hheader'
      · next hturn =>
        rw [BitVec.lt_def, hi] at hturn
        exact .pure ⟨h₂, n, hload, i, Nat.le_refl i, by omega, fun k hik hki => by omega⟩

/-! ## The mount -/

/-- The driver may have read the number `n` of files at `addr`. -/
def Counted (I : Mmu → Vga → Prop) (addr n : Word) : Prop := ∃ m g, I m g ∧ Bus.load32 m addr = .ok n

/-- What a mount that comes back has done: three requests, the last one for `n` inodes, and the walk of the
table. -/
structure MountRun (I : Mmu → Vga → Prop) (a a₁ a₂ a₃ : Alloc) (addr n : Word) (s : Kernel Mmu) : Prop where
  inv : I s.mem s.vga
  root : Alloc.kmallocEarlyAlign (BitVec.ofNat 32 inodeSize) a = .ok (s.ramdisk.root, a₁)
  dev : Alloc.kmallocEarlyAlign (BitVec.ofNat 32 inodeSize) a₁ = .ok (s.ramdisk.dev, a₂)
  nodes : Alloc.kmallocEarlyAlign (BitVec.ofNat 32 inodeSize * n) a₂ = .ok (s.ramdisk.rootNodes, a₃)
  counted : Counted I addr n
  stored : Counted I addr s.ramdisk.nrootNodes
  initrdH : s.ramdisk.initrdH = addr
  fileHeaders : s.ramdisk.fileHeaders = addr + BitVec.ofNat 32 initrdHeaderSize
  walked : Walked I s.ramdisk s.mem 0

/-- The heap is as the states in `B`, from which requests give addresses in `G`. -/
structure HeapFenced (G : Word → Prop) (B : Alloc → Prop) : Prop where
  give : ∀ {b b' size r}, B b → Alloc.kmallocEarlyAlign size b = .ok (r, b') → G r
  next : ∀ {b b' r}, B b → Alloc.kmallocEarlyAlign (BitVec.ofNat 32 inodeSize) b = .ok (r, b') → B b'

section Mount

variable {B : Alloc → Prop} {a₁ a₂ : Alloc}

theorem initDirectories_fenced (hf : Fenced I G) (hb : HeapFenced G B) (ha : B a) (h : Held I a rd s) :
    WhenReturns (initDirectories sym addr size) s fun _ s' => ∃ a₁ a₂ rd',
      Alloc.kmallocEarlyAlign (BitVec.ofNat 32 inodeSize) a = .ok (rd'.root, a₁) ∧
      Alloc.kmallocEarlyAlign (BitVec.ofNat 32 inodeSize) a₁ = .ok (rd'.dev, a₂) ∧ B a₂ ∧
      rd'.initrdH = addr ∧ rd'.fileHeaders = addr + BitVec.ofNat 32 initrdHeaderSize ∧ Held I a₂ rd' s' := by
  refine (setRamdisk_held h fun r => { r with
    initrdH := addr
    fileHeaders := addr + BitVec.ofNat 32 initrdHeaderSize
    image := .ofLen addr.toNat size.toNat }).bind fun _ s₁ h₁ => ?_
  refine (initDirectory_fenced hf h₁ _ fun _ _ => hb.give ha).bind fun root s₂ ⟨a₁, hroot, h₂⟩ => ?_
  have ha₁ := hb.next ha hroot
  refine (setRamdisk_held h₂ fun r => { r with root := root }).bind fun _ s₃ h₃ => ?_
  refine (initDirectory_fenced hf h₃ _ fun _ _ => hb.give ha₁).bind fun dev s₄ ⟨a₂, hdev, h₄⟩ => ?_
  refine (setRamdisk_held h₄ fun r => { r with dev := dev }).bind fun _ s₅ h₅ => .pure ?_
  exact ⟨a₁, a₂, _, hroot, hdev, hb.next ha₁ hdev, rfl, rfl, h₅⟩

theorem initNodes_fenced (hf : Fenced I G) (hb : HeapFenced G B) (ha : B a) (h : Held I a rd s)
    (hheaders : rd.fileHeaders = addr + BitVec.ofNat 32 initrdHeaderSize)
    (hprint : ∀ n s, I s.mem s.vga → WhenReturns (kPrintfln (cstr "nfiles: %d") (slots [n])) s fun _ s' =>
      I s'.mem s'.vga)
    (hheader : G (addr + BitVec.ofNat 32 initrdHeaderSize + BitVec.ofNat 32 headerOffset)) :
    WhenReturns (initNodes sym addr) s fun _ s' => ∃ n n' nodes block a',
      Alloc.kmallocEarlyAlign (BitVec.ofNat 32 inodeSize * n) a = .ok (nodes, a') ∧ Counted I addr n ∧
      Counted I addr n' ∧ Walked I s'.ramdisk s'.mem 0 ∧
      Held I a' { rd with rootNodes := nodes, block := block, nrootNodes := n' } s' := by
  unfold initNodes
  refine (WhenReturns.get (Q := fun r s' => Held I a rd s') h).bind fun s₁ s₂ h₂ => ?_
  refine (load32_held h₂ addr _).bind fun n s₃ ⟨h₃, _, hload⟩ => ?_
  have hcounted : Counted I addr n := ⟨_, _, h₂.inv, hload⟩
  refine (kmallocEarlyAlign_held h₃ _).bind fun nodes s₄ ⟨a', halloc, h₄⟩ => ?_
  have hgive := hb.give ha halloc
  refine (setRamdisk_held h₄ fun r => { r with
    rootNodes := nodes
    block := ⟨nodes.toNat, (nodes + BitVec.ofNat 32 inodeSize * n).toNat⟩ }).bind fun _ s₅ h₅ => ?_
  refine (load32_held h₅ addr _).bind fun n' s₆ ⟨h₆, _, hload'⟩ => ?_
  have hcounted' : Counted I addr n' := ⟨_, _, h₅.inv, hload'⟩
  refine (setRamdisk_held h₆ fun r => { r with nrootNodes := n' }).bind fun _ s₇ h₇ => ?_
  refine (kPrintfln_held h₇ (hprint n' s₇ h₇.inv)).bind fun _ s₈ h₈ => ?_
  refine (initFiles_fenced hf h₈ spinLimit 0 (by decide) ?_ ?_).mono fun _ s₉ ⟨h₉, hwalked⟩ => ?_
  · rw [Ramdisk.offsetField_zero, hheaders]
    exact hheader
  · rw [Ramdisk.node_zero]
    exact hgive
  · rw [← h₉.ramdisk] at hwalked
    exact ⟨n, n', nodes, _, a', halloc, hcounted, hcounted', hwalked, h₉⟩

/-- Any image that `ramdisk_init` comes back from. -/
theorem ramdiskInit_fenced (hf : Fenced I G) (hb : HeapFenced G B) (ha : B a) (h : Held I a rd s)
    (hprint : ∀ n s, I s.mem s.vga → WhenReturns (kPrintfln (cstr "nfiles: %d") (slots [n])) s fun _ s' =>
      I s'.mem s'.vga)
    (hheader : G (addr + BitVec.ofNat 32 initrdHeaderSize + BitVec.ofNat 32 headerOffset)) :
    WhenReturns (ramdiskInit sym addr size) s fun _ s' => ∃ a₁ a₂ a₃ n, MountRun I a a₁ a₂ a₃ addr n s' := by
  refine (initDirectories_fenced hf hb ha h).bind ?_
  rintro root s₁ ⟨a₁, a₂, rd, hroot, hdev, ha₂, hinitrd, hheaders, h₁⟩
  refine (initNodes_fenced hf hb ha₂ h₁ hheaders hprint hheader).bind ?_
  rintro _ s₂ ⟨n, n', nodes, block, a₃, hnodes, hcounted, hstored, hwalked, h₂⟩
  have hrd := h₂.ramdisk
  refine .pure ⟨a₁, a₂, a₃, n, ⟨h₂.inv, ?_, ?_, ?_, hcounted, ?_, ?_, ?_, hwalked⟩⟩
  · rw [hrd]
    exact hroot
  · rw [hrd]
    exact hdev
  · rw [hrd]
    exact hnodes
  · rw [hrd]
    exact hstored
  · rw [hrd]
    exact hinitrd
  · rw [hrd]
    exact hheaders

end Mount

/-! ## Images without files -/

/-- A page the heap gives, and where the driver may store. -/
structure HeapPage (I : Mmu → Vga → Prop) (G : Word → Prop) (v : Word) : Prop where
  stays : Stays I v
  store : G v
  aligned : v.toNat % 4096 = 0

theorem HeapPage.storeFields (hp : HeapPage I G v) (hf : Fenced I G) (h : Held I a rd s)
    {fields : List (Nat × Word)} (hfields : ∀ f ∈ fields, f.1 + 4 ≤ 4096) :
    Returns (storeFields v none fields) s fun _ s' => Held I a rd s' := by
  induction fields generalizing s with
  | nil => exact .of_eq rfl h
  | cons f fields ih =>
      have haligned := hp.aligned
      have hlow := hfields f (List.mem_cons_self ..)
      have hlt := v.isLt
      have hfield : Stays I (v + BitVec.ofNat 32 f.1) := hp.stays.congr (pageOf_add (by omega))
      have hstore := hf.ahead hp.store (hp.stays.mapped h) f.1 (by omega)
      have hpage : (v + BitVec.ofNat 32 f.1).toNat % 4096 + 4 ≤ 4096 := by
        rw [toNat_add_ofNat (by omega)]
        omega
      refine (hfield.store32 hf h hstore hpage f.2).bind fun _ s₁ h₁ => ?_
      exact ih h₁ fun f hf => hfields f (List.mem_cons_of_mem _ hf)

theorem initDirectory_returns {r : Word} {name : List Byte} (hf : Fenced I G) (h : Held I a rd s)
    (halloc : Alloc.kmallocEarlyAlign (BitVec.ofNat 32 inodeSize) a = .ok (r, a')) (hp : HeapPage I G r)
    (hne : name ≠ []) (hlen : name.length ≤ 4096) :
    Returns (initDirectory sym name) s fun r' s' => r' = r ∧ Held I a' rd s' := by
  have haligned := hp.aligned
  refine (kmallocEarlyAlign_returns h halloc).bind ?_
  rintro _ s₁ ⟨rfl, h₁⟩
  refine (hp.stays.strcpy hf h₁ hne hp.store (by omega)).bind fun _ s₂ h₂ => ?_
  refine (hp.storeFields hf h₂ (directoryFields_low sym)).bind fun _ s₃ h₃ => ?_
  exact .of_eq rfl ⟨rfl, h₃⟩

section Empty

variable {a₁ a₂ : Alloc} {root dev : Word}

theorem initDirectories_returns (hf : Fenced I G) (h : Held I a rd s)
    (hroot : Alloc.kmallocEarlyAlign (BitVec.ofNat 32 inodeSize) a = .ok (root, a₁)) (hpr : HeapPage I G root)
    (hdev : Alloc.kmallocEarlyAlign (BitVec.ofNat 32 inodeSize) a₁ = .ok (dev, a₂)) (hpd : HeapPage I G dev) :
    Returns (initDirectories sym addr size) s fun _ s' => ∃ rd', rd'.initrdH = addr ∧ Held I a₂ rd' s' := by
  refine .bind (.of_whenReturns (setRamdisk_held h fun r => { r with
    initrdH := addr
    fileHeaders := addr + BitVec.ofNat 32 initrdHeaderSize
    image := .ofLen addr.toNat size.toNat }) rfl) fun _ s₁ h₁ => ?_
  refine (initDirectory_returns hf h₁ hroot hpr (by decide) (by decide)).bind fun root s₂ ⟨_, h₂⟩ => ?_
  refine .bind (.of_whenReturns (setRamdisk_held h₂ fun r => { r with root := root }) rfl) fun _ s₃ h₃ => ?_
  refine (initDirectory_returns hf h₃ hdev hpd (by decide) (by decide)).bind fun dev s₄ ⟨_, h₄⟩ => ?_
  refine .bind (.of_whenReturns (setRamdisk_held h₄ fun r => { r with dev := dev }) rfl) fun _ s₅ h₅ => ?_
  exact .of_eq rfl ⟨_, rfl, h₅⟩

theorem initFiles_ended {fuel : Nat} (h : Held I a rd s) (hstays : Stays I rd.initrdH)
    (hpage : rd.initrdH.toNat % 4096 + 4 ≤ 4096)
    (hzero : ∀ m g n, I m g → Bus.load32 m rd.initrdH = .ok n → n = 0#32) (hfuel : 0 < fuel) (i : Word) :
    Returns (initFiles sym addr fuel i) s fun _ _ => True := by
  obtain ⟨fuel, rfl⟩ := Nat.exists_eq_add_of_lt hfuel
  rw [Nat.zero_add]
  refine .bind (P := fun r s' => r.ramdisk = rd ∧ Held I a rd s') (.of_eq rfl ⟨h.ramdisk, h⟩) ?_
  rintro s₀ s₁ ⟨hrd, h₁⟩
  rw [hrd]
  refine (hstays.load32 h₁ hpage _).bind ?_
  rintro n s₂ ⟨_, hload⟩
  obtain rfl := hzero _ _ n h₁.inv hload
  rw [if_neg BitVec.not_lt_zero]
  exact .of_eq rfl trivial

theorem initNodes_returns (h : Held I a rd s) (hstays : Stays I addr) (hpage : addr.toNat % 4096 + 4 ≤ 4096)
    (haddr : rd.initrdH = addr) (hzero : ∀ m g n, I m g → Bus.load32 m addr = .ok n → n = 0#32)
    (hin : a.initialized)
    (hprint : ∀ s, I s.mem s.vga → Returns (kPrintfln (cstr "nfiles: %d") (slots [0#32])) s fun _ s' =>
      I s'.mem s'.vga) :
    Returns (initNodes sym addr) s fun _ _ => True := by
  subst haddr
  unfold initNodes
  refine .bind (P := fun _ s' => Held I a rd s') (.of_eq rfl h) fun s₁ s₂ h₂ => ?_
  refine (hstays.load32 h₂ hpage _).bind ?_
  rintro n s₃ ⟨h₃, hload⟩
  obtain rfl := hzero _ _ n h₂.inv hload
  -- a request for no bytes gives NULL
  have halloc : Alloc.kmallocEarlyAlign (BitVec.ofNat 32 inodeSize * 0#32) a = .ok (0#32, a) := by
    rw [BitVec.mul_zero, Alloc.kmallocEarlyAlign, if_neg (not_not.mpr hin), if_pos rfl]
  refine (kmallocEarlyAlign_returns h₃ halloc).bind ?_
  rintro _ s₄ ⟨rfl, h₄⟩
  refine .bind (.of_whenReturns (setRamdisk_held h₄ fun r => { r with
    rootNodes := 0#32
    block := ⟨(0#32).toNat, (0#32 + BitVec.ofNat 32 inodeSize * 0#32).toNat⟩ }) rfl) fun _ s₅ h₅ => ?_
  refine (hstays.load32 h₅ hpage _).bind ?_
  rintro n s₆ ⟨h₆, hload⟩
  obtain rfl := hzero _ _ n h₅.inv hload
  refine .bind (.of_whenReturns (setRamdisk_held h₆ fun r => { r with nrootNodes := 0#32 }) rfl) fun _ s₇ h₇ => ?_
  obtain ⟨_, s₈, hprinted, _⟩ := hprint s₇ h₇.inv
  refine .bind (.of_whenReturns (kPrintfln_held h₇ (hprint s₇ h₇.inv).whenReturns) hprinted) fun _ s₉ h₉ => ?_
  exact initFiles_ended h₉ hstays hpage hzero (by decide) 0#32

/-- An image that says it has no files is mounted if there is room for the inodes of the directories. -/
theorem ramdiskInit_returns (hf : Fenced I G) (h : Held I a rd s)
    (hroot : Alloc.kmallocEarlyAlign (BitVec.ofNat 32 inodeSize) a = .ok (root, a₁)) (hpr : HeapPage I G root)
    (hdev : Alloc.kmallocEarlyAlign (BitVec.ofNat 32 inodeSize) a₁ = .ok (dev, a₂)) (hpd : HeapPage I G dev)
    (hin : a₂.initialized) (hstays : Stays I addr) (hpage : addr.toNat % 4096 + 4 ≤ 4096)
    (hzero : ∀ m g n, I m g → Bus.load32 m addr = .ok n → n = 0#32)
    (hprint : ∀ s, I s.mem s.vga → Returns (kPrintfln (cstr "nfiles: %d") (slots [0#32])) s fun _ s' =>
      I s'.mem s'.vga) :
    Returns (ramdiskInit sym addr size) s fun _ _ => True := by
  refine (initDirectories_returns hf h hroot hpr hdev hpd).bind ?_
  rintro _ s₁ ⟨rd', haddr, h₁⟩
  refine (initNodes_returns h₁ hstays hpage haddr hzero hin hprint).bind fun _ s₂ _ => ?_
  exact .of_eq rfl trivial

end Empty

end LizaOS
