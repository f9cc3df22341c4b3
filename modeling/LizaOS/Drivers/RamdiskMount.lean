-- SUMMARY: The file loop of the ramdisk driver: what it needs of the image, and what it leaves in memory.
import LizaOS.Drivers.InodeRun

/-!
# Mounting the files of an image

The loop of `ramdisk_init` patches the header of each file in the image and fills in the file's inode.
`FileFits` says when it can do so inside the image and inside the inode; `FilesDone` is its invariant.
The loop comes back with all files done if they fit, and has strayed if one does not.
-/

namespace LizaOS

open Exec

/-! ## The image -/

/-- The address of header `i` of the image at `a`. -/
def headerAt (a i : Nat) : Nat := a + initrdHeaderSize + fileHeaderSize * i

/-- The address of inode `i` of the array at `p`. -/
def nodeAt (p i : Nat) : Nat := p + inodeSize * i

/-- The memory once the offsets of the first `k` headers have been made absolute. -/
def relocate (m : Bytes) (addr : Word) : Nat → Bytes
  | 0 => m
  | k + 1 =>
      (relocate m addr k).write32 (headerAt addr.toNat k + headerOffset)
        ((relocate m addr k).read32 (headerAt addr.toNat k + headerOffset) + addr)

section Relocate

variable {m m' : Bytes} {addr : Word} {k x : Nat}

theorem relocate_other
    (h : ∀ i, i < k → x < headerAt addr.toNat i + headerOffset ∨ headerAt addr.toNat i + headerLength ≤ x) :
    relocate m addr k x = m x := by
  induction k with
  | zero => rfl
  | succ k ih =>
      have hk := h k (Nat.lt_succ_self k)
      simp only [headerOffset, headerLength] at hk
      rw [relocate, Bytes.write32_other (by simp only [headerOffset]; omega)]
      exact ih fun i hi => h i (Nat.lt_succ_of_lt hi)

/-- The bytes of header `i` other than its offset are those of the image. -/
theorem relocate_header {i j : Nat} (hj : j < headerOffset ∨ (headerLength ≤ j ∧ j < fileHeaderSize)) :
    relocate m addr k (headerAt addr.toNat i + j) = m (headerAt addr.toNat i + j) := by
  refine relocate_other fun i' _ => ?_
  simp only [headerAt, headerOffset, headerLength, fileHeaderSize] at *
  rcases Nat.lt_trichotomy i i' with h | rfl | h <;> omega

theorem relocate_length (i : Nat) :
    (relocate m addr k).read32 (headerAt addr.toNat i + headerLength) =
      m.read32 (headerAt addr.toNat i + headerLength) := by
  simp only [Bytes.read32, Nat.add_assoc _ headerLength]
  congr 1 <;> exact relocate_header (.inr (by decide))

theorem relocate_offset {i : Nat} (hi : i < k) :
    (relocate m addr k).read32 (headerAt addr.toNat i + headerOffset) =
      m.read32 (headerAt addr.toNat i + headerOffset) + addr := by
  induction k with
  | zero => omega
  | succ k ih =>
      rw [relocate]
      rcases Nat.lt_succ_iff_lt_or_eq.mp hi with h | rfl
      · rw [Bytes.read32_write32_other, ih h]
        simp only [headerAt, headerOffset, fileHeaderSize]
        omega
      · rw [Bytes.read32_write32_same]
        congr 1
        refine Bytes.read32_congr fun x hx hx' => relocate_other fun i' hi' => ?_
        simp only [headerAt, headerOffset, headerLength, fileHeaderSize] at *
        omega

theorem relocate_nfiles : (relocate m addr k).read32 addr.toNat = m.read32 addr.toNat := by
  refine Bytes.read32_congr fun x hx hx' => relocate_other fun i _ => ?_
  simp only [headerAt, headerOffset, initrdHeaderSize]
  omega

end Relocate

/-- The bytes `strcpy` reads as the name of file `i`. Those behind the name field belong to whatever
follows in the image, the file's own offset already patched. -/
def nameBytes (m : Bytes) (addr : Word) (i : Nat) : Nat → Byte :=
  fun j => relocate m addr (i + 1) (headerAt addr.toNat i + headerName + j)

/-- Header and name of file `i` lie in the image, and the `len` bytes of the name in the name field of
an inode. -/
structure FileFits (m : Bytes) (addr size : Word) (i len : Nat) : Prop where
  header : headerAt addr.toNat i + fileHeaderSize ≤ addr.toNat + size.toNat
  copy : CopyLen (nameBytes m addr i) len
  field : len ≤ inodeNameLen
  inside : headerAt addr.toNat i + headerName + len < addr.toNat + size.toNat

/-- The fields the loop stores for file `i`. -/
def nodeFields (sym : RamdiskSymbols) (m : Bytes) (addr : Word) (i : Nat) : List (Nat × Word) :=
  fileOwnerFields ++
    fileFields sym (BitVec.ofNat 32 i) (m.read32 (headerAt addr.toNat i + headerLength))

theorem offsets_nodeFields (sym : RamdiskSymbols) (m : Bytes) (addr : Word) (i : Nat) :
    offsets (nodeFields sym m addr i) =
      [136, 132, 128, 148, 144, 140, 156, 160, 172, 176, 164, 168, 152] := rfl

theorem nodeFields_inside (sym : RamdiskSymbols) (m : Bytes) (addr : Word) (i : Nat) :
    FieldsInside (nodeFields sym m addr i) := by
  rw [FieldsInside, offsets_nodeFields]
  decide

theorem nodeFields_apart (sym : RamdiskSymbols) (m : Bytes) (addr : Word) (i : Nat) :
    FieldsApart (nodeFields sym m addr i) := by
  rw [FieldsApart, offsets_nodeFields]
  decide

/-! ## The invariant -/

/-- Inode `i` is filled in: its name field holds the bytes copied and, behind them, what was there
before, and its fields are stored. `m₀` is the memory before the loop and `img` holds the image. -/
structure FileDone (sym : RamdiskSymbols) (img m₀ : Bytes) (addr size : Word) (p i : Nat) (m : Bytes) :
    Prop where
  name : ∃ len, FileFits img addr size i len ∧
    ∀ j, j < inodeNameLen → m (nodeAt p i + j) =
      if j < len then nameBytes img addr i j else m₀ (nodeAt p i + j)
  fields : HasFields m (nodeAt p i) (nodeFields sym img addr i)

/-- The memory when the first `k` files are done. -/
structure FilesDone (sym : RamdiskSymbols) (img m₀ : Bytes) (addr size : Word) (p k : Nat) (m : Bytes) :
    Prop where
  image : ∀ x, x ∈ Extent.ofLen addr.toNat size.toNat → m x = relocate img addr k x
  files : ∀ i, i < k → FileDone sym img m₀ addr size p i m
  frame : ∀ x, x ∉ Extent.ofLen addr.toNat size.toNat → x ∉ Extent.ofLen p (inodeSize * k) → m x = m₀ x

/-- The driver's globals before the loop, and where its objects lie. -/
structure LoopReady (addr size : Word) (rd : Ramdisk) : Prop where
  initrdH : rd.initrdH = addr
  fileHeaders : rd.fileHeaders = addr + BitVec.ofNat 32 initrdHeaderSize
  image : rd.image = .ofLen addr.toNat size.toNat
  block_lo : rd.block.lo = rd.rootNodes.toNat
  block_hi : rd.block.hi ≤ 2 ^ 32 - 4096
  block_len : rd.block.lo ≤ rd.block.hi → (rd.block.hi - rd.block.lo) % 8 = 0
  apart : ∀ x, x ∈ Extent.ofLen addr.toNat size.toNat → x ∉ rd.block
  fits : addr.toNat + size.toNat ≤ 2 ^ 32
  /-- Some of the address space, large enough for an inode, is left beside the image. -/
  spare : inodeSize ≤ addr.toNat ∨ addr.toNat + size.toNat + inodeSize ≤ 2 ^ 32

section Loop

variable {sym : RamdiskSymbols} {addr size : Word} {img m₀ m : Bytes} {s : Kernel Flat} {i len : Nat}

/-- Element `i` of the array lies in its block. -/
def ElementFits (rd : Ramdisk) (i : Nat) : Prop := nodeAt rd.rootNodes.toNat i + inodeSize ≤ rd.block.hi

theorem header_toNat (h : LoopReady addr size s.ramdisk)
    (hi : headerAt addr.toNat i + headerLength ≤ addr.toNat + size.toNat) :
    (s.ramdisk.header (BitVec.ofNat 32 i)).toNat = headerAt addr.toNat i := by
  have hfits := h.fits
  simp only [headerAt, headerLength, fileHeaderSize, initrdHeaderSize] at hi ⊢
  simp only [Ramdisk.header, h.fileHeaders, fileHeaderSize, initrdHeaderSize, BitVec.toNat_add,
    BitVec.toNat_mul, BitVec.toNat_ofNat]
  omega

theorem node_toNat (h : LoopReady addr size s.ramdisk) (hi : ElementFits s.ramdisk i) :
    (s.ramdisk.node (BitVec.ofNat 32 i)).toNat = nodeAt s.ramdisk.rootNodes.toNat i := by
  have hhi := h.block_hi
  simp only [ElementFits, nodeAt, inodeSize] at hi ⊢
  simp only [Ramdisk.node, inodeSize, BitVec.toNat_add, BitVec.toNat_mul, BitVec.toNat_ofNat]
  omega

/-- The memory after the offset of header `i` has been patched. -/
def patchHeader (img : Bytes) (addr : Word) (i : Nat) (m : Bytes) : Bytes :=
  m.write32 (headerAt addr.toNat i + headerOffset)
    ((relocate img addr i).read32 (headerAt addr.toNat i + headerOffset) + addr)

theorem patchHeader_image (hm : ∀ x, x ∈ Extent.ofLen addr.toNat size.toNat → m x = relocate img addr i x)
    {x : Nat} (hx : x ∈ Extent.ofLen addr.toNat size.toNat) :
    patchHeader img addr i m x = relocate img addr (i + 1) x := by
  rw [patchHeader, relocate]
  simp only [Bytes.write32, Bytes.write8, hm x hx]

/-- The memory after file `i`: its header, its name and its fields have been written. -/
def mountFile (sym : RamdiskSymbols) (img : Bytes) (addr : Word) (p i len : Nat) (m : Bytes) : Bytes :=
  writeFields ((patchHeader img addr i m).fill (nodeAt p i) len (nameBytes img addr i)) (nodeAt p i)
    (nodeFields sym img addr i)

/-- Outside the header's offset and the inode, file `i` leaves memory alone. -/
theorem mountFile_other {p x : Nat} (hlen : len ≤ inodeNameLen)
    (hheader : x < headerAt addr.toNat i + headerOffset ∨ headerAt addr.toNat i + headerLength ≤ x)
    (hnode : x < nodeAt p i ∨ nodeAt p i + inodeSize ≤ x) :
    mountFile sym img addr p i len m x = m x := by
  simp only [headerOffset, headerLength, inodeNameLen, inodeSize] at hheader hnode hlen
  rw [mountFile, writeFields_outside (nodeFields_inside sym img addr i), Bytes.fill_outside,
    patchHeader, Bytes.write32_other]
  · simp only [headerOffset]
    omega
  · omega
  · simp only [inodeNameLen, inodeSize]
    omega

/-- In the image, file `i` patches its header. -/
theorem mountFile_image (hm : ∀ x, x ∈ Extent.ofLen addr.toNat size.toNat → m x = relocate img addr i x)
    {p : Nat} (hlen : len ≤ inodeNameLen)
    (hapart : ∀ x, x ∈ Extent.ofLen addr.toNat size.toNat → x < nodeAt p i ∨ nodeAt p i + inodeSize ≤ x)
    {x : Nat} (hx : x ∈ Extent.ofLen addr.toNat size.toNat) :
    mountFile sym img addr p i len m x = relocate img addr (i + 1) x := by
  have hnode := hapart x hx
  simp only [inodeNameLen, inodeSize] at hlen hnode
  rw [mountFile, writeFields_outside (nodeFields_inside sym img addr i), Bytes.fill_outside]
  · exact patchHeader_image hm hx
  · omega
  · simp only [inodeNameLen, inodeSize]
    omega

/-- File `i` leaves its inode done. -/
theorem mountFile_done {p : Nat} (hfit : FileFits img addr size i len)
    (hm : ∀ x, nodeAt p i ≤ x → x < nodeAt p i + inodeNameLen → m x = m₀ x)
    (hapart : headerAt addr.toNat i + headerLength ≤ nodeAt p i ∨
      nodeAt p i + inodeNameLen ≤ headerAt addr.toNat i + headerOffset) :
    FileDone sym img m₀ addr size p i (mountFile sym img addr p i len m) where
  name := by
    refine ⟨len, hfit, fun j hj => ?_⟩
    have hname : nodeAt p i + j < nodeAt p i + inodeNameLen := Nat.add_lt_add_left hj _
    rw [mountFile, writeFields_outside (nodeFields_inside sym img addr i) (.inl hname)]
    by_cases hlen : j < len
    · rw [if_pos hlen, Bytes.fill_inside hlen]
    · rw [if_neg hlen, Bytes.fill_outside (by omega), patchHeader, Bytes.write32_other,
        hm _ (Nat.le_add_right _ _) hname]
      simp only [headerOffset, headerLength] at hapart ⊢
      omega
  fields := hasFields_writeFields (nodeFields_apart sym img addr i)

theorem FilesDone.succ {rd : Ramdisk} (hready : LoopReady addr size rd)
    (hdone : FilesDone sym img m₀ addr size rd.rootNodes.toNat i m)
    (hfit : FileFits img addr size i len) (helem : ElementFits rd i) :
    FilesDone sym img m₀ addr size rd.rootNodes.toNat (i + 1)
      (mountFile sym img addr rd.rootNodes.toNat i len m) := by
  have hblock : ∀ x, rd.rootNodes.toNat ≤ x → x < nodeAt rd.rootNodes.toNat i + inodeSize →
      x ∉ Extent.ofLen addr.toNat size.toNat := by
    intro x hlo hhi hx
    refine hready.apart x hx ⟨hready.block_lo.symm ▸ hlo, ?_⟩
    exact Nat.lt_of_lt_of_le hhi helem
  have himage : ∀ x, x ∈ Extent.ofLen addr.toNat size.toNat →
      x < nodeAt rd.rootNodes.toNat i ∨ nodeAt rd.rootNodes.toNat i + inodeSize ≤ x := by
    intro x hx
    by_contra hin
    refine hblock x ?_ ?_ hx
    · simp only [nodeAt] at hin
      omega
    · omega
  have hheader : ∀ x, x ∉ Extent.ofLen addr.toNat size.toNat →
      x < headerAt addr.toNat i + headerOffset ∨ headerAt addr.toNat i + headerLength ≤ x := by
    intro x hx
    have hin := hfit.header
    rw [Extent.mem_ofLen] at hx
    simp only [headerAt, headerOffset, headerLength, fileHeaderSize] at hin ⊢
    omega
  refine ⟨fun x => mountFile_image hdone.image hfit.field himage, fun k hk => ?_, fun x hx hnode => ?_⟩
  · rcases Nat.lt_succ_iff_lt_or_eq.mp hk with hlt | rfl
    · -- The inodes before are below this one and outside the image.
      have hold := hdone.files k hlt
      have hbelow : nodeAt rd.rootNodes.toNat k + inodeSize ≤ nodeAt rd.rootNodes.toNat i := by
        simp only [nodeAt, inodeSize]
        omega
      have hkeep : ∀ x, nodeAt rd.rootNodes.toNat k ≤ x → x < nodeAt rd.rootNodes.toNat k + inodeSize →
          mountFile sym img addr rd.rootNodes.toNat i len m x = m x := by
        intro x hlo hhi
        refine mountFile_other hfit.field (hheader x (hblock x ?_ ?_)) (.inl (by omega))
        · simp only [nodeAt] at hlo
          omega
        · omega
      obtain ⟨len', hfit', hname⟩ := hold.name
      refine ⟨⟨len', hfit', fun j hj => ?_⟩, ?_⟩
      · simp only [inodeNameLen] at hj
        rw [hkeep _ (Nat.le_add_right _ _) (by simp only [inodeSize]; omega), hname j hj]
      · refine hold.fields.congr (nodeFields_inside sym img addr k) fun x hlo hhi => hkeep x ?_ hhi
        exact Nat.le_trans (Nat.le_add_right _ _) hlo
    · refine mountFile_done hfit (fun x hlo hhi => ?_) ?_
      · refine hdone.frame x (hblock x ?_ ?_) ?_
        · simp only [nodeAt] at hlo
          omega
        · simp only [inodeNameLen, inodeSize] at hhi ⊢
          omega
        · rw [Extent.mem_ofLen]
          simp only [nodeAt] at hlo
          omega
      · have hin := hfit.header
        have hx := himage (headerAt addr.toNat k + headerOffset)
        have hx' := himage (headerAt addr.toNat k + headerLength - 1)
        simp only [Extent.mem_ofLen, headerAt, headerOffset, headerLength, fileHeaderSize,
          initrdHeaderSize, nodeAt, inodeSize, inodeNameLen] at hin hx hx' ⊢
        omega
  · rw [Extent.mem_ofLen] at hnode
    simp only [inodeSize] at hnode
    rw [mountFile_other hfit.field (hheader x hx)]
    · refine hdone.frame x hx ?_
      rw [Extent.mem_ofLen]
      simp only [inodeSize]
      omega
    · simp only [nodeAt, inodeSize]
      omega

/-! ## One turn -/

theorem word_image {a : Word} (hready : LoopReady addr size s.ramdisk)
    (hin : (Extent.ofLen a.toNat 4).Within (.ofLen addr.toNat size.toNat)) (m : Bytes) :
    (s.withRam m).mem.word a = m.read32 a.toNat := by
  have hfits := hready.fits
  have hhi := hin.2
  simp only [Extent.ofLen] at hhi
  rw [Flat.word_eq (by omega), withRam_ram]

/-- The name of a file reads the same while it is copied out of the image. -/
theorem name_get (hready : LoopReady addr size s.ramdisk) {header node : Word} {j k : Nat}
    (hm : ∀ x, x ∈ Extent.ofLen addr.toNat size.toNat → m x = relocate img addr (i + 1) x)
    (hheader : header.toNat = headerAt addr.toNat i)
    (hj : headerAt addr.toNat i + headerName + j < addr.toNat + size.toNat)
    (hout : ∀ x, x ∈ Extent.ofLen addr.toNat size.toNat → x < node.toNat ∨ node.toNat + k ≤ x) :
    (Src.mem (header + BitVec.ofNat 32 headerName) s.ramdisk.image).get j
        (copied (s.withRam m) node (nameBytes img addr i) k) =
      .ok (nameBytes img addr i j, copied (s.withRam m) node (nameBytes img addr i) k) := by
  have hfits := hready.fits
  have hname : (header + BitVec.ofNat 32 headerName + BitVec.ofNat 32 j).toNat =
      headerAt addr.toNat i + headerName + j := by
    simp only [headerName] at hj ⊢
    rw [toNat_add_ofNat (k := j), toNat_add_ofNat, hheader]
    · omega
    · rw [toNat_add_ofNat] <;> omega
  have hx : headerAt addr.toNat i + headerName + j ∈ Extent.ofLen addr.toNat size.toNat := by
    rw [Extent.mem_ofLen]
    simp only [headerAt] at hj ⊢
    omega
  have hin : Within (some s.ramdisk.image) (header + BitVec.ofNat 32 headerName + BitVec.ofNat 32 j) 1 := by
    rw [within_some, hready.image, hname]
    rw [Extent.mem_ofLen] at hx
    simp only [Extent.Within, Extent.ofLen]
    omega
  rw [Src.get, load8_run hin]
  congr 2
  simp only [Flat.byte, hname, copied, Flat.fill, withRam_ram]
  rw [Bytes.fill_outside (hout _ hx), hm _ hx, nameBytes]

/-- Bytes stored into the block are not in the image. -/
theorem image_apart (hready : LoopReady addr size s.ramdisk) {lo hi : Nat}
    (hlo : s.ramdisk.rootNodes.toNat ≤ lo) (hhi : hi ≤ s.ramdisk.block.hi) :
    ∀ x, x ∈ Extent.ofLen addr.toNat size.toNat → x < lo ∨ hi ≤ x := by
  intro x hx
  by_contra hin
  refine hready.apart x hx ⟨?_, by omega⟩
  rw [hready.block_lo]
  omega

/-- A word of header `i` lies in the image. -/
theorem header_within (hready : LoopReady addr size s.ramdisk)
    (hin : headerAt addr.toNat i + headerLength ≤ addr.toNat + size.toNat) {o : Nat}
    (ho : headerAt addr.toNat i + o + 4 ≤ addr.toNat + size.toNat) :
    (s.ramdisk.header (BitVec.ofNat 32 i) + BitVec.ofNat 32 o).toNat = headerAt addr.toNat i + o ∧
      Within s.ramdisk.image (s.ramdisk.header (BitVec.ofNat 32 i) + BitVec.ofNat 32 o) 4 := by
  have hfits := hready.fits
  have hheader := header_toNat hready hin
  have hword : (s.ramdisk.header (BitVec.ofNat 32 i) + BitVec.ofNat 32 o).toNat =
      headerAt addr.toNat i + o := by rw [toNat_add_ofNat (by omega), hheader]
  refine ⟨hword, ?_⟩
  rw [within_some, hready.image, hword]
  simp only [Extent.Within, Extent.ofLen, headerAt] at ho ⊢
  omega

/-- The offset of header `i` is loaded and stored back patched. -/
theorem patchHeader_run (hready : LoopReady addr size s.ramdisk)
    (hm : ∀ x, x ∈ Extent.ofLen addr.toNat size.toNat → m x = relocate img addr i x)
    (hin : headerAt addr.toNat i + headerLength ≤ addr.toNat + size.toNat) :
    load32 (s.ramdisk.header (BitVec.ofNat 32 i) + BitVec.ofNat 32 headerOffset) s.ramdisk.image
        (s.withRam m) =
      .ok ((relocate img addr i).read32 (headerAt addr.toNat i + headerOffset), s.withRam m) ∧
    store32 (s.ramdisk.header (BitVec.ofNat 32 i) + BitVec.ofNat 32 headerOffset)
        ((relocate img addr i).read32 (headerAt addr.toNat i + headerOffset) + addr) none (s.withRam m) =
      .ok ((), s.withRam (patchHeader img addr i m)) := by
  have hfits := hready.fits
  obtain ⟨hoff, hoffin⟩ := header_within hready hin (o := headerOffset) hin
  simp only [headerLength] at hin
  refine ⟨?_, ?_⟩
  · rw [load32_run hoffin, word_image hready (hready.image ▸ within_some.mp hoffin), hoff]
    congr 2
    refine Bytes.read32_congr fun x hx hx' => hm x ?_
    rw [Extent.mem_ofLen]
    simp only [headerOffset, headerAt] at hx hx' hin
    omega
  · rw [store32_run (within_none _ _), patchHeader, ← hoff]
    simp only [Kernel.withRam]
    rw [← Flat.setWord_ram (m := { s.mem with ram := m })]
    · rfl
    · rw [hoff]
      simp only [headerOffset]
      omega

theorem ofNat_toNat_element (hready : LoopReady addr size s.ramdisk) (helem : ElementFits s.ramdisk i) :
    (BitVec.ofNat 32 i).toNat = i := by
  have hhi := hready.block_hi
  simp only [ElementFits, nodeAt, inodeSize] at helem
  rw [BitVec.toNat_ofNat]
  omega

/-- A field of inode `i` lies in its element. -/
theorem element_within (hready : LoopReady addr size s.ramdisk) (helem : ElementFits s.ramdisk i)
    {o : Nat} (ho : o + 4 ≤ inodeSize) :
    Within (s.ramdisk.element (BitVec.ofNat 32 i))
      (s.ramdisk.node (BitVec.ofNat 32 i) + BitVec.ofNat 32 o) 4 := by
  have hnode := node_toNat hready helem
  have hhi := hready.block_hi
  have hlo := hready.block_lo
  have helem' := helem
  simp only [ElementFits, nodeAt, inodeSize] at helem' hnode ho
  rw [within_some, Ramdisk.element, Extent.within_inter, toNat_add_ofNat (by omega), hnode,
    ofNat_toNat_element hready helem]
  simp only [Extent.Within, Extent.ofLen, inodeSize]
  omega

/-- A byte of the name of inode `i` lies in the name field. -/
theorem elementName_within (hready : LoopReady addr size s.ramdisk) (helem : ElementFits s.ramdisk i)
    {j : Nat} (hj : j < inodeNameLen) :
    Within (s.ramdisk.elementName (BitVec.ofNat 32 i))
      (s.ramdisk.node (BitVec.ofNat 32 i) + BitVec.ofNat 32 j) 1 := by
  have hnode := node_toNat hready helem
  have hhi := hready.block_hi
  have hlo := hready.block_lo
  have helem' := helem
  simp only [ElementFits, nodeAt, inodeSize] at helem' hnode
  simp only [inodeNameLen] at hj
  rw [within_some, Ramdisk.elementName, Extent.within_inter, toNat_add_ofNat (by omega), hnode,
    ofNat_toNat_element hready helem]
  simp only [Extent.Within, Extent.ofLen, inodeSize, inodeNameLen]
  omega

theorem storeFields_element (hready : LoopReady addr size s.ramdisk) (helem : ElementFits s.ramdisk i)
    {fields : List (Nat × Word)} (hf : FieldsInside fields) (r : Bytes) :
    storeFields (s.ramdisk.node (BitVec.ofNat 32 i)) (s.ramdisk.element (BitVec.ofNat 32 i)) fields
        (s.withRam r) =
      .ok ((), s.withRam (writeFields r (nodeAt s.ramdisk.rootNodes.toNat i) fields)) := by
  have hnode := node_toNat hready helem
  have hhi := hready.block_hi
  have hfit : ∀ f ∈ fields, (s.ramdisk.node (BitVec.ofNat 32 i)).toNat + f.1 + 4 ≤ 2 ^ 32 := by
    intro f hmem
    have hin := hf f.1 (List.mem_map_of_mem hmem)
    simp only [ElementFits, inodeSize] at helem
    simp only [inodeSize] at hin
    rw [hnode]
    omega
  have hrun := storeFields_run (s := s.withRam r) hfit
    fun f hmem => element_within hready helem (hf f.1 (List.mem_map_of_mem hmem)).2
  rw [hrun, hnode]
  rfl

theorem fileFields_inside (sym : RamdiskSymbols) (i length : Word) :
    FieldsInside fileOwnerFields ∧ FieldsInside (fileFields sym i length) := by
  have howner : offsets fileOwnerFields = [136, 132, 128] := rfl
  have hfile : offsets (fileFields sym i length) =
      [148, 144, 140, 156, 160, 172, 176, 164, 168, 152] := rfl
  rw [FieldsInside, FieldsInside, howner, hfile]
  decide

/-- One turn of the loop, for a file that fits. -/
theorem initFile_run (hready : LoopReady addr size s.ramdisk)
    (hdone : FilesDone sym img m₀ addr size s.ramdisk.rootNodes.toNat i m)
    (hfit : FileFits img addr size i len) (helem : ElementFits s.ramdisk i) :
    initFile sym addr (BitVec.ofNat 32 i) (s.withRam m) =
      .ok ((), s.withRam (mountFile sym img addr s.ramdisk.rootNodes.toNat i len m)) := by
  have hhi := hready.block_hi
  have hlen : len ≤ 128 := hfit.field
  have hinside := hfit.inside
  have hin : headerAt addr.toNat i + headerLength + 4 ≤ addr.toNat + size.toNat := hfit.header
  have hin' : headerAt addr.toNat i + headerLength ≤ addr.toNat + size.toNat := by omega
  have hnodehi : nodeAt s.ramdisk.rootNodes.toNat i + 184 ≤ s.ramdisk.block.hi := helem
  have hnodelo : s.ramdisk.rootNodes.toNat ≤ nodeAt s.ramdisk.rootNodes.toNat i := Nat.le_add_right _ _
  have hheader := header_toNat hready hin'
  have hnode := node_toNat hready helem
  obtain ⟨hlength, hlengthin⟩ := header_within hready hin' (o := headerLength) hin
  obtain ⟨hload, hpatch⟩ := patchHeader_run hready hdone.image hin'
  generalize hm₁ : patchHeader img addr i m = m₁ at hpatch
  have himage₁ : ∀ x, x ∈ Extent.ofLen addr.toNat size.toNat → m₁ x = relocate img addr (i + 1) x := by
    intro x hx
    rw [← hm₁]
    exact patchHeader_image hdone.image hx
  -- The name is copied.
  have hnodefit : (s.ramdisk.node (BitVec.ofNat 32 i)).toNat + len ≤ 2 ^ 32 := by omega
  have hcopy := strcpy_run (s := s.withRam m₁) hfit.copy hnodefit
    (fun j k hj hk => name_get hready himage₁ hheader (by omega)
      (image_apart hready (by omega) (by omega)))
    (fun j hj => elementName_within hready helem (by simp only [inodeNameLen]; omega))
  rw [copied_eq_withRam, withRam_ram, withRam_withRam, hnode] at hcopy
  generalize hm₂ : m₁.fill (nodeAt s.ramdisk.rootNodes.toNat i) len (nameBytes img addr i) = m₂ at hcopy
  -- The length is read behind the first fields, which are not in the image.
  obtain ⟨howner, hfile⟩ := fileFields_inside sym (BitVec.ofNat 32 i)
    (img.read32 (headerAt addr.toNat i + headerLength))
  have hread : (s.withRam (writeFields m₂ (nodeAt s.ramdisk.rootNodes.toNat i) fileOwnerFields)).mem.word
      (s.ramdisk.header (BitVec.ofNat 32 i) + BitVec.ofNat 32 headerLength) =
      img.read32 (headerAt addr.toNat i + headerLength) := by
    rw [word_image hready (hready.image ▸ within_some.mp hlengthin), hlength,
      ← relocate_length (m := img) (k := i + 1)]
    refine Bytes.read32_congr fun x hx hx' => ?_
    have hmem : x ∈ Extent.ofLen addr.toNat size.toNat := by
      rw [Extent.mem_ofLen]
      simp only [headerLength, headerAt] at hx hx' hin
      omega
    have hout := image_apart hready hnodelo hnodehi x hmem
    rw [writeFields_outside howner, ← hm₂, Bytes.fill_outside, himage₁ x hmem]
    · omega
    · simp only [inodeNameLen, inodeSize]
      omega
  rw [initFile, bind_run (get_apply _)]
  simp only [withRam_ramdisk]
  rw [bind_run hload, bind_run hpatch, bind_run hcopy,
    bind_run (storeFields_element hready helem howner m₂), bind_run (load32_run hlengthin), hread,
    storeFields_element hready helem hfile, mountFile, nodeFields, writeFields_append, hm₁, hm₂]

theorem initFile_remembers (sym : RamdiskSymbols) (addr i : Word) :
    Remembers (initFile sym addr i : K Flat Unit) :=
  Remembers.get.bind fun _ => (Remembers.load32 _ _).bind fun _ => (Remembers.store32 _ _ _).bind fun _ =>
    (strcpy_remembers _ _ _).bind fun _ => (storeFields_remembers _ _ _).bind fun _ =>
      (Remembers.load32 _ _).bind fun _ => storeFields_remembers _ _ _

/-- A name that was copied without straying fits. -/
theorem name_clean {s' : Kernel Flat} (hready : LoopReady addr size s.ramdisk)
    (hm : ∀ x, x ∈ Extent.ofLen addr.toNat size.toNat → m x = relocate img addr (i + 1) x)
    (hin : headerAt addr.toNat i + headerLength ≤ addr.toNat + size.toNat) (hi : i < 2 ^ 32)
    (hrun : strcpy (s.ramdisk.node (BitVec.ofNat 32 i))
      (.mem (s.ramdisk.header (BitVec.ofNat 32 i) + BitVec.ofNat 32 headerName) s.ramdisk.image)
      (s.ramdisk.elementName (BitVec.ofNat 32 i)) (s.withRam m) = .ok ((), s'))
    (hs : s'.strayed = false) :
    nodeAt s.ramdisk.rootNodes.toNat i < s.ramdisk.block.hi ∧
      ∃ len, CopyLen (nameBytes img addr i) len ∧ len ≤ inodeNameLen ∧
        headerAt addr.toNat i + headerName + len < addr.toNat + size.toNat := by
  have hfits := hready.fits
  have hspare := hready.spare
  have hhi := hready.block_hi
  have hlo := hready.block_lo
  have hheader := header_toNat hready hin
  have hi' : (BitVec.ofNat 32 i).toNat = i := by
    rw [BitVec.toNat_ofNat]
    omega
  have hnode : (s.ramdisk.node (BitVec.ofNat 32 i)).toNat =
      nodeAt s.ramdisk.rootNodes.toNat i % 2 ^ 32 := by
    simp only [Ramdisk.node, inodeSize, BitVec.toNat_add, BitVec.toNat_mul, BitVec.toNat_ofNat, nodeAt]
    omega
  simp only [headerLength] at hin
  simp only [inodeSize] at hspare
  -- The name field, as far as it lies in the block.
  have hfield : ∀ j, Within (s.ramdisk.elementName (BitVec.ofNat 32 i))
      (s.ramdisk.node (BitVec.ofNat 32 i) + BitVec.ofNat 32 j) 1 ↔
      nodeAt s.ramdisk.rootNodes.toNat i ≤ (nodeAt s.ramdisk.rootNodes.toNat i + j) % 2 ^ 32 ∧
        (nodeAt s.ramdisk.rootNodes.toNat i + j) % 2 ^ 32 <
          min (nodeAt s.ramdisk.rootNodes.toNat i + 128) s.ramdisk.block.hi := by
    intro j
    rw [within_some, Ramdisk.elementName, Extent.within_inter, BitVec.toNat_add, hnode, hi',
      BitVec.toNat_ofNat]
    simp only [Extent.Within, Extent.ofLen, inodeNameLen, nodeAt]
    omega
  have hblock : nodeAt s.ramdisk.rootNodes.toNat i < s.ramdisk.block.hi := by
    have hfirst := (hfield 0).mp (strcpy_clean_first hrun hs)
    omega
  have hnode' : (s.ramdisk.node (BitVec.ofNat 32 i)).toNat = nodeAt s.ramdisk.rootNodes.toNat i := by
    omega
  have hnodelo : s.ramdisk.rootNodes.toNat ≤ nodeAt s.ramdisk.rootNodes.toNat i := Nat.le_add_right _ _
  have hcap : ¬ Within (s.ramdisk.elementName (BitVec.ofNat 32 i))
      (s.ramdisk.node (BitVec.ofNat 32 i) + BitVec.ofNat 32 128) 1 := by
    rw [hfield]
    omega
  obtain ⟨len, hlen, hcopy, _, hread⟩ := strcpy_clean (f := nameBytes img addr i)
    (R := fun j => headerAt addr.toNat i + headerName + j < addr.toNat + size.toNat) hrun hs
    (by omega) (fun j k b s₁ hj hk hstored hget hs₁ => by
      have hword : (s.ramdisk.header (BitVec.ofNat 32 i) + BitVec.ofNat 32 headerName +
          BitVec.ofNat 32 j).toNat = (headerAt addr.toNat i + headerName + j) % 2 ^ 32 := by
        rw [BitVec.toNat_add, toNat_add_ofNat, hheader, BitVec.toNat_ofNat] <;>
          simp only [headerName] <;> omega
      have hR : headerAt addr.toNat i + headerName + j < addr.toNat + size.toNat := by
        have himage := (load8_clean hget hs₁).1
        rw [within_some, hready.image, hword] at himage
        simp only [Extent.Within, Extent.ofLen, headerName] at himage ⊢
        omega
      have hstop : nodeAt s.ramdisk.rootNodes.toNat i + k ≤ s.ramdisk.block.hi := by
        rcases Nat.eq_zero_or_pos k with rfl | hpos
        · omega
        · have hlast := (hfield (k - 1)).mp (hstored (k - 1) (by omega))
          omega
      rw [← hnode'] at hstop hnodelo
      rw [name_get hready hm hheader hR (image_apart hready hnodelo hstop)] at hget
      cases hget
      exact ⟨hR, rfl, rfl⟩) hcap
  exact ⟨hblock, len, hcopy, hlen, hread len (Nat.le_refl len)⟩

/-- A turn that has not strayed was for a file that fits. -/
theorem initFile_clean {s' : Kernel Flat} (hready : LoopReady addr size s.ramdisk)
    (hdone : FilesDone sym img m₀ addr size s.ramdisk.rootNodes.toNat i m)
    (hstart : headerAt addr.toNat i ≤ addr.toNat + size.toNat)
    (hrun : initFile sym addr (BitVec.ofNat 32 i) (s.withRam m) = .ok ((), s'))
    (hs : s'.strayed = false) :
    (∃ len, FileFits img addr size i len) ∧ ElementFits s.ramdisk i := by
  have hfits := hready.fits
  have hspare := hready.spare
  have hhi := hready.block_hi
  have hlo := hready.block_lo
  have hlen8 := hready.block_len
  rw [initFile, bind_run (get_apply _)] at hrun
  simp only [withRam_ramdisk] at hrun
  have hheader : (s.ramdisk.header (BitVec.ofNat 32 i)).toNat = headerAt addr.toNat i % 2 ^ 32 := by
    simp only [Ramdisk.header, hready.fileHeaders, fileHeaderSize, initrdHeaderSize, BitVec.toNat_add,
      BitVec.toNat_mul, BitVec.toNat_ofNat, headerAt]
    omega
  -- The offset was read in the image.
  obtain ⟨offset, s₁, hload, hs₁, hrun⟩ := clean_bind hrun hs fun _ =>
    (Remembers.store32 _ _ _).bind fun _ => (strcpy_remembers _ _ _).bind fun _ =>
      (storeFields_remembers _ _ _).bind fun _ => (Remembers.load32 _ _).bind fun _ =>
        storeFields_remembers _ _ _
  have hin : headerAt addr.toNat i + headerLength ≤ addr.toNat + size.toNat := by
    have hoffin := (load32_clean hload hs₁).1
    rw [within_some, hready.image, BitVec.toNat_add, hheader, BitVec.toNat_ofNat] at hoffin
    simp only [Extent.Within, Extent.ofLen, headerOffset, headerLength, inodeSize] at hoffin hspare ⊢
    omega
  obtain ⟨hload', hpatch⟩ := patchHeader_run hready hdone.image hin
  rw [hload'] at hload
  cases hload
  rw [bind_run hpatch] at hrun
  -- The name was copied from the image to the name field.
  obtain ⟨_, s₂, hcopy, hs₂, hrun⟩ := clean_bind hrun hs fun _ =>
    (storeFields_remembers _ _ _).bind fun _ => (Remembers.load32 _ _).bind fun _ =>
      storeFields_remembers _ _ _
  have hi : i < 2 ^ 32 := by
    simp only [headerAt, fileHeaderSize] at hin
    omega
  obtain ⟨hblock, len, hlen, hfield, hinside⟩ := name_clean hready
    (fun x hx => patchHeader_image hdone.image hx) hin hi hcopy hs₂
  -- The length was read in the image, and the last field stored in the element.
  obtain ⟨_, s₃, _, _, hrun⟩ := clean_bind hrun hs fun _ =>
    (Remembers.load32 _ _).bind fun _ => storeFields_remembers _ _ _
  obtain ⟨length, s₄, hlength, hs₄, hfields⟩ := clean_bind hrun hs fun _ => storeFields_remembers _ _ _
  have hheader' : headerAt addr.toNat i + fileHeaderSize ≤ addr.toNat + size.toNat := by
    have hlengthin := (load32_clean hlength hs₄).1
    rw [within_some, hready.image, BitVec.toNat_add, hheader, BitVec.toNat_ofNat] at hlengthin
    simp only [Extent.Within, Extent.ofLen, headerLength, fileHeaderSize, inodeSize] at *
    omega
  have helem : ElementFits s.ramdisk i := by
    have hlast := storeFields_clean hfields hs (inodeFinddir, 0#32) (by simp [fileFields])
    rw [within_some, Ramdisk.element, Extent.within_inter] at hlast
    have hin' := hlast.2.2
    simp only [Extent.ofLen, Ramdisk.node, BitVec.toNat_add, BitVec.toNat_mul, BitVec.toNat_ofNat,
      inodeSize, inodeFinddir] at hin'
    simp only [ElementFits, nodeAt, inodeSize] at hblock ⊢
    omega
  exact ⟨⟨len, hheader', hlen, hfield, hinside⟩, helem⟩

/-! ## The loop -/

/-- The number of files the image says it has. -/
def fileCount (img : Bytes) (addr : Word) : Nat := (img.read32 addr.toNat).toNat

theorem FilesDone.zero (h : ∀ x, x ∈ Extent.ofLen addr.toNat size.toNat → m x = img x) (p : Nat) :
    FilesDone sym img m addr size p 0 m where
  image := h
  files i hi := absurd hi (Nat.not_lt_zero i)
  frame _ _ _ := rfl

/-- The count is read from the image, where no file has changed it. -/
theorem nfiles_run {k : Nat} (hready : LoopReady addr size s.ramdisk)
    (hdone : FilesDone sym img m₀ addr size s.ramdisk.rootNodes.toNat k m)
    (hsize : initrdHeaderSize ≤ size.toNat) :
    load32 s.ramdisk.initrdH s.ramdisk.image (s.withRam m) =
      .ok (img.read32 addr.toNat, s.withRam m) := by
  simp only [initrdHeaderSize] at hsize
  have hin : Within s.ramdisk.image addr 4 := by
    rw [within_some, hready.image]
    simp only [Extent.Within, Extent.ofLen]
    omega
  rw [hready.initrdH, load32_run hin, word_image hready (hready.image ▸ within_some.mp hin),
    ← relocate_nfiles (m := img) (k := k)]
  congr 2
  refine Bytes.read32_congr fun x hx hx' => hdone.image x ?_
  rw [Extent.mem_ofLen]
  omega

section Loop

variable {k fuel : Nat}

theorem index_lt (hk : k ≤ fileCount img addr) :
    BitVec.ofNat 32 k < img.read32 addr.toNat ↔ k < fileCount img addr := by
  have hlt := (img.read32 addr.toNat).isLt
  rw [BitVec.lt_def, BitVec.toNat_ofNat, fileCount] at *
  omega

theorem index_succ (k : Nat) : BitVec.ofNat 32 k + 1#32 = BitVec.ofNat 32 (k + 1) := by
  apply BitVec.eq_of_toNat_eq
  simp

/-- The loop does all files, if they fit. -/
theorem initFiles_run (hready : LoopReady addr size s.ramdisk) (hsize : initrdHeaderSize ≤ size.toNat)
    (hfit : ∀ i, i < fileCount img addr →
      (∃ len, FileFits img addr size i len) ∧ ElementFits s.ramdisk i)
    (hdone : FilesDone sym img m₀ addr size s.ramdisk.rootNodes.toNat k m)
    (hk : k ≤ fileCount img addr) (hfuel : fileCount img addr - k < fuel) :
    ∃ m', initFiles sym addr fuel (BitVec.ofNat 32 k) (s.withRam m) = .ok ((), s.withRam m') ∧
      FilesDone sym img m₀ addr size s.ramdisk.rootNodes.toNat (fileCount img addr) m' := by
  induction fuel generalizing k m with
  | zero => omega
  | succ fuel ih =>
      have hcount := nfiles_run hready hdone hsize
      rw [initFiles, bind_run (get_apply _)]
      simp only [withRam_ramdisk]
      rw [bind_run hcount]
      by_cases hlt : k < fileCount img addr
      · obtain ⟨⟨len, hlen⟩, helem⟩ := hfit k hlt
        rw [if_pos ((index_lt hk).mpr hlt), bind_run (initFile_run hready hdone hlen helem), index_succ]
        exact ih (hdone.succ hready hlen helem) hlt (by omega)
      · obtain rfl : k = fileCount img addr := by omega
        rw [if_neg (mt (index_lt hk).mp hlt)]
        exact ⟨m, rfl, hdone⟩

theorem initFiles_remembers (sym : RamdiskSymbols) (addr : Word) (fuel : Nat) (i : Word) :
    Remembers (initFiles sym addr fuel i : K Flat Unit) := by
  induction fuel generalizing i with
  | zero => exact Remembers.throw _
  | succ fuel ih =>
      exact Remembers.get.bind fun _ => (Remembers.load32 _ _).bind fun _ =>
        .ite ((initFile_remembers sym addr i).bind fun _ => ih (i + 1#32)) (Remembers.pure _)

/-- A loop that has not strayed had only files that fit. -/
theorem initFiles_clean {s' : Kernel Flat} (hready : LoopReady addr size s.ramdisk)
    (hsize : initrdHeaderSize ≤ size.toNat)
    (hdone : FilesDone sym img m₀ addr size s.ramdisk.rootNodes.toNat k m)
    (hk : k ≤ fileCount img addr) (hstart : headerAt addr.toNat k ≤ addr.toNat + size.toNat)
    (hrun : initFiles sym addr fuel (BitVec.ofNat 32 k) (s.withRam m) = .ok ((), s'))
    (hs : s'.strayed = false) :
    ∀ i, k ≤ i → i < fileCount img addr →
      (∃ len, FileFits img addr size i len) ∧ ElementFits s.ramdisk i := by
  induction fuel generalizing k m with
  | zero => cases hrun
  | succ fuel ih =>
      intro i hi hin
      have hcount := nfiles_run hready hdone hsize
      rw [initFiles, bind_run (get_apply _)] at hrun
      simp only [withRam_ramdisk] at hrun
      rw [bind_run hcount, if_pos ((index_lt hk).mpr (by omega))] at hrun
      obtain ⟨_, s₁, hfirst, hs₁, hrest⟩ := clean_bind hrun hs fun _ =>
        initFiles_remembers sym addr fuel _
      obtain ⟨⟨len, hlen⟩, helem⟩ := initFile_clean hready hdone hstart hfirst hs₁
      rcases Nat.lt_or_eq_of_le hi with hlt | rfl
      · rw [initFile_run hready hdone hlen helem] at hfirst
        cases hfirst
        rw [index_succ] at hrest
        have hnext : headerAt addr.toNat (k + 1) ≤ addr.toNat + size.toNat := by
          have hheader := hlen.header
          simp only [headerAt, fileHeaderSize] at hheader ⊢
          omega
        exact ih (hdone.succ hready hlen helem) (by omega) hnext hrest i hlt hin
      · exact ⟨⟨len, hlen⟩, helem⟩

end Loop

end Loop

end LizaOS
