-- SUMMARY: Mounting an image as a whole: when it comes back, and the file system it leaves in memory.
import LizaOS.Drivers.RamdiskMount

/-!
# Mounting an image

`ramdisk_init` takes three blocks from the early heap: the inode of the root, the inode of `/dev` and
the array of the files' inodes. `Mounted` is the file system it leaves, and what the file operations
rely on.
-/

namespace LizaOS

open Exec

/-! ## The setting -/

/-- The image the driver is given. -/
def imageExtent (addr size : Word) : Extent := .ofLen addr.toNat size.toNat

/-- The part of the early heap that is still free. -/
def freeHeap (a : Alloc) : Extent := ⟨a.currentBase.toNat, a.maxBase.toNat⟩

/-- The global `dentry`. -/
def RamdiskSymbols.dentryExtent (sym : RamdiskSymbols) : Extent := .ofLen sym.dentry.toNat dentrySize

/-- Image, free heap and the driver's global lie apart, and the heap ends below the last page of the
address space. -/
structure RamdiskPlaced (sym : RamdiskSymbols) (addr size : Word) (a : Alloc) : Prop where
  image_fits : addr.toNat + size.toNat ≤ 2 ^ 32
  heap_order : a.currentBase.toNat ≤ a.maxBase.toNat
  heap_top : a.maxBase.toNat ≤ 2 ^ 32 - 4096
  image_heap : (imageExtent addr size).Apart (freeHeap a)
  image_dentry : (imageExtent addr size).Apart sym.dentryExtent
  heap_dentry : (freeHeap a).Apart sym.dentryExtent

/-- The addresses of the three blocks. -/
def rootAt (a : Alloc) : Nat := roundUp a.currentBase.toNat
def devAt (a : Alloc) : Nat := rootAt a + 4096
def nodesAt (a : Alloc) : Nat := rootAt a + 8192

theorem roundUp_rootAt (a : Alloc) : roundUp (rootAt a + inodeSize) = devAt a := by
  have h := roundUp_mod a.currentBase.toNat
  simp only [devAt, rootAt, inodeSize] at h ⊢
  generalize roundUp a.currentBase.toNat = r at h ⊢
  unfold roundUp
  omega

theorem roundUp_devAt (a : Alloc) : roundUp (devAt a + inodeSize) = nodesAt a := by
  have h := roundUp_mod a.currentBase.toNat
  simp only [devAt, nodesAt, rootAt, inodeSize] at h ⊢
  generalize roundUp a.currentBase.toNat = r at h ⊢
  unfold roundUp
  omega

/-- The heap has room for the three blocks. -/
structure RamdiskRoom (a : Alloc) (n : Nat) : Prop where
  initialized : a.initialized
  directories : devAt a + inodeSize ≤ a.maxBase.toNat
  nodes : n ≠ 0 → nodesAt a + inodeSize * n ≤ a.maxBase.toNat

/-! ## Directories -/

/-- The memory after the inode of a directory has been filled in. -/
def directoryRam (sym : RamdiskSymbols) (m : Bytes) (p : Nat) (name : List Byte) : Bytes :=
  writeFields (m.fill p name.length fun j => name.getD j 0#8) p (directoryFields sym)

section Directory

variable {sym : RamdiskSymbols} {name : List Byte} {s s' : Kernel Flat} {m : Bytes} {p x : Nat}

theorem directoryRam_other (hlen : name.length ≤ inodeNameLen) (h : x < p ∨ p + inodeSize ≤ x) :
    directoryRam sym m p name x = m x := by
  simp only [inodeNameLen, inodeSize] at hlen h
  rw [directoryRam, writeFields_outside (directoryFields_inside sym), Bytes.fill_outside]
  · omega
  · simp only [inodeNameLen, inodeSize]
    omega

/-- The name field holds the name and, behind it, what was there before. -/
theorem directoryRam_name {j : Nat} (hj : j < inodeNameLen) :
    directoryRam sym m p name (p + j) = if j < name.length then name.getD j 0#8 else m (p + j) := by
  rw [directoryRam, writeFields_outside (directoryFields_inside sym) (.inl (by omega))]
  by_cases hlen : j < name.length
  · rw [if_pos hlen, Bytes.fill_inside hlen]
  · rw [if_neg hlen, Bytes.fill_outside (by omega)]

theorem directoryRam_fields : HasFields (directoryRam sym m p name) p (directoryFields sym) :=
  hasFields_writeFields (directoryFields_apart sym)

/-- The literal `name` is copied without its NUL. -/
theorem copyLen_lit (hne : name ≠ []) (hname : Nulless name) :
    CopyLen (fun j => name.getD j 0#8) name.length where
  pos := List.length_pos_iff.mpr hne
  nul := getD_length name
  before _ _ hj := hname.getD_ne hj

theorem strcpy_lit {dest : Word} {obj : Option Extent} (hne : name ≠ []) (hname : Nulless name)
    (hfit : dest.toNat + name.length ≤ 2 ^ 32)
    (hdst : ∀ i, i < name.length → Within obj (dest + BitVec.ofNat 32 i) 1) :
    strcpy dest (.lit name) obj s =
      .ok ((), s.withRam (s.mem.ram.fill dest.toNat name.length fun j => name.getD j 0#8)) := by
  refine strcpy_run (copyLen_lit hne hname) hfit (fun i k hi _ => ?_) hdst
  rw [Src.get, if_pos hi]
  rfl

/-- The heap after the inode of a directory has been allocated. -/
def afterInode (a : Alloc) : Alloc :=
  { a with currentBase := BitVec.ofNat 32 (roundUp a.currentBase.toNat + inodeSize) }

theorem initDirectory_run (sym : RamdiskSymbols) (name : List Byte) (hne : name ≠ []) (hname : Nulless name) (hlen : name.length ≤ inodeNameLen)
    (hi : s.alloc.initialized)
    (hroom : roundUp s.alloc.currentBase.toNat + inodeSize ≤ s.alloc.maxBase.toNat) :
    initDirectory sym name s = .ok (BitVec.ofNat 32 (roundUp s.alloc.currentBase.toNat),
      { s.withRam (directoryRam sym s.mem.ram (roundUp s.alloc.currentBase.toNat) name) with
        alloc := afterInode s.alloc }) := by
  have hmax := s.alloc.maxBase.isLt
  have hroom' := hroom
  simp only [inodeSize, inodeNameLen] at hroom' hlen
  have hword : (BitVec.ofNat 32 (roundUp s.alloc.currentBase.toNat) : Word).toNat =
      roundUp s.alloc.currentBase.toNat := by
    rw [BitVec.toNat_ofNat]
    omega
  have halloc : kmallocEarlyAlign (BitVec.ofNat 32 inodeSize) s =
      .ok (BitVec.ofNat 32 (roundUp s.alloc.currentBase.toNat), { s with alloc := afterInode s.alloc }) :=
    kmallocEarlyAlign_room hi (by decide) hroom
  have hfit : (BitVec.ofNat 32 (roundUp s.alloc.currentBase.toNat) : Word).toNat + name.length ≤
      2 ^ 32 := by
    rw [hword]
    omega
  have hcopy := strcpy_lit (s := { s with alloc := afterInode s.alloc }) hne hname hfit
    (fun _ _ => within_none _ _)
  rw [initDirectory, bind_run halloc, bind_run hcopy, bind_run (storeFields_run (fun f hf => ?_) (fun f _ => within_none _ _)), hword]
  · rfl
  · have hin := directoryFields_inside sym f.1 (List.mem_map_of_mem hf)
    simp only [inodeSize] at hin
    rw [hword]
    omega

/-- A directory is only set up where the heap has room for its inode. -/
theorem initDirectory_room {r : Word} (hle : s.alloc.currentBase.toNat ≤ s.alloc.maxBase.toNat)
    (htop : s.alloc.maxBase.toNat ≤ 2 ^ 32 - 4096) (h : initDirectory sym name s = .ok (r, s')) :
    s.alloc.initialized ∧
      roundUp s.alloc.currentBase.toNat + inodeSize ≤ s.alloc.maxBase.toNat := by
  obtain ⟨node, s₁, halloc, _⟩ := bind_ok.mp h
  obtain ⟨hi, hz | ⟨_, hr, hend, _⟩⟩ := kmallocEarlyAlign_ok hle htop halloc
  · exact absurd hz.1 (by decide)
  · refine ⟨hi, ?_⟩
    have hround : roundUp s.alloc.currentBase.toNat ≤ 2 ^ 32 - 4096 :=
      roundUp_le (Nat.le_trans hle htop) (by decide)
    rw [hr] at hend
    simp only [inodeSize, BitVec.toNat_ofNat] at hend ⊢
    omega

theorem initDirectory_alloc {r : Word} (hne : name ≠ []) (hname : Nulless name)
    (hlen : name.length ≤ inodeNameLen) (hle : s.alloc.currentBase.toNat ≤ s.alloc.maxBase.toNat)
    (htop : s.alloc.maxBase.toNat ≤ 2 ^ 32 - 4096) (h : initDirectory sym name s = .ok (r, s')) :
    s'.alloc = afterInode s.alloc := by
  obtain ⟨hi, hroom⟩ := initDirectory_room hle htop h
  rw [initDirectory_run sym name hne hname hlen hi hroom] at h
  injection h with h
  injection h with _ h
  rw [← h]

end Directory

/-! ## The two directories -/

section Init

variable {sym : RamdiskSymbols} {addr size : Word} {s s' : Kernel Flat}

/-- The memory with both directories. -/
def directoriesRam (sym : RamdiskSymbols) (a : Alloc) (m : Bytes) : Bytes :=
  directoryRam sym (directoryRam sym m (rootAt a) (cstr "initrd")) (devAt a) (cstr "dev")

/-- The driver's globals when both directories are there. -/
def directoriesRamdisk (addr size : Word) (a : Alloc) (rd : Ramdisk) : Ramdisk :=
  { rd with
    initrdH := addr
    fileHeaders := addr + BitVec.ofNat 32 initrdHeaderSize
    image := imageExtent addr size
    root := BitVec.ofNat 32 (rootAt a)
    dev := BitVec.ofNat 32 (devAt a) }

/-- The state when both directories are there. -/
def directoriesDone (sym : RamdiskSymbols) (addr size : Word) (s : Kernel Flat) : Kernel Flat :=
  { s.withRam (directoriesRam sym s.alloc s.mem.ram) with
    alloc := { s.alloc with currentBase := BitVec.ofNat 32 (devAt s.alloc + inodeSize) }
    ramdisk := directoriesRamdisk addr size s.alloc s.ramdisk }

theorem afterInode_afterInode (a : Alloc) (h : rootAt a + inodeSize ≤ a.maxBase.toNat) :
    roundUp (afterInode a).currentBase.toNat = devAt a ∧
      afterInode (afterInode a) =
        { a with currentBase := BitVec.ofNat 32 (devAt a + inodeSize) } := by
  have hmax := a.maxBase.isLt
  have hword : (afterInode a).currentBase.toNat = rootAt a + inodeSize := by
    simp only [afterInode, BitVec.toNat_ofNat]
    simp only [rootAt] at h ⊢
    omega
  have hround : roundUp (afterInode a).currentBase.toNat = devAt a := by
    rw [hword, roundUp_rootAt]
  refine ⟨hround, ?_⟩
  rw [afterInode, hround]
  rfl

theorem initDirectories_run (hi : s.alloc.initialized)
    (hroom : devAt s.alloc + inodeSize ≤ s.alloc.maxBase.toNat) :
    initDirectories sym addr size s =
      .ok (BitVec.ofNat 32 (rootAt s.alloc), directoriesDone sym addr size s) := by
  have hroot : rootAt s.alloc + inodeSize ≤ s.alloc.maxBase.toNat := by
    simp only [devAt] at hroom
    omega
  obtain ⟨hdev, halloc⟩ := afterInode_afterInode s.alloc hroot
  have hroom' : roundUp (afterInode s.alloc).currentBase.toNat + inodeSize ≤ s.alloc.maxBase.toNat := by
    rw [hdev]
    exact hroom
  have hfirst := initDirectory_run sym (cstr "initrd") (by decide) (by decide) (by decide)
    (s := { s with ramdisk := { s.ramdisk with
      initrdH := addr
      fileHeaders := addr + BitVec.ofNat 32 initrdHeaderSize
      image := imageExtent addr size } }) hi hroot
  have hsecond := initDirectory_run sym (cstr "dev") (by decide) (by decide) (by decide)
    (s := { s.withRam (directoryRam sym s.mem.ram (rootAt s.alloc) (cstr "initrd")) with
      alloc := afterInode s.alloc
      ramdisk := { s.ramdisk with
        initrdH := addr
        fileHeaders := addr + BitVec.ofNat 32 initrdHeaderSize
        image := imageExtent addr size
        root := BitVec.ofNat 32 (rootAt s.alloc) } }) hi hroom'
  refine (bind_run modify_run).trans ((bind_run hfirst).trans ((bind_run modify_run).trans
    ((bind_run hsecond).trans ?_)))
  simp only [withRam_ram, hdev, halloc]
  rfl

theorem directoriesDone_alloc (sym : RamdiskSymbols) (addr size : Word) (s : Kernel Flat) :
    (directoriesDone sym addr size s).alloc =
      { s.alloc with currentBase := BitVec.ofNat 32 (devAt s.alloc + inodeSize) } := by
  rw [directoriesDone]

theorem directoriesDone_base (sym : RamdiskSymbols) (addr size : Word)
    (hroom : devAt s.alloc + inodeSize ≤ s.alloc.maxBase.toNat) :
    roundUp (directoriesDone sym addr size s).alloc.currentBase.toNat = nodesAt s.alloc := by
  have hmax := s.alloc.maxBase.isLt
  have hbase : (directoriesDone sym addr size s).alloc.currentBase.toNat = devAt s.alloc + inodeSize := by
    show (BitVec.ofNat 32 (devAt s.alloc + inodeSize)).toNat = _
    rw [BitVec.toNat_ofNat]
    omega
  rw [hbase, roundUp_devAt]

theorem initDirectories_room {r : Word} (hle : s.alloc.currentBase.toNat ≤ s.alloc.maxBase.toNat)
    (htop : s.alloc.maxBase.toNat ≤ 2 ^ 32 - 4096)
    (h : initDirectories sym addr size s = .ok (r, s')) :
    s.alloc.initialized ∧ devAt s.alloc + inodeSize ≤ s.alloc.maxBase.toNat := by
  obtain ⟨_, s₁, hmod, h⟩ := bind_ok.mp h
  have h₁ : s₁.alloc = s.alloc := by rw [modify_ok hmod]
  obtain ⟨root, s₂, hfirst, h⟩ := bind_ok.mp h
  rw [← h₁] at hle htop
  obtain ⟨hi, hroot⟩ := initDirectory_room hle htop hfirst
  have h₂ := initDirectory_alloc (by decide) (by decide) (by decide) hle htop hfirst
  rw [h₁] at hle htop hi hroot h₂
  obtain ⟨_, s₃, hmod, h⟩ := bind_ok.mp h
  have h₃ : s₃.alloc = afterInode s.alloc := by rw [modify_ok hmod, h₂]
  obtain ⟨dev, s₄, hsecond, _⟩ := bind_ok.mp h
  obtain ⟨hdev, _⟩ := afterInode_afterInode s.alloc hroot
  have hmax : s₃.alloc.maxBase = s.alloc.maxBase := by rw [h₃, afterInode]
  have hle' : s₃.alloc.currentBase.toNat ≤ s₃.alloc.maxBase.toNat := by
    have hlt := s.alloc.maxBase.isLt
    rw [hmax, h₃, afterInode, BitVec.toNat_ofNat]
    omega
  obtain ⟨_, hroom⟩ := initDirectory_room hle' (by rw [hmax]; exact htop) hsecond
  rw [hmax, h₃, hdev] at hroom
  exact ⟨hi, hroom⟩

/-! ## The files -/

theorem nfiles_console (n : Word) (s : Kernel Flat) :
    Returns (kPrintfln (cstr "nfiles: %d") (slots [n])) s fun _ s' => ConsoleOnly s s' :=
  kPrintfln_console rfl

theorem directoriesRam_other {m : Bytes} {a : Alloc} {x : Nat}
    (hroot : x < rootAt a ∨ rootAt a + inodeSize ≤ x) (hdev : x < devAt a ∨ devAt a + inodeSize ≤ x) :
    directoriesRam sym a m x = m x := by
  rw [directoriesRam, directoryRam_other (by decide) hdev, directoryRam_other (by decide) hroot]

/-- The directories are in the free heap, so the image is as it was. -/
theorem directoriesRam_image (hp : RamdiskPlaced sym addr size s.alloc)
    (hroom : devAt s.alloc + inodeSize ≤ s.alloc.maxBase.toNat) {m : Bytes} {x : Nat}
    (hx : x ∈ imageExtent addr size) : directoriesRam sym s.alloc m x = m x := by
  have hout := hp.image_heap x hx
  have hlow := le_roundUp s.alloc.currentBase.toNat
  simp only [freeHeap, Extent.mem_iff, devAt, rootAt, inodeSize] at hout hroom
  refine directoriesRam_other ?_ ?_
  · simp only [rootAt, inodeSize]
    omega
  · simp only [devAt, rootAt, inodeSize]
    omega

/-- The driver's globals when the array has been allocated at `p`. -/
def nodesRamdisk (addr size p n : Word) (a : Alloc) (rd : Ramdisk) : Ramdisk :=
  { directoriesRamdisk addr size a rd with
    rootNodes := p
    block := ⟨p.toNat, (p + BitVec.ofNat 32 inodeSize * n).toNat⟩
    nrootNodes := n }

theorem count_run (hp : RamdiskPlaced sym addr size s.alloc)
    (hroom : devAt s.alloc + inodeSize ≤ s.alloc.maxBase.toNat)
    (hsize : initrdHeaderSize ≤ size.toNat) {s₁ : Kernel Flat}
    (hram : s₁.mem.ram = directoriesRam sym s.alloc s.mem.ram) :
    load32 addr (imageExtent addr size) s₁ = .ok (s.mem.ram.read32 addr.toNat, s₁) := by
  have hfits := hp.image_fits
  simp only [initrdHeaderSize] at hsize
  have hin : Within (imageExtent addr size) addr 4 := by
    rw [within_some, imageExtent]
    simp only [Extent.Within, Extent.ofLen]
    omega
  have hread : (directoriesRam sym s.alloc s.mem.ram).read32 addr.toNat =
      s.mem.ram.read32 addr.toNat := by
    refine Bytes.read32_congr fun x hx hx' => directoriesRam_image hp hroom ?_
    rw [imageExtent, Extent.mem_ofLen]
    omega
  rw [load32_run hin, Flat.word_eq (by omega), hram, hread]

/-- Up to the loop, the second part of `ramdisk_init` allocates the array. -/
theorem initNodes_eq (hp : RamdiskPlaced sym addr size s.alloc)
    (hroom : devAt s.alloc + inodeSize ≤ s.alloc.maxBase.toNat)
    (hsize : initrdHeaderSize ≤ size.toNat) {p : Word} {a' : Alloc}
    (halloc : kmallocEarlyAlign (BitVec.ofNat 32 inodeSize * s.mem.ram.read32 addr.toNat)
      (directoriesDone sym addr size s) = .ok (p, { directoriesDone sym addr size s with alloc := a' })) :
    ∃ s₃, ConsoleOnly { s.withRam (directoriesRam sym s.alloc s.mem.ram) with
        alloc := a'
        ramdisk := nodesRamdisk addr size p (s.mem.ram.read32 addr.toNat) s.alloc s.ramdisk } s₃ ∧
      initNodes sym addr (directoriesDone sym addr size s) = initFiles sym addr spinLimit 0#32 s₃ := by
  have hcount : ∀ s₁ : Kernel Flat, s₁.mem.ram = directoriesRam sym s.alloc s.mem.ram →
      load32 addr (imageExtent addr size) s₁ = .ok (s.mem.ram.read32 addr.toNat, s₁) :=
    fun _ hram => count_run hp hroom hsize hram
  obtain ⟨_, s₃, hprint, hconsole⟩ := nfiles_console (s.mem.ram.read32 addr.toNat)
    { s.withRam (directoriesRam sym s.alloc s.mem.ram) with
      alloc := a'
      ramdisk := nodesRamdisk addr size p (s.mem.ram.read32 addr.toNat) s.alloc s.ramdisk }
  refine ⟨s₃, hconsole, ?_⟩
  refine (bind_run (get_apply _)).trans ((bind_run (hcount _ rfl)).trans ((bind_run halloc).trans
    ((bind_run modify_run).trans ((bind_run (hcount _ rfl)).trans ((bind_run modify_run).trans ?_)))))
  exact bind_run hprint

/-- The loop finds its objects apart, whether the array is allocated or empty. -/
theorem nodesRamdisk_ready (hp : RamdiskPlaced sym addr size s.alloc)
    (hroom : devAt s.alloc + inodeSize ≤ s.alloc.maxBase.toNat) {p n : Word} {rd : Ramdisk}
    (hblock : (p = 0#32 ∧ BitVec.ofNat 32 inodeSize * n = 0#32) ∨
      (p.toNat = nodesAt s.alloc ∧
        (p + BitVec.ofNat 32 inodeSize * n).toNat ≤ s.alloc.maxBase.toNat)) :
    LoopReady addr size (nodesRamdisk addr size p n s.alloc rd) := by
  have htop := hp.heap_top
  have hfits := hp.image_fits
  have hlow := le_roundUp s.alloc.currentBase.toNat
  have hmod := roundUp_mod s.alloc.currentBase.toNat
  simp only [devAt, rootAt, inodeSize] at hroom
  refine {
    initrdH := rfl
    fileHeaders := rfl
    image := rfl
    block_lo := rfl
    block_hi := ?_
    block_len := fun hle => ?_
    apart := fun x hx hmem => ?_
    fits := hfits
    spare := ?_ }
  · rcases hblock with ⟨rfl, hz⟩ | ⟨_, hend⟩
    · simp only [nodesRamdisk, hz]
      decide
    · exact Nat.le_trans hend htop
  · rcases hblock with ⟨rfl, hz⟩ | ⟨hstart, _⟩
    · simp only [nodesRamdisk, hz]
      decide
    · simp only [nodesRamdisk, BitVec.toNat_add, BitVec.toNat_mul, BitVec.toNat_ofNat, inodeSize,
        hstart, nodesAt, rootAt] at hle ⊢
      omega
  · rcases hblock with ⟨rfl, hz⟩ | ⟨hstart, hend⟩
    · simp only [nodesRamdisk, hz] at hmem
      exact absurd hmem.2 (Nat.not_lt_zero x)
    · refine hp.image_heap x hx ⟨?_, ?_⟩
      · have hlo := hmem.1
        simp only [nodesRamdisk, hstart, nodesAt, rootAt, freeHeap] at hlo ⊢
        omega
      · exact Nat.lt_of_lt_of_le hmem.2 hend
  · -- The inode of the root lies beside the image.
    have hroot := hp.image_heap (max addr.toNat (rootAt s.alloc))
    simp only [imageExtent, freeHeap, Extent.ofLen, Extent.mem_iff, rootAt, inodeSize] at hroot ⊢
    omega

/-! ## The file system in memory -/

/-- The file system that mounting leaves, for an image with `n` files. `m` and `a` are the memory and
the heap before. -/
structure Mounted (sym : RamdiskSymbols) (m : Bytes) (a : Alloc) (addr size : Word) (n : Nat)
    (s : Kernel Flat) : Prop where
  image_obj : s.ramdisk.image = imageExtent addr size
  fileHeaders : s.ramdisk.fileHeaders = addr + BitVec.ofNat 32 initrdHeaderSize
  nrootNodes : s.ramdisk.nrootNodes = BitVec.ofNat 32 n
  root : s.ramdisk.root = BitVec.ofNat 32 (rootAt a)
  dev : s.ramdisk.dev = BitVec.ofNat 32 (devAt a)
  rootNodes : n ≠ 0 → s.ramdisk.rootNodes = BitVec.ofNat 32 (nodesAt a)
  image : ∀ x, x ∈ imageExtent addr size → s.mem.ram x = relocate m addr n x
  directories : ∀ x, rootAt a ≤ x → x < devAt a + inodeSize → s.mem.ram x = directoriesRam sym a m x
  files : ∀ i, i < n → FileDone sym m m addr size (nodesAt a) i s.mem.ram

/-- The inodes of the files are filled in where the heap was untouched. -/
theorem FileDone.heap {img m₀ m₁ : Bytes} {p i : Nat} {m : Bytes}
    (h : FileDone sym img m₀ addr size p i m)
    (heq : ∀ x, nodeAt p i ≤ x → x < nodeAt p i + inodeNameLen → m₀ x = m₁ x) :
    FileDone sym img m₁ addr size p i m where
  name := by
    obtain ⟨len, hfit, hname⟩ := h.name
    refine ⟨len, hfit, fun j hj => ?_⟩
    rw [hname j hj, heq _ (Nat.le_add_right _ _) (Nat.add_lt_add_left hj _)]
  fields := h.fields

/-- What the loop leaves is a mounted file system. -/
theorem FilesDone.mounted {n : Nat} {s₃ : Kernel Flat} {m' : Bytes} {p : Word}
    (hp : RamdiskPlaced sym addr size s.alloc)
    (hroom : RamdiskRoom s.alloc n) (hn : n = fileCount s.mem.ram addr)
    (hstart : n ≠ 0 → p = BitVec.ofNat 32 (nodesAt s.alloc))
    (hrd : s₃.ramdisk = nodesRamdisk addr size p (s.mem.ram.read32 addr.toNat) s.alloc s.ramdisk)
    (hdone : FilesDone sym s.mem.ram (directoriesRam sym s.alloc s.mem.ram) addr size p.toNat n m') :
    Mounted sym s.mem.ram s.alloc addr size n (s₃.withRam m') := by
  have hcount : s.mem.ram.read32 addr.toNat = BitVec.ofNat 32 n := by
    rw [hn, fileCount, BitVec.ofNat_toNat, BitVec.setWidth_eq]
  have hdirs := hroom.directories
  have htop := hp.heap_top
  have hlow := le_roundUp s.alloc.currentBase.toNat
  have hnodes : n ≠ 0 → p.toNat = nodesAt s.alloc := by
    intro hne
    have hend := hroom.nodes hne
    rw [hstart hne, BitVec.toNat_ofNat]
    omega
  have himage : ∀ x, rootAt s.alloc ≤ x → x < s.alloc.maxBase.toNat → x ∉ imageExtent addr size := by
    intro x hlo hhi hx
    refine hp.image_heap x hx ⟨?_, hhi⟩
    simp only [rootAt] at hlo
    exact Nat.le_trans hlow hlo
  refine {
    image_obj := by rw [withRam_ramdisk, hrd]; rfl
    fileHeaders := by rw [withRam_ramdisk, hrd]; rfl
    nrootNodes := by rw [withRam_ramdisk, hrd, ← hcount]; rfl
    root := by rw [withRam_ramdisk, hrd]; rfl
    dev := by rw [withRam_ramdisk, hrd]; rfl
    rootNodes := fun hne => by rw [withRam_ramdisk, hrd, ← hstart hne]; rfl
    image := hdone.image
    directories := fun x hlo hhi => ?_
    files := fun i hi => ?_ }
  · refine hdone.frame x (himage x hlo (by omega)) fun hmem => ?_
    rw [Extent.mem_ofLen] at hmem
    by_cases hne : n = 0
    · simp [hne] at hmem
      omega
    · have hp' := hnodes hne
      simp only [devAt, nodesAt, inodeSize] at hhi hp'
      omega
  · have hfile := hdone.files i hi
    have hp' := hnodes (by omega)
    have hend := hroom.nodes (by omega)
    rw [hp'] at hfile
    refine hfile.heap fun x hlo hhi => directoriesRam_other ?_ ?_
    · simp only [nodeAt, nodesAt, inodeSize] at hlo ⊢
      omega
    · simp only [nodeAt, nodesAt, devAt, inodeSize] at hlo ⊢
      omega

/-! ## Mounting as a whole -/

/-- The image holds its own header and `n` files that fit. -/
structure ImageFits (m : Bytes) (addr size : Word) (n : Nat) : Prop where
  header : initrdHeaderSize ≤ size.toNat
  files : ∀ i, i < n → ∃ len, FileFits m addr size i len

theorem console_nodes {s₂ s₃ : Kernel Flat} (h : ConsoleOnly s₂ s₃) :
    s₃.mem.ram = s₂.mem.ram ∧ s₃.ramdisk = s₂.ramdisk ∧ s₃.strayed = s₂.strayed := by
  obtain ⟨cells, ports, vga, rfl⟩ := h
  exact ⟨rfl, rfl, rfl⟩

/-- An image that fits is mounted, if the heap has room. -/
theorem ramdiskInit_run (hp : RamdiskPlaced sym addr size s.alloc)
    (hroom : RamdiskRoom s.alloc (fileCount s.mem.ram addr))
    (hfit : ImageFits s.mem.ram addr size (fileCount s.mem.ram addr)) :
    Returns (ramdiskInit sym addr size) s fun root s' =>
      root = BitVec.ofNat 32 (rootAt s.alloc) ∧ s'.strayed = s.strayed ∧
        Mounted sym s.mem.ram s.alloc addr size (fileCount s.mem.ram addr) s' := by
  have htop := hp.heap_top
  generalize hn : fileCount s.mem.ram addr = n at hroom hfit
  have hword : (s.mem.ram.read32 addr.toNat).toNat = n := hn
  have hdirs := hroom.directories
  -- The array is allocated.
  have halloc : ∃ p a', kmallocEarlyAlign (BitVec.ofNat 32 inodeSize * s.mem.ram.read32 addr.toNat)
      (directoriesDone sym addr size s) = .ok (p, { directoriesDone sym addr size s with alloc := a' }) ∧
      ((n = 0 ∧ p = 0#32) ∨ (n ≠ 0 ∧ p.toNat = nodesAt s.alloc)) := by
    by_cases hz : n = 0
    · have hzero : s.mem.ram.read32 addr.toNat = 0#32 := BitVec.eq_of_toNat_eq (hword.trans hz)
      refine ⟨0#32, (directoriesDone sym addr size s).alloc, ?_, .inl ⟨hz, rfl⟩⟩
      simp [kmallocEarlyAlign, onAlloc, Alloc.kmallocEarlyAlign, hzero, directoriesDone,
        hroom.initialized, Except.map]
    · have hend := hroom.nodes hz
      have hbase := directoriesDone_base sym addr size hdirs
      have hbytes : (BitVec.ofNat 32 inodeSize * s.mem.ram.read32 addr.toNat).toNat = inodeSize * n := by
        rw [BitVec.toNat_mul, hword, BitVec.toNat_ofNat]
        simp only [inodeSize] at hend ⊢
        omega
      have hpos : BitVec.ofNat 32 inodeSize * s.mem.ram.read32 addr.toNat ≠ 0#32 := by
        intro hzero
        rw [hzero] at hbytes
        simp only [inodeSize, BitVec.toNat_ofNat] at hbytes
        omega
      have hfree : roundUp (directoriesDone sym addr size s).alloc.currentBase.toNat +
          (BitVec.ofNat 32 inodeSize * s.mem.ram.read32 addr.toNat).toNat ≤
            (directoriesDone sym addr size s).alloc.maxBase.toNat := by
        rw [hbase, hbytes, directoriesDone_alloc]
        exact hend
      have hinit : (directoriesDone sym addr size s).alloc.initialized := by
        rw [directoriesDone_alloc]
        exact hroom.initialized
      have hrun := kmallocEarlyAlign_room hinit hpos hfree
      refine ⟨_, _, hrun, .inr ⟨hz, ?_⟩⟩
      rw [BitVec.toNat_ofNat, hbase]
      omega
  obtain ⟨p, a', halloc, hstart⟩ := halloc
  obtain ⟨s₃, hconsole, heq⟩ := initNodes_eq hp hdirs hfit.header halloc
  obtain ⟨hram, hrd, hstray⟩ := console_nodes hconsole
  simp only [withRam_ram] at hram
  have hstart' : n ≠ 0 → p = BitVec.ofNat 32 (nodesAt s.alloc) := by
    intro hne
    rcases hstart with ⟨hz, _⟩ | ⟨_, hp'⟩
    · exact absurd hz hne
    · rw [← hp', BitVec.ofNat_toNat, BitVec.setWidth_eq]
  have hready : LoopReady addr size s₃.ramdisk := by
    rw [hrd]
    refine nodesRamdisk_ready hp hdirs ?_
    rcases hstart with ⟨rfl, hz⟩ | ⟨hne, hp'⟩
    · exact .inl ⟨hz, by rw [BitVec.eq_of_toNat_eq (y := 0#32) hword]; rfl⟩
    · have hend := hroom.nodes hne
      refine .inr ⟨hp', ?_⟩
      rw [BitVec.toNat_add, BitVec.toNat_mul, hword, hp', BitVec.toNat_ofNat]
      simp only [inodeSize] at hend ⊢
      omega
  have helem : ∀ i, i < n → ElementFits s₃.ramdisk i := by
    intro i hi
    rcases hstart with ⟨rfl, hz⟩ | ⟨hne, hp'⟩
    · omega
    · have hend := hroom.nodes hne
      rw [hrd]
      simp only [ElementFits, nodesRamdisk, nodeAt, BitVec.toNat_add, BitVec.toNat_mul, hword, hp',
        BitVec.toNat_ofNat, inodeSize] at hend ⊢
      omega
  -- The loop does all files.
  have himage : ∀ x, x ∈ Extent.ofLen addr.toNat size.toNat →
      s₃.mem.ram x = s.mem.ram x := by
    intro x hx
    rw [hram]
    exact directoriesRam_image hp hdirs hx
  have hzero : FilesDone sym s.mem.ram s₃.mem.ram addr size s₃.ramdisk.rootNodes.toNat 0 s₃.mem.ram :=
    FilesDone.zero himage _
  obtain ⟨m', hloop, hdone⟩ := initFiles_run (s := s₃) (k := 0) hready hfit.header
    (fun i hi => ⟨hfit.files i (hn ▸ hi), helem i (hn ▸ hi)⟩) hzero (Nat.zero_le _) (by rw [hn, ← hword]; exact (s.mem.ram.read32 addr.toNat).isLt)
  rw [withRam_self] at hloop
  have hp₃ : s₃.ramdisk.rootNodes = p := by rw [hrd]; rfl
  rw [hram, hn, hp₃] at hdone
  refine ⟨_, s₃.withRam m', ?_, rfl, ?_, hdone.mounted hp hroom hn.symm hstart' hrd⟩
  · refine (bind_run (initDirectories_run hroom.initialized hdirs)).trans ?_
    exact bind_run (heq.trans hloop)
  · rw [withRam_strayed, hstray]
    rfl

theorem kmallocEarlyAlign_remembers (size : Word) : Remembers (kmallocEarlyAlign size : K Flat Word) := by
  intro s p s' hrun hs
  exact Remembers.of_map (fun r : Word × Alloc => (r.1, { s with alloc := r.2 })) (fun _ => id) hrun hs

theorem initNodes_remembers_tail (sym : RamdiskSymbols) (addr n : Word) (image : Extent) :
    Remembers (do
      let rootNodes ← kmallocEarlyAlign (BitVec.ofNat 32 inodeSize * n)
      modify fun s => { s with ramdisk := { s.ramdisk with
        rootNodes := rootNodes
        block := ⟨rootNodes.toNat, (rootNodes + BitVec.ofNat 32 inodeSize * n).toNat⟩ } }
      let nfiles ← load32 addr image
      modify fun s => { s with ramdisk := { s.ramdisk with nrootNodes := nfiles } }
      kPrintfln (cstr "nfiles: %d") (slots [nfiles])
      initFiles sym addr spinLimit 0#32 : K Flat Unit) := by
  refine (kmallocEarlyAlign_remembers _).bind fun p => Remembers.bind (Remembers.modify ?_) fun _ =>
    (Remembers.load32 _ _).bind fun n => Remembers.bind (Remembers.modify ?_) fun _ =>
      (kPrintfln_remembers _ _).bind fun _ => initFiles_remembers _ _ _ _
  · intro _ hs
    exact hs
  · intro _ hs
    exact hs

/-- The array was allocated, or the request was for no bytes. -/
theorem initNodes_alloc (hp : RamdiskPlaced sym addr size s.alloc)
    (hroom : devAt s.alloc + inodeSize ≤ s.alloc.maxBase.toNat) (hsize : initrdHeaderSize ≤ size.toNat)
    {u : Unit} (hrun : initNodes sym addr (directoriesDone sym addr size s) = .ok (u, s')) :
    ∃ p a',
      kmallocEarlyAlign (BitVec.ofNat 32 inodeSize * s.mem.ram.read32 addr.toNat)
        (directoriesDone sym addr size s) = .ok (p, { directoriesDone sym addr size s with alloc := a' }) ∧
      ((p = 0#32 ∧ BitVec.ofNat 32 inodeSize * s.mem.ram.read32 addr.toNat = 0#32) ∨
        (p.toNat = nodesAt s.alloc ∧
          (p + BitVec.ofNat 32 inodeSize * s.mem.ram.read32 addr.toNat).toNat ≤
            s.alloc.maxBase.toNat)) := by
  have htop := hp.heap_top
  obtain ⟨_, s₃, hget, hload⟩ := bind_ok.mp hrun
  cases hget
  obtain ⟨n, s₄, hload, hrest⟩ := bind_ok.mp hload
  rw [show (directoriesDone sym addr size s).ramdisk.image = imageExtent addr size by
    rw [directoriesDone]; rfl, count_run hp hroom hsize (by rw [directoriesDone]; rfl)] at hload
  injection hload with hload
  injection hload with hn hload
  subst hn hload
  obtain ⟨p, s₅, halloc, _⟩ := bind_ok.mp hrest
  have hmax : (directoriesDone sym addr size s).alloc.maxBase = s.alloc.maxBase := by
    rw [directoriesDone_alloc]
  have hcur : (directoriesDone sym addr size s).alloc.currentBase.toNat = devAt s.alloc + inodeSize := by
    rw [directoriesDone_alloc, BitVec.toNat_ofNat]
    omega
  obtain ⟨_, ⟨hz, rfl, rfl⟩ | ⟨_, hp', hend, rfl⟩⟩ :=
    kmallocEarlyAlign_ok (by rw [hcur, hmax]; exact hroom) (by rw [hmax]; exact htop) halloc
  · exact ⟨0#32, _, halloc, .inl ⟨rfl, hz⟩⟩
  · rw [directoriesDone_base sym addr size hroom] at hp'
    rw [hmax] at hend
    refine ⟨p, _, halloc, .inr ⟨hp', ?_⟩⟩
    rw [BitVec.toNat_add]
    exact hend

/-- The end of the array does not wrap. -/
def ArrayFits (a : Alloc) (n : Nat) : Prop := n ≠ 0 → nodesAt a + inodeSize * n < 2 ^ 32

/-- A mount that has come back had room on the heap, if the array does not wrap. -/
theorem ramdiskInit_room {root : Word} (hp : RamdiskPlaced sym addr size s.alloc)
    (hsize : initrdHeaderSize ≤ size.toNat) (harray : ArrayFits s.alloc (fileCount s.mem.ram addr))
    (hrun : ramdiskInit sym addr size s = .ok (root, s')) :
    RamdiskRoom s.alloc (fileCount s.mem.ram addr) := by
  obtain ⟨r, s₁, hdirs, hrest⟩ := bind_ok.mp hrun
  obtain ⟨hi, hroom⟩ := initDirectories_room hp.heap_order hp.heap_top hdirs
  rw [initDirectories_run hi hroom] at hdirs
  injection hdirs with hdirs
  injection hdirs with _ hdirs
  subst hdirs
  obtain ⟨_, s₂, hnodes, _⟩ := bind_ok.mp hrest
  obtain ⟨p, a', _, hblock⟩ := initNodes_alloc hp hroom hsize hnodes
  refine ⟨hi, hroom, fun hne => ?_⟩
  have hend := harray hne
  have hcount : (s.mem.ram.read32 addr.toNat).toNat = fileCount s.mem.ram addr := rfl
  have hbytes : (BitVec.ofNat 32 inodeSize * s.mem.ram.read32 addr.toNat).toNat =
      inodeSize * fileCount s.mem.ram addr := by
    rw [BitVec.toNat_mul, hcount, BitVec.toNat_ofNat]
    simp only [inodeSize] at hend ⊢
    omega
  rcases hblock with ⟨_, hz⟩ | ⟨hp', hle⟩
  · rw [hz] at hbytes
    simp only [inodeSize, BitVec.toNat_ofNat] at hbytes
    omega
  · rw [BitVec.toNat_add, hbytes, hp', Nat.mod_eq_of_lt hend] at hle
    exact hle

/-- An image that has been mounted without straying fits, and the heap had room. -/
theorem ramdiskInit_clean {root : Word} (hp : RamdiskPlaced sym addr size s.alloc)
    (hrun : ramdiskInit sym addr size s = .ok (root, s')) (hs : s'.strayed = false) :
    RamdiskRoom s.alloc (fileCount s.mem.ram addr) ∧
      ImageFits s.mem.ram addr size (fileCount s.mem.ram addr) := by
  have htop := hp.heap_top
  have hfits := hp.image_fits
  have hcount_lt := (s.mem.ram.read32 addr.toNat).isLt
  obtain ⟨r, s₁, hdirs, hrest⟩ := bind_ok.mp hrun
  obtain ⟨hi, hroom⟩ := initDirectories_room hp.heap_order htop hdirs
  rw [initDirectories_run hi hroom] at hdirs
  injection hdirs with hdirs
  injection hdirs with _ hdirs
  subst hdirs
  obtain ⟨_, s₂, hnodes, hpure⟩ := bind_ok.mp hrest
  have hs₂ : s₂.strayed = false := by
    injection hpure with hpure
    injection hpure with _ hpure
    rw [hpure]
    exact hs
  -- The count was read in the image.
  have hsize : initrdHeaderSize ≤ size.toNat := by
    obtain ⟨_, s₃, hget, hload⟩ := bind_ok.mp hnodes
    cases hget
    obtain ⟨n, s₄, hload, hs₄, _⟩ := clean_bind hload hs₂ fun n =>
      initNodes_remembers_tail sym addr n _
    have hin := (load32_clean hload hs₄).1
    rw [within_some] at hin
    simp only [Extent.Within, Extent.ofLen, directoriesDone, directoriesRamdisk, imageExtent,
      initrdHeaderSize] at hin ⊢
    omega
  obtain ⟨p, a', halloc, hblock⟩ := initNodes_alloc hp hroom hsize hnodes
  -- Every turn of the loop was for a file that fits.
  obtain ⟨s₃, hconsole, heq⟩ := initNodes_eq hp hroom hsize halloc
  obtain ⟨hram, hrd, hstray⟩ := console_nodes hconsole
  rw [heq] at hnodes
  have hready : LoopReady addr size s₃.ramdisk := by
    rw [hrd]
    exact nodesRamdisk_ready hp hroom hblock
  have himage : ∀ x, x ∈ Extent.ofLen addr.toNat size.toNat → s₃.mem.ram x = s.mem.ram x := by
    intro x hx
    rw [hram]
    exact directoriesRam_image hp hroom hx
  have hall := initFiles_clean (k := 0) (s := s₃) hready hsize (FilesDone.zero himage _) (Nat.zero_le _)
    (by simp only [headerAt, initrdHeaderSize] at hsize ⊢; omega) hnodes hs₂
  refine ⟨⟨hi, hroom, fun hne => ?_⟩, hsize, fun i hn => (hall i (Nat.zero_le i) hn).1⟩
  -- The last element lies in the block, so the end of the block has not wrapped.
  have hlast := (hall (fileCount s.mem.ram addr - 1) (Nat.zero_le _) (by omega)).2
  rw [hrd] at hlast
  rcases hblock with ⟨rfl, hz⟩ | ⟨hp', hend⟩
  · simp only [ElementFits, nodesRamdisk, hz] at hlast
    simp only [nodeAt, inodeSize, BitVec.toNat_add, BitVec.toNat_ofNat] at hlast
    omega
  · simp only [ElementFits, nodesRamdisk, nodeAt, inodeSize, fileCount, BitVec.toNat_add,
      BitVec.toNat_mul, BitVec.toNat_ofNat, hp'] at hlast hend hne ⊢
    omega

end Init

end LizaOS
