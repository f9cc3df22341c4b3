-- SUMMARY: Reading a file: the bytes `read` copies to the buffer, and when they are bytes of the image.
import LizaOS.Drivers.RamdiskCalls
import LizaOS.Libc.ScreenOutput

/-!
# Reading a file

`read` clamps the size asked for by a test on `offset + size`, a sum that wraps. As long as it does
not, the bytes copied are those of the file from the offset on.
-/

namespace LizaOS

open Exec

/-- The length of file `i`, as the image has it. -/
def fileLength (m : Bytes) (addr : Word) (i : Nat) : Word :=
  m.read32 (headerAt addr.toNat i + headerLength)

/-- Where file `i` begins, the offset in the image made absolute. -/
def fileStart (m : Bytes) (addr : Word) (i : Nat) : Word :=
  m.read32 (headerAt addr.toNat i + headerOffset) + addr

/-- The number of bytes `read` copies. -/
def readLen (length offset size : Word) : Word :=
  if length < offset + size then length - offset else size

/-- Where the sum does not wrap, it is what is left of the file, if that is less than asked for. -/
theorem readLen_toNat {length offset size : Word} (hle : offset.toNat ≤ length.toNat)
    (hsum : offset.toNat + size.toNat < 2 ^ 32) :
    (readLen length offset size).toNat = min size.toNat (length.toNat - offset.toNat) := by
  have hlength := length.isLt
  rw [readLen]
  split
  · rename_i hlt
    rw [BitVec.lt_def, toNat_add_of_lt hsum] at hlt
    rw [BitVec.toNat_sub]
    omega
  · rename_i hlt
    rw [BitVec.lt_def, toNat_add_of_lt hsum] at hlt
    omega

/-- Where the sum wraps, nothing is clamped. -/
theorem readLen_wrapped {length offset size : Word} (hle : offset.toNat ≤ length.toNat)
    (hsum : 2 ^ 32 ≤ offset.toNat + size.toNat) : readLen length offset size = size := by
  have hsize := size.isLt
  refine if_neg ?_
  rw [BitVec.lt_def, BitVec.toNat_add]
  omega

/-! ## Nodes of files -/

/-- The inode at `node` is that of a file of the ramdisk, which has `length` bytes from `start` on. -/
structure FileNode (sym : RamdiskSymbols) (s : Kernel Flat) (node start length : Word) : Prop where
  read : s.mem.word (node + BitVec.ofNat 32 inodeRead) = sym.read
  start : s.mem.word (s.ramdisk.header (s.mem.word (node + BitVec.ofNat 32 inodeIno)) +
    BitVec.ofNat 32 headerOffset) = start
  length : s.mem.word (s.ramdisk.header (s.mem.word (node + BitVec.ofNat 32 inodeIno)) +
    BitVec.ofNat 32 headerLength) = length

/-- Up to the copy, `read` puts a byte of the address of the file on the screen, and changes nothing else apart from
what it notes of reading the header. -/
theorem FileNode.readFs_copy {sym : RamdiskSymbols} {s : Kernel Flat} {node start length : Word}
    (hf : FileNode sym s node start length) (offset size buffer : Word) :
    ∃ s₀ s₁, s₀ = s.noted (some s.ramdisk.image)
        (s.ramdisk.header (s.mem.word (node + BitVec.ofNat 32 inodeIno))) fileHeaderSize ∧
      ConsoleOnly s₀ s₁ ∧ Shown (charText start) s₀ s₁ ∧
      readFs (ramdiskOps sym) node offset size buffer s =
        if length < offset then .ok (0#32, s₀)
        else (do
          memcpy buffer (start + offset) (readLen length offset size).toNat s.ramdisk.image
          pure (readLen length offset size)) s₁ := by
  have hword : ∀ a (s : Kernel Flat), load32 a none s = .ok (s.mem.word a, s) := fun a s =>
    load32_run (within_none _ _)
  generalize hs₀ : s.noted (some s.ramdisk.image)
    (s.ramdisk.header (s.mem.word (node + BitVec.ofNat 32 inodeIno))) fileHeaderSize = s₀
  have hmem : s₀.mem = s.mem := by
    rw [← hs₀]
    exact (Kernel.noted_keeps ..).1
  have hstart := hword (s.ramdisk.header (s.mem.word (node + BitVec.ofNat 32 inodeIno)) +
    BitVec.ofNat 32 headerOffset) s₀
  rw [hmem, hf.start] at hstart
  have hlength := hword (s.ramdisk.header (s.mem.word (node + BitVec.ofNat 32 inodeIno)) +
    BitVec.ofNat 32 headerLength) s₀
  rw [hmem, hf.length] at hlength
  obtain ⟨cw, hprinted⟩ := char_printed (Bus.load8 s₀.mem) start
  obtain ⟨_, s₁, hprint, hconsole, hshown⟩ := kPrintf_shown hprinted
  refine ⟨s₀, s₁, rfl, hconsole, hshown, ?_⟩
  have hread : readFs (ramdiskOps sym) node offset size buffer s =
      ramdiskRead node offset size buffer s := by
    rw [readFs, bind_run (hword _ s), hf.read, if_pos sym.read_ne]
    exact if_pos rfl ▸ rfl
  rw [hread, ramdiskRead, bind_run (get_apply _), bind_run (hword _ s), bind_run modify_run, hs₀,
    bind_run hstart, bind_run hlength]
  by_cases hlt : length < offset
  · rw [if_pos hlt, if_pos hlt]
    rfl
  · rw [if_neg hlt, if_neg hlt]
    exact bind_run hprint

/-- The byte is all that goes to the screen. -/
theorem FileNode.readFs_shown {sym : RamdiskSymbols} {s : Kernel Flat} {node start length offset size buffer : Word}
    (hf : FileNode sym s node start length) (hle : ¬length < offset) :
    WhenReturns (readFs (ramdiskOps sym) node offset size buffer) s fun _ s' => Shown (charText start) s s' := by
  intro r s' hrun
  obtain ⟨s₀, s₁, hnoted, _, hshown, hcopy⟩ := hf.readFs_copy offset size buffer
  rw [hcopy, if_neg hle] at hrun
  have hcopied : Respects SameConsole (do
      memcpy buffer (start + offset) (readLen length offset size).toNat s.ramdisk.image
      pure (readLen length offset size) : K Flat Word) :=
    (memcpy_sameConsole _ _ _ _).bind fun _ => .pure _
  have hsame : SameConsole s s₀ := by
    rw [hnoted]
    exact .noted s _ _ _
  have hstart : Shown [] s s₀ := Returns.of_eq (a := ()) rfl hsame
  have hall := (hstart.append hshown).append (.nothing hcopied hrun)
  rwa [List.nil_append, List.append_nil] at hall

section Read

variable {sym : RamdiskSymbols} {m : Bytes} {a : Alloc} {addr size offset length buffer : Word}
  {n i : Nat} {s s' : Kernel Flat}

/-- The words of a header are read from the image. -/
theorem headerWord_run (hp : RamdiskPlaced sym addr size a) (hm : Mounted sym m a addr size n s)
    (hi : i < n) {o : Nat} (ho : o + 4 ≤ fileHeaderSize) :
    load32 (s.ramdisk.header (BitVec.ofNat 32 i) + BitVec.ofNat 32 o) none s =
        .ok ((relocate m addr n).read32 (headerAt addr.toNat i + o), s) ∧
      (s.ramdisk.header (BitVec.ofNat 32 i)).toNat = headerAt addr.toNat i := by
  obtain ⟨_, hfit, _⟩ := (hm.files i hi).name
  have hfits := hp.image_fits
  have hheader := hfit.header
  simp only [headerAt, fileHeaderSize, initrdHeaderSize] at hheader ho
  have haddr : (s.ramdisk.header (BitVec.ofNat 32 i)).toNat = headerAt addr.toNat i := by
    simp only [Ramdisk.header, hm.fileHeaders, headerAt, fileHeaderSize, initrdHeaderSize,
      BitVec.toNat_add, BitVec.toNat_mul, BitVec.toNat_ofNat]
    omega
  refine ⟨?_, haddr⟩
  have hword : (s.ramdisk.header (BitVec.ofNat 32 i) + BitVec.ofNat 32 o).toNat =
      headerAt addr.toNat i + o := by
    rw [toNat_add_ofNat, haddr]
    rw [haddr]
    simp only [headerAt, fileHeaderSize, initrdHeaderSize]
    omega
  rw [load32_run (within_none _ _), Flat.word_eq, hword]
  · congr 2
    refine Bytes.read32_congr fun x hx hx' => hm.image x ?_
    simp only [imageExtent, Extent.mem_ofLen, headerAt, fileHeaderSize, initrdHeaderSize] at hx hx' ⊢
    omega
  · rw [hword]
    simp only [headerAt, fileHeaderSize, initrdHeaderSize]
    omega

/-- The inode of a file of a mounted image. -/
theorem Mounted.fileNode (hp : RamdiskPlaced sym addr size a) (hroom : RamdiskRoom a n)
    (hm : Mounted sym m a addr size n s) (hi : i < n) :
    s.mem.word ((Node.file i).addr s.ramdisk + BitVec.ofNat 32 inodeIno) = BitVec.ofNat 32 i ∧
      FileNode sym s ((Node.file i).addr s.ramdisk) (fileStart m addr i) (fileLength m addr i) := by
  have hfile : Node.Valid n (.file i) := hi
  have hloaded : ∀ {a w : Word}, load32 a none s = .ok (w, s) → s.mem.word a = w := fun h => by
    rw [load32_run (within_none _ _)] at h
    exact (Prod.mk.inj (Except.ok.inj h)).1
  have hino := hloaded (field_run hp hroom hm hfile (f := (inodeIno, BitVec.ofNat 32 i))
    (by simp [Node.fields, nodeFields, fileFields]))
  have hread := hloaded (field_run hp hroom hm hfile (f := (inodeRead, sym.read))
    (by simp [Node.fields, nodeFields, fileFields]))
  have hoffset := hloaded (headerWord_run hp hm hi (o := headerOffset) (by decide)).1
  have hlength := hloaded (headerWord_run hp hm hi (o := headerLength) (by decide)).1
  rw [relocate_offset hi] at hoffset
  rw [relocate_length] at hlength
  refine ⟨hino, hread, ?_, ?_⟩
  · rw [hino, hoffset, fileStart]
  · rw [hino, hlength, fileLength]

/-- Up to the copy, `read` changes the screen only. -/
theorem readFs_copy (hp : RamdiskPlaced sym addr size a) (hroom : RamdiskRoom a n)
    (hm : Mounted sym m a addr size n s) (hi : i < n) (offset length buffer : Word) :
    ∃ s₁, ChangesOnly (.ofLen 0 0) s s₁ ∧
      readFs (ramdiskOps sym) ((Node.file i).addr s.ramdisk) offset length buffer s =
        if fileLength m addr i < offset then .ok (0#32, s)
        else (do
          memcpy buffer (fileStart m addr i + offset)
            (readLen (fileLength m addr i) offset length).toNat s.ramdisk.image
          pure (readLen (fileLength m addr i) offset length)) s₁ := by
  obtain ⟨hino, hnode⟩ := hm.fileNode hp hroom hi
  obtain ⟨s₀, s₁, hs₀, hconsole, _, hcopy⟩ := hnode.readFs_copy offset length buffer
  obtain ⟨_, hheader⟩ := headerWord_run hp hm hi (o := 0) (by decide)
  obtain ⟨_, hfit, _⟩ := (hm.files i hi).name
  have hnoted : s₀ = s := by
    rw [hs₀, hino]
    refine Kernel.noted_inside _ _ _ ?_
    rw [hheader, hm.image_obj]
    exact ⟨Nat.le_trans (Nat.le_add_right _ _) (Nat.le_add_right _ _), hfit.header⟩
  subst hnoted
  obtain ⟨hram, hrd, hstray⟩ := console_nodes hconsole
  exact ⟨s₁, ⟨hrd, hstray, fun x _ => by rw [hram]⟩, hcopy⟩

/-- Beyond the end of the file nothing is read. -/
theorem readFs_past (hp : RamdiskPlaced sym addr size a) (hroom : RamdiskRoom a n)
    (hm : Mounted sym m a addr size n s) (hi : i < n) (hlt : fileLength m addr i < offset) :
    readFs (ramdiskOps sym) ((Node.file i).addr s.ramdisk) offset length buffer s = .ok (0#32, s) := by
  obtain ⟨_, _, hcopy⟩ := readFs_copy hp hroom hm hi offset length buffer
  rw [hcopy, if_pos hlt]

/-- The bytes `read` copies lie in the image. -/
def ReadInside (m : Bytes) (addr size : Word) (i : Nat) (offset length : Word) : Prop :=
  (Extent.ofLen (fileStart m addr i + offset).toNat (readLen (fileLength m addr i) offset length).toNat).Within
    (imageExtent addr size)

/-- Bytes that lie in the image are copied to a buffer beside it. -/
theorem readFs_run (hp : RamdiskPlaced sym addr size a) (hroom : RamdiskRoom a n)
    (hm : Mounted sym m a addr size n s) (hi : i < n) (hle : ¬fileLength m addr i < offset)
    (hin : readLen (fileLength m addr i) offset length = 0#32 ∨ ReadInside m addr size i offset length)
    (hbuf : buffer.toNat + (readLen (fileLength m addr i) offset length).toNat ≤ 2 ^ 32)
    (hapart : (Extent.ofLen buffer.toNat (readLen (fileLength m addr i) offset length).toNat).Apart
      (imageExtent addr size)) :
    Returns (readFs (ramdiskOps sym) ((Node.file i).addr s.ramdisk) offset length buffer) s fun r s' =>
      r = readLen (fileLength m addr i) offset length ∧
        ChangesOnly (.ofLen buffer.toNat (readLen (fileLength m addr i) offset length).toNat) s s' ∧
        ∀ k, k < (readLen (fileLength m addr i) offset length).toNat →
          s'.mem.ram (buffer.toNat + k) =
            relocate m addr n ((fileStart m addr i + offset).toNat + k) := by
  obtain ⟨s₁, hchange, hcopy⟩ := readFs_copy hp hroom hm hi offset length buffer
  rw [if_neg hle, hm.image_obj] at hcopy
  have hfits := hp.image_fits
  unfold ReadInside at hin
  generalize hc : readLen (fileLength m addr i) offset length = c at *
  generalize hsrc : fileStart m addr i + offset = src at *
  have hzero : c = 0#32 → c.toNat = 0 := fun h => by rw [h]; rfl
  have hsrcfit : src.toNat + c.toNat ≤ 2 ^ 32 := by
    rcases hin with h | h
    · have hsrclt := src.isLt
      rw [hzero h]
      omega
    · have hhi := h.2
      simp only [Extent.ofLen, imageExtent] at hhi
      omega
  have hdisj : (Extent.ofLen src.toNat c.toNat).Disjoint (Extent.ofLen buffer.toNat c.toNat) := by
    rcases hin with h | h
    · simp only [Extent.Disjoint, Extent.ofLen, hzero h]
      omega
    · -- The larger of the two starts would lie in both.
      simp only [imageExtent, Extent.Within, Extent.ofLen] at h
      refine Decidable.byContradiction fun hmeet => ?_
      simp only [Extent.Disjoint, Extent.ofLen] at hmeet
      refine hapart (max src.toNat buffer.toNat) ?_ ?_
      · rw [Extent.mem_ofLen]
        omega
      · rw [imageExtent, Extent.mem_ofLen]
        omega
  have hinside : ∀ k, k < c.toNat → Within (imageExtent addr size) (src + BitVec.ofNat 32 k) 1 := by
    intro k hk
    rcases hin with h | h
    · rw [hzero h] at hk
      omega
    · rw [within_some, toNat_add_ofNat (by omega)]
      simp only [imageExtent, Extent.Within, Extent.ofLen] at h ⊢
      omega
  have hmemcpy := memcpy_run (s := s₁) hbuf hsrcfit hdisj hinside
  refine .of_eq (hcopy.trans (bind_run hmemcpy)) ⟨rfl, ⟨hchange.ramdisk, hchange.strayed, ?_⟩, ?_⟩
  · intro x hx
    rw [Extent.mem_ofLen] at hx
    rw [copied_eq_withRam, withRam_ram, Bytes.fill_outside (by omega)]
    exact hchange.ram x (fun h => by simp only [Extent.mem_ofLen] at h; omega)
  · intro k hk
    rw [copied_eq_withRam, withRam_ram, Bytes.fill_inside hk, Flat.bytesAt_eq (by omega),
      hchange.ram _ (fun h => by simp only [Extent.mem_ofLen] at h; omega)]
    refine hm.image _ ?_
    rcases hin with h | h
    · rw [hzero h] at hk
      omega
    · rw [imageExtent, Extent.mem_ofLen]
      simp only [imageExtent, Extent.Within, Extent.ofLen] at h
      omega

/-- Only bytes of the image are read without straying. -/
theorem readFs_clean (hp : RamdiskPlaced sym addr size a) (hroom : RamdiskRoom a n)
    (hm : Mounted sym m a addr size n s) (hi : i < n) {r : Word}
    (hrun : readFs (ramdiskOps sym) ((Node.file i).addr s.ramdisk) offset length buffer s = .ok (r, s'))
    (hs : s'.strayed = false) :
    fileLength m addr i < offset ∨ readLen (fileLength m addr i) offset length = 0#32 ∨
      ReadInside m addr size i offset length := by
  obtain ⟨s₁, hchange, hcopy⟩ := readFs_copy hp hroom hm hi offset length buffer
  by_cases hlt : fileLength m addr i < offset
  · exact .inl hlt
  rw [if_neg hlt, hm.image_obj] at hcopy
  rw [hcopy] at hrun
  obtain ⟨_, s₂, hmemcpy, hs₂, _⟩ := clean_bind hrun hs fun _ => Remembers.pure _
  have hfits := hp.image_fits
  have hsize := size.isLt
  unfold ReadInside
  generalize readLen (fileLength m addr i) offset length = c at *
  generalize fileStart m addr i + offset = src at *
  by_cases hz : c = 0#32
  · exact .inr (.inl hz)
  have hpos := ne_zero_iff_toNat.mp hz
  have hbyte : ∀ k, k < c.toNat → addr.toNat ≤ (src.toNat + k) % 2 ^ 32 ∧
      (src.toNat + k) % 2 ^ 32 < addr.toNat + size.toNat := by
    intro k hk
    have hin := memcpy_clean hmemcpy hs₂ hk
    rw [within_some, BitVec.toNat_add, BitVec.toNat_ofNat] at hin
    simp only [Extent.Within, imageExtent, Extent.ofLen] at hin
    omega
  have hfirst := hbyte 0 hpos
  have hlast := hbyte (c.toNat - 1) (by omega)
  have hc := c.isLt
  have hsrc := src.isLt
  -- Bytes on both sides of the end of the address space cannot all be in the image.
  have hwrap : src.toNat + c.toNat ≤ 2 ^ 32 := by
    rcases Nat.lt_or_ge (2 ^ 32) (src.toNat + c.toNat) with h | h
    · have hzero := hbyte (2 ^ 32 - src.toNat) (by omega)
      have hend := hbyte (2 ^ 32 - 1 - src.toNat) (by omega)
      omega
    · exact h
  refine .inr (.inr ?_)
  simp only [Extent.Within, imageExtent, Extent.ofLen]
  omega

end Read

end LizaOS
