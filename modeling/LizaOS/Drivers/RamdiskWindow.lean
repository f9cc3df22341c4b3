-- SUMMARY: A read through a file's inode gives exactly the window asked for, unless offset and size wrap.
import LizaOS.Drivers.RamdiskSafety

/-!
# Windowed reads

What a caller of `read_fs` on a file expects: the bytes of the file from the offset on, as many as were
asked for and there are, and the rest of the buffer as it was. This holds of any inode of a file whose
contents lie in the image, however the driver came to it.
-/

namespace LizaOS

open Exec

/-- The number of bytes in the window of `size` bytes at `offset` of a file. -/
def windowLen (length offset size : Word) : Nat :=
  if length.toNat < offset.toNat then 0 else min size.toNat (length.toNat - offset.toNat)

/-- The read gives the window of the file. -/
def ReadsWindow (sym : RamdiskSymbols) (s : Kernel Flat) (node start length offset size buffer : Word) :
    Prop :=
  Returns (readFs (ramdiskOps sym) node offset size buffer) s fun r s' =>
    r.toNat = windowLen length offset size ∧
      (∀ k, k < r.toNat →
        s'.mem.ram (buffer.toNat + k) = s.mem.ram (start.toNat + offset.toNat + k)) ∧
      ∀ x, x ∉ Extent.ofLen buffer.toNat r.toNat → s'.mem.ram x = s.mem.ram x

section Window

variable {sym : RamdiskSymbols} {s : Kernel Flat} {node start length offset size buffer : Word}

/-- Behind the end of the file the window is empty. -/
theorem readsWindow_past (hf : FileNode sym s node start length) (hlt : length < offset) :
    ReadsWindow sym s node start length offset size buffer := by
  obtain ⟨s₀, _, rfl, _, _, hcopy⟩ := hf.readFs_copy offset size buffer
  rw [if_pos hlt] at hcopy
  have hempty : windowLen length offset size = 0 := if_pos (BitVec.lt_def.mp hlt)
  refine .of_eq hcopy ⟨hempty.symm, fun k hk => absurd hk (Nat.not_lt_zero k), fun x _ => ?_⟩
  rw [(Kernel.noted_keeps ..).1]

/-- Where offset and size do not wrap, the copy is of the window. -/
theorem readsWindow_of_sum (hf : FileNode sym s node start length)
    (hcontents : (Extent.ofLen start.toNat length.toNat).Within s.ramdisk.image)
    (himage : s.ramdisk.image.hi ≤ 2 ^ 32) (hle : offset.toNat ≤ length.toNat)
    (hbuf : buffer.toNat + windowLen length offset size ≤ 2 ^ 32)
    (hapart : (Extent.ofLen buffer.toNat (windowLen length offset size)).Apart
      (Extent.ofLen start.toNat length.toNat))
    (hsum : offset.toNat + size.toNat < 2 ^ 32) :
    ReadsWindow sym s node start length offset size buffer := by
  obtain ⟨s₀, s₁, rfl, hconsole, _, hcopy⟩ := hf.readFs_copy offset size buffer
  rw [if_neg (fun h => by rw [BitVec.lt_def] at h; omega)] at hcopy
  have hlen : (readLen length offset size).toNat = windowLen length offset size := by
    rw [readLen_toNat hle hsum, windowLen, if_neg (by omega)]
  have hwindow : windowLen length offset size ≤ length.toNat - offset.toNat := by
    rw [windowLen, if_neg (by omega)]
    exact Nat.min_le_right _ _
  obtain ⟨hlow, hhigh⟩ := hcontents
  simp only [Extent.ofLen] at hlow hhigh
  -- the sum of start and offset does not wrap either, as the contents end in the image
  have hsrc : (start + offset).toNat = start.toNat + offset.toNat ∨ windowLen length offset size = 0 := by
    by_cases hz : windowLen length offset size = 0
    · exact .inr hz
    · exact .inl (toNat_add_of_lt (by omega))
  have hsrcfit : (start + offset).toNat + (readLen length offset size).toNat ≤ 2 ^ 32 := by
    have hlt := (start + offset).isLt
    omega
  have hdisj : (Extent.ofLen (start + offset).toNat (readLen length offset size).toNat).Disjoint
      (Extent.ofLen buffer.toNat (readLen length offset size).toNat) := by
    rw [hlen]
    refine Decidable.byContradiction fun hmeet => ?_
    simp only [Extent.Disjoint, Extent.ofLen] at hmeet
    refine hapart (max (start + offset).toNat buffer.toNat) ?_ ?_
    · rw [Extent.mem_ofLen]
      omega
    · rw [Extent.mem_ofLen]
      omega
  have hinside : ∀ k, k < (readLen length offset size).toNat →
      Within (some s.ramdisk.image) (start + offset + BitVec.ofNat 32 k) 1 := by
    intro k hk
    rw [within_some, toNat_add_ofNat (by omega)]
    simp only [Extent.Within, Extent.ofLen]
    omega
  have hram : s₁.mem.ram = s.mem.ram := by
    rw [(console_nodes hconsole).1, (Kernel.noted_keeps ..).1]
  have hmemcpy := memcpy_run (s := s₁) (by rw [hlen]; exact hbuf) hsrcfit hdisj hinside
  refine .of_eq (hcopy.trans (bind_run hmemcpy)) ⟨hlen, fun k hk => ?_, fun x hx => ?_⟩
  · have hfrom : (start + offset).toNat = start.toNat + offset.toNat := hsrc.resolve_right (by omega)
    rw [copied_eq_withRam, withRam_ram, Bytes.fill_inside hk, Flat.bytesAt_eq (by omega), hram, hfrom]
  · rw [Extent.mem_ofLen] at hx
    rw [copied_eq_withRam, withRam_ram, Bytes.fill_outside (by omega), hram]

/-- Where they wrap, nothing is clamped, and more is copied than the file has. -/
theorem not_readsWindow_wrapped (hf : FileNode sym s node start length) (hle : offset.toNat ≤ length.toNat)
    (hsum : 2 ^ 32 ≤ offset.toNat + size.toNat) :
    ¬ReadsWindow sym s node start length offset size buffer := by
  rintro ⟨r, s', hrun, hlen, _⟩
  obtain ⟨s₀, s₁, _, _, _, hcopy⟩ := hf.readFs_copy offset size buffer
  rw [if_neg (fun h => by rw [BitVec.lt_def] at h; omega), hrun] at hcopy
  obtain ⟨_, s₂, _, hpure⟩ := bind_ok.mp hcopy.symm
  have hr : r = readLen length offset size := (Prod.mk.inj (Except.ok.inj hpure)).1.symm
  have hlength := length.isLt
  rw [hr, readLen_wrapped hle hsum, windowLen, if_neg (by omega)] at hlen
  omega

/-- A read gives the window exactly if the offset is behind the end of the file, or offset and size do
not wrap. -/
theorem readsWindow_iff (hf : FileNode sym s node start length)
    (hcontents : (Extent.ofLen start.toNat length.toNat).Within s.ramdisk.image)
    (himage : s.ramdisk.image.hi ≤ 2 ^ 32)
    (hbuf : buffer.toNat + windowLen length offset size ≤ 2 ^ 32)
    (hapart : (Extent.ofLen buffer.toNat (windowLen length offset size)).Apart
      (Extent.ofLen start.toNat length.toNat)) :
    ReadsWindow sym s node start length offset size buffer ↔
      length.toNat < offset.toNat ∨ offset.toNat + size.toNat < 2 ^ 32 := by
  constructor
  · intro hreads
    refine Decidable.byContradiction fun hno => ?_
    push Not at hno
    exact not_readsWindow_wrapped hf hno.1 hno.2 hreads
  · intro hwhen
    by_cases hlt : length.toNat < offset.toNat
    · exact readsWindow_past hf (BitVec.lt_def.mpr hlt)
    · exact readsWindow_of_sum hf hcontents himage (by omega) hbuf hapart (hwhen.resolve_left hlt)

/-- The file of the small image, which has its one byte at `0x1050`. -/
theorem tiny_fileNode :
    ∃ root s', ramdiskInit tinySymbols 0x1000#32 81#32 tinyKernel = .ok (root, s') ∧
      s'.ramdisk.image = imageExtent 0x1000#32 81#32 ∧
      FileNode tinySymbols s' ((Node.file 0).addr s'.ramdisk) 0x1050#32 1#32 := by
  obtain ⟨root, s', hrun, _, hm⟩ := tiny_mounted
  refine ⟨root, s', hrun, hm.image_obj, ?_⟩
  have hstart : fileStart tinyKernel.mem.ram 0x1000#32 0 = 0x1050#32 := by decide
  have hlength : fileLength tinyKernel.mem.ram 0x1000#32 0 = 1#32 := by decide
  have hnode := (hm.fileNode tiny_placed tiny_room Nat.zero_lt_one).2
  rwa [hstart, hlength] at hnode

/-- Sixteen bytes asked for at the start of the file of one byte. -/
theorem readsWindow_iff_tiny :
    ∃ root s', ramdiskInit tinySymbols 0x1000#32 81#32 tinyKernel = .ok (root, s') ∧
      (ReadsWindow tinySymbols s' ((Node.file 0).addr s'.ramdisk) 0x1050#32 1#32 0#32 16#32 0x8000#32 ↔
        (1#32).toNat < (0#32).toNat ∨ (0#32).toNat + (16#32).toNat < 2 ^ 32) := by
  obtain ⟨root, s', hrun, himage, hnode⟩ := tiny_fileNode
  refine ⟨root, s', hrun, readsWindow_iff hnode ?_ ?_ (by decide) (Extent.Disjoint.apart (by decide))⟩
  · rw [himage]
    decide
  · rw [himage]
    decide

/-- At the end of the file of one byte, `2^32 - 1` bytes are asked for: not 0 but all of them are copied. -/
theorem not_readsWindow_end :
    ∃ root s', ramdiskInit tinySymbols 0x1000#32 81#32 tinyKernel = .ok (root, s') ∧
      FileNode tinySymbols s' ((Node.file 0).addr s'.ramdisk) 0x1050#32 1#32 ∧
      ¬ReadsWindow tinySymbols s' ((Node.file 0).addr s'.ramdisk) 0x1050#32 1#32 1#32 0xFFFFFFFF#32
        0x8000#32 := by
  obtain ⟨root, s', hrun, _, hnode⟩ := tiny_fileNode
  exact ⟨root, s', hrun, hnode, not_readsWindow_wrapped hnode (by decide) (by decide)⟩

end Window

end LizaOS
