-- SUMMARY: Images with proper file names, and the names their inodes get on a heap of zeros.
import LizaOS.Drivers.RamdiskList

/-!
# File names of an image

A file's name is the string in its header. `strcpy` leaves the terminating NUL out, so an inode has the
name of its file only if the heap held a zero behind it.
-/

namespace LizaOS

/-- The name of file `i` in the image. -/
def imageName (m : Bytes) (addr : Word) (i : Nat) : List Byte :=
  stringAt m nameLen (headerAt addr.toNat i + headerName)

/-- The table of files lies in the image, and each file has a name of its own that ends in its header
and is not `dev`. -/
structure WellNamed (m : Bytes) (addr size : Word) (n : Nat) : Prop where
  table : initrdHeaderSize + fileHeaderSize * n ≤ size.toNat
  nonempty : ∀ i, i < n → imageName m addr i ≠ []
  ends : ∀ i, i < n → (imageName m addr i).length < nameLen
  distinct : ∀ i j, i < n → j < n → imageName m addr i = imageName m addr j → i = j
  not_dev : ∀ i, i < n → imageName m addr i ≠ cstr "dev"

section Names

variable {sym : RamdiskSymbols} {m : Bytes} {a : Alloc} {addr size : Word} {n i : Nat} {s : Kernel Flat}

/-- The name field is in front of the offset, so patching leaves it alone. -/
theorem nameBytes_field {j : Nat} (hj : j < nameLen) :
    nameBytes m addr i j = m (headerAt addr.toNat i + headerName + j) := by
  simp only [nameLen] at hj
  rw [nameBytes, Nat.add_assoc]
  refine relocate_header (.inl ?_)
  simp only [headerName, headerOffset]
  omega

theorem WellNamed.copy (h : WellNamed m addr size n) (hi : i < n) :
    CopyLen (nameBytes m addr i) (imageName m addr i).length where
  pos := List.length_pos_iff.mpr (h.nonempty i hi)
  nul := (nameBytes_field (h.ends i hi)).trans (stringAt_end (h.ends i hi))
  before j _ hj := by
    rw [nameBytes_field (Nat.lt_trans hj (h.ends i hi)), stringAt_byte hj]
    exact (stringAt_nulless _ _ _).getD_ne hj

theorem WellNamed.fits (h : WellNamed m addr size n) : ImageFits m addr size n where
  header := Nat.le_trans (Nat.le_add_right _ _) h.table
  files i hi := by
    have htable := h.table
    have hends := h.ends i hi
    simp only [initrdHeaderSize, fileHeaderSize, nameLen] at htable hends
    refine ⟨_, ?_, h.copy hi, ?_, ?_⟩
    · simp only [headerAt, initrdHeaderSize, fileHeaderSize]
      omega
    · simp only [inodeNameLen]
      omega
    · simp only [headerAt, initrdHeaderSize, fileHeaderSize, headerName]
      omega

/-- The heap holds zeros where the inodes go. -/
def HeapZero (m : Bytes) (a : Alloc) (n : Nat) : Prop := ∀ x, InodeByte a n x → m x = 0#8

/-- On a heap of zeros the name field of an inode is the name and zeros behind it. -/
theorem mounted_field (hm : Mounted sym m a addr size n s) (h : WellNamed m addr size n)
    (hz : HeapZero m a n) (hi : i < n) {j : Nat} (hj : j ≤ nameLen) :
    s.mem.ram (nodeAt (nodesAt a) i + j) = (imageName m addr i).getD j 0#8 := by
  obtain ⟨len, hfit, hname⟩ := (hm.files i hi).name
  obtain rfl := (h.copy hi).unique hfit.copy
  simp only [nameLen] at hj
  rw [hname j (by simp only [inodeNameLen]; omega)]
  by_cases hlt : j < (imageName m addr i).length
  · rw [if_pos hlt, nameBytes_field (Nat.lt_trans hlt (h.ends i hi))]
    exact stringAt_byte hlt
  · rw [if_neg hlt, hz _ (node_byte hi (by simp only [inodeSize]; omega)),
      List.getD_eq_getElem?_getD, List.getElem?_eq_none (by omega)]
    rfl

theorem mounted_inodeName (hm : Mounted sym m a addr size n s) (h : WellNamed m addr size n)
    (hz : HeapZero m a n) (hi : i < n) : inodeName s.mem.ram a i = imageName m addr i := by
  have hends := h.ends i hi
  simp only [nameLen] at hends
  refine stringAt_eq (stringAt_nulless _ _ _) (by simp only [inodeNameLen]; omega)
    (fun j hj => mounted_field hm h hz hi (by simp only [nameLen]; omega)) fun _ => ?_
  rw [mounted_field hm h hz hi (by simp only [nameLen]; omega), getD_length]

/-- Such a name is listed as it is. -/
theorem mounted_nameFits (hm : Mounted sym m a addr size n s) (h : WellNamed m addr size n)
    (hz : HeapZero m a n) (hi : i < n) : NameFits fun j => s.mem.ram (nodeAt (nodesAt a) i + j) := by
  have hends := h.ends i hi
  have hnul : s.mem.ram (nodeAt (nodesAt a) i + (imageName m addr i).length) = 0#8 := by
    rw [mounted_field hm h hz hi (Nat.le_of_lt hends), getD_length]
  obtain ⟨k, hk, hcopy⟩ := copyLen_of_nul (f := fun j => s.mem.ram (nodeAt (nodesAt a) i + j))
    (List.length_pos_iff.mpr (h.nonempty i hi)) hnul
  exact ⟨⟨k, hcopy, by omega⟩, _, hends, hnul⟩

end Names

end LizaOS
