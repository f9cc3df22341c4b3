-- SUMMARY: Listing a directory: the entry `readdir` puts in the global `dentry`, and when the name fits there.
import LizaOS.Drivers.RamdiskCalls

/-!
# Listing a directory

`readdir` copies the name of an inode to the global `dentry`, whose name field is half as long. The
entry is right when the name has its NUL within the field; a longer name runs over it.
-/

namespace LizaOS

open Exec

/-- The global `dentry` holds the entry. -/
structure EntryIs (sym : RamdiskSymbols) (m : Bytes) (name : List Byte) (ino : Word) : Prop where
  name : ∀ j, j ≤ name.length → m (sym.dentry.toNat + j) = name.getD j 0#8
  ino : m.read32 (sym.dentry.toNat + dentryIno) = ino

/-- The bytes `f` fit in the name field of `dentry`: `strcpy` stops inside it, and the NUL put behind
the string is inside it. -/
structure NameFits (f : Nat → Byte) : Prop where
  copy : ∃ k, CopyLen f k ∧ k ≤ nameLen
  nul : ∃ j, j < nameLen ∧ f j = 0#8

theorem NameFits.congr {f g : Nat → Byte} (h : NameFits f) (hfg : ∀ j, j ≤ nameLen → f j = g j) :
    NameFits g := by
  obtain ⟨k, hk, hle⟩ := h.copy
  obtain ⟨j, hj, hz⟩ := h.nul
  refine ⟨⟨k, hk.congr fun i hi => hfg i (by omega), hle⟩, j, hj, ?_⟩
  rw [← hfg j (by omega), hz]

section Entry

variable {sym : RamdiskSymbols} {s s' : Kernel Flat} {m : Bytes} {f : Nat → Byte} {k len : Nat}
  {ino : Word} {name : List Byte}

/-- The memory after an entry has been filled in: `k` bytes copied, the NUL put at `len`. -/
def entryRam (sym : RamdiskSymbols) (m : Bytes) (f : Nat → Byte) (k len : Nat) (ino : Word) : Bytes :=
  ((m.fill sym.dentry.toNat k f).write8 (sym.dentry.toNat + len) 0#8).write32
    (sym.dentry.toNat + dentryIno) ino

theorem entryRam_other (hk : k ≤ nameLen) (hlen : len < nameLen) {x : Nat} (hx : x ∉ sym.dentryExtent) :
    entryRam sym m f k len ino x = m x := by
  simp only [RamdiskSymbols.dentryExtent, Extent.mem_ofLen, dentrySize, nameLen] at hx hk hlen
  simp only [entryRam, dentryIno]
  rw [Bytes.write32_other (by omega), Bytes.write8_other (by omega), Bytes.fill_outside (by omega)]

theorem entryRam_is (hlen : name.length < nameLen) (hname : ∀ j, j < name.length → j < k ∧ f j = name.getD j 0#8) :
    EntryIs sym (entryRam sym m f k name.length ino) name ino := by
  simp only [nameLen] at hlen
  refine ⟨fun j hj => ?_, Bytes.read32_write32_same _⟩
  rw [entryRam, Bytes.write32_other (by simp only [dentryIno]; omega)]
  rcases Nat.lt_or_eq_of_le hj with hlt | rfl
  · obtain ⟨hjk, hfj⟩ := hname j hlt
    rw [Bytes.write8_other (by omega), Bytes.fill_inside hjk, hfj]
  · rw [Bytes.write8_same, getD_length]

/-- A byte of the name field is one of its first `nameLen` bytes. -/
theorem within_dentryName {j : Nat} (hj : j < dentrySize) :
    Within sym.dentryName (sym.dentry + BitVec.ofNat 32 j) 1 ↔ j < nameLen := by
  have hfits := sym.dentry_fits
  simp only [dentrySize] at hfits hj
  rw [within_some, RamdiskSymbols.dentryName, toNat_add_ofNat (by omega)]
  simp only [Extent.Within, Extent.ofLen]
  omega

theorem storeEntryNul_run (hlen : len < nameLen) :
    store8 (sym.dentry + BitVec.ofNat 32 len) 0#8 sym.dentryName s =
      .ok ((), s.withRam (s.mem.ram.write8 (sym.dentry.toNat + len) 0#8)) := by
  have hfits := sym.dentry_fits
  simp only [dentrySize, nameLen] at hfits hlen
  rw [store8_run ((within_dentryName (by simp only [dentrySize]; omega)).mpr hlen), Flat.setByte,
    toNat_add_ofNat (by omega)]
  rfl

theorem storeEntryIno_run :
    store32 (sym.dentry + BitVec.ofNat 32 dentryIno) ino sym.dentryInoField s =
      .ok ((), s.withRam (s.mem.ram.write32 (sym.dentry.toNat + dentryIno) ino)) := by
  have hfits := sym.dentry_fits
  have haddr : (sym.dentry + BitVec.ofNat 32 dentryIno).toNat = sym.dentry.toNat + dentryIno :=
    toNat_add_ofNat (by simp only [dentrySize, dentryIno] at hfits ⊢; omega)
  simp only [dentrySize] at hfits
  have hin : Within sym.dentryInoField (sym.dentry + BitVec.ofNat 32 dentryIno) 4 := by
    rw [within_some, RamdiskSymbols.dentryInoField, haddr]
    exact ⟨Nat.le_refl _, Nat.le_refl _⟩
  have hram : (s.mem.setWord (sym.dentry + BitVec.ofNat 32 dentryIno) ino).ram =
      s.mem.ram.write32 (sym.dentry.toNat + dentryIno) ino := by
    rw [Flat.setWord_ram (by rw [haddr]; simp only [dentryIno]; omega), haddr]
  rw [store32_run hin, ← hram]
  rfl

end Entry

/-! ## The entry of `/dev` -/

section List

variable {sym : RamdiskSymbols} {m : Bytes} {a : Alloc} {addr size index : Word} {n i : Nat}
  {s s' : Kernel Flat} {node : Node}

/-- The first entry of the root. -/
theorem readdirFs_dev (hp : RamdiskPlaced sym addr size a) (hroom : RamdiskRoom a n)
    (hm : Mounted sym m a addr size n s) :
    Returns (readdirFs (ramdiskOps sym) (Node.root.addr s.ramdisk) 0#32) s fun r s' =>
      r = sym.dentry ∧ ChangesOnly sym.dentryExtent s s' ∧ EntryIs sym s'.mem.ram (cstr "dev") 0#32 := by
  have hfits := sym.dentry_fits
  simp only [dentrySize] at hfits
  have hshort : (cstr "dev").length < nameLen := by decide
  have hdst : ∀ j, j < (cstr "dev").length → Within sym.dentryName (sym.dentry + BitVec.ofNat 32 j) 1 := by
    intro j hj
    simp only [nameLen] at hshort
    exact (within_dentryName (by simp only [dentrySize]; omega)).mpr (by simp only [nameLen]; omega)
  have hfit : sym.dentry.toNat + (cstr "dev").length ≤ 2 ^ 32 := by
    simp only [nameLen] at hshort
    omega
  have hcopy := strcpy_lit (s := s) (by decide) (by decide) hfit hdst
  have hroot : Node.root.Valid n := trivial
  have hrun : readdirFs (ramdiskOps sym) (Node.root.addr s.ramdisk) 0#32 s = .ok (sym.dentry,
      s.withRam (entryRam sym s.mem.ram (fun j => (cstr "dev").getD j 0#8) 3 3 0#32)) := by
    rw [readdirFs_dir hp hroom hm hroot trivial, ramdiskReaddir, bind_run (get_apply _),
      if_pos ⟨rfl, rfl⟩, bind_run hcopy]
    exact (bind_run (storeEntryNul_run hshort)).trans (bind_run storeEntryIno_run)
  exact .of_eq hrun ⟨rfl, ⟨rfl, rfl, fun x hx => entryRam_other (by decide) (by decide) hx⟩,
    entryRam_is hshort fun j hj => ⟨hj, rfl⟩⟩

/-! ## The entry of a file -/

/-- What `readdir` does for file `i`. -/
theorem readdirFs_select (hp : RamdiskPlaced sym addr size a) (hroom : RamdiskRoom a n)
    (hm : Mounted sym m a addr size n s) (hdir : node.IsDir) (hi : i < n)
    (hindex : index - 1#32 = BitVec.ofNat 32 i) :
    readdirFs (ramdiskOps sym) (node.addr s.ramdisk) index s = (do
      strcpy sym.dentry (.mem (s.ramdisk.node (BitVec.ofNat 32 i)) none) sym.dentryName
      let len ← strlen (.mem (s.ramdisk.node (BitVec.ofNat 32 i)) none)
      store8 (sym.dentry + BitVec.ofNat 32 len) 0#8 sym.dentryName
      let ino ← load32 (s.ramdisk.node (BitVec.ofNat 32 i) + BitVec.ofNat 32 inodeIno)
      store32 (sym.dentry + BitVec.ofNat 32 dentryIno) ino sym.dentryInoField
      pure sym.dentry) s := by
  have hend := nodes_fit hp hroom (i := n - 1) (by omega)
  simp only [nodeAt, inodeSize] at hend
  have hpos : ¬(node.addr s.ramdisk = s.ramdisk.root ∧ index = 0#32) := by
    rintro ⟨_, rfl⟩
    have hval := congrArg BitVec.toNat hindex
    simp only [BitVec.toNat_sub, BitVec.toNat_ofNat] at hval
    omega
  have hcount : ¬s.ramdisk.nrootNodes ≤ index - 1#32 := by
    rw [hindex, hm.nrootNodes, BitVec.le_def, BitVec.toNat_ofNat, BitVec.toNat_ofNat]
    omega
  rw [readdirFs_dir hp hroom hm (hdir.valid n) hdir, ramdiskReaddir, bind_run (get_apply _),
    if_neg hpos]
  rw [if_neg hcount, hindex]

/-- A copy that stays in `dentry` changes nothing else. -/
theorem entryCopy_changes {f : Nat → Byte} {k : Nat} (hk : k ≤ dentrySize) :
    ChangesOnly sym.dentryExtent s (copied s sym.dentry f k) := by
  refine ⟨rfl, rfl, fun x hx => ?_⟩
  rw [RamdiskSymbols.dentryExtent, Extent.mem_ofLen] at hx
  rw [copied_eq_withRam, withRam_ram]
  exact Bytes.fill_outside (by omega)

/-- A byte of an inode's name is read while only `dentry` has changed. -/
theorem inodeName_get (hp : RamdiskPlaced sym addr size a) (hroom : RamdiskRoom a n)
    (hm : Mounted sym m a addr size n s) (hi : i < n) {j : Nat} (hj : j < inodeSize)
    (hs : ChangesOnly sym.dentryExtent s s') :
    (Src.mem (s.ramdisk.node (BitVec.ofNat 32 i)) none).get j s' =
      .ok (s.mem.ram (nodeAt (nodesAt a) i + j), s') := by
  have hbyte := node_bytesAt hp hroom hm hi hj s'.mem
  rw [hs.ram _ (hp.heap_dentry _ (inodeByte_heap hroom (node_byte hi hj)))] at hbyte
  rw [Src.get, load8_run (within_none _ _), ← hbyte]
  rfl

theorem Mounted.entry (hp : RamdiskPlaced sym addr size a) (hroom : RamdiskRoom a n)
    (hm : Mounted sym m a addr size n s) (hs : ChangesOnly sym.dentryExtent s s') :
    Mounted sym m a addr size n s' :=
  hm.changes hs hp.image_dentry fun x hx => hp.heap_dentry x (inodeByte_heap hroom hx)

theorem inodeName_entry (hp : RamdiskPlaced sym addr size a) (hroom : RamdiskRoom a n) (hi : i < n)
    (hs : ChangesOnly sym.dentryExtent s s') : inodeName s'.mem.ram a i = inodeName s.mem.ram a i :=
  stringAt_congr fun _ hj => hs.ram _
    (hp.heap_dentry _ (inodeByte_heap hroom (node_byte hi (Nat.lt_trans hj (by decide)))))

/-- The name of file `i` is copied, if `strcpy` stops within the field. -/
theorem entryCopy_run (hp : RamdiskPlaced sym addr size a) (hroom : RamdiskRoom a n)
    (hm : Mounted sym m a addr size n s) (hi : i < n) {k : Nat}
    (hk : CopyLen (fun j => s.mem.ram (nodeAt (nodesAt a) i + j)) k) (hle : k ≤ nameLen) :
    ∃ s₁, s₁ = s.withRam (s.mem.ram.fill sym.dentry.toNat k fun j => s.mem.ram (nodeAt (nodesAt a) i + j)) ∧
      ChangesOnly sym.dentryExtent s s₁ ∧
      strcpy sym.dentry (.mem (s.ramdisk.node (BitVec.ofNat 32 i)) none) sym.dentryName s = .ok ((), s₁) ∧
      strlen (.mem (s.ramdisk.node (BitVec.ofNat 32 i)) none) s₁ =
        .ok ((inodeName s.mem.ram a i).length, s₁) := by
  have hfits := sym.dentry_fits
  simp only [dentrySize] at hfits
  simp only [nameLen] at hle
  have hchange : ∀ j, j ≤ k → ChangesOnly sym.dentryExtent s
      (copied s sym.dentry (fun j => s.mem.ram (nodeAt (nodesAt a) i + j)) j) :=
    fun j hj => entryCopy_changes (by simp only [dentrySize]; omega)
  have hdst : ∀ j, j < k → Within sym.dentryName (sym.dentry + BitVec.ofNat 32 j) 1 := fun j hj =>
    (within_dentryName (by simp only [dentrySize]; omega)).mpr (by simp only [nameLen]; omega)
  have hcopy := strcpy_run hk (by omega) (fun j j' hj hj' => inodeName_get hp hroom hm hi
    (by simp only [inodeSize]; omega) (hchange j' hj')) hdst
  have hs₁ := hchange k (Nat.le_refl k)
  refine ⟨_, rfl, hs₁, hcopy, ?_⟩
  have hspells := name_spells hp hroom (hm.entry hp hroom hs₁) hi
  rw [inodeName_entry hp hroom hi hs₁] at hspells
  exact strlen_run hspells (stringAt_nulless _ _ _) (name_lt_spinLimit _ _ _)

/-- The name of file `i` is listed, if it fits. -/
theorem readdirFs_entry (hp : RamdiskPlaced sym addr size a) (hroom : RamdiskRoom a n)
    (hm : Mounted sym m a addr size n s) (hdir : node.IsDir) (hi : i < n)
    (hindex : index - 1#32 = BitVec.ofNat 32 i)
    (hname : NameFits fun j => s.mem.ram (nodeAt (nodesAt a) i + j)) :
    Returns (readdirFs (ramdiskOps sym) (node.addr s.ramdisk) index) s fun r s' =>
      r = sym.dentry ∧ ChangesOnly sym.dentryExtent s s' ∧
        EntryIs sym s'.mem.ram (inodeName s.mem.ram a i) (BitVec.ofNat 32 i) := by
  obtain ⟨k, hk, hle⟩ := hname.copy
  obtain ⟨z, hz, hnul⟩ := hname.nul
  have hend := name_nul hm hi
  have hshort : (inodeName s.mem.ram a i).length < nameLen :=
    Nat.lt_of_le_of_lt (stringAt_length_le hnul) hz
  have hcopied : (inodeName s.mem.ram a i).length ≤ k := stringAt_length_le hk.nul
  obtain ⟨s₁, hs₁, hchange₁, hcopy, hlen⟩ := entryCopy_run hp hroom hm hi hk hle
  have hnul : store8 _ _ sym.dentryName s₁ = _ := storeEntryNul_run hshort
  generalize hs₂ : s₁.withRam (s₁.mem.ram.write8 (sym.dentry.toNat + (inodeName s.mem.ram a i).length) 0#8) =
    s₂ at hnul
  have hchange₂ : ChangesOnly sym.dentryExtent s s₂ := by
    subst hs₂
    refine ⟨hchange₁.ramdisk, hchange₁.strayed, fun x hx => ?_⟩
    rw [← hchange₁.ram x hx]
    refine Bytes.write8_other ?_
    simp only [RamdiskSymbols.dentryExtent, Extent.mem_ofLen, dentrySize, nameLen] at hx hshort
    omega
  have hino : load32 (s.ramdisk.node (BitVec.ofNat 32 i) + BitVec.ofNat 32 inodeIno) none s₂ =
      .ok (BitVec.ofNat 32 i, s₂) := by
    have hfile : Node.Valid n (.file i) := hi
    have hfield := field_run hp hroom (hm.entry hp hroom hchange₂) hfile
      (f := (inodeIno, BitVec.ofNat 32 i)) (by simp [Node.fields, nodeFields, fileFields])
    rwa [Node.addr, hchange₂.ramdisk] at hfield
  have hram : s₂.withRam (s₂.mem.ram.write32 (sym.dentry.toNat + dentryIno) (BitVec.ofNat 32 i)) =
      s.withRam (entryRam sym s.mem.ram (fun j => s.mem.ram (nodeAt (nodesAt a) i + j)) k
        (inodeName s.mem.ram a i).length (BitVec.ofNat 32 i)) := by
    rw [← hs₂, hs₁]
    rfl
  have hrun : readdirFs (ramdiskOps sym) (node.addr s.ramdisk) index s = .ok (sym.dentry,
      s.withRam (entryRam sym s.mem.ram (fun j => s.mem.ram (nodeAt (nodesAt a) i + j)) k
        (inodeName s.mem.ram a i).length (BitVec.ofNat 32 i))) := by
    rw [readdirFs_select hp hroom hm hdir hi hindex, bind_run hcopy, bind_run hlen, bind_run hnul,
      bind_run hino, ← hram]
    exact bind_run storeEntryIno_run
  exact .of_eq hrun ⟨rfl, ⟨rfl, rfl, fun x hx => entryRam_other hle hshort hx⟩,
    entryRam_is hshort fun j hj => ⟨by omega, stringAt_getD hend (by exact Nat.le_of_lt hj)⟩⟩

/-- Only a name that fits is listed without straying. -/
theorem readdirFs_clean (hp : RamdiskPlaced sym addr size a) (hroom : RamdiskRoom a n)
    (hm : Mounted sym m a addr size n s) (hdir : node.IsDir) (hi : i < n)
    (hindex : index - 1#32 = BitVec.ofNat 32 i) {r : Word}
    (hrun : readdirFs (ramdiskOps sym) (node.addr s.ramdisk) index s = .ok (r, s'))
    (hs : s'.strayed = false) : NameFits fun j => s.mem.ram (nodeAt (nodesAt a) i + j) := by
  have hfits := sym.dentry_fits
  simp only [dentrySize] at hfits
  rw [readdirFs_select hp hroom hm hdir hi hindex] at hrun
  -- The copy stopped inside the field.
  obtain ⟨_, s₁, hcopy, hs₁, hrun⟩ := clean_bind hrun hs fun _ =>
    (strlen_remembers _).bind fun _ => (Remembers.store8 _ _ _).bind fun _ =>
      (Remembers.load32 _ _).bind fun _ => (Remembers.store32 _ _ _).bind fun _ => Remembers.pure _
  obtain ⟨k, hle, hk, _⟩ := strcpy_clean (c := nameLen) (R := fun _ => True)
    (f := fun j => s.mem.ram (nodeAt (nodesAt a) i + j)) hcopy hs₁ (by simp only [nameLen]; omega)
    (fun j j' b t hj hj' _ hget _ => by
      simp only [nameLen] at hj hj'
      rw [inodeName_get hp hroom hm hi (by simp only [inodeSize]; omega)
        (entryCopy_changes (by simp only [dentrySize]; omega))] at hget
      cases hget
      exact ⟨trivial, rfl, rfl⟩)
    (mt (within_dentryName (by decide)).mp (Nat.lt_irrefl _))
  -- The NUL was put inside the field.
  obtain ⟨s₁', _, _, hcopy', hlen⟩ := entryCopy_run hp hroom hm hi hk hle
  rw [hcopy'] at hcopy
  injection hcopy with hcopy
  injection hcopy with _ hcopy
  subst hcopy
  rw [bind_run hlen] at hrun
  obtain ⟨_, s₂, hnul, hs₂, _⟩ := clean_bind hrun hs fun _ =>
    (Remembers.load32 _ _).bind fun _ => (Remembers.store32 _ _ _).bind fun _ => Remembers.pure _
  have hend := name_nul hm hi
  have hcopied : (inodeName s.mem.ram a i).length ≤ k := stringAt_length_le hk.nul
  simp only [nameLen] at hle
  have hshort := (within_dentryName (by simp only [dentrySize]; omega)).mp (store8_clean hnul hs₂).1
  refine ⟨⟨k, hk, hle⟩, (inodeName s.mem.ram a i).length, hshort, ?_⟩
  exact (stringAt_getD hend (Nat.le_refl _)).trans (getD_length _)

/-- Behind the last file there is no entry. The index of a directory other than the root is shifted
too, so it has no entry at index 0 either. -/
theorem readdirFs_end (hp : RamdiskPlaced sym addr size a) (hroom : RamdiskRoom a n)
    (hm : Mounted sym m a addr size n s) (hdir : node.IsDir) (hroot : node = .root → index ≠ 0#32)
    (hindex : n ≤ (index - 1#32).toNat) :
    readdirFs (ramdiskOps sym) (node.addr s.ramdisk) index s = .ok (0#32, s) := by
  have hnode : ¬(node.addr s.ramdisk = s.ramdisk.root ∧ index = 0#32) := by
    rintro ⟨haddr, hzero⟩
    exact hroot (hm.eq_root hp hroom hdir haddr) hzero
  have hcount : s.ramdisk.nrootNodes ≤ index - 1#32 := by
    rw [hm.nrootNodes, BitVec.le_def, BitVec.toNat_ofNat]
    exact Nat.le_trans (Nat.mod_le _ _) hindex
  rw [readdirFs_dir hp hroom hm (hdir.valid n) hdir, ramdiskReaddir, bind_run (get_apply _),
    if_neg hnode]
  rw [if_pos hcount]
  rfl

end List

end LizaOS
