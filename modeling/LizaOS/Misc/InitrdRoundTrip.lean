-- SUMMARY: Mounting an image the packer wrote gives back the files: names, lengths and contents.
import LizaOS.Drivers.RamdiskDirectory
import LizaOS.Misc.Initrd

/-!
# Reading undoes packing

The packer and the driver declare the header each for itself; the two declarations lay it out alike.
An image the packer wrote is therefore one with proper names, and the offsets it holds lead to the
contents of the files.
-/

namespace LizaOS

open Exec

section Image

variable {m : Bytes} {addr size : Word} {fs : List PackedFile} {i : Nat}

/-- The names of the files are strings of their own, with room in a header, and none is `dev`. -/
structure ProperNames (fs : List PackedFile) : Prop where
  nulless : ∀ f ∈ fs, Nulless f.name
  nonempty : ∀ f ∈ fs, f.name ≠ []
  short : ∀ f ∈ fs, f.name.length ≤ 63
  not_dev : ∀ f ∈ fs, f.name ≠ cstr "dev"
  distinct : (fs.map PackedFile.name).Nodup

theorem HoldsImage.header_at (h : HoldsImage m addr.toNat fs) (hi : i < fs.length) :
    HeaderHolds m (headerAt addr.toNat i)
      (BitVec.ofNat 32 (packSize * packHeaders + 4 + contentsLen (fs.take i)))
      fs[i].name (BitVec.ofNat 32 fs[i].contents.length) := h.header i hi

theorem HoldsImage.fileCount (h : HoldsImage m addr.toNat fs) (hn : fs.length ≤ packHeaders) :
    fileCount m addr = fs.length := by
  simp only [packHeaders] at hn
  rw [LizaOS.fileCount, h.count, BitVec.toNat_ofNat]
  omega

theorem HoldsImage.name (h : HoldsImage m addr.toNat fs) (hnames : ProperNames fs) (hi : i < fs.length) :
    imageName m addr i = fs[i].name := by
  have hheader := h.header_at hi
  have hmem : fs[i] ∈ fs := List.getElem_mem hi
  have hshort := hnames.short _ hmem
  refine stringAt_eq (hnames.nulless _ hmem) (by simp only [nameLen]; omega)
    (fun j hj => hheader.name j (Nat.le_of_lt hj)) fun _ => ?_
  exact (hheader.name _ (Nat.le_refl _)).trans (getD_length _)

theorem HoldsImage.length (h : HoldsImage m addr.toNat fs) (hi : i < fs.length) :
    fileLength m addr i = BitVec.ofNat 32 fs[i].contents.length := (h.header_at hi).length

theorem HoldsImage.start (h : HoldsImage m addr.toNat fs) (hi : i < fs.length) :
    fileStart m addr i =
      BitVec.ofNat 32 (packSize * packHeaders + 4 + contentsLen (fs.take i)) + addr := by
  rw [fileStart, ← (h.header_at hi).offset]
  rfl

theorem HoldsImage.wellNamed (h : HoldsImage m addr.toNat fs) (hnames : ProperNames fs)
    (hn : fs.length ≤ packHeaders) (hsize : packSize * packHeaders + 4 ≤ size.toNat) :
    WellNamed m addr size fs.length where
  table := by
    simp only [initrdHeaderSize, fileHeaderSize, packSize, packHeaders] at *
    omega
  nonempty i hi := by
    rw [h.name hnames hi]
    exact hnames.nonempty _ (List.getElem_mem hi)
  ends i hi := by
    rw [h.name hnames hi]
    exact Nat.lt_succ_of_le (hnames.short _ (List.getElem_mem hi))
  distinct i j hi hj heq := by
    rw [h.name hnames hi, h.name hnames hj] at heq
    have hi' : i < (fs.map PackedFile.name).length := by rwa [List.length_map]
    have hj' : j < (fs.map PackedFile.name).length := by rwa [List.length_map]
    have hsame : (fs.map PackedFile.name)[i] = (fs.map PackedFile.name)[j] := by
      rwa [List.getElem_map, List.getElem_map]
    exact (List.getElem_inj hnames.distinct).mp hsame
  not_dev i hi := by
    rw [h.name hnames hi]
    exact hnames.not_dev _ (List.getElem_mem hi)

end Image

/-! ## The round trip -/

/-- What the file operations give back on a mounted image of the files. -/
structure RoundTrip (sym : RamdiskSymbols) (addr size : Word) (fs : List PackedFile) (root : Word)
    (s : Kernel Flat) : Prop where
  /-- The root lists `/dev` first. -/
  dev : Returns (readdirFs (ramdiskOps sym) root 0#32) s fun r s' =>
    r = sym.dentry ∧ EntryIs sym s'.mem.ram (cstr "dev") 0#32
  /-- It lists the files in order. -/
  entry : ∀ (i : Nat) (hi : i < fs.length),
    Returns (readdirFs (ramdiskOps sym) root (BitVec.ofNat 32 (i + 1))) s fun r s' =>
      r = sym.dentry ∧ EntryIs sym s'.mem.ram fs[i].name (BitVec.ofNat 32 i)
  /-- Nothing is listed behind them. -/
  stop : ∀ index : Word, fs.length < index.toNat →
    readdirFs (ramdiskOps sym) root index s = .ok (0#32, s)
  /-- Each is found by its name, and reads as its contents. -/
  find : ∀ (i : Nat) (hi : i < fs.length), ∃ node,
    finddirFs (ramdiskOps sym) root (.lit fs[i].name) s = .ok (node, s) ∧ node ≠ 0#32 ∧
    stringAt s.mem.ram inodeNameLen node.toNat = fs[i].name ∧
    s.mem.ram.read32 (node.toNat + inodeLength) = BitVec.ofNat 32 fs[i].contents.length ∧
    ∀ (offset count buffer : Word), offset.toNat + count.toNat < 2 ^ 32 →
      buffer.toNat + min count.toNat (fs[i].contents.length - offset.toNat) ≤ 2 ^ 32 →
      (Extent.ofLen buffer.toNat (min count.toNat (fs[i].contents.length - offset.toNat))).Apart
        (imageExtent addr size) →
      Returns (readFs (ramdiskOps sym) node offset count buffer) s fun r s' =>
        r.toNat = min count.toNat (fs[i].contents.length - offset.toNat) ∧
        s'.mem.ram.Holds buffer.toNat ((fs[i].contents.drop offset.toNat).take r.toNat) ∧
        ∀ x, x ∉ Extent.ofLen buffer.toNat r.toNat → s'.mem.ram x = s.mem.ram x

section RoundTrip

variable {sym : RamdiskSymbols} {m : Bytes} {a : Alloc} {addr size : Word} {fs : List PackedFile}
  {s : Kernel Flat} {i : Nat}

/-- A file reads as its contents. -/
theorem read_contents (hp : RamdiskPlaced sym addr size a) (hroom : RamdiskRoom a fs.length)
    (hm : Mounted sym m a addr size fs.length s) (himage : HoldsImage m addr.toNat fs)
    (hn : fs.length ≤ packHeaders) (hsize : size.toNat = packSize * packHeaders + 4 + contentsLen fs)
    (hi : i < fs.length) {offset count buffer : Word} (hsum : offset.toNat + count.toNat < 2 ^ 32)
    (hbuf : buffer.toNat + min count.toNat (fs[i].contents.length - offset.toNat) ≤ 2 ^ 32)
    (hapart : (Extent.ofLen buffer.toNat (min count.toNat (fs[i].contents.length - offset.toNat))).Apart
      (imageExtent addr size)) :
    Returns (readFs (ramdiskOps sym) ((Node.file i).addr s.ramdisk) offset count buffer) s fun r s' =>
      r.toNat = min count.toNat (fs[i].contents.length - offset.toNat) ∧
      s'.mem.ram.Holds buffer.toNat ((fs[i].contents.drop offset.toNat).take r.toNat) ∧
      ∀ x, x ∉ Extent.ofLen buffer.toNat r.toNat → s'.mem.ram x = s.mem.ram x := by
  have hfits := hp.image_fits
  have hle := contentsLen_take_le fs i hi
  have hsizelt := size.isLt
  have hlength := himage.length hi
  have hlen : (fileLength m addr i).toNat = fs[i].contents.length := by
    rw [hlength, BitVec.toNat_ofNat]
    omega
  by_cases hlt : fileLength m addr i < offset
  · rw [BitVec.lt_def, hlen] at hlt
    refine .of_eq (readFs_past hp hroom hm hi (BitVec.lt_def.mpr (hlen ▸ hlt))) ⟨?_, ?_, fun _ _ => rfl⟩
    · rw [Nat.sub_eq_zero_of_le (Nat.le_of_lt hlt), Nat.min_zero]
      rfl
    · exact fun k hk => absurd hk (by simp)
  · have hoffset := Nat.le_of_not_lt (mt BitVec.lt_def.mpr hlt)
    have hread := readLen_toNat hoffset hsum
    rw [hlen] at hoffset hread
    -- The bytes read are those of the contents, which lie behind the table.
    have hstart : readLen (fileLength m addr i) offset count ≠ 0#32 →
        (fileStart m addr i + offset).toNat =
          addr.toNat + (packSize * packHeaders + 4 + contentsLen (fs.take i)) + offset.toNat := by
      intro hne
      have hpos := ne_zero_iff_toNat.mp hne
      rw [hread] at hpos
      simp only [himage.start hi, BitVec.toNat_add, BitVec.toNat_ofNat]
      omega
    have hin : readLen (fileLength m addr i) offset count = 0#32 ∨ ReadInside m addr size i offset count := by
      by_cases hz : readLen (fileLength m addr i) offset count = 0#32
      · exact .inl hz
      · refine .inr ?_
        simp only [ReadInside, Extent.Within, Extent.ofLen, imageExtent, hstart hz, hread]
        omega
    refine (readFs_run hp hroom hm hi hlt hin (by rwa [hread]) (by rwa [hread])).mono ?_
    rintro r s' ⟨rfl, hchange, hbytes⟩
    refine ⟨hread, fun k hk => ?_, hchange.ram⟩
    rw [List.length_take, List.length_drop] at hk
    have hk' : k < (readLen (fileLength m addr i) offset count).toNat := by omega
    have hne : readLen (fileLength m addr i) offset count ≠ 0#32 := by
      intro hz
      rw [hz] at hk'
      exact absurd hk' (Nat.not_lt_zero k)
    have hcontent := himage.contents i hi (offset.toNat + k) (by omega)
    rw [hbytes k hk', hstart hne, List.getElem_take, List.getElem_drop, ← hcontent, relocate_other]
    · congr 1
      omega
    · intro j hj
      simp only [headerAt, headerOffset, headerLength, initrdHeaderSize, fileHeaderSize, packSize,
        packHeaders] at hn ⊢
      omega

/-- A mounted image of the files gives them back. -/
theorem mounted_roundTrip (hp : RamdiskPlaced sym addr size a) (hroom : RamdiskRoom a fs.length)
    (hm : Mounted sym m a addr size fs.length s) (himage : HoldsImage m addr.toNat fs)
    (hnames : ProperNames fs) (hn : fs.length ≤ packHeaders)
    (hsize : size.toNat = packSize * packHeaders + 4 + contentsLen fs) (hz : HeapZero m a fs.length) :
    RoundTrip sym addr size fs s.ramdisk.root s := by
  have hw := himage.wellNamed hnames hn (Nat.le_trans (Nat.le_add_right _ _) (Nat.le_of_eq hsize.symm))
  have hroot : Node.IsDir .root := trivial
  have hname : ∀ (i : Nat) (hi : i < fs.length), inodeName s.mem.ram a i = fs[i].name :=
    fun i hi => (mounted_inodeName hm hw hz hi).trans (himage.name hnames hi)
  refine {
    dev := (readdirFs_dev hp hroom hm).mono fun _ _ h => ⟨h.1, h.2.2⟩
    entry := fun i hi => ?_
    stop := fun index hindex => ?_
    find := fun i hi => ?_ }
  · have hindex : BitVec.ofNat 32 (i + 1) - 1#32 = BitVec.ofNat 32 i := by
      rw [← index_succ, BitVec.add_sub_cancel]
    have hentry := readdirFs_entry hp hroom hm hroot hi hindex (mounted_nameFits hm hw hz hi)
    rw [hname i hi] at hentry
    exact hentry.mono fun _ _ h => ⟨h.1, h.2.2⟩
  · have hpos : index ≠ 0#32 := fun hzero => absurd hindex (by rw [hzero]; exact Nat.not_lt_zero _)
    have hlast : fs.length ≤ (index - 1#32).toNat := by
      rw [BitVec.toNat_sub, BitVec.toNat_ofNat]
      have hlt := index.isLt
      omega
    have hend : readdirFs (ramdiskOps sym) (Node.root.addr s.ramdisk) index s = .ok (0#32, s) :=
      readdirFs_end hp hroom hm hroot (fun _ => hpos) hlast
    exact hend
  · have hspells : (Src.lit fs[i].name).Spells s.mem fs[i].name := rfl
    obtain ⟨r, hfind, hr⟩ := finddirFs_run hp hroom hm hspells
      (hnames.nulless _ (List.getElem_mem hi)) hroot
    rw [if_neg (fun h => hnames.not_dev _ (List.getElem_mem hi) h.2)] at hr
    have hfile : Node.Valid fs.length (.file i) := hi
    have hnode : r = (Node.file i).addr s.ramdisk := by
      rcases hr with ⟨j, hj, heq, _, rfl⟩ | ⟨hnone, _⟩
      · have hsame := hw.distinct j i hj hi (by rw [himage.name hnames hj, himage.name hnames hi,
          ← hname j hj, heq])
        rw [hsame]
        rfl
      · exact absurd (hname i hi) (hnone i hi)
    have hlength := mounted_fields hm hfile (inodeLength, fileLength m addr i)
      (by simp [Node.fields, nodeFields, fileFields, fileLength])
    refine ⟨r, hfind, ?_, ?_, ?_, fun offset count buffer hsum hbuf hapart => ?_⟩
    · rw [hnode]
      exact addr_ne hp hroom hm hfile (by simp)
    · rw [hnode, node_addr hp hroom hm hfile]
      exact hname i hi
    · rw [hnode, node_addr hp hroom hm hfile, ← himage.length hi]
      exact hlength
    · rw [hnode]
      exact read_contents hp hroom hm himage hn hsize hi hsum hbuf hapart

end RoundTrip

/-- Packing files and mounting the image gives back the files, whatever the packer's table held before
and wherever the image is put. -/
theorem initrd_roundTrip {files : List Byte → Option (List Byte)} {fs : List PackedFile}
    (hn : fs.length ≤ 64) (hnames : ProperNames fs) (hfound : ∀ f ∈ fs, files f.path = some f.contents)
    (htotal : packSize * packHeaders + 4 + contentsLen fs < 2 ^ 32) (prog : List Byte) (junk : Bytes) :
    ∃ image, initrdMain (prog :: fs.flatMap fun f => [f.path, f.name]) files junk = some image ∧
      image.length = packSize * packHeaders + 4 + contentsLen fs ∧
      ∀ (sym : RamdiskSymbols) (s : Kernel Flat) (addr : Word), s.mem.ram.Holds addr.toNat image →
        RamdiskPlaced sym addr (BitVec.ofNat 32 image.length) s.alloc →
        RamdiskRoom s.alloc fs.length → (∀ x, x ∈ freeHeap s.alloc → s.mem.ram x = 0#8) →
        Returns (ramdiskInit sym addr (BitVec.ofNat 32 image.length)) s fun root s' =>
          RoundTrip sym addr (BitVec.ofNat 32 image.length) fs root s' := by
  have hpackable : Packable files fs :=
    ⟨hfound, fun f hf => Nat.lt_succ_of_le (hnames.short f hf)⟩
  obtain ⟨image, hrun, hlen, hholds⟩ := initrdMain_run hpackable hn htotal prog junk
  refine ⟨image, hrun, hlen, fun sym s addr hm hp hroom hzero => ?_⟩
  have himage : HoldsImage s.mem.ram addr.toNat fs := hholds _ _ hm
  have hcount := himage.fileCount hn
  have hsize : (BitVec.ofNat 32 image.length : Word).toNat = packSize * packHeaders + 4 + contentsLen fs := by
    rw [BitVec.toNat_ofNat, hlen, Nat.mod_eq_of_lt htotal]
  have hw : WellNamed s.mem.ram addr (BitVec.ofNat 32 image.length) fs.length :=
    himage.wellNamed hnames hn (by omega)
  rw [← hcount] at hroom hw
  refine (ramdiskInit_run hp hroom hw.fits).mono fun root s' h => ?_
  obtain ⟨hroot, _, hm'⟩ := h
  rw [hcount] at hm' hroom
  rw [hroot, ← hm'.root]
  exact mounted_roundTrip hp hroom hm' himage hnames hn hsize fun x hx =>
    hzero x (inodeByte_heap hroom hx)

/-- Two files, which the host has as `f` and `g` and which are to be `ab` and `c`. The second is the shorter one. -/
def tinyFiles : List PackedFile := [⟨cstr "f", cstr "ab", cstr "hello"⟩, ⟨cstr "g", cstr "c", cstr "xy"⟩]

def tinyHost : List Byte → Option (List Byte) := fun path =>
  if path = cstr "f" then some (cstr "hello") else if path = cstr "g" then some (cstr "xy") else none

/-- The kernel with bytes at `0x1000` and an early heap of zeros. -/
def tinyLoaded (image : List Byte) : Kernel Flat :=
  { Kernel.reset { Flat.zero with ram := fun x =>
      if 0x1000 ≤ x ∧ x < 0x1000 + image.length then image.getD (x - 0x1000) 0#8 else 0#8 } with
    alloc := .earlyInit 0x10000#32 0x20000#32 }

section Tiny

variable {image : List Byte}

theorem tinyLoaded_holds (image : List Byte) : (tinyLoaded image).mem.ram.Holds 0x1000 image := by
  intro k hk
  show (if 0x1000 ≤ 0x1000 + k ∧ 0x1000 + k < 0x1000 + image.length then
    image.getD (0x1000 + k - 0x1000) 0#8 else 0#8) = image[k]
  rw [if_pos (by omega), Nat.add_sub_cancel_left, List.getD_eq_getElem?_getD, List.getElem?_eq_getElem hk]
  rfl

theorem tinyLoaded_placed (hlen : image.length = 4875) :
    RamdiskPlaced tinySymbols 0x1000#32 (BitVec.ofNat 32 image.length) (tinyLoaded image).alloc := by
  have halloc : (tinyLoaded image).alloc = .earlyInit 0x10000#32 0x20000#32 := rfl
  rw [hlen, halloc]
  exact ⟨by decide, by decide, by decide, Extent.Disjoint.apart (by decide), Extent.Disjoint.apart (by decide),
    Extent.Disjoint.apart (by decide)⟩

theorem tinyLoaded_room (image : List Byte) : RamdiskRoom (tinyLoaded image).alloc 2 := by
  have halloc : (tinyLoaded image).alloc = .earlyInit 0x10000#32 0x20000#32 := rfl
  rw [halloc]
  exact ⟨rfl, by decide, fun _ => by decide⟩

theorem tinyLoaded_zero (hlen : image.length = 4875) (x : Nat) (hx : x ∈ freeHeap (tinyLoaded image).alloc) :
    (tinyLoaded image).mem.ram x = 0#8 := by
  have hlow : 0x10000 ≤ x := hx.1
  exact if_neg (by omega)

end Tiny

theorem initrd_roundTrip_tiny :
    ∃ image, initrdMain [cstr "initrd", cstr "f", cstr "ab", cstr "g", cstr "c"] tinyHost (fun _ => 0xFF#8) = some image ∧
      Returns (ramdiskInit tinySymbols 0x1000#32 (BitVec.ofNat 32 image.length)) (tinyLoaded image)
        fun root s' => RoundTrip tinySymbols 0x1000#32 (BitVec.ofNat 32 image.length) tinyFiles root s' := by
  have hnames : ProperNames tinyFiles :=
    ⟨by decide, by decide, by decide, by decide, by decide⟩
  have hfound : ∀ f ∈ tinyFiles, tinyHost f.path = some f.contents := by decide
  obtain ⟨image, hrun, hlen, hmount⟩ := initrd_roundTrip (by decide) hnames hfound (by decide)
    (cstr "initrd") fun _ => 0xFF#8
  have hlen' : image.length = 4875 := hlen
  exact ⟨image, hrun, hmount tinySymbols (tinyLoaded image) 0x1000#32 (tinyLoaded_holds image)
    (tinyLoaded_placed hlen') (tinyLoaded_room image) (tinyLoaded_zero hlen')⟩

end LizaOS
