-- SUMMARY: From the host's files to the screen: packing, mounting and listing shows the files that were packed.
import LizaOS.Kernel.Listing
import LizaOS.Misc.InitrdRoundTrip
import Mathlib.Data.List.Basic
import Mathlib.Data.List.Nodup

/-!
# Listing what was packed

The packer lays the files out one behind the other, under names of their own. The image it writes is
therefore one the loop can list, and what is shown is a function of the files it was given.
-/

namespace LizaOS

open Exec

/-! ## The files of the image -/

/-- The packed files as the driver has them, in an image at `addr`. -/
def imageFiles (addr : Word) (fs : List PackedFile) : List ListedFile :=
  fs.mapIdx fun i f =>
    ⟨f.name, BitVec.ofNat 32 (packSize * packHeaders + 4 + contentsLen (fs.take i)) + addr, f.contents⟩

/-- The directory and then every file under its name: the byte `read` prints, and the contents with nothing behind
them. -/
def packedText (addr : Word) (fs : List PackedFile) : List Byte :=
  cstr "Found file " ++ cstr "dev" ++ [newline] ++ (cstr "(directory)" ++ [newline]) ++
    (imageFiles addr fs).flatMap fun f =>
      cstr "Found file " ++ f.name ++ [newline] ++ (charText f.start ++ (cstr "content: " ++ f.contents ++ [newline]))

/-- The contents of the files are strings of their own, with room in the buffer. -/
structure ProperContents (fs : List PackedFile) : Prop where
  nulless : ∀ f ∈ fs, Nulless f.contents
  nonempty : ∀ f ∈ fs, f.contents ≠ []
  short : ∀ f ∈ fs, f.contents.length < bufLen

section Files

variable {m : Bytes} {addr size : Word} {fs : List PackedFile} {names : Nat → List Byte} {i : Nat}

theorem imageFiles_get (addr : Word) (hi : i < fs.length) : (imageFiles addr fs)[i]? =
    some ⟨fs[i].name, BitVec.ofNat 32 (packSize * packHeaders + 4 + contentsLen (fs.take i)) + addr,
      fs[i].contents⟩ := by
  rw [imageFiles, List.getElem?_mapIdx, List.getElem?_eq_getElem hi]
  rfl

theorem mem_imageFiles {f : ListedFile} (h : f ∈ imageFiles addr fs) :
    ∃ p ∈ fs, f.name = p.name ∧ f.contents = p.contents := by
  obtain ⟨i, hi, rfl⟩ := List.mem_mapIdx.mp h
  exact ⟨fs[i], List.getElem_mem hi, rfl, rfl⟩

theorem imageFiles_names (addr : Word) (fs : List PackedFile) :
    (imageFiles addr fs).map ListedFile.name = fs.map PackedFile.name := by
  refine List.ext_getElem? fun i => ?_
  rw [imageFiles, List.getElem?_map, List.getElem?_map, List.getElem?_mapIdx, Option.map_map]
  rfl

theorem imageFiles_lengths (addr : Word) (fs : List PackedFile) :
    ((imageFiles addr fs).map fun f => f.contents.length) = fs.map fun f => f.contents.length := by
  refine List.ext_getElem? fun i => ?_
  rw [imageFiles, List.getElem?_map, List.getElem?_map, List.getElem?_mapIdx, Option.map_map]
  rfl

theorem HoldsImage.length_toNat (h : HoldsImage m addr.toNat fs) (hi : i < fs.length)
    (hshort : fs[i].contents.length < bufLen) : (fileLength m addr i).toNat = fs[i].contents.length := by
  simp only [bufLen] at hshort
  rw [h.length hi, BitVec.toNat_ofNat]
  omega

section Loaded

variable (h : HoldsImage m addr.toNat fs) (hc : ProperContents fs) (hn : fs.length ≤ packHeaders)
  (hsize : size.toNat = packSize * packHeaders + 4 + contentsLen fs) (hfits : addr.toNat + size.toNat ≤ 2 ^ 32)

include h hc hsize hfits

theorem HoldsImage.start_toNat (hi : i < fs.length) :
    (fileStart m addr i).toNat = addr.toNat + (packSize * packHeaders + 4 + contentsLen (fs.take i)) := by
  have hle := contentsLen_take_le fs i hi
  have hpos := List.length_pos_iff.mpr (hc.nonempty _ (List.getElem_mem hi))
  rw [h.start hi, BitVec.toNat_add, BitVec.toNat_ofNat]
  omega

include hn

theorem HoldsImage.fileBytes (hi : i < fs.length) : fileBytes m addr fs.length i = fs[i].contents := by
  have hlength := h.length_toNat hi (hc.short _ (List.getElem_mem hi))
  have hstart := h.start_toNat hc hsize hfits hi
  refine List.ext_getElem (by rw [fileBytes_length, hlength]) fun k hk hk' => ?_
  have hget : (LizaOS.fileBytes m addr fs.length i).getD k 0#8 =
      relocate m addr fs.length ((fileStart m addr i).toNat + k) := fileBytes_getD (by omega)
  rw [List.getD_eq_getElem?_getD, List.getElem?_eq_getElem hk, Option.getD_some, hstart] at hget
  have hother : relocate m addr fs.length
      (addr.toNat + (packSize * packHeaders + 4 + contentsLen (fs.take i)) + k) =
        m (addr.toNat + (packSize * packHeaders + 4 + contentsLen (fs.take i)) + k) := by
    refine relocate_other fun j hj => .inr ?_
    simp only [headerAt, headerLength, initrdHeaderSize, fileHeaderSize, packSize, packHeaders] at hn ⊢
    omega
  exact hget.trans (hother.trans (h.contents i hi k hk'))

theorem HoldsImage.properFile (hi : i < fs.length) : ProperFile m addr size fs.length i := by
  have hmem : fs[i] ∈ fs := List.getElem_mem hi
  have hlength := h.length_toNat hi (hc.short _ hmem)
  have hstart := h.start_toNat hc hsize hfits hi
  have hle := contentsLen_take_le fs i hi
  refine ⟨ne_zero_iff_toNat.mpr ?_, ?_, ?_⟩
  · have hpos := List.length_pos_iff.mpr (hc.nonempty _ hmem)
    omega
  · simp only [Extent.Within, Extent.ofLen, imageExtent]
    omega
  · rw [h.fileBytes hc hn hsize hfits hi]
    exact hc.nulless _ hmem

/-- The files of the image are those that were packed. -/
theorem HoldsImage.mountedFiles (hnames : ∀ i (hi : i < fs.length), names i = fs[i].name) :
    mountedFiles m addr fs.length names = imageFiles addr fs := by
  refine List.ext_getElem? fun i => ?_
  rcases Nat.lt_or_ge i fs.length with hi | hi
  · rw [mountedFiles_get m addr names hi, imageFiles_get addr hi, hnames i hi, h.start hi,
      h.fileBytes hc hn hsize hfits hi]
  · rw [List.getElem?_eq_none (by simp [LizaOS.mountedFiles, hi]), List.getElem?_eq_none (by simp [imageFiles, hi])]

end Loaded

end Files

/-! ## The text -/

section Text

variable {addr : Word} {fs : List PackedFile} {f : ListedFile}

/-- As the names differ, each file is opened itself. -/
theorem openedFile_packed (hnames : ProperNames fs) (hf : f ∈ imageFiles addr fs) :
    openedFile (imageFiles addr fs) f = f := by
  have hdistinct : ((imageFiles addr fs).map ListedFile.name).Nodup := by
    rw [imageFiles_names]
    exact hnames.distinct
  refine List.inj_on_of_nodup_map hdistinct (openedFile_mem hf) hf ?_
  rw [openedFile]
  cases hfind : (imageFiles addr fs).find? fun g => g.name = f.name with
  | none => rfl
  | some g =>
      have hname := List.find?_some hfind
      exact of_decide_eq_true hname

theorem packed_not_dev (hnames : ProperNames fs) (hf : f ∈ imageFiles addr fs) : f.name ≠ cstr "dev" := by
  obtain ⟨p, hp, hname, _⟩ := mem_imageFiles hf
  rw [hname]
  exact hnames.not_dev p hp

theorem packed_nulless (hc : ProperContents fs) (hf : f ∈ imageFiles addr fs) : Nulless f.contents := by
  obtain ⟨p, hp, _, hcontents⟩ := mem_imageFiles hf
  rw [hcontents]
  exact hc.nulless p hp

theorem plainListing_packed (hnames : ProperNames fs) (hc : ProperContents fs) :
    plainListing (imageFiles addr fs) = packedText addr fs := by
  have hdev : devFile.name = cstr "dev" := rfl
  rw [plainListing, plainText, List.flatMap_cons, turnText, if_pos hdev, hdev, packedText]
  congr 1
  refine List.flatMap_congr fun f hf => ?_
  rw [turnText, if_neg (packed_not_dev hnames hf), openedFile_packed hnames hf, beforeNul_self (packed_nulless hc hf)]

theorem openedLengths_packed (hnames : ProperNames fs) :
    openedLengths (imageFiles addr fs) (imageFiles addr fs) = fs.map fun f => f.contents.length := by
  rw [openedLengths, List.filter_eq_self.mpr fun f hf => decide_eq_true (packed_not_dev hnames hf),
    ← imageFiles_lengths addr fs]
  exact List.map_congr_left fun f hf => by rw [openedFile_packed hnames hf]

end Text

/-! ## From the host to the screen -/

/-- Packing files, mounting the image wherever it is put and listing it with a buffer of NULs shows the
directory and every file as the host has it, if and only if the files come in the order of their lengths. -/
theorem packed_shows {files : List Byte → Option (List Byte)} {fs : List PackedFile}
    (hn : fs.length ≤ 64) (hnames : ProperNames fs) (hc : ProperContents fs)
    (hfound : ∀ f ∈ fs, files f.path = some f.contents)
    (htotal : packSize * packHeaders + 4 + contentsLen fs < 2 ^ 32) (prog : List Byte) (junk : Bytes) :
    ∃ image, initrdMain (prog :: fs.flatMap fun f => [f.path, f.name]) files junk = some image ∧
      image.length = packSize * packHeaders + 4 + contentsLen fs ∧
      ∀ (sym : RamdiskSymbols) (s : Kernel Flat) (addr buf : Word), s.mem.ram.Holds addr.toNat image →
        RamdiskPlaced sym addr (BitVec.ofNat 32 image.length) s.alloc →
        RamdiskRoom s.alloc fs.length → (∀ x, x ∈ freeHeap s.alloc → s.mem.ram x = 0#8) →
        StackBuffer sym addr (BitVec.ofNat 32 image.length) s.alloc fs.length buf →
        Returns (ramdiskInit sym addr (BitVec.ofNat 32 image.length)) s fun root s₁ =>
          ∀ (s₂ : Kernel Flat) (fuel : Nat), ChangesOnly (bufExtent buf) s₁ s₂ →
            (∀ k, k < bufLen → s₂.mem.ram (buf.toNat + k) = 0#8) → fs.length + 2 ≤ fuel →
            Returns (kmainList (ramdiskOps sym) root buf fuel 0#32) s₂ (fun _ s' =>
                Shown (listingText (imageFiles addr fs) (List.replicate bufLen 0#8)) s₂ s') ∧
              (listingText (imageFiles addr fs) (List.replicate bufLen 0#8) = packedText addr fs ↔
                (fs.map fun f => f.contents.length).IsChain (· ≤ ·)) := by
  have hpackable : Packable files fs :=
    ⟨hfound, fun f hf => Nat.lt_succ_of_le (hnames.short f hf)⟩
  obtain ⟨image, hrun, hlen, hholds⟩ := initrdMain_run hpackable hn htotal prog junk
  refine ⟨image, hrun, hlen, fun sym s addr buf hm hp hroom hzero hbuf => ?_⟩
  have himage : HoldsImage s.mem.ram addr.toNat fs := hholds _ _ hm
  have hcount := himage.fileCount hn
  have hsize : (BitVec.ofNat 32 image.length : Word).toNat = packSize * packHeaders + 4 + contentsLen fs := by
    rw [BitVec.toNat_ofNat, hlen, Nat.mod_eq_of_lt htotal]
  have hfits := hp.image_fits
  have hw : WellNamed s.mem.ram addr (BitVec.ofNat 32 image.length) fs.length :=
    himage.wellNamed hnames hn (by omega)
  have hz : HeapZero s.mem.ram s.alloc fs.length := fun x hx => hzero x (inodeByte_heap hroom hx)
  have hready := hroom
  have hwell := hw
  rw [← hcount] at hready hwell
  refine (ramdiskInit_run hp hready hwell.fits).mono fun root s₁ h s₂ fuel hleft hnul hfuel => ?_
  obtain ⟨hroot, _, hm₁⟩ := h
  rw [hcount] at hm₁
  have hname : ∀ (i : Nat) (hi : i < fs.length), inodeName s₁.mem.ram s.alloc i = fs[i].name := fun i hi =>
    (mounted_inodeName hm₁ hw hz hi).trans (himage.name hnames hi)
  have hshows := kmainList_text hp hroom hm₁ (fun i hi => mounted_nameFits hm₁ hw hz hi)
    (fun i hi => himage.properFile hc hn hsize hfits hi)
    (fun i hi => by
      have hshort := hc.short _ (List.getElem_mem hi)
      rwa [himage.length_toNat hi hshort])
    hbuf hleft (hnul 255 (by decide)) hfuel
  rw [himage.mountedFiles hc hn hsize hfits hname, bufferBytes_zero hnul] at hshows
  refine ⟨?_, ?_⟩
  · rw [hroot]
    exact hshows
  · rw [← plainListing_packed hnames hc, listingText_plain_iff bufLen fun f hf => packed_nulless hc hf,
      openedLengths_packed hnames]

/-- The two files of the host are shown, the second one with the tail of the first. -/
theorem packed_shows_tiny :
    ∃ image, initrdMain [cstr "initrd", cstr "f", cstr "ab", cstr "g", cstr "c"] tinyHost (fun _ => 0xFF#8) =
        some image ∧
      Returns (ramdiskInit tinySymbols 0x1000#32 (BitVec.ofNat 32 image.length)) (tinyLoaded image)
        fun root s₁ => ∃ s₂, ChangesOnly (bufExtent 0x8000#32) s₁ s₂ ∧
          Returns (kmainList (ramdiskOps tinySymbols) root 0x8000#32 4 0#32) s₂ (fun _ s' =>
            Shown (cstr "Found file dev\n(directory)\nFound file ab\n\x04content: hello\n" ++
              cstr "Found file c\n\tcontent: xyllo\n") s₂ s') ∧
          listingText (imageFiles 0x1000#32 tinyFiles) (List.replicate bufLen 0#8) ≠ packedText 0x1000#32 tinyFiles := by
  have hnames : ProperNames tinyFiles := ⟨by decide, by decide, by decide, by decide, by decide⟩
  have hc : ProperContents tinyFiles := ⟨by decide, by decide, by decide⟩
  have hfound : ∀ f ∈ tinyFiles, tinyHost f.path = some f.contents := by decide
  obtain ⟨image, hrun, hlen, hlists⟩ := packed_shows (by decide) hnames hc hfound (by decide)
    (cstr "initrd") fun _ => 0xFF#8
  have hlen' : image.length = 4875 := hlen
  have hbuf : StackBuffer tinySymbols 0x1000#32 (BitVec.ofNat 32 image.length) (tinyLoaded image).alloc 2
      0x8000#32 := by
    have halloc : (tinyLoaded image).alloc = .earlyInit 0x10000#32 0x20000#32 := rfl
    have hroom := tinyLoaded_room image
    rw [halloc] at hroom
    rw [hlen', halloc]
    refine ⟨by decide, by decide, Extent.Disjoint.apart (by decide), Extent.Disjoint.apart (by decide), ?_⟩
    intro x hx
    have happart : (freeHeap (.earlyInit 0x10000#32 0x20000#32)).Disjoint (bufExtent 0x8000#32) := by decide
    exact happart.not_mem (inodeByte_heap hroom hx)
  refine ⟨image, hrun, (hlists tinySymbols (tinyLoaded image) 0x1000#32 0x8000#32 (tinyLoaded_holds image)
    (tinyLoaded_placed hlen') (tinyLoaded_room image) (tinyLoaded_zero hlen') hbuf).mono fun root s₁ h => ?_⟩
  have hleft := tiny_zeroed s₁
  obtain ⟨hshows, hplain⟩ := h _ 4 hleft (fun k hk => tiny_zeroed_nul s₁ hk) (by decide)
  have htext : listingText (imageFiles 0x1000#32 tinyFiles) (List.replicate bufLen 0#8) =
      cstr "Found file dev\n(directory)\nFound file ab\n\x04content: hello\n" ++
        cstr "Found file c\n\tcontent: xyllo\n" := by decide +kernel
  have hlengths : ¬(tinyFiles.map fun f => f.contents.length).IsChain (· ≤ ·) := by decide
  rw [htext] at hshows
  exact ⟨_, hleft, hshows, fun heq => hlengths (hplain.mp heq)⟩

end LizaOS
