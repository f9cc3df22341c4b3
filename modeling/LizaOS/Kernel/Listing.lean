-- SUMMARY: The listing loop puts the text of the listing on the screen, for any image it mounts.
import LizaOS.Kernel.ListingText

/-!
# What the listing shows

A turn prints the name of the entry, opens it under this name and prints the buffer it is read to; `read`
prints a byte of its own in between. The turns are put together by what each leaves in the buffer.
-/

namespace LizaOS

open Exec

/-! ## Turns -/

section Turns

variable {sym : RamdiskSymbols} {m : Bytes} {a : Alloc} {addr size buf w ino : Word} {n j k : Nat} {s : Kernel Flat}

/-- The string in the buffer can be printed if there is a NUL in its last byte. -/
theorem buffer_scan (hfits : buf.toNat + bufLen ≤ 2 ^ 32) (hlast : s.mem.ram (buf.toNat + 255) = 0#8) :
    stringBytes (Bus.load8 s.mem) (2 ^ 32) buf = .ok (beforeNul (bufferBytes s.mem.ram buf)) := by
  rw [bufferBytes, ← stringAt_bytes]
  have hlen := stringAt_length_le (k := bufLen) hlast
  refine stringBytes_ok.mpr ⟨Nat.lt_of_le_of_lt hlen (by decide), stringAt_nulless _ _ _, fun i hi => ?_⟩
  have hload : Bus.load8 s.mem (buf + BitVec.ofNat 32 i) = .ok (s.mem.ram (buf.toNat + i)) :=
    congrArg Except.ok (Flat.bytesAt_eq (by simp only [bufLen] at hfits; omega))
  rw [hload]
  rcases Nat.lt_or_eq_of_le hi with hlt | rfl
  · rw [stringAt_byte hlt]
  · rw [stringAt_end (Nat.lt_of_le_of_lt hlen (by decide)), getD_length]

section Mounted

variable (hp : RamdiskPlaced sym addr size a) (hroom : RamdiskRoom a n) (hm : Mounted sym m a addr size n s)

include hp hroom hm

/-- The turn of an entry with the name of the directory. -/
theorem kmainTurn_directory (buf : Word)
    (hlist : Returns (readdirFs (ramdiskOps sym) (Node.root.addr s.ramdisk) w) s fun r s' =>
      r = sym.dentry ∧ ChangesOnly sym.dentryExtent s s' ∧ EntryIs sym s'.mem.ram (cstr "dev") ino) :
    Returns (kmainTurn (ramdiskOps sym) (Node.root.addr s.ramdisk) w buf) s fun more s' =>
      more = true ∧ ChangesOnly sym.dentryExtent s s' ∧
        Shown (cstr "Found file " ++ cstr "dev" ++ [newline] ++ (cstr "(directory)" ++ [newline])) s s' := by
  obtain ⟨turn, s₁, hrun, rfl, hchange, hshown⟩ := kmainEntry_directory hp hroom hm buf hlist
  refine .of_eq (a := true) ?_ ⟨rfl, hchange, hshown⟩
  rw [kmainTurn, bind_run hrun]
  rfl

/-- The turn of a file that is shorter than the buffer. -/
theorem kmainTurn_file (hk : k < n) (hw : w - 1#32 = BitVec.ofNat 32 k)
    (hfits : NameFits fun i => s.mem.ram (nodeAt (nodesAt a) k + i))
    (hdev : inodeName s.mem.ram a k ≠ cstr "dev") (hfound : FoundFor (inodeName s.mem.ram a) k j)
    (hproper : ProperFile m addr size n j) (hbuf : StackBuffer sym addr size a n buf)
    (hshort : (fileLength m addr j).toNat < bufLen) (hlast : s.mem.ram (buf.toNat + 255) = 0#8) :
    Returns (kmainTurn (ramdiskOps sym) (Node.root.addr s.ramdisk) w buf) s fun more s' =>
      more = true ∧ Mounted sym m a addr size n s' ∧ s'.mem.ram (buf.toNat + 255) = 0#8 ∧
        bufferBytes s'.mem.ram buf = overlay (fileBytes m addr n j) (bufferBytes s.mem.ram buf) ∧
        Shown (cstr "Found file " ++ inodeName s.mem.ram a k ++ [newline] ++
          (charText (fileStart m addr j) ++
            (cstr "content: " ++ beforeNul (bufferBytes s'.mem.ram buf) ++ [newline]))) s s' := by
  have hlength := fileBytes_length m addr n j
  have hmin : min bufLen (fileLength m addr j).toNat = (fileBytes m addr n j).length := by omega
  obtain ⟨turn, s₁, hrun, rfl, hm₁, hshown, hbytes, hleft⟩ :=
    kmainEntry_file (w := w) hp hroom hm hk hw hfits hdev hfound hproper hbuf
  -- the line with the contents
  have hlast₁ : s₁.mem.ram (buf.toNat + 255) = 0#8 :=
    (hleft 255 (by simp only [bufLen] at hshort ⊢; omega) (by decide)).trans hlast
  have hformat : renderAll (stringItems (cstr "content: ")) = cstr "content: %s" := by decide
  have hline := kPrintfln_string (cstr "content: ") (by decide) hbuf.ne (buffer_scan hbuf.fits hlast₁)
  rw [hformat] at hline
  obtain ⟨_, s₂, hprint, hconsole, hlined⟩ := hline
  have hram : s₂.mem.ram = s₁.mem.ram := (console_nodes hconsole).1
  refine .of_eq (a := true) ?_ ⟨rfl, hm₁.buffer hbuf hconsole.changes, by rw [hram, hlast₁], ?_, ?_⟩
  · rw [kmainTurn_content hrun]
    exact bind_run hprint
  · rw [hram]
    refine bufferBytes_overlay (by omega) (fun i hi => ?_) fun i hi hlt => ?_
    · exact hbytes i (by omega)
    · exact hleft i (by omega) hlt
  · rw [hram, ← List.append_assoc]
    exact hshown.append hlined

end Mounted

end Turns

/-! ## The loop -/

section Loop

variable {sym : RamdiskSymbols} {m : Bytes} {a : Alloc} {addr size buf : Word} {n k : Nat} {s s₀ : Kernel Flat}

section Entries

variable (hp : RamdiskPlaced sym addr size a) (hroom : RamdiskRoom a n) (hm₀ : Mounted sym m a addr size n s₀)
  (hfits : ∀ i, i < n → NameFits fun j => s₀.mem.ram (nodeAt (nodesAt a) i + j))
  (hfiles : ∀ i, i < n → ProperFile m addr size n i) (hshort : ∀ i, i < n → (fileLength m addr i).toNat < bufLen)
  (hbuf : StackBuffer sym addr size a n buf)

include hp hroom hm₀ hfits hfiles hshort hbuf

/-- The turn of each entry shows its text and leaves its bytes in the buffer. -/
theorem kmainTurn_entry (hm : Mounted sym m a addr size n s) (hlast : s.mem.ram (buf.toNat + 255) = 0#8)
    (hk : k < n) {f : ListedFile} {files : List ListedFile}
    (hfs : files = mountedFiles m addr n (inodeName s₀.mem.ram a)) (hf : f.name = inodeName s₀.mem.ram a k) :
    Returns (kmainTurn (ramdiskOps sym) (BitVec.ofNat 32 (rootAt a)) (BitVec.ofNat 32 (k + 1)) buf) s fun more s' =>
      more = true ∧ Mounted sym m a addr size n s' ∧ s'.mem.ram (buf.toNat + 255) = 0#8 ∧
        bufferBytes s'.mem.ram buf = bufferAfter files (bufferBytes s.mem.ram buf) f ∧
        Shown (turnText files (bufferBytes s'.mem.ram buf) f) s s' := by
  have hdir : Node.IsDir .root := trivial
  have hroot : BitVec.ofNat 32 (rootAt a) = Node.root.addr s.ramdisk := hm.root.symm
  have hw : BitVec.ofNat 32 (k + 1) - 1#32 = BitVec.ofNat 32 k := by rw [← index_succ, BitVec.add_sub_cancel]
  have hnames : ∀ i, i < n → inodeName s.mem.ram a i = inodeName s₀.mem.ram a i := fun i hi => hm₀.names hm hi
  have hfit := hm₀.nameFits hm hk (hfits k hk)
  rw [hroot]
  by_cases hdev : f.name = cstr "dev"
  · have hlist := readdirFs_entry hp hroom hm hdir hk hw hfit
    rw [hnames k hk, ← hf, hdev] at hlist
    refine (kmainTurn_directory hp hroom hm buf hlist).mono fun more s' h => ?_
    obtain ⟨hmore, hchange, hshown⟩ := h
    have hram : ∀ i, i < bufLen → s'.mem.ram (buf.toNat + i) = s.mem.ram (buf.toNat + i) := fun i hi =>
      hchange.ram _ (hbuf.dentry _ (by rw [bufExtent, Extent.mem_ofLen]; omega))
    refine ⟨hmore, hm.entry hp hroom hchange, (hram 255 (by decide)).trans hlast, ?_, ?_⟩
    · rw [bufferAfter, if_pos hdev, bufferBytes_congr hram]
    · rw [turnText, if_pos hdev, hdev]
      exact hshown
  · obtain ⟨j, hfound⟩ := exists_foundFor (inodeName s₀.mem.ram a) k
    have hj : j < n := Nat.lt_of_le_of_lt hfound.le hk
    have hopened := openedFile_mounted m addr hk hf hfound
    rw [← hfs] at hopened
    have hfound' : FoundFor (inodeName s.mem.ram a) k j := by
      refine ⟨hfound.le, ?_, fun i hi => ?_⟩
      · rw [hnames j hj, hnames k hk]
        exact hfound.same
      · rw [hnames i (Nat.lt_trans hi hj), hnames k hk]
        exact hfound.first i hi
    have hdev' : inodeName s.mem.ram a k ≠ cstr "dev" := by rwa [hnames k hk, ← hf]
    refine (kmainTurn_file hp hroom hm hk hw hfit hdev' hfound' (hfiles j hj) hbuf (hshort j hj) hlast).mono
      fun more s' h => ?_
    obtain ⟨hmore, hm', hlast', hbytes, hshown⟩ := h
    refine ⟨hmore, hm', hlast', ?_, ?_⟩
    · rw [hbytes, bufferAfter, if_neg hdev, hopened]
    · rw [turnText, if_neg hdev, hopened, hf, ← hnames k hk]
      exact hshown

/-- The rest of the loop shows the rest of the entries. The induction is on their number. -/
theorem kmainList_entries {files : List ListedFile} (hfs : files = mountedFiles m addr n (inodeName s₀.mem.ram a))
    (r : Nat) (hr : k + r = n) {fuel : Nat} (hfuel : r < fuel) (hm : Mounted sym m a addr size n s)
    (hlast : s.mem.ram (buf.toNat + 255) = 0#8) :
    Returns (kmainList (ramdiskOps sym) (BitVec.ofNat 32 (rootAt a)) buf fuel (BitVec.ofNat 32 (k + 1))) s fun _ s' =>
      Mounted sym m a addr size n s' ∧ Shown (entriesText files (bufferBytes s.mem.ram buf) (files.drop k)) s s' := by
  have hlength : files.length = n := by simp [hfs, mountedFiles]
  induction r generalizing k s fuel with
  | zero =>
      obtain ⟨fuel, rfl⟩ := Nat.exists_eq_succ_of_ne_zero (Nat.ne_of_gt hfuel)
      have hsmall := files_small hp hroom
      have hw : BitVec.ofNat 32 (k + 1) ≠ 0#32 := by
        refine ne_zero_iff_toNat.mpr ?_
        rw [BitVec.toNat_ofNat]
        omega
      have hindex : n ≤ (BitVec.ofNat 32 (k + 1) - 1#32).toNat := by
        rw [← index_succ, BitVec.add_sub_cancel, BitVec.toNat_ofNat]
        omega
      have hend : kmainEntry (ramdiskOps sym) (BitVec.ofNat 32 (rootAt a)) (BitVec.ofNat 32 (k + 1)) buf s =
          .ok (.ended, s) := by
        rw [← hm.root]
        exact kmainEntry_end hp hroom hm hw hindex
      have hturn : kmainTurn (ramdiskOps sym) (BitVec.ofNat 32 (rootAt a)) (BitVec.ofNat 32 (k + 1)) buf s =
          .ok (false, s) := by
        rw [kmainTurn, bind_run hend]
        rfl
      have hnil : files.drop k = [] := List.drop_eq_nil_of_le (by omega)
      refine .of_eq (a := ()) ?_ ⟨hm, ?_⟩
      · rw [kmainList, bind_run hturn]
        rfl
      · rw [hnil, entriesText]
        exact Returns.of_eq (a := ()) rfl (.refl s)
  | succ r ih =>
      obtain ⟨fuel, rfl⟩ := Nat.exists_eq_succ_of_ne_zero (Nat.ne_of_gt (Nat.zero_lt_of_lt hfuel))
      have hk : k < n := by omega
      have hget := mountedFiles_get m addr (inodeName s₀.mem.ram a) hk
      rw [← hfs] at hget
      obtain ⟨hlt, hentry⟩ := List.getElem?_eq_some_iff.mp hget
      have hname : (files[k]).name = inodeName s₀.mem.ram a k := by rw [hentry]
      obtain ⟨more, s₁, hturn, rfl, hm₁, hlast₁, hbytes, hshown⟩ :=
        kmainTurn_entry hp hroom hm₀ hfits hfiles hshort hbuf hm hlast hk hfs hname
      have hnext : k + 1 + r = n := by omega
      have hfuel' : r < fuel := by omega
      obtain ⟨_, s₂, hrest, hm₂, hshown'⟩ := ih hnext hfuel' hm₁ hlast₁
      refine .of_eq (a := ()) ?_ ⟨hm₂, ?_⟩
      · rw [kmainList, bind_run hturn, if_pos rfl, index_succ]
        exact hrest
      · rw [List.drop_eq_getElem_cons hlt, entriesText, ← hbytes]
        exact hshown.append hshown'

/-- From a mounted image the loop comes back, and has put the text of the listing on the screen. -/
theorem kmainList_text (hleft : ChangesOnly (bufExtent buf) s₀ s) (hlast : s.mem.ram (buf.toNat + 255) = 0#8)
    {fuel : Nat} (hfuel : n + 2 ≤ fuel) :
    Returns (kmainList (ramdiskOps sym) (BitVec.ofNat 32 (rootAt a)) buf fuel 0#32) s fun _ s' =>
      Shown (listingText (mountedFiles m addr n (inodeName s₀.mem.ram a)) (bufferBytes s.mem.ram buf)) s s' := by
  have hm := hm₀.buffer hbuf hleft
  obtain ⟨fuel, rfl⟩ : ∃ f, fuel = f + 1 := ⟨fuel - 1, by omega⟩
  obtain ⟨more, s₁, hturn, rfl, hchange, hshown⟩ :=
    kmainTurn_directory hp hroom hm buf (readdirFs_dev hp hroom hm)
  have hm₁ := hm.entry hp hroom hchange
  have hram : ∀ i, i < bufLen → s₁.mem.ram (buf.toNat + i) = s.mem.ram (buf.toNat + i) := fun i hi =>
    hchange.ram _ (hbuf.dentry _ (by rw [bufExtent, Extent.mem_ofLen]; omega))
  have hfewer : n < fuel := by omega
  obtain ⟨_, s', hrest, _, hshown'⟩ := kmainList_entries (k := 0) hp hroom hm₀ hfits hfiles hshort hbuf rfl _
    (Nat.zero_add _) hfewer hm₁ ((hram 255 (by decide)).trans hlast)
  rw [bufferBytes_congr hram] at hshown'
  have hfirst : kmainTurn (ramdiskOps sym) (BitVec.ofNat 32 (rootAt a)) 0#32 buf s = .ok (true, s₁) := by
    rw [← hm.root]
    exact hturn
  have hrun : kmainList (ramdiskOps sym) (BitVec.ofNat 32 (rootAt a)) buf (fuel + 1) 0#32 s = .ok ((), s') := by
    rw [kmainList, bind_run hfirst]
    exact hrest
  refine .of_eq hrun ?_
  have hdev : devFile.name = cstr "dev" := rfl
  rw [listingText, entriesText, bufferAfter, if_pos hdev, turnText, if_pos hdev, hdev]
  exact hshown.append hshown'

end Entries

/-- The state with NULs in the buffer. -/
def tinyZeroed (s : Kernel Flat) : Kernel Flat := s.withRam (s.mem.ram.fill 0x8000 bufLen fun _ => 0#8)

theorem tiny_zeroed (s : Kernel Flat) : ChangesOnly (bufExtent 0x8000#32) s (tinyZeroed s) := by
  refine ⟨rfl, rfl, fun x hx => ?_⟩
  have hbuf : (0x8000#32).toNat = 0x8000 := rfl
  rw [bufExtent, Extent.mem_ofLen, hbuf] at hx
  rw [tinyZeroed, withRam_ram, Bytes.fill_outside (by omega)]

theorem tiny_zeroed_nul (s : Kernel Flat) {k : Nat} (hk : k < bufLen) :
    (tinyZeroed s).mem.ram ((0x8000#32).toNat + k) = 0#8 := by
  rw [tinyZeroed, withRam_ram]
  exact Bytes.fill_inside hk

/-- The loop comes back, and has put the text of the listing on the screen. With a buffer of NULs this is each
file as it is, if and only if none of them is shorter than one before it. -/
theorem kmainList_shows {root : Word} {s₁ s₂ : Kernel Flat} (h : Listable sym addr size s₀ root s₁)
    (hbuf : StackBuffer sym addr size s₀.alloc (fileCount s₀.mem.ram addr) buf)
    (hshort : ∀ i, i < fileCount s₀.mem.ram addr → (fileLength s₀.mem.ram addr i).toNat < bufLen)
    (hleft : ChangesOnly (bufExtent buf) s₁ s₂) (hlast : s₂.mem.ram (buf.toNat + 255) = 0#8) {fuel : Nat}
    (hfuel : fileCount s₀.mem.ram addr + 2 ≤ fuel) :
    Returns (kmainList (ramdiskOps sym) root buf fuel 0#32) s₂ (fun _ s' =>
        Shown (listingText (listedFiles addr s₀ s₁) (bufferBytes s₂.mem.ram buf)) s₂ s') ∧
      ((∀ k, k < bufLen → s₂.mem.ram (buf.toNat + k) = 0#8) →
        (listingText (listedFiles addr s₀ s₁) (bufferBytes s₂.mem.ram buf) = plainListing (listedFiles addr s₀ s₁) ↔
          (openedLengths (listedFiles addr s₀ s₁) (listedFiles addr s₀ s₁)).IsChain (· ≤ ·))) := by
  have hplain : ∀ f ∈ listedFiles addr s₀ s₁, Nulless f.contents := by
    intro f hf
    obtain ⟨j, hj, rfl⟩ := List.mem_map.mp hf
    exact (h.files j (List.mem_range.mp hj)).nulless
  refine ⟨?_, fun hzero => by rw [bufferBytes_zero hzero]; exact listingText_plain_iff bufLen hplain⟩
  obtain ⟨hroom, hroot, hm₁⟩ := h.mounted
  have haddr : root = BitVec.ofNat 32 (rootAt s₀.alloc) := hroot.trans hm₁.root
  rw [haddr]
  exact kmainList_text h.placed hroom hm₁ h.names h.files hshort hbuf hleft hlast hfuel

/-- An image at `0x1000` with two files: `ab`, of three bytes, and `c`, of one. -/
def pairImage : Bytes := fun x =>
  if 0x1154 ≤ x then 0#8
  else if 0x1150 ≤ x then (cstr "xyz!").getD (x - 0x1150) 0#8
  else if x = 0x1000 then 2#8
  else if x = 0x1005 then chr 'a'
  else if x = 0x1006 then chr 'b'
  else if x = 0x1048 then 0x50#8
  else if x = 0x1049 then 1#8
  else if x = 0x104C then 3#8
  else if x = 0x1051 then chr 'c'
  else if x = 0x1094 then 0x53#8
  else if x = 0x1095 then 1#8
  else if x = 0x1098 then 1#8
  else 0#8

def pairKernel : Kernel Flat :=
  { Kernel.reset { Flat.zero with ram := pairImage } with alloc := .earlyInit 0x10000#32 0x20000#32 }

theorem pair_placed : RamdiskPlaced tinySymbols 0x1000#32 0x154#32 pairKernel.alloc where
  image_fits := by decide
  heap_order := by decide
  heap_top := by decide
  image_heap := Extent.Disjoint.apart (by decide)
  image_dentry := Extent.Disjoint.apart (by decide)
  heap_dentry := Extent.Disjoint.apart (by decide)

theorem pair_count : fileCount pairKernel.mem.ram 0x1000#32 = 2 := by decide

theorem pair_room : RamdiskRoom pairKernel.alloc 2 where
  initialized := rfl
  directories := by decide
  nodes _ := by decide

theorem pair_named : WellNamed pairKernel.mem.ram 0x1000#32 0x154#32 2 where
  table := by decide
  nonempty := by decide
  ends := by decide
  distinct i j hi hj :=
    (by decide : ∀ i, i < 2 → ∀ j, j < 2 → imageName pairKernel.mem.ram 0x1000#32 i =
      imageName pairKernel.mem.ram 0x1000#32 j → i = j) i hi j hj
  not_dev := by decide

theorem pair_heapZero : HeapZero pairKernel.mem.ram pairKernel.alloc 2 := by
  intro x hx
  have hlow : 0x10000 ≤ x := (Extent.mem_iff.mp (inodeByte_heap pair_room hx)).1
  exact if_pos (by omega)

theorem pair_buffer : StackBuffer tinySymbols 0x1000#32 0x154#32 pairKernel.alloc
    (fileCount pairKernel.mem.ram 0x1000#32) 0x8000#32 where
  ne := by decide
  fits := by decide
  image := Extent.Disjoint.apart (by decide)
  dentry := Extent.Disjoint.apart (by decide)
  inodes x hx := by
    rw [pair_count] at hx
    have happart : (freeHeap pairKernel.alloc).Disjoint (bufExtent 0x8000#32) := by decide
    exact happart.not_mem (inodeByte_heap pair_room hx)

theorem pair_proper : ∀ i, i < 2 → ProperFile pairKernel.mem.ram 0x1000#32 0x154#32 2 i := by
  intro i hi
  obtain rfl | rfl : i = 0 ∨ i = 1 := by omega
  · exact ⟨by decide, by decide, by decide⟩
  · exact ⟨by decide, by decide, by decide⟩

/-- The two files, once they are mounted. -/
theorem pair_listable : ∃ root s₁, Listable tinySymbols 0x1000#32 0x154#32 pairKernel root s₁ ∧
    listedFiles 0x1000#32 pairKernel s₁ =
      [⟨cstr "ab", 0x1150#32, cstr "xyz"⟩, ⟨cstr "c", 0x1153#32, cstr "!"⟩] := by
  have hrun := ramdiskInit_run pair_placed (pair_count ▸ pair_room) (pair_count ▸ pair_named.fits)
  rw [pair_count] at hrun
  obtain ⟨root, s₁, hrun, _, hclean, hm⟩ := hrun
  refine ⟨root, s₁, ⟨pair_placed, hrun, hclean, fun i hi => ?_, fun i hi => ?_⟩, ?_⟩
  · rw [pair_count] at hi
    exact mounted_nameFits hm pair_named pair_heapZero hi
  · rw [pair_count] at hi ⊢
    exact pair_proper i hi
  · have hname : ∀ i, i < 2 → inodeName s₁.mem.ram pairKernel.alloc i = imageName pairKernel.mem.ram 0x1000#32 i :=
      fun i hi => mounted_inodeName hm pair_named pair_heapZero hi
    have hfiles : listedFiles 0x1000#32 pairKernel s₁ =
        mountedFiles pairKernel.mem.ram 0x1000#32 2 (imageName pairKernel.mem.ram 0x1000#32) := by
      rw [listedFiles, pair_count, mountedFiles, mountedFiles]
      refine List.map_congr_left fun i hi => ?_
      rw [hname i (List.mem_range.mp hi)]
    have hfirst : imageName pairKernel.mem.ram 0x1000#32 0 = cstr "ab" := by decide
    have hsecond : imageName pairKernel.mem.ram 0x1000#32 1 = cstr "c" := by decide
    have hcontents : fileBytes pairKernel.mem.ram 0x1000#32 2 0 = cstr "xyz" := by decide
    have hcontents' : fileBytes pairKernel.mem.ram 0x1000#32 2 1 = cstr "!" := by decide
    have hstart : fileStart pairKernel.mem.ram 0x1000#32 0 = 0x1150#32 := by decide
    have hstart' : fileStart pairKernel.mem.ram 0x1000#32 1 = 0x1153#32 := by decide
    have hrange : List.range 2 = [0, 1] := rfl
    rw [hfiles, mountedFiles, hrange, List.map_cons, List.map_singleton, hfirst, hsecond, hcontents, hcontents', hstart,
      hstart']

/-- The second file is shown with the tail of the first, although the buffer held NULs. -/
theorem kmainList_shows_tiny : ∃ root s₁ s₂, Listable tinySymbols 0x1000#32 0x154#32 pairKernel root s₁ ∧
    ChangesOnly (bufExtent 0x8000#32) s₁ s₂ ∧
    Returns (kmainList (ramdiskOps tinySymbols) root 0x8000#32 4 0#32) s₂ (fun _ s' =>
      Shown (cstr "Found file dev\n(directory)\nFound file ab\nPcontent: xyz\nFound file c\nScontent: !yz\n") s₂ s') ∧
    listingText (listedFiles 0x1000#32 pairKernel s₁) (bufferBytes s₂.mem.ram 0x8000#32) ≠
      plainListing (listedFiles 0x1000#32 pairKernel s₁) := by
  obtain ⟨root, s₁, hlist, hfiles⟩ := pair_listable
  have hleft := tiny_zeroed s₁
  have hzero : ∀ k, k < bufLen → (tinyZeroed s₁).mem.ram ((0x8000#32).toNat + k) = 0#8 := fun k hk =>
    tiny_zeroed_nul s₁ hk
  have hshort : ∀ i, i < fileCount pairKernel.mem.ram 0x1000#32 →
      (fileLength pairKernel.mem.ram 0x1000#32 i).toNat < bufLen := by
    rw [pair_count]
    decide
  have hfuel : fileCount pairKernel.mem.ram 0x1000#32 + 2 ≤ 4 := by rw [pair_count]
  obtain ⟨hshows, hplain⟩ := kmainList_shows hlist pair_buffer hshort hleft (hzero 255 (by decide)) hfuel
  have htext : listingText [⟨cstr "ab", 0x1150#32, cstr "xyz"⟩, ⟨cstr "c", 0x1153#32, cstr "!"⟩]
      (List.replicate bufLen 0#8) =
      cstr "Found file dev\n(directory)\nFound file ab\nPcontent: xyz\nFound file c\nScontent: !yz\n" := by
    decide +kernel
  have hlengths : ¬(openedLengths [⟨cstr "ab", 0x1150#32, cstr "xyz"⟩, ⟨cstr "c", 0x1153#32, cstr "!"⟩]
      [⟨cstr "ab", 0x1150#32, cstr "xyz"⟩, ⟨cstr "c", 0x1153#32, cstr "!"⟩]).IsChain (· ≤ ·) := by decide
  refine ⟨root, s₁, _, hlist, hleft, ?_, fun heq => ?_⟩
  · rwa [hfiles, bufferBytes_zero hzero, htext] at hshows
  · have hchain := (hplain hzero).mp heq
    rw [hfiles] at hchain
    exact hlengths hchain

end Loop

end LizaOS
