-- SUMMARY: Listing a directory and looking up names in it: where the two agree.
import LizaOS.Drivers.ImageNames
import LizaOS.Drivers.RamdiskSafety

/-!
# Directory listing and lookup

Both directories have the same files in them: `finddir` looks a name up among the files of the image
whichever directory it is given. The root lists `/dev` and the files; `/dev` lists nothing, because
its first index is shifted like that of the root and ends the list.
-/

namespace LizaOS

open Exec

/-- What a caller of `readdir_fs` finds in a `struct dentry`. -/
structure Entry where
  name : List Byte
  ino : Word
  deriving DecidableEq, Repr

/-- One call of `readdir_fs`, and the entry it gives. -/
def readEntry (sym : RamdiskSymbols) (d index : Word) : K Flat (Option Entry) := do
  let r ← readdirFs (ramdiskOps sym) d index
  let m := (← get).mem.ram
  if r = 0#32 then pure none
  else pure (some ⟨stringAt m nameLen r.toNat, m.read32 (r.toNat + dentryIno)⟩)

/-- The entries from an index on, up to the first NULL. -/
def listDir (sym : RamdiskSymbols) (d : Word) : Nat → Word → K Flat (List Entry)
  | 0, _ => throw .spin
  | fuel + 1, index => do
      match ← readEntry sym d index with
      | none => pure []
      | some e =>
          let rest ← listDir sym d fuel (index + 1#32)
          pure (e :: rest)

/-- The names listed are the names found, and each entry is found with its own name and number. -/
structure Agrees (sym : RamdiskSymbols) (d : Word) (entries : List Entry) (s : Kernel Flat) : Prop where
  names : ∀ name, Nulless name → ((∃ e ∈ entries, e.name = name) ↔
    Returns (finddirFs (ramdiskOps sym) d (.lit name)) s fun r _ => r ≠ 0#32)
  inodes : ∀ e ∈ entries, Returns (finddirFs (ramdiskOps sym) d (.lit e.name)) s fun r s' =>
    r ≠ 0#32 ∧ stringAt s'.mem.ram inodeNameLen r.toNat = e.name ∧
      s'.mem.ram.read32 (r.toNat + inodeIno) = e.ino

/-- Listing the directory and looking names up in it agree. -/
def DirectoryAgrees (sym : RamdiskSymbols) (d : Word) (s : Kernel Flat) : Prop :=
  Returns (listDir sym d spinLimit 0#32) s fun entries s' => Agrees sym d entries s'

/-! ## Listing -/

section Listing

variable {sym : RamdiskSymbols} {m : Bytes} {a : Alloc} {addr size index : Word} {n i : Nat}
  {s s' : Kernel Flat} {node : Node}

/-- The entry of file `i`. -/
def fileEntry (m : Bytes) (a : Alloc) (i : Nat) : Entry := ⟨inodeName m a i, BitVec.ofNat 32 i⟩

/-- The entry the root lists first. -/
def devEntry : Entry := ⟨cstr "dev", 0#32⟩

theorem EntryIs.string {name : List Byte} {ino : Word} {f : Bytes} (h : EntryIs sym f name ino)
    (hname : Nulless name) (hlen : name.length < nameLen) :
    (⟨stringAt f nameLen sym.dentry.toNat, f.read32 (sym.dentry.toNat + dentryIno)⟩ : Entry) =
      ⟨name, ino⟩ := by
  have hstring : stringAt f nameLen sym.dentry.toNat = name := by
    refine stringAt_eq hname (Nat.le_of_lt hlen) (fun j hj => h.name j (Nat.le_of_lt hj)) fun _ => ?_
    rw [h.name _ (Nat.le_refl _), getD_length]
  rw [hstring, h.ino]

/-- An entry in `dentry` is what the caller finds. -/
theorem readEntry_some {d : Word} {name : List Byte} {ino : Word} (hname : Nulless name)
    (hlen : name.length < nameLen)
    (h : Returns (readdirFs (ramdiskOps sym) d index) s fun r s' =>
      r = sym.dentry ∧ ChangesOnly sym.dentryExtent s s' ∧ EntryIs sym s'.mem.ram name ino) :
    ∃ s', readEntry sym d index s = .ok (some ⟨name, ino⟩, s') ∧ ChangesOnly sym.dentryExtent s s' := by
  obtain ⟨r, s', hrun, rfl, hchange, hentry⟩ := h
  refine ⟨s', ?_, hchange⟩
  rw [readEntry, bind_run hrun, bind_run (get_apply _), if_neg sym.dentry_ne, hentry.string hname hlen]
  rfl

theorem readEntry_none {d : Word} (h : readdirFs (ramdiskOps sym) d index s = .ok (0#32, s)) :
    readEntry sym d index s = .ok (none, s) := by
  rw [readEntry, bind_run h, bind_run (get_apply _), if_pos rfl]
  rfl

theorem listDir_nil {d : Word} {fuel : Nat} (h : readEntry sym d index s = .ok (none, s)) :
    listDir sym d (fuel + 1) index s = .ok ([], s) := by
  rw [listDir, bind_run h]
  rfl

theorem listDir_cons {d : Word} {fuel : Nat} {e : Entry} {es : List Entry} {s₁ : Kernel Flat}
    (h : readEntry sym d index s = .ok (some e, s₁))
    (hrest : listDir sym d fuel (index + 1#32) s₁ = .ok (es, s')) :
    listDir sym d (fuel + 1) index s = .ok (e :: es, s') := by
  rw [listDir, bind_run h]
  exact bind_run hrest

/-- Filling in an entry changes no inode. -/
theorem entry_names (hp : RamdiskPlaced sym addr size a) (hroom : RamdiskRoom a n)
    (hchange : ChangesOnly sym.dentryExtent s s') (hi : i < n) :
    inodeName s'.mem.ram a i = inodeName s.mem.ram a i ∧
      ((NameFits fun j => s.mem.ram (nodeAt (nodesAt a) i + j)) →
        NameFits fun j => s'.mem.ram (nodeAt (nodesAt a) i + j)) := by
  refine ⟨inodeName_entry hp hroom hi hchange, fun h => h.congr fun j hj => ?_⟩
  refine (hchange.ram _ (hp.heap_dentry _ (inodeByte_heap hroom (node_byte hi ?_)))).symm
  simp only [nameLen, inodeSize] at hj ⊢
  omega

theorem ChangesOnly.trans {e : Extent} {s₁ s₂ s₃ : Kernel Flat} (h : ChangesOnly e s₁ s₂)
    (h' : ChangesOnly e s₂ s₃) : ChangesOnly e s₁ s₃ where
  ramdisk := h'.ramdisk.trans h.ramdisk
  strayed := h'.strayed.trans h.strayed
  ram x hx := (h'.ram x hx).trans (h.ram x hx)

/-- The array is far smaller than the address space. -/
theorem files_small (hp : RamdiskPlaced sym addr size a) (hroom : RamdiskRoom a n) : 184 * n < 2 ^ 32 := by
  by_cases hn : n - 1 < n
  · have hend := nodes_fit hp hroom hn
    simp only [nodeAt, inodeSize] at hend
    omega
  · omega

/-- `/dev` lists nothing. -/
theorem listDir_dev (hp : RamdiskPlaced sym addr size a) (hroom : RamdiskRoom a n)
    (hm : Mounted sym m a addr size n s) (fuel : Nat) :
    listDir sym s.ramdisk.dev (fuel + 1) 0#32 s = .ok ([], s) := by
  have hsmall := files_small hp hroom
  have hdev : Node.dev ≠ Node.root := by decide
  have hdir : Node.IsDir .dev := trivial
  have hend : readdirFs (ramdiskOps sym) (Node.dev.addr s.ramdisk) 0#32 s = .ok (0#32, s) := by
    refine readdirFs_end hp hroom hm hdir (fun h => absurd h hdev) ?_
    -- The index before 0 is the largest word there is.
    have hlast : (0#32 - 1#32).toNat = 2 ^ 32 - 1 := by decide
    omega
  exact listDir_nil (readEntry_none hend)

/-- The files of a directory are listed in order. -/
theorem listDir_files (hp : RamdiskPlaced sym addr size a) (hroom : RamdiskRoom a n)
    (hm : Mounted sym m a addr size n s) (hdir : node.IsDir)
    (hname : ∀ i, i < n → NameFits fun j => s.mem.ram (nodeAt (nodesAt a) i + j)) {k fuel : Nat}
    (hk : i + k = n) (hfuel : k < fuel) :
    ∃ s', listDir sym (node.addr s.ramdisk) fuel (BitVec.ofNat 32 (i + 1)) s =
        .ok ((List.range' i k).map (fileEntry s.mem.ram a), s') ∧
      ChangesOnly sym.dentryExtent s s' := by
  have hindex : ∀ i, BitVec.ofNat 32 (i + 1) - 1#32 = BitVec.ofNat 32 i := by
    intro i
    rw [← index_succ, BitVec.add_sub_cancel]
  have hsmall := files_small hp hroom
  induction k generalizing i s fuel with
  | zero =>
      obtain ⟨fuel, rfl⟩ := Nat.exists_eq_succ_of_ne_zero (Nat.ne_of_gt hfuel)
      have hend : readdirFs (ramdiskOps sym) (node.addr s.ramdisk) (BitVec.ofNat 32 (i + 1)) s =
          .ok (0#32, s) := by
        refine readdirFs_end hp hroom hm hdir (fun _ hz => ?_) ?_
        · have hval := congrArg BitVec.toNat hz
          simp only [BitVec.toNat_ofNat] at hval
          omega
        · rw [hindex, BitVec.toNat_ofNat]
          omega
      exact ⟨s, listDir_nil (readEntry_none hend), ⟨rfl, rfl, fun _ _ => rfl⟩⟩
  | succ k ih =>
      obtain ⟨fuel, rfl⟩ := Nat.exists_eq_succ_of_ne_zero (Nat.ne_of_gt (Nat.lt_of_le_of_lt (Nat.zero_le _) hfuel))
      have hi : i < n := by omega
      obtain ⟨z, hz, hnul⟩ := (hname i hi).nul
      obtain ⟨s₁, hfirst, hchange⟩ := readEntry_some (stringAt_nulless _ _ _)
        (Nat.lt_of_le_of_lt (stringAt_length_le hnul) hz)
        (readdirFs_entry hp hroom hm hdir hi (hindex i) (hname i hi))
      have hkept : ∀ i, i < n → inodeName s₁.mem.ram a i = inodeName s.mem.ram a i ∧ _ :=
        fun i hi => entry_names hp hroom hchange hi
      have hm₁ := hm.entry hp hroom hchange
      have hnext : i + 1 + k = n := by omega
      obtain ⟨s₂, hrest, hchange'⟩ := ih hm₁ (fun i hi => (hkept i hi).2 (hname i hi)) hnext
        (Nat.lt_of_succ_lt_succ hfuel)
      rw [hchange.ramdisk] at hrest
      have hentries : (List.range' (i + 1) k).map (fileEntry s₁.mem.ram a) =
          (List.range' (i + 1) k).map (fileEntry s.mem.ram a) := by
        refine List.map_congr_left fun j hj => ?_
        rw [List.mem_range'_1] at hj
        rw [fileEntry, fileEntry, (hkept j (by omega)).1]
      rw [hentries] at hrest
      refine ⟨s₂, ?_, hchange.trans hchange'⟩
      rw [List.range'_succ, List.map_cons]
      exact listDir_cons hfirst (by rw [index_succ]; exact hrest)

/-- The root lists `/dev` and then the files. -/
theorem listDir_root (hp : RamdiskPlaced sym addr size a) (hroom : RamdiskRoom a n)
    (hm : Mounted sym m a addr size n s)
    (hname : ∀ i, i < n → NameFits fun j => s.mem.ram (nodeAt (nodesAt a) i + j)) {fuel : Nat}
    (hfuel : n + 1 < fuel) :
    ∃ s', listDir sym s.ramdisk.root fuel 0#32 s =
        .ok (devEntry :: (List.range n).map (fileEntry s.mem.ram a), s') ∧
      ChangesOnly sym.dentryExtent s s' := by
  obtain ⟨fuel, rfl⟩ := Nat.exists_eq_succ_of_ne_zero (Nat.ne_of_gt (Nat.lt_of_le_of_lt (Nat.zero_le _) hfuel))
  have hdir : Node.IsDir .root := trivial
  obtain ⟨s₁, hfirst, hchange⟩ := readEntry_some (by decide) (by decide) (readdirFs_dev hp hroom hm)
  have hkept : ∀ i, i < n → inodeName s₁.mem.ram a i = inodeName s.mem.ram a i ∧ _ :=
    fun i hi => entry_names hp hroom hchange hi
  have hm₁ := hm.entry hp hroom hchange
  obtain ⟨s₂, hrest, hchange'⟩ := listDir_files hp hroom hm₁ hdir (fun i hi => (hkept i hi).2 (hname i hi))
    (Nat.zero_add n) (Nat.lt_of_succ_lt_succ hfuel)
  have hentries : (List.range' 0 n).map (fileEntry s₁.mem.ram a) =
      (List.range n).map (fileEntry s.mem.ram a) := by
    rw [← List.range_eq_range']
    refine List.map_congr_left fun j hj => ?_
    rw [List.mem_range] at hj
    rw [fileEntry, fileEntry, (hkept j hj).1]
  rw [hentries, hchange.ramdisk] at hrest
  exact ⟨s₂, listDir_cons hfirst hrest, hchange.trans hchange'⟩

end Listing

/-! ## Agreement -/

section Agreement

variable {sym : RamdiskSymbols} {m : Bytes} {a : Alloc} {addr size : Word} {n i : Nat}
  {s s' : Kernel Flat} {node : Node} {name : List Byte}

/-- No inode is at NULL, except that of the root. -/
theorem addr_ne (hp : RamdiskPlaced sym addr size a) (hroom : RamdiskRoom a n)
    (hm : Mounted sym m a addr size n s) (hv : node.Valid n) (hroot : node ≠ .root) :
    node.addr s.ramdisk ≠ 0#32 := by
  rw [ne_zero_iff_toNat, node_addr hp hroom hm hv]
  cases node with
  | root => exact absurd rfl hroot
  | dev => simp [Node.place, devAt]
  | file i => simp [Node.place, nodeAt, nodesAt]

/-- What looking a name up gives: NULL unless the directory has it. -/
theorem finddir_found (hp : RamdiskPlaced sym addr size a) (hroom : RamdiskRoom a n)
    (hm : Mounted sym m a addr size n s) (hdir : node.IsDir) (hname : Nulless name) :
    Returns (finddirFs (ramdiskOps sym) (node.addr s.ramdisk) (.lit name)) s (fun r _ => r ≠ 0#32) ↔
      (node = .root ∧ name = cstr "dev") ∨ ∃ i, i < n ∧ inodeName s.mem.ram a i = name := by
  have hspells : (Src.lit name).Spells s.mem name := rfl
  obtain ⟨r, hrun, hr⟩ := finddirFs_run hp hroom hm hspells hname hdir
  have hreturns : Returns (finddirFs (ramdiskOps sym) (node.addr s.ramdisk) (.lit name)) s
      (fun r _ => r ≠ 0#32) ↔ r ≠ 0#32 := by
    constructor
    · intro h
      exact h.whenReturns.mono (fun _ _ h => h) r s hrun
    · exact fun h => .of_eq hrun h
  rw [hreturns]
  by_cases hdev : node = .root ∧ name = cstr "dev"
  · rw [if_pos hdev] at hr
    have hne : Node.dev.addr s.ramdisk ≠ 0#32 := addr_ne hp hroom hm (show Node.Valid n .dev from trivial) (by decide)
    exact ⟨fun _ => .inl hdev, fun _ => hr ▸ hne⟩
  · rw [if_neg hdev] at hr
    rcases hr with ⟨i, hi, heq, _, rfl⟩ | ⟨hnone, rfl⟩
    · have hne : (Node.file i).addr s.ramdisk ≠ 0#32 :=
        addr_ne hp hroom hm (show Node.Valid n (.file i) from hi) (by simp)
      exact ⟨fun _ => .inr ⟨i, hi, heq⟩, fun _ => hne⟩
    · refine ⟨fun h => absurd rfl h, fun h => ?_⟩
      rcases h with h | ⟨i, hi, heq⟩
      · exact absurd h hdev
      · exact absurd heq (hnone i hi)

/-- The inode of `/dev` has its name, if the heap held a zero behind it. -/
theorem dev_name_iff (hm : Mounted sym m a addr size n s) :
    stringAt s.mem.ram inodeNameLen (devAt a) = cstr "dev" ↔ m (devAt a + 3) = 0#8 := by
  have hbyte : ∀ j, j < inodeNameLen → s.mem.ram (devAt a + j) =
      if j < 3 then (cstr "dev").getD j 0#8 else m (devAt a + j) := by
    intro j hj
    rw [hm.directories _ (by simp only [devAt]; omega) (by simp only [inodeSize, inodeNameLen] at *; omega),
      directoriesRam, directoryRam_name hj, directoryRam_other (by decide)
        (by simp only [devAt, inodeSize]; omega)]
    rfl
  have hthree : s.mem.ram (devAt a + 3) = m (devAt a + 3) := hbyte 3 (by decide)
  constructor
  · intro h
    have hend := stringAt_end (m := s.mem.ram) (k := inodeNameLen) (p := devAt a) (by rw [h]; decide)
    rw [h] at hend
    exact hthree.symm.trans hend
  · intro h
    refine stringAt_eq (by decide) (by decide) (fun j hj => ?_) fun _ => hthree.trans h
    have hj' : j < 3 := hj
    rw [hbyte j (by simp only [inodeNameLen]; omega), if_pos hj']

/-- The root agrees, if the inodes have names of their own that fit and that of `/dev` ends in time. -/
theorem root_agrees (hp : RamdiskPlaced sym addr size a) (hroom : RamdiskRoom a n)
    (hm : Mounted sym m a addr size n s)
    (hfits : ∀ i, i < n → NameFits fun j => s.mem.ram (nodeAt (nodesAt a) i + j))
    (hdistinct : ∀ i j, i < n → j < n → inodeName s.mem.ram a i = inodeName s.mem.ram a j → i = j)
    (hnot_dev : ∀ i, i < n → inodeName s.mem.ram a i ≠ cstr "dev") (hdev : m (devAt a + 3) = 0#8) :
    DirectoryAgrees sym s.ramdisk.root s := by
  have hsmall := files_small hp hroom
  have hfuel : n + 1 < spinLimit := by
    simp only [spinLimit]
    omega
  obtain ⟨s', hlist, hchange⟩ := listDir_root hp hroom hm hfits hfuel
  have hm' := hm.entry hp hroom hchange
  have hkept : ∀ i, i < n → inodeName s'.mem.ram a i = inodeName s.mem.ram a i :=
    fun i hi => (entry_names hp hroom hchange hi).1
  have hroot : Node.IsDir .root := trivial
  have haddr : Node.root.addr s'.ramdisk = s.ramdisk.root := by rw [Node.addr, hchange.ramdisk]
  refine .of_eq hlist ⟨fun name hname => ?_, fun e he => ?_⟩
  · have hfound := finddir_found hp hroom hm' hroot hname
    rw [haddr] at hfound
    rw [hfound]
    constructor
    · rintro ⟨e, he, rfl⟩
      rcases List.mem_cons.mp he with rfl | he
      · exact .inl ⟨rfl, rfl⟩
      · obtain ⟨i, hi, rfl⟩ := List.mem_map.mp he
        rw [List.mem_range] at hi
        exact .inr ⟨i, hi, hkept i hi⟩
    · rintro (⟨_, rfl⟩ | ⟨i, hi, rfl⟩)
      · exact ⟨devEntry, List.mem_cons_self .., rfl⟩
      · refine ⟨fileEntry s.mem.ram a i, List.mem_cons_of_mem _ ?_, (hkept i hi).symm⟩
        exact List.mem_map.mpr ⟨i, List.mem_range.mpr hi, rfl⟩
  · rcases List.mem_cons.mp he with rfl | he
    · -- The entry of `/dev` is found first of all.
      have hspells : (Src.lit devEntry.name).Spells s'.mem (cstr "dev") := rfl
      obtain ⟨r, hrun, hr⟩ := finddirFs_run hp hroom hm' hspells (by decide) hroot
      rw [if_pos ⟨rfl, rfl⟩] at hr
      rw [haddr] at hrun
      have hvalid : Node.Valid n .dev := trivial
      have hdevAddr : r.toNat = devAt a := by
        rw [hr]
        exact node_addr hp hroom hm' hvalid
      have hino := mounted_fields hm' hvalid (inodeIno, 0#32)
        (by simp [Node.fields, directoryFields])
      refine .of_eq hrun ⟨?_, ?_, ?_⟩
      · rw [hr]
        exact addr_ne hp hroom hm' hvalid (by decide)
      · rw [hdevAddr]
        exact (dev_name_iff hm').mpr hdev
      · rw [hdevAddr]
        exact hino
    · -- A file is the only one of its name.
      obtain ⟨i, hi, rfl⟩ := List.mem_map.mp he
      rw [List.mem_range] at hi
      have hspells : (Src.lit (fileEntry s.mem.ram a i).name).Spells s'.mem (inodeName s.mem.ram a i) := rfl
      obtain ⟨r, hrun, hr⟩ := finddirFs_run hp hroom hm' hspells (stringAt_nulless _ _ _) hroot
      rw [if_neg (fun h => hnot_dev i hi h.2)] at hr
      rw [haddr] at hrun
      have hfile : Node.Valid n (.file i) := hi
      have hnode : r = (Node.file i).addr s'.ramdisk := by
        rcases hr with ⟨j, hj, heq, _, rfl⟩ | ⟨hnone, _⟩
        · rw [hkept j hj] at heq
          rw [hdistinct j i hj hi heq]
          rfl
        · exact absurd (hkept i hi) (hnone i hi)
      have hino := mounted_fields hm' hfile (inodeIno, BitVec.ofNat 32 i)
        (by simp [Node.fields, nodeFields, fileFields])
      refine .of_eq hrun ⟨?_, ?_, ?_⟩
      · rw [hnode]
        exact addr_ne hp hroom hm' hfile (by simp)
      · rw [hnode, node_addr hp hroom hm' hfile]
        exact hkept i hi
      · rw [hnode, node_addr hp hroom hm' hfile]
        exact hino

/-- On a heap of zeros the root agrees for every image with proper names. -/
theorem root_agrees_heapZero (hp : RamdiskPlaced sym addr size a) (hroom : RamdiskRoom a n)
    (hm : Mounted sym m a addr size n s) (hw : WellNamed m addr size n) (hz : HeapZero m a n) :
    DirectoryAgrees sym s.ramdisk.root s := by
  have hname : ∀ i, i < n → inodeName s.mem.ram a i = imageName m addr i :=
    fun i hi => mounted_inodeName hm hw hz hi
  refine root_agrees hp hroom hm (fun i hi => mounted_nameFits hm hw hz hi) (fun i j hi hj heq => ?_)
    (fun i hi => ?_) (hz _ (.inl ?_))
  · rw [hname i hi, hname j hj] at heq
    exact hw.distinct i j hi hj heq
  · rw [hname i hi]
    exact hw.not_dev i hi
  · simp only [devAt, inodeSize]
    omega

/-- `/dev` lists nothing but every file is found in it, so it agrees only if there is no file. -/
theorem dev_agrees_iff (hp : RamdiskPlaced sym addr size a) (hroom : RamdiskRoom a n)
    (hm : Mounted sym m a addr size n s) : DirectoryAgrees sym s.ramdisk.dev s ↔ n = 0 := by
  have hdir : Node.IsDir .dev := trivial
  have hlist : listDir sym s.ramdisk.dev spinLimit 0#32 s = .ok ([], s) := listDir_dev hp hroom hm _
  have hfound := fun (name : List Byte) (hname : Nulless name) => finddir_found hp hroom hm hdir hname
  constructor
  · rintro ⟨entries, s', hrun, hagrees⟩
    rw [hlist] at hrun
    cases hrun
    refine Nat.eq_zero_of_not_pos fun hpos => ?_
    have hfirst := (hfound _ (stringAt_nulless _ _ _)).mpr (.inr ⟨0, hpos, rfl⟩)
    obtain ⟨e, he, _⟩ := (hagrees.names _ (stringAt_nulless _ _ _)).mpr hfirst
    exact absurd he List.not_mem_nil
  · rintro rfl
    refine .of_eq hlist ⟨fun name hname => ?_, fun e he => absurd he List.not_mem_nil⟩
    refine ⟨fun ⟨e, he, _⟩ => absurd he List.not_mem_nil, fun h => ?_⟩
    rcases (hfound name hname).mp h with ⟨h, _⟩ | ⟨i, hi, _⟩
    · cases h
    · exact absurd hi (Nat.not_lt_zero i)

/-- Listing and lookup agree on both directories exactly if the image has no file and the heap held a
zero behind the name of `/dev`. -/
theorem directoriesAgree_iff {root : Word} (hp : RamdiskPlaced sym addr size s.alloc)
    (hw : WellNamed s.mem.ram addr size (fileCount s.mem.ram addr))
    (harray : ArrayFits s.alloc (fileCount s.mem.ram addr))
    (hrun : ramdiskInit sym addr size s = .ok (root, s')) :
    (DirectoryAgrees sym s'.ramdisk.root s' ∧ DirectoryAgrees sym s'.ramdisk.dev s') ↔
      fileCount s.mem.ram addr = 0 ∧ s.mem.ram (devAt s.alloc + 3) = 0#8 := by
  have hroom := ramdiskInit_room hp hw.fits.header harray hrun
  obtain ⟨_, _, hm⟩ := (ramdiskInit_run hp hroom hw.fits).whenReturns root s' hrun
  rw [dev_agrees_iff hp hroom hm]
  constructor
  · rintro ⟨⟨entries, s₁, hlist, hagrees⟩, hn⟩
    refine ⟨hn, ?_⟩
    -- The root lists `/dev`, so the inode found has the name.
    have hfuel : fileCount s.mem.ram addr + 1 < spinLimit := by
      rw [hn]
      decide
    obtain ⟨s₂, hlist', hchange⟩ := listDir_root hp hroom hm (fun i hi => absurd hi (by omega)) hfuel
    rw [hlist'] at hlist
    cases hlist
    have hm₁ := hm.entry hp hroom hchange
    have hroot : Node.IsDir .root := trivial
    have hspells : (Src.lit devEntry.name).Spells s₁.mem (cstr "dev") := rfl
    obtain ⟨r, hfind, hr⟩ := finddirFs_run hp hroom hm₁ hspells (by decide) hroot
    rw [if_pos ⟨rfl, rfl⟩] at hr
    rw [Node.addr, hchange.ramdisk] at hfind
    obtain ⟨_, hname, _⟩ := (hagrees.inodes devEntry (List.mem_cons_self ..)).whenReturns r s₁ hfind
    have hdevAddr : r.toNat = devAt s.alloc := by
      rw [hr]
      exact node_addr hp hroom hm₁ (show Node.Valid _ .dev from trivial)
    rw [hdevAddr] at hname
    exact (dev_name_iff hm₁).mp hname
  · rintro ⟨hn, hdev⟩
    have hnone : ∀ i, i < fileCount s.mem.ram addr → False := fun i hi => by omega
    exact ⟨root_agrees hp hroom hm (fun i hi => (hnone i hi).elim) (fun i _ hi => (hnone i hi).elim)
      (fun i hi => (hnone i hi).elim) hdev, hn⟩

theorem tiny_named : WellNamed tinyKernel.mem.ram 0x1000#32 81#32 1 where
  table := by decide
  nonempty i hi := by
    obtain rfl : i = 0 := by omega
    decide
  ends i hi := by
    obtain rfl : i = 0 := by omega
    decide
  distinct i j hi hj _ := by omega
  not_dev i hi := by
    obtain rfl : i = 0 := by omega
    decide

theorem directoriesAgree_tiny :
    ∃ root s', ramdiskInit tinySymbols 0x1000#32 81#32 tinyKernel = .ok (root, s') ∧
      ((DirectoryAgrees tinySymbols s'.ramdisk.root s' ∧ DirectoryAgrees tinySymbols s'.ramdisk.dev s') ↔
        fileCount tinyKernel.mem.ram 0x1000#32 = 0 ∧
          tinyKernel.mem.ram (devAt tinyKernel.alloc + 3) = 0#8) := by
  obtain ⟨root, s', hrun, _, _⟩ := tiny_mounted
  have harray : ArrayFits tinyKernel.alloc (fileCount tinyKernel.mem.ram 0x1000#32) := fun _ => by
    rw [tiny_count]
    decide
  exact ⟨root, s', hrun, directoriesAgree_iff tiny_placed (tiny_count ▸ tiny_named) harray hrun⟩

/-- The file `a` is found in `/dev`, which lists nothing. -/
theorem not_directoriesAgree_tiny :
    ∃ root s', ramdiskInit tinySymbols 0x1000#32 81#32 tinyKernel = .ok (root, s') ∧
      WellNamed tinyKernel.mem.ram 0x1000#32 81#32 (fileCount tinyKernel.mem.ram 0x1000#32) ∧
      ¬DirectoryAgrees tinySymbols s'.ramdisk.dev s' := by
  obtain ⟨root, s', hrun, _, hm⟩ := tiny_mounted
  refine ⟨root, s', hrun, tiny_count ▸ tiny_named, ?_⟩
  rw [dev_agrees_iff tiny_placed tiny_room hm]
  decide

end Agreement

end LizaOS
