-- SUMMARY: The file operations on a mounted file system: which inodes they reach, what each returns, and what it leaves in memory.
import LizaOS.Drivers.RamdiskInit

/-!
# File operations on a mounted image

Each operation comes back on a mounted file system and leaves it mounted: only the global `dentry` and
the buffer of a read change. Names are compared with the string an inode holds, which is the name in
the image followed by whatever the heap held before, up to the first NUL.
-/

namespace LizaOS

open Exec

/-! ## The inodes -/

/-- An inode of the file system. -/
inductive Node where
  | root
  | dev
  | file (i : Nat)
  deriving DecidableEq, Repr

namespace Node

/-- The pointer to the inode. -/
def addr (rd : Ramdisk) : Node → Word
  | root => rd.root
  | dev => rd.dev
  | file i => rd.node (BitVec.ofNat 32 i)

/-- Where the inode lies, for the heap `a` before the mount. -/
def place (a : Alloc) : Node → Nat
  | root => rootAt a
  | dev => devAt a
  | file i => nodeAt (nodesAt a) i

/-- The inode is one of a file system with `n` files. -/
def Valid (n : Nat) : Node → Prop
  | root => True
  | dev => True
  | file i => i < n

def IsDir : Node → Prop
  | root => True
  | dev => True
  | file _ => False

theorem IsDir.valid {node : Node} (h : node.IsDir) (n : Nat) : node.Valid n := by
  cases node with
  | root => trivial
  | dev => trivial
  | file i => exact absurd h id

instance (node : Node) : Decidable node.IsDir :=
  match node with
  | root => .isTrue trivial
  | dev => .isTrue trivial
  | file _ => .isFalse id

/-- The fields of the inode, for the image `m` holds at `addr`. -/
def fields (sym : RamdiskSymbols) (m : Bytes) (addr : Word) : Node → List (Nat × Word)
  | root => directoryFields sym
  | dev => directoryFields sym
  | file i => nodeFields sym m addr i

theorem fields_inside (sym : RamdiskSymbols) (m : Bytes) (addr : Word) (node : Node) :
    FieldsInside (node.fields sym m addr) := by
  cases node with
  | root => exact directoryFields_inside sym
  | dev => exact directoryFields_inside sym
  | file i => exact nodeFields_inside sym m addr i

end Node

/-- A byte of an inode of a file system with `n` files. -/
def InodeByte (a : Alloc) (n x : Nat) : Prop :=
  (rootAt a ≤ x ∧ x < devAt a + inodeSize) ∨ (nodesAt a ≤ x ∧ x < nodesAt a + inodeSize * n)

section Nodes

variable {sym : RamdiskSymbols} {m : Bytes} {a : Alloc} {addr size : Word} {n i : Nat}
  {s s' : Kernel Flat}

/-- A state with the same driver globals and the same image and inodes is mounted too. -/
theorem Mounted.congr (hm : Mounted sym m a addr size n s) (hrd : s'.ramdisk = s.ramdisk)
    (himage : ∀ x, x ∈ imageExtent addr size → s'.mem.ram x = s.mem.ram x)
    (hinodes : ∀ x, InodeByte a n x → s'.mem.ram x = s.mem.ram x) :
    Mounted sym m a addr size n s' where
  image_obj := by rw [hrd, hm.image_obj]
  fileHeaders := by rw [hrd, hm.fileHeaders]
  nrootNodes := by rw [hrd, hm.nrootNodes]
  root := by rw [hrd, hm.root]
  dev := by rw [hrd, hm.dev]
  rootNodes h := by rw [hrd, hm.rootNodes h]
  image x hx := by rw [himage x hx, hm.image x hx]
  directories x hlo hhi := by rw [hinodes x (.inl ⟨hlo, hhi⟩), hm.directories x hlo hhi]
  files i hi := by
    have hfile := hm.files i hi
    have hsame : ∀ j, j < inodeSize →
        s'.mem.ram (nodeAt (nodesAt a) i + j) = s.mem.ram (nodeAt (nodesAt a) i + j) := by
      intro j hj
      refine hinodes _ (.inr ?_)
      simp only [nodeAt, inodeSize] at hj ⊢
      omega
    refine ⟨?_, hfile.fields.congr (nodeFields_inside sym m addr i) fun x hx hx' => ?_⟩
    · obtain ⟨len, hfit, hname⟩ := hfile.name
      refine ⟨len, hfit, fun j hj => ?_⟩
      rw [hsame j (Nat.lt_trans hj (by decide)), hname j hj]
    · have hx := hsame (x - nodeAt (nodesAt a) i) (by omega)
      rwa [Nat.add_sub_cancel' (by omega)] at hx

/-- The states differ in the screen and in the memory of `e` at most. -/
structure ChangesOnly (e : Extent) (s s' : Kernel Flat) : Prop where
  ramdisk : s'.ramdisk = s.ramdisk
  strayed : s'.strayed = s.strayed
  ram : ∀ x, x ∉ e → s'.mem.ram x = s.mem.ram x

/-- A change outside the image and the inodes leaves the file system mounted. -/
theorem Mounted.changes {e : Extent} (hm : Mounted sym m a addr size n s) (h : ChangesOnly e s s')
    (himage : (imageExtent addr size).Apart e) (hinodes : ∀ x, InodeByte a n x → x ∉ e) :
    Mounted sym m a addr size n s' :=
  hm.congr h.ramdisk (fun x hx => h.ram x (himage x hx)) fun x hx => h.ram x (hinodes x hx)

/-- The array lies below the last page. -/
theorem nodes_fit (hp : RamdiskPlaced sym addr size a) (hroom : RamdiskRoom a n) (hi : i < n) :
    nodeAt (nodesAt a) i + inodeSize ≤ 2 ^ 32 - 4096 := by
  have htop := hp.heap_top
  have hend := hroom.nodes (by omega)
  simp only [nodeAt, inodeSize] at hend ⊢
  omega

theorem place_fits (hp : RamdiskPlaced sym addr size a) (hroom : RamdiskRoom a n) {node : Node}
    (hv : node.Valid n) : node.place a + inodeSize ≤ 2 ^ 32 - 4096 := by
  have htop := hp.heap_top
  have hdirs := hroom.directories
  cases node with
  | root =>
      simp only [Node.place, devAt, inodeSize] at hdirs ⊢
      omega
  | dev => exact Nat.le_trans hdirs htop
  | file i => exact nodes_fit hp hroom hv

theorem node_addr (hp : RamdiskPlaced sym addr size a) (hroom : RamdiskRoom a n)
    (hm : Mounted sym m a addr size n s) {node : Node} (hv : node.Valid n) :
    (node.addr s.ramdisk).toNat = node.place a := by
  have hfit := place_fits hp hroom hv
  cases node with
  | root =>
      rw [Node.addr, hm.root, BitVec.toNat_ofNat, Node.place] at *
      omega
  | dev =>
      rw [Node.addr, hm.dev, BitVec.toNat_ofNat, Node.place] at *
      omega
  | file i =>
      have hi : i < n := hv
      rw [Node.addr, Ramdisk.node, hm.rootNodes (by omega)]
      simp only [Node.place, nodeAt, inodeSize, BitVec.toNat_add, BitVec.toNat_mul,
        BitVec.toNat_ofNat] at hfit ⊢
      omega

/-- The two directories are told apart by their addresses. -/
theorem Mounted.eq_root (hp : RamdiskPlaced sym addr size a) (hroom : RamdiskRoom a n)
    (hm : Mounted sym m a addr size n s) {node : Node} (hdir : node.IsDir)
    (h : node.addr s.ramdisk = s.ramdisk.root) : node = .root := by
  cases node with
  | root => rfl
  | dev =>
      have hdev : Node.Valid n .dev := trivial
      have hroot : Node.Valid n .root := trivial
      have hdevaddr := node_addr hp hroom hm hdev
      rw [h] at hdevaddr
      have hsame := hdevaddr.symm.trans (node_addr hp hroom hm hroot)
      simp only [Node.place, devAt] at hsame
      omega
  | file i => exact absurd hdir id

theorem mounted_fields (hm : Mounted sym m a addr size n s) {node : Node} (hv : node.Valid n) :
    HasFields s.mem.ram (node.place a) (node.fields sym m addr) := by
  cases node with
  | root =>
      -- The inode of `/dev` was set up behind that of the root.
      have hroot : HasFields (directoryRam sym m (rootAt a) (cstr "initrd")) (rootAt a)
          (directoryFields sym) := directoryRam_fields
      refine hroot.congr (directoryFields_inside sym) fun x hx hx' => ?_
      simp only [inodeNameLen, inodeSize] at hx hx'
      rw [hm.directories x (by omega) (by simp only [devAt]; omega), directoriesRam,
        directoryRam_other (by decide) (by simp only [devAt]; omega)]
  | dev =>
      have hdev : HasFields (directoriesRam sym a m) (devAt a) (directoryFields sym) :=
        directoryRam_fields
      refine hdev.congr (directoryFields_inside sym) fun x hx hx' => ?_
      exact hm.directories x (by simp only [devAt] at hx; omega) hx'
  | file i => exact (hm.files i hv).fields

/-- Every field of an inode can be loaded. -/
theorem field_run (hp : RamdiskPlaced sym addr size a) (hroom : RamdiskRoom a n)
    (hm : Mounted sym m a addr size n s) {node : Node} (hv : node.Valid n) {f : Nat × Word}
    (hf : f ∈ node.fields sym m addr) :
    load32 (node.addr s.ramdisk + BitVec.ofNat 32 f.1) none s = .ok (f.2, s) := by
  have hin := node.fields_inside sym m addr f.1 (List.mem_map_of_mem hf)
  have hfit := place_fits hp hroom hv
  have haddr := node_addr hp hroom hm hv
  have hword : (node.addr s.ramdisk + BitVec.ofNat 32 f.1).toNat = node.place a + f.1 := by
    rw [toNat_add_ofNat (by omega), haddr]
  rw [load32_run (within_none _ _), Flat.word_eq (by omega), hword, mounted_fields hm hv f hf]

/-! ## Dispatch -/

section Dispatch

variable (hp : RamdiskPlaced sym addr size a) (hroom : RamdiskRoom a n)
  (hm : Mounted sym m a addr size n s) {node : Node} (hv : node.Valid n)

include hp hroom hm hv

/-- A directory cannot be read. -/
theorem readFs_dir (hdir : node.IsDir) (offset length buffer : Word) :
    readFs (ramdiskOps sym) (node.addr s.ramdisk) offset length buffer s = .ok (0#32, s) := by
  have hread : load32 (node.addr s.ramdisk + BitVec.ofNat 32 inodeRead) none s = .ok (0#32, s) := by
    refine field_run hp hroom hm hv (f := (inodeRead, 0#32)) ?_
    cases node with
    | root => simp [Node.fields, directoryFields]
    | dev => simp [Node.fields, directoryFields]
    | file i => exact absurd hdir id
  rw [readFs, bind_run hread, if_neg (not_not.mpr rfl)]
  rfl

theorem flags_run :
    load32 (node.addr s.ramdisk + BitVec.ofNat 32 inodeFlags) none s =
      .ok (if node.IsDir then fsDirectory else fsFile, s) := by
  refine field_run hp hroom hm hv (f := (inodeFlags, if node.IsDir then fsDirectory else fsFile)) ?_
  cases node with
  | root => simp [Node.fields, directoryFields, Node.IsDir]
  | dev => simp [Node.fields, directoryFields, Node.IsDir]
  | file i => simp [Node.fields, nodeFields, fileFields, Node.IsDir]

/-- A file is not listed, and nothing is found in it. -/
theorem readdirFs_file (hfile : ¬node.IsDir) (index : Word) :
    readdirFs (ramdiskOps sym) (node.addr s.ramdisk) index s = .ok (0#32, s) := by
  rw [readdirFs, bind_run (flags_run hp hroom hm hv), if_neg hfile, if_neg (by decide)]
  rfl

theorem finddirFs_file (hfile : ¬node.IsDir) (name : Src) :
    finddirFs (ramdiskOps sym) (node.addr s.ramdisk) name s = .ok (0#32, s) := by
  rw [finddirFs, bind_run (flags_run hp hroom hm hv), if_neg hfile, if_neg (by decide)]
  rfl

theorem readdirFs_dir (hdir : node.IsDir) (index : Word) :
    readdirFs (ramdiskOps sym) (node.addr s.ramdisk) index s =
      ramdiskReaddir sym (node.addr s.ramdisk) index s := by
  have hreaddir : load32 (node.addr s.ramdisk + BitVec.ofNat 32 inodeReaddir) none s =
      .ok (sym.readdir, s) := by
    refine field_run hp hroom hm hv (f := (inodeReaddir, sym.readdir)) ?_
    cases node with
    | root => simp [Node.fields, directoryFields]
    | dev => simp [Node.fields, directoryFields]
    | file i => exact absurd hdir id
  rw [readdirFs, bind_run (flags_run hp hroom hm hv), if_pos hdir, if_pos rfl, bind_run hreaddir,
    if_pos sym.readdir_ne]
  exact if_pos rfl ▸ rfl

theorem finddirFs_dir (hdir : node.IsDir) (name : Src) :
    finddirFs (ramdiskOps sym) (node.addr s.ramdisk) name s =
      ramdiskFinddir (node.addr s.ramdisk) name s := by
  have hfinddir : load32 (node.addr s.ramdisk + BitVec.ofNat 32 inodeFinddir) none s =
      .ok (sym.finddir, s) := by
    refine field_run hp hroom hm hv (f := (inodeFinddir, sym.finddir)) ?_
    cases node with
    | root => simp [Node.fields, directoryFields]
    | dev => simp [Node.fields, directoryFields]
    | file i => exact absurd hdir id
  rw [finddirFs, bind_run (flags_run hp hroom hm hv), if_pos hdir, if_pos rfl, bind_run hfinddir,
    if_pos sym.finddir_ne]
  exact if_pos rfl ▸ rfl

end Dispatch

/-! ## Names -/

/-- The string in the name field of file `i`. -/
def inodeName (m : Bytes) (a : Alloc) (i : Nat) : List Byte :=
  stringAt m inodeNameLen (nodeAt (nodesAt a) i)

theorem inodeByte_heap (hroom : RamdiskRoom a n) {x : Nat}
    (hx : InodeByte a n x) : x ∈ freeHeap a := by
  have hlow := le_roundUp a.currentBase.toNat
  have hdirs := hroom.directories
  simp only [freeHeap, Extent.mem_iff]
  rcases hx with ⟨hlo, hhi⟩ | ⟨hlo, hhi⟩
  · simp only [rootAt] at hlo
    omega
  · have hend := hroom.nodes (by rintro rfl; omega)
    simp only [nodesAt, rootAt] at hlo hend hhi
    omega

theorem node_byte {j : Nat} (hi : i < n) (hj : j < inodeSize) : InodeByte a n (nodeAt (nodesAt a) i + j) := by
  refine .inr ?_
  simp only [nodeAt, inodeSize] at hj ⊢
  omega

/-- The field behind the name is zero, so the name always ends. -/
theorem name_nul (hm : Mounted sym m a addr size n s) (hi : i < n) :
    s.mem.ram (nodeAt (nodesAt a) i + inodeNameLen) = 0#8 := by
  have hmask := (hm.files i hi).fields (inodeMask, 0#32) (by simp [nodeFields, fileOwnerFields])
  have hbyte := congrArg (byteAt · 0) hmask
  simp only [Bytes.read32, byteAt_ofBytes_zero, byteAt_zero] at hbyte
  exact hbyte

/-- A byte of an inode is read through the pointer to it. -/
theorem node_bytesAt (hp : RamdiskPlaced sym addr size a) (hroom : RamdiskRoom a n)
    (hm : Mounted sym m a addr size n s) (hi : i < n) {j : Nat} (hj : j < inodeSize) (f : Flat) :
    f.bytesAt (s.ramdisk.node (BitVec.ofNat 32 i)) j = f.ram (nodeAt (nodesAt a) i + j) := by
  have haddr : (s.ramdisk.node (BitVec.ofNat 32 i)).toNat = nodeAt (nodesAt a) i :=
    node_addr hp hroom hm (show Node.Valid n (.file i) from hi)
  have hfit := nodes_fit hp hroom hi
  rw [Flat.bytesAt_eq (by omega), haddr]

theorem name_spells (hp : RamdiskPlaced sym addr size a) (hroom : RamdiskRoom a n)
    (hm : Mounted sym m a addr size n s) (hi : i < n) :
    (Src.mem (s.ramdisk.node (BitVec.ofNat 32 i)) none).Spells s.mem (inodeName s.mem.ram a i) := by
  refine ⟨rfl, fun j hj => ?_⟩
  have hlen : (inodeName s.mem.ram a i).length ≤ inodeNameLen := stringAt_length _ _ _
  rw [node_bytesAt hp hroom hm hi (by simp only [inodeNameLen, inodeSize] at hlen ⊢; omega)]
  exact stringAt_getD (name_nul hm hi) hj

theorem name_lt_spinLimit (m : Bytes) (a : Alloc) (i : Nat) : (inodeName m a i).length < spinLimit :=
  Nat.lt_of_le_of_lt (stringAt_length _ _ _) (by decide)

/-! ## Looking up a name -/

/-- What a search for `name` gives: the first of `n` files of that name. -/
def Found (rd : Ramdisk) (names : Nat → List Byte) (n : Nat) (name : List Byte) (r : Word) : Prop :=
  (∃ i, i < n ∧ names i = name ∧ (∀ j, j < i → names j ≠ name) ∧ r = rd.node (BitVec.ofNat 32 i)) ∨
  ((∀ i, i < n → names i ≠ name) ∧ r = 0#32)

section Lookup

variable (hp : RamdiskPlaced sym addr size a) (hroom : RamdiskRoom a n)
  (hm : Mounted sym m a addr size n s) {src : Src} {name : List Byte}
  (hsrc : src.Spells s.mem name) (hname : Nulless name)

include hp hroom hm hsrc hname

theorem findNode_run :
    ∃ r, findNode s.ramdisk src 0 n s = .ok (r, s) ∧
      Found s.ramdisk (inodeName s.mem.ram a) n name r := by
  -- The induction is on the number of files still to be compared.
  have hloop : ∀ k i, i + k = n → (∀ j, j < i → inodeName s.mem.ram a j ≠ name) →
      ∃ r, findNode s.ramdisk src i k s = .ok (r, s) ∧
        Found s.ramdisk (inodeName s.mem.ram a) n name r := by
    intro k
    induction k with
    | zero =>
        intro i hi hbefore
        obtain rfl : i = n := hi
        exact ⟨0#32, rfl, .inr ⟨hbefore, rfl⟩⟩
    | succ k ih =>
        intro i hi hbefore
        have hcmp := strcmp_run hsrc (name_spells hp hroom hm (i := i) (by omega)) hname
          (stringAt_nulless _ _ _) (name_lt_spinLimit _ _ _)
        rw [findNode, bind_run hcmp]
        by_cases heq : name = inodeName s.mem.ram a i
        · refine ⟨s.ramdisk.node (BitVec.ofNat 32 i), ?_, .inl ⟨i, by omega, heq.symm, hbefore, rfl⟩⟩
          simp [heq]
        · have hbefore' : ∀ j, j < i + 1 → inodeName s.mem.ram a j ≠ name := by
            intro j hj
            rcases Nat.lt_succ_iff_lt_or_eq.mp hj with h | rfl
            · exact hbefore j h
            · exact Ne.symm heq
          obtain ⟨r, hrun, hfound⟩ := ih (i + 1) (by omega) hbefore'
          refine ⟨r, ?_, hfound⟩
          simpa [heq] using hrun
  exact hloop n 0 (Nat.zero_add n) (fun j hj => absurd hj (Nat.not_lt_zero j))

/-- Looking up a name in a directory: the root has `/dev`, and both directories have the files. -/
theorem finddirFs_run {node : Node} (hdir : node.IsDir) :
    ∃ r, finddirFs (ramdiskOps sym) (node.addr s.ramdisk) src s = .ok (r, s) ∧
      if node = .root ∧ name = cstr "dev" then r = s.ramdisk.dev
      else Found s.ramdisk (inodeName s.mem.ram a) n name r := by
  obtain ⟨r, hrun, hfound⟩ := findNode_run hp hroom hm hsrc hname
  have hcount : s.ramdisk.nrootNodes.toInt.toNat = n := by
    have hsmall : 184 * n < 2 ^ 32 := by
      by_cases hz : n = 0
      · omega
      · have hend := hroom.nodes hz
        have htop := hp.heap_top
        simp only [inodeSize] at hend
        omega
    rw [hm.nrootNodes, BitVec.toInt_eq_toNat_of_lt (by rw [BitVec.toNat_ofNat]; omega),
      BitVec.toNat_ofNat, Int.toNat_natCast]
    omega
  have hlit : (Src.lit (cstr "dev")).Spells s.mem (cstr "dev") := rfl
  have hdev := strcmp_run hsrc hlit hname (by decide) (by decide)
  rw [finddirFs_dir hp hroom hm (hdir.valid n) hdir]
  have hget : ramdiskFinddir (node.addr s.ramdisk) src s =
      (if node.addr s.ramdisk = s.ramdisk.root then do
        if ¬(← strcmp src (.lit (cstr "dev"))) then pure s.ramdisk.dev
        else findNode s.ramdisk src 0 s.ramdisk.nrootNodes.toInt.toNat
      else findNode s.ramdisk src 0 s.ramdisk.nrootNodes.toInt.toNat) s := rfl
  rw [hget, hcount]
  cases node with
  | root =>
      rw [Node.addr, if_pos rfl, bind_run hdev]
      by_cases heq : name = cstr "dev"
      · exact ⟨s.ramdisk.dev, by simp [heq], by simp [heq]⟩
      · refine ⟨r, by simpa [heq] using hrun, ?_⟩
        rw [if_neg (fun h => heq h.2)]
        exact hfound
  | dev =>
      have hne : Node.dev.addr s.ramdisk ≠ s.ramdisk.root :=
        fun h => by cases hm.eq_root hp hroom hdir h
      rw [if_neg hne]
      exact ⟨r, hrun, by rw [if_neg (by simp)]; exact hfound⟩
  | file i => exact absurd hdir id

end Lookup

end Nodes

end LizaOS
