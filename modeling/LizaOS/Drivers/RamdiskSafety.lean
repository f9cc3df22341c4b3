-- SUMMARY: When mounting an image and calling the file system on it keeps every access inside its object.
import LizaOS.Drivers.RamdiskList
import LizaOS.Drivers.RamdiskRead

/-!
# Safety of the ramdisk driver

The driver trusts the image. A run that mounts an image and calls the file system has strayed unless
the table of files lies in the image, the names end in time, the array of inodes does not wrap, each
name that is listed fits in `dentry`, and each read is of bytes of the image. These conditions are
also enough.
-/

namespace LizaOS

open Exec

/-! ## Calls -/

/-- A call of the file system on one of its inodes. -/
inductive Call where
  | readdir (node : Node) (index : Word)
  | finddir (node : Node) (name : List Byte)
  | read (node : Node) (offset size buffer : Word)

def Call.run (sym : RamdiskSymbols) (c : Call) : K Flat Word := do
  let rd := (← get).ramdisk
  match c with
  | .readdir node index => readdirFs (ramdiskOps sym) (node.addr rd) index
  | .finddir node name => finddirFs (ramdiskOps sym) (node.addr rd) (.lit name)
  | .read node offset size buffer => readFs (ramdiskOps sym) (node.addr rd) offset size buffer

theorem Call.readdir_run {sym : RamdiskSymbols} {s : Kernel Flat} (node : Node) (index : Word) :
    (Call.readdir node index).run sym s = readdirFs (ramdiskOps sym) (node.addr s.ramdisk) index s := rfl

theorem Call.finddir_run {sym : RamdiskSymbols} {s : Kernel Flat} (node : Node) (name : List Byte) :
    (Call.finddir node name).run sym s =
      finddirFs (ramdiskOps sym) (node.addr s.ramdisk) (.lit name) s := rfl

theorem Call.read_run {sym : RamdiskSymbols} {s : Kernel Flat} (node : Node) (offset size buffer : Word) :
    (Call.read node offset size buffer).run sym s =
      readFs (ramdiskOps sym) (node.addr s.ramdisk) offset size buffer s := rfl

def runCalls (sym : RamdiskSymbols) : List Call → K Flat Unit
  | [] => pure ()
  | c :: calls => do
      let _ ← c.run sym
      runCalls sym calls

/-! ## Conditions -/

/-- The number of bytes a read of a file is for: what is left of the file if that is less than asked
for, but all that is asked for where `offset + size` wraps. -/
def bytesAsked (length offset size : Word) : Nat :=
  if offset.toNat + size.toNat < 2 ^ 32 then min size.toNat (length.toNat - offset.toNat)
  else size.toNat

/-- The bytes asked for lie in the image. -/
def AskedInside (m : Bytes) (addr size : Word) (i : Nat) (offset count : Word) : Prop :=
  (Extent.ofLen (fileStart m addr i + offset).toNat (bytesAsked (fileLength m addr i) offset count)).Within
    (imageExtent addr size)

/-- The bytes `readdir` finds in the name field of inode `i`: those of the name in the image, and then
what the heap held. -/
def storedName (m : Bytes) (a : Alloc) (addr : Word) (i len : Nat) : Nat → Byte :=
  fun j => if j < len then nameBytes m addr i j else m (nodeAt (nodesAt a) i + j)

/-- A call that keeps inside: the name listed fits in `dentry`, the bytes read are bytes of the
image. -/
def Call.Safe (m : Bytes) (a : Alloc) (addr size : Word) (n : Nat) : Call → Prop
  | .readdir node index =>
      node.IsDir → ∀ i, i < n → index - 1#32 = BitVec.ofNat 32 i →
        ∀ len, CopyLen (nameBytes m addr i) len → NameFits (storedName m a addr i len)
  | .finddir _ _ => True
  | .read node offset count _ =>
      ∀ i, node = .file i → offset.toNat ≤ (fileLength m addr i).toNat →
        bytesAsked (fileLength m addr i) offset count ≠ 0 → AskedInside m addr size i offset count

/-- What the caller sees to: the inode is one of the file system, a name has no NUL inside, and a
buffer has room for bytes that lie in the image, beside image and inodes. -/
def Call.Proper (m : Bytes) (a : Alloc) (addr size : Word) (n : Nat) : Call → Prop
  | .readdir node _ => node.Valid n
  | .finddir node name => node.Valid n ∧ Nulless name
  | .read node offset count buffer =>
      node.Valid n ∧ ∀ i, node = .file i → AskedInside m addr size i offset count →
        buffer.toNat + bytesAsked (fileLength m addr i) offset count ≤ 2 ^ 32 ∧
        (Extent.ofLen buffer.toNat (bytesAsked (fileLength m addr i) offset count)).Apart
          (imageExtent addr size) ∧
        ∀ x, x ∈ Extent.ofLen buffer.toNat (bytesAsked (fileLength m addr i) offset count) →
          ¬InodeByte a n x

instance (m : Bytes) (addr size : Word) (i : Nat) (offset count : Word) :
    Decidable (AskedInside m addr size i offset count) := by
  unfold AskedInside
  exact inferInstance

theorem bytesAsked_eq {length offset size : Word} (hle : offset.toNat ≤ length.toNat) :
    (readLen length offset size).toNat = bytesAsked length offset size := by
  rw [bytesAsked]
  split
  · exact readLen_toNat hle ‹_›
  · rw [readLen_wrapped hle (by omega)]

/-! ## One call -/

section Calls

variable {sym : RamdiskSymbols} {m : Bytes} {a : Alloc} {addr size : Word} {n : Nat}
  {s s' : Kernel Flat} {c : Call}

/-- The name field of inode `i` is as the mount left it. -/
theorem mounted_name (hm : Mounted sym m a addr size n s) {i len : Nat} (hi : i < n)
    (hlen : CopyLen (nameBytes m addr i) len) {j : Nat} (hj : j ≤ nameLen) :
    s.mem.ram (nodeAt (nodesAt a) i + j) = storedName m a addr i len j := by
  obtain ⟨len', hfit, hname⟩ := (hm.files i hi).name
  obtain rfl := hlen.unique hfit.copy
  refine hname j ?_
  simp only [nameLen, inodeNameLen] at hj ⊢
  omega

theorem readInside_iff {i : Nat} {offset count : Word} (hle : offset.toNat ≤ (fileLength m addr i).toNat) :
    ReadInside m addr size i offset count ↔ AskedInside m addr size i offset count := by
  rw [ReadInside, AskedInside, bytesAsked_eq hle]

/-- A listing that finds a file that fits, or none, is clean. -/
theorem readdir_safe (hp : RamdiskPlaced sym addr size a) (hroom : RamdiskRoom a n)
    (hm : Mounted sym m a addr size n s) {node : Node} {index : Word} (hv : node.Valid n)
    (hsafe : (Call.readdir node index).Safe m a addr size n) :
    Returns (readdirFs (ramdiskOps sym) (node.addr s.ramdisk) index) s fun _ s' =>
      s'.strayed = s.strayed ∧ Mounted sym m a addr size n s' := by
  by_cases hdir : node.IsDir
  · by_cases hfirst : node = .root ∧ index = 0#32
    · obtain ⟨rfl, rfl⟩ := hfirst
      exact (readdirFs_dev hp hroom hm).mono fun _ _ h => ⟨h.2.1.strayed, hm.entry hp hroom h.2.1⟩
    · rcases Nat.lt_or_ge (index - 1#32).toNat n with hi | hi
      · have hindex : index - 1#32 = BitVec.ofNat 32 (index - 1#32).toNat := by
          rw [BitVec.ofNat_toNat, BitVec.setWidth_eq]
        obtain ⟨len, hfit, _⟩ := (hm.files _ hi).name
        have hname := (hsafe hdir _ hi hindex len hfit.copy).congr fun j hj =>
          (mounted_name hm hi hfit.copy hj).symm
        exact (readdirFs_entry hp hroom hm hdir hi hindex hname).mono fun _ _ h =>
          ⟨h.2.1.strayed, hm.entry hp hroom h.2.1⟩
      · have hnone := readdirFs_end hp hroom hm hdir (fun hroot hzero => hfirst ⟨hroot, hzero⟩) hi
        exact .of_eq hnone ⟨rfl, hm⟩
  · exact .of_eq (readdirFs_file hp hroom hm hv hdir index) ⟨rfl, hm⟩

/-- A read of bytes of the image is clean. -/
theorem read_safe (hp : RamdiskPlaced sym addr size a) (hroom : RamdiskRoom a n)
    (hm : Mounted sym m a addr size n s) {node : Node} {offset count buffer : Word}
    (hproper : (Call.read node offset count buffer).Proper m a addr size n)
    (hsafe : (Call.read node offset count buffer).Safe m a addr size n) :
    Returns (readFs (ramdiskOps sym) (node.addr s.ramdisk) offset count buffer) s fun _ s' =>
      s'.strayed = s.strayed ∧ Mounted sym m a addr size n s' := by
  obtain ⟨hv, hbuffer⟩ := hproper
  cases node with
  | root => exact .of_eq (readFs_dir hp hroom hm hv trivial offset count buffer) ⟨rfl, hm⟩
  | dev => exact .of_eq (readFs_dir hp hroom hm hv trivial offset count buffer) ⟨rfl, hm⟩
  | file i =>
      by_cases hlt : fileLength m addr i < offset
      · exact .of_eq (readFs_past hp hroom hm hv hlt) ⟨rfl, hm⟩
      · have hle := Nat.le_of_not_lt (mt BitVec.lt_def.mpr hlt)
        have hasked : (readLen _ _ count).toNat = _ := bytesAsked_eq hle
        by_cases hzero : bytesAsked (fileLength m addr i) offset count = 0
        · have hlen : readLen (fileLength m addr i) offset count = 0#32 :=
            BitVec.eq_of_toNat_eq (hasked.trans hzero)
          have hempty : ∀ x, x ∉ Extent.ofLen buffer.toNat
              (readLen (fileLength m addr i) offset count).toNat := by
            intro x hx
            rw [Extent.mem_ofLen] at hx
            omega
          have hbuf := buffer.isLt
          have hread := readFs_run hp hroom hm hv hlt (.inl hlen) (by omega) fun x hx =>
            absurd hx (hempty x)
          exact hread.mono fun _ _ h => ⟨h.2.1.strayed, hm.changes h.2.1 (fun x _ => hempty x)
            fun x _ => hempty x⟩
        · have hin := hsafe i rfl hle hzero
          obtain ⟨hfit, himage, hinodes⟩ := hbuffer i rfl hin
          rw [← hasked] at hfit himage hinodes
          have hread := readFs_run hp hroom hm hv hlt (.inr ((readInside_iff hle).mpr hin)) hfit himage
          exact hread.mono fun _ _ h => ⟨h.2.1.strayed, hm.changes h.2.1
            (fun x hx hx' => himage x hx' hx) fun x hx hx' => hinodes x hx' hx⟩

/-- A safe call comes back without straying, and the file system stays mounted. -/
theorem Call.run_safe (hp : RamdiskPlaced sym addr size a) (hroom : RamdiskRoom a n)
    (hm : Mounted sym m a addr size n s) (hproper : c.Proper m a addr size n)
    (hsafe : c.Safe m a addr size n) :
    Returns (c.run sym) s fun _ s' => s'.strayed = s.strayed ∧ Mounted sym m a addr size n s' := by
  cases c with
  | readdir node index =>
      exact (readdir_safe hp hroom hm hproper hsafe).congr (Call.readdir_run node index)
  | finddir node name =>
      obtain ⟨hv, hname⟩ := hproper
      by_cases hdir : node.IsDir
      · have hspells : (Src.lit name).Spells s.mem name := rfl
        obtain ⟨r, hrun, _⟩ := finddirFs_run hp hroom hm hspells hname hdir
        exact .of_eq ((Call.finddir_run node name).trans hrun) ⟨rfl, hm⟩
      · have hnone := finddirFs_file hp hroom hm hv hdir (.lit name)
        exact .of_eq ((Call.finddir_run node name).trans hnone) ⟨rfl, hm⟩
  | read node offset count buffer =>
      exact (read_safe hp hroom hm hproper hsafe).congr (Call.read_run node offset count buffer)

/-- A call that has not strayed was safe. -/
theorem Call.run_clean (hp : RamdiskPlaced sym addr size a) (hroom : RamdiskRoom a n)
    (hm : Mounted sym m a addr size n s) (hproper : c.Proper m a addr size n) {r : Word}
    (hrun : c.run sym s = .ok (r, s')) (hs : s'.strayed = false) : c.Safe m a addr size n := by
  cases c with
  | readdir node index =>
      intro hdir i hi hindex len hlen
      rw [Call.readdir_run] at hrun
      exact (readdirFs_clean hp hroom hm hdir hi hindex hrun hs).congr fun j hj =>
        mounted_name hm hi hlen hj
  | finddir node name => trivial
  | read node offset count buffer =>
      rintro i rfl hle hasked
      rw [Call.read_run] at hrun
      rcases readFs_clean hp hroom hm hproper.1 hrun hs with hlt | hzero | hin
      · exact absurd (BitVec.lt_def.mp hlt) (Nat.not_lt.mpr hle)
      · rw [← bytesAsked_eq hle, hzero] at hasked
        exact absurd rfl hasked
      · exact (readInside_iff hle).mp hin

end Calls

/-! ## No call unsets the mark -/

section Remembers

variable (sym : RamdiskSymbols)

theorem ramdiskReaddir_remembers (node index : Word) : Remembers (ramdiskReaddir sym node index : K Flat Word) := by
  refine Remembers.get.bind fun s => .ite ?_ (.ite (Remembers.pure _) ?_)
  · exact (strcpy_remembers _ _ _).bind fun _ => (Remembers.store8 _ _ _).bind fun _ =>
      (Remembers.store32 _ _ _).bind fun _ => Remembers.pure _
  · exact (strcpy_remembers _ _ _).bind fun _ => (strlen_remembers _).bind fun _ =>
      (Remembers.store8 _ _ _).bind fun _ => (Remembers.load32 _ _).bind fun _ =>
        (Remembers.store32 _ _ _).bind fun _ => Remembers.pure _

theorem findNode_remembers (rd : Ramdisk) (name : Src) (i n : Nat) :
    Remembers (findNode rd name i n : K Flat Word) := by
  induction n generalizing i with
  | zero => exact Remembers.pure _
  | succ n ih => exact (strcmp_remembers _ _).bind fun _ => .ite (Remembers.pure _) (ih (i + 1))

theorem ramdiskFinddir_remembers (node : Word) (name : Src) :
    Remembers (ramdiskFinddir node name : K Flat Word) :=
  Remembers.get.bind fun _ => .ite
    ((strcmp_remembers _ _).bind fun _ => .ite (Remembers.pure _) (findNode_remembers _ _ _ _))
    (findNode_remembers _ _ _ _)

theorem ramdiskRead_remembers (node offset size buffer : Word) :
    Remembers (ramdiskRead node offset size buffer : K Flat Word) := by
  refine Remembers.get.bind fun s => (Remembers.load32 _ _).bind fun ino =>
    Remembers.bind (Remembers.modify fun _ => Kernel.strayed_of_noted _ _ _ _) fun _ =>
      (Remembers.load32 _ _).bind fun _ => (Remembers.load32 _ _).bind fun _ => .ite (Remembers.pure _) ?_
  exact (kPrintf_remembers _ _).bind fun _ => (memcpy_remembers _ _ _ _).bind fun _ => Remembers.pure _

theorem Call.run_remembers (c : Call) : Remembers (c.run sym) := by
  refine Remembers.get.bind fun s => ?_
  cases c with
  | readdir node index =>
      exact (Remembers.load32 _ _).bind fun _ => .ite ((Remembers.load32 _ _).bind fun _ =>
        .ite (.ite (ramdiskReaddir_remembers sym _ _) (Remembers.throw _)) (Remembers.pure _))
          (Remembers.pure _)
  | finddir node name =>
      exact (Remembers.load32 _ _).bind fun _ => .ite ((Remembers.load32 _ _).bind fun _ =>
        .ite (.ite (ramdiskFinddir_remembers _ _) (Remembers.throw _)) (Remembers.pure _))
          (Remembers.pure _)
  | read node offset size buffer =>
      exact (Remembers.load32 _ _).bind fun _ =>
        .ite (.ite (ramdiskRead_remembers _ _ _ _) (Remembers.throw _)) (Remembers.pure _)

theorem runCalls_remembers (calls : List Call) : Remembers (runCalls sym calls) := by
  induction calls with
  | nil => exact Remembers.pure _
  | cons c calls ih => exact (Call.run_remembers sym c).bind fun _ => ih

end Remembers

/-! ## A small image -/

/-- The code and the global of the driver, in a small memory. -/
def tinySymbols : RamdiskSymbols where
  dentry := 0x500#32
  read := 0x600#32
  readdir := 0x700#32
  finddir := 0x800#32
  dentry_fits := by decide
  dentry_ne := by decide
  read_ne := by decide
  readdir_ne := by decide
  finddir_ne := by decide

/-- An image at `0x1000` with one file, named `a`, whose contents are one byte. -/
def tinyImage : Bytes := fun x =>
  if x = 0x1000 then 1#8
  else if x = 0x1005 then 0x61#8
  else if x = 0x1048 then 80#8
  else if x = 0x104C then 1#8
  else if x = 0x1050 then 0x78#8
  else 0#8

/-- The kernel with the image and an early heap. -/
def tinyKernel : Kernel Flat :=
  { Kernel.reset { Flat.zero with ram := tinyImage } with alloc := .earlyInit 0x10000#32 0x20000#32 }

theorem tiny_placed : RamdiskPlaced tinySymbols 0x1000#32 81#32 tinyKernel.alloc where
  image_fits := by decide
  heap_order := by decide
  heap_top := by decide
  image_heap := Extent.Disjoint.apart (by decide)
  image_dentry := Extent.Disjoint.apart (by decide)
  heap_dentry := Extent.Disjoint.apart (by decide)

theorem tiny_count : fileCount tinyKernel.mem.ram 0x1000#32 = 1 := by decide

theorem tiny_room : RamdiskRoom tinyKernel.alloc 1 where
  initialized := rfl
  directories := by decide
  nodes _ := by decide

theorem tiny_fits : ImageFits tinyKernel.mem.ram 0x1000#32 81#32 1 where
  header := by decide
  files i hi := by
    obtain rfl : i = 0 := by omega
    exact ⟨1, by decide, ⟨by decide, by decide, fun j hj hj' => by omega⟩, by decide, by decide⟩

theorem tiny_mounted :
    ∃ root s', ramdiskInit tinySymbols 0x1000#32 81#32 tinyKernel = .ok (root, s') ∧
      s'.strayed = false ∧
      Mounted tinySymbols tinyKernel.mem.ram tinyKernel.alloc 0x1000#32 81#32 1 s' := by
  have hrun := ramdiskInit_run tiny_placed (tiny_count ▸ tiny_room) (tiny_count ▸ tiny_fits)
  rw [tiny_count] at hrun
  obtain ⟨root, s', hrun, _, hstray, hm⟩ := hrun
  exact ⟨root, s', hrun, hstray, hm⟩

/-! ## Runs -/

section Runs

variable {sym : RamdiskSymbols} {addr size : Word} {s s' : Kernel Flat} {root : Word}

/-- Mounting has not strayed exactly if the image fits and the array does not wrap. -/
theorem ramdiskInit_clean_iff (hp : RamdiskPlaced sym addr size s.alloc) (hs : s.strayed = false)
    (hrun : ramdiskInit sym addr size s = .ok (root, s')) :
    s'.strayed = false ↔
      ImageFits s.mem.ram addr size (fileCount s.mem.ram addr) ∧
        ArrayFits s.alloc (fileCount s.mem.ram addr) := by
  constructor
  · intro hs'
    obtain ⟨hroom, hfit⟩ := ramdiskInit_clean hp hrun hs'
    refine ⟨hfit, fun hne => ?_⟩
    have hend := hroom.nodes hne
    have htop := hp.heap_top
    omega
  · rintro ⟨hfit, harray⟩
    have hroom := ramdiskInit_room hp hfit.header harray hrun
    obtain ⟨_, hstray, _⟩ := (ramdiskInit_run hp hroom hfit).whenReturns root s' hrun
    rw [hstray, hs]

/-- A run of calls on a mounted file system comes back clean exactly if each call is safe. -/
theorem runCalls_clean_iff {m : Bytes} {a : Alloc} {n : Nat} (hp : RamdiskPlaced sym addr size a)
    (hroom : RamdiskRoom a n) (hm : Mounted sym m a addr size n s) (hs : s.strayed = false)
    {calls : List Call} (hproper : ∀ c ∈ calls, c.Proper m a addr size n) :
    Returns (runCalls sym calls) s (fun _ s' => s'.strayed = false) ↔
      ∀ c ∈ calls, c.Safe m a addr size n := by
  induction calls generalizing s with
  | nil => exact ⟨fun _ c hc => absurd hc List.not_mem_nil, fun _ => .of_eq rfl hs⟩
  | cons c calls ih =>
      have hc := hproper c (List.mem_cons_self ..)
      have hrest := fun d hd => hproper d (List.mem_cons_of_mem c hd)
      rw [List.forall_mem_cons]
      constructor
      · rintro ⟨u, s₂, hrun, hs₂⟩
        obtain ⟨r, s₁, hfirst, hs₁, hcalls⟩ := clean_bind hrun hs₂ fun _ => runCalls_remembers sym calls
        have hsafe := Call.run_clean hp hroom hm hc hfirst hs₁
        obtain ⟨_, hm₁⟩ := (Call.run_safe hp hroom hm hc hsafe).whenReturns r s₁ hfirst
        exact ⟨hsafe, (ih hm₁ hs₁ hrest).mp ⟨u, s₂, hcalls, hs₂⟩⟩
      · rintro ⟨hsafe, hsafes⟩
        refine (Call.run_safe hp hroom hm hc hsafe).bind fun _ s₁ h₁ => ?_
        exact (ih h₁.2 (h₁.1.trans hs) hrest).mpr hsafes

/-- Mounting an image and calling the file system on it has not strayed exactly if the image fits, the
array of inodes does not wrap, and each call is safe. -/
theorem ramdiskSafe_iff (hp : RamdiskPlaced sym addr size s.alloc) (hs : s.strayed = false)
    (hrun : ramdiskInit sym addr size s = .ok (root, s')) {calls : List Call}
    (hproper : ∀ c ∈ calls, c.Proper s.mem.ram s.alloc addr size (fileCount s.mem.ram addr)) :
    (s'.strayed = false ∧ Returns (runCalls sym calls) s' fun _ s'' => s''.strayed = false) ↔
      (ImageFits s.mem.ram addr size (fileCount s.mem.ram addr) ∧
        ArrayFits s.alloc (fileCount s.mem.ram addr)) ∧
      ∀ c ∈ calls, c.Safe s.mem.ram s.alloc addr size (fileCount s.mem.ram addr) := by
  rw [← ramdiskInit_clean_iff hp hs hrun]
  refine and_congr_right fun hs' => ?_
  obtain ⟨hroom, hfit⟩ := ramdiskInit_clean hp hrun hs'
  obtain ⟨_, _, hm⟩ := (ramdiskInit_run hp hroom hfit).whenReturns root s' hrun
  exact runCalls_clean_iff hp hroom hm hs' hproper

/-- The calls that list, look up and read the file of the small image. -/
theorem ramdiskSafe_tiny :
    ∃ root s', ramdiskInit tinySymbols 0x1000#32 81#32 tinyKernel = .ok (root, s') ∧
      ((s'.strayed = false ∧ Returns (runCalls tinySymbols [.readdir .root 1#32,
          .finddir .root (cstr "a"), .read (.file 0) 0#32 16#32 0x8000#32]) s' fun _ s'' => s''.strayed = false) ↔
        (ImageFits tinyKernel.mem.ram 0x1000#32 81#32 (fileCount tinyKernel.mem.ram 0x1000#32) ∧
          ArrayFits tinyKernel.alloc (fileCount tinyKernel.mem.ram 0x1000#32)) ∧
        ∀ c ∈ [Call.readdir .root 1#32, .finddir .root (cstr "a"), .read (.file 0) 0#32 16#32 0x8000#32],
          c.Safe tinyKernel.mem.ram tinyKernel.alloc 0x1000#32 81#32
            (fileCount tinyKernel.mem.ram 0x1000#32)) := by
  obtain ⟨root, s', hrun, _, _⟩ := tiny_mounted
  refine ⟨root, s', hrun, ramdiskSafe_iff tiny_placed rfl hrun fun c hc => ?_⟩
  rw [tiny_count]
  simp only [List.mem_cons, List.not_mem_nil, or_false] at hc
  rcases hc with rfl | rfl | rfl
  · exact trivial
  · exact ⟨trivial, by decide⟩
  · refine ⟨Nat.zero_lt_one, fun i hi _ => ?_⟩
    obtain rfl : 0 = i := by injection hi
    have hasked : bytesAsked (fileLength tinyKernel.mem.ram 0x1000#32 0) 0#32 16#32 = 1 := by decide
    rw [hasked]
    refine ⟨by decide, Extent.Disjoint.apart (by decide), fun x hx hinode => ?_⟩
    have hx' : x < 0x8001 := hx.2
    have hlow : 0x10000 ≤ x := by
      rcases hinode with h | h
      · exact h.1
      · exact Nat.le_trans (by decide) h.1
    omega

/-- A read at offset 1 for `2^32 - 1` bytes is not clamped: the file has one byte, and the copy leaves
the image. -/
theorem not_ramdiskSafe_read :
    ∃ root s' s'', ramdiskInit tinySymbols 0x1000#32 81#32 tinyKernel = .ok (root, s') ∧
      s'.strayed = false ∧
      runCalls tinySymbols [.read (.file 0) 1#32 0xFFFFFFFF#32 0x8000#32] s' = .ok ((), s'') ∧
      s''.strayed = true := by
  obtain ⟨root, s', hrun, hs', hm⟩ := tiny_mounted
  have hunsafe : ¬AskedInside tinyKernel.mem.ram 0x1000#32 81#32 0 1#32 0xFFFFFFFF#32 := by decide
  have hlong : ¬fileLength tinyKernel.mem.ram 0x1000#32 0 < 1#32 := by decide
  obtain ⟨s₁, _, hcopy⟩ := readFs_copy tiny_placed tiny_room hm Nat.zero_lt_one 1#32 0xFFFFFFFF#32
    0x8000#32
  rw [if_neg hlong] at hcopy
  obtain ⟨_, s₂, hmemcpy, _⟩ := memcpy_returns s₁ 0x8000#32
    (fileStart tinyKernel.mem.ram 0x1000#32 0 + 1#32) s'.ramdisk.image
    (readLen (fileLength tinyKernel.mem.ram 0x1000#32 0) 1#32 0xFFFFFFFF#32).toNat
  rw [bind_run hmemcpy] at hcopy
  have hcalls : runCalls tinySymbols [.read (.file 0) 1#32 0xFFFFFFFF#32 0x8000#32] s' = .ok ((), s₂) :=
    bind_run hcopy
  refine ⟨root, s', s₂, hrun, hs', hcalls, ?_⟩
  refine Bool.eq_true_of_not_eq_false fun hclean => ?_
  have hsafe := (runCalls_clean_iff tiny_placed tiny_room hm hs' fun c hc => ?_).mp
    ⟨(), s₂, hcalls, hclean⟩
  · exact hunsafe (hsafe _ (List.mem_singleton_self _) 0 rfl (by decide) (by decide))
  · rw [List.mem_singleton] at hc
    subst hc
    refine ⟨Nat.zero_lt_one, fun i hi hin => ?_⟩
    obtain rfl : 0 = i := by injection hi
    exact absurd hin hunsafe

end Runs

end LizaOS
