-- SUMMARY: The ramdisk driver: mounting an image, and the file operations on the mounted image.
import LizaOS.Fs.Vfs
import LizaOS.Mm.Alloc

/-!
# Ramdisk driver

`drivers/ramdisk.c`. The image is a count, a table of file headers, and the contents of the files.
Mounting it patches the offsets in the table in place and builds an inode for each file on the early
heap. The accesses that are watched are the reads of the image, the stores to the array `root_nodes`
and the stores to the global `dentry`.
-/

namespace LizaOS

/-! ## The image -/

/-- The size of `initrd_header_t`, and of `initrd_file_header_t` with its padding. -/
def initrdHeaderSize : Nat := 4
def fileHeaderSize : Nat := 76

/-- The offsets of the fields of `initrd_file_header_t`. -/
def headerName : Nat := 1
def headerOffset : Nat := 68
def headerLength : Nat := 72

/-- Where the linker put the driver's code and its global `dentry`. -/
structure RamdiskSymbols where
  dentry : Word
  read : Word
  readdir : Word
  finddir : Word
  dentry_fits : dentry.toNat + dentrySize ≤ 2 ^ 32
  dentry_ne : dentry ≠ 0#32
  read_ne : read ≠ 0#32
  readdir_ne : readdir ≠ 0#32
  finddir_ne : finddir ≠ 0#32

namespace Ramdisk

/-- The address of `file_headers[i]`. -/
def header (rd : Ramdisk) (i : Word) : Word := rd.fileHeaders + BitVec.ofNat 32 fileHeaderSize * i

/-- The address of `root_nodes[i]`. -/
def node (rd : Ramdisk) (i : Word) : Word := rd.rootNodes + BitVec.ofNat 32 inodeSize * i

/-- The part of element `i` of `root_nodes` the driver may store to: the element, as far as it lies
in the block. -/
def element (rd : Ramdisk) (i : Word) : Extent :=
  (Extent.ofLen (rd.rootNodes.toNat + inodeSize * i.toNat) inodeSize).inter rd.block

/-- The name field of element `i`. -/
def elementName (rd : Ramdisk) (i : Word) : Extent :=
  (Extent.ofLen (rd.rootNodes.toNat + inodeSize * i.toNat) inodeNameLen).inter rd.block

end Ramdisk

namespace RamdiskSymbols

/-- The name field of `dentry`. -/
def dentryName (sym : RamdiskSymbols) : Extent := .ofLen sym.dentry.toNat nameLen

/-- The field `ino` of `dentry`. -/
def dentryInoField (sym : RamdiskSymbols) : Extent := .ofLen (sym.dentry.toNat + dentryIno) 4

end RamdiskSymbols

variable {μ : Type} [Bus μ]

/-! ## File operations -/

/-- `read`. The header is copied to the stack as a whole. -/
def ramdiskRead (node offset size buffer : Word) : K μ Word := do
  let rd := (← get).ramdisk
  let ino ← load32 (node + BitVec.ofNat 32 inodeIno)
  let header := rd.header ino
  modify fun s => s.noted (some rd.image) header fileHeaderSize
  let headerOffset ← load32 (header + BitVec.ofNat 32 headerOffset)
  let headerLength ← load32 (header + BitVec.ofNat 32 headerLength)
  if headerLength < offset then pure 0#32
  else
    let size := if headerLength < offset + size then headerLength - offset else size
    kPrintf (cstr "%c") (slots [headerOffset])
    memcpy buffer (headerOffset + offset) size.toNat rd.image
    pure size

/-- `readdir`. -/
def ramdiskReaddir (sym : RamdiskSymbols) (node index : Word) : K μ Word := do
  let rd := (← get).ramdisk
  if node = rd.root ∧ index = 0#32 then
    strcpy sym.dentry (.lit (cstr "dev")) sym.dentryName
    store8 (sym.dentry + 3#32) 0#8 sym.dentryName
    store32 (sym.dentry + BitVec.ofNat 32 dentryIno) 0#32 sym.dentryInoField
    pure sym.dentry
  else
    let index := index - 1#32
    if rd.nrootNodes ≤ index then pure 0#32
    else
      let name : Src := .mem (rd.node index) none
      strcpy sym.dentry name sym.dentryName
      let len ← strlen name
      store8 (sym.dentry + BitVec.ofNat 32 len) 0#8 sym.dentryName
      let ino ← load32 (rd.node index + BitVec.ofNat 32 inodeIno)
      store32 (sym.dentry + BitVec.ofNat 32 dentryIno) ino sym.dentryInoField
      pure sym.dentry

/-- The search loop of `finddir`, from index `i` on, for `n` more files. -/
def findNode (rd : Ramdisk) (name : Src) : Nat → Nat → K μ Word
  | _, 0 => pure 0#32
  | i, n + 1 => do
      let node := rd.node (BitVec.ofNat 32 i)
      if ¬(← strcmp name (.mem node none)) then pure node else findNode rd name (i + 1) n

/-- `finddir`. The loop compares `i` and `nroot_nodes` as signed numbers. -/
def ramdiskFinddir (node : Word) (name : Src) : K μ Word := do
  let rd := (← get).ramdisk
  if node = rd.root then
    if ¬(← strcmp name (.lit (cstr "dev"))) then pure rd.dev
    else findNode rd name 0 rd.nrootNodes.toInt.toNat
  else findNode rd name 0 rd.nrootNodes.toInt.toNat

/-- The operations of the driver, as the file system calls them. -/
def ramdiskOps (sym : RamdiskSymbols) : DriverOps μ where
  readAddr := sym.read
  readdirAddr := sym.readdir
  finddirAddr := sym.finddir
  read := ramdiskRead
  readdir := ramdiskReaddir sym
  finddir := ramdiskFinddir

/-! ## Mounting -/

/-- Store the fields of an inode, in the order given. -/
def storeFields (node : Word) (obj : Option Extent) (fields : List (Nat × Word)) : K μ Unit :=
  fields.forM fun f => store32 (node + BitVec.ofNat 32 f.1) f.2 obj

/-- The fields of a directory inode. -/
def directoryFields (sym : RamdiskSymbols) : List (Nat × Word) :=
  [(inodeLength, 0), (inodeIno, 0), (inodeGid, 0), (inodeUid, 0), (inodeMask, 0),
    (inodeFlags, fsDirectory), (inodeRead, 0), (inodeWrite, 0), (inodeOpen, 0), (inodeClose, 0),
    (inodeReaddir, sym.readdir), (inodeFinddir, sym.finddir), (inodePtr, 0), (inodeImpl, 0)]

/-- The fields of a file's inode that are stored before its length is read. -/
def fileOwnerFields : List (Nat × Word) := [(inodeGid, 0), (inodeUid, 0), (inodeMask, 0)]

/-- The fields of a file's inode from its length on. The field `ptr` is left alone. -/
def fileFields (sym : RamdiskSymbols) (i length : Word) : List (Nat × Word) :=
  [(inodeLength, length), (inodeIno, i), (inodeFlags, fsFile), (inodeRead, sym.read),
    (inodeWrite, 0), (inodeReaddir, 0), (inodeFinddir, 0), (inodeOpen, 0), (inodeClose, 0),
    (inodeImpl, 0)]

/-- Allocate the inode of a directory and fill it in. -/
def initDirectory (sym : RamdiskSymbols) (name : List Byte) : K μ Word := do
  let node ← kmallocEarlyAlign (BitVec.ofNat 32 inodeSize)
  strcpy node (.lit name)
  storeFields node none (directoryFields sym)
  pure node

/-- The body of the loop of `ramdisk_init`. -/
def initFile (sym : RamdiskSymbols) (addr i : Word) : K μ Unit := do
  let rd := (← get).ramdisk
  let header := rd.header i
  let node := rd.node i
  let offset ← load32 (header + BitVec.ofNat 32 headerOffset) rd.image
  store32 (header + BitVec.ofNat 32 headerOffset) (offset + addr)
  strcpy node (.mem (header + BitVec.ofNat 32 headerName) rd.image) (rd.elementName i)
  storeFields node (rd.element i) fileOwnerFields
  let length ← load32 (header + BitVec.ofNat 32 headerLength) rd.image
  storeFields node (rd.element i) (fileFields sym i length)

/-- The loop of `ramdisk_init`. The number of files is read from the image at each turn. -/
def initFiles (sym : RamdiskSymbols) (addr : Word) : Nat → Word → K μ Unit
  | 0, _ => throw .spin
  | fuel + 1, i => do
      let rd := (← get).ramdisk
      let nfiles ← load32 rd.initrdH rd.image
      if i < nfiles then do
        initFile sym addr i
        initFiles sym addr fuel (i + 1#32)
      else pure ()

/-- The first part of `ramdisk_init`: the image is noted, and the inodes of the root and of `/dev` are
set up. -/
def initDirectories (sym : RamdiskSymbols) (addr size : Word) : K μ Word := do
  modify fun s => { s with ramdisk := { s.ramdisk with
    initrdH := addr
    fileHeaders := addr + BitVec.ofNat 32 initrdHeaderSize
    image := .ofLen addr.toNat size.toNat } }
  let root ← initDirectory sym (cstr "initrd")
  modify fun s => { s with ramdisk := { s.ramdisk with root := root } }
  let dev ← initDirectory sym (cstr "dev")
  modify fun s => { s with ramdisk := { s.ramdisk with dev := dev } }
  pure root

/-- The second part: the array of inodes is allocated and filled in. The block ends where the
allocator has put its base, after 32-bit arithmetic. -/
def initNodes (sym : RamdiskSymbols) (addr : Word) : K μ Unit := do
  let image := (← get).ramdisk.image
  let nfiles ← load32 addr image
  let rootNodes ← kmallocEarlyAlign (BitVec.ofNat 32 inodeSize * nfiles)
  modify fun s => { s with ramdisk := { s.ramdisk with
    rootNodes := rootNodes
    block := ⟨rootNodes.toNat, (rootNodes + BitVec.ofNat 32 inodeSize * nfiles).toNat⟩ } }
  let nfiles ← load32 addr image
  modify fun s => { s with ramdisk := { s.ramdisk with nrootNodes := nfiles } }
  kPrintfln (cstr "nfiles: %d") (slots [nfiles])
  initFiles sym addr spinLimit 0#32

/-- `ramdisk_init`. -/
def ramdiskInit (sym : RamdiskSymbols) (addr size : Word) : K μ Word := do
  let root ← initDirectories sym addr size
  initNodes sym addr
  pure root

end LizaOS
