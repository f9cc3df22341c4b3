-- SUMMARY: The inode and directory entry records in memory, and the fields through which the file system calls a driver.
import LizaOS.Libc.String

/-!
# The virtual file system

The records of `include/fs/vfs.h` as they lie in memory, and `fs/vfs.c`. A driver's operation is
called through the pointer in the inode: the pointer is loaded from memory and a call goes where it
points. The operations of a driver are a `DriverOps`.
-/

namespace LizaOS

/-! ## Records -/

def nameLen : Nat := 64
def fsFile : Word := 0x01#32
def fsDirectory : Word := 0x02#32

/-- The length of `inode_t.name`. -/
def inodeNameLen : Nat := 128

/-- The offsets of the fields of `inode_t` behind its name, and its size. -/
def inodeMask : Nat := 128
def inodeUid : Nat := 132
def inodeGid : Nat := 136
def inodeFlags : Nat := 140
def inodeIno : Nat := 144
def inodeLength : Nat := 148
def inodeImpl : Nat := 152
def inodeRead : Nat := 156
def inodeWrite : Nat := 160
def inodeOpen : Nat := 164
def inodeClose : Nat := 168
def inodeReaddir : Nat := 172
def inodeFinddir : Nat := 176
def inodePtr : Nat := 180
def inodeSize : Nat := 184

/-- The offset of `ino` in `struct dentry`, and its size. -/
def dentryIno : Nat := 64
def dentrySize : Nat := 68

/-! ## Calls into a driver -/

/-- The operations of a driver and the addresses of their code. -/
structure DriverOps (μ : Type) where
  readAddr : Word
  readdirAddr : Word
  finddirAddr : Word
  read : (node offset size buffer : Word) → K μ Word
  readdir : (node index : Word) → K μ Word
  finddir : (node : Word) → (name : Src) → K μ Word

variable {μ : Type} [Bus μ]

def readFs (ops : DriverOps μ) (node offset size buffer : Word) : K μ Word := do
  let f ← load32 (node + BitVec.ofNat 32 inodeRead)
  if f ≠ 0#32 then
    if f = ops.readAddr then ops.read node offset size buffer else throw .wildCall
  else pure 0#32

def readdirFs (ops : DriverOps μ) (node index : Word) : K μ Word := do
  if (← load32 (node + BitVec.ofNat 32 inodeFlags)) = fsDirectory then
    let f ← load32 (node + BitVec.ofNat 32 inodeReaddir)
    if f ≠ 0#32 then
      if f = ops.readdirAddr then ops.readdir node index else throw .wildCall
    else pure 0#32
  else pure 0#32

def finddirFs (ops : DriverOps μ) (node : Word) (name : Src) : K μ Word := do
  if (← load32 (node + BitVec.ofNat 32 inodeFlags)) = fsDirectory then
    let f ← load32 (node + BitVec.ofNat 32 inodeFinddir)
    if f ≠ 0#32 then
      if f = ops.finddirAddr then ops.finddir node name else throw .wildCall
    else pure 0#32
  else pure 0#32

end LizaOS
