-- SUMMARY: The listing loop of the kernel's main function.
import LizaOS.Drivers.Ramdisk

/-!
# The kernel's main function

The loop of `kmain` in `kernel.c` that lists the root directory: an entry for each index, its inode, and
the contents of a file, read to the stack buffer `buf`. The buffer is not initialised, and it is the same
one at each turn.
-/

namespace LizaOS

/-- `sizeof(buf)`. -/
def bufLen : Nat := 256

/-- What a turn of the loop has found. -/
inductive Turn where
  | ended
  | directory
  /-- A file, some bytes of which are in the buffer. -/
  | content
  deriving DecidableEq, Repr

variable {μ : Type} [Bus μ]

/-- What a turn does with the inode it has found, up to the point where the contents are printed. -/
def kmainInode (ops : DriverOps μ) (ino buf : Word) : K μ Turn := do
  let flags ← load32 (ino + BitVec.ofNat 32 inodeFlags)
  if flags = fsDirectory then do
    kPrintfln (cstr "(directory)") (slots [])
    pure .directory
  else do
    let sz ← readFs ops ino 0#32 (BitVec.ofNat 32 bufLen) buf
    -- the size is unsigned
    if sz ≤ 0#32 then panic else pure .content

/-- A turn of the loop, up to that point. The name is the first field of `struct dentry`. -/
def kmainEntry (ops : DriverOps μ) (fsRoot i buf : Word) : K μ Turn := do
  let node ← readdirFs ops fsRoot i
  if node = 0#32 then pure .ended
  else do
    kPrintfln (cstr "Found file %s") (slots [node])
    let ino ← finddirFs ops fsRoot (.mem node none)
    kmainInode ops ino buf

/-- A turn of the loop: whether there is another one. -/
def kmainTurn (ops : DriverOps μ) (fsRoot i buf : Word) : K μ Bool := do
  match ← kmainEntry ops fsRoot i buf with
  | .ended => pure false
  | .directory => pure true
  | .content =>
      kPrintfln (cstr "content: %s") (slots [buf])
      pure true

/-- The loop from index `i` on. -/
def kmainList (ops : DriverOps μ) (fsRoot buf : Word) : Nat → Word → K μ Unit
  | 0, _ => throw .spin
  | fuel + 1, i => do
      if ← kmainTurn ops fsRoot i buf then kmainList ops fsRoot buf fuel (i + 1#32) else pure ()

/-- The states in which a turn of the loop begins, for the loop that begins in `s₀`. -/
inductive TurnBegins (ops : DriverOps μ) (fsRoot buf : Word) (s₀ : Kernel μ) : Word → Kernel μ → Prop where
  | first : TurnBegins ops fsRoot buf s₀ 0#32 s₀
  | next {i : Word} {s s' : Kernel μ} : TurnBegins ops fsRoot buf s₀ i s →
      kmainTurn ops fsRoot i buf s = .ok (true, s') → TurnBegins ops fsRoot buf s₀ (i + 1#32) s'

end LizaOS
