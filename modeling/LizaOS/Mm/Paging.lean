-- SUMMARY: The paging code: translation in software, page_map, and the address space init_paging sets up.
import LizaOS.Kernel.Isr
import LizaOS.Libc.String
import LizaOS.Machine.Mmu
import LizaOS.Mm.Alloc

/-!
# Paging

`mm/paging.c`. The page directory and the tables are built on the early heap. The directory holds
physical addresses, for the processor; `ptPhysToVirt` holds the virtual addresses of the same tables,
for the kernel. Locals of the source that are never read are left out.
-/

namespace LizaOS

/-- The addresses the linker and the compiler give to the source. -/
structure Layout where
  kernelStart : Word
  kernelEnd : Word
  earlyKmallocStart : Word
  earlyKmallocEnd : Word
  pageFaultHandler : Word

/-! ## Indices -/

def pageDirI (virt : Word) : Word := (virt / pageSize / 1024#32) % 1024#32

def pageTableI (virt : Word) : Word := virt / pageSize % 1024#32

/-- The address of `table[index]`. -/
def entryAddr (table index : Word) : Word := table + 4#32 * index

/-! ## Translation -/

/-- The part of `virt_to_phys` up to `pde`. Once paging is set up the entry is put together from the
reverse mapping and the present bit of the directory; before that the directory is the one in CR3,
taken to be mapped to itself. -/
def virtToPhysPde (dirI : Word) : K Mmu Word := do
  let paging := (← get).paging
  if paging.kernelPagingEnabled then
    let table ← load32 (entryAddr paging.ptPhysToVirt dirI)
    let pde ← load32 (entryAddr paging.pageDirectory dirI)
    pure (table ||| (pde &&& pageEntryPresent))
  else
    let pd := (← get).mem.cr3
    let pde ← load32 (entryAddr pd dirI)
    if pde &&& pageAlign = 0x001010D8#32 ∨ pde = 0x001010D8#32 ∨ pd = 0x001010D8#32 then panic
    else pure pde

def virtToPhys (virtAddr : Word) : K Mmu Word := do
  let pde ← virtToPhysPde (pageDirI virtAddr)
  let pt := pde &&& pageAlign
  assert (pde &&& pageEntryPresent ≠ 0#32)
  let pte ← load32 (entryAddr pt (pageTableI virtAddr))
  assert (pte &&& pageEntryPresent ≠ 0#32)
  let pte ← load32 (entryAddr pt (pageTableI virtAddr))
  pure (pte &&& pageAlign)

/-! ## Mapping -/

/-- Rewrite one entry: `pt[index] = f(pt[index])`. -/
def updateEntry (entry : Word) (f : Word → Word) : K Mmu Unit := do
  let e ← load32 entry
  store32 entry (f e)

/-- `page_map_pte`. The flags the entry has had are kept. -/
def pageMapPte (pt index phys perm : Word) : K Mmu Unit := do
  assert (pt ≠ 0#32)
  assert (index < pageEntries)
  updateEntry (entryAddr pt index) (· &&& ~~~pageAlign)
  updateEntry (entryAddr pt index) (· ||| phys)
  updateEntry (entryAddr pt index) (· ||| perm)
  updateEntry (entryAddr pt index) (· ||| pageEntryPresent)

/-- The branch of `page_map` for a table that is not present. `virt_to_phys` is called twice, the
first time for a local that is not used. -/
def createTable (dirI : Word) : K Mmu Unit := do
  let pageTable ← kmallocEarlyAlign pageTableSize
  memset pageTable 0 pageTableSize.toNat
  let _ ← virtToPhys pageTable
  let phys ← virtToPhys pageTable
  let paging := (← get).paging
  store32 (entryAddr paging.pageDirectory dirI) (phys ||| pageEntryPresent ||| pageEntryRw)
  let pde ← load32 (entryAddr paging.pageDirectory dirI)
  kPrintfln (cstr "page_map: table %u created at %p (%p)") (slots [dirI, pageTable, pde])
  store32 (entryAddr paging.ptPhysToVirt dirI) pageTable

/-- `page_map`. It gives the address of the entry it has written. -/
def pageMap (virt phys perm : Word) : K Mmu Word := do
  assert (¬(virt &&& notAligned ≠ 0#32 ∨ phys &&& notAligned ≠ 0#32))
  let paging := (← get).paging
  assert (paging.pageDirectory ≠ 0#32)
  let pde ← load32 (entryAddr paging.pageDirectory (pageDirI virt))
  if pde &&& pageEntryPresent = 0#32 then createTable (pageDirI virt)
  let pageTable ← load32 (entryAddr paging.ptPhysToVirt (pageDirI virt))
  pageMapPte pageTable (pageTableI virt) phys perm
  pure (entryAddr pageTable (pageTableI virt))

def pageIdentMap (addr perm : Word) : K Mmu Word := pageMap addr addr perm

/-- The loop of `page_ident_map_range`. The code that maps a page is a parameter, so that the calls can
be told from what they do. -/
def identMapPages {σ : Type} (map : Word → Word → Word → StateT σ (Except Stop) Word) (stop perm : Word) :
    Nat → Word → StateT σ (Except Stop) Unit
  | 0, _ => throw .spin
  | fuel + 1, start =>
      if start < stop then do
        let _ ← map start start perm
        identMapPages map stop perm fuel (start + pageSize)
      else pure ()

def identMapRange {σ : Type} (map : Word → Word → Word → StateT σ (Except Stop) Word)
    (start stop perm : Word) : StateT σ (Except Stop) Unit :=
  if start < stop then identMapPages map (pageAlignUp stop) perm (2 ^ 20) start else throw .panic

def pageIdentMapRange (start stop perm : Word) : K Mmu Unit := identMapRange pageMap start stop perm

/-! ## Setting up -/

def virtBase : Word := 0xC0000000#32

/-- The loop of `init_paging` that maps the kernel. A loop that has not ended after all pages of the
address space does not end. -/
def mapKernelPages (virtEnd : Word) : Nat → Word → Word → K Mmu Unit
  | 0, _, _ => throw .spin
  | fuel + 1, virtStart, addr =>
      if virtStart < virtEnd then do
        let _ ← pageMap virtStart addr pageEntryRw
        mapKernelPages virtEnd fuel (virtStart + pageSize) (addr + pageSize)
      else pure ()

def nativeGetPageDirectory : K Mmu Word := do return (← get).mem.cr3

def nativeSetPageDirectory (phyDir : Word) : K Mmu Unit :=
  modify fun s => { s with mem := { s.mem with cr3 := phyDir } }

def nativePagingEnable : K Mmu Unit :=
  modify fun s => { s with mem := { s.mem with cr0 := s.mem.cr0 ||| 0x80000000#32 } }

/-- The first part of `init_paging`: directory and reverse mapping, both empty. -/
def initTables : K Mmu Unit := do
  let pageDirectory ← kmallocEarlyAlign pageTableSize
  modify fun s => { s with paging := { s.paging with pageDirectory := pageDirectory } }
  let ptPhysToVirt ← kmallocEarlyAlign pageTableSize
  modify fun s => { s with paging := { s.paging with ptPhysToVirt := ptPhysToVirt } }
  memset pageDirectory 0 pageTableSize.toNat
  memset ptPhysToVirt 0 pageTableSize.toNat
  let oldDir ← nativeGetPageDirectory
  let ptd ← virtToPhys pageDirectory
  kPrintf (cstr "paging: PTD at %p (old %p)\n") (slots [ptd, oldDir])

/-- The second part: the first megabyte and the kernel are mapped. -/
def mapLowAndKernel (layout : Layout) : K Mmu Unit := do
  Exec.forUp (fun i => do let _ ← pageIdentMap (BitVec.ofNat 32 i * pageSize) pageEntryRw) 0
    (pagesPerMb 1#32).toNat
  mapKernelPages (pageAlignUp layout.kernelEnd) (2 ^ 20) layout.kernelStart
    (layout.kernelStart - virtBase)

/-- The last part: the new directory takes effect. -/
def switchDirectory (layout : Layout) : K Mmu Unit := do
  isrRegisterInterruptHandler 14 layout.pageFaultHandler
  let pageDirectory := (← get).paging.pageDirectory
  let phys ← virtToPhys pageDirectory
  kPrintfln (cstr "pagedir=%p, virtpagedir=%p") (slots [phys, pageDirectory])
  let phys ← virtToPhys pageDirectory
  nativeSetPageDirectory phys
  nativePagingEnable
  modify fun s => { s with paging := { s.paging with kernelPagingEnabled := true } }

def initPaging (layout : Layout) : K Mmu Unit := do
  initTables
  mapLowAndKernel layout
  switchDirectory layout

end LizaOS
