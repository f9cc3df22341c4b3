-- SUMMARY: The boot code up to the point where paging is on: the page tables it fills, and which kernels they cover.
import LizaOS.Kernel.SeenRun
import LizaOS.Mm.PageTables

/-!
# Booting

`asm/boot.asm` up to where paging is on. It runs on physical addresses. The two mapping loops compare
addresses as signed numbers and take the index in the table modulo 1024.
-/

namespace LizaOS

open Exec

/-! ## The code -/

/-- The addresses the linker gives to the code, with what it leaves in the bytes named. -/
structure BootSymbols where
  multibootMagic : Word
  multibootInfo : Word
  earlyBssStart : Word
  earlyBssSize : Word
  pageDirectory : Word
  lowmemPt : Word
  kernelPt : Word
  earlyKernelEnd : Word
  kernelStart : Word
  kernelEnd : Word

def kernelBase : Word := 0xC0000000#32
def pageShift : Nat := 12
def pagePerm : Word := 0x3#32

/-- `or dword [a], w` -/
def orWord (a w : Word) : K Mmu Unit := do
  let e ← load32 a
  store32 a (e ||| w)

/-- `rep stosb` -/
def repStosb (edi : Word) (al : Byte) (ecx : Word) : K Mmu Unit :=
  forUp (fun i => store8 (edi + BitVec.ofNat 32 i) al) 0 ecx.toNat

/-- A mapping loop. The entry of the page at `eax` gets the address `phys eax`. A loop that has been
at every page does not end. -/
def mapLoop (table : Word) (phys : Word → Word) (stop : Word) : Nat → Word → K Mmu Unit
  | 0, _ => throw .spin
  | fuel + 1, eax => do
      let ecx := (eax >>> pageShift) &&& 0x3ff#32
      store32 (table + 4#32 * ecx) (phys eax)
      orWord (table + 4#32 * ecx) pagePerm
      let eax := eax + pageSize
      if eax.slt stop then mapLoop table phys stop fuel eax else pure ()

/-- `.lowmem` -/
def lowmem (sym : BootSymbols) : K Mmu Unit :=
  mapLoop sym.lowmemPt (fun eax => eax) sym.earlyKernelEnd (2 ^ 20) 0#32

/-- `.higher` -/
def higher (sym : BootSymbols) : K Mmu Unit :=
  mapLoop sym.kernelPt (fun eax => eax - kernelBase) sym.kernelEnd (2 ^ 20) sym.kernelStart

/-- `_start` up to where paging is on. -/
def start (sym : BootSymbols) (eax ebx : Word) : K Mmu Unit := do
  store32 sym.multibootMagic eax
  store32 sym.multibootInfo ebx
  repStosb sym.earlyBssStart 0#8 sym.earlyBssSize
  store32 sym.pageDirectory sym.lowmemPt
  orWord sym.pageDirectory pagePerm
  lowmem sym
  let edx := kernelBase >>> 22
  store32 (sym.pageDirectory + 4#32 * edx) sym.kernelPt
  orWord (sym.pageDirectory + 4#32 * edx) pagePerm
  higher sym
  modify fun s => { s with mem := { s.mem with cr3 := sym.pageDirectory } }
  modify fun s => { s with mem := { s.mem with cr0 := s.mem.cr0 ||| 0x80000000#32 } }

/-! ## Layouts -/

/-- What the linker script and the reservations of the code promise of the addresses. -/
structure BootSymbols.Linked (sym : BootSymbols) : Prop where
  end_mod : sym.earlyKernelEnd.toNat % 4096 = 0
  end_gt : 0x100000 < sym.earlyKernelEnd.toNat
  end_le : sym.earlyKernelEnd.toNat ≤ 0x400000
  start_eq : sym.kernelStart = sym.earlyKernelEnd + kernelBase
  start_le : sym.kernelStart.toNat ≤ sym.kernelEnd.toNat
  size_lt : sym.kernelEnd.toNat - sym.kernelStart.toNat < 0x300000
  -- the directory and the two tables are reserved one after the other
  dir_mod : sym.pageDirectory.toNat % 4096 = 0
  lowmemPt_eq : sym.lowmemPt = sym.pageDirectory + 0x1000#32
  kernelPt_eq : sym.kernelPt = sym.pageDirectory + 0x2000#32
  bss_low : sym.earlyBssStart.toNat ≤ sym.pageDirectory.toNat
  bss_high : sym.pageDirectory.toNat + 0x3000 ≤ sym.earlyBssStart.toNat + sym.earlyBssSize.toNat
  bss_end : sym.earlyBssStart.toNat + sym.earlyBssSize.toNat = sym.earlyKernelEnd.toNat

/-- The tables cover the low memory and the kernel. -/
structure BootCovers (sym : BootSymbols) (m : Mmu) : Prop where
  on : m.pagingOn = true
  root : m.root = sym.pageDirectory.toNat
  low : ∀ v : Word, v.toNat < sym.earlyKernelEnd.toNat →
    m.walk v = some { frame := 4096 * pageOf v, writable := true }
  /-- A page that overlaps the kernel. -/
  kernel : ∀ v : Word, v.toNat % 4096 = 0 → v.toNat < sym.kernelEnd.toNat →
    sym.kernelStart.toNat < v.toNat + 4096 →
    m.walk v = some { frame := v.toNat - 0xC0000000, writable := true }

/-! ## Runs without paging -/

section Off

variable {s : Kernel Mmu} {a w e : Word}

theorem translate_off (hoff : s.mem.pagingOn = false) (a : Word) : s.mem.translate a = .ok a.toNat := by
  rw [Mmu.translate, hoff]
  rfl

/-- Without paging every store goes through. -/
theorem store32_off (hoff : s.mem.pagingOn = false) (a w : Word) :
    ∃ phys, store32 a w none s = .ok ((), s.withPhys phys) := by
  refine ⟨(((s.mem.phys.write8 a.toNat (byteAt w 0)).write8 (a + 1#32).toNat (byteAt w 1)).write8
    (a + 2#32).toNat (byteAt w 2)).write8 (a + 3#32).toNat (byteAt w 3), ?_⟩
  simp only [store32, Bus.store32, translate_off hoff]
  rfl

theorem store32_off_run (hoff : s.mem.pagingOn = false) (ha : a.toNat + 4 ≤ 2 ^ 32) :
    store32 a w none s = .ok ((), s.withPhys (s.mem.phys.write32 a.toNat w)) := by
  have h₁ := toNat_add_ofNat (a := a) (k := 1) (by omega)
  have h₂ := toNat_add_ofNat (a := a) (k := 2) (by omega)
  have h₃ := toNat_add_ofNat (a := a) (k := 3) (by omega)
  simp only [store32, Bus.store32, translate_off hoff]
  rw [h₁, h₂, h₃]
  rfl

theorem load32_off_run (hoff : s.mem.pagingOn = false) (ha : a.toNat + 4 ≤ 2 ^ 32) :
    load32 a none s = .ok (s.mem.phys.read32 a.toNat, s) := by
  have h₁ := toNat_add_ofNat (a := a) (k := 1) (by omega)
  have h₂ := toNat_add_ofNat (a := a) (k := 2) (by omega)
  have h₃ := toNat_add_ofNat (a := a) (k := 3) (by omega)
  simp only [load32, Bus.load32, translate_off hoff]
  rw [h₁, h₂, h₃]
  rfl

theorem store8_off_run (hoff : s.mem.pagingOn = false) (a : Word) (b : Byte) :
    store8 a b none s = .ok ((), s.withPhys (s.mem.phys.write8 a.toNat b)) := by
  simp only [store8, Bus.store8, translate_off hoff]
  rfl

/-- An entry is stored, and then its flags. -/
theorem storeEntry_off (hoff : s.mem.pagingOn = false) (ha : a.toNat + 4 ≤ 2 ^ 32) (e : Word) :
    ∃ phys₁ phys₂, store32 a e none s = .ok ((), s.withPhys phys₁) ∧
      orWord a pagePerm (s.withPhys phys₁) = .ok ((), s.withPhys phys₂) ∧
      AgreeOff (InWord a.toNat) s.mem.phys phys₂ ∧ phys₂.read32 a.toNat = e ||| pagePerm := by
  have hstore := store32_off_run (w := e) hoff ha
  generalize hm : s.mem.phys.write32 a.toNat e = phys₁ at hstore
  have hload := load32_off_run (s := s.withPhys phys₁) hoff ha
  have hor := store32_off_run (s := s.withPhys phys₁) (w := phys₁.read32 a.toNat ||| pagePerm) hoff ha
  refine ⟨phys₁, phys₁.write32 a.toNat (phys₁.read32 a.toNat ||| pagePerm), hstore, ?_, ?_, ?_⟩
  · rw [orWord, bind_run hload]
    exact hor
  · rw [← hm]
    exact (AgreeOff.write32 fun k hk => inWord_add hk).trans (AgreeOff.write32 fun k hk => inWord_add hk)
  · rw [Bytes.read32_write32_same, ← hm, Bytes.read32_write32_same]

/-- `rep stosb` fills the bytes. -/
theorem repStosb_off (hoff : s.mem.pagingOn = false) {edi ecx : Word} (al : Byte)
    (hfit : edi.toNat + ecx.toNat ≤ 2 ^ 32) :
    ∃ phys, repStosb edi al ecx s = .ok ((), s.withPhys phys) ∧
      ∀ x, edi.toNat ≤ x → x < edi.toNat + ecx.toNat → phys x = al := by
  have hloop : Returns (repStosb edi al ecx) s fun _ s' => ∃ phys, s' = s.withPhys phys ∧
      ∀ x, edi.toNat ≤ x → x < edi.toNat + (0 + ecx.toNat) → phys x = al := by
    refine forUp_returns (I := fun i s' => ∃ phys, s' = s.withPhys phys ∧
      ∀ x, edi.toNat ≤ x → x < edi.toNat + i → phys x = al) ⟨s.mem.phys, rfl, fun x hx hx' => by omega⟩ ?_
    rintro i _ _ hi ⟨phys, rfl, hfilled⟩
    refine .of_eq (store8_off_run (s := s.withPhys phys) hoff _ al) ⟨_, rfl, fun x hx hx' => ?_⟩
    rw [toNat_add_ofNat (by omega)]
    by_cases heq : x = edi.toNat + i
    · rw [heq]
      exact Bytes.write8_same al
    · rw [Bytes.write8_other heq]
      exact hfilled x hx (by omega)
  obtain ⟨_, _, hrun, phys, rfl, hfilled⟩ := hloop
  exact ⟨phys, hrun, fun x hx hx' => hfilled x hx (by omega)⟩

end Off

/-! ## The mapping loops -/

section Loops

variable {table stop eax : Word} {n : Nat} {s : Kernel Mmu}

/-- The address of the entry a loop stores. -/
theorem toNat_entry (htable : table.toNat + 4096 ≤ 2 ^ 32) (eax : Word) :
    (table + 4#32 * ((eax >>> pageShift) &&& 0x3ff#32)).toNat = table.toNat + 4 * tableIndex eax := by
  have hmask : ((eax >>> pageShift) &&& 0x3ff#32).toNat = tableIndex eax := by
    rw [BitVec.toNat_and, BitVec.toNat_ushiftRight, Nat.shiftRight_eq_div_pow]
    exact Nat.and_two_pow_sub_one_eq_mod _ 10
  have hlt := tableIndex_lt eax
  have hmul : (4#32 * ((eax >>> pageShift) &&& 0x3ff#32)).toNat = 4 * tableIndex eax := by
    rw [BitVec.toNat_mul, hmask]
    exact Nat.mod_eq_of_lt (by simp only [BitVec.toNat_ofNat]; omega)
  rw [toNat_add_of_lt (by omega), hmul]

/-- The entries of `n` pages from page `p` on. -/
def Entries (table p n x : Nat) : Prop := ∃ k, k < n ∧ InWord (table + 4 * ((p + k) % 1024)) x

/-- A loop over `n` pages stores their entries. With more than 1024 pages some are overwritten. -/
theorem mapLoop_run (phys : Word → Word) (fuel : Nat) (htable : table.toNat + 4096 ≤ 2 ^ 32)
    (hoff : s.mem.pagingOn = false) (hpos : 0 < n) (hfuel : n ≤ fuel) (hfit : eax.toNat + 4096 * n < 2 ^ 32)
    (hgo : ∀ k, 0 < k → k ≤ n → (eax + BitVec.ofNat 32 (4096 * k)).slt stop = decide (k < n)) :
    ∃ m, mapLoop table phys stop fuel eax s = .ok ((), s.withPhys m) ∧
      AgreeOff (Entries table.toNat (pageOf eax) n) s.mem.phys m ∧
      (n ≤ 1024 → ∀ k, k < n → m.read32 (table.toNat + 4 * ((pageOf eax + k) % 1024)) =
        phys (eax + BitVec.ofNat 32 (4096 * k)) ||| pagePerm) := by
  induction n generalizing eax fuel s with
  | zero => omega
  | succ n ih =>
      obtain ⟨fuel, rfl⟩ : ∃ fuel', fuel = fuel' + 1 := ⟨fuel - 1, by omega⟩
      have hindex : tableIndex eax = pageOf eax % 1024 := rfl
      have hentry := toNat_entry htable eax
      have hlt := tableIndex_lt eax
      obtain ⟨m₁, m₂, hstore, hor, hagree, hread⟩ := storeEntry_off (e := phys eax) hoff
        (by rw [hentry]; omega : (table + 4#32 * ((eax >>> pageShift) &&& 0x3ff#32)).toNat + 4 ≤ 2 ^ 32)
      rw [hentry, hindex] at hagree hread
      have hstep : mapLoop table phys stop (fuel + 1) eax s =
          (if (eax + pageSize).slt stop then mapLoop table phys stop fuel (eax + pageSize) else pure ())
            (s.withPhys m₂) := by
        rw [mapLoop, bind_run hstore, bind_run hor]
      have hturn : (eax + pageSize).slt stop = decide (1 < n + 1) := hgo 1 (by omega) (by omega)
      rw [hstep, hturn]
      by_cases hn : n = 0
      · subst hn
        refine ⟨m₂, rfl, hagree.mono fun x hx => ⟨0, by omega, hx⟩, fun _ k hk => ?_⟩
        obtain rfl : k = 0 := by omega
        rw [Nat.add_zero, hread, show eax + BitVec.ofNat 32 (4096 * 0) = eax from BitVec.add_zero eax]
      · have hnext : (eax + pageSize).toNat = eax.toNat + 4096 := by
          have hsize : pageSize.toNat = 4096 := by decide
          rw [← hsize]
          exact toNat_add_of_lt (by omega)
        have hpage : pageOf (eax + pageSize) = pageOf eax + 1 := by
          unfold pageOf
          omega
        have hadd : ∀ k, eax + pageSize + BitVec.ofNat 32 (4096 * k) = eax + BitVec.ofNat 32 (4096 * (k + 1)) := by
          intro k
          rw [BitVec.add_assoc, pageSize, ← BitVec.ofNat_add, show 0x1000 + 4096 * k = 4096 * (k + 1) by omega]
        have hgo' : ∀ k, 0 < k → k ≤ n →
            (eax + pageSize + BitVec.ofNat 32 (4096 * k)).slt stop = decide (k < n) := by
          intro k hk hk'
          rw [hadd, hgo (k + 1) (by omega) (by omega)]
          simp
        obtain ⟨m, hrun, hrest, hentries⟩ :
            ∃ m, mapLoop table phys stop fuel (eax + pageSize) (s.withPhys m₂) = .ok ((), s.withPhys m) ∧ _ ∧ _ :=
          ih fuel hoff (by omega) (by omega) (by omega) hgo'
        rw [hpage] at hrest hentries
        rw [if_pos (by simpa using by omega)]
        refine ⟨m, hrun, ?_, fun hsmall k hk => ?_⟩
        · refine (hagree.mono fun x hx => ⟨0, by omega, hx⟩).trans (hrest.mono fun x hx => ?_)
          obtain ⟨k, hk, hx⟩ := hx
          exact ⟨k + 1, by omega, by rwa [show pageOf eax + (k + 1) = pageOf eax + 1 + k by omega]⟩
        · cases k with
          | zero =>
              -- the other pages have other entries
              rw [Nat.add_zero, show eax + BitVec.ofNat 32 (4096 * 0) = eax from BitVec.add_zero eax, ← hread]
              refine hrest.read32 fun j hj => ?_
              rintro ⟨k, hk, hlow, hhigh⟩
              omega
          | succ k =>
              have hlater := hentries (by omega) k (by omega)
              rw [hadd] at hlater
              rw [show pageOf eax + (k + 1) = pageOf eax + 1 + k by omega, hlater]

end Loops

/-! ## The tables of the boot code -/

/-- Addresses in one half of the address space compare as numbers do. -/
theorem slt_eq_decide {x y : Word} (h : x.toNat < 2 ^ 31 ↔ y.toNat < 2 ^ 31) :
    x.slt y = decide (x.toNat < y.toNat) := by
  have hx := x.isLt
  have hy := y.isLt
  rw [BitVec.slt, decide_eq_decide, BitVec.toInt_eq_toNat_cond, BitVec.toInt_eq_toNat_cond]
  split <;> split <;> omega

/-- What the boot code has put in the directory and the tables. -/
structure BootFilled (sym : BootSymbols) (m : Bytes) : Prop where
  lowPde : pdeOf m sym.pageDirectory.toNat 0 = sym.lowmemPt ||| pagePerm
  kernelPde : pdeOf m sym.pageDirectory.toNat 768 = sym.kernelPt ||| pagePerm
  nextPde : pdeOf m sym.pageDirectory.toNat 769 = 0#32
  lowPte : ∀ k, 4096 * k < sym.earlyKernelEnd.toNat →
    m.read32 (sym.pageDirectory.toNat + 0x1000 + 4 * k) = BitVec.ofNat 32 (4096 * k) ||| pagePerm
  kernelPte : ∀ k, sym.kernelStart.toNat + 4096 * k < sym.kernelEnd.toNat →
    m.read32 (sym.pageDirectory.toNat + 0x2000 + 4 * ((pageOf sym.kernelStart + k) % 1024)) =
      (sym.kernelStart + BitVec.ofNat 32 (4096 * k) - kernelBase) ||| pagePerm

section Boot

variable {sym : BootSymbols} {s : Kernel Mmu}

namespace BootSymbols.Linked

theorem kernelStart_toNat (h : sym.Linked) :
    sym.kernelStart.toNat = sym.earlyKernelEnd.toNat + 0xC0000000 := by
  have hle := h.end_le
  have hbase : kernelBase.toNat = 0xC0000000 := by decide
  rw [h.start_eq, ← hbase]
  exact toNat_add_of_lt (by omega)

theorem tables_toNat (h : sym.Linked) :
    sym.lowmemPt.toNat = sym.pageDirectory.toNat + 0x1000 ∧
      sym.kernelPt.toNat = sym.pageDirectory.toNat + 0x2000 ∧ sym.pageDirectory.toNat + 0x3000 ≤ 0x400000 := by
  have hle := h.end_le
  have hhigh := h.bss_high
  have hend := h.bss_end
  have hlow : (0x1000#32).toNat = 0x1000 := by decide
  have hkernel : (0x2000#32).toNat = 0x2000 := by decide
  refine ⟨?_, ?_, by omega⟩
  · rw [h.lowmemPt_eq, toNat_add_of_lt (by omega), hlow]
  · rw [h.kernelPt_eq, toNat_add_of_lt (by omega), hkernel]

end BootSymbols.Linked

theorem lowmem_run (h : sym.Linked) (hoff : s.mem.pagingOn = false) :
    ∃ m, lowmem sym s = .ok ((), s.withPhys m) ∧
      AgreeOff (InFrame (sym.pageDirectory.toNat + 0x1000)) s.mem.phys m ∧
      ∀ k, 4096 * k < sym.earlyKernelEnd.toNat →
        m.read32 (sym.pageDirectory.toNat + 0x1000 + 4 * k) = BitVec.ofNat 32 (4096 * k) ||| pagePerm := by
  have hmod := h.end_mod
  have hgt := h.end_gt
  have hle := h.end_le
  obtain ⟨htable, _, hfit⟩ := h.tables_toNat
  have hgo : ∀ k, 0 < k → k ≤ sym.earlyKernelEnd.toNat / 4096 →
      (0#32 + BitVec.ofNat 32 (4096 * k)).slt sym.earlyKernelEnd =
        decide (k < sym.earlyKernelEnd.toNat / 4096) := by
    intro k _ hk
    have hvalue : (0#32 + BitVec.ofNat 32 (4096 * k)).toNat = 4096 * k := by
      rw [BitVec.zero_add, BitVec.toNat_ofNat]
      exact Nat.mod_eq_of_lt (by omega)
    rw [slt_eq_decide (by rw [hvalue]; omega), hvalue, decide_eq_decide]
    omega
  have hzero : (0#32).toNat = 0 := rfl
  obtain ⟨m, hrun, hagree, hentries⟩ := mapLoop_run (fun eax => eax) (2 ^ 20)
    (by omega : sym.lowmemPt.toNat + 4096 ≤ 2 ^ 32) hoff (by omega) (by omega) (by omega) hgo
  rw [htable] at hagree hentries
  refine ⟨m, hrun, hagree.mono fun x hx => ?_, fun k hk => ?_⟩
  · obtain ⟨k, _, hlow, hhigh⟩ := hx
    unfold InFrame
    omega
  · have hentry := hentries (by omega) k (by omega)
    have hpage : (pageOf 0#32 + k) % 1024 = k := by
      rw [show pageOf 0#32 = 0 from rfl]
      omega
    rwa [hpage, BitVec.zero_add] at hentry

theorem higher_run (h : sym.Linked) (hoff : s.mem.pagingOn = false) :
    ∃ m, higher sym s = .ok ((), s.withPhys m) ∧
      AgreeOff (InFrame (sym.pageDirectory.toNat + 0x2000)) s.mem.phys m ∧
      ∀ k, sym.kernelStart.toNat + 4096 * k < sym.kernelEnd.toNat →
        m.read32 (sym.pageDirectory.toNat + 0x2000 + 4 * ((pageOf sym.kernelStart + k) % 1024)) =
          (sym.kernelStart + BitVec.ofNat 32 (4096 * k) - kernelBase) ||| pagePerm := by
  have hle := h.end_le
  have hstart := h.kernelStart_toNat
  have horder := h.start_le
  have hsize := h.size_lt
  obtain ⟨_, htable, hfit⟩ := h.tables_toNat
  -- the loop makes one turn for an empty kernel, too
  let n := max 1 ((sym.kernelEnd.toNat - sym.kernelStart.toNat + 4095) / 4096)
  have hgo : ∀ k, 0 < k → k ≤ n →
      (sym.kernelStart + BitVec.ofNat 32 (4096 * k)).slt sym.kernelEnd = decide (k < n) := by
    intro k _ hk
    have hvalue : (sym.kernelStart + BitVec.ofNat 32 (4096 * k)).toNat = sym.kernelStart.toNat + 4096 * k :=
      toNat_add_ofNat (by omega)
    rw [slt_eq_decide (by rw [hvalue]; omega), hvalue, decide_eq_decide]
    omega
  obtain ⟨m, hrun, hagree, hentries⟩ := mapLoop_run (fun eax => eax - kernelBase) (2 ^ 20)
    (by omega : sym.kernelPt.toNat + 4096 ≤ 2 ^ 32) hoff (by omega) (by omega) (by omega) hgo
  rw [htable] at hagree hentries
  refine ⟨m, hrun, hagree.mono fun x hx => ?_, fun k hk => hentries (by omega) k (by omega)⟩
  obtain ⟨k, _, hlow, hhigh⟩ := hx
  unfold InFrame
  omega

/-- What `_start` leaves when paging is on. -/
theorem start_run (h : sym.Linked) (hoff : s.mem.pagingOn = false) (eax ebx : Word) :
    ∃ s' m, start sym eax ebx s = .ok ((), s') ∧ BootFilled sym m ∧
      s' = { s with mem := { phys := m, cr0 := s.mem.cr0 ||| 0x80000000#32, cr3 := sym.pageDirectory } } := by
  have hle := h.end_le
  have hlow := h.bss_low
  have hhigh := h.bss_high
  have hend := h.bss_end
  obtain ⟨_, _, hfit⟩ := h.tables_toNat
  obtain ⟨p₁, hmagic⟩ := store32_off hoff sym.multibootMagic eax
  obtain ⟨p₂, hinfo⟩ := store32_off (s := s.withPhys p₁) hoff sym.multibootInfo ebx
  obtain ⟨m₀, hclear, hzero⟩ := repStosb_off (s := s.withPhys p₂) hoff 0#8
    (by omega : sym.earlyBssStart.toNat + sym.earlyBssSize.toNat ≤ 2 ^ 32)
  obtain ⟨m₁, m₂, hpde, hpde', hagree₂, hread₂⟩ := storeEntry_off (s := s.withPhys m₀) hoff
    (by omega : sym.pageDirectory.toNat + 4 ≤ 2 ^ 32) sym.lowmemPt
  obtain ⟨m₃, hlowmem, hagree₃, hread₃⟩ := lowmem_run (s := s.withPhys m₂) h hoff
  have hslot : (sym.pageDirectory + 4#32 * (kernelBase >>> 22)).toNat = sym.pageDirectory.toNat + 4 * 768 := by
    have hindex : (4#32 * (kernelBase >>> 22)).toNat = 4 * 768 := by decide
    rw [toNat_add_of_lt (by omega), hindex]
  obtain ⟨m₄, m₅, hkpde, hkpde', hagree₅, hread₅⟩ := storeEntry_off (s := s.withPhys m₃) hoff
    (by omega : (sym.pageDirectory + 4#32 * (kernelBase >>> 22)).toNat + 4 ≤ 2 ^ 32) sym.kernelPt
  obtain ⟨m₆, hhigher, hagree₆, hread₆⟩ := higher_run (s := s.withPhys m₅) h hoff
  rw [hslot] at hagree₅ hread₅
  -- a word outside what is stored from some point on is what it was then
  have hpast₅ : ∀ p, p + 4 ≤ sym.pageDirectory.toNat + 0x2000 → m₆.read32 p = m₅.read32 p := fun p hp =>
    hagree₆.read32 fun k hk hx => by unfold InFrame at hx; omega
  have hpast₃ : ∀ p, p + 4 ≤ sym.pageDirectory.toNat + 0x2000 →
      (p + 4 ≤ sym.pageDirectory.toNat + 4 * 768 ∨ sym.pageDirectory.toNat + 4 * 769 ≤ p) →
      m₆.read32 p = m₃.read32 p := fun p hp hp' =>
    (hpast₅ p hp).trans (hagree₅.read32 fun k hk hx => by unfold InWord at hx; omega)
  have hpast₂ : ∀ p, p + 4 ≤ sym.pageDirectory.toNat + 0x1000 →
      (p + 4 ≤ sym.pageDirectory.toNat + 4 * 768 ∨ sym.pageDirectory.toNat + 4 * 769 ≤ p) →
      m₆.read32 p = m₂.read32 p := fun p hp hp' =>
    (hpast₃ p (by omega) hp').trans (hagree₃.read32 fun k hk hx => by unfold InFrame at hx; omega)
  refine ⟨{ s with mem := { phys := m₆, cr0 := s.mem.cr0 ||| 0x80000000#32, cr3 := sym.pageDirectory } }, m₆,
    ?_, ⟨?_, ?_, ?_, ?_, hread₆⟩, rfl⟩
  · exact (bind_run hmagic).trans ((bind_run hinfo).trans ((bind_run hclear).trans ((bind_run hpde).trans
      ((bind_run hpde').trans ((bind_run hlowmem).trans ((bind_run hkpde).trans ((bind_run hkpde').trans
        ((bind_run hhigher).trans rfl))))))))
  · rw [pdeOf, hpast₂ _ (by omega) (by omega)]
    exact hread₂
  · rw [pdeOf, hpast₅ _ (by omega), hread₅]
  · rw [pdeOf, hpast₂ _ (by omega) (by omega), hagree₂.read32 fun k hk hx => by unfold InWord at hx; omega]
    exact Bytes.read32_zero fun k hk => hzero _ (by omega) (by omega)
  · intro k hk
    rw [hpast₃ _ (by omega) (by omega)]
    exact hread₃ k hk

/-! ## The walk after booting -/

/-- An entry of the boot code. -/
theorem bootEntry {e : Word} (h : e.toNat % 4096 = 0) :
    Entry.present (e ||| pagePerm) = true ∧ Entry.writable (e ||| pagePerm) = true ∧
      Entry.frame (e ||| pagePerm) = e.toNat := by
  have hpresent : Entry.present pagePerm = true := by decide
  have hwritable : Entry.writable pagePerm = true := by decide
  refine ⟨?_, ?_, ?_⟩
  · rw [Entry.present_or, hpresent, Bool.or_true]
  · rw [Entry.writable_or, hwritable, Bool.or_true]
  · rw [Entry.frame_or_flags (by decide), Entry.frame_of_aligned h]

/-- A page whose two entries are the boot code's is mapped. -/
theorem lookup_boot {m : Bytes} {root : Nat} {v table page : Word} (htable : table.toNat % 4096 = 0)
    (hpage : page.toNat % 4096 = 0) (hpde : pdeOf m root (dirIndex v) = table ||| pagePerm)
    (hpte : m.read32 (table.toNat + 4 * tableIndex v) = page ||| pagePerm) :
    lookup m root v = some { frame := page.toNat, writable := true } := by
  obtain ⟨hpresent, hwritable, hframe⟩ := bootEntry htable
  obtain ⟨hpresent', hwritable', hframe'⟩ := bootEntry hpage
  have hentry : pteOf m (table ||| pagePerm) (tableIndex v) = page ||| pagePerm := by
    rw [pteOf, hframe, hpte]
  rw [lookup, hpde, hentry, leafOf_some hpresent hpresent', hframe', hwritable, hwritable']
  rfl

namespace BootFilled

variable {m : Bytes} {v : Word}

theorem lookup_low (h : sym.Linked) (hm : BootFilled sym m) (hv : v.toNat < sym.earlyKernelEnd.toNat) :
    lookup m sym.pageDirectory.toNat v = some { frame := 4096 * pageOf v, writable := true } := by
  have hle := h.end_le
  have hmod := h.dir_mod
  obtain ⟨htable, _, _⟩ := h.tables_toNat
  have hdir : dirIndex v = 0 := by
    unfold dirIndex
    omega
  have hindex : tableIndex v = pageOf v := by
    unfold tableIndex pageOf
    omega
  have hpage : (BitVec.ofNat 32 (4096 * pageOf v)).toNat = 4096 * pageOf v := by
    rw [BitVec.toNat_ofNat]
    unfold pageOf
    omega
  have hpte := hm.lowPte (pageOf v) (by unfold pageOf; omega)
  have hpde := hm.lowPde
  rw [← hdir] at hpde
  have hpte' : m.read32 (sym.lowmemPt.toNat + 4 * tableIndex v) =
      BitVec.ofNat 32 (4096 * pageOf v) ||| pagePerm := by rw [htable, hindex, hpte]
  rw [lookup_boot (by omega) (by omega) hpde hpte', hpage]

theorem lookup_kernel (h : sym.Linked) (hm : BootFilled sym m) (hend : sym.kernelEnd.toNat ≤ 0xC0400000)
    (hv : v.toNat % 4096 = 0) (hlow : sym.kernelStart.toNat < v.toNat + 4096)
    (hhigh : v.toNat < sym.kernelEnd.toNat) :
    lookup m sym.pageDirectory.toNat v = some { frame := v.toNat - 0xC0000000, writable := true } := by
  have hle := h.end_le
  have hmod := h.dir_mod
  have hemod := h.end_mod
  have hstart := h.kernelStart_toNat
  obtain ⟨_, htable, _⟩ := h.tables_toNat
  have hdir : dirIndex v = 768 := by
    unfold dirIndex
    omega
  obtain ⟨k, hk⟩ : ∃ k, v.toNat = sym.kernelStart.toNat + 4096 * k :=
    ⟨(v.toNat - sym.kernelStart.toNat) / 4096, by omega⟩
  have hindex : (pageOf sym.kernelStart + k) % 1024 = tableIndex v := by
    unfold pageOf tableIndex
    omega
  have hpage : sym.kernelStart + BitVec.ofNat 32 (4096 * k) = v := by
    apply BitVec.eq_of_toNat_eq
    rw [toNat_add_ofNat (by omega), hk]
  have hframe : (v - kernelBase).toNat = v.toNat - 0xC0000000 := toNat_sub_virtBase (by omega)
  have hpte := hm.kernelPte k (by omega)
  rw [hindex, hpage, ← htable] at hpte
  rw [lookup_boot (by omega) (by omega) (hdir ▸ hm.kernelPde) hpte, hframe]

/-- No page behind the first four megabytes of the upper half is mapped. -/
theorem lookup_next (hm : BootFilled sym m) (hv : dirIndex v = 769) :
    lookup m sym.pageDirectory.toNat v = none := by
  have hpde := hm.nextPde
  rw [← hv] at hpde
  rw [lookup, hpde]
  exact leafOf_none (by decide)

end BootFilled

/-- The tables do not cover a kernel that ends behind the first four megabytes of the upper half. -/
theorem not_bootCovers {m : Mmu} (h : sym.Linked) (hm : BootFilled sym m.phys)
    (hend : 0xC0400000 < sym.kernelEnd.toNat) : ¬BootCovers sym m := by
  intro hcovers
  have hstart := h.kernelStart_toNat
  have hle := h.end_le
  have hpage : (0xC0400000#32).toNat = 0xC0400000 := by decide
  have hmapped := hcovers.kernel 0xC0400000#32 (by decide) (by omega) (by omega)
  rw [Mmu.walk, hcovers.root, hm.lookup_next (by decide)] at hmapped
  cases hmapped

/-- The boot code comes to where paging is on, and its tables then cover the kernel exactly if the
kernel ends in the first four megabytes of the upper half. -/
theorem start_covers_iff (h : sym.Linked) (hoff : s.mem.pagingOn = false) (eax ebx : Word) :
    Returns (start sym eax ebx) s (fun _ s' => BootCovers sym s'.mem) ↔ sym.kernelEnd.toNat ≤ 0xC0400000 := by
  obtain ⟨s', m, hrun, hm, hmem⟩ := start_run h hoff eax ebx
  have hphys : s'.mem.phys = m := by rw [hmem]
  constructor
  · rintro ⟨_, s'', hrun', hcovers⟩
    obtain rfl : s' = s'' := (Prod.mk.inj (Except.ok.inj (hrun.symm.trans hrun'))).2
    exact Nat.le_of_not_lt fun hlt => not_bootCovers h (hphys.symm ▸ hm) hlt hcovers
  · intro hend
    have hroot : s'.mem.root = sym.pageDirectory.toNat := by
      rw [hmem]
      exact Entry.frame_of_aligned h.dir_mod
    have hwalk : ∀ v, s'.mem.walk v = lookup m sym.pageDirectory.toNat v := fun v => by
      rw [Mmu.walk, hroot, hphys]
    refine .of_eq hrun ⟨?_, hroot, fun v hv => ?_, fun v hv hhigh hlow => ?_⟩
    · rw [hmem, Mmu.pagingOn]
      simp
    · rw [hwalk, BootFilled.lookup_low h hm hv]
    · rw [hwalk, BootFilled.lookup_kernel h hm hend hv hlow hhigh]

/-- A layout with one page for each early section in front of the tables. -/
def bootSymbols (kernelEnd : Word) : BootSymbols where
  multibootMagic := 0x102000#32
  multibootInfo := 0x102004#32
  earlyBssStart := 0x103000#32
  earlyBssSize := 0x3000#32
  pageDirectory := 0x103000#32
  lowmemPt := 0x104000#32
  kernelPt := 0x105000#32
  earlyKernelEnd := 0x106000#32
  kernelStart := 0xC0106000#32
  kernelEnd := kernelEnd

theorem bootSymbols_linked {kernelEnd : Word} (hlow : 0xC0106000 ≤ kernelEnd.toNat)
    (hhigh : kernelEnd.toNat < 0xC0406000) : (bootSymbols kernelEnd).Linked := by
  have hend : (0x106000#32).toNat = 0x106000 := by decide
  have hstart : (0xC0106000#32).toNat = 0xC0106000 := by decide
  have hbss : (0x103000#32).toNat = 0x103000 := by decide
  have hsize : (0x3000#32).toNat = 0x3000 := by decide
  constructor <;> simp only [bootSymbols, hend, hstart, hbss, hsize] <;> first | omega | decide

/-- The machine as the boot loader leaves it. -/
def loaded : Kernel Mmu := .reset { phys := fun _ => 0, cr0 := 0x11#32, cr3 := 0#32 }

/-- A kernel of two megabytes. -/
theorem start_covers_iff_present :
    Returns (start (bootSymbols 0xC0306000#32) 0x2BADB002#32 0x9500#32) loaded
        (fun _ s' => BootCovers (bootSymbols 0xC0306000#32) s'.mem) ↔
      (bootSymbols 0xC0306000#32).kernelEnd.toNat ≤ 0xC0400000 :=
  start_covers_iff (bootSymbols_linked (by decide) (by decide)) rfl 0x2BADB002#32 0x9500#32

/-- A kernel one page short of three megabytes passes the linker's assertion, and its last five pages
are not mapped. -/
theorem not_start_covers_large :
    (bootSymbols 0xC0405000#32).Linked ∧
      ¬Returns (start (bootSymbols 0xC0405000#32) 0x2BADB002#32 0x9500#32) loaded
        (fun _ s' => BootCovers (bootSymbols 0xC0405000#32) s'.mem) := by
  have hlinked : (bootSymbols 0xC0405000#32).Linked := bootSymbols_linked (by decide) (by decide)
  refine ⟨hlinked, ?_⟩
  obtain ⟨s', m, hrun, hm, hmem⟩ := start_run hlinked (s := loaded) rfl 0x2BADB002#32 0x9500#32
  have hphys : s'.mem.phys = m := by rw [hmem]
  rintro ⟨_, s'', hrun', hcovers⟩
  obtain rfl : s' = s'' := (Prod.mk.inj (Except.ok.inj (hrun.symm.trans hrun'))).2
  exact not_bootCovers hlinked (hphys.symm ▸ hm) (by decide) hcovers

end Boot

end LizaOS
