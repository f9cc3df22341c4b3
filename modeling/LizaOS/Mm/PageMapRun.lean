-- SUMMARY: One run of page_map and of the code it calls, through whatever address space the kernel is in.
import LizaOS.Kernel.SeenRun
import LizaOS.Libc.Console
import LizaOS.Mm.EarlyHeap
import LizaOS.Mm.PageTables

/-!
# Runs of page_map

`page_map` works on the tables through the kernel's own pages. Its runs are given here for any address
space in which the pages it goes through are seen; the boot tables are one, and the tables it works on
are another.
-/

namespace LizaOS

open Exec

/-! ## Indices -/

theorem pageDirI_toNat (v : Word) : (pageDirI v).toNat = dirIndex v := by
  have hv := v.isLt
  have hsize : pageSize.toNat = 4096 := by decide
  have hentries : (1024#32).toNat = 1024 := by decide
  rw [pageDirI, BitVec.toNat_umod, BitVec.toNat_udiv, BitVec.toNat_udiv, hsize, hentries]
  unfold dirIndex
  omega

theorem pageTableI_toNat (v : Word) : (pageTableI v).toNat = tableIndex v := by
  have hsize : pageSize.toNat = 4096 := by decide
  have hentries : (1024#32).toNat = 1024 := by decide
  rw [pageTableI, BitVec.toNat_umod, BitVec.toNat_udiv, hsize, hentries]
  rfl

section Entry

variable {s : Kernel Mmu} {A : Nat → Prop} {t index w : Word} {f : Nat}

theorem entryAddr_toNat (ht : t.toNat % 4096 = 0) (hi : index.toNat < 1024) :
    (entryAddr t index).toNat = t.toNat + 4 * index.toNat := by
  have hlt := t.isLt
  have hmul : (4#32 * index).toNat = 4 * index.toNat := by
    rw [BitVec.toNat_mul, BitVec.toNat_ofNat]
    omega
  rw [entryAddr, toNat_add_of_lt (by omega), hmul]

/-- An entry is in the page of its table. -/
theorem pageOf_entryAddr (ht : t.toNat % 4096 = 0) (hi : index.toNat < 1024) :
    pageOf (entryAddr t index) = pageOf t := by
  have h := entryAddr_toNat ht hi
  unfold pageOf
  omega

theorem load32_entry (h : s.mem.Seen A t f) (ht : t.toNat % 4096 = 0) (hi : index.toNat < 1024) :
    load32 (entryAddr t index) none s = .ok (s.mem.phys.read32 (f + 4 * index.toNat), s) := by
  have haddr := entryAddr_toNat ht hi
  have hoff : (entryAddr t index).toNat % 4096 = 4 * index.toNat := by omega
  rw [load32_seen (h.congr (pageOf_entryAddr ht hi)) (by omega), hoff]

/-- The entry of an address in a directory. -/
theorem load32_dirEntry (h : s.mem.Seen A t f) (ht : t.toNat % 4096 = 0) (v : Word) :
    load32 (entryAddr t (pageDirI v)) none s = .ok (s.mem.phys.read32 (f + 4 * dirIndex v), s) := by
  rw [← pageDirI_toNat]
  exact load32_entry h ht (by rw [pageDirI_toNat]; exact dirIndex_lt v)

/-- The entry of an address in a table. -/
theorem load32_tableEntry (h : s.mem.Seen A t f) (ht : t.toNat % 4096 = 0) (v : Word) :
    load32 (entryAddr t (pageTableI v)) none s = .ok (s.mem.phys.read32 (f + 4 * tableIndex v), s) := by
  rw [← pageTableI_toNat]
  exact load32_entry h ht (by rw [pageTableI_toNat]; exact tableIndex_lt v)

theorem store32_entry (h : s.mem.Seen A t f) (ht : t.toNat % 4096 = 0) (hi : index.toNat < 1024)
    (w : Word) :
    store32 (entryAddr t index) w none s =
      .ok ((), s.withPhys (s.mem.phys.write32 (f + 4 * index.toNat) w)) := by
  have haddr := entryAddr_toNat ht hi
  have hoff : (entryAddr t index).toNat % 4096 = 4 * index.toNat := by omega
  rw [store32_seen (h.congr (pageOf_entryAddr ht hi)) (by omega), hoff]

theorem updateEntry_run (h : s.mem.Seen A t f) (ht : t.toNat % 4096 = 0) (hi : index.toNat < 1024)
    (g : Word → Word) :
    updateEntry (entryAddr t index) g s = .ok ((), s.withPhys
      (s.mem.phys.write32 (f + 4 * index.toNat) (g (s.mem.phys.read32 (f + 4 * index.toNat))))) := by
  rw [updateEntry, bind_run (load32_entry h ht hi)]
  exact store32_entry h ht hi _

/-- The entry at `p` has been mapped to `phys`. -/
structure PteStored (m m' : Bytes) (p : Nat) (phys perm : Word) : Prop where
  agree : AgreeOff (InWord p) m m'
  read : m'.read32 p = mappedEntry (m.read32 p) phys perm

/-- `page_map_pte` rewrites the entry in four steps. -/
theorem pageMapPte_run (h : s.mem.Seen (InWord (f + 4 * index.toNat)) t f) (ht : t.toNat % 4096 = 0)
    (hne : t ≠ 0#32) (hi : index.toNat < 1024) (phys perm : Word) :
    ∃ m, pageMapPte t index phys perm s = .ok ((), s.withPhys m) ∧
      PteStored s.mem.phys m (f + 4 * index.toNat) phys perm := by
  have hindex : index < pageEntries := BitVec.lt_def.mpr hi
  have hword : ∀ (m : Bytes) (w : Word),
      AgreeOff (InWord (f + 4 * index.toNat)) m (m.write32 (f + 4 * index.toNat) w) :=
    fun m w => AgreeOff.write32 fun k hk => inWord_add hk
  have hstep : ∀ (m : Bytes), AgreeOff (InWord (f + 4 * index.toNat)) s.mem.phys m → ∀ g : Word → Word,
      updateEntry (entryAddr t index) g (s.withPhys m) = .ok ((), s.withPhys
        (m.write32 (f + 4 * index.toNat) (g (m.read32 (f + 4 * index.toNat))))) := fun m hm g =>
    updateEntry_run (s := s.withPhys m) (h.agree hm) ht hi g
  have h₁ := hstep s.mem.phys (.refl _) (· &&& ~~~pageAlign)
  have hm₁ := hword s.mem.phys (s.mem.phys.read32 (f + 4 * index.toNat) &&& ~~~pageAlign)
  generalize hw₁ : s.mem.phys.write32 (f + 4 * index.toNat) _ = m₁ at h₁ hm₁
  have h₂ := hstep m₁ hm₁ (· ||| phys)
  have hm₂ := hm₁.trans (hword m₁ (m₁.read32 (f + 4 * index.toNat) ||| phys))
  generalize hw₂ : m₁.write32 (f + 4 * index.toNat) _ = m₂ at h₂ hm₂
  have h₃ := hstep m₂ hm₂ (· ||| perm)
  have hm₃ := hm₂.trans (hword m₂ (m₂.read32 (f + 4 * index.toNat) ||| perm))
  generalize hw₃ : m₂.write32 (f + 4 * index.toNat) _ = m₃ at h₃ hm₃
  have h₄ := hstep m₃ hm₃ (· ||| pageEntryPresent)
  have hm₄ := hm₃.trans (hword m₃ (m₃.read32 (f + 4 * index.toNat) ||| pageEntryPresent))
  refine ⟨_, ?_, hm₄, ?_⟩
  · rw [pageMapPte, bind_run (assert_true hne), bind_run (assert_true hindex)]
    exact (bind_run h₁).trans ((bind_run h₂).trans ((bind_run h₃).trans h₄))
  · rw [Bytes.read32_write32_same, ← hw₃, Bytes.read32_write32_same, ← hw₂, Bytes.read32_write32_same,
      ← hw₁, Bytes.read32_write32_same]
    rfl

end Entry

/-! ## The rest of the kernel's globals -/

theorem updateEntry_around (entry : Word) (g : Word → Word) : Respects Around (updateEntry entry g) :=
  (Around.load32 entry).bind fun _ => Around.store32 entry _

theorem pageMapPte_around (pt index phys perm : Word) : Respects Around (pageMapPte pt index phys perm) :=
  (Around.assert _).bind fun _ => (Around.assert _).bind fun _ => (updateEntry_around _ _).bind fun _ =>
    (updateEntry_around _ _).bind fun _ => (updateEntry_around _ _).bind fun _ => updateEntry_around _ _

theorem virtToPhys_around (v : Word) : Respects Around (virtToPhys v) := by
  have hpde : Respects Around (virtToPhysPde (pageDirI v)) := by
    refine Respects.get.bind fun s => .ite ?_ ?_
    · exact (Around.load32 _).bind fun _ => (Around.load32 _).bind fun _ => .pure _
    · exact Respects.get.bind fun s => (Around.load32 _).bind fun _ => .ite Around.panic (.pure _)
  exact hpde.bind fun _ => (Around.assert _).bind fun _ => (Around.load32 _).bind fun _ =>
    (Around.assert _).bind fun _ => (Around.load32 _).bind fun _ => .pure _

theorem memset_around (dst : Word) (c : Byte) (n : Nat) : Respects Around (memset dst c n : K Mmu Unit) :=
  .forUp (fun _ => Around.store8 _ c) 0 n

/-- `page_map` behind the allocation of a table. -/
theorem fillTable_around (dirI pageTable : Word) : Respects Around (do
    memset pageTable 0 pageTableSize.toNat
    let _ ← virtToPhys pageTable
    let phys ← virtToPhys pageTable
    let paging := (← get).paging
    store32 (entryAddr paging.pageDirectory dirI) (phys ||| pageEntryPresent ||| pageEntryRw)
    let pde ← load32 (entryAddr paging.pageDirectory dirI)
    kPrintfln (cstr "page_map: table %u created at %p (%p)") (slots [dirI, pageTable, pde])
    store32 (entryAddr paging.ptPhysToVirt dirI) pageTable : K Mmu Unit) :=
  (memset_around pageTable 0 _).bind fun _ => (virtToPhys_around pageTable).bind fun _ =>
    (virtToPhys_around pageTable).bind fun _ => Respects.get.bind fun _ => (Around.store32 _ _).bind fun _ =>
      (Around.load32 _).bind fun _ => (kPrintfln_around _ _).bind fun _ => Around.store32 _ _

/-- `page_map` behind the test for a table. -/
theorem storeMapping_around (virt phys perm rev : Word) : Respects Around (do
    let pageTable ← load32 (entryAddr rev (pageDirI virt))
    pageMapPte pageTable (pageTableI virt) phys perm
    pure (entryAddr pageTable (pageTableI virt)) : K Mmu Word) :=
  (Around.load32 _).bind fun _ => (pageMapPte_around _ _ _ _).bind fun _ => .pure _

/-! ## Making a table -/

theorem shortFormat_table (i t pde : Word) :
    ShortFormat (cstr "page_map: table %u created at %p (%p)") (slots [i, t, pde]) :=
  ⟨rfl, by decide, by decide⟩

/-- While a table at `t` is made for index `i`, the kernel reaches the directory, the reverse mapping,
the new page and the screen, and finds the frame of the new page. -/
structure TableView (s : Kernel Mmu) (i : Nat) (t : Word) (f₀ f₁ : Nat) : Prop where
  dir : s.mem.Seen (TableStores s.paging i (physOf t) (ScreenFrames f₀ f₁)) s.paging.pageDirectory
    (physOf s.paging.pageDirectory)
  rev : s.mem.Seen (TableStores s.paging i (physOf t) (ScreenFrames f₀ f₁)) s.paging.ptPhysToVirt
    (physOf s.paging.ptPhysToVirt)
  new : s.mem.Seen (TableStores s.paging i (physOf t) (ScreenFrames f₀ f₁)) t (physOf t)
  screen : ScreenSeen s.mem (TableStores s.paging i (physOf t) (ScreenFrames f₀ f₁)) f₀ f₁
  translate : ∀ phys, AgreeOff (InFrame (physOf t)) s.mem.phys phys →
    virtToPhys t (s.withPhys phys) = .ok (t - virtBase, s.withPhys phys)

section CreateTable

variable {s : Kernel Mmu} {a' : Alloc} {dirI t : Word} {i cur f₀ f₁ slack : Nat}

/-- Up to the line it prints, the new page is cleared and the directory names it. -/
structure TableBegun (m m' : Bytes) (paging : Paging) (i : Nat) (t : Word) : Prop where
  agree : AgreeOff (fun x => InFrame (physOf t) x ∨ InWord (physOf paging.pageDirectory + 4 * i) x) m m'
  zero : ∀ x, InFrame (physOf t) x → m' x = 0#8
  dir : dirOf m' paging i = tableEntry t

/-- The line about a new table. -/
def tableLine (dirI t : Word) : K Mmu Unit :=
  kPrintfln (cstr "page_map: table %u created at %p (%p)") (slots [dirI, t, tableEntry t])

/-- `page_map` makes an empty table, prints a line, and stores the address of the table. -/
theorem createTable_run (halloc : Alloc.kmallocEarlyAlign pageTableSize s.alloc = .ok (t, a'))
    (hview : TableView { s with alloc := a' } i t f₀ f₁) (htables : Tables s.mem.phys s.paging cur)
    (hroom : TableSpace s.mem.phys s.paging cur i t (ScreenFrames f₀ f₁)) (hindex : dirI.toNat = i)
    (hready : s.vga.Ready slack) (hslack : slack ≤ 1600) :
    ∃ m₃ m₄ ports vga, TableBegun s.mem.phys m₃ s.paging i t ∧
      tableLine dirI t { s with mem := s.mem.withPhys m₃, alloc := a' } =
        .ok ((), { s with mem := s.mem.withPhys m₄, alloc := a', ports := ports, vga := vga }) ∧
      AgreeOff (ScreenFrames f₀ f₁) m₃ m₄ ∧ vga.LineStart ∧ s.vga.y.toNat ≤ vga.y.toNat ∧
      createTable dirI s = .ok ((), { s with
        mem := s.mem.withPhys (m₄.write32 (physOf s.paging.ptPhysToVirt + 4 * i) t)
        alloc := a', ports := ports, vga := vga }) := by
  subst hindex
  have hlt := hroom.index
  have htmod := hroom.mod
  have hframe := hroom.frame
  have hdirmod := htables.dir_mod
  have hreveq := htables.rev_eq
  have hrevmod : s.paging.ptPhysToVirt.toNat % 4096 = 0 := by omega
  let A : Nat → Prop := TableStores s.paging dirI.toNat (physOf t) (ScreenFrames f₀ f₁)
  let s₁ : Kernel Mmu := { s with alloc := a' }
  have hmalloc : kmallocEarlyAlign pageTableSize s = .ok (t, s₁) := by
    rw [kmallocEarlyAlign, onAlloc, halloc]
    rfl
  -- the page is cleared
  obtain ⟨_, _, hclear, m₂, rfl, hm₂, hzero₂⟩ := memset_seen (s := s₁) hview.new htmod (fun x hx => .inl hx) 0#8
  have htranslate := hview.translate m₂ hm₂
  have hA₂ : AgreeOff A s.mem.phys m₂ := hm₂.mono fun x hx => .inl hx
  -- the directory gets its entry
  have hstore := store32_entry (s := s₁.withPhys m₂) (hview.dir.agree hA₂) hdirmod hlt (tableEntry t)
  have hm₃ : AgreeOff (InWord (physOf s.paging.pageDirectory + 4 * dirI.toNat)) m₂
      (m₂.write32 (physOf s.paging.pageDirectory + 4 * dirI.toNat) (tableEntry t)) :=
    AgreeOff.write32 fun k hk => inWord_add hk
  have hread₃ : (m₂.write32 (physOf s.paging.pageDirectory + 4 * dirI.toNat) (tableEntry t)).read32
      (physOf s.paging.pageDirectory + 4 * dirI.toNat) = tableEntry t := Bytes.read32_write32_same _
  rw [phys_kernelWithPhys] at hstore
  generalize m₂.write32 (physOf s.paging.pageDirectory + 4 * dirI.toNat) (tableEntry t) = m₃
    at hstore hm₃ hread₃
  have hA₃ : AgreeOff A s.mem.phys m₃ := hA₂.trans (hm₃.mono fun x hx => .inr (.inl hx))
  have hload := load32_entry (s := s₁.withPhys m₃) (hview.dir.agree hA₃) hdirmod hlt
  rw [phys_kernelWithPhys, hread₃] at hload
  -- the line on the screen
  obtain ⟨_, _, hprint, ⟨m₄, ports, vga, rfl, hm₄, hy⟩, hstart⟩ := kPrintfln_printed (s := s₁.withPhys m₃)
    (shortFormat_table dirI t (tableEntry t)) (hview.screen.agree hA₃) hready hslack
  rw [phys_kernelWithPhys] at hm₄
  have hA₄ : AgreeOff A s.mem.phys m₄ := hA₃.trans (hm₄.mono fun x hx => .inr (.inr (.inr hx)))
  -- the reverse mapping gets its entry
  have hstore' := store32_entry (s := { s₁ with mem := s₁.mem.withPhys m₄, ports := ports, vga := vga })
    (hview.rev.agree hA₄) hrevmod hlt t
  have hsize : pageTableSize.toNat = 4096 := by decide
  refine ⟨m₃, m₄, ports, vga, ⟨?_, fun x hx => ?_, hread₃⟩, hprint, hm₄, hstart, hy, ?_⟩
  · exact (hm₂.mono fun x hx => .inl hx).trans (hm₃.mono fun x hx => .inr hx)
  · rw [hm₃ x fun hx' => ?_]
    · exact hzero₂ x hx
    · have hin := (htables.slots_inside hlt (.inl hx')).2
      have hlow := hx.1
      omega
  · rw [createTable, bind_run hmalloc, hsize]
    exact (bind_run hclear).trans ((bind_run htranslate).trans ((bind_run htranslate).trans
      ((bind_run (get_apply _)).trans ((bind_run hstore).trans ((bind_run hload).trans
        ((bind_run hprint).trans hstore'))))))

/-- With the screen off the structures and the new page, the table is empty. -/
theorem TableBegun.made {m m₃ m₄ : Bytes} {paging : Paging} {S : Nat → Prop} (h : TableBegun m m₃ paging i t)
    (htables : Tables m paging cur) (hroom : TableRoom m paging cur i t S) (hm₄ : AgreeOff S m₃ m₄) :
    TableMade m (m₄.write32 (physOf paging.ptPhysToVirt + 4 * i) t) paging i t S := by
  have hlt := hroom.index
  have hframe := hroom.frame
  have hrev := htables.rev_frame
  have hm₅ : AgreeOff (InWord (physOf paging.ptPhysToVirt + 4 * i)) m₄
      (m₄.write32 (physOf paging.ptPhysToVirt + 4 * i) t) := AgreeOff.write32 fun k hk => inWord_add hk
  refine ⟨?_, fun j hj => ?_, ?_, Bytes.read32_write32_same _⟩
  · refine (h.agree.mono fun x hx => ?_).trans ((hm₄.mono fun x hx => .inr (.inr (.inr hx))).trans
      (hm₅.mono fun x hx => .inr (.inr (.inl hx))))
    exact hx.imp_right .inl
  · have hfar : ∀ x, InWord (physOf t + 4 * j) x → InFrame (physOf t) x := fun x hx => Tables.word_inFrame hj hx
    rw [hm₅.read32, hm₄.read32]
    · exact Bytes.read32_zero fun k hk => h.zero _ (hfar _ (inWord_add hk))
    · exact fun k hk hx => hroom.screen_new _ hx (hfar _ (inWord_add hk))
    · intro k hk hx
      have h := (htables.slots_inside hlt (.inr hx)).2
      omega
  · rw [dirOf, pdeOf, hm₅.read32, hm₄.read32]
    · exact h.dir
    · exact fun k hk hx => hroom.walked _ hx (.inl (Tables.word_inFrame hlt (inWord_add hk)))
    · intro k hk hx
      unfold InWord at hx
      omega

theorem createTable_error {e : Stop} (halloc : Alloc.kmallocEarlyAlign pageTableSize s.alloc = .error e)
    (dirI : Word) : createTable dirI s = .error e := by
  have hmalloc : kmallocEarlyAlign pageTableSize s = .error e := by
    rw [kmallocEarlyAlign, onAlloc, halloc]
    rfl
  rw [createTable, bind_apply, hmalloc]
  rfl

end CreateTable

/-! ## Mapping a page -/

section PageMap

variable {s s₁ : Kernel Mmu} {A B : Nat → Prop} {virt phys perm : Word} {cur : Nat}

/-- The part of `page_map` behind the test for a table. -/
theorem pageMap_tail (phys perm : Word) (htables : Tables s.mem.phys s.paging cur)
    (hp : Entry.present (dirOf s.mem.phys s.paging (dirIndex virt)) = true)
    (hrev : s.mem.Seen A s.paging.ptPhysToVirt (physOf s.paging.ptPhysToVirt))
    (htable : s.mem.Seen (InWord (pteAt s.mem.phys s.paging virt)) (revOf s.mem.phys s.paging (dirIndex virt))
      (physOf (revOf s.mem.phys s.paging (dirIndex virt)))) :
    ∃ m, (do
        let pageTable ← load32 (entryAddr s.paging.ptPhysToVirt (pageDirI virt))
        pageMapPte pageTable (pageTableI virt) phys perm
        pure (entryAddr pageTable (pageTableI virt)) : K Mmu Word) s =
      .ok (entryAddr (revOf s.mem.phys s.paging (dirIndex virt)) (pageTableI virt), s.withPhys m) ∧
      EntryStored s.mem.phys m s.paging virt
        (mappedEntry (entryOf s.mem.phys s.paging (dirIndex virt) (tableIndex virt)) phys perm) := by
  have hlt := dirIndex_lt virt
  have hlt' := tableIndex_lt virt
  have hreveq := htables.rev_eq
  have hdirmod := htables.dir_mod
  have ht := htables.table hlt hp
  have hframe := ht.frame
  have hne := (htables.present_iff hlt).mp hp
  have hload := load32_dirEntry hrev (by omega) virt
  have hpte : pteAt s.mem.phys s.paging virt =
      physOf (revOf s.mem.phys s.paging (dirIndex virt)) + 4 * (pageTableI virt).toNat := by
    rw [pageTableI_toNat, pteAt, hframe]
  have hentry : entryOf s.mem.phys s.paging (dirIndex virt) (tableIndex virt) =
      s.mem.phys.read32 (pteAt s.mem.phys s.paging virt) := Tables.entryOf_present hp
  rw [hpte] at htable hentry
  obtain ⟨m, hrun, ⟨hagree, hread⟩⟩ := pageMapPte_run htable ht.mod hne (by rw [pageTableI_toNat]; exact hlt')
    phys perm
  refine ⟨m, ?_, ?_, ?_⟩
  · exact (bind_run hload).trans ((bind_run hrun).trans rfl)
  · rw [hpte]
    exact hagree
  · rw [hpte, hentry]
    exact hread

theorem and_present_eq_zero {e : Word} : e &&& pageEntryPresent = 0#32 ↔ Entry.present e = false := by
  rw [← not_iff_not, Bool.not_eq_false]
  exact Entry.and_one_ne_zero_iff

/-- `page_map` up to the test for a table. -/
theorem pageMap_head (hvirt : virt.toNat % 4096 = 0) (hphys : phys.toNat % 4096 = 0)
    (htables : Tables s.mem.phys s.paging cur)
    (hdir : s.mem.Seen A s.paging.pageDirectory (physOf s.paging.pageDirectory)) :
    pageMap virt phys perm s = (do
      if Entry.present (dirOf s.mem.phys s.paging (dirIndex virt)) = false then createTable (pageDirI virt)
      let pageTable ← load32 (entryAddr s.paging.ptPhysToVirt (pageDirI virt))
      pageMapPte pageTable (pageTableI virt) phys perm
      pure (entryAddr pageTable (pageTableI virt)) : K Mmu Word) s := by
  have hge := htables.dir_ge
  have haligned : ¬(virt &&& notAligned ≠ 0#32 ∨ phys &&& notAligned ≠ 0#32) := by
    rw [not_or, not_not, not_not]
    exact ⟨and_notAligned_eq_zero.mpr hvirt, and_notAligned_eq_zero.mpr hphys⟩
  have hne : s.paging.pageDirectory ≠ 0#32 := ne_zero_iff_toNat.mpr (by omega)
  have hload := load32_dirEntry hdir htables.dir_mod virt
  rw [pageMap, bind_run (assert_true haligned), bind_run (get_apply s), bind_run (assert_true hne),
    bind_run hload]
  simp only [and_present_eq_zero]
  rfl

/-- A call for a page whose table is there stores the entry. -/
theorem pageMap_present (perm : Word) (hvirt : virt.toNat % 4096 = 0) (hphys : phys.toNat % 4096 = 0)
    (htables : Tables s.mem.phys s.paging cur)
    (hp : Entry.present (dirOf s.mem.phys s.paging (dirIndex virt)) = true)
    (hdir : s.mem.Seen A s.paging.pageDirectory (physOf s.paging.pageDirectory))
    (hrev : s.mem.Seen B s.paging.ptPhysToVirt (physOf s.paging.ptPhysToVirt))
    (htable : s.mem.Seen (InWord (pteAt s.mem.phys s.paging virt)) (revOf s.mem.phys s.paging (dirIndex virt))
      (physOf (revOf s.mem.phys s.paging (dirIndex virt)))) :
    ∃ m, pageMap virt phys perm s =
      .ok (entryAddr (revOf s.mem.phys s.paging (dirIndex virt)) (pageTableI virt), s.withPhys m) ∧
      EntryStored s.mem.phys m s.paging virt
        (mappedEntry (entryOf s.mem.phys s.paging (dirIndex virt) (tableIndex virt)) phys perm) := by
  obtain ⟨m, hrun, hstored⟩ := pageMap_tail phys perm htables hp hrev htable
  refine ⟨m, ?_, hstored⟩
  rw [pageMap_head hvirt hphys htables hdir, hp]
  exact hrun

/-- A call for a page without a table makes the table first. -/
theorem pageMap_absent (hvirt : virt.toNat % 4096 = 0) (hphys : phys.toNat % 4096 = 0)
    (htables : Tables s.mem.phys s.paging cur)
    (hp : Entry.present (dirOf s.mem.phys s.paging (dirIndex virt)) = false)
    (hdir : s.mem.Seen A s.paging.pageDirectory (physOf s.paging.pageDirectory)) :
    pageMap virt phys perm s = (do
      createTable (pageDirI virt)
      let pageTable ← load32 (entryAddr s.paging.ptPhysToVirt (pageDirI virt))
      pageMapPte pageTable (pageTableI virt) phys perm
      pure (entryAddr pageTable (pageTableI virt)) : K Mmu Word) s := by
  rw [pageMap_head hvirt hphys htables hdir, hp]
  rfl

/-- What a call of `page_map` that comes back with `r` has done. -/
structure PageMapped (s s' : Kernel Mmu) (f₀ f₁ cur cur' : Nat) (virt phys perm r : Word) : Prop where
  state : ∃ phys' a' ports vga,
    s' = { s with mem := s.mem.withPhys phys', alloc := a', ports := ports, vga := vga }
  mapped : Tables.Mapped s.mem.phys s'.mem.phys s.paging cur' virt phys perm
  result : r = entryAddr (revOf s'.mem.phys s.paging (dirIndex virt)) (pageTableI virt)
  console : s'.vga = s.vga ∨ s'.vga.LineStart
  row : s.vga.y.toNat ≤ s'.vga.y.toNat
  stores : AgreeOff (fun x => StructureFrames s.paging cur' x ∨ ScreenFrames f₀ f₁ x) s.mem.phys s'.mem.phys
  heap : (Entry.present (dirOf s.mem.phys s.paging (dirIndex virt)) = true ∧ s'.alloc = s.alloc ∧ cur' = cur) ∨
    ∃ t, Entry.present (dirOf s.mem.phys s.paging (dirIndex virt)) = false ∧
      Alloc.kmallocEarlyAlign pageTableSize s.alloc = .ok (t, s'.alloc) ∧ cur ≤ t.toNat ∧
      cur' = t.toNat + 4096 ∧ revOf s'.mem.phys s.paging (dirIndex virt) = t

variable {t : Word} {a' : Alloc} {slack : Nat}

theorem pageMap_present_returns (f₀ f₁ : Nat) (hvirt : virt.toNat % 4096 = 0) (hphys : phys.toNat % 4096 = 0)
    (hperm : perm.toNat < 4096) (htables : Tables s.mem.phys s.paging cur)
    (hp : Entry.present (dirOf s.mem.phys s.paging (dirIndex virt)) = true)
    (hdir : s.mem.Seen A s.paging.pageDirectory (physOf s.paging.pageDirectory))
    (hrev : s.mem.Seen B s.paging.ptPhysToVirt (physOf s.paging.ptPhysToVirt))
    (htable : s.mem.Seen (InWord (pteAt s.mem.phys s.paging virt)) (revOf s.mem.phys s.paging (dirIndex virt))
      (physOf (revOf s.mem.phys s.paging (dirIndex virt)))) :
    Returns (pageMap virt phys perm) s fun r s' => PageMapped s s' f₀ f₁ cur cur virt phys perm r := by
  obtain ⟨m, hrun, hstored⟩ := pageMap_present perm hvirt hphys htables hp hdir hrev htable
  have hmapped := Tables.mapped_stored hphys hperm htables hp hstored
  refine .of_eq hrun ⟨⟨m, s.alloc, s.ports, s.vga, rfl⟩, hmapped, ?_, .inl rfl, Nat.le_refl _, ?_, .inl ⟨hp, rfl, rfl⟩⟩
  · rw [phys_kernelWithPhys, (hmapped.kept _ (dirIndex_lt virt) fun _ => hp).2]
  · refine hstored.agree.mono fun x hx => .inl ?_
    exact (htables.table_inside (dirIndex_lt virt) hp (Tables.pteAt_inFrame _ _ _ hx)).2

/-- The state after a table has been made. -/
abbrev tableState (s : Kernel Mmu) (phys : Bytes) (a' : Alloc) (ports : List (Half × Byte)) (vga : Vga) :
    Kernel Mmu :=
  { s with mem := s.mem.withPhys phys, alloc := a', ports := ports, vga := vga }

variable {f₀ f₁ : Nat}

/-- A call for a page without a table, step by step: what the screen shows may be anywhere but where the
processor looks entries up. -/
theorem pageMap_absent_run (perm : Word) (hvirt : virt.toNat % 4096 = 0) (hphys : phys.toNat % 4096 = 0)
    (htables : Tables s.mem.phys s.paging cur)
    (hspace : TableSpace s.mem.phys s.paging cur (dirIndex virt) t (ScreenFrames f₀ f₁))
    (halloc : Alloc.kmallocEarlyAlign pageTableSize s.alloc = .ok (t, a'))
    (hview : TableView { s with alloc := a' } (dirIndex virt) t f₀ f₁)
    (hready : s.vga.Ready slack) (hslack : slack ≤ 1600) :
    ∃ m₃ m₄ m₅ ports vga, TableBegun s.mem.phys m₃ s.paging (dirIndex virt) t ∧
      tableLine (pageDirI virt) t { s with mem := s.mem.withPhys m₃, alloc := a' } =
        .ok ((), tableState s m₄ a' ports vga) ∧
      AgreeOff (ScreenFrames f₀ f₁) m₃ m₄ ∧ vga.LineStart ∧ s.vga.y.toNat ≤ vga.y.toNat ∧
      PteStored (m₄.write32 (physOf s.paging.ptPhysToVirt + 4 * dirIndex virt) t) m₅
        (physOf t + 4 * tableIndex virt) phys perm ∧
      pageMap virt phys perm s = .ok (entryAddr t (pageTableI virt), tableState s m₅ a' ports vga) := by
  obtain ⟨m₃, m₄, ports, vga, hbegun, hline, hm₄, hstart, hrow, hcreate⟩ :=
    createTable_run halloc hview htables hspace (pageDirI_toNat virt) hready hslack
  have hlt := dirIndex_lt virt
  have hlt' := tableIndex_lt virt
  have hmod := hspace.mod
  have hdirmod := htables.dir_mod
  have hreveq := htables.rev_eq
  have hrevmod : s.paging.ptPhysToVirt.toNat % 4096 = 0 := by omega
  have hcur := htables.cur_ge
  have habove := hspace.above
  have hne : t ≠ 0#32 := ne_zero_iff_toNat.mpr (by omega)
  have hslot : AgreeOff (InWord (physOf s.paging.ptPhysToVirt + 4 * dirIndex virt)) m₄
      (m₄.write32 (physOf s.paging.ptPhysToVirt + 4 * dirIndex virt) t) := AgreeOff.write32 fun k hk => inWord_add hk
  have hread : (m₄.write32 (physOf s.paging.ptPhysToVirt + 4 * dirIndex virt) t).read32
      (physOf s.paging.ptPhysToVirt + 4 * dirIndex virt) = t := Bytes.read32_write32_same _
  generalize hm : m₄.write32 (physOf s.paging.ptPhysToVirt + 4 * dirIndex virt) t = m at hcreate hslot hread
  have hstores : AgreeOff (TableStores s.paging (dirIndex virt) (physOf t) (ScreenFrames f₀ f₁)) s.mem.phys m :=
    (hbegun.agree.mono fun x hx => hx.imp_right .inl).trans ((hm₄.mono fun x hx => .inr (.inr (.inr hx))).trans
      (hslot.mono fun x hx => .inr (.inr (.inl hx))))
  have hload := load32_dirEntry (s := tableState s m a' ports vga) (hview.rev.agree hstores) hrevmod virt
  rw [Mmu.phys_withPhys, hread] at hload
  have hnew : (tableState s m a' ports vga).mem.Seen (InWord (physOf t + 4 * (pageTableI virt).toNat)) t (physOf t) := by
    rw [pageTableI_toNat]
    exact (hview.new.agree hstores).mono fun x hx => .inl (Tables.word_inFrame hlt' hx)
  obtain ⟨m₅, hpte, hm₅⟩ := pageMapPte_run hnew hmod hne (by rw [pageTableI_toNat]; exact hlt') phys perm
  rw [pageTableI_toNat] at hm₅
  refine ⟨m₃, m₄, m₅, ports, vga, hbegun, hline, hm₄, hstart, hrow, hm ▸ hm₅, ?_⟩
  rw [pageMap_absent hvirt hphys htables hspace.absent hview.dir]
  exact (bind_run hcreate).trans ((bind_run hload).trans ((bind_run hpte).trans rfl))

/-- With the screen off the structures, it leaves them in order. -/
theorem pageMap_absent_returns (hvirt : virt.toNat % 4096 = 0) (hphys : phys.toNat % 4096 = 0)
    (hperm : perm.toNat < 4096) (htables : Tables s.mem.phys s.paging cur)
    (hroom : TableRoom s.mem.phys s.paging cur (dirIndex virt) t (ScreenFrames f₀ f₁))
    (halloc : Alloc.kmallocEarlyAlign pageTableSize s.alloc = .ok (t, a'))
    (hview : TableView { s with alloc := a' } (dirIndex virt) t f₀ f₁)
    (hready : s.vga.Ready slack) (hslack : slack ≤ 1600) :
    Returns (pageMap virt phys perm) s fun r s' =>
      PageMapped s s' f₀ f₁ cur (t.toNat + 4096) virt phys perm r := by
  obtain ⟨m₃, m₄, m, ports, vga, hbegun, _, hm₄, hstart, hrow, hpte, hrun⟩ :=
    pageMap_absent_run perm hvirt hphys htables hroom.toTableSpace halloc hview hready hslack
  have hmade := hbegun.made htables hroom hm₄
  generalize m₄.write32 (physOf s.paging.ptPhysToVirt + 4 * dirIndex virt) t = m₁ at hpte hmade
  have htables₁ := htables.made hroom hmade
  have hp₁ := Tables.present_made hmade
  have hframe : pteAt m₁ s.paging virt = physOf t + 4 * tableIndex virt := by
    have hge := htables.dir_ge
    have hcur := htables.cur_ge
    have habove := hroom.above
    rw [pteAt, hmade.dir, frame_tableEntry hroom.mod (by omega)]
  have hstored : EntryStored m₁ m s.paging virt
      (mappedEntry (entryOf m₁ s.paging (dirIndex virt) (tableIndex virt)) phys perm) := by
    have hentry : entryOf m₁ s.paging (dirIndex virt) (tableIndex virt) = m₁.read32 (pteAt m₁ s.paging virt) :=
      Tables.entryOf_present hp₁
    rw [← hframe] at hpte
    rw [hentry]
    exact ⟨hpte.agree, hpte.read⟩
  have hmapped := Tables.mapped_made hphys hperm htables hroom hmade hstored
  have hrev : revOf m s.paging (dirIndex virt) = t :=
    (Tables.stored_slots htables₁ hp₁ hstored (dirIndex_lt virt)).2.trans hmade.rev
  refine .of_eq hrun
    ⟨⟨m, a', ports, vga, rfl⟩, hmapped, ?_, .inr hstart, hrow, ?_, .inr ⟨t, hroom.absent, halloc, hroom.above, rfl, hrev⟩⟩
  · rw [Mmu.phys_withPhys, hrev]
  · have habove := hroom.above
    have hmod := hroom.mod
    have hgrown : Tables s.mem.phys s.paging (t.toNat + 4096) := htables.mono (by omega) (by omega)
    refine (hmade.agree.mono fun x hx => ?_).trans (hstored.agree.mono fun x hx => .inl ?_)
    · rcases hx with hx | hx | hx | hx
      · exact .inl (htables.new_inside hroom.toTableSpace hx)
      · exact .inl (hgrown.slots_inside (dirIndex_lt virt) (.inl hx))
      · exact .inl (hgrown.slots_inside (dirIndex_lt virt) (.inr hx))
      · exact .inr hx
    · exact (htables₁.table_inside (dirIndex_lt virt) hp₁ (Tables.pteAt_inFrame _ _ _ hx)).2

/-- A call that needs a table comes back only if there is room for it. -/
theorem pageMap_absent_alloc {r : Word × Kernel Mmu} (hvirt : virt.toNat % 4096 = 0)
    (hphys : phys.toNat % 4096 = 0) (htables : Tables s.mem.phys s.paging cur)
    (hp : Entry.present (dirOf s.mem.phys s.paging (dirIndex virt)) = false)
    (hdir : s.mem.Seen A s.paging.pageDirectory (physOf s.paging.pageDirectory))
    (hrun : pageMap virt phys perm s = .ok r) :
    ∃ t, Alloc.kmallocEarlyAlign pageTableSize s.alloc = .ok (t, r.2.alloc) := by
  rw [pageMap_absent hvirt hphys htables hp hdir] at hrun
  obtain ⟨_, s₁, hcreate, htail⟩ := bind_ok.mp hrun
  have hsame := (storeMapping_around virt phys perm _ s₁ r.1 r.2 htail).alloc
  cases halloc : Alloc.kmallocEarlyAlign pageTableSize s.alloc with
  | error e =>
      rw [createTable_error halloc] at hcreate
      cases hcreate
  | ok p =>
      have hmalloc : kmallocEarlyAlign pageTableSize s = .ok (p.1, { s with alloc := p.2 }) := by
        rw [kmallocEarlyAlign, onAlloc, halloc]
        rfl
      rw [createTable, bind_run hmalloc] at hcreate
      have hfilled := (fillTable_around (pageDirI virt) p.1 _ _ _ hcreate).alloc
      refine ⟨p.1, ?_⟩
      rw [hsame, hfilled]

/-- A call comes back only for pages. -/
theorem pageMap_aligned {r : Word × Kernel Mmu} (hrun : pageMap virt phys perm s = .ok r) :
    virt.toNat % 4096 = 0 ∧ phys.toNat % 4096 = 0 := by
  obtain ⟨_, _, hassert, _⟩ := bind_ok.mp hrun
  have h := (assert_ok hassert).1
  rw [not_or, not_not, not_not] at h
  exact ⟨and_notAligned_eq_zero.mp h.1, and_notAligned_eq_zero.mp h.2⟩

end PageMap

end LizaOS
