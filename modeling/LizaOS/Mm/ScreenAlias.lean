-- SUMMARY: What becomes of the tables when the screen is mapped to one of their frames and page_map prints its line.
import LizaOS.Libc.FullScreen
import LizaOS.Mm.Booted

/-!
# The screen on a table

`page_map` prints a line for each table it makes. Nothing keeps the screen's pages from being mapped to a
frame of the structures; the line is then put there. In the last row the whole frame is scrolled, too.
-/

namespace LizaOS

open Exec

/-! ## A table made under a full screen -/

/-- The line about the table at `t`. -/
def tableText (dirI t : Word) : List Byte :=
  match print (cstr "page_map: table %u created at %p (%p)") (slots [dirI, t, tableEntry t]) with
  | .ok pieces => textOf pieces
  | .error _ => []

/-- The line fits in a row. -/
structure FitsRow (dirI t : Word) : Prop where
  printable : ∀ c ∈ tableText dirI t, Printable c
  short : (tableText dirI t).length ≤ vgaWidth

section Scrolled

variable {A : Nat → Prop} {f₀ f₁ : Nat} {s : Kernel Mmu} {dirI t : Word}

theorem tableLine_lastRow (hf : FramesApart f₀ f₁) (hs : ScreenSeen s.mem A f₀ f₁) (hstart : s.vga.LineStart)
    (hrow : s.vga.y.toNat = vgaHeight) (hline : FitsRow dirI t) :
    Returns (tableLine dirI t) s fun _ s' => ∀ j, j < scrollCells → cellOf s'.mem.phys f₀ f₁ j =
      if 1840 ≤ j ∧ j < 1840 + (tableText dirI t).length then
        vgaItemEntry ((tableText dirI t).getD (j - 1840) 0#8) .white s.screenBg
      else cellOf s.mem.phys f₀ f₁ (j + vgaWidth) := by
  have htext := (shortFormat_table dirI t (tableEntry t)).text
  obtain ⟨hprintable, hshort⟩ := hline
  unfold tableText at hprintable hshort ⊢
  cases hprint : print (cstr "page_map: table %u created at %p (%p)") (slots [dirI, t, tableEntry t]) with
  | error e =>
      rw [hprint] at htext
      cases htext
  | ok pieces =>
      rw [hprint] at htext hprintable hshort
      exact kPrintfln_lastRow hf hs hstart hrow hprint (Except.ok.inj htext) hprintable hshort

end Scrolled

/-- A call has made the table at `t` for `virt`, whose line has been put at the bottom of the full screen
in the frames at `f₀` and `f₁`. -/
structure TableScrolled (s s' : Kernel Mmu) (f₀ f₁ : Nat) (virt t phys perm : Word) (m₃ m₄ : Bytes) : Prop where
  begun : TableBegun s.mem.phys m₃ s.paging (dirIndex virt) t
  screen : AgreeOff (ScreenFrames f₀ f₁) m₃ m₄
  cells : ∀ j, j < scrollCells → cellOf m₄ f₀ f₁ j =
    if 1840 ≤ j ∧ j < 1840 + (tableText (pageDirI virt) t).length then
      vgaItemEntry ((tableText (pageDirI virt) t).getD (j - 1840) 0#8) .white s.screenBg
    else cellOf m₃ f₀ f₁ (j + vgaWidth)
  entry : PteStored (m₄.write32 (physOf s.paging.ptPhysToVirt + 4 * dirIndex virt) t) s'.mem.phys
    (physOf t + 4 * tableIndex virt) phys perm

namespace TableScrolled

variable {s s' : Kernel Mmu} {f₀ f₁ p i : Nat} {virt t phys perm : Word} {m₃ m₄ : Bytes}

/-- The words beside the two entries are as the line has left them. -/
theorem read32 (h : TableScrolled s s' f₀ f₁ virt t phys perm m₃ m₄)
    (hrev : p + 4 ≤ physOf s.paging.ptPhysToVirt + 4 * dirIndex virt ∨
      physOf s.paging.ptPhysToVirt + 4 * dirIndex virt + 4 ≤ p)
    (hpte : p + 4 ≤ physOf t + 4 * tableIndex virt ∨ physOf t + 4 * tableIndex virt + 4 ≤ p) :
    s'.mem.phys.read32 p = m₄.read32 p := by
  rw [h.entry.agree.read32 fun k hk ⟨_, _⟩ => by omega, Bytes.read32_write32_other (by omega)]

/-- The rows above the line are scrolled. -/
theorem scrolled (h : TableScrolled s s' f₀ f₁ virt t phys perm m₃ m₄) (hi : i < 920) :
    m₄.read32 (f₀ + 4 * i) = m₃.read32 (f₀ + 4 * (i + 40)) := by
  have hcells := h.cells
  unfold scrollCells at hcells
  have hnext : 2 * (i + 40) = 2 * i + vgaWidth := by
    unfold vgaWidth
    omega
  have hnext' : 2 * (i + 40) + 1 = 2 * i + 1 + vgaWidth := by omega
  rw [read32_cells m₄ f₀ f₁ (by omega), hcells _ (by omega), hcells _ (by omega), if_neg (by omega),
    if_neg (by omega), read32_cells m₃ f₀ f₁ (by omega), hnext', hnext]

/-- A word of the line. -/
theorem present_text (h : TableScrolled s s' f₀ f₁ virt t phys perm m₃ m₄) (hi : 920 ≤ i) (hlt : i < 1024)
    (htext : 2 * i < 1840 + (tableText (pageDirI virt) t).length) :
    Entry.present (m₄.read32 (f₀ + 4 * i)) =
      ((tableText (pageDirI virt) t).getD (2 * i - 1840) 0#8).getLsbD 0 := by
  have hcells := h.cells
  unfold scrollCells at hcells
  rw [present_cells m₄ f₀ f₁ hlt, hcells _ (by omega), if_pos ⟨by omega, htext⟩, vgaItemEntry_zero]

end TableScrolled

section MakeScrolled

variable {layout : Layout} {P : Word → Prop} {f₀ f₁ cur : Nat} {s : Kernel Mmu} {virt phys perm t : Word}
  {a' : Alloc}

/-- A call for a page without a table, under a full screen. -/
theorem Fixed.pageMap_scrolled (h : Fixed layout P s cur) (hl : layout.Linked) (hvirt : virt.toNat % 4096 = 0)
    (hphys : phys.toNat % 4096 = 0) (hp : Entry.present (dirOf s.mem.phys s.paging (dirIndex virt)) = false)
    (halloc : Alloc.kmallocEarlyAlign pageTableSize s.alloc = .ok (t, a')) (ht : P t)
    (hfirst : ∃ w, s.mem.walk vgaAddress = some { frame := f₀, writable := w })
    (hsecond : ∃ w, s.mem.walk vgaSecondPage = some { frame := f₁, writable := w })
    (hwalked : ∀ x, ScreenFrames f₀ f₁ x → ¬WalkFrames s.mem.phys s.paging x) (hf : FramesApart f₀ f₁)
    (hrow : s.vga.y.toNat = vgaHeight) (hline : FitsRow (pageDirI virt) t) :
    Returns (pageMap virt phys perm) s fun _ s' => s'.alloc = a' ∧ s'.paging = s.paging ∧
      s'.mem.root = s.mem.root ∧ ∃ m₃ m₄, TableScrolled s s' f₀ f₁ virt t phys perm m₃ m₄ := by
  obtain ⟨hmod, habove, htop, hheap⟩ := h.alloc_table hl halloc
  have hspace : TableSpace s.mem.phys s.paging cur (dirIndex virt) t (ScreenFrames f₀ f₁) :=
    ⟨dirIndex_lt virt, hp, hmod, habove, hwalked⟩
  have hview := h.tableView hspace ht hfirst hsecond hheap (by omega)
  obtain ⟨m₃, m₄, m₅, ports, vga, hbegun, hprint, hscreen, _, _, hpte, hrun⟩ :=
    pageMap_absent_run perm hvirt hphys h.tables hspace halloc hview h.console.ready (by decide)
  refine .of_eq hrun ⟨rfl, rfl, rfl, m₃, m₄, hbegun, hscreen, ?_, hpte⟩
  have hstores := hbegun.agree.mono fun x hx => (hx.imp_right .inl :
    TableStores s.paging (dirIndex virt) (physOf t) (ScreenFrames f₀ f₁) x)
  have hcells := tableLine_lastRow (s := { s with mem := s.mem.withPhys m₃, alloc := a' }) hf
    (hview.screen.agree hstores) h.console hrow hline
  have hshown := hcells.whenReturns _ _ hprint
  exact hshown

end MakeScrolled

/-! ## The screen of the machine that has booted -/

/-- The pages of the structures behind `init_paging`, and the next page of the heap. -/
abbrev nextPages : Word → Prop := StructurePage pagingUp.paging.pageDirectory 0xC0205000

/-- The screen has been mapped to the frame at `x`. -/
structure ScreenAt (x : Word) (s : Kernel Mmu) : Prop where
  fixed : Fixed bootLayout nextPages s 0xC0204000
  paging : s.paging = pagingUp.paging
  alloc : s.alloc = pagingUp.alloc
  row : s.vga.y.toNat = vgaHeight
  present : ∀ i, i < 1024 → (Entry.present (dirOf s.mem.phys s.paging i) = true ↔ i = 0 ∨ i = 768)
  first : ∃ w, s.mem.walk vgaAddress = some { frame := x.toNat, writable := w }
  second : ∃ w, s.mem.walk vgaSecondPage = some { frame := 0xB9000, writable := w }

theorem pagingUp_running : Running bootLayout nextPages 0xB8000 0xB9000 pagingUp 0xC0204000 := by
  have hbase : pagingUp.alloc.currentBase.toNat ≤ 0xC0205000 := by
    rw [pagingUp_base]
    decide
  have hrunning := pagingUp_after.running_heap bootLayout_linked (by decide) hbase
  rw [pagingUp_base] at hrunning
  exact hrunning

theorem not_nextPages_low {v : Word} (hv : v.toNat < 0xC0200000) : ¬nextPages v := by
  rintro ⟨_, hlow, _⟩
  rw [pagingUp_dir] at hlow
  omega

/-- The first page of the screen goes where it is sent. -/
theorem screen_sent {x : Word} (hx : x.toNat % 4096 = 0) :
    Returns (pageMap vgaAddress x pageEntryRw) pagingUp fun _ s => ScreenAt x s := by
  have hrunning := pagingUp_running
  have hfree : ¬nextPages vgaAddress := not_nextPages_low (by decide)
  have hdir : dirIndex vgaAddress = 0 := by decide
  have hp : Entry.present (dirOf pagingUp.mem.phys pagingUp.paging (dirIndex vgaAddress)) = true := by
    rw [hdir]
    exact (pagingUp_present (by decide)).mpr (.inl rfl)
  have hcall := hrunning.pageMap_there 0xB8000 0xB9000 (by decide) hx (by decide : pageEntryRw.toNat < 4096) hp hfree
  refine hcall.mono ?_
  rintro r s ⟨hmap, halloc⟩
  have hpaging := hmap.tablesKept.1
  have hwalk := hrunning.walk_next hmap
  have hfixed := hrunning.toFixed.next (by decide) hmap hfree
    (by
      rintro t ⟨habsent, _⟩
      rw [hp] at habsent
      cases habsent)
    (by rw [halloc]; exact hrunning.heap) (by rw [halloc]; exact hrunning.base)
  refine ⟨hfixed, hpaging, halloc, ?_, fun i hi => ?_, ?_, ?_⟩
  · have hrow := hmap.row
    rw [pagingUp_row] at hrow
    exact Nat.le_antisymm hfixed.console.row hrow
  · have hkept := (hmap.mapped.kept i hi fun heq => heq ▸ hp).1
    rw [hpaging, hkept]
    exact pagingUp_present hi
  · rw [hwalk, if_pos rfl]
    exact ⟨_, rfl⟩
  · rw [hwalk, if_neg (by decide)]
    exact hrunning.second

/-! ## A run through the screen -/

/-- The page that will hold the next table. -/
def nextTable : Word := 0xC0204000#32

/-- The screen is sent to the frame at `x`, then a page without a table is mapped. -/
def screenCalls (x : Word) : List MapCall :=
  [⟨vgaAddress, x, pageEntryRw⟩, ⟨0x400000#32, 0#32, pageEntryRw⟩]

/-- Below the kernel every page may be called for. -/
theorem allowed_low {c : MapCall} {lim : Nat} (hlow : c.virt.toNat < 0xC0106000) (hperm : c.perm.toNat < 4096) :
    c.Allowed bootLayout pagingUp.paging.pageDirectory lim := by
  refine ⟨hperm, ?_, ?_⟩
  · rintro ⟨hstart, _⟩
    exact absurd hstart (by rw [Nat.not_le]; exact hlow)
  · rintro ⟨_, hdir, _⟩
    rw [pagingUp_dir] at hdir
    omega

theorem screenCalls_allowed {x : Word} {c : MapCall} (hc : c ∈ screenCalls x) :
    c.Allowed bootLayout pagingUp.paging.pageDirectory 0xC0205000 := by
  simp only [screenCalls, List.mem_cons, List.not_mem_nil, or_false] at hc
  rcases hc with rfl | rfl
  · exact allowed_low (by decide : vgaAddress.toNat < 0xC0106000) (by decide : pageEntryRw.toNat < 4096)
  · exact allowed_low (by decide) (by decide)

/-- At a frame behind the structures the screen does no harm. -/
theorem screenCalls_offScreen {c : MapCall} (hc : c ∈ screenCalls 0x300000#32) :
    c.OffScreen pagingUp.paging.pageDirectory 0xC0205000 := by
  rintro hscreen v ⟨_, _, hhigh⟩ heq
  simp only [screenCalls, List.mem_cons, List.not_mem_nil, or_false] at hc
  rcases hc with rfl | rfl
  · have hphys : v.toNat - 0xC0000000 = 0x300000 := heq
    omega
  · rcases hscreen with h | h <;> exact absurd h (by decide)

section ScreenRun

variable {x : Word} {s : Kernel Mmu}

/-- The addresses of the directory and the reverse mapping. -/
theorem ScreenAt.frames (h : ScreenAt x s) :
    physOf s.paging.pageDirectory = 0x200000 ∧ physOf s.paging.ptPhysToVirt = 0x201000 := by
  have hdir : physOf s.paging.pageDirectory + 0xC0000000 = 0xC0200000 := by
    rw [h.paging, ← pagingUp_dir]
    exact physOf_add (by rw [pagingUp_dir]; decide)
  have hrev := h.fixed.tables.rev_frame
  omega

theorem ScreenAt.alloc_next (h : ScreenAt x s) : ∃ a',
    Alloc.kmallocEarlyAlign pageTableSize s.alloc = .ok (nextTable, a') ∧ a'.currentBase.toNat = 0xC0205000 := by
  have hbase := pagingUp_base
  rw [← h.alloc] at hbase
  have hround : roundUp s.alloc.currentBase.toNat = 0xC0204000 := by
    rw [hbase]
    decide
  obtain ⟨t, a', halloc⟩ := Alloc.kmallocEarlyAlign_total h.fixed.heap (by decide : pageTableSize.toNat ≤ 4096) (by
    rw [hround]
    decide)
  obtain ⟨ht, hend⟩ := h.fixed.alloc_next bootLayout_linked halloc
  rw [hround] at ht
  have heq : t = nextTable := BitVec.eq_of_toNat_eq ht
  subst heq
  exact ⟨a', halloc, hend.symm⟩

/-- The processor looks up no entry in the reverse mapping, and none behind the tables. -/
theorem ScreenAt.walked (h : ScreenAt x s) (hx : x.toNat = 0x201000 ∨ 0x204000 ≤ x.toNat) {y : Nat}
    (hy : ScreenFrames x.toNat 0xB9000 y) : ¬WalkFrames s.mem.phys s.paging y := by
  obtain ⟨hdir, hrev⟩ := h.frames
  have hframe : 0x201000 ≤ y ∧ y < 0x202000 ∨ 0x204000 ≤ y ∨ y < 0x200000 := by
    rcases hy with ⟨_, _⟩ | ⟨_, _⟩ <;> omega
  rintro (⟨_, _⟩ | ⟨i, hi, hp, hin⟩)
  · omega
  · obtain ⟨hlow, _, hhigh⟩ := h.fixed.tables.table_inside hi hp hin
    omega

/-- The table is made, and its line put where the screen is. -/
theorem screenCalls_run (hmod : x.toNat % 4096 = 0) (hx : x.toNat = 0x201000 ∨ 0x204000 ≤ x.toNat) :
    Returns (mapAll (screenCalls x)) pagingUp fun _ s' => s'.alloc.currentBase.toNat = 0xC0205000 ∧
      ∃ s, ScreenAt x s ∧ s'.paging = s.paging ∧ s'.mem.root = s.mem.root ∧ ∃ m₃ m₄,
        TableScrolled s s' x.toNat 0xB9000 0x400000#32 nextTable 0#32 pageEntryRw m₃ m₄ := by
  refine (screen_sent hmod).bind fun _ s h => ?_
  obtain ⟨a', halloc, hbase⟩ := h.alloc_next
  have hp : Entry.present (dirOf s.mem.phys s.paging (dirIndex 0x400000#32)) = false := by
    rw [← Bool.not_eq_true, h.present _ (dirIndex_lt _)]
    decide
  have hnew : nextPages nextTable := by
    refine ⟨by decide, ?_, by decide⟩
    rw [pagingUp_dir]
    decide
  have hapart : FramesApart x.toNat 0xB9000 := .inr (by omega)
  have hline : FitsRow (pageDirI 0x400000#32) nextTable := by
    constructor <;> decide +kernel
  have hcall : Returns (pageMap 0x400000#32 0#32 pageEntryRw) s _ :=
    h.fixed.pageMap_scrolled bootLayout_linked (by decide) (by decide) hp halloc hnew h.first h.second
      (fun y hy => h.walked hx hy) hapart h.row hline
  obtain ⟨r, s', hrun, halloc', hpaging, hroot, hscrolled⟩ := hcall
  have hmap : mapAll [⟨0x400000#32, 0#32, pageEntryRw⟩] s = .ok ([r], s') := (bind_run hrun).trans rfl
  refine .of_eq ((bind_run hmap).trans rfl) ⟨?_, s, h, hpaging, hroot, hscrolled⟩
  rw [halloc']
  exact hbase

variable {s' : Kernel Mmu} {phys perm : Word} {m₃ m₄ : Bytes} {p i : Nat}

/-- The words beside the two entries are as the line has left them. -/
theorem ScreenAt.read_end (h : ScreenAt x s)
    (hs : TableScrolled s s' x.toNat 0xB9000 0x400000#32 nextTable phys perm m₃ m₄)
    (hrev : p + 4 ≤ 0x201004 ∨ 0x201008 ≤ p) (hpte : p + 4 ≤ 0x204000 ∨ 0x204004 ≤ p) :
    s'.mem.phys.read32 p = m₄.read32 p := by
  have ht : physOf nextTable = 0x204000 := by decide
  have hdir : dirIndex 0x400000#32 = 1 := by decide
  have htable : tableIndex 0x400000#32 = 0 := by decide
  apply hs.read32
  · rw [h.frames.2, hdir]
    exact hrev
  · rw [ht, htable]
    exact hpte

/-- The line is not put into the directory. -/
theorem ScreenAt.dir_end (h : ScreenAt x s) (hx : x.toNat = 0x201000 ∨ 0x204000 ≤ x.toNat)
    (hs : TableScrolled s s' x.toNat 0xB9000 0x400000#32 nextTable phys perm m₃ m₄) (hi : i < 1024) :
    dirOf s'.mem.phys s.paging i = dirOf m₃ s.paging i := by
  rw [dirOf, dirOf, pdeOf, pdeOf, h.frames.1, h.read_end hs (by omega) (by omega)]
  refine hs.screen.read32 fun k hk hin => ?_
  rcases hin with ⟨_, _⟩ | ⟨_, _⟩ <;> omega

/-- The entries of the new table are letters where the screen is the table. -/
theorem screenCalls_filled : Returns (mapAll (screenCalls 0x204000#32)) pagingUp fun _ s' =>
    s'.alloc.currentBase.toNat = 0xC0205000 ∧ s'.mem.walk 0x799000#32 ≠ none := by
  refine (screenCalls_run (by decide) (.inr (by decide))).mono ?_
  rintro _ s' ⟨hbase, s, h, hpaging, hroot, m₃, m₄, hs⟩
  have hdir : dirIndex 0x799000#32 = 1 := by decide
  have htable : tableIndex 0x799000#32 = 921 := by decide
  have hframe : Entry.frame (tableEntry nextTable) = 0x204000 := by decide
  have hpde : pdeOf s'.mem.phys s'.mem.root (dirIndex 0x799000#32) = tableEntry nextTable := by
    rw [hroot, h.fixed.root, hdir]
    exact (h.dir_end (.inr (by decide)) hs (by decide)).trans hs.begun.dir
  -- the third letter of the line
  have hpte : Entry.present (pteOf s'.mem.phys (tableEntry nextTable) (tableIndex 0x799000#32)) = true := by
    have htext := hs.present_text (i := 921) (by decide) (by decide) (by decide +kernel)
    rw [pteOf, htable, hframe, h.read_end hs (by omega) (by omega)]
    refine htext.trans ?_
    decide +kernel
  refine ⟨hbase, ?_⟩
  rw [Mmu.walk, lookup, hpde, leafOf_some (present_tableEntry _) hpte]
  exact Option.some_ne_none _

/-- The reverse mapping loses its first entry where the screen is the reverse mapping. -/
theorem screenCalls_lost : Returns (mapAll (screenCalls 0x201000#32)) pagingUp fun _ s' =>
    s'.alloc.currentBase.toNat = 0xC0205000 ∧ Entry.present (dirOf s'.mem.phys s'.paging 0) = true ∧
      revOf s'.mem.phys s'.paging 0 = 0#32 := by
  refine (screenCalls_run (by decide) (.inl (by decide))).mono ?_
  rintro _ s' ⟨hbase, s, h, hpaging, hroot, m₃, m₄, hs⟩
  obtain ⟨hdir, hrev⟩ := h.frames
  have ht : physOf nextTable = 0x204000 := by decide
  have hnew : dirIndex 0x400000#32 = 1 := by decide
  have hagree := hs.begun.agree
  rw [hdir, ht, hnew] at hagree
  refine ⟨hbase, ?_, ?_⟩
  · have hp := (h.present 0 (by decide)).mpr (.inl rfl)
    have hdirs := h.dir_end (.inl (by decide)) hs (by decide : 0 < 1024)
    rw [dirOf, dirOf, pdeOf, pdeOf, hdir, hagree.read32 fun k hk hin => ?_] at hdirs
    · rw [hpaging, dirOf, pdeOf, hdir, hdirs]
      rwa [dirOf, pdeOf, hdir] at hp
    · rcases hin with ⟨_, _⟩ | ⟨_, _⟩ <;> omega
  · -- the line above it in the reverse mapping is empty
    have hempty : revOf s.mem.phys s.paging 40 = 0#32 := by
      by_contra hne
      have hp := (h.fixed.tables.present_iff (by decide)).mpr hne
      rcases (h.present 40 (by decide)).mp hp with h40 | h40 <;> cases h40
    have hx : (0x201000#32).toNat = 0x201000 := rfl
    have hscrolled := hs.scrolled (by decide : 0 < 920)
    rw [hx, hagree.read32 fun k hk hin => ?_] at hscrolled
    · rw [revOf, hrev] at hempty
      rw [hpaging, revOf, hrev, h.read_end hs (by omega) (by omega), hscrolled]
      exact hempty
    · rcases hin with ⟨_, _⟩ | ⟨_, _⟩ <;> omega

end ScreenRun

end LizaOS
