-- SUMMARY: page_map running on the tables it works on, as long as nothing the kernel goes through is mapped elsewhere.
import LizaOS.Mm.InitPaging

/-!
# In the kernel's own address space

After the switch the kernel reaches the directory, the reverse mapping and the tables through the very
tables it changes. That works as long as their pages keep the frames they have. `Running` says this of
a set `P` of pages that are not to be mapped elsewhere; the screen may be, if it stays off their frames.
-/

namespace LizaOS

open Exec

/-! ## The heap -/

/-- The heap is in order if it has been, and its base has not gone down. -/
def HeapGrows (base max : Word) (s s' : Kernel Mmu) : Prop :=
  s.alloc.InHeap base max → s'.alloc.InHeap base max ∧ s.alloc.currentBase.toNat ≤ s'.alloc.currentBase.toNat

instance (base max : Word) : IsPreorder (Kernel Mmu) (HeapGrows base max) where
  refl _ h := ⟨h, Nat.le_refl _⟩
  trans _ _ _ h h' hin := ⟨(h' (h hin).1).1, Nat.le_trans (h hin).2 (h' (h hin).1).2⟩

section Grows

variable {base max : Word}

theorem Around.heapGrows {α : Type} {x : K Mmu α} (h : Respects Around x) :
    Respects (HeapGrows base max) x :=
  h.mono fun _ _ hs hin => by
    rw [hs.alloc]
    exact ⟨hin, Nat.le_refl _⟩

theorem kmallocTable_heapGrows (hmax : max.toNat + 8192 < 2 ^ 32) :
    Respects (HeapGrows base max) (kmallocEarlyAlign pageTableSize : K Mmu Word) := by
  intro s t s' hrun hin
  obtain ⟨a', rfl, ht, hend, hin'⟩ := (kmallocTable_returnsIf (T := False) hin hmax False.elim).1 t s' hrun
  have hle := le_roundUp s.alloc.currentBase.toNat
  exact ⟨hin', by simp only; omega⟩

theorem createTable_heapGrows (hmax : max.toNat + 8192 < 2 ^ 32) (dirI : Word) :
    Respects (HeapGrows base max) (createTable dirI) := by
  exact (kmallocTable_heapGrows hmax).bind fun t => Around.heapGrows (fillTable_around dirI t)

/-- Whatever a call of `page_map` does to memory, the base of the heap does not go down. -/
theorem pageMap_heapGrows (hmax : max.toNat + 8192 < 2 ^ 32) (virt phys perm : Word) :
    Respects (HeapGrows base max) (pageMap virt phys perm) := by
  have htail := storeMapping_around virt phys perm
  refine (Around.heapGrows (Around.assert _)).bind fun _ => Respects.get.bind fun s =>
    (Around.heapGrows (Around.assert _)).bind fun _ => (Around.heapGrows (Around.load32 _)).bind fun pde => ?_
  split
  · exact (createTable_heapGrows hmax _).bind fun _ => Around.heapGrows (htail _)
  · exact Around.heapGrows (htail _)

end Grows

/-! ## Translation in software -/

namespace Switched

variable {layout : Layout} {s : Kernel Mmu} {cur : Nat} {v : Word} {f : Nat}

theorem walk_eq (h : Switched layout s cur) (v : Word) :
    s.mem.walk v = Tables.walk s.mem.phys s.paging v := by
  rw [Mmu.walk, h.root]

/-- The pages of the structures have the frames the kernel expects. -/
def StructuresMapped (s : Kernel Mmu) : Prop :=
  ∀ v, StructureAt s.mem.phys s.paging v → ∃ w, s.mem.walk v = some { frame := physOf v, writable := w }

theorem seen (h : Switched layout s cur) (hw : ∃ w, s.mem.walk v = some { frame := f, writable := w }) :
    s.mem.Seen (fun _ => False) v f := by
  refine ⟨h.on, hw, fun m' hm => ?_⟩
  have heq : m' = s.mem.phys := funext fun x => hm x id
  rw [heq]

/-- After the switch `virt_to_phys` agrees with the walk of the processor. -/
theorem virtToPhys_eq (h : Switched layout s cur) (hpages : StructuresMapped s) (v : Word) :
    virtToPhys v s = match s.mem.walk v with
      | some l => .ok (BitVec.ofNat 32 l.frame, s)
      | none => .error .panic := by
  have hlt := dirIndex_lt v
  have hlt' := tableIndex_lt v
  have hdirmod := h.tables.dir_mod
  have hreveq := h.tables.rev_eq
  have hdir := h.seen (hpages _ (.inl rfl))
  have hrev := h.seen (hpages _ (.inr (.inl rfl)))
  have hload := load32_dirEntry hrev (by omega) v
  have hload' := load32_dirEntry hdir hdirmod v
  have hpde : virtToPhysPde (pageDirI v) s = .ok (revOf s.mem.phys s.paging (dirIndex v) |||
      (dirOf s.mem.phys s.paging (dirIndex v) &&& pageEntryPresent), s) := by
    rw [virtToPhysPde, bind_run (get_apply s), h.enabled]
    exact (bind_run hload).trans ((bind_run hload').trans rfl)
  rw [virtToPhys, bind_run hpde, h.walk_eq, Tables.walk_eq]
  cases hp : Entry.present (dirOf s.mem.phys s.paging (dirIndex v)) with
  | false =>
      have hzero : dirOf s.mem.phys s.paging (dirIndex v) &&& pageEntryPresent = 0#32 :=
        and_present_eq_zero.mpr hp
      have hrevzero : revOf s.mem.phys s.paging (dirIndex v) = 0#32 := by
        by_contra hne
        have hpresent := (h.tables.present_iff hlt).mpr hne
        rw [hp] at hpresent
        cases hpresent
      rw [leafOf_none hp, hzero, hrevzero]
      rfl
  | true =>
      have ht := h.tables.table hlt hp
      have hpresent : Entry.present (revOf s.mem.phys s.paging (dirIndex v) |||
          (dirOf s.mem.phys s.paging (dirIndex v) &&& pageEntryPresent)) = true :=
        Entry.present_rev hp
      have htable : (revOf s.mem.phys s.paging (dirIndex v) |||
          (dirOf s.mem.phys s.paging (dirIndex v) &&& pageEntryPresent)) &&& pageAlign =
            revOf s.mem.phys s.paging (dirIndex v) := Entry.pageAlign_rev ht.mod
      have hseen := h.seen (hpages _ (.inr (.inr ⟨_, hlt, hp, rfl⟩)))
      have hload'' := load32_tableEntry hseen ht.mod v
      rw [← ht.frame] at hload''
      rw [bind_run (assert_true (Entry.and_present_ne_zero hpresent)), htable, bind_run hload'',
        Tables.entryOf_present hp, pteOf]
      cases hpte : Entry.present (s.mem.phys.read32
          (Entry.frame (dirOf s.mem.phys s.paging (dirIndex v)) + 4 * tableIndex v)) with
      | false =>
          have hzero := and_present_eq_zero.mpr hpte
          rw [leafOf_absent hpte, bind_apply, assert_false (not_not.mpr hzero)]
          rfl
      | true =>
          have hframe : ∀ e : Word, BitVec.ofNat 32 (Entry.frame e) = e &&& pageAlign := fun e => by
            rw [Entry.frame_eq, BitVec.ofNat_toNat, BitVec.setWidth_eq]
          rw [leafOf_some hp hpte, bind_run (assert_true (Entry.and_present_ne_zero hpte)), bind_run hload'']
          exact congrArg (fun e => Except.ok (e, s)) (hframe _).symm

end Switched

/-! ## The invariant -/

/-- A call for `virt` from `s` to `s'` takes the page at `t` of the heap for a table. -/
def TableTaken (s s' : Kernel Mmu) (virt t : Word) : Prop :=
  Entry.present (dirOf s.mem.phys s.paging (dirIndex virt)) = false ∧
    Alloc.kmallocEarlyAlign pageTableSize s.alloc = .ok (t, s'.alloc)

/-- The pages in `P` have the frames the kernel expects, among them those of the structures. -/
structure Fixed (layout : Layout) (P : Word → Prop) (s : Kernel Mmu) (cur : Nat) : Prop
    extends Switched layout s cur where
  fixed : ∀ v, P v → v.toNat % 4096 = 0 ∧ layout.kernelStart.toNat ≤ v.toNat ∧
    ∃ w, s.mem.walk v = some { frame := physOf v, writable := w }
  structures : ∀ v, StructureAt s.mem.phys s.paging v → P v

/-- The screen is mapped, to none of the frames of the pages in `P`. -/
structure Running (layout : Layout) (P : Word → Prop) (f₀ f₁ : Nat) (s : Kernel Mmu) (cur : Nat) : Prop
    extends Fixed layout P s cur where
  first : ∃ w, s.mem.walk vgaAddress = some { frame := f₀, writable := w }
  second : ∃ w, s.mem.walk vgaSecondPage = some { frame := f₁, writable := w }
  screen : ∀ v x, P v → ScreenFrames f₀ f₁ x → ¬InFrame (physOf v) x

namespace Fixed

variable {layout : Layout} {P : Word → Prop} {f₀ f₁ cur cur' i : Nat} {s s' : Kernel Mmu}
  {v t virt phys perm r : Word} {a' : Alloc}

theorem mapped (h : Fixed layout P s cur) : Switched.StructuresMapped s :=
  fun v hv => (h.fixed v (h.structures v hv)).2.2

theorem dir_fixed (h : Fixed layout P s cur) : P s.paging.pageDirectory := h.structures _ (.inl rfl)

theorem rev_fixed (h : Fixed layout P s cur) : P s.paging.ptPhysToVirt := h.structures _ (.inr (.inl rfl))

theorem table_fixed (h : Fixed layout P s cur) (hi : i < 1024)
    (hp : Entry.present (dirOf s.mem.phys s.paging i) = true) : P (revOf s.mem.phys s.paging i) :=
  h.structures _ (.inr (.inr ⟨i, hi, hp, rfl⟩))

/-- A store to the entry of a page that is not fixed leaves the pages that are. -/
theorem seen_store (h : Fixed layout P s cur)
    (hp : Entry.present (dirOf s.mem.phys s.paging (dirIndex virt)) = true) (hvirt : virt.toNat % 4096 = 0)
    (hfree : ¬P virt) (hv : P v) :
    s.mem.Seen (InWord (pteAt s.mem.phys s.paging virt)) v (physOf v) := by
  obtain ⟨hmod, _, hw⟩ := h.fixed v hv
  refine ⟨h.on, hw, ?_⟩
  rw [h.root]
  refine h.tables.steady_store hp fun hpage => hfree ?_
  rwa [← eq_of_pageOf_eq hmod hvirt hpage]

theorem end_lt (h : Fixed layout P s cur) (hl : layout.Linked) :
    layout.earlyKmallocEnd.toNat < 0xC0700000 ∧ 0xC0100000 < s.paging.pageDirectory.toNat := by
  have hlow := h.low
  have hgt := hl.start_gt
  exact ⟨Booting.end_lt hl, by omega⟩

/-- Where the next table goes. -/
theorem alloc_next (h : Fixed layout P s cur) (hl : layout.Linked)
    (halloc : Alloc.kmallocEarlyAlign pageTableSize s.alloc = .ok (t, a')) :
    t.toNat = roundUp s.alloc.currentBase.toNat ∧ t.toNat + 4096 = a'.currentBase.toNat := by
  obtain ⟨hend, _⟩ := h.end_lt hl
  obtain ⟨ht, htop, _⟩ := Alloc.kmallocEarlyAlign_table h.heap (by omega) halloc
  exact ⟨ht, htop⟩

theorem alloc_table (h : Fixed layout P s cur) (hl : layout.Linked)
    (halloc : Alloc.kmallocEarlyAlign pageTableSize s.alloc = .ok (t, a')) :
    t.toNat % 4096 = 0 ∧ cur ≤ t.toNat ∧ t.toNat + 4096 = a'.currentBase.toNat ∧
      a'.InHeap layout.earlyKmallocStart layout.earlyKmallocEnd := by
  obtain ⟨hend, _⟩ := h.end_lt hl
  obtain ⟨_, _, hheap⟩ := Alloc.kmallocEarlyAlign_table h.heap (by omega) halloc
  obtain ⟨ht, htop⟩ := h.alloc_next hl halloc
  have hmod := roundUp_mod s.alloc.currentBase.toNat
  have hle := le_roundUp s.alloc.currentBase.toNat
  have hbase := h.base
  exact ⟨by omega, by omega, htop, hheap⟩

/-- The walk after a call. -/
theorem walk_next (h : Fixed layout P s cur)
    (hmap : PageMapped s s' f₀ f₁ cur cur' virt phys perm r) (v : Word) :
    s'.mem.walk v = if pageOf v = pageOf virt then some {
        frame := phys.toNat
        writable := Entry.writable (mappedEntry
          (entryOf s.mem.phys s.paging (dirIndex virt) (tableIndex virt)) phys perm) }
      else s.mem.walk v := by
  have hwalk := hmap.mapped.walk v
  have hroot : s'.mem.root = s.mem.root := by
    obtain ⟨_, _, _, _, rfl⟩ := hmap.state
    rfl
  rw [Mmu.walk, hroot, h.root, h.walk_eq]
  exact hwalk

/-- A call for a page whose table is there comes back, wherever the screen is. -/
theorem pageMap_there (h : Fixed layout P s cur) (f₀ f₁ : Nat) (hvirt : virt.toNat % 4096 = 0)
    (hphys : phys.toNat % 4096 = 0) (hperm : perm.toNat < 4096)
    (hp : Entry.present (dirOf s.mem.phys s.paging (dirIndex virt)) = true) (hfree : ¬P virt) :
    Returns (pageMap virt phys perm) s fun r s' =>
      PageMapped s s' f₀ f₁ cur cur virt phys perm r ∧ s'.alloc = s.alloc := by
  have htable := h.seen_store hp hvirt hfree (h.table_fixed (dirIndex_lt virt) hp)
  have hdir := h.toSwitched.seen (h.fixed _ h.dir_fixed).2.2
  have hrev := h.toSwitched.seen (h.fixed _ h.rev_fixed).2.2
  refine (pageMap_present_returns f₀ f₁ hvirt hphys hperm h.tables hp hdir hrev htable).mono fun r s' hmap =>
    ⟨hmap, ?_⟩
  rcases hmap.heap with ⟨_, heq, _⟩ | ⟨_, habsent, _⟩
  · exact heq
  · rw [hp] at habsent
    cases habsent

/-- After a call the structures are where they were, but for a table it has made. -/
theorem structureAt_next (hmap : PageMapped s s' f₀ f₁ cur cur' virt phys perm r)
    (hv : StructureAt s'.mem.phys s.paging v) :
    StructureAt s.mem.phys s.paging v ∨ TableTaken s s' virt v := by
  have hkept := hmap.mapped.kept
  rcases hv with hv | hv | ⟨i, hi, hp, rfl⟩
  · exact .inl (.inl hv)
  · exact .inl (.inr (.inl hv))
  · by_cases hold : i = dirIndex virt → Entry.present (dirOf s.mem.phys s.paging i) = true
    · obtain ⟨hdir, hrev⟩ := hkept i hi hold
      exact .inl (.inr (.inr ⟨i, hi, hdir ▸ hp, hrev⟩))
    · obtain ⟨rfl, hnot⟩ := Classical.not_imp.mp hold
      rcases hmap.heap with ⟨hpresent, _⟩ | ⟨t, habsent, halloc, _, _, hrev⟩
      · exact absurd hpresent hnot
      · exact .inr ⟨habsent, hrev ▸ halloc⟩

/-- A call that is for no fixed page leaves the fixed pages. -/
theorem next (h : Fixed layout P s cur) (hvirt : virt.toNat % 4096 = 0)
    (hmap : PageMapped s s' f₀ f₁ cur cur' virt phys perm r) (hfree : ¬P virt)
    (hnew : ∀ t, TableTaken s s' virt t → P t)
    (hheap : s'.alloc.InHeap layout.earlyKmallocStart layout.earlyKmallocEnd)
    (hbase : cur' ≤ s'.alloc.currentBase.toNat) : Fixed layout P s' cur' := by
  have hwalk := h.walk_next hmap
  have hfixed : ∀ v, P v → v.toNat % 4096 = 0 ∧ layout.kernelStart.toNat ≤ v.toNat ∧
      ∃ w, s'.mem.walk v = some { frame := physOf v, writable := w } := by
    intro v hv
    obtain ⟨hmod, hlow, hw⟩ := h.fixed v hv
    rw [hwalk, if_neg fun hpage => hfree (by rwa [← eq_of_pageOf_eq hmod hvirt hpage])]
    exact ⟨hmod, hlow, hw⟩
  have hstart : s'.vga.LineStart := by
    rcases hmap.console with heq | hstart
    · rw [heq]
      exact h.console
    · exact hstart
  have htables := hmap.mapped.tables
  have hstructures := fun v hv => structureAt_next (v := v) hmap hv
  obtain ⟨phys', a', ports, vga, rfl⟩ := hmap.state
  refine ⟨⟨h.on, h.root, h.enabled, htables, h.low, hheap, hbase, hstart⟩, hfixed, fun v hv => ?_⟩
  rcases hstructures v hv with hv | htaken
  · exact h.structures v hv
  · exact hnew v htaken

/-! ## Making a table -/

theorem walk_agree {A : Nat → Prop} {m : Bytes} (h : Fixed layout P s cur) (hm : AgreeOff A s.mem.phys m)
    (hA : ∀ x, A x → ¬StructureFrames s.paging cur x) (v : Word) : (s.withPhys m).mem.walk v = s.mem.walk v := by
  rw [h.walk_eq]
  show lookup m s.mem.root v = _
  rw [h.root]
  exact h.tables.steady hA v m hm

/-- Stores beside the structures change nothing that matters. -/
theorem agree {A : Nat → Prop} {m : Bytes} (h : Fixed layout P s cur) (hm : AgreeOff A s.mem.phys m)
    (hA : ∀ x, A x → ¬StructureFrames s.paging cur x) : Fixed layout P (s.withPhys m) cur := by
  refine { h with tables := h.tables.agree hm hA, fixed := fun v hv => ?_, structures := fun v hv => ?_ }
  · rw [h.walk_agree hm hA]
    exact h.fixed v hv
  · exact h.structures v (Tables.structureAt_congr (fun i hi => h.tables.agree_slots hm hA hi) hv)

/-- Making a table leaves the pages that are mapped. -/
theorem seen_make {f : Nat} {S : Nat → Prop} (h : Fixed layout P s cur)
    (hn : TableSpace s.mem.phys s.paging cur i t S)
    (hw : ∃ w, s.mem.walk v = some { frame := f, writable := w }) :
    s.mem.Seen (TableStores s.paging i (physOf t) S) v f := by
  refine ⟨h.on, hw, ?_⟩
  rw [h.root]
  refine h.tables.steady_make hn ?_
  rintro rfl
  obtain ⟨w, hw⟩ := hw
  rw [h.walk_eq] at hw
  have hpresent := (lookup_some hw).1
  have habsent := hn.absent
  rw [dirOf, hpresent] at habsent
  cases habsent

/-- While a table is made the kernel reaches what it needs. -/
theorem tableView (h : Fixed layout P s cur)
    (hn : TableSpace s.mem.phys s.paging cur i t (ScreenFrames f₀ f₁)) (ht : P t)
    (hfirst : ∃ w, s.mem.walk vgaAddress = some { frame := f₀, writable := w })
    (hsecond : ∃ w, s.mem.walk vgaSecondPage = some { frame := f₁, writable := w })
    (hheap : a'.InHeap layout.earlyKmallocStart layout.earlyKmallocEnd) (hbase : cur ≤ a'.currentBase.toNat) :
    TableView { s with alloc := a' } i t f₀ f₁ := by
  have hseen : ∀ v, P v → s.mem.Seen (TableStores s.paging i (physOf t) (ScreenFrames f₀ f₁)) v (physOf v) :=
    fun v hv => h.seen_make hn (h.fixed v hv).2.2
  have hscreen : ScreenSeen s.mem (TableStores s.paging i (physOf t) (ScreenFrames f₀ f₁)) f₀ f₁ :=
    ⟨h.seen_make hn hfirst, h.seen_make hn hsecond, fun x hx => .inr (.inr (.inr hx))⟩
  refine ⟨hseen _ h.dir_fixed, hseen _ h.rev_fixed, hseen t ht, hscreen, fun m hm => ?_⟩
  have hapart : ∀ x, InFrame (physOf t) x → ¬StructureFrames s.paging cur x := by
    intro x hx hin
    have hf := hn.frame
    have hlow := hx.1
    have hhigh := hin.2
    omega
  have hrun := h.agree hm hapart
  obtain ⟨w, hw⟩ := (hrun.fixed t ht).2.2
  have hswitched : Switched layout { s.withPhys m with alloc := a' } cur :=
    ⟨hrun.on, hrun.root, hrun.enabled, hrun.tables, hrun.low, hheap, hbase, hrun.console⟩
  have htranslate := hswitched.virtToPhys_eq hrun.mapped t
  have hresult : BitVec.ofNat 32 (physOf t) = t - virtBase := by
    have hge := h.tables.dir_ge
    have hcur := h.tables.cur_ge
    have habove := hn.above
    rw [← toNat_sub_virtBase (by omega), BitVec.ofNat_toNat, BitVec.setWidth_eq]
  have hwalk : ({ s.withPhys m with alloc := a' } : Kernel Mmu).mem.walk t =
      some { frame := physOf t, writable := w } := hw
  rw [hwalk] at htranslate
  rw [← hresult]
  exact htranslate

end Fixed

namespace Running

variable {layout : Layout} {P : Word → Prop} {f₀ f₁ f cur i : Nat} {s : Kernel Mmu} {v t virt : Word}

/-- Stores beside the structures leave the kernel running. -/
theorem agree {A : Nat → Prop} {m : Bytes} (h : Running layout P f₀ f₁ s cur) (hm : AgreeOff A s.mem.phys m)
    (hA : ∀ x, A x → ¬StructureFrames s.paging cur x) : Running layout P f₀ f₁ (s.withPhys m) cur := by
  refine ⟨h.toFixed.agree hm hA, ?_, ?_, h.screen⟩
  · rw [h.walk_agree hm hA]
    exact h.first
  · rw [h.walk_agree hm hA]
    exact h.second

/-! ## One call -/

section Call

variable {s' : Kernel Mmu} {cur' : Nat} {phys perm r : Word} {a' : Alloc}

/-- The screen is off the structures. -/
theorem tableRoom (h : Running layout P f₀ f₁ s cur) (hi : i < 1024)
    (hp : Entry.present (dirOf s.mem.phys s.paging i) = false) (hmod : t.toNat % 4096 = 0)
    (habove : cur ≤ t.toNat) (ht : P t) : TableRoom s.mem.phys s.paging cur i t (ScreenFrames f₀ f₁) := by
  refine ⟨⟨hi, hp, hmod, habove, ?_⟩, fun x hx => h.screen _ x h.rev_fixed hx, fun x hx => h.screen t x ht hx⟩
  rintro x hx (hx' | ⟨j, hj, hpj, hx'⟩)
  · exact h.screen _ x h.dir_fixed hx hx'
  · rw [(h.tables.table hj hpj).frame] at hx'
    exact h.screen _ x (h.table_fixed hj hpj) hx hx'

/-- A call for a page without a table makes one. -/
theorem pageMap_make (h : Running layout P f₀ f₁ s cur) (hl : layout.Linked) (hvirt : virt.toNat % 4096 = 0)
    (hphys : phys.toNat % 4096 = 0) (hperm : perm.toNat < 4096)
    (hp : Entry.present (dirOf s.mem.phys s.paging (dirIndex virt)) = false)
    (halloc : Alloc.kmallocEarlyAlign pageTableSize s.alloc = .ok (t, a')) (ht : P t) :
    Returns (pageMap virt phys perm) s fun r s' =>
      PageMapped s s' f₀ f₁ cur (t.toNat + 4096) virt phys perm r := by
  obtain ⟨hmod, habove, htop, hheap⟩ := h.alloc_table hl halloc
  have hn := h.tableRoom (dirIndex_lt virt) hp hmod habove ht
  have hview := h.toFixed.tableView hn.toTableSpace ht h.first h.second hheap (by omega)
  exact pageMap_absent_returns hvirt hphys hperm h.tables hn halloc hview h.console.ready (by decide)

/-- A page of the screen is off the fixed frames after a call, too. -/
theorem screen_next (h : Running layout P f₀ f₁ s cur) (hvirt : virt.toNat % 4096 = 0)
    (hphys : phys.toNat % 4096 = 0) (hmap : PageMapped s s' f₀ f₁ cur cur' virt phys perm r) {a : Word}
    (ha : a.toNat % 4096 = 0) (hold : ∃ w, s.mem.walk a = some { frame := f, writable := w })
    (hoff : ∀ v x, P v → InFrame f x → ¬InFrame (physOf v) x)
    (hscreen : virt = a → ∀ v, P v → physOf v ≠ phys.toNat) :
    ∃ g, (∃ w, s'.mem.walk a = some { frame := g, writable := w }) ∧
      ∀ v x, P v → InFrame g x → ¬InFrame (physOf v) x := by
  rw [h.walk_next hmap]
  by_cases hpage : pageOf a = pageOf virt
  · refine ⟨phys.toNat, ⟨_, if_pos hpage⟩, fun v x hv hx hx' => ?_⟩
    obtain ⟨hmod, hlow, _⟩ := h.fixed v hv
    have hne := hscreen (eq_of_pageOf_eq hvirt ha hpage.symm) v hv
    have hge := h.tables.dir_ge
    unfold InFrame physOf at *
    omega
  · rw [if_neg hpage]
    exact ⟨f, hold, hoff⟩

/-- A call leaves the invariant if it is for no fixed page, and does not bring the screen to the frame
of one. -/
theorem next (h : Running layout P f₀ f₁ s cur) (hvirt : virt.toNat % 4096 = 0)
    (hphys : phys.toNat % 4096 = 0) (hmap : PageMapped s s' f₀ f₁ cur cur' virt phys perm r)
    (hfree : ¬P virt) (hscreen : virt = vgaAddress ∨ virt = vgaSecondPage → ∀ v, P v → physOf v ≠ phys.toNat)
    (hnew : ∀ t, TableTaken s s' virt t → P t)
    (hheap : s'.alloc.InHeap layout.earlyKmallocStart layout.earlyKmallocEnd)
    (hbase : cur' ≤ s'.alloc.currentBase.toNat) : ∃ g₀ g₁, Running layout P g₀ g₁ s' cur' := by
  obtain ⟨g₀, hfirst, hoff₀⟩ := h.screen_next hvirt hphys hmap (a := vgaAddress) (by decide) h.first
    (fun v x hv hx => h.screen v x hv (.inl hx)) fun heq => hscreen (.inl heq)
  obtain ⟨g₁, hsecond, hoff₁⟩ := h.screen_next hvirt hphys hmap (a := vgaSecondPage) (by decide) h.second
    (fun v x hv hx => h.screen v x hv (.inr hx)) fun heq => hscreen (.inr heq)
  refine ⟨g₀, g₁, h.toFixed.next hvirt hmap hfree hnew hheap hbase, hfirst, hsecond, ?_⟩
  rintro v x hv (hx | hx)
  · exact hoff₀ v x hv hx
  · exact hoff₁ v x hv hx

/-- What a call that comes back has done. -/
theorem pageMap_mapped (h : Running layout P f₀ f₁ s cur) (hl : layout.Linked) (hperm : perm.toNat < 4096)
    (hrun : pageMap virt phys perm s = .ok (r, s')) (hfree : ¬P virt)
    (hnew : ∀ t, TableTaken s s' virt t → P t) :
    ∃ cur', PageMapped s s' f₀ f₁ cur cur' virt phys perm r ∧
      s'.alloc.InHeap layout.earlyKmallocStart layout.earlyKmallocEnd ∧ cur' ≤ s'.alloc.currentBase.toNat := by
  obtain ⟨hvirt, hphys⟩ := pageMap_aligned hrun
  cases hp : Entry.present (dirOf s.mem.phys s.paging (dirIndex virt)) with
  | true =>
      obtain ⟨hmap, halloc⟩ := (h.pageMap_there f₀ f₁ hvirt hphys hperm hp hfree).whenReturns r s' hrun
      rw [halloc]
      exact ⟨cur, hmap, h.heap, h.base⟩
  | false =>
      have hdir := h.toSwitched.seen (h.fixed _ h.dir_fixed).2.2
      obtain ⟨t, halloc⟩ := pageMap_absent_alloc hvirt hphys h.tables hp hdir hrun
      obtain ⟨_, _, htop, hheap⟩ := h.alloc_table hl halloc
      have hmap := (h.pageMap_make hl hvirt hphys hperm hp halloc (hnew t ⟨hp, halloc⟩)).whenReturns r s' hrun
      exact ⟨_, hmap, hheap, Nat.le_of_eq htop⟩

/-- It leaves the invariant, too. -/
theorem pageMap_whenReturns (h : Running layout P f₀ f₁ s cur) (hl : layout.Linked)
    (hperm : perm.toNat < 4096) (hrun : pageMap virt phys perm s = .ok (r, s')) (hfree : ¬P virt)
    (hscreen : virt = vgaAddress ∨ virt = vgaSecondPage → ∀ v, P v → physOf v ≠ phys.toNat)
    (hnew : ∀ t, TableTaken s s' virt t → P t) :
    ∃ cur' g₀ g₁, PageMapped s s' f₀ f₁ cur cur' virt phys perm r ∧ Running layout P g₀ g₁ s' cur' := by
  obtain ⟨hvirt, hphys⟩ := pageMap_aligned hrun
  obtain ⟨cur', hmap, hheap, hbase⟩ := h.pageMap_mapped hl hperm hrun hfree hnew
  obtain ⟨g₀, g₁, hnext⟩ := h.next hvirt hphys hmap hfree hscreen hnew hheap hbase
  exact ⟨cur', g₀, g₁, hmap, hnext⟩

end Call

end Running

end LizaOS
