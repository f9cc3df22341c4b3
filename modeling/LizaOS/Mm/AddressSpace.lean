-- SUMMARY: Runs of page_map after init_paging: the tables hold exactly the calls made, and translation in software agrees.
import LizaOS.Mm.OwnSpace

/-!
# The address space over whole runs

A run is `init_paging` and any number of calls of `page_map` after it. What the processor finds for a
page is the last call for it, or what `init_paging` has mapped there. The calls leave out the pages the
kernel needs for the calls themselves, and do not bring the screen onto their frames.
-/

namespace LizaOS

open Exec

/-! ## Runs -/

/-- The arguments of a call of `page_map`. -/
structure MapCall where
  virt : Word
  phys : Word
  perm : Word
  deriving DecidableEq, Repr

def MapCall.run (c : MapCall) : K Mmu Word := pageMap c.virt c.phys c.perm

/-- The calls one after the other, with what they return. -/
def mapAll : List MapCall → K Mmu (List Word)
  | [] => pure []
  | c :: calls => do
      let t ← c.run
      let ts ← mapAll calls
      pure (t :: ts)

/-- A page of the kernel image that is not all heap. -/
def Layout.ImagePage (layout : Layout) (v : Word) : Prop :=
  layout.kernelStart.toNat ≤ v.toNat ∧ v.toNat < layout.kernelEnd.toNat ∧
    (v.toNat < layout.earlyKmallocStart.toNat ∨ layout.earlyKmallocEnd.toNat < v.toNat + 4096)

/-- The pages of the heap from the directory to `lim`. Each of them holds the directory, the reverse
mapping or a table by the time the heap has grown to `lim`. -/
def StructurePage (dir : Word) (lim : Nat) (v : Word) : Prop :=
  v.toNat % 4096 = 0 ∧ dir.toNat ≤ v.toNat ∧ v.toNat + 4096 ≤ lim

/-- A call for a page that is neither of the image nor of the structures. -/
structure MapCall.Allowed (layout : Layout) (dir : Word) (lim : Nat) (c : MapCall) : Prop where
  perm : c.perm.toNat < 4096
  image : ¬layout.ImagePage c.virt
  structures : ¬StructurePage dir lim c.virt

/-- A call that brings a page of the screen to a frame brings it to none of the structures. -/
def MapCall.OffScreen (dir : Word) (lim : Nat) (c : MapCall) : Prop :=
  c.virt = vgaAddress ∨ c.virt = vgaSecondPage → ∀ v, StructurePage dir lim v → physOf v ≠ c.phys.toNat

/-! ## What a run leaves -/

/-- The last call for the page of `v`. -/
def lastCall (calls : List MapCall) (v : Word) : Option MapCall :=
  calls.reverse.find? fun c => pageOf c.virt = pageOf v

/-- Where the page of `v` is mapped after the calls, if it was mapped to `f` before. -/
def frameAfter (calls : List MapCall) (f : Option Nat) (v : Word) : Option Nat :=
  match lastCall calls v with
  | some c => some c.phys.toNat
  | none => f

theorem frameAfter_cons (c : MapCall) (calls : List MapCall) (f : Option Nat) (v : Word) :
    frameAfter (c :: calls) f v =
      frameAfter calls (if pageOf v = pageOf c.virt then some c.phys.toNat else f) v := by
  have hlast : lastCall (c :: calls) v =
      (lastCall calls v).or (if pageOf c.virt = pageOf v then some c else none) := by
    rw [lastCall, List.reverse_cons, List.find?_append]
    congr 1
    by_cases h : pageOf c.virt = pageOf v <;> simp [h]
  rw [frameAfter, hlast, frameAfter]
  cases lastCall calls v with
  | some _ => rfl
  | none =>
      by_cases h : pageOf c.virt = pageOf v
      · simp [h]
      · simp [h, Ne.symm h]

/-- The tables of `s` are still there in `s'`. -/
def TablesKept (s s' : Kernel Mmu) : Prop :=
  s'.paging = s.paging ∧ ∀ i, i < 1024 → Entry.present (dirOf s.mem.phys s.paging i) = true →
    dirOf s'.mem.phys s.paging i = dirOf s.mem.phys s.paging i ∧
      revOf s'.mem.phys s.paging i = revOf s.mem.phys s.paging i

instance : IsPreorder (Kernel Mmu) TablesKept where
  refl _ := ⟨rfl, fun _ _ _ => ⟨rfl, rfl⟩⟩
  trans _ _ _ h h' := by
    obtain ⟨hpaging, hkept⟩ := h
    obtain ⟨hpaging', hkept'⟩ := h'
    refine ⟨hpaging'.trans hpaging, fun i hi hp => ?_⟩
    obtain ⟨hdir, hrev⟩ := hkept i hi hp
    rw [hpaging] at hkept'
    obtain ⟨hdir', hrev'⟩ := hkept' i hi (by rw [hdir]; exact hp)
    exact ⟨hdir'.trans hdir, hrev'.trans hrev⟩

/-- `t` is the address of the entry of `virt`. -/
def EntryAddress (s : Kernel Mmu) (virt t : Word) : Prop :=
  t.toNat % 4 = 0 ∧ s.mem.translate t = .ok (pteAt s.mem.phys s.paging virt)

section Run

variable {layout : Layout} {s s' s₀ s₁ : Kernel Mmu} {cur f₀ f₁ lim : Nat} {P : Word → Prop}
  {calls : List MapCall} {ts : List Word} {virt : Word}

theorem PageMapped.tablesKept {cur' : Nat} {phys perm r : Word}
    (h : PageMapped s s' f₀ f₁ cur cur' virt phys perm r) : TablesKept s s' := by
  have hkept := h.mapped.kept
  obtain ⟨_, _, _, _, rfl⟩ := h.state
  exact ⟨rfl, fun i hi hp => hkept i hi fun _ => hp⟩

/-- The address `page_map` computes is the one of the entry. -/
theorem Fixed.entryAddress (h : Fixed layout P s cur)
    (hp : Entry.present (dirOf s.mem.phys s.paging (dirIndex virt)) = true) :
    EntryAddress s virt (entryAddr (revOf s.mem.phys s.paging (dirIndex virt)) (pageTableI virt)) := by
  have ht := h.tables.table (dirIndex_lt virt) hp
  have hlt : (pageTableI virt).toNat < 1024 := by
    rw [pageTableI_toNat]
    exact tableIndex_lt virt
  have haddr := entryAddr_toNat ht.mod hlt
  have hmod := ht.mod
  have hseen := h.toSwitched.seen (h.fixed _ (h.table_fixed (dirIndex_lt virt) hp)).2.2
  refine ⟨by omega, ?_⟩
  rw [(hseen.congr (pageOf_entryAddr hmod hlt)).translate_self, pteAt, ht.frame, haddr, pageTableI_toNat]
  have hlt' := tableIndex_lt virt
  have hoff : ((revOf s.mem.phys s.paging (dirIndex virt)).toNat + 4 * tableIndex virt) % 4096 =
      4 * tableIndex virt := by omega
  rw [hoff]

theorem mapAll_heapGrows {base max : Word} (hmax : max.toNat + 8192 < 2 ^ 32) (calls : List MapCall) :
    Respects (HeapGrows base max) (mapAll calls) := by
  induction calls with
  | nil => exact .pure _
  | cons c calls ih =>
      exact (pageMap_heapGrows hmax _ _ _).bind fun _ => ih.bind fun _ => .pure _

/-- `init_paging` leaves the structures and the screen where the kernel expects them. -/
theorem AfterPaging.running (h : AfterPaging layout s₀ s) (hl : layout.Linked)
    (hkernel : ∀ v, P v → layout.KernelPage v) (hstructures : ∀ v, StructureAt s.mem.phys s.paging v → P v) :
    Running layout P 0xB8000 0xB9000 s s.alloc.currentBase.toNat := by
  have hgt := hl.start_gt
  have hround := le_roundUp layout.kernelEnd.toNat
  have hscreen : ∀ a : Word, a.toNat < 0x100000 → a.toNat % 4096 = 0 →
      s.mem.walk a = some { frame := a.toNat, writable := true } := by
    intro a ha hmod
    have hpage : 4096 * pageOf a = a.toNat := by
      unfold pageOf
      omega
    rw [h.walk, Layout.initial, if_pos ha, hpage]
  refine ⟨⟨h.switched, fun v hv => ?_, hstructures⟩, ?_, ?_, fun v x hv hx hx' => ?_⟩
  · obtain ⟨hmod, hlow, hhigh⟩ := hkernel v hv
    have hpage : 4096 * pageOf v = v.toNat := by
      unfold pageOf
      omega
    refine ⟨hmod, hlow, true, ?_⟩
    rw [h.walk, Layout.initial, if_neg (by omega), if_pos ⟨hlow, by omega⟩, hpage]
    rfl
  · exact ⟨true, hscreen vgaAddress (by decide) (by decide)⟩
  · exact ⟨true, hscreen vgaSecondPage (by decide) (by decide)⟩
  · have hlow := bootScreen_low hx
    have hstart := (hkernel v hv).low
    have hphys := physOf_add (v := v) (by omega)
    have hge := hx'.1
    omega

/-- The pages of the heap a run may use for structures. -/
theorem AfterPaging.running_heap (h : AfterPaging layout s₀ s) (hl : layout.Linked)
    (hlim : lim ≤ layout.earlyKmallocEnd.toNat) (hbase : s.alloc.currentBase.toNat ≤ lim) :
    Running layout (StructurePage s.paging.pageDirectory lim) 0xB8000 0xB9000 s s.alloc.currentBase.toNat := by
  have hlow := h.switched.low
  have hhigh := hl.heap_high
  refine h.running hl ?_ fun v hv => ?_
  · rintro v ⟨hmod, hge, hv⟩
    exact ⟨hmod, by omega, by omega⟩
  · obtain ⟨hmod, hge, hv⟩ := h.switched.tables.structureAt_inside hv
    exact ⟨hmod, hge, by omega⟩

/-- An allowed call leaves the kernel running. -/
theorem Running.call_next (hl : layout.Linked) {dir t : Word} {c : MapCall}
    (h : Running layout (StructurePage dir lim) f₀ f₁ s cur) (hdir : s.paging.pageDirectory = dir)
    (hallowed : c.Allowed layout dir lim) (hoff : c.OffScreen dir lim) (hcall : c.run s = .ok (t, s₁))
    (hbase : s₁.alloc.currentBase.toNat ≤ lim) :
    ∃ cur₁ g₀ g₁, PageMapped s s₁ f₀ f₁ cur cur₁ c.virt c.phys c.perm t ∧
      Running layout (StructurePage dir lim) g₀ g₁ s₁ cur₁ := by
  have hcur := h.tables.cur_ge
  rw [hdir] at hcur
  refine h.pageMap_whenReturns hl hallowed.perm hcall hallowed.structures hoff ?_
  rintro t' ⟨_, halloc⟩
  obtain ⟨hmod, habove, htop, _⟩ := h.alloc_table hl halloc
  exact ⟨hmod, by omega, by omega⟩

/-- A run of calls leaves the kernel running, and the tables changed for the pages called for. -/
theorem mapAll_running (hl : layout.Linked) {dir : Word}
    (hcalls : ∀ c ∈ calls, c.Allowed layout dir lim ∧ c.OffScreen dir lim)
    (h : Running layout (StructurePage dir lim) f₀ f₁ s cur) (hdir : s.paging.pageDirectory = dir)
    (hrun : mapAll calls s = .ok (ts, s')) (hbase : s'.alloc.currentBase.toNat ≤ lim) :
    ∃ cur' g₀ g₁, Running layout (StructurePage dir lim) g₀ g₁ s' cur' ∧ TablesKept s s' ∧
      (∀ v, (s'.mem.walk v).map Leaf.frame = frameAfter calls ((s.mem.walk v).map Leaf.frame) v) ∧
      List.Forall₂ (fun c t => EntryAddress s' c.virt t) calls ts := by
  induction calls generalizing s cur f₀ f₁ ts with
  | nil =>
      cases hrun
      exact ⟨cur, f₀, f₁, h, refl_of TablesKept s', fun v => rfl, .nil⟩
  | cons c calls ih =>
      obtain ⟨t, s₁, hcall, hrest⟩ := bind_ok.mp hrun
      obtain ⟨ts', s₂, hrest, hpure⟩ := bind_ok.mp hrest
      cases hpure
      obtain ⟨hallowed, hoff⟩ := hcalls c (List.mem_cons_self ..)
      obtain ⟨hend, _⟩ := h.end_lt hl
      -- the heap does not shrink
      have hgrows := pageMap_heapGrows (by omega) c.virt c.phys c.perm s t s₁ hcall h.heap
      have hgrows' := mapAll_heapGrows (by omega) calls s₁ ts' s' hrest hgrows.1
      obtain ⟨cur₁, g₀, g₁, hmap, h₁⟩ := h.call_next hl hdir hallowed hoff hcall (by omega)
      have hkept := hmap.tablesKept
      obtain ⟨cur', k₀, k₁, h', hkept', hwalk, haddrs⟩ := ih (fun c hc => hcalls c (List.mem_cons_of_mem _ hc)) h₁
        (by rw [hkept.1, hdir]) hrest
      refine ⟨cur', k₀, k₁, h', trans_of TablesKept hkept hkept', fun v => ?_, .cons ?_ haddrs⟩
      · rw [hwalk, h.walk_next hmap, frameAfter_cons]
        split <;> rfl
      · have hpresent := hmap.mapped.present
        obtain ⟨hpaging, hsame⟩ := hkept'
        rw [hkept.1] at hsame hpaging
        obtain ⟨hdir', hrev'⟩ := hsame _ (dirIndex_lt c.virt) hpresent
        have hlater : Entry.present (dirOf s'.mem.phys s'.paging (dirIndex c.virt)) = true := by
          rw [hpaging, hdir']
          exact hpresent
        have haddr := h'.toFixed.entryAddress hlater
        rw [hpaging, hrev', ← hmap.result] at haddr
        exact haddr

end Run

end LizaOS
