-- SUMMARY: Accesses and calls of page_map in any order, under a cache of translations that page_map does not invalidate.
import LizaOS.Machine.Tlb
import LizaOS.Mm.MapRuns

/-!
# Remapping under the cache

`page_map` changes an entry and no more: it does not write CR3 again and it does not invalidate the page.
What the processor has cached for the page stays in force. So a call takes effect at once if the page is
not cached, or is cached with the frame the call maps it to.

A call is one step. It goes through the pages of the image, of the structures and of the screen, which
may be cached by it. It does not go through the page it maps.
-/

namespace LizaOS

open Exec

/-- What happens behind `init_paging`: accesses, with the frame they go to, and calls that come back. -/
inductive PagingEvent where
  | load (v : Word) (f : Nat)
  | store (v : Word) (f : Nat) (b : Byte)
  | call (c : MapCall)

namespace PagingEvent

/-- The address and the frame of an access. -/
def accessed : PagingEvent → Option (Word × Nat)
  | load v f => some (v, f)
  | store v f _ => some (v, f)
  | call _ => none

def called : PagingEvent → Option MapCall
  | call c => some c
  | _ => none

end PagingEvent

/-- The kernel on a processor that caches translations. -/
structure Cached where
  kernel : Kernel Mmu
  tlb : Tlb

namespace Cached

inductive Step : Cached → PagingEvent → Cached → Prop
  | load {s : Kernel Mmu} {t t' : Tlb} {v : Word} {f : Nat} (hf : t.Reaches s.mem v f)
      (ht : t.Fills (· = pageOf v) s.mem t') : Step ⟨s, t⟩ (.load v f) ⟨s, t'⟩
  | store {s : Kernel Mmu} {t t' : Tlb} {v : Word} {f : Nat} {b : Byte} (hf : t.Reaches s.mem v f)
      (ht : t.Fills (· = pageOf v) s.mem t') :
      Step ⟨s, t⟩ (.store v f b) ⟨s.withPhys (s.mem.phys.write8 (f + v.toNat % 4096) b), t'⟩
  | call {s s' : Kernel Mmu} {t t' : Tlb} {c : MapCall} {r : Word} (hrun : c.run s = .ok (r, s'))
      (ht : t.Fills (· ≠ pageOf c.virt) s'.mem t') : Step ⟨s, t⟩ (.call c) ⟨s', t'⟩

/-- A run whose steps meet the condition `ok`. -/
inductive Run (ok : Tlb → PagingEvent → Prop) : Cached → List PagingEvent → Cached → Prop
  | nil (s : Cached) : Run ok s [] s
  | cons {s s' s'' : Cached} {e : PagingEvent} {es : List PagingEvent} (hok : ok s.tlb e)
      (hstep : Step s e s') (hrun : Run ok s' es s'') : Run ok s (e :: es) s''

end Cached

/-- Each access goes where the last call for its page has sent it that came back before the access, else
where the page has been before the run. -/
def TakesEffect (initial : Word → Option Nat) (es : List PagingEvent) : Prop :=
  ∀ before e after v f, es = before ++ e :: after → e.accessed = some (v, f) →
    frameAfter (before.filterMap PagingEvent.called) (initial v) v = some f

/-- The page of a call is not cached, or with the frame of the call. -/
def MapCall.Fresh (t : Tlb) (c : MapCall) : Prop := ∀ f, t (pageOf c.virt) = some f → f = c.phys.toNat

/-- A store goes to no frame of the structures, and a call is allowed and for a page that is not cached
with another frame. -/
def PagingEvent.Proper (layout : Layout) (dir : Word) (lim : Nat) (t : Tlb) : PagingEvent → Prop
  | load _ _ => True
  | store _ f _ => ∀ v, StructurePage dir lim v → physOf v ≠ f
  | call c => c.Allowed layout dir lim ∧ c.OffScreen dir lim ∧ c.Fresh t

/-! ## Runs, step by step -/

section Effect

variable {initial : Word → Option Nat} {e : PagingEvent} {es : List PagingEvent} {c : MapCall} {v : Word} {f : Nat}

theorem takesEffect_nil : TakesEffect initial [] := by
  rintro before e after v f h _
  cases before <;> cases h

/-- The rest of a run starts where the first step has left the pages. -/
theorem takesEffect_cons : TakesEffect initial (e :: es) ↔
    (∀ v f, e.accessed = some (v, f) → initial v = some f) ∧
      TakesEffect (fun v => frameAfter e.called.toList (initial v) v) es := by
  have hcalls : ∀ (before : List PagingEvent) (v : Word),
      frameAfter ((e :: before).filterMap PagingEvent.called) (initial v) v =
        frameAfter (before.filterMap PagingEvent.called) (frameAfter e.called.toList (initial v) v) v := by
    intro before v
    cases e with
    | call c =>
        show frameAfter (c :: before.filterMap PagingEvent.called) _ v = frameAfter _ (frameAfter [c] _ v) v
        rw [frameAfter_cons, frameAfter_cons]
        rfl
    | load _ _ => rfl
    | store _ _ _ => rfl
  constructor
  · intro h
    refine ⟨fun v f hacc => h [] e es v f rfl hacc, ?_⟩
    rintro before e' after v f rfl hacc
    rw [← hcalls]
    exact h (e :: before) e' after v f rfl hacc
  · rintro ⟨hfirst, hrest⟩ before e' after v f hes hacc
    cases before with
    | nil =>
        cases hes
        exact hfirst v f hacc
    | cons e₁ before =>
        cases hes
        rw [hcalls]
        exact hrest before e' after v f rfl hacc

end Effect

section Steps

variable {layout : Layout} {P : Word → Prop} {dir : Word} {lim cur f₀ f₁ : Nat} {s s' : Cached} {e : PagingEvent}
  {es : List PagingEvent} {ok : Tlb → PagingEvent → Prop}

/-- Each byte of the structures is in the frame of a page of theirs. -/
theorem structureFrame {paging : Paging} {x : Nat} (hdir : 0xC0000000 ≤ paging.pageDirectory.toNat)
    (hmod : paging.pageDirectory.toNat % 4096 = 0) (hcur : cur % 4096 = 0) (hlim : cur ≤ lim) (hlt : lim < 2 ^ 32)
    (hx : StructureFrames paging cur x) : ∃ v, StructurePage paging.pageDirectory lim v ∧ InFrame (physOf v) x := by
  obtain ⟨hge, hx⟩ := hx
  have hphys := physOf_add hdir
  have hv : (BitVec.ofNat 32 (4096 * (x / 4096) + 0xC0000000)).toNat = 4096 * (x / 4096) + 0xC0000000 := by
    rw [BitVec.toNat_ofNat]
    omega
  generalize BitVec.ofNat 32 (4096 * (x / 4096) + 0xC0000000) = v at hv
  have hframe : physOf v = 4096 * (x / 4096) := by
    unfold physOf
    omega
  refine ⟨v, ⟨by omega, by omega, by omega⟩, ?_⟩
  rw [hframe]
  exact ⟨by omega, by omega⟩

/-- A store off the structures leaves the kernel running on the tables it has been on. -/
theorem Running.store {k : Kernel Mmu} {v : Word} {f : Nat} {b : Byte}
    (h : Running layout (StructurePage dir lim) f₀ f₁ k cur) (hdir : k.paging.pageDirectory = dir)
    (hf : (k.mem.walk v).map Leaf.frame = some f) (hoff : ∀ w, StructurePage dir lim w → physOf w ≠ f)
    (hbase : k.alloc.currentBase.toNat ≤ lim) (hlim : lim < 2 ^ 32) :
    Running layout (StructurePage dir lim) f₀ f₁
        (k.withPhys (k.mem.phys.write8 (f + v.toNat % 4096) b)) cur ∧
      ∀ w, (k.withPhys (k.mem.phys.write8 (f + v.toNat % 4096) b)).mem.walk w = k.mem.walk w := by
  obtain ⟨l, hwalk, rfl⟩ := Option.map_eq_some_iff.mp hf
  have hmod := lookup_frame_mod hwalk
  have hm : AgreeOff (· = l.frame + v.toNat % 4096) k.mem.phys (k.mem.phys.write8 (l.frame + v.toNat % 4096) b) :=
    .write8 rfl
  have hA : ∀ x, x = l.frame + v.toNat % 4096 → ¬StructureFrames k.paging cur x := by
    rintro x rfl hx
    have hge := h.tables.dir_ge
    have hdirmod := h.tables.dir_mod
    have hle := h.base
    obtain ⟨w, hw, hin⟩ := structureFrame (by omega) hdirmod h.tables.cur_mod (Nat.le_trans hle hbase) hlim hx
    rw [hdir] at hw hge hdirmod
    have hne := hoff w hw
    obtain ⟨hwmod, hwlow, _⟩ := hw
    unfold InFrame physOf at *
    omega
  exact ⟨h.agree hm hA, h.walk_agree hm hA⟩

/-- The kernel is running, on tables that the cache agrees with. -/
structure InForce (layout : Layout) (dir : Word) (lim : Nat) (s : Cached) : Prop where
  running : ∃ f₀ f₁ cur, Running layout (StructurePage dir lim) f₀ f₁ s.kernel cur
  dir_eq : s.kernel.paging.pageDirectory = dir
  agrees : s.tlb.Agrees s.kernel.mem

namespace Cached

/-- The heap does not shrink. -/
theorem Step.heapGrows {base max : Word} (hmax : max.toNat + 8192 < 2 ^ 32) (h : Step s e s') :
    HeapGrows base max s.kernel s'.kernel := by
  cases h with
  | load _ _ => exact refl_of (HeapGrows base max) _
  | store _ _ => exact fun hheap => ⟨hheap, Nat.le_refl _⟩
  | call hrun _ => exact pageMap_heapGrows hmax _ _ _ _ _ _ hrun

theorem Run.heapGrows {base max : Word} (hmax : max.toNat + 8192 < 2 ^ 32) (h : Run ok s es s') :
    HeapGrows base max s.kernel s'.kernel := by
  induction h with
  | nil s => exact refl_of (HeapGrows base max) s.kernel
  | cons _ hstep _ ih => exact trans_of (HeapGrows base max) (hstep.heapGrows hmax) ih

end Cached

namespace InForce

variable {k k' : Kernel Mmu} {t t' : Tlb} {v r : Word} {f : Nat} {b : Byte} {c : MapCall}

/-- What a step that is proper does: an access goes where the tables say, and a call maps its page. -/
structure Done (s : Cached) (e : PagingEvent) (s' : Cached) : Prop where
  accessed : ∀ v f, e.accessed = some (v, f) → (s.kernel.mem.walk v).map Leaf.frame = some f
  walk : ∀ v, (s'.kernel.mem.walk v).map Leaf.frame =
    frameAfter e.called.toList ((s.kernel.mem.walk v).map Leaf.frame) v

theorem load (h : InForce layout dir lim ⟨k, t⟩) (hf : t.Reaches k.mem v f)
    (ht : t.Fills (· = pageOf v) k.mem t') :
    InForce layout dir lim ⟨k, t'⟩ ∧ Done ⟨k, t⟩ (.load v f) ⟨k, t'⟩ := by
  refine ⟨⟨h.running, h.dir_eq, h.agrees.fills ht⟩, fun w g hw => ?_, fun w => rfl⟩
  cases hw
  exact h.agrees.reaches.mp hf

theorem store (h : InForce layout dir lim ⟨k, t⟩) (hf : t.Reaches k.mem v f)
    (ht : t.Fills (· = pageOf v) k.mem t') (hoff : ∀ w, StructurePage dir lim w → physOf w ≠ f)
    (hbase : k.alloc.currentBase.toNat ≤ lim) (hlim : lim < 2 ^ 32) :
    InForce layout dir lim ⟨k.withPhys (k.mem.phys.write8 (f + v.toNat % 4096) b), t'⟩ ∧
      Done ⟨k, t⟩ (.store v f b) ⟨k.withPhys (k.mem.phys.write8 (f + v.toNat % 4096) b), t'⟩ := by
  have hframe := h.agrees.reaches.mp hf
  obtain ⟨f₀, f₁, cur, hrunning⟩ := h.running
  obtain ⟨hstored, hwalk⟩ := hrunning.store (b := b) h.dir_eq hframe hoff hbase hlim
  refine ⟨⟨⟨f₀, f₁, cur, hstored⟩, h.dir_eq, fun w g hg => ?_⟩, fun w g hw => ?_, fun w => ?_⟩
  · rw [hwalk]
    exact h.agrees.fills ht w g hg
  · cases hw
    exact hframe
  · rw [hwalk]
    rfl

theorem call (hl : layout.Linked) (h : InForce layout dir lim ⟨k, t⟩) (hrun : c.run k = .ok (r, k'))
    (ht : t.Fills (· ≠ pageOf c.virt) k'.mem t') (hallowed : c.Allowed layout dir lim)
    (hoff : c.OffScreen dir lim) (hfresh : c.Fresh t) (hbase : k'.alloc.currentBase.toNat ≤ lim) :
    InForce layout dir lim ⟨k', t'⟩ ∧ Done ⟨k, t⟩ (.call c) ⟨k', t'⟩ := by
  obtain ⟨f₀, f₁, cur, hrunning⟩ := h.running
  obtain ⟨cur', g₀, g₁, hmap, hnext⟩ := hrunning.call_next hl h.dir_eq hallowed hoff hrun hbase
  have hwalk := hrunning.walk_next hmap
  have hagrees : t.Agrees k'.mem := by
    refine h.agrees.change (p := pageOf c.virt) (fun w hw => ?_) fun w g hw hg => ?_
    · rw [hwalk, if_neg hw]
    · rw [hwalk, if_pos hw, hfresh g hg]
      rfl
  have hdir := hmap.tablesKept.1
  refine ⟨⟨⟨g₀, g₁, cur', hnext⟩, ?_, hagrees.fills ht⟩, fun w g hw => ?_, fun w => ?_⟩
  · rw [← h.dir_eq]
    exact congrArg Paging.pageDirectory hdir
  · cases hw
  · show (k'.mem.walk w).map Leaf.frame = frameAfter [c] ((k.mem.walk w).map Leaf.frame) w
    rw [hwalk, frameAfter_cons]
    split
    · rfl
    · rfl

theorem step (hl : layout.Linked) (h : InForce layout dir lim s) (hok : e.Proper layout dir lim s.tlb)
    (hstep : Cached.Step s e s') (hbase : s'.kernel.alloc.currentBase.toNat ≤ lim) (hlim : lim < 2 ^ 32) :
    InForce layout dir lim s' ∧ Done s e s' := by
  cases hstep with
  | load hf ht => exact h.load hf ht
  | store hf ht => exact h.store hf ht hok hbase hlim
  | call hrun ht =>
      obtain ⟨hallowed, hoff, hfresh⟩ := hok
      exact h.call hl hrun ht hallowed hoff hfresh hbase

/-- In a run of proper steps each call takes effect. -/
theorem run (hl : layout.Linked) (h : InForce layout dir lim s)
    (hrun : Cached.Run (PagingEvent.Proper layout dir lim) s es s')
    (hbase : s'.kernel.alloc.currentBase.toNat ≤ lim) (hlim : lim < 2 ^ 32) :
    TakesEffect (fun v => (s.kernel.mem.walk v).map Leaf.frame) es := by
  induction hrun with
  | nil s => exact takesEffect_nil
  | cons hok hstep hrest ih =>
      obtain ⟨f₀, f₁, cur, hrunning⟩ := h.running
      obtain ⟨hend, _⟩ := hrunning.end_lt hl
      obtain ⟨hheap, _⟩ := hstep.heapGrows (by omega) hrunning.heap
      obtain ⟨_, hgrown⟩ := hrest.heapGrows (by omega) hheap
      obtain ⟨hnext, hdone⟩ := h.step hl hok hstep (Nat.le_trans hgrown hbase) hlim
      have hlater := ih hnext hbase
      simp only [hdone.walk] at hlater
      exact takesEffect_cons.mpr ⟨hdone.accessed, hlater⟩

end InForce

end Steps

/-! ## After init_paging -/

section Behind

variable {layout : Layout} {s₀ k : Kernel Mmu} {t : Tlb} {s' : Cached} {es : List PagingEvent}

end Behind

/-- A call for a page that is cached with another frame: the processor may go to the old one. -/
theorem remap_cached {k k' : Kernel Mmu} {t : Tlb} {c : MapCall} {r : Word} {f : Nat}
    (hcached : t (pageOf c.virt) = some f) (hne : f ≠ c.phys.toNat) (hrun : c.run k = .ok (r, k')) :
    Cached.Run (fun _ _ => True) ⟨k, t⟩ [.call c, .load c.virt f] ⟨k', t⟩ ∧
      ∀ initial, ¬TakesEffect initial [.call c, .load c.virt f] := by
  refine ⟨?_, fun initial heffect => ?_⟩
  · exact .cons trivial (.call hrun (.refl _ _ _)) (.cons trivial (.load (.inl hcached) (.refl _ _ _)) (.nil _))
  · have hlast := heffect [.call c] (.load c.virt f) [] c.virt f rfl rfl
    have hsent : frameAfter [c] (initial c.virt) c.virt = some c.phys.toNat := by
      rw [frameAfter_cons, if_pos rfl]
      rfl
    exact hne (Option.some.inj (hlast.symm.trans hsent))

/-! ## The machine that has booted -/

/-- A page of the first four megabytes is sent elsewhere. -/
theorem low_sent {c : MapCall} (hc : c.virt.toNat < 0x400000) (hvirt : c.virt.toNat % 4096 = 0)
    (hphys : c.phys.toNat % 4096 = 0) (hperm : c.perm.toNat < 4096) :
    Returns c.run pagingUp fun _ s => s.alloc = pagingUp.alloc ∧
      (s.mem.walk c.virt).map Leaf.frame = some c.phys.toNat := by
  have hrunning := pagingUp_running
  have hdir : dirIndex c.virt = 0 := by
    unfold dirIndex
    omega
  have hp : Entry.present (dirOf pagingUp.mem.phys pagingUp.paging (dirIndex c.virt)) = true := by
    rw [hdir]
    exact (pagingUp_present (by decide)).mpr (.inl rfl)
  have hcall := hrunning.pageMap_there 0xB8000 0xB9000 hvirt hphys hperm hp (not_nextPages_low (by omega))
  refine hcall.mono ?_
  rintro r s ⟨hmap, halloc⟩
  refine ⟨halloc, ?_⟩
  rw [hrunning.walk_next hmap, if_pos rfl]
  rfl

/-- One page is cached, and another is sent elsewhere. -/
def remapOther : List PagingEvent :=
  [.load 0x1000#32 0x1000, .call ⟨0x5000#32, 0x2000#32, pageEntryRw⟩, .load 0x5004#32 0x2000,
    .store 0x5004#32 0x2000 7#8]

theorem pagingUp_page : (pagingUp.mem.walk 0x1000#32).map Leaf.frame = some 0x1000 := by
  rw [pagingUp_after.walk]
  decide

/-- The page that is cached is sent elsewhere. -/
def remapSame : List PagingEvent :=
  [.load 0x1000#32 0x1000, .call ⟨0x1000#32, 0x2000#32, pageEntryRw⟩, .load 0x1000#32 0x1000]

end LizaOS
