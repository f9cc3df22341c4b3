-- SUMMARY: The tables as a finite map over runs of page_map, what breaks it, and the translation in software against the hardware.
import LizaOS.Mm.ScreenAlias

/-!
# Runs of page_map

What a run of calls makes of the address space, from the state `init_paging` leaves: each page goes where
the last call for it has sent it. The calls leave out the pages of the image and of the structures, and
they do not bring the screen to a frame of the structures. If the screen is there, the line `page_map`
prints is put into the tables.
-/

namespace LizaOS

open Exec

section Runs

variable {layout : Layout} {s₀ s s' : Kernel Mmu} {calls : List MapCall} {ts : List Word}

/-- A run behind `init_paging` leaves the kernel running on its tables. -/
theorem mapAll_after (hl : layout.Linked) (hbefore : BeforePaging layout s₀)
    (hinit : initPaging layout s₀ = .ok ((), s)) (hrun : mapAll calls s = .ok (ts, s'))
    (hcalls : ∀ c ∈ calls, c.Allowed layout s.paging.pageDirectory s'.alloc.currentBase.toNat ∧
      c.OffScreen s.paging.pageDirectory s'.alloc.currentBase.toNat) :
    ∃ cur g₀ g₁, Running layout (StructurePage s.paging.pageDirectory s'.alloc.currentBase.toNat) g₀ g₁ s' cur ∧
      (∀ v, (s'.mem.walk v).map Leaf.frame = frameAfter calls ((layout.initial v).map Leaf.frame) v) ∧
      List.Forall₂ (fun c t => EntryAddress s' c.virt t) calls ts := by
  have hafter := (initPaging_returnsIf hbefore hl).1 _ _ hinit
  have hhigh := hl.heap_high
  obtain ⟨hend, _⟩ := (hafter.running_heap hl (Nat.le_refl _) hafter.switched.heap.upper).end_lt hl
  obtain ⟨hheap, hgrown⟩ := mapAll_heapGrows (by omega) calls s ts s' hrun hafter.switched.heap
  have hrunning := hafter.running_heap hl hheap.upper hgrown
  obtain ⟨cur, g₀, g₁, hrunning', _, hwalk, haddrs⟩ :=
    mapAll_running hl hcalls hrunning rfl hrun (Nat.le_refl _)
  refine ⟨cur, g₀, g₁, hrunning', fun v => ?_, haddrs⟩
  rw [hwalk, hafter.walk]

end Runs

section Translates

variable {layout : Layout} {s₀ s s' : Kernel Mmu} {calls : List MapCall} {ts : List Word}

/-- The directory and the reverse mapping agree, and translation in software finds what the processor
finds. -/
structure Translates (s : Kernel Mmu) : Prop where
  present : ∀ i, i < 1024 → (Entry.present (dirOf s.mem.phys s.paging i) = true ↔ revOf s.mem.phys s.paging i ≠ 0#32)
  walk : ∀ i, i < 1024 → Entry.present (dirOf s.mem.phys s.paging i) = true →
    (s.mem.walk (revOf s.mem.phys s.paging i)).map Leaf.frame = some (Entry.frame (dirOf s.mem.phys s.paging i))
  distinct : ∀ i j, i < 1024 → j < 1024 → Entry.present (dirOf s.mem.phys s.paging i) = true →
    Entry.present (dirOf s.mem.phys s.paging j) = true →
    Entry.frame (dirOf s.mem.phys s.paging i) = Entry.frame (dirOf s.mem.phys s.paging j) → i = j
  software : ∀ v : Word, v.toNat % 4096 = 0 → virtToPhys v s = match s.mem.walk v with
    | some l => .ok (BitVec.ofNat 32 l.frame, s)
    | none => .error .panic

theorem Fixed.translates {P : Word → Prop} {cur : Nat} (h : Fixed layout P s cur) : Translates s where
  present _ hi := h.tables.present_iff hi
  walk i hi hp := by
    obtain ⟨_, _, w, hw⟩ := h.fixed _ (h.table_fixed hi hp)
    rw [hw, (h.tables.table hi hp).frame]
    rfl
  distinct i j hi hj hpi hpj heq := by
    rw [(h.tables.table hi hpi).frame, (h.tables.table hj hpj).frame] at heq
    exact h.tables.frame_inj hi hj hpi hpj heq
  software v _ := h.toSwitched.virtToPhys_eq h.mapped v

end Translates

end LizaOS
