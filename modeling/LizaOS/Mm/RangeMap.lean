-- SUMMARY: The calls of page_map that page_ident_map_range makes, against the pages of its range.
import LizaOS.Mm.Booted
import Mathlib.Data.List.Nodup

/-!
# Mapping a range

The calls of the loop are the pages from the first one on, as many as fit below the rounded end. They
are the pages of the range as long as rounding the end up does not wrap to 0.
-/

namespace LizaOS

open Exec

/-! ## The calls -/

/-- The `n` pages from `start` on. -/
def pagesFrom : Word → Nat → List Word
  | _, 0 => []
  | start, n + 1 => start :: pagesFrom (start + pageSize) n

/-- `page_map`, with the calls that have come back noted down. -/
def loggedMap (virt phys perm : Word) : StateT (Kernel Mmu × List MapCall) (Except Stop) Word :=
  fun p => (pageMap virt phys perm p.1).map fun q => (q.1, q.2, p.2 ++ [⟨virt, phys, perm⟩])

/-- `page_ident_map_range`, with its calls of `page_map` noted down. -/
def loggedRange (start stop perm : Word) : StateT (Kernel Mmu × List MapCall) (Except Stop) Unit :=
  identMapRange loggedMap start stop perm

/-- The page at `p` overlaps the range. -/
structure InRange (start stop p : Word) : Prop where
  page : p.toNat % 4096 = 0
  below : p.toNat < stop.toNat
  above : start.toNat < p.toNat + 4096

/-- A run that comes back has mapped each page of the range once, to itself, and no other. The loop ends
wherever the calls come back. -/
structure RangeCovered (start stop perm : Word) : Prop where
  each : ∀ s s' log, loggedRange start stop perm (s, []) = .ok ((), s', log) →
    ∀ p, InRange start stop p → log.count ⟨p, p, perm⟩ = 1
  only : ∀ s s' log, loggedRange start stop perm (s, []) = .ok ((), s', log) →
    ∀ c ∈ log, ∃ p, InRange start stop p ∧ c = ⟨p, p, perm⟩
  ends : ∀ (σ : Type) (map : Word → Word → Word → StateT σ (Except Stop) Word),
    (∀ p s, Returns (map p p perm) s fun _ _ => True) →
      ∀ s, Returns (identMapRange map start stop perm) s fun _ _ => True

section Calls

variable {start stop perm p : Word} {n fuel : Nat}

theorem toNat_add_pageSize (h : start.toNat + 4096 < 2 ^ 32) : (start + pageSize).toNat = start.toNat + 4096 := by
  have hsize : pageSize.toNat = 4096 := by decide
  rw [BitVec.toNat_add, hsize]
  exact Nat.mod_eq_of_lt h

theorem first_fits (h : start.toNat + 4096 * (n + 1) < 2 ^ 32) : start.toNat + 4096 < 2 ^ 32 := by
  have hle : 4096 ≤ 4096 * (n + 1) := Nat.le_mul_of_pos_right 4096 (Nat.succ_pos n)
  exact Nat.lt_of_le_of_lt (Nat.add_le_add_left hle _) h

theorem mem_pagesFrom (h : start.toNat + 4096 * n < 2 ^ 32) :
    p ∈ pagesFrom start n ↔ ∃ k, k < n ∧ p.toNat = start.toNat + 4096 * k := by
  induction n generalizing start with
  | zero =>
      constructor
      · intro hmem
        cases hmem
      · rintro ⟨k, hk, _⟩
        exact absurd hk (Nat.not_lt_zero k)
  | succ n ih =>
      have hnext := toNat_add_pageSize (first_fits h)
      rw [pagesFrom, List.mem_cons, ih (by omega), hnext]
      constructor
      · rintro (rfl | ⟨k, hk, heq⟩)
        · exact ⟨0, Nat.succ_pos n, rfl⟩
        · exact ⟨k + 1, Nat.succ_lt_succ hk, by omega⟩
      · rintro ⟨k, hk, heq⟩
        cases k with
        | zero => exact .inl (BitVec.eq_of_toNat_eq heq)
        | succ k => exact .inr ⟨k, Nat.lt_of_succ_lt_succ hk, by omega⟩

theorem nodup_pagesFrom (h : start.toNat + 4096 * n < 2 ^ 32) : (pagesFrom start n).Nodup := by
  induction n generalizing start with
  | zero => exact List.nodup_nil
  | succ n ih =>
      have hnext := toNat_add_pageSize (first_fits h)
      refine List.nodup_cons.mpr ⟨fun hmem => ?_, ih (by omega)⟩
      obtain ⟨k, _, heq⟩ := (mem_pagesFrom (by omega)).mp hmem
      omega

/-! ## The loop -/

variable {σ : Type} {map : Word → Word → Word → StateT σ (Except Stop) Word}

/-- The call for the page at `p`. -/
def identCall (map : Word → Word → Word → StateT σ (Except Stop) Word) (perm p : Word) :
    StateT σ (Except Stop) PUnit := do
  let _ ← map p p perm

/-- The loop calls for the pages below its end, whatever the calls do. -/
theorem identMapPages_eq (h : start.toNat + 4096 * n = stop.toNat) (hfuel : n < fuel) :
    identMapPages map stop perm fuel start = (pagesFrom start n).forM (identCall map perm) := by
  have hlt := stop.isLt
  induction n generalizing start fuel with
  | zero =>
      obtain ⟨fuel, rfl⟩ := Nat.exists_eq_succ_of_ne_zero (Nat.ne_of_gt hfuel)
      have hstop : ¬start < stop := by
        rw [BitVec.lt_def]
        omega
      rw [identMapPages, if_neg hstop]
      rfl
  | succ n ih =>
      obtain ⟨fuel, rfl⟩ := Nat.exists_eq_succ_of_ne_zero (Nat.ne_of_gt (Nat.zero_lt_of_lt hfuel))
      have hgo : start < stop := by
        rw [BitVec.lt_def]
        omega
      have hroom : start.toNat + 4096 < 2 ^ 32 := by omega
      have hnext := toNat_add_pageSize hroom
      rw [identMapPages, if_pos hgo, ih (by omega) (Nat.lt_of_succ_lt_succ hfuel), pagesFrom]
      simp only [List.forM_eq_forM, List.forM_cons, identCall, bind_assoc, pure_bind]

/-- Calls that come back are made one after the other. -/
theorem identCalls_return (ps : List Word) (hmap : ∀ p s, Returns (map p p perm) s fun _ _ => True) (s : σ) :
    Returns (ps.forM (identCall map perm)) s fun _ _ => True := by
  induction ps generalizing s with
  | nil => exact .of_eq rfl trivial
  | cons p ps ih =>
      refine Returns.bind (P := fun _ _ => True) ?_ fun _ s' _ => ih s'
      exact (hmap p s).bind fun _ _ _ => .of_eq rfl trivial

/-- A run of calls notes them all. -/
theorem loggedMap_forM {ps : List Word} {s s' : Kernel Mmu} {log log' : List MapCall}
    (hrun : ps.forM (identCall loggedMap perm) (s, log) = .ok ((), s', log')) :
    log' = log ++ ps.map fun p => (⟨p, p, perm⟩ : MapCall) := by
  induction ps generalizing s log with
  | nil =>
      cases hrun
      exact (List.append_nil _).symm
  | cons p ps ih =>
      obtain ⟨_, ⟨s₁, log₁⟩, hcall, hrest⟩ := bind_ok.mp hrun
      obtain ⟨r, ⟨s₂, log₂⟩, hmap, hpure⟩ := bind_ok.mp hcall
      cases hpure
      have hlog : log₁ = log ++ [⟨p, p, perm⟩] := by
        unfold loggedMap at hmap
        cases hpage : pageMap p p perm s with
        | error e =>
            rw [hpage] at hmap
            cases hmap
        | ok q =>
            rw [hpage] at hmap
            cases hmap
            rfl
      rw [ih hrest, hlog, List.append_assoc]
      rfl

/-! ## The range -/

/-- The number of pages the loop maps, where rounding the end up does not wrap. -/
def rangePages (start stop : Word) : Nat := (roundUp stop.toNat - start.toNat) / 4096

theorem rangePages_end (hstart : start.toNat % 4096 = 0) (hlt : start < stop) :
    start.toNat + 4096 * rangePages start stop = roundUp stop.toNat := by
  have hlt' : start.toNat < stop.toNat := hlt
  have hle := le_roundUp stop.toNat
  have hmod := roundUp_mod stop.toNat
  unfold rangePages
  omega

/-- They are the pages of the range. -/
theorem mem_range_iff (hstart : start.toNat % 4096 = 0) (hlt : start < stop)
    (hstop : stop.toNat ≤ 0xFFFFF000) :
    p ∈ pagesFrom start (rangePages start stop) ↔ InRange start stop p := by
  have hend := rangePages_end hstart hlt
  have hle := le_roundUp stop.toNat
  have hlt' := roundUp_lt stop.toNat
  have hmod := roundUp_mod stop.toNat
  rw [mem_pagesFrom (by omega)]
  constructor
  · rintro ⟨k, hk, heq⟩
    exact ⟨by omega, by omega, by omega⟩
  · rintro ⟨hpage, hbelow, habove⟩
    exact ⟨(p.toNat - start.toNat) / 4096, by omega, by omega⟩

/-- Below the last page of the address space the calls are those for the pages of the range. -/
theorem identMapRange_eq (hstart : start.toNat % 4096 = 0) (hlt : start < stop)
    (hstop : stop.toNat ≤ 0xFFFFF000) : identMapRange map start stop perm =
      (pagesFrom start (rangePages start stop)).forM (identCall map perm) := by
  have hend := rangePages_end hstart hlt
  have hlt' := roundUp_lt stop.toNat
  have hmod := roundUp_mod stop.toNat
  have halign : (pageAlignUp stop).toNat = roundUp stop.toNat := by
    rw [toNat_pageAlignUp]
    exact Nat.mod_eq_of_lt (by omega)
  rw [identMapRange, if_pos hlt]
  exact identMapPages_eq (hend.trans halign.symm) (by omega)

/-- In the last page the end is rounded to 0, and the loop does nothing. -/
theorem identMapRange_wraps (hlt : start < stop) (hstop : 0xFFFFF000 < stop.toNat) :
    identMapRange map start stop perm = pure () := by
  have hle := le_roundUp stop.toNat
  have hlt' := roundUp_lt stop.toNat
  have hmod := roundUp_mod stop.toNat
  have hmax := stop.isLt
  have halign : pageAlignUp stop = 0#32 := by
    apply BitVec.eq_of_toNat_eq
    rw [toNat_pageAlignUp]
    show roundUp stop.toNat % 2 ^ 32 = 0
    omega
  have hnot : ¬start < 0#32 := BitVec.not_lt_zero
  rw [identMapRange, if_pos hlt, halign]
  exact if_neg hnot

/-- The range is mapped page by page exactly where its end is not in the last page of the address space,
or is where that page begins. -/
theorem rangeCovered_iff (hstart : start.toNat % 4096 = 0) (hlt : start < stop) :
    RangeCovered start stop perm ↔ stop.toNat ≤ 0xFFFFF000 := by
  constructor
  · intro h
    by_contra hstop
    have hrun : loggedRange start stop perm (loaded, []) = .ok ((), loaded, []) := by
      rw [loggedRange, identMapRange_wraps hlt (by omega)]
      rfl
    have hone := h.each _ _ _ hrun start ⟨hstart, hlt, by omega⟩
    cases hone
  · intro hstop
    have hend := rangePages_end hstart hlt
    have hlt' := roundUp_lt stop.toNat
    have hmod := roundUp_mod stop.toNat
    have hlog : ∀ s s' log, loggedRange start stop perm (s, []) = .ok ((), s', log) →
        log = (pagesFrom start (rangePages start stop)).map fun p => (⟨p, p, perm⟩ : MapCall) := by
      intro s s' log hrun
      rw [loggedRange, identMapRange_eq hstart hlt hstop] at hrun
      exact loggedMap_forM hrun
    refine ⟨fun s s' log hrun p hp => ?_, fun s s' log hrun c hc => ?_, fun σ map hmap s => ?_⟩
    · have hmem := (mem_range_iff hstart hlt hstop).mpr hp
      rw [hlog s s' log hrun]
      refine List.count_eq_one_of_mem ?_ (List.mem_map_of_mem hmem)
      exact (nodup_pagesFrom (by omega)).map fun p q heq => congrArg MapCall.virt heq
    · rw [hlog s s' log hrun] at hc
      obtain ⟨p, hmem, rfl⟩ := List.mem_map.mp hc
      exact ⟨p, (mem_range_iff hstart hlt hstop).mp hmem, rfl⟩
    · rw [identMapRange_eq hstart hlt hstop]
      exact identCalls_return _ hmap s

end Calls

/-- Two pages, the second of which is only begun. -/
theorem rangeCovered_iff_begun : RangeCovered 0x1000#32 0x2001#32 pageEntryRw ↔ 0x2001 ≤ 0xFFFFF000 :=
  rangeCovered_iff (by decide) (by decide)

/-- At the top of the address space nothing is mapped. -/
theorem not_rangeCovered_top : ¬RangeCovered 0xFFFFE000#32 0xFFFFFFFF#32 pageEntryRw := by
  intro h
  have hlt : (0xFFFFE000#32 : Word) < 0xFFFFFFFF#32 := by decide
  have hrun : loggedRange 0xFFFFE000#32 0xFFFFFFFF#32 pageEntryRw (loaded, []) = .ok ((), loaded, []) := by
    rw [loggedRange, identMapRange_wraps hlt (by decide)]
    rfl
  have hone := h.each _ _ _ hrun 0xFFFFE000#32 ⟨by decide, by decide, by decide⟩
  cases hone

end LizaOS
