-- SUMMARY: Safety of the early heap over whole runs: exactly which runs give blocks that lie in the heap and are disjoint.
import LizaOS.Mm.Alloc

/-!
# Early heap safety

A run is the sequence of requests served after `kmalloc_early_init`, up to the first panic. The
allocator computes the end of a block with 32-bit wrap-around, and a wrapped end can slip under
`maxBase`. A request is guarded if that does not happen to it; a run is shown to be safe exactly when all
its requests are guarded.
-/

namespace LizaOS

/-- A call of the allocator. -/
inductive Request where
  | early (size : Word)
  | align (size : Word)
  deriving DecidableEq, Repr

namespace Request

def size : Request → Word
  | early size => size
  | align size => size

def serve : Request → AllocM Word
  | early size => Alloc.kmallocEarly size
  | align size => Alloc.kmallocEarlyAlign size

/-- Where the block of a request starts, before wrap-around. -/
def start (a : Alloc) : Request → Nat
  | early _ => a.currentBase.toNat
  | align _ => roundUp a.currentBase.toNat

/-- The end of the block is below `2 ^ 32`, or wraps to a value that the test against `maxBase`
still refuses. -/
def Guarded (r : Request) (a : Alloc) : Prop :=
  r.size = 0#32 ∨ r.start a + r.size.toNat < 2 ^ 32 ∨
    a.maxBase.toNat < (r.start a + r.size.toNat) % 2 ^ 32

instance (r : Request) (a : Alloc) : Decidable (r.Guarded a) := by
  unfold Guarded
  exact inferInstance

end Request

/-- A request that came back: the globals before and after it, and the address it gave. -/
structure Served where
  request : Request
  before : Alloc
  addr : Word
  after : Alloc
  deriving DecidableEq, Repr

/-- The block a served request handed out. -/
def Served.block (c : Served) : Extent := .ofLen c.addr.toNat c.request.size.toNat

/-- The requests of a list that come back, up to the first panic. -/
def serveAll : List Request → Alloc → List Served
  | [], _ => []
  | r :: rs, a =>
      match r.serve a with
      | .error _ => []
      | .ok (addr, a') => ⟨r, a, addr, a'⟩ :: serveAll rs a'

/-- What the caller of one request relies on in the heap `[base, max)`. -/
structure CallSafe (base max : Word) (c : Served) : Prop where
  inside : c.request.size ≠ 0#32 →
    c.addr.toNat + c.request.size.toNat < 2 ^ 32 ∧ c.block.Within ⟨base.toNat, max.toNat⟩
  aligned : ∀ size, c.request = .align size → c.addr.toNat % 4096 = 0
  zero : c.request.size = 0#32 → c.addr = 0#32 ∧ c.after = c.before
  bounds : base ≤ c.after.currentBase ∧ c.after.currentBase ≤ max

/-- What callers rely on over a whole run: every call is safe, and no two blocks overlap. -/
structure HeapSafe (base max : Word) (run : List Served) : Prop where
  calls : ∀ c ∈ run, CallSafe base max c
  disjoint : run.Pairwise fun c d => c.request.size ≠ 0#32 → d.request.size ≠ 0#32 →
    c.block.Disjoint d.block

/-- Every request of the run is guarded in the state it is made in. -/
def GuardedRun : List Request → Alloc → Prop
  | [], _ => True
  | r :: rs, a => r.Guarded a ∧
      match r.serve a with
      | .error _ => True
      | .ok (_, a') => GuardedRun rs a'

instance : ∀ rs a, Decidable (GuardedRun rs a)
  | [], _ => inferInstanceAs (Decidable True)
  | r :: rs, a => by
      unfold GuardedRun
      refine @instDecidableAnd _ _ inferInstance ?_
      exact match r.serve a with
        | .error _ => inferInstanceAs (Decidable True)
        | .ok (_, a') => instDecidableGuardedRun rs a'

/-! ## One request -/

/-- The globals of a heap that is in order. -/
structure Alloc.InHeap (base max : Word) (a : Alloc) : Prop where
  initialized : a.initialized
  maxBase : a.maxBase = max
  lower : base.toNat ≤ a.currentBase.toNat
  upper : a.currentBase.toNat ≤ max.toNat

theorem Alloc.earlyInit_inHeap {base max : Word} (h : base < max) :
    (Alloc.earlyInit base max).InHeap base max :=
  ⟨rfl, rfl, Nat.le_refl _, Nat.le_of_lt (BitVec.lt_def.mp h)⟩

namespace Request

variable {base max addr : Word} {a a' : Alloc} {r : Request}

theorem start_le_two_pow (r : Request) (a : Alloc) : r.start a ≤ 2 ^ 32 := by
  cases r with
  | early _ => exact Nat.le_of_lt a.currentBase.isLt
  | align _ => exact roundUp_le_two_pow a.currentBase

theorem le_start (r : Request) (a : Alloc) : a.currentBase.toNat ≤ r.start a := by
  cases r with
  | early _ => exact Nat.le_refl _
  | align _ => exact le_roundUp _

/-- What a request that comes back has done, in wrapping arithmetic. -/
theorem serve_ok (h : r.serve a = .ok (addr, a')) :
    (r.size = 0#32 ∧ addr = 0#32 ∧ a' = a) ∨
    (r.size ≠ 0#32 ∧ addr.toNat = r.start a % 2 ^ 32 ∧
      (r.start a + r.size.toNat) % 2 ^ 32 ≤ a.maxBase.toNat ∧
      a' = { a with currentBase := addr + r.size }) := by
  cases r with
  | early size =>
      rcases Alloc.kmallocEarly_ok h with hz | ⟨hs, hle, rfl, rfl⟩
      · exact .inl hz
      · rw [BitVec.le_def, BitVec.toNat_add, Nat.add_comm] at hle
        have hlt := a.currentBase.isLt
        exact .inr ⟨hs, (Nat.mod_eq_of_lt hlt).symm, hle, rfl⟩
  | align size =>
      simp only [serve, Alloc.kmallocEarlyAlign] at h
      split at h
      · cases h
      split at h
      · cases h
        exact .inl ⟨‹_›, rfl, rfl⟩
      · rename_i hs
        rcases Alloc.kmallocEarly_ok h with ⟨hz, _⟩ | ⟨_, hle, rfl, rfl⟩
        · exact absurd hz hs
        · have hbase := Alloc.toNat_alignBase a.currentBase
          rw [BitVec.le_def, BitVec.toNat_add, hbase, Nat.add_comm, Nat.mod_add_mod] at hle
          exact .inr ⟨hs, hbase, hle, rfl⟩

/-- A request that is refused by no test comes back. -/
theorem serve_total (hi : a.initialized)
    (hle : (r.start a + r.size.toNat) % 2 ^ 32 ≤ a.maxBase.toNat) :
    ∃ addr a', r.serve a = .ok (addr, a') := by
  cases r with
  | early size =>
      have hnlt : ¬a.maxBase < size + a.currentBase := by
        rw [BitVec.lt_def, BitVec.toNat_add, Nat.add_comm]
        exact Nat.not_lt.mpr hle
      by_cases hs : size = 0#32
      · exact ⟨0#32, a, by simp [serve, Alloc.kmallocEarly, hi, hs]⟩
      · exact ⟨a.currentBase, { a with currentBase := a.currentBase + size },
          by simp [serve, Alloc.kmallocEarly, hi, hs, hnlt]⟩
  | align size =>
      have hnlt : ¬a.maxBase < size + Alloc.alignBase a.currentBase := by
        rw [BitVec.lt_def, BitVec.toNat_add, Alloc.toNat_alignBase, Nat.add_comm, Nat.mod_add_mod]
        exact Nat.not_lt.mpr hle
      by_cases hs : size = 0#32
      · exact ⟨0#32, a, by simp [serve, Alloc.kmallocEarlyAlign, hi, hs]⟩
      · exact ⟨Alloc.alignBase a.currentBase,
          { a with currentBase := Alloc.alignBase a.currentBase + size },
          by simp [serve, Alloc.kmallocEarlyAlign, Alloc.kmallocEarly, hi, hs, hnlt]⟩

/-- A guarded request that comes back takes its block from `[currentBase, max)` and moves the base
to the end of the block. -/
theorem serve_guarded (hg : r.Guarded a) (hin : a.InHeap base max)
    (h : r.serve a = .ok (addr, a')) :
    (r.size = 0#32 ∧ addr = 0#32 ∧ a' = a) ∨
    (r.size ≠ 0#32 ∧ addr.toNat = r.start a ∧ r.start a + r.size.toNat = a'.currentBase.toNat ∧
      a'.InHeap base max) := by
  rcases serve_ok h with hz | ⟨hs, haddr, hle, rfl⟩
  · exact .inl hz
  · have hfit : r.start a + r.size.toNat < 2 ^ 32 := by
      rcases hg with hg | hg | hg
      · exact absurd hg hs
      · exact hg
      · omega
    have hstart : addr.toNat = r.start a := by omega
    have hend : (addr + r.size).toNat = r.start a + r.size.toNat := by
      rw [toNat_add_of_lt (by omega), hstart]
    have hlow := le_start r a
    rw [Nat.mod_eq_of_lt hfit, hin.maxBase] at hle
    refine .inr ⟨hs, hstart, hend.symm, hin.initialized, hin.maxBase, ?_, ?_⟩
    · simp only [hend]
      exact Nat.le_trans hin.lower (by omega)
    · simp only [hend]
      exact hle

end Request

/-! ## Page tables -/

section PageTable

variable {base max t : Word} {a a' : Alloc}

/-- The block a request for at most a page is given. -/
theorem Alloc.kmallocEarlyAlign_small {size : Word} (hin : a.InHeap base max) (hmax : max.toNat + 8192 < 2 ^ 32)
    (hne : size ≠ 0#32) (hsize : size.toNat ≤ 4096) (h : Alloc.kmallocEarlyAlign size a = .ok (t, a')) :
    t.toNat = roundUp a.currentBase.toNat ∧ t.toNat + size.toNat = a'.currentBase.toNat ∧ a'.InHeap base max := by
  have hupper := hin.upper
  have hround := roundUp_lt a.currentBase.toNat
  have hserve : (Request.align size).serve a = .ok (t, a') := h
  have hstart : (Request.align size).start a = roundUp a.currentBase.toNat := rfl
  have hreq : (Request.align size).size = size := rfl
  have hguard : (Request.align size).Guarded a := .inr (.inl (by rw [hstart, hreq]; omega))
  rcases Request.serve_guarded hguard hin hserve with ⟨hz, _⟩ | ⟨_, ht, hend, hin'⟩
  · exact absurd hz hne
  · rw [hreq] at hend
    exact ⟨ht, by omega, hin'⟩

/-- The page a table is given. -/
theorem Alloc.kmallocEarlyAlign_table (hin : a.InHeap base max) (hmax : max.toNat + 8192 < 2 ^ 32)
    (h : Alloc.kmallocEarlyAlign pageTableSize a = .ok (t, a')) :
    t.toNat = roundUp a.currentBase.toNat ∧ t.toNat + 4096 = a'.currentBase.toNat ∧ a'.InHeap base max :=
  Alloc.kmallocEarlyAlign_small hin hmax (by decide) (by decide) h

theorem Alloc.kmallocEarlyAlign_total {size : Word} (hin : a.InHeap base max) (hsize : size.toNat ≤ 4096)
    (hroom : roundUp a.currentBase.toNat + 4096 ≤ max.toNat) : ∃ t a', Alloc.kmallocEarlyAlign size a = .ok (t, a') := by
  have hmax := max.isLt
  have hstart : (Request.align size).start a = roundUp a.currentBase.toNat := rfl
  have hreq : (Request.align size).size = size := rfl
  refine Request.serve_total (r := .align size) hin.initialized ?_
  rw [hstart, hreq, hin.maxBase, Nat.mod_eq_of_lt (by omega)]
  omega

end PageTable

/-! ## Aligned requests on the kernel state -/

section Kernel

variable {μ : Type} {s s' : Kernel μ} {size r : Word}

/-- An aligned request with room below `maxBase` comes back with the first page boundary. -/
theorem kmallocEarlyAlign_room (hi : s.alloc.initialized) (hs : size ≠ 0#32)
    (hroom : roundUp s.alloc.currentBase.toNat + size.toNat ≤ s.alloc.maxBase.toNat) :
    kmallocEarlyAlign size s = .ok (BitVec.ofNat 32 (roundUp s.alloc.currentBase.toNat),
      { s with alloc := { s.alloc with
          currentBase := BitVec.ofNat 32 (roundUp s.alloc.currentBase.toNat + size.toNat) } }) := by
  have hmax := s.alloc.maxBase.isLt
  have hbase : Alloc.alignBase s.alloc.currentBase =
      BitVec.ofNat 32 (roundUp s.alloc.currentBase.toNat) := by
    apply BitVec.eq_of_toNat_eq
    rw [Alloc.toNat_alignBase, BitVec.toNat_ofNat]
  have hserve : Alloc.kmallocEarlyAlign size s.alloc =
      .ok (Alloc.alignBase s.alloc.currentBase,
        { s.alloc with currentBase := Alloc.alignBase s.alloc.currentBase + size }) := by
    have hfits := Alloc.kmallocEarly_fits
      (a := { s.alloc with currentBase := Alloc.alignBase s.alloc.currentBase }) hi hs (by
        simp only [hbase, BitVec.toNat_ofNat]
        omega)
    rw [Alloc.kmallocEarlyAlign, if_neg (not_not.mpr hi), if_neg hs]
    exact hfits
  have hend : Alloc.alignBase s.alloc.currentBase + size =
      BitVec.ofNat 32 (roundUp s.alloc.currentBase.toNat + size.toNat) := by
    apply BitVec.eq_of_toNat_eq
    rw [hbase, BitVec.toNat_add, BitVec.toNat_ofNat, BitVec.toNat_ofNat]
    omega
  rw [kmallocEarlyAlign, onAlloc, hserve, hend, hbase]
  rfl

/-- What an aligned request that comes back has done, on a heap that ends below the last page. -/
theorem kmallocEarlyAlign_ok (hle : s.alloc.currentBase.toNat ≤ s.alloc.maxBase.toNat)
    (htop : s.alloc.maxBase.toNat ≤ 2 ^ 32 - 4096) (h : kmallocEarlyAlign size s = .ok (r, s')) :
    s.alloc.initialized ∧
    ((size = 0#32 ∧ r = 0#32 ∧ s' = s) ∨
      (size ≠ 0#32 ∧ r.toNat = roundUp s.alloc.currentBase.toNat ∧
        (r.toNat + size.toNat) % 2 ^ 32 ≤ s.alloc.maxBase.toNat ∧
        s' = { s with alloc := { s.alloc with currentBase := r + size } })) := by
  have hi : s.alloc.initialized := by
    by_contra hno
    simp [kmallocEarlyAlign, onAlloc, Alloc.kmallocEarlyAlign, hno, Except.map] at h
  have hserve : ∃ a', (Request.align size).serve s.alloc = .ok (r, a') ∧ s' = { s with alloc := a' } := by
    simp only [kmallocEarlyAlign, onAlloc] at h
    cases hx : Alloc.kmallocEarlyAlign size s.alloc with
    | error e => simp [hx, Except.map] at h
    | ok p =>
        simp only [hx, Except.map, Except.ok.injEq, Prod.mk.injEq] at h
        obtain ⟨rfl, rfl⟩ := h
        exact ⟨p.2, hx, rfl⟩
  obtain ⟨a', hserve, rfl⟩ := hserve
  refine ⟨hi, ?_⟩
  rcases Request.serve_ok hserve with ⟨hz, hr, ha⟩ | ⟨hs, hr, hend, ha⟩
  · exact .inl ⟨hz, hr, by rw [ha]⟩
  · have hround : roundUp s.alloc.currentBase.toNat ≤ 2 ^ 32 - 4096 :=
      roundUp_le (Nat.le_trans hle htop) (by decide)
    have hr' : r.toNat = roundUp s.alloc.currentBase.toNat := by
      simp only [Request.start] at hr
      omega
    refine .inr ⟨hs, hr', ?_, by rw [ha]; rfl⟩
    rw [hr']
    exact hend

end Kernel

/-! ## Runs -/

variable {base max : Word} {a : Alloc} {rs : List Request}

theorem GuardedRun.tail {r : Request} {addr : Word} {a' : Alloc} (hg : GuardedRun (r :: rs) a)
    (h : r.serve a = .ok (addr, a')) : GuardedRun rs a' := by
  have hrest := hg.2
  simpa only [h] using hrest

/-- A guarded run hands out every block above the base it starts from. -/
theorem GuardedRun.above (hg : GuardedRun rs a) (hin : a.InHeap base max) :
    ∀ c ∈ serveAll rs a, c.request.size ≠ 0#32 → a.currentBase.toNat ≤ c.addr.toNat := by
  induction rs generalizing a with
  | nil => simp [serveAll]
  | cons r rs ih =>
      intro c hc hs
      cases h : r.serve a with
      | error e => simp [serveAll, h] at hc
      | ok p =>
          obtain ⟨addr, a'⟩ := p
          simp only [serveAll, h, List.mem_cons] at hc
          rcases Request.serve_guarded hg.1 hin h with ⟨hz, -, rfl⟩ | ⟨_, haddr, hend, hin'⟩
          · rcases hc with rfl | hc
            · exact absurd hz hs
            · exact ih (hg.tail h) hin c hc hs
          · have hlow := r.le_start a
            rcases hc with rfl | hc
            · simp only [haddr, hlow]
            · exact Nat.le_trans (by omega) (ih (hg.tail h) hin' c hc hs)

/-- A guarded request is safe. -/
theorem Request.callSafe {r : Request} {addr : Word} {a' : Alloc} (hg : r.Guarded a)
    (hin : a.InHeap base max) (h : r.serve a = .ok (addr, a')) :
    CallSafe base max ⟨r, a, addr, a'⟩ := by
  rcases Request.serve_guarded hg hin h with ⟨hz, haddr, rfl⟩ | ⟨hs, haddr, hend, hin'⟩
  · refine ⟨fun hs => absurd hz hs, ?_, fun _ => ⟨haddr, rfl⟩, ?_⟩
    · rintro size -
      simp [haddr]
    · exact ⟨BitVec.le_def.mpr hin.lower, BitVec.le_def.mpr hin.upper⟩
  · have hlow := r.le_start a
    refine ⟨fun _ => ?_, ?_, fun hz => absurd hz hs, ?_⟩
    · have hmax := a'.currentBase.isLt
      refine ⟨by simp only; omega, ?_, ?_⟩
      · simp only [Served.block, Extent.ofLen, haddr]
        exact Nat.le_trans hin.lower hlow
      · simp only [Served.block, Extent.ofLen, haddr, hend]
        exact hin'.upper
    · rintro size rfl
      simp only [haddr, Request.start]
      exact roundUp_mod _
    · exact ⟨BitVec.le_def.mpr hin'.lower, BitVec.le_def.mpr hin'.upper⟩

/-- The heap stays in order across a guarded request. -/
theorem Request.inHeap_after {r : Request} {addr : Word} {a' : Alloc} (hg : r.Guarded a)
    (hin : a.InHeap base max) (h : r.serve a = .ok (addr, a')) : a'.InHeap base max := by
  rcases Request.serve_guarded hg hin h with ⟨-, -, rfl⟩ | ⟨_, _, _, hin'⟩
  · exact hin
  · exact hin'

/-- A run of guarded requests is safe. -/
theorem GuardedRun.heapSafe (hg : GuardedRun rs a) (hin : a.InHeap base max) :
    HeapSafe base max (serveAll rs a) := by
  induction rs generalizing a with
  | nil => exact ⟨by simp [serveAll], by simp [serveAll]⟩
  | cons r rs ih =>
      cases h : r.serve a with
      | error e => exact ⟨by simp [serveAll, h], by simp [serveAll, h]⟩
      | ok p =>
          obtain ⟨addr, a'⟩ := p
          have hin' := Request.inHeap_after hg.1 hin h
          have htail := ih (hg.tail h) hin'
          have habove := (hg.tail h).above hin'
          simp only [serveAll, h]
          refine ⟨?_, List.pairwise_cons.mpr ⟨fun d hd hs hsd => .inl ?_, htail.disjoint⟩⟩
          · rintro c (_ | ⟨_, hc⟩)
            · exact Request.callSafe hg.1 hin h
            · exact htail.calls c hc
          · -- the block ends at the base that all later blocks lie above
            rcases Request.serve_guarded hg.1 hin h with ⟨hz, _⟩ | ⟨_, haddr, hend, _⟩
            · exact absurd hz hs
            · simp only [Served.block, Extent.ofLen, haddr, hend]
              exact habove d hd hsd

/-- An unguarded request is answered with a block that wraps, or with address 0. -/
theorem Request.serve_unguarded {r : Request} (hg : ¬r.Guarded a) (hi : a.initialized) :
    ∃ addr a', r.serve a = .ok (addr, a') ∧ r.size ≠ 0#32 ∧
      (2 ^ 32 ≤ addr.toNat + r.size.toNat ∨ (addr = 0#32 ∧ a.currentBase ≠ 0#32)) := by
  simp only [Request.Guarded, not_or, Nat.not_lt] at hg
  obtain ⟨hs, hwrap, hle⟩ := hg
  obtain ⟨addr, a', h⟩ := Request.serve_total hi hle
  have hstart := r.start_le_two_pow a
  rcases Request.serve_ok h with ⟨hz, _⟩ | ⟨_, haddr, _⟩
  · exact absurd hz hs
  refine ⟨addr, a', h, hs, ?_⟩
  rcases Nat.lt_or_eq_of_le hstart with hlt | heq
  · left
    rw [haddr, Nat.mod_eq_of_lt hlt]
    exact hwrap
  · -- rounding up has wrapped to 0, which it does not do from 0
    right
    refine ⟨by rw [← BitVec.toNat_inj, haddr, heq]; rfl, fun h0 => ?_⟩
    cases r with
    | early _ => exact absurd heq (Nat.ne_of_lt a.currentBase.isLt)
    | align _ => simp [Request.start, roundUp, h0] at heq

/-- In a safe run every request is guarded, provided that a base above address 0 means that no
later block is allowed to start there. -/
theorem HeapSafe.guardedRun (hsafe : HeapSafe base max (serveAll rs a)) (hin : a.InHeap base max)
    (hzero : base = 0#32 → a.currentBase ≠ 0#32 →
      ∀ c ∈ serveAll rs a, c.request.size ≠ 0#32 → c.addr ≠ 0#32) :
    GuardedRun rs a := by
  induction rs generalizing a with
  | nil => trivial
  | cons r rs ih =>
      have hg : r.Guarded a := by
        by_contra hg
        obtain ⟨addr, a', h, hs, hbad⟩ := Request.serve_unguarded hg hin.initialized
        have hmem : (⟨r, a, addr, a'⟩ : Served) ∈ serveAll (r :: rs) a := by
          simp [serveAll, h]
        obtain ⟨hlt, hwithin⟩ := (hsafe.calls _ hmem).inside hs
        rcases hbad with hbad | ⟨h0, hne⟩
        · exact absurd hbad (Nat.not_le.mpr hlt)
        · have hbase : base = 0#32 := by
            have := hwithin.1
            simp only [Served.block, Extent.ofLen, h0, BitVec.toNat_ofNat] at this
            rw [← BitVec.toNat_inj, BitVec.toNat_ofNat]
            omega
          exact hzero hbase hne _ hmem hs h0
      refine ⟨hg, ?_⟩
      split
      · trivial
      rename_i addr a' h
      have hlist : serveAll (r :: rs) a = ⟨r, a, addr, a'⟩ :: serveAll rs a' := by
        simp [serveAll, h]
      rw [hlist] at hsafe hzero
      obtain ⟨hhead, htail⟩ := List.pairwise_cons.mp hsafe.disjoint
      refine ih ⟨fun c hc => hsafe.calls c (List.mem_cons_of_mem _ hc), htail⟩
        (Request.inHeap_after hg hin h) fun hbase hne c hc hs => ?_
      by_cases hcur : a.currentBase = 0#32
      · -- the first block of the run starts at 0 and keeps later ones away
        rcases Request.serve_guarded hg hin h with ⟨-, -, rfl⟩ | ⟨hrs, haddr, -, -⟩
        · exact absurd hcur hne
        · intro hc0
          have hstart : addr.toNat = 0 := by
            rw [haddr]
            cases r <;> simp [Request.start, hcur, roundUp]
          have hpos := ne_zero_iff_toNat.mp hrs
          have hcpos := ne_zero_iff_toNat.mp hs
          rcases hhead c hc hrs hs with hd | hd <;>
            simp only [Served.block, Extent.ofLen, hstart, hc0, BitVec.toNat_ofNat] at hd <;> omega
      · exact hzero hbase hcur c (List.mem_cons_of_mem _ hc) hs

/-- Over every run of requests on a heap that `kmalloc_early_init` has set up, the blocks are safe
exactly when no request wraps unnoticed. -/
theorem heapSafe_iff {base max : Word} (h : base < max) (rs : List Request) :
    HeapSafe base max (serveAll rs (.earlyInit base max)) ↔
      GuardedRun rs (.earlyInit base max) := by
  have hin := Alloc.earlyInit_inHeap h
  refine ⟨fun hsafe => hsafe.guardedRun hin fun hbase hne => ?_, fun hg => hg.heapSafe hin⟩
  exact absurd hbase hne

/-- A run that mixes aligned and unaligned requests on the kernel's heap. -/
theorem heapSafe_kernelHeap :
    HeapSafe 0xC0300000#32 0xC0400000#32
      (serveAll [.align 4096#32, .early 184#32, .align 0#32, .align 4096#32, .early 0x200000#32]
        (.earlyInit 0xC0300000#32 0xC0400000#32)) :=
  (heapSafe_iff (by decide) _).mpr (by decide)

/-- One large request is enough to break a run: the end of its block wraps to a value below
`maxBase`, and the base falls out of the heap. -/
theorem not_heapSafe_wrap :
    ¬HeapSafe 0xC0300000#32 0xC0400000#32
      (serveAll [.early 0xFFFF0000#32] (.earlyInit 0xC0300000#32 0xC0400000#32)) := by
  intro hsafe
  have hcall := hsafe.calls
    ⟨.early 0xFFFF0000#32, .earlyInit 0xC0300000#32 0xC0400000#32, 0xC0300000#32,
      { Alloc.earlyInit 0xC0300000#32 0xC0400000#32 with currentBase := 0xC02F0000#32 }⟩ (by decide)
  exact absurd hcall.bounds.1 (by decide)

end LizaOS
