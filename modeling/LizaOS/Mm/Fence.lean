-- SUMMARY: Code whose pointers walk upwards from where they may store, on a memory that faults where nothing is mapped.
import LizaOS.Kernel.SeenRun
import LizaOS.Libc.CString
import LizaOS.Libc.StdioRun
import LizaOS.Mm.Alloc

/-!
# Stores behind a fence

A loop that trusts its input may go on without end, but not across a page that is not mapped. `Fenced I G`
says this of a set `G` of addresses: a store in `G` that does not fault leaves the invariant `I` of memory
and console, and from an address in `G` that is mapped one may go a page upwards without leaving `G`. Code
that goes upwards from `G`, and touches what it comes by, then leaves the invariant wherever it comes back.
-/

namespace LizaOS

open Exec

/-- Where the invariant holds, `v` may be mapped to `p`. -/
def MappedTo (I : Mmu → Vga → Prop) (v : Word) (p : Nat) : Prop := ∃ m g, I m g ∧ m.translate v = .ok p

/-- Where the invariant holds, `v` may be mapped. -/
def Mapped (I : Mmu → Vga → Prop) (v : Word) : Prop := ∃ p, MappedTo I v p

structure Fenced (I : Mmu → Vga → Prop) (G : Word → Prop) : Prop where
  store : ∀ {m g v p} (b : Byte), I m g → G v → MappedTo I v p → I (m.withPhys (m.phys.write8 p b)) g
  ahead : ∀ {v}, G v → Mapped I v → ∀ d, d ≤ 4096 → G (v + BitVec.ofNat 32 d)

/-- The invariant holds, and heap and ramdisk driver are at `a` and `rd`. -/
structure Held (I : Mmu → Vga → Prop) (a : Alloc) (rd : Ramdisk) (s : Kernel Mmu) : Prop where
  inv : I s.mem s.vga
  alloc : s.alloc = a
  ramdisk : s.ramdisk = rd

section Held

variable {I : Mmu → Vga → Prop} {G : Word → Prop} {a a' : Alloc} {rd : Ramdisk} {s s' : Kernel Mmu}
  {v w : Word} {p : Nat}

theorem noted_vga (s : Kernel Mmu) (obj : Option Extent) (v : Word) (n : Nat) : (s.noted obj v n).vga = s.vga := by
  cases obj with
  | none => rfl
  | some e =>
      simp only [Kernel.noted]
      split
      · rfl
      · rfl

namespace Held

theorem noted (h : Held I a rd s) (obj : Option Extent) (v : Word) (n : Nat) : Held I a rd (s.noted obj v n) := by
  cases obj with
  | none => exact h
  | some e =>
      simp only [Kernel.noted]
      split
      · exact h
      · exact ⟨h.inv, h.alloc, h.ramdisk⟩

theorem mappedTo (h : Held I a rd s) (hv : s.mem.translate v = .ok p) : MappedTo I v p := ⟨s.mem, s.vga, h.inv, hv⟩

theorem withMem {m : Mmu} (h : Held I a rd s) (hm : I m s.vga) : Held I a rd { s with mem := m } :=
  ⟨hm, h.alloc, h.ramdisk⟩

end Held

/-! ## Primitive steps -/

theorem load8_held (h : Held I a rd s) (v : Word) (obj : Option Extent) :
    WhenReturns (load8 v obj) s fun _ s' => Held I a rd s' := by
  intro b s' hrun
  obtain ⟨_, _, hs⟩ := except_map_ok.mp hrun
  cases hs
  exact h.noted obj v 1

theorem load32_held (h : Held I a rd s) (v : Word) (obj : Option Extent) :
    WhenReturns (load32 v obj) s fun w s' => Held I a rd s' ∧ s'.mem = s.mem ∧ Bus.load32 s.mem v = .ok w := by
  intro w s' hrun
  obtain ⟨_, hload, hs⟩ := except_map_ok.mp hrun
  cases hs
  exact ⟨h.noted obj v 4, (Kernel.noted_keeps s obj v 4).1, hload⟩

theorem get_held (h : Held I a rd s) (src : Src) (i : Nat) :
    WhenReturns (src.get i) s fun _ s' => Held I a rd s' := by
  cases src with
  | mem v obj => exact load8_held h _ obj
  | lit bs =>
      simp only [Src.get]
      split
      · exact .pure h
      · exact .throw _

/-- The driver's globals are set. -/
theorem setRamdisk_held (h : Held I a rd s) (f : Ramdisk → Ramdisk) :
    WhenReturns (modify fun s => { s with ramdisk := f s.ramdisk } : K Mmu PUnit) s fun _ s' =>
      Held I a (f rd) s' := by
  refine .modify ⟨h.inv, h.alloc, ?_⟩
  rw [h.ramdisk]

/-- A request changes the heap and no more. -/
theorem kmallocEarlyAlign_held (h : Held I a rd s) (size : Word) :
    WhenReturns (kmallocEarlyAlign size) s fun r s' =>
      ∃ a', Alloc.kmallocEarlyAlign size a = .ok (r, a') ∧ Held I a' rd s' := by
  intro r s' hrun
  obtain ⟨⟨_, a'⟩, halloc, hs⟩ := except_map_ok.mp hrun
  cases hs
  rw [h.alloc] at halloc
  exact ⟨a', halloc, h.inv, rfl, h.ramdisk⟩

theorem kmallocEarlyAlign_returns {r size : Word} (h : Held I a rd s)
    (halloc : Alloc.kmallocEarlyAlign size a = .ok (r, a')) :
    Returns (kmallocEarlyAlign size) s fun r' s' => r' = r ∧ Held I a' rd s' := by
  have hrun : kmallocEarlyAlign size s = .ok (r, { s with alloc := a' }) := by
    rw [kmallocEarlyAlign, onAlloc, h.alloc, halloc]
    rfl
  exact .of_eq hrun ⟨rfl, h.inv, rfl, h.ramdisk⟩

/-- What is printed leaves the driver's globals. -/
theorem kPrintfln_held (h : Held I a rd s) {fmt : List Byte} {args : Bytes}
    (hprint : WhenReturns (kPrintfln fmt args) s fun _ s' => I s'.mem s'.vga) :
    WhenReturns (kPrintfln fmt args) s fun _ s' => Held I a rd s' := by
  intro u s' hrun
  have hinv := hprint u s' hrun
  obtain ⟨mem, ports, vga, rfl⟩ := kPrintfln_around fmt args s u s' hrun
  exact ⟨hinv, h.alloc, h.ramdisk⟩

end Held

namespace Fenced

variable {I : Mmu → Vga → Prop} {G : Word → Prop} {a : Alloc} {rd : Ramdisk} {s : Kernel Mmu} {v : Word}

theorem store8 (hf : Fenced I G) (h : Held I a rd s) (hv : G v) (b : Byte) (obj : Option Extent) :
    WhenReturns (store8 v b obj) s fun _ s' => Held I a rd s' ∧ Mapped I v := by
  intro _ s' hrun
  obtain ⟨m, hstore, hs⟩ := except_map_ok.mp hrun
  obtain ⟨p, hp, rfl⟩ := except_map_ok.mp hstore
  cases hs
  have hmappedTo := h.mappedTo hp
  exact ⟨(h.noted obj v 1).withMem (by rw [noted_vga]; exact hf.store b h.inv hv hmappedTo), p, hmappedTo⟩

/-- The four bytes of a word are stored one by one. -/
theorem store32 (hf : Fenced I G) (h : Held I a rd s) (hv : G v) (w : Word) (obj : Option Extent) :
    WhenReturns (store32 v w obj) s fun _ s' => Held I a rd s' ∧ Mapped I v := by
  intro _ s' hrun
  obtain ⟨m, hstore, hs⟩ := except_map_ok.mp hrun
  obtain ⟨p₀, h₀, hstore⟩ := except_bind_ok.mp hstore
  obtain ⟨p₁, h₁, hstore⟩ := except_bind_ok.mp hstore
  obtain ⟨p₂, h₂, hstore⟩ := except_bind_ok.mp hstore
  obtain ⟨p₃, h₃, hstore⟩ := except_bind_ok.mp hstore
  cases hstore
  cases hs
  have hmapped : Mapped I v := ⟨p₀, h.mappedTo h₀⟩
  have ha := hf.ahead hv hmapped
  have hb₀ := hf.store (byteAt w 0) h.inv hv (h.mappedTo h₀)
  have hb₁ := hf.store (byteAt w 1) hb₀ (ha 1 (by decide)) (h.mappedTo h₁)
  have hb₂ := hf.store (byteAt w 2) hb₁ (ha 2 (by decide)) (h.mappedTo h₂)
  have hb₃ := hf.store (byteAt w 3) hb₂ (ha 3 (by decide)) (h.mappedTo h₃)
  exact ⟨(h.noted obj v 4).withMem (by rw [noted_vga]; exact hb₃), hmapped⟩

/-! ## Loops that go upwards -/

theorem strcpyFrom (hf : Fenced I G) (h : Held I a rd s) (dest : Word) (src : Src) (obj : Option Extent)
    (fuel i : Nat) (hv : G (dest + BitVec.ofNat 32 i)) :
    WhenReturns (strcpyFrom dest src obj fuel i) s fun _ s' =>
      Held I a rd s' ∧ Mapped I (dest + BitVec.ofNat 32 i) := by
  induction fuel generalizing s i with
  | zero => exact .throw _
  | succ fuel ih =>
      refine (get_held h src i).bind fun b s₁ h₁ => (hf.store8 h₁ hv b obj).bind fun _ s₂ ⟨h₂, hmapped⟩ => ?_
      refine (get_held h₂ src (i + 1)).bind fun c s₃ h₃ => ?_
      split
      · exact .pure ⟨h₃, hmapped⟩
      · have hnext : G (dest + BitVec.ofNat 32 (i + 1)) := by
          have ha := hf.ahead hv hmapped 1 (by decide)
          rwa [BitVec.add_assoc, ← BitVec.ofNat_add] at ha
        exact (ih h₃ (i + 1) hnext).mono fun _ s' h' => ⟨h'.1, hmapped⟩

theorem strcpy (hf : Fenced I G) (h : Held I a rd s) {dest : Word} (hv : G dest) (src : Src)
    (obj : Option Extent) :
    WhenReturns (strcpy dest src obj) s fun _ s' => Held I a rd s' ∧ Mapped I dest := by
  have hzero : dest + BitVec.ofNat 32 0 = dest := BitVec.add_zero dest
  have hloop := hf.strcpyFrom h dest src obj spinLimit 0 (by rw [hzero]; exact hv)
  rw [hzero] at hloop
  exact hloop

end Fenced

/-! ## Code that comes back -/

/-- The page of `v` is mapped as long as the invariant holds. -/
def Stays (I : Mmu → Vga → Prop) (v : Word) : Prop := ∀ m g, I m g → ∃ A f, m.Seen A v f

theorem get_lit {name : List Byte} {i : Nat} (s : Kernel Mmu) (hi : i ≤ name.length) :
    (Src.lit name).get i s = .ok (name.getD i 0#8, s) := by
  rw [Src.get, if_pos hi]
  rfl

namespace Stays

variable {I : Mmu → Vga → Prop} {G : Word → Prop} {a : Alloc} {rd : Ramdisk} {s : Kernel Mmu} {v v' : Word}

theorem congr (hs : Stays I v) (hv : pageOf v' = pageOf v) : Stays I v' := by
  intro m g hm
  obtain ⟨A, f, hseen⟩ := hs m g hm
  exact ⟨A, f, hseen.congr hv⟩

theorem mapped (hs : Stays I v) (h : Held I a rd s) : Mapped I v := by
  obtain ⟨A, f, hseen⟩ := hs _ _ h.inv
  exact ⟨_, h.mappedTo hseen.translate_self⟩

theorem store8 (hs : Stays I v) (hf : Fenced I G) (h : Held I a rd s) (hv : G v) (b : Byte) :
    Returns (store8 v b) s fun _ s' => Held I a rd s' := by
  obtain ⟨A, f, hseen⟩ := hs _ _ h.inv
  exact .of_whenReturns ((hf.store8 h hv b none).mono fun _ _ h' => h'.1) (store8_seen hseen b)

theorem store32 (hs : Stays I v) (hf : Fenced I G) (h : Held I a rd s) (hv : G v)
    (hpage : v.toNat % 4096 + 4 ≤ 4096) (w : Word) : Returns (store32 v w) s fun _ s' => Held I a rd s' := by
  obtain ⟨A, f, hseen⟩ := hs _ _ h.inv
  exact .of_whenReturns ((hf.store32 h hv w none).mono fun _ _ h' => h'.1) (store32_seen hseen hpage w)

theorem load32 (hs : Stays I v) (h : Held I a rd s) (hpage : v.toNat % 4096 + 4 ≤ 4096) (obj : Option Extent) :
    Returns (load32 v obj) s fun w s' => Held I a rd s' ∧ Bus.load32 s.mem v = .ok w := by
  obtain ⟨A, f, hseen⟩ := hs _ _ h.inv
  have hrun : LizaOS.load32 v obj s = .ok (s.mem.phys.read32 (f + v.toNat % 4096), s.noted obj v 4) := by
    rw [LizaOS.load32, hseen.load32 hpage]
    rfl
  exact .of_whenReturns ((load32_held h v obj).mono fun _ _ h' => ⟨h'.1, h'.2.2⟩) hrun

/-- A literal is copied within a page. -/
theorem strcpyFrom (hs : Stays I v) (hf : Fenced I G) (h : Held I a rd s) {name : List Byte}
    (hv : G v) (hpage : v.toNat % 4096 + name.length ≤ 4096) (fuel i : Nat) (hi : i < name.length)
    (hfuel : name.length ≤ i + fuel) :
    Returns (strcpyFrom v (.lit name) none fuel i) s fun _ s' => Held I a rd s' := by
  induction fuel generalizing s i with
  | zero => omega
  | succ fuel ih =>
      refine .bind (.of_eq (get_lit s (Nat.le_of_lt hi)) (Q := fun _ s' => Held I a rd s') h) fun b s₁ h₁ => ?_
      have hbyte : Stays I (v + BitVec.ofNat 32 i) := hs.congr (pageOf_add (by omega))
      refine (hbyte.store8 hf h₁ (hf.ahead hv (hs.mapped h) i (by omega)) b).bind fun _ s₂ h₂ => ?_
      refine .bind (.of_eq (get_lit s₂ hi) (Q := fun c s' => c = name.getD (i + 1) 0#8 ∧ Held I a rd s') ⟨rfl, h₂⟩) ?_
      rintro _ s₃ ⟨rfl, h₃⟩
      split
      · exact .of_eq rfl h₃
      · next hnext =>
        refine ih h₃ (i + 1) (Nat.lt_of_le_of_ne hi fun hend => hnext ?_) (by omega)
        rw [hend, getD_length]

theorem strcpy (hs : Stays I v) (hf : Fenced I G) (h : Held I a rd s) {name : List Byte}
    (hne : name ≠ []) (hv : G v) (hpage : v.toNat % 4096 + name.length ≤ 4096) :
    Returns (strcpy v (.lit name)) s fun _ s' => Held I a rd s' :=
  hs.strcpyFrom hf h hv hpage spinLimit 0 (List.length_pos_iff.mpr hne) (by unfold spinLimit; omega)

end Stays

end LizaOS
