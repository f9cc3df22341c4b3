-- SUMMARY: What the string functions do on flat memory: full runs, and what a run that has not strayed says.
import LizaOS.Kernel.Watch
import LizaOS.Libc.CString
import LizaOS.Libc.String

/-!
# Runs of the string functions

A source operand is described by the bytes `f` it reads. `CopyLen f n` says that `strcpy` copies `n`
bytes of it, which is one byte more than the string has when the string is empty.
-/

namespace LizaOS

open Exec

/-! ## Bytes laid out in memory -/

namespace Bytes

/-- The memory with the `n` bytes of `f` at `d`. -/
def fill (m : Bytes) (d n : Nat) (f : Nat → Byte) : Bytes :=
  fun x => if d ≤ x ∧ x < d + n then f (x - d) else m x

variable {m : Bytes} {d n x : Nat} {f : Nat → Byte}

@[simp] theorem fill_zero (m : Bytes) (d : Nat) (f : Nat → Byte) : m.fill d 0 f = m := by
  funext x
  exact if_neg (by omega)

theorem fill_succ (m : Bytes) (d n : Nat) (f : Nat → Byte) :
    (m.fill d n f).write8 (d + n) (f n) = m.fill d (n + 1) f := by
  funext x
  simp only [fill, write8]
  by_cases hx : x = d + n
  · subst hx
    simp
  · simp only [hx, if_false]
    congr 1
    simp only [eq_iff_iff]
    omega

theorem fill_inside (h : x < n) : m.fill d n f (d + x) = f x := by
  simp only [fill]
  rw [if_pos (by omega), Nat.add_sub_cancel_left]

theorem fill_outside (h : x < d ∨ d + n ≤ x) : m.fill d n f x = m x :=
  if_neg (by omega)

end Bytes

namespace Flat

/-- The memory with the `n` bytes of `f` at `d`. -/
def fill (m : Flat) (d n : Nat) (f : Nat → Byte) : Flat := { m with ram := m.ram.fill d n f }

@[simp] theorem fill_zero (m : Flat) (d : Nat) (f : Nat → Byte) : m.fill d 0 f = m := by
  simp [fill]

theorem setByte_fill {m : Flat} {d : Word} {n : Nat} {f : Nat → Byte} (h : d.toNat + n < 2 ^ 32) :
    (m.fill d.toNat n f).setByte (d + BitVec.ofNat 32 n) (f n) = m.fill d.toNat (n + 1) f := by
  simp only [setByte, fill, toNat_add_ofNat h, Bytes.fill_succ]

end Flat

/-- The bytes behind a pointer. -/
def Flat.bytesAt (m : Flat) (a : Word) (i : Nat) : Byte := m.byte (a + BitVec.ofNat 32 i)

theorem Flat.bytesAt_eq {m : Flat} {a : Word} {i : Nat} (h : a.toNat + i < 2 ^ 32) :
    m.bytesAt a i = m.ram (a.toNat + i) := by
  simp only [bytesAt, byte, toNat_add_ofNat h]

/-! ## Copying a string -/

/-- `strcpy` copies `n` of these bytes: at least one, and up to the first NUL behind it. -/
structure CopyLen (f : Nat → Byte) (n : Nat) : Prop where
  pos : 0 < n
  nul : f n = 0#8
  before : ∀ j, 0 < j → j < n → f j ≠ 0#8

theorem CopyLen.unique {f : Nat → Byte} {n n' : Nat} (h : CopyLen f n) (h' : CopyLen f n') :
    n = n' := by
  rcases Nat.lt_trichotomy n n' with hlt | heq | hgt
  · exact absurd h.nul (h'.before n h.pos hlt)
  · exact heq
  · exact absurd h'.nul (h.before n' h'.pos hgt)

theorem CopyLen.congr {f g : Nat → Byte} {n : Nat} (h : CopyLen f n) (hfg : ∀ j, j ≤ n → f j = g j) :
    CopyLen g n where
  pos := h.pos
  nul := by rw [← hfg n (Nat.le_refl n), h.nul]
  before j hj hjn := by
    rw [← hfg j (Nat.le_of_lt hjn)]
    exact h.before j hj hjn

/-- A string that is not empty and has its NUL at `n` is copied up to that NUL. -/
theorem copyLen_of_nul {f : Nat → Byte} {n : Nat} (hpos : 0 < n) (hnul : f n = 0#8) :
    ∃ k, k ≤ n ∧ CopyLen f k := by
  induction n using Nat.strongRecOn with
  | ind n ih =>
      by_cases hfirst : ∀ j, 0 < j → j < n → f j ≠ 0#8
      · exact ⟨n, Nat.le_refl n, hpos, hnul, hfirst⟩
      · push Not at hfirst
        obtain ⟨j, hj, hjn, hnul'⟩ := hfirst
        obtain ⟨k, hk, hcopy⟩ := ih j hjn hj hnul'
        exact ⟨k, by omega, hcopy⟩

section Strcpy

variable {dest : Word} {src : Src} {obj : Option Extent} {s : Kernel Flat} {f : Nat → Byte}

/-- The state when `i` bytes have been copied. -/
def copied (s : Kernel Flat) (dest : Word) (f : Nat → Byte) (i : Nat) : Kernel Flat :=
  { s with mem := s.mem.fill dest.toNat i f }

theorem copied_ram (i : Nat) : (copied s dest f i).mem.ram = s.mem.ram.fill dest.toNat i f := rfl

theorem copied_succ {i : Nat} (h : dest.toNat + i < 2 ^ 32) :
    { copied s dest f i with
      mem := (copied s dest f i).mem.setByte (dest + BitVec.ofNat 32 i) (f i) } =
      copied s dest f (i + 1) := by
  simp only [copied, Flat.setByte_fill h]

theorem store8_copied {i : Nat} (h : dest.toNat + i < 2 ^ 32)
    (hin : Within obj (dest + BitVec.ofNat 32 i) 1) :
    store8 (dest + BitVec.ofNat 32 i) (f i) obj (copied s dest f i) =
      .ok ((), copied s dest f (i + 1)) := by
  rw [store8_run hin, copied_succ h]

/-- `strcpy` stores the bytes up to the first NUL behind the first byte, if the source reads the same
while they are stored. -/
theorem strcpy_run {n : Nat} (hn : CopyLen f n) (hfit : dest.toNat + n ≤ 2 ^ 32)
    (hsrc : ∀ i k, i ≤ n → k ≤ n → src.get i (copied s dest f k) = .ok (f i, copied s dest f k))
    (hdst : ∀ i, i < n → Within obj (dest + BitVec.ofNat 32 i) 1) :
    strcpy dest src obj s = .ok ((), copied s dest f n) := by
  -- The induction is on the number of turns still to be made.
  have hloop : ∀ k i fuel, i + (k + 1) = n → k < fuel →
      strcpyFrom dest src obj fuel i (copied s dest f i) = .ok ((), copied s dest f n) := by
    intro k
    induction k with
    | zero =>
        rintro i (_ | fuel) hi hfuel
        · omega
        rw [strcpyFrom, bind_run (hsrc i i (by omega) (by omega)),
          bind_run (store8_copied (by omega) (hdst i (by omega))),
          bind_run (hsrc (i + 1) (i + 1) (by omega) (by omega)), hi, if_pos hn.nul]
        rfl
    | succ k ih =>
        rintro i (_ | fuel) hi hfuel
        · omega
        rw [strcpyFrom, bind_run (hsrc i i (by omega) (by omega)),
          bind_run (store8_copied (by omega) (hdst i (by omega))),
          bind_run (hsrc (i + 1) (i + 1) (by omega) (by omega)),
          if_neg (hn.before (i + 1) (by omega) (by omega))]
        exact ih (i + 1) fuel (by omega) (by omega)
  have hstart : copied s dest f 0 = s := by simp [copied]
  have hpos := hn.pos
  have hrun := hloop (n - 1) 0 spinLimit (by omega) (by unfold spinLimit; omega)
  rwa [hstart] at hrun

theorem Src.get_remembers (src : Src) (i : Nat) : Remembers (src.get i : K Flat Byte) := by
  cases src with
  | mem a obj => exact Remembers.load8 _ _
  | lit s => exact Remembers.ite (Remembers.pure _) (Remembers.throw _)

theorem strlenFrom_remembers (src : Src) (fuel i : Nat) :
    Remembers (strlenFrom src fuel i : K Flat Nat) := by
  induction fuel generalizing i with
  | zero => exact Remembers.throw _
  | succ fuel ih =>
      exact (src.get_remembers i).bind fun _ => .ite (Remembers.pure _) (ih (i + 1))

theorem strlen_remembers (src : Src) : Remembers (strlen src : K Flat Nat) :=
  strlenFrom_remembers _ _ _

theorem strcmpFrom_remembers (str1 str2 : Src) (fuel i : Nat) :
    Remembers (strcmpFrom str1 str2 fuel i : K Flat Bool) := by
  induction fuel generalizing i with
  | zero => exact Remembers.throw _
  | succ fuel ih =>
      exact (str1.get_remembers i).bind fun _ => (str2.get_remembers i).bind fun _ =>
        .ite (.ite (Remembers.pure _) (ih (i + 1))) (Remembers.pure _)

theorem strcmp_remembers (str1 str2 : Src) : Remembers (strcmp str1 str2 : K Flat Bool) :=
  strcmpFrom_remembers _ _ _ _

theorem strcpyFrom_remembers (dest : Word) (src : Src) (obj : Option Extent) (fuel i : Nat) :
    Remembers (strcpyFrom dest src obj fuel i : K Flat Unit) := by
  induction fuel generalizing i with
  | zero => exact Remembers.throw _
  | succ fuel ih =>
      exact (src.get_remembers i).bind fun b => (Remembers.store8 _ b obj).bind fun _ =>
        (src.get_remembers (i + 1)).bind fun _ => .ite (Remembers.pure _) (ih (i + 1))

theorem strcpy_remembers (dest : Word) (src : Src) (obj : Option Extent) :
    Remembers (strcpy dest src obj : K Flat Unit) := strcpyFrom_remembers _ _ _ _ _

/-- `strcpy` always stores the first byte. -/
theorem strcpy_clean_first {s' : Kernel Flat} (hrun : strcpy dest src obj s = .ok ((), s'))
    (hs : s'.strayed = false) : Within obj (dest + BitVec.ofNat 32 0) 1 := by
  change strcpyFrom dest src obj (spinLimit - 1 + 1) 0 s = _ at hrun
  obtain ⟨b, s₁, _, _, hrest⟩ := clean_bind hrun hs fun b =>
    (Remembers.store8 _ b obj).bind fun _ => (src.get_remembers 1).bind fun _ =>
      .ite (Remembers.pure _) (strcpyFrom_remembers _ _ _ _ _)
  obtain ⟨_, s₂, hstore, hs₂, _⟩ := clean_bind hrest hs fun _ =>
    (src.get_remembers 1).bind fun _ => .ite (Remembers.pure _) (strcpyFrom_remembers _ _ _ _ _)
  exact (store8_clean hstore hs₂).1

/-- A run of `strcpy` that has not strayed has found a NUL before it could store byte `c`, if storing
byte `c` would have been straying. -/
theorem strcpy_clean {R : Nat → Prop} {c : Nat} {s' : Kernel Flat}
    (hrun : strcpy dest src obj s = .ok ((), s')) (hs : s'.strayed = false)
    (hfit : dest.toNat + c < 2 ^ 32)
    (hsrc : ∀ i k b s₁, i ≤ c → k ≤ c → (∀ j, j < k → Within obj (dest + BitVec.ofNat 32 j) 1) →
      src.get i (copied s dest f k) = .ok (b, s₁) → s₁.strayed = false →
      R i ∧ b = f i ∧ s₁ = copied s dest f k)
    (hcap : ¬ Within obj (dest + BitVec.ofNat 32 c) 1) :
    ∃ n, n ≤ c ∧ CopyLen f n ∧ (∀ i, i < n → Within obj (dest + BitVec.ofNat 32 i) 1) ∧
      ∀ i, i ≤ n → R i := by
  have hloop : ∀ fuel i, i ≤ c →
      (∀ j, j < i → Within obj (dest + BitVec.ofNat 32 j) 1) → (∀ j, j < i → R j) →
      strcpyFrom dest src obj fuel i (copied s dest f i) = .ok ((), s') →
      ∃ n, i < n ∧ n ≤ c ∧ f n = 0#8 ∧ (∀ j, i < j → j < n → f j ≠ 0#8) ∧
        (∀ j, j < n → Within obj (dest + BitVec.ofNat 32 j) 1) ∧ ∀ j, j ≤ n → R j := by
    intro fuel
    induction fuel with
    | zero =>
        intro i _ _ _ hrun
        cases hrun
    | succ fuel ih =>
        intro i hi hdst hread hrun
        obtain ⟨b, s₁, hget, hs₁, hrest⟩ := clean_bind hrun hs fun b =>
          (Remembers.store8 _ b obj).bind fun _ => (src.get_remembers (i + 1)).bind fun _ =>
            .ite (Remembers.pure _) (strcpyFrom_remembers _ _ _ _ _)
        obtain ⟨hRi, rfl, rfl⟩ := hsrc i i b s₁ hi hi hdst hget hs₁
        obtain ⟨_, s₂, hstore, hs₂, hrest⟩ := clean_bind hrest hs fun _ =>
          (src.get_remembers (i + 1)).bind fun _ =>
            .ite (Remembers.pure _) (strcpyFrom_remembers _ _ _ _ _)
        obtain ⟨hin, rfl⟩ := store8_clean hstore hs₂
        have hlt : i < c := by
          rcases Nat.lt_or_eq_of_le hi with h | rfl
          · exact h
          · exact absurd hin hcap
        have hdst' : ∀ j, j < i + 1 → Within obj (dest + BitVec.ofNat 32 j) 1 := by
          intro j hj
          rcases Nat.lt_succ_iff_lt_or_eq.mp hj with h | rfl
          · exact hdst j h
          · exact hin
        have hread' : ∀ j, j < i + 1 → R j := by
          intro j hj
          rcases Nat.lt_succ_iff_lt_or_eq.mp hj with h | rfl
          · exact hread j h
          · exact hRi
        rw [copied_succ (by omega)] at hrest
        obtain ⟨b', s₃, hget', hs₃, hrest⟩ := clean_bind hrest hs fun _ =>
          .ite (Remembers.pure _) (strcpyFrom_remembers _ _ _ _ _)
        obtain ⟨hRn, rfl, rfl⟩ := hsrc (i + 1) (i + 1) b' s₃ hlt hlt hdst' hget' hs₃
        by_cases hnul : f (i + 1) = 0#8
        · refine ⟨i + 1, by omega, hlt, hnul, by omega, hdst', ?_⟩
          intro j hj
          rcases Nat.lt_or_eq_of_le hj with h | rfl
          · exact hread' j h
          · exact hRn
        · rw [if_neg hnul] at hrest
          obtain ⟨n, hn, hnc, hz, hnz, hD, hR⟩ := ih (i + 1) hlt hdst' hread' hrest
          refine ⟨n, by omega, hnc, hz, fun j hj hjn => ?_, hD, hR⟩
          rcases Nat.lt_or_eq_of_le hj with h | rfl
          · exact hnz j h hjn
          · exact hnul
  have hstart : copied s dest f 0 = s := by simp [copied]
  obtain ⟨n, hpos, hn, hz, hnz, hD, hR⟩ := hloop spinLimit 0 (Nat.zero_le c) (by simp) (by simp)
    (by rw [hstart]; exact hrun)
  exact ⟨n, hn, ⟨hpos, hz, hnz⟩, hD, hR⟩

end Strcpy

/-! ## Reading strings -/

/-- The bytes at `a` are those of the string, and a NUL. -/
def HoldsString (m : Flat) (a : Word) (name : List Byte) : Prop :=
  ∀ i, i ≤ name.length → m.bytesAt a i = name.getD i 0#8

/-- The source is the string `name`: its bytes and a NUL. -/
def Src.Spells (src : Src) (m : Flat) (name : List Byte) : Prop :=
  match src with
  | .mem a obj => obj = none ∧ ∀ i, i ≤ name.length → m.bytesAt a i = name.getD i 0#8
  | .lit l => l = name

section Reading

variable {s : Kernel Flat} {name : List Byte}

theorem Src.Spells.get {src : Src} (h : src.Spells s.mem name) {i : Nat} (hi : i ≤ name.length) :
    src.get i s = .ok (name.getD i 0#8, s) := by
  cases src with
  | mem a obj =>
      obtain ⟨rfl, hbytes⟩ := h
      rw [Src.get, load8_run (within_none _ _), ← hbytes i hi]
      rfl
  | lit l =>
      cases h
      rw [Src.get, if_pos hi]
      rfl

/-- `strlen` finds the NUL of a string. -/
theorem strlen_run {src : Src} (h : src.Spells s.mem name) (hname : Nulless name)
    (hlen : name.length < spinLimit) : strlen src s = .ok (name.length, s) := by
  have hloop : ∀ k i fuel, i + k = name.length → k < fuel →
      strlenFrom src fuel i s = .ok (name.length, s) := by
    intro k
    induction k with
    | zero =>
        rintro i (_ | fuel) hi hfuel
        · omega
        obtain rfl : i = name.length := hi
        rw [strlenFrom, bind_run (h.get (Nat.le_refl _)), getD_length, if_pos rfl]
        rfl
    | succ k ih =>
        rintro i (_ | fuel) hi hfuel
        · omega
        rw [strlenFrom, bind_run (h.get (by omega)), if_neg (hname.getD_ne (by omega))]
        exact ih (i + 1) fuel (by omega) (by omega)
  exact hloop name.length 0 spinLimit (Nat.zero_add _) hlen

/-- `strcmp` says whether two strings differ. -/
theorem strcmp_run {str1 str2 : Src} {name1 name2 : List Byte} (h1 : str1.Spells s.mem name1)
    (h2 : str2.Spells s.mem name2) (hn1 : Nulless name1) (hn2 : Nulless name2)
    (hlen : name2.length < spinLimit) :
    strcmp str1 str2 s = .ok (decide (name1 ≠ name2), s) := by
  -- Turn `i` is only reached when the strings agree before `i`.
  have hloop : ∀ fuel i, i ≤ name1.length → i ≤ name2.length → name2.length - i < fuel →
      (∀ j, j < i → name1.getD j 0#8 = name2.getD j 0#8) →
      strcmpFrom str1 str2 fuel i s = .ok (decide (name1 ≠ name2), s) := by
    intro fuel
    induction fuel with
    | zero =>
        intro i _ _ hfuel
        omega
    | succ fuel ih =>
        intro i hi1 hi2 hfuel hagree
        rw [strcmpFrom, bind_run (h1.get hi1), bind_run (h2.get hi2)]
        rcases Nat.lt_or_eq_of_le hi1 with hlt1 | heq1 <;> rcases Nat.lt_or_eq_of_le hi2 with hlt2 | heq2
        · have hne1 := hn1.getD_ne hlt1
          have hne2 := hn2.getD_ne hlt2
          rw [if_pos ⟨hne1, hne2⟩]
          by_cases hsame : name1.getD i 0#8 = name2.getD i 0#8
          · rw [if_neg (not_not.mpr hsame)]
            refine ih (i + 1) hlt1 hlt2 (by omega) fun j hj => ?_
            rcases Nat.lt_succ_iff_lt_or_eq.mp hj with h | rfl
            · exact hagree j h
            · exact hsame
          · have hne : name1 ≠ name2 := fun h => hsame (by rw [h])
            rw [if_pos hsame, decide_eq_true hne]
            rfl
        · have hne1 := hn1.getD_ne hlt1
          have hne : name1 ≠ name2 := by
            rintro rfl
            omega
          have hz2 : name2.getD i 0#8 = 0#8 := by rw [heq2, getD_length]
          rw [hz2]
          generalize name1.getD i 0#8 = c at hne1 ⊢
          simp [hne1, hne]
        · have hne2 := hn2.getD_ne hlt2
          have hne : name1 ≠ name2 := by
            rintro rfl
            omega
          have hz1 : name1.getD i 0#8 = 0#8 := by rw [heq1, getD_length]
          rw [hz1]
          generalize name2.getD i 0#8 = c at hne2 ⊢
          simp [hne2, hne]
        · have hz1 : name1.getD i 0#8 = 0#8 := by rw [heq1, getD_length]
          have hz2 : name2.getD i 0#8 = 0#8 := by rw [heq2, getD_length]
          have heq : name1 = name2 := by
            refine List.ext_getElem (heq1.symm.trans heq2) fun j hj1 hj2 => ?_
            have hj := hagree j (by omega)
            simpa only [List.getD_eq_getElem?_getD, List.getElem?_eq_getElem hj1,
              List.getElem?_eq_getElem hj2, Option.getD_some] using hj
          rw [hz1, hz2]
          simp [heq]
  exact hloop spinLimit 0 (Nat.zero_le _) (Nat.zero_le _) hlen (by omega)

end Reading

/-! ## Copying memory -/

section Memcpy

variable {dst src : Word} {obj : Option Extent} {s : Kernel Flat}

/-- `memcpy` copies between ranges that do not overlap. -/
theorem memcpy_run {n : Nat} (hdst : dst.toNat + n ≤ 2 ^ 32) (hsrc : src.toNat + n ≤ 2 ^ 32)
    (hapart : (Extent.ofLen src.toNat n).Disjoint (Extent.ofLen dst.toNat n))
    (hin : ∀ i, i < n → Within obj (src + BitVec.ofNat 32 i) 1) :
    memcpy dst src n obj s = .ok ((), copied s dst (s.mem.bytesAt src) n) := by
  have hloop : Returns (memcpy dst src n obj) s
      fun _ s' => s' = copied s dst (s.mem.bytesAt src) (0 + n) := by
    refine forUp_returns (I := fun i s' => s' = copied s dst (s.mem.bytesAt src) i)
      (by simp [copied]) fun i s' _ hi hs' => ?_
    subst hs'
    have hi' : i < n := by omega
    have hread : (copied s dst (s.mem.bytesAt src) i).mem.byte (src + BitVec.ofNat 32 i) =
        s.mem.bytesAt src i := by
      simp only [copied, Flat.bytesAt, Flat.byte, Flat.fill]
      rw [toNat_add_ofNat (by omega)]
      refine Bytes.fill_outside ?_
      simp only [Extent.Disjoint, Extent.ofLen] at hapart
      omega
    have hload := load8_run (s := copied s dst (s.mem.bytesAt src) i) (hin i hi')
    rw [hread] at hload
    refine .of_eq (a := ()) ?_ (copied_succ (by omega))
    rw [memcpyByte, bind_run hload, store8_run (within_none _ _)]
  obtain ⟨_, s', hrun, hs'⟩ := hloop
  rw [hrun, hs', Nat.zero_add]

/-- `memcpy` comes back, whatever it copies over. -/
theorem memcpy_returns (s : Kernel Flat) (dst src : Word) (obj : Option Extent) (n : Nat) :
    Returns (memcpy dst src n obj) s fun _ _ => True :=
  forUp_returns (I := fun _ _ => True) trivial fun _ _ _ _ _ => .of_eq (a := ()) rfl trivial

theorem memcpyByte_remembers (dst src : Word) (obj : Option Extent) (i : Nat) :
    Remembers (memcpyByte dst src obj i : K Flat Unit) :=
  (Remembers.load8 _ _).bind fun b => Remembers.store8 _ b none

theorem memcpy_remembers (dst src : Word) (n : Nat) (obj : Option Extent) :
    Remembers (memcpy dst src n obj : K Flat Unit) :=
  Remembers.forUp (memcpyByte_remembers dst src obj) _ _

/-- A run of `memcpy` that has not strayed has read inside the object only. -/
theorem memcpy_clean {n : Nat} {s' : Kernel Flat} (hrun : memcpy dst src n obj s = .ok ((), s'))
    (hs : s'.strayed = false) {i : Nat} (hi : i < n) : Within obj (src + BitVec.ofNat 32 i) 1 := by
  have hloop : ∀ n j s₁, (forUp (memcpyByte dst src obj) j n : K Flat Unit) s₁ = .ok ((), s') →
      ∀ i, j ≤ i → i < j + n → Within obj (src + BitVec.ofNat 32 i) 1 := by
    intro n
    induction n with
    | zero =>
        intro j s₁ _ i hji hij
        omega
    | succ n ih =>
        intro j s₁ hrun i hji hij
        obtain ⟨_, s₂, hfirst, hs₂, hrest⟩ := clean_bind hrun hs fun _ =>
          Remembers.forUp (memcpyByte_remembers dst src obj) _ _
        rcases Nat.lt_or_eq_of_le hji with hlt | rfl
        · exact ih (j + 1) s₂ hrest i hlt (by omega)
        · obtain ⟨b, s₃, hload, hs₃, _⟩ := clean_bind hfirst hs₂ fun b => Remembers.store8 _ b none
          exact (load8_clean hload hs₃).1
  exact hloop n 0 s hrun i (Nat.zero_le i) (by omega)

end Memcpy

end LizaOS
