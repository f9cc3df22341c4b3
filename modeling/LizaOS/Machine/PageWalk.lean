-- SUMMARY: The page walk of 32-bit x86 over byte memory: entries, lookup, and what a change of memory leaves of it.
import LizaOS.Machine.Bytes

/-!
# The page walk

Two levels of tables with 1024 entries of four bytes, without large pages. A page directory is at a
physical address `root`; an entry holds the frame of what it points to and its flags. `Steady` says
that a translation does not depend on the memory of a region, so that stores there may come in any
order and any number.
-/

namespace LizaOS

/-! ## Entries -/

namespace Entry

def present (e : Word) : Bool := e.getLsbD 0

def writable (e : Word) : Bool := e.getLsbD 1

/-- The physical address of the frame. -/
def frame (e : Word) : Nat := e.toNat / 4096 * 4096

theorem present_iff {e : Word} : present e = true ↔ e.toNat % 2 = 1 := by
  simp [present, BitVec.getLsbD, Nat.testBit_zero]

theorem and_one_ne_zero_iff {e : Word} : e &&& 1#32 ≠ 0#32 ↔ present e = true :=
  and_one_ne_zero.trans present_iff.symm

theorem frame_mod (e : Word) : frame e % 4096 = 0 := Nat.mul_mod_left _ _

theorem frame_of_aligned {e : Word} (h : e.toNat % 4096 = 0) : frame e = e.toNat := by
  unfold frame
  omega

end Entry

/-! ## Addresses -/

/-- The page an address is in. -/
def pageOf (v : Word) : Nat := v.toNat / 4096

def dirIndex (v : Word) : Nat := v.toNat / 2 ^ 22

def tableIndex (v : Word) : Nat := v.toNat / 4096 % 1024

theorem dirIndex_lt (v : Word) : dirIndex v < 1024 := by
  have h := v.isLt
  unfold dirIndex
  omega

theorem tableIndex_lt (v : Word) : tableIndex v < 1024 := Nat.mod_lt _ (by decide)

/-- A page is known by its two indices. -/
theorem pageOf_inj {v w : Word} :
    pageOf v = pageOf w ↔ dirIndex v = dirIndex w ∧ tableIndex v = tableIndex w := by
  unfold pageOf dirIndex tableIndex
  omega

theorem eq_of_pageOf_eq {v w : Word} (hv : v.toNat % 4096 = 0) (hw : w.toNat % 4096 = 0)
    (h : pageOf v = pageOf w) : v = w := by
  apply BitVec.eq_of_toNat_eq
  unfold pageOf at h
  omega

theorem dirIndex_congr {v w : Word} (h : pageOf v = pageOf w) : dirIndex v = dirIndex w :=
  (pageOf_inj.mp h).1

theorem tableIndex_congr {v w : Word} (h : pageOf v = pageOf w) : tableIndex v = tableIndex w :=
  (pageOf_inj.mp h).2

theorem pageOf_add {v : Word} {k : Nat} (h : v.toNat % 4096 + k < 4096) :
    pageOf (v + BitVec.ofNat 32 k) = pageOf v := by
  have hv := v.isLt
  unfold pageOf
  rw [toNat_add_ofNat (by omega)]
  omega

/-! ## Lookup -/

/-- What a page is mapped to: a frame, and whether both levels allow stores. -/
structure Leaf where
  frame : Nat
  writable : Bool
  deriving DecidableEq, Repr

section Lookup

variable (m : Bytes) (root : Nat)

/-- The directory entry of index `i`. -/
def pdeOf (i : Nat) : Word := m.read32 (root + 4 * i)

/-- Entry `j` of the table behind the directory entry `pde`. -/
def pteOf (pde : Word) (j : Nat) : Word := m.read32 (Entry.frame pde + 4 * j)

/-- What an entry of a table maps to. -/
def leafOf (pde pte : Word) : Option Leaf :=
  if Entry.present pde ∧ Entry.present pte then
    some { frame := Entry.frame pte, writable := Entry.writable pde && Entry.writable pte }
  else none

/-- The walk of the address `v` from the directory at `root`. -/
def lookup (v : Word) : Option Leaf :=
  leafOf (pdeOf m root (dirIndex v)) (pteOf m (pdeOf m root (dirIndex v)) (tableIndex v))

end Lookup

variable {m m' : Bytes} {root : Nat} {v w : Word} {l : Leaf}

theorem lookup_congr (h : pageOf v = pageOf w) : lookup m root v = lookup m root w := by
  unfold lookup
  rw [dirIndex_congr h, tableIndex_congr h]

theorem leafOf_none {pde pte : Word} (h : Entry.present pde = false) : leafOf pde pte = none :=
  if_neg (by simp [h])

theorem leafOf_absent {pde pte : Word} (h : Entry.present pte = false) : leafOf pde pte = none :=
  if_neg (by simp [h])

theorem leafOf_some {pde pte : Word} (h : Entry.present pde = true) (h' : Entry.present pte = true) :
    leafOf pde pte =
      some { frame := Entry.frame pte, writable := Entry.writable pde && Entry.writable pte } :=
  if_pos ⟨h, h'⟩

/-- A page is mapped for stores where both entries allow them. -/
theorem leafOf_writable {pde pte : Word} (h : leafOf pde pte = some l) (hw : l.writable = true) :
    Entry.writable pde = true ∧ Entry.writable pte = true := by
  unfold leafOf at h
  split at h
  · cases h
    exact (Bool.and_eq_true _ _).mp hw
  · cases h

/-- A walk that ends at a frame went through two present entries. -/
theorem lookup_some (h : lookup m root v = some l) :
    Entry.present (pdeOf m root (dirIndex v)) = true ∧
      Entry.present (pteOf m (pdeOf m root (dirIndex v)) (tableIndex v)) = true ∧
      Entry.frame (pteOf m (pdeOf m root (dirIndex v)) (tableIndex v)) = l.frame := by
  unfold lookup leafOf at h
  split at h
  · rename_i hp
    cases h
    exact ⟨hp.1, hp.2, rfl⟩
  · cases h

theorem lookup_frame_mod (h : lookup m root v = some l) : l.frame % 4096 = 0 := by
  rw [← (lookup_some h).2.2]
  exact Entry.frame_mod _

/-! ## Memory that a walk does not depend on -/

/-- The two memories differ inside `A` at most. -/
def AgreeOff (A : Nat → Prop) (m m' : Bytes) : Prop := ∀ x, ¬A x → m' x = m x

namespace AgreeOff

variable {A B : Nat → Prop} {m₁ m₂ m₃ : Bytes}

theorem refl (m : Bytes) : AgreeOff A m m := fun _ _ => rfl

theorem trans (h : AgreeOff A m₁ m₂) (h' : AgreeOff A m₂ m₃) : AgreeOff A m₁ m₃ :=
  fun x hx => (h' x hx).trans (h x hx)

theorem mono (h : AgreeOff A m₁ m₂) (hAB : ∀ x, A x → B x) : AgreeOff B m₁ m₂ :=
  fun x hx => h x fun hA => hx (hAB x hA)

theorem read32 (h : AgreeOff A m₁ m₂) {p : Nat} (hp : ∀ k, k < 4 → ¬A (p + k)) :
    m₂.read32 p = m₁.read32 p :=
  Bytes.read32_congr fun x hlo hhi => by
    have hx := h x
    obtain ⟨k, rfl⟩ := Nat.exists_eq_add_of_le hlo
    exact hx (hp k (by omega))

theorem write8 {p : Nat} {b : Byte} (hp : A p) : AgreeOff A m₁ (m₁.write8 p b) :=
  fun _ hx => Bytes.write8_other fun heq => hx (heq ▸ hp)

theorem write32 {p : Nat} {w : Word} (hp : ∀ k, k < 4 → A (p + k)) : AgreeOff A m₁ (m₁.write32 p w) :=
  fun x hx => Bytes.write32_other (by
    rcases Nat.lt_or_ge x p with hlt | hge
    · exact .inl hlt
    · obtain ⟨k, rfl⟩ := Nat.exists_eq_add_of_le hge
      refine .inr (Nat.add_le_add_left (Nat.le_of_not_lt fun hk => hx (hp k hk)) p))

theorem write16 {p : Nat} {h : Half} (hp : ∀ k, k < 2 → A (p + k)) : AgreeOff A m₁ (m₁.write16 p h) :=
  fun x hx => Bytes.write16_other (by
    rcases Nat.lt_or_ge x p with hlt | hge
    · exact .inl hlt
    · obtain ⟨k, rfl⟩ := Nat.exists_eq_add_of_le hge
      refine .inr (Nat.add_le_add_left (Nat.le_of_not_lt fun hk => hx (hp k hk)) p))

end AgreeOff

/-- The bytes of the frame at `f`. -/
def InFrame (f : Nat) (x : Nat) : Prop := f ≤ x ∧ x < f + 4096

/-- The bytes of the word at `p`. -/
def InWord (p : Nat) (x : Nat) : Prop := p ≤ x ∧ x < p + 4

theorem inWord_add {p k : Nat} (h : k < 4) : InWord p (p + k) := ⟨Nat.le_add_right p k, by omega⟩

/-- The walk of `v` does not depend on the memory in `A`. -/
def Steady (m : Bytes) (root : Nat) (A : Nat → Prop) (v : Word) : Prop :=
  ∀ m', AgreeOff A m m' → lookup m' root v = lookup m root v

namespace Steady

variable {A B : Nat → Prop}

theorem mono (h : Steady m root B v) (hAB : ∀ x, A x → B x) : Steady m root A v :=
  fun m' hm => h m' (hm.mono hAB)

theorem agree (h : Steady m root A v) (hm : AgreeOff A m m') : Steady m' root A v :=
  fun m'' hm' => (h m'' (hm.trans hm')).trans (h m' hm).symm

theorem congr (h : Steady m root A v) (hvw : pageOf w = pageOf v) : Steady m root A w :=
  fun m' hm => by rw [lookup_congr hvw, lookup_congr hvw, h m' hm]

/-- A walk is steady where its two entries are not. -/
theorem of_entries (hdir : ∀ x, InWord (root + 4 * dirIndex v) x → ¬A x)
    (htable : Entry.present (pdeOf m root (dirIndex v)) = true → ∀ x,
      InWord (Entry.frame (pdeOf m root (dirIndex v)) + 4 * tableIndex v) x → ¬A x) :
    Steady m root A v := by
  intro m' hm
  have hpde : pdeOf m' root (dirIndex v) = pdeOf m root (dirIndex v) :=
    hm.read32 fun k hk => hdir _ (inWord_add hk)
  unfold lookup
  rw [hpde]
  cases hp : Entry.present (pdeOf m root (dirIndex v)) with
  | false => rw [leafOf_none hp, leafOf_none hp]
  | true =>
      have hpte : pteOf m' (pdeOf m root (dirIndex v)) (tableIndex v) =
          pteOf m (pdeOf m root (dirIndex v)) (tableIndex v) :=
        hm.read32 fun k hk => htable hp _ (inWord_add hk)
      rw [hpte]

end Steady

end LizaOS
