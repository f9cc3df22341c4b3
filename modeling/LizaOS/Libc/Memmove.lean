-- SUMMARY: memmove moves its bytes whatever the overlap, and does what memcpy does where there is none.
import LizaOS.Libc.StringRun

/-!
# Moving bytes

Going upwards the bytes below `i` are in place, going downwards those from `i` on. The direction is the
one in which no byte is overwritten before it has been read.
-/

namespace LizaOS

open Exec

namespace Bytes

variable {m : Bytes} {d n i : Nat} {f : Nat → Byte}

/-- One more byte in front of those laid out. -/
theorem fill_pred : (m.fill (d + i + 1) n fun k => f (i + 1 + k)).write8 (d + i) (f i) =
    m.fill (d + i) (n + 1) fun k => f (i + k) := by
  funext x
  simp only [fill, write8]
  by_cases hx : x = d + i
  · subst hx
    simp
  · rw [if_neg hx]
    by_cases hin : d + i + 1 ≤ x ∧ x < d + i + 1 + n
    · rw [if_pos hin, if_pos (by omega)]
      congr 1
      omega
    · rw [if_neg hin, if_neg (by omega)]

end Bytes

section Memmove

variable {dst src n : Word} {s : Kernel Flat} {f : Nat → Byte}

/-- The state when the bytes from `i` to `n` have been copied. -/
def copiedFrom (s : Kernel Flat) (dst : Word) (f : Nat → Byte) (i n : Nat) : Kernel Flat :=
  { s with mem := s.mem.fill (dst.toNat + i) (n - i) fun k => f (i + k) }

@[simp] theorem copiedFrom_self (n : Nat) : copiedFrom s dst f n n = s := by
  simp [copiedFrom]

theorem copiedFrom_zero (n : Nat) : copiedFrom s dst f 0 n = copied s dst f n := by
  simp [copiedFrom, copied]

theorem copiedFrom_pred {i k : Nat} (hfits : dst.toNat + i < 2 ^ 32) (hi : i < k) :
    { copiedFrom s dst f (i + 1) k with
      mem := (copiedFrom s dst f (i + 1) k).mem.setByte (dst + BitVec.ofNat 32 i) (f i) } =
      copiedFrom s dst f i k := by
  have hlen : k - i = k - (i + 1) + 1 := by omega
  simp only [copiedFrom, Flat.setByte, Flat.fill, toNat_add_ofNat hfits, hlen, ← Nat.add_assoc,
    Bytes.fill_pred]

/-- Upwards the byte to be read has not been overwritten, as the destination is below. -/
theorem read_upwards (hlt : dst < src) {i : Nat} (hsrc : src.toNat + i < 2 ^ 32) :
    (copied s dst f i).mem.byte (src + BitVec.ofNat 32 i) = s.mem.bytesAt src i := by
  have hlt' : dst.toNat < src.toNat := hlt
  simp only [copied, Flat.bytesAt, Flat.byte, Flat.fill]
  rw [toNat_add_ofNat hsrc]
  exact Bytes.fill_outside (.inr (by omega))

/-- Downwards neither, as the destination is not below. -/
theorem read_downwards (hle : ¬dst < src) {i k : Nat} (hsrc : src.toNat + i < 2 ^ 32) :
    (copiedFrom s dst f (i + 1) k).mem.byte (src + BitVec.ofNat 32 i) = s.mem.bytesAt src i := by
  have hle' : src.toNat ≤ dst.toNat := Nat.le_of_not_lt hle
  simp only [copiedFrom, Flat.bytesAt, Flat.byte, Flat.fill]
  rw [toNat_add_ofNat hsrc]
  exact Bytes.fill_outside (.inl (by omega))

theorem memmoveUp_run (hlt : dst < src) (hdst : dst.toNat + n.toNat ≤ 2 ^ 32)
    (hsrc : src.toNat + n.toNat ≤ 2 ^ 32) (k : Nat) :
    ∀ i fuel, i + k = n.toNat → k < fuel →
      memmoveUp dst src n fuel (BitVec.ofNat 32 i) (copied s dst (s.mem.bytesAt src) i) =
        .ok ((), copied s dst (s.mem.bytesAt src) n.toNat) := by
  have hmax := n.isLt
  -- The induction is on the number of bytes still to be copied.
  induction k with
  | zero =>
      rintro i (_ | fuel) hi hfuel
      · omega
      obtain rfl : i = n.toNat := hi
      have hstop : ¬BitVec.ofNat 32 n.toNat < n := by
        rw [BitVec.lt_def, BitVec.toNat_ofNat]
        omega
      rw [memmoveUp, if_neg hstop]
      rfl
  | succ k ih =>
      rintro i (_ | fuel) hi hfuel
      · omega
      have hgo : BitVec.ofNat 32 i < n := by
        rw [BitVec.lt_def, BitVec.toNat_ofNat]
        omega
      have hnext : BitVec.ofNat 32 i + 1#32 = BitVec.ofNat 32 (i + 1) := (BitVec.ofNat_add i 1).symm
      have hload := load8_run (s := copied s dst (s.mem.bytesAt src) i)
        (within_none (src + BitVec.ofNat 32 i) 1)
      rw [read_upwards hlt (by omega)] at hload
      rw [memmoveUp, if_pos hgo, bind_run hload,
        bind_run (store8_copied (f := s.mem.bytesAt src) (by omega) (within_none _ _)), hnext]
      exact ih (i + 1) fuel (by omega) (by omega)

theorem memmoveDown_run (hle : ¬dst < src) {k : Nat} (hdst : dst.toNat + k ≤ 2 ^ 32)
    (hsrc : src.toNat + k ≤ 2 ^ 32) (hk : k < 2 ^ 32) (i : Nat) :
    ∀ fuel, i ≤ k → i < fuel →
      memmoveDown dst src fuel (BitVec.ofNat 32 i) (copiedFrom s dst (s.mem.bytesAt src) i k) =
        .ok ((), copied s dst (s.mem.bytesAt src) k) := by
  -- The induction is on the number of bytes still to be copied.
  induction i with
  | zero =>
      rintro (_ | fuel) _ hfuel
      · omega
      have hstop : ¬BitVec.ofNat 32 0 > 0#32 := by decide
      rw [memmoveDown, if_neg hstop, copiedFrom_zero]
      rfl
  | succ i ih =>
      rintro (_ | fuel) hi hfuel
      · omega
      have hgo : BitVec.ofNat 32 (i + 1) > 0#32 := by
        rw [gt_iff_lt, BitVec.lt_def, BitVec.toNat_ofNat, BitVec.toNat_ofNat]
        omega
      have hprev : BitVec.ofNat 32 (i + 1) - 1#32 = BitVec.ofNat 32 i := by
        rw [BitVec.ofNat_add]
        exact BitVec.add_sub_cancel _ _
      have hload := load8_run (s := copiedFrom s dst (s.mem.bytesAt src) (i + 1) k)
        (within_none (src + BitVec.ofNat 32 i) 1)
      rw [read_downwards hle (by omega)] at hload
      have hstore := store8_run (s := copiedFrom s dst (s.mem.bytesAt src) (i + 1) k)
        (b := s.mem.bytesAt src i) (within_none (dst + BitVec.ofNat 32 i) 1)
      rw [copiedFrom_pred (by omega) hi] at hstore
      rw [memmoveDown, if_pos hgo, hprev, bind_run hload, bind_run hstore]
      exact ih fuel (by omega) (by omega)

/-- `memmove` leaves the bytes of the source at the destination. -/
theorem memmove_run (hdst : dst.toNat + n.toNat ≤ 2 ^ 32) (hsrc : src.toNat + n.toNat ≤ 2 ^ 32) :
    memmove dst src n s = .ok (dst, copied s dst (s.mem.bytesAt src) n.toNat) := by
  have hmax := n.isLt
  have hn : BitVec.ofNat 32 n.toNat = n := by simp
  by_cases hlt : dst < src
  · have hloop := memmoveUp_run (s := s) hlt hdst hsrc n.toNat 0 spinLimit (Nat.zero_add _) hmax
    have hstart : copied s dst (s.mem.bytesAt src) 0 = s := by simp [copied]
    rw [hstart] at hloop
    rw [memmove, if_pos hlt, bind_run hloop]
    rfl
  · have hloop := memmoveDown_run (s := s) hlt hdst hsrc hmax n.toNat spinLimit (Nat.le_refl _) hmax
    rw [copiedFrom_self, hn] at hloop
    rw [memmove, if_neg hlt, bind_run hloop]
    rfl

/-- `memmove` moves the bytes, whatever the overlap, touches nothing else, and does what `memcpy` does
between places that are apart. -/
theorem memmove_moves (hdst : dst.toNat + n.toNat ≤ 2 ^ 32) (hsrc : src.toNat + n.toNat ≤ 2 ^ 32) :
    Returns (memmove dst src n) s fun v s' => v = dst ∧
      (∀ i, i < n.toNat → s'.mem.bytesAt dst i = s.mem.bytesAt src i) ∧
      (∀ x, x < dst.toNat ∨ dst.toNat + n.toNat ≤ x → s'.mem.ram x = s.mem.ram x) ∧
      s' = { s with mem := { s.mem with ram := s'.mem.ram } } ∧
      ((Extent.ofLen src.toNat n.toNat).Disjoint (Extent.ofLen dst.toNat n.toNat) →
        memcpy dst src n.toNat none s = .ok ((), s')) := by
  refine .of_eq (memmove_run hdst hsrc) ⟨rfl, fun i hi => ?_, fun x hx => Bytes.fill_outside hx, rfl, fun hapart => ?_⟩
  · rw [Flat.bytesAt_eq (by omega)]
    exact Bytes.fill_inside hi
  · exact memcpy_run hdst hsrc hapart fun _ _ => within_none _ _

end Memmove

/-- Two bytes moved up by one. -/
theorem memmove_moves_overlap :
    Returns (memmove 0x1001#32 0x1000#32 2#32)
      (Kernel.reset { Flat.zero with ram := fun x => BitVec.ofNat 8 x }) fun v s' => v = 0x1001#32 ∧
        s'.mem.bytesAt 0x1001#32 0 = 0#8 ∧ s'.mem.bytesAt 0x1001#32 1 = 1#8 :=
  (memmove_moves (by decide) (by decide)).mono fun _ _ h =>
    ⟨h.1, (h.2.1 0 (by decide)).trans rfl, (h.2.1 1 (by decide)).trans rfl⟩

end LizaOS
