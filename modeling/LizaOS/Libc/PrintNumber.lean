-- SUMMARY: What the conversion of an integer puts out: sign, prefix, padding and digits, and that they give the number back.
import LizaOS.Libc.FormatOutput
import LizaOS.Libc.PrintLength
import Mathlib.Data.Nat.Digits.Lemmas

/-!
# The conversion of integers

The sign is stored with the digits or put out before them, and the field is padded in one of four
ways; in all of them the text is the same parts in the same order. `printi` is followed here to its
count and to its stores in the digit buffer, too.
-/

namespace LizaOS

/-! ## Digits -/

/-- The byte of a digit. -/
def digitByte (convbase : Byte) (v : Nat) : Byte :=
  if v ≥ 10 then BitVec.ofNat 8 (v - 10) + convbase else BitVec.ofNat 8 v + chr '0'

/-- The digit a byte stands for. -/
def digitValue (convbase c : Byte) : Nat :=
  if isDigit c then (c - chr '0').toNat else (c - convbase).toNat + 10

/-- The number that digits stand for, the most significant digit first. -/
def readDigits (base : Nat) (convbase : Byte) (ds : List Byte) : Nat :=
  ds.foldl (fun n c => n * base + digitValue convbase c) 0

/-- Digits of the base without a leading zero, but for the number 0. -/
structure Canonical (base : Nat) (convbase : Byte) (ds : List Byte) : Prop where
  digit : ∀ c ∈ ds, ∃ v, v < base ∧ c = digitByte convbase v
  nonempty : ds ≠ []
  leading : ds.head? = some (chr '0') → ds = [chr '0']

section Digits

variable {base u fuel : Nat} {convbase : Byte}

/-- The digit loop gives the digits of the number. -/
theorem digits_eq (hbase : 1 < base) (hu : u < base ^ fuel) (buffer : List Byte) :
    digits base convbase fuel u buffer =
      ((Nat.digits base u).map (digitByte convbase)).reverse ++ buffer := by
  induction fuel generalizing u buffer with
  | zero =>
      have hzero : u = 0 := by simpa using hu
      simp [digits, hzero]
  | succ fuel ih =>
      by_cases hz : u = 0
      · simp [digits, hz]
      · have hdiv : u / base < base ^ fuel := by
          rw [Nat.div_lt_iff_lt_mul (by omega)]
          rwa [← Nat.pow_succ]
        rw [digits, if_neg hz, Nat.digits_def' hbase (Nat.pos_of_ne_zero hz), List.map_cons,
          List.reverse_cons, List.append_assoc, List.singleton_append]
        exact ih hdiv _

/-- The digits of a number, as text. -/
def digitText (base : Nat) (convbase : Byte) (u : Nat) : List Byte :=
  ((Nat.digits base u).map (digitByte convbase)).reverse

theorem digitValue_digitByte (hconv : convbase = chr 'a' ∨ convbase = chr 'A') {v : Nat} (hv : v < 16) :
    digitValue convbase (digitByte convbase v) = v := by
  have hall : ∀ v, v < 16 → digitValue (chr 'a') (digitByte (chr 'a') v) = v ∧
      digitValue (chr 'A') (digitByte (chr 'A') v) = v := by decide
  rcases hconv with rfl | rfl
  · exact (hall v hv).1
  · exact (hall v hv).2

theorem readDigits_digitText (hbase : 1 < base) (hbase' : base ≤ 16)
    (hconv : convbase = chr 'a' ∨ convbase = chr 'A') (u : Nat) :
    readDigits base convbase (digitText base convbase u) = u := by
  have hvalues : ∀ L : List Nat, (∀ v ∈ L, v < 16) →
      (L.map (digitByte convbase)).foldr (fun c n => n * base + digitValue convbase c) 0 =
        Nat.ofDigits base L := by
    intro L hL
    induction L with
    | nil => rfl
    | cons v L ih =>
        have hv := digitValue_digitByte hconv (hL v (List.mem_cons_self ..))
        have hrest := ih fun w hw => hL w (List.mem_cons_of_mem _ hw)
        rw [List.map_cons, List.foldr_cons, hrest, hv, Nat.ofDigits_cons, Nat.mul_comm, Nat.add_comm]
  rw [readDigits, digitText, List.foldl_reverse, hvalues, Nat.ofDigits_digits]
  intro v hv
  exact Nat.lt_of_lt_of_le (Nat.digits_lt_base hbase hv) hbase'

theorem digitByte_ne_zero (hconv : convbase = chr 'a' ∨ convbase = chr 'A') {v : Nat} (hv : v < 16)
    (h : digitByte convbase v = chr '0') : v = 0 := by
  have hvalue := digitValue_digitByte hconv hv
  have hzero : digitValue convbase (chr '0') = 0 := by
    rcases hconv with rfl | rfl <;> decide
  rw [h, hzero] at hvalue
  exact hvalue.symm

theorem digitText_canonical (hbase : 1 < base) (hbase' : base ≤ 16)
    (hconv : convbase = chr 'a' ∨ convbase = chr 'A') (hu : u ≠ 0) :
    Canonical base convbase (digitText base convbase u) := by
  have hne : Nat.digits base u ≠ [] := Nat.digits_ne_nil_iff_ne_zero.mpr hu
  refine ⟨?_, ?_, ?_⟩
  · intro c hc
    rw [digitText, List.mem_reverse, List.mem_map] at hc
    obtain ⟨v, hv, rfl⟩ := hc
    exact ⟨v, Nat.digits_lt_base hbase hv, rfl⟩
  · rw [digitText, ne_eq, List.reverse_eq_nil_iff, List.map_eq_nil_iff]
    exact hne
  · intro hhead
    have hlast := Nat.getLast_digit_ne_zero base hu
    rw [digitText, List.head?_reverse, List.getLast?_map, List.getLast?_eq_getLast_of_ne_nil hne,
      Option.map_some, Option.some_inj] at hhead
    have hlt := Nat.digits_lt_base hbase (List.getLast_mem hne)
    exact absurd (digitByte_ne_zero hconv (by omega) hhead) hlast

theorem zero_canonical (hbase : 1 < base) (convbase : Byte) : Canonical base convbase [chr '0'] := by
  refine ⟨fun c hc => ⟨0, by omega, ?_⟩, List.cons_ne_nil _ _, fun _ => rfl⟩
  rw [List.mem_singleton.mp hc]
  rfl

end Digits

/-! ## Fields -/

/-- The parts of a number's text in their order; `n` cells of padding, in one place. -/
def InField (bs sgn hexd ds : List Byte) (n : Nat) : Prop :=
  ∃ left zeros right, left + zeros + right = n ∧
    bs = List.replicate left (chr ' ') ++ (sgn ++ (hexd ++ (List.replicate zeros (chr '0') ++
      (ds ++ List.replicate right (chr ' ')))))

/-- The prefix `prints` puts out. -/
def hexdOf (flags : Word) : List Byte := if hasFlag flags dispHexd then cstr "0x" else []

/-- `prints` pads with zeros behind the prefix, or with blanks on one side. -/
theorem prints_inField (string : List Byte) (width : Int) (flags : Word) :
    ∃ left zeros right, left + zeros + right = (width - string.length).toNat ∧
      (hasFlag flags padwZero = false → zeros = 0) ∧
      (hasFlag flags padwZero = true → left = 0 ∧ right = 0) ∧
      prints string width flags = List.replicate left (chr ' ') ++ (hexdOf flags ++
        (List.replicate zeros (chr '0') ++ (string ++ List.replicate right (chr ' ')))) := by
  unfold prints
  by_cases hshort : (string.length : Int) ≥ width
  · have hnone : (width - string.length).toNat = 0 := by omega
    refine ⟨0, 0, 0, hnone.symm, fun _ => rfl, fun _ => ⟨rfl, rfl⟩, ?_⟩
    simp [hshort, hexdOf]
  · have hne : width - (string.length : Int) ≠ 0 := by omega
    cases hzero : hasFlag flags padwZero with
    | true =>
        refine ⟨0, (width - string.length).toNat, 0, by omega, fun h => (by cases h),
          fun _ => ⟨rfl, rfl⟩, ?_⟩
        cases hleft : hasFlag flags leftJust <;> simp [hshort, hne, hexdOf]
    | false =>
        cases hleft : hasFlag flags leftJust with
        | true =>
            refine ⟨0, 0, (width - string.length).toNat, by omega, fun _ => rfl, fun h => (by cases h), ?_⟩
            simp [hshort, hne, hexdOf]
        | false =>
            refine ⟨(width - string.length).toNat, 0, 0, by omega, fun _ => rfl, fun h => (by cases h), ?_⟩
            simp [hshort, hne, hexdOf]

/-! ## Count and stores -/

/-- The sign `printi` puts out or stores. -/
def signOf (plus neg : Prop) [Decidable plus] [Decidable neg] : List Byte :=
  (if plus then [chr '+'] else []) ++ if neg then [chr '-'] else []

/-- The count `printi` returns. -/
def printiCount (num : Word) (base : Int) (sign : Bool) (width : Int) (flags : Word)
    (convbase : Byte) : Int :=
  if base < 2 then 0
  else
    let flags := if base ≠ 16 then flags &&& ~~~dispHexd else flags
    if num = 0#32 then outCount (prints [chr '0'] width flags)
    else
      let neg := sign ∧ base = 10 ∧ num.toInt < 0
      let u := if neg then (-num).toNat else num.toNat
      let buffer := digits base.toNat convbase printBufLen u []
      if ¬hasFlag flags hideSign ∧ base = 10 then
        let signs := signOf (hasFlag flags showSign ∧ ¬neg) neg
        if hasFlag flags padwZero then
          toInt32 (outCount signs + outCount (prints buffer (width - signs.length) flags))
        else outCount (prints (signs ++ buffer) width flags)
      else outCount (prints buffer width flags)

/-- The indices of `buffer` the digit loop stores at, from `iter` downwards, and where it leaves
`iter`. -/
def digitStores (base : Nat) : Nat → Nat → Int → List Int × Int
  | 0, _, iter => ([], iter)
  | fuel + 1, u, iter =>
      if u = 0 then ([], iter)
      else
        let others := digitStores base fuel (u / base) (iter - 1)
        (iter :: others.1, others.2)

/-- The indices of `buffer` that `printi` stores at. -/
def printiStores (num : Word) (base : Int) (sign : Bool) (flags : Word) : List Int :=
  if base < 2 then []
  else if num = 0#32 then [0, 1]
  else
    let neg := sign ∧ base = 10 ∧ num.toInt < 0
    let u := if neg then (-num).toNat else num.toNat
    let loop := digitStores base.toNat printBufLen u (printBufLen - 2)
    let signs :=
      if ¬hasFlag flags hideSign ∧ base = 10 ∧ ¬hasFlag flags padwZero then
        (if hasFlag flags showSign ∧ ¬neg then [loop.2] else []) ++ if neg then [loop.2] else []
      else []
    (printBufLen - 1 : Int) :: (loop.1 ++ signs)

theorem digitStores_bounds {base n u : Nat} (hu : u < base ^ n) (fuel : Nat) (iter : Int) :
    (∀ i ∈ (digitStores base fuel u iter).1, iter - n < i ∧ i ≤ iter) ∧
      iter - n ≤ (digitStores base fuel u iter).2 ∧ (digitStores base fuel u iter).2 ≤ iter := by
  induction fuel generalizing n u iter with
  | zero => exact ⟨fun i hi => absurd hi List.not_mem_nil, by simp only [digitStores]; omega, Int.le_refl _⟩
  | succ fuel ih =>
      unfold digitStores
      split
      · exact ⟨fun i hi => absurd hi List.not_mem_nil, by simp only; omega, Int.le_refl _⟩
      · rename_i hne
        cases n with
        | zero =>
            rw [Nat.pow_zero] at hu
            omega
        | succ n =>
            have hdiv : u / base < base ^ n := by
              rw [Nat.pow_succ] at hu
              exact Nat.div_lt_of_lt_mul (by rwa [Nat.mul_comm])
            obtain ⟨hmem, hlow, hhigh⟩ := ih hdiv (iter - 1)
            refine ⟨?_, by simp only; omega, by simp only; omega⟩
            rintro i (_ | ⟨_, hi⟩)
            · omega
            · have hi' := hmem i hi
              omega

/-! ## Numbers -/

/-- The conversions the driver is asked for: decimal, signed or not, and unsigned hexadecimal. -/
inductive Radix where
  | signed | unsigned | hex
  deriving DecidableEq, Repr

namespace Radix

def base : Radix → Nat
  | signed => 10 | unsigned => 10 | hex => 16

def sign : Radix → Bool
  | signed => true | unsigned => false | hex => false

/-- The number a word stands for. -/
def value (r : Radix) (num : Word) : Int := if r.sign then num.toInt else num.toNat

/-- The prefix asked for. -/
def hexd (r : Radix) (flags : Word) : List Byte :=
  if r = hex ∧ hasFlag flags dispHexd then cstr "0x" else []

end Radix

/-- The number a sign and digits are read as. -/
def readNumber (r : Radix) (convbase : Byte) (sgn ds : List Byte) : Int :=
  if sgn = [chr '-'] then -(readDigits r.base convbase ds : Int) else readDigits r.base convbase ds

/-- The text `bs` shows `num` in a field of `width`. -/
structure ShowsNumber (r : Radix) (num : Word) (width : Int) (flags : Word) (convbase : Byte)
    (bs sgn ds : List Byte) : Prop where
  sign : sgn = [] ∨ sgn = [chr '+'] ∨ sgn = [chr '-']
  canonical : Canonical r.base convbase ds
  value : readNumber r convbase sgn ds = r.value num
  parts : InField bs sgn (r.hexd flags) ds (width - (sgn.length + ds.length)).toNat
  length : (bs.length : Int) = max width (sgn.length + ds.length) + (r.hexd flags).length

/-! ## The text of a number -/

section Text

variable {r : Radix} {num : Word} {width : Int} {flags : Word} {convbase : Byte}
  {bs sgn hexd ds : List Byte}

theorem InField.length {n : Nat} (h : InField bs sgn hexd ds n) :
    bs.length = n + sgn.length + hexd.length + ds.length := by
  obtain ⟨left, zeros, right, hn, rfl⟩ := h
  simp only [List.length_append, List.length_replicate]
  omega

/-- The flags the conversion goes on with. -/
def keptFlags (base : Int) (flags : Word) : Word := if base ≠ 16 then flags &&& ~~~dispHexd else flags

theorem hasFlag_keptFlags (base : Int) (flags : Word) {bit : Word} (hbit : ~~~dispHexd &&& bit = bit) :
    hasFlag (keptFlags base flags) bit = hasFlag flags bit := by
  unfold keptFlags
  split
  · rw [hasFlag, hasFlag, BitVec.and_assoc, hbit]
  · rfl

theorem hexdOf_keptFlags (r : Radix) (flags : Word) : hexdOf (keptFlags r.base flags) = r.hexd flags := by
  have hdropped : hasFlag (flags &&& ~~~dispHexd) dispHexd = false := by
    rw [hasFlag, BitVec.and_assoc, show ~~~dispHexd &&& dispHexd = 0#32 by decide]
    simp
  cases r with
  | signed => simp [hexdOf, Radix.hexd, keptFlags, Radix.base, hdropped]
  | unsigned => simp [hexdOf, Radix.hexd, keptFlags, Radix.base, hdropped]
  | hex => simp [hexdOf, Radix.hexd, keptFlags, Radix.base]

/-- The number is put out with a minus. -/
def Negative (r : Radix) (num : Word) : Prop := r.sign = true ∧ (r.base : Int) = 10 ∧ num.toInt < 0

instance (r : Radix) (num : Word) : Decidable (Negative r num) := by
  unfold Negative
  exact inferInstance

/-- The magnitude of the number. -/
def magnitude (r : Radix) (num : Word) : Nat := if Negative r num then (-num).toNat else num.toNat

/-- The sign of the number, if the base has signs at all. -/
def numberSign (r : Radix) (num flags : Word) : List Byte :=
  if (r.base : Int) = 10 then signOf (hasFlag flags showSign ∧ ¬Negative r num) (Negative r num) else []

theorem magnitude_pos (h : num ≠ 0#32) : magnitude r num ≠ 0 := by
  have hnum := ne_zero_iff_toNat.mp h
  have hlt := num.isLt
  unfold magnitude
  split
  · rw [BitVec.toNat_neg]
    omega
  · omega

theorem magnitude_lt (r : Radix) (num : Word) : magnitude r num < 2 ^ 32 := by
  unfold magnitude
  split
  · exact (-num).isLt
  · exact num.isLt

theorem numberSign_cases (r : Radix) (num flags : Word) :
    (Negative r num → numberSign r num flags = [chr '-']) ∧
      (¬Negative r num → numberSign r num flags = [] ∨ numberSign r num flags = [chr '+']) := by
  unfold numberSign signOf
  refine ⟨fun hneg => ?_, fun hneg => ?_⟩
  · simp [hneg, hneg.2.1]
  · by_cases hbase : (r.base : Int) = 10
    · by_cases hshow : hasFlag flags showSign = true <;> simp [hneg, hbase, hshow]
    · simp [hbase]

/-- Sign and digits of the magnitude give the number. -/
theorem readNumber_eq
    (hds : readDigits r.base convbase ds = magnitude r num) :
    readNumber r convbase (numberSign r num flags) ds = r.value num := by
  have hlt := num.isLt
  have htoInt := BitVec.toInt_eq_toNat_cond num
  obtain ⟨hminus, hplus⟩ := numberSign_cases r num flags
  unfold readNumber Radix.value
  by_cases hneg : Negative r num
  · have hsigned := hneg.2.2
    rw [hminus hneg, if_pos rfl, hds, magnitude, if_pos hneg, hneg.1, if_pos rfl, BitVec.toNat_neg]
    split at htoInt <;> omega
  · have hne : numberSign r num flags ≠ [chr '-'] := by
      rcases hplus hneg with h | h <;> rw [h] <;> decide
    rw [if_neg hne, hds, magnitude, if_neg hneg]
    cases r with
    | signed =>
        have hnonneg : ¬num.toInt < 0 := fun hlt => hneg ⟨rfl, rfl, hlt⟩
        simp only [Radix.sign, if_true]
        split at htoInt <;> omega
    | unsigned => rfl
    | hex => rfl

/-- The digits `printi` puts out for a number that is not 0. -/
theorem digits_magnitude (r : Radix) (num : Word) (convbase : Byte) :
    digits r.base convbase printBufLen (magnitude r num) [] = digitText r.base convbase (magnitude r num) := by
  have hlt := magnitude_lt r num
  have hbound : magnitude r num < r.base ^ printBufLen := by
    refine Nat.lt_of_lt_of_le hlt (Nat.le_trans (Nat.pow_le_pow_right (by decide) (by decide : 32 ≤ 65)) ?_)
    cases r <;> exact Nat.pow_le_pow_left (by decide) 65
  rw [digits_eq (by cases r <;> decide) hbound, List.append_nil]
  rfl

/-- `printi` on a number that is not 0. -/
theorem printi_nonzero (hhide : hasFlag flags hideSign = false) (h : num ≠ 0#32) :
    printi num r.base r.sign width flags convbase =
      if (r.base : Int) = 10 ∧ hasFlag flags padwZero = true then
        numberSign r num flags ++ prints (digitText r.base convbase (magnitude r num))
          (width - (numberSign r num flags).length) (keptFlags r.base flags)
      else prints (numberSign r num flags ++ digitText r.base convbase (magnitude r num)) width
          (keptFlags r.base flags) := by
  have hdigits := digits_magnitude r num convbase
  have hbase : ¬(r.base : Int) < 2 := by cases r <;> decide
  have hkept : ∀ bit, ~~~dispHexd &&& bit = bit →
      hasFlag (keptFlags r.base flags) bit = hasFlag flags bit := fun bit hbit =>
    hasFlag_keptFlags r.base flags hbit
  have hzero := hkept padwZero (by decide)
  have hshow := hkept showSign (by decide)
  have hhide' := (hkept hideSign (by decide)).trans hhide
  have hkeep : (if (r.base : Int) ≠ 16 then flags &&& ~~~dispHexd else flags) = keptFlags r.base flags := rfl
  have hneg : (r.sign = true ∧ (r.base : Int) = 10 ∧ num.toInt < 0) = Negative r num := rfl
  have hmag : (if Negative r num then (-num).toNat else num.toNat) = magnitude r num := rfl
  unfold printi
  rw [if_neg hbase]
  simp only [hkeep]
  rw [if_neg h]
  simp only [hneg, hmag, Int.toNat_natCast, hdigits, hhide', hzero, hshow, Bool.false_eq_true,
    not_false_eq_true, true_and]
  unfold numberSign signOf
  by_cases hten : (r.base : Int) = 10
  · cases hpad : hasFlag flags padwZero with
    | true => simp only [hten, if_true, and_self]
    | false =>
        by_cases hminus : Negative r num <;> by_cases hplus : hasFlag flags showSign = true <;>
          simp [hten, hminus, hplus]
  · simp [hten]

/-- Zero has no sign. -/
theorem printi_zero :
    printi 0#32 r.base r.sign width flags convbase = prints [chr '0'] width (keptFlags r.base flags) := by
  have hbase : ¬(r.base : Int) < 2 := by cases r <;> decide
  unfold printi
  rw [if_neg hbase]
  rfl

/-- Sign and digits are put out as parts of a field. -/
theorem parts_of_prints (hsigned : (r.base : Int) = 10 ∨ sgn = []) (ds : List Byte) (width : Int)
    (flags : Word) :
    InField
      (if (r.base : Int) = 10 ∧ hasFlag flags padwZero = true then
        sgn ++ prints ds (width - sgn.length) (keptFlags r.base flags)
      else prints (sgn ++ ds) width (keptFlags r.base flags))
      sgn (r.hexd flags) ds (width - (sgn.length + ds.length)).toNat := by
  have hpad : hasFlag (keptFlags r.base flags) padwZero = hasFlag flags padwZero :=
    hasFlag_keptFlags r.base flags (by decide)
  have hhexd := hexdOf_keptFlags r flags
  have hdec : (r.base : Int) = 10 → r.hexd flags = [] := by
    intro hten
    cases r <;> first | rfl | (exact absurd hten (by decide))
  by_cases hzero : (r.base : Int) = 10 ∧ hasFlag flags padwZero = true
  · rw [if_pos hzero]
    obtain ⟨left, zeros, right, hn, _, hside, hbs⟩ :=
      prints_inField ds (width - sgn.length) (keptFlags r.base flags)
    obtain ⟨rfl, rfl⟩ := hside (hpad.trans hzero.2)
    refine ⟨0, zeros, 0, by omega, ?_⟩
    rw [hbs, hhexd]
    simp
  · rw [if_neg hzero]
    obtain ⟨left, zeros, right, hn, hnozero, _, hbs⟩ :=
      prints_inField (sgn ++ ds) width (keptFlags r.base flags)
    refine ⟨left, zeros, right, by rw [List.length_append] at hn; omega, ?_⟩
    rw [hbs, hhexd]
    -- either there is no prefix and no zero, or there is no sign
    rcases hsigned with hten | rfl
    · have hplain : hasFlag flags padwZero = false := by
        rw [← Bool.not_eq_true]
        exact fun h => hzero ⟨hten, h⟩
      rw [hdec hten, hnozero (hpad.trans hplain)]
      simp
    · simp

theorem numberSign_base (r : Radix) (num flags : Word) :
    (r.base : Int) = 10 ∨ numberSign r num flags = [] := by
  by_cases hten : (r.base : Int) = 10
  · exact .inl hten
  · exact .inr (if_neg hten)

/-- The parts of what `printi` puts out. -/
theorem printi_shows (hhide : hasFlag flags hideSign = false)
    (hconv : convbase = chr 'a' ∨ convbase = chr 'A') :
    ∃ sgn ds, ShowsNumber r num width flags convbase
      (printi num r.base r.sign width flags convbase) sgn ds := by
  have hbase : 1 < r.base := by cases r <;> decide
  have hbase' : r.base ≤ 16 := by cases r <;> decide
  have hlength : ∀ bs sgn ds, InField bs sgn (r.hexd flags) ds (width - (sgn.length + ds.length)).toNat →
      (bs.length : Int) = max width (sgn.length + ds.length) + (r.hexd flags).length := by
    intro bs sgn ds hparts
    have hlen := hparts.length
    omega
  by_cases h : num = 0#32
  · subst h
    have hnosign : (r.base : Int) = 10 ∨ ([] : List Byte) = [] := .inr rfl
    have hparts := parts_of_prints hnosign [chr '0'] width flags
    have hsame : (if (r.base : Int) = 10 ∧ hasFlag flags padwZero = true then
        [] ++ prints [chr '0'] (width - ([] : List Byte).length) (keptFlags r.base flags)
        else prints ([] ++ [chr '0']) width (keptFlags r.base flags)) =
        prints [chr '0'] width (keptFlags r.base flags) := by
      simp
    rw [hsame] at hparts
    rw [printi_zero]
    refine ⟨[], [chr '0'], .inl rfl, zero_canonical hbase convbase, ?_, hparts, hlength _ _ _ hparts⟩
    have hzero : digitValue convbase (chr '0') = 0 := by
      rcases hconv with rfl | rfl <;> decide
    have hread : readDigits r.base convbase [chr '0'] = 0 := by simp [readDigits, hzero]
    rw [readNumber, if_neg (by decide), hread]
    cases r <;> rfl
  · have hparts := parts_of_prints (numberSign_base r num flags)
      (digitText r.base convbase (magnitude r num)) width flags
    rw [← printi_nonzero hhide h] at hparts
    refine ⟨_, _, ?_, digitText_canonical hbase hbase' hconv (magnitude_pos h),
      readNumber_eq (readDigits_digitText hbase hbase' hconv _), hparts, hlength _ _ _ hparts⟩
    obtain ⟨hminus, hplus⟩ := numberSign_cases r num flags
    by_cases hneg : Negative r num
    · exact .inr (.inr (hminus hneg))
    · exact (hplus hneg).elim .inl fun h => .inr (.inl h)

/-- A sign stored before the digits. -/
theorem signOf_append (plus neg : Prop) [Decidable plus] [Decidable neg] (hone : ¬(plus ∧ neg))
    (ds : List Byte) :
    signOf plus neg ++ ds =
      if neg then chr '-' :: (if plus then chr '+' :: ds else ds)
      else if plus then chr '+' :: ds else ds := by
  unfold signOf
  by_cases hneg : neg
  · have hplus : ¬plus := fun h => hone ⟨h, hneg⟩
    simp [hneg, hplus]
  · by_cases hplus : plus <;> simp [hneg, hplus]

/-- The count is the number of bytes put out, as a 32-bit number. -/
theorem printiCount_eq (num : Word) (base : Int) (sign : Bool) (width : Int) (flags : Word)
    (convbase : Byte) : printiCount num base sign width flags convbase =
      toInt32 (printi num base sign width flags convbase).length := by
  have hone : ∀ (plus neg : Prop), ¬((plus ∧ ¬neg) ∧ neg) := fun _ _ h => h.1.2 h.2
  unfold printiCount printi
  by_cases hbase : base < 2
  · rw [if_pos hbase, if_pos hbase]
    rfl
  rw [if_neg hbase, if_neg hbase]
  simp only
  generalize (if base ≠ 16 then flags &&& ~~~dispHexd else flags) = flags
  by_cases hzero : num = 0#32
  · rw [if_pos hzero, if_pos hzero]
    exact outCount_eq _
  rw [if_neg hzero, if_neg hzero]
  split
  · split
    · rw [outCount_eq, outCount_eq, toInt32_add, toInt32_add_right, ← Int.natCast_add,
        ← List.length_append]
      simp only [signOf]
    · rw [signOf_append _ _ (hone _ _)]
      exact outCount_eq _
  · exact outCount_eq _

/-- The stores of the digits and of the sign are in the buffer. -/
theorem printiStores_bounds (r : Radix) (num flags : Word) :
    ∀ i ∈ printiStores num r.base r.sign flags, 0 ≤ i ∧ i < printBufLen := by
  have hbase : ¬(r.base : Int) < 2 := by cases r <;> decide
  have hbase' : 2 ≤ r.base := by cases r <;> decide
  have hbound : magnitude r num < r.base ^ 32 :=
    Nat.lt_of_lt_of_le (magnitude_lt r num) (Nat.pow_le_pow_left hbase' 32)
  obtain ⟨hmem, hlow, hhigh⟩ := digitStores_bounds hbound printBufLen 63
  -- the digits of a word end above index 31, and the sign goes below them
  have hloop : digitStores (r.base : Int).toNat printBufLen
      (if r.sign = true ∧ (r.base : Int) = 10 ∧ num.toInt < 0 then (-num).toNat else num.toNat)
      (printBufLen - 2) = digitStores r.base printBufLen (magnitude r num) 63 := rfl
  unfold printiStores
  rw [if_neg hbase]
  split
  · decide
  · simp only [hloop]
    have hlen : (printBufLen : Int) = 65 := rfl
    intro i hi
    rcases List.mem_cons.mp hi with rfl | hi
    · omega
    rcases List.mem_append.mp hi with hi | hi
    · have hdigit := hmem i hi
      omega
    · have hsign : i = (digitStores r.base printBufLen (magnitude r num) 63).2 := by
        split at hi
        · rcases List.mem_append.mp hi with hi | hi
          · split at hi
            · exact List.mem_singleton.mp hi
            · exact absurd hi List.not_mem_nil
          · split at hi
            · exact List.mem_singleton.mp hi
            · exact absurd hi List.not_mem_nil
        · exact absurd hi List.not_mem_nil
      omega

/-- `printi` shows the number in its field, returns the number of bytes it has put out, and stores
inside its buffer only. -/
theorem printi_faithful (r : Radix) (num : Word) (width : Int) (flags : Word) (convbase : Byte)
    (hwidth : 0 ≤ width) (hwidth' : width ≤ 2 ^ 30) (hhide : hasFlag flags hideSign = false)
    (hconv : convbase = chr 'a' ∨ convbase = chr 'A') :
    (∃ sgn ds, ShowsNumber r num width flags convbase
      (printi num r.base r.sign width flags convbase) sgn ds) ∧
    printiCount num r.base r.sign width flags convbase =
      (printi num r.base r.sign width flags convbase).length ∧
    ∀ i ∈ printiStores num r.base r.sign flags, 0 ≤ i ∧ i < printBufLen := by
  refine ⟨printi_shows hhide hconv, ?_, printiStores_bounds r num flags⟩
  have hlen := printi_length_le num r.base r.sign width flags convbase
  rw [printiCount_eq]
  unfold toInt32
  rw [Int.bmod_eq_of_le (by omega) (by omega)]

theorem printi_faithful_lowest :
    (∃ sgn ds, ShowsNumber .signed 0x80000000#32 12 padwZero (chr 'a')
      (printi 0x80000000#32 10 true 12 padwZero (chr 'a')) sgn ds) ∧
    printiCount 0x80000000#32 10 true 12 padwZero (chr 'a') =
      (printi 0x80000000#32 10 true 12 padwZero (chr 'a')).length ∧
    ∀ i ∈ printiStores 0x80000000#32 10 true padwZero, 0 ≤ i ∧ i < printBufLen :=
  printi_faithful .signed 0x80000000#32 12 padwZero (chr 'a') (by decide) (by decide) rfl (.inl rfl)

end Text

end LizaOS
