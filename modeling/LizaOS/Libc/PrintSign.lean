-- SUMMARY: The sign of a number that is put out with the show-sign flag.
import LizaOS.Libc.PrintNumber

/-!
# The show-sign flag

`printi` puts the sign out itself or stores it with the digits. Zero is put out before it comes to either.
-/

namespace LizaOS

def isSign (c : Byte) : Bool := c = chr '+' ∨ c = chr '-'

/-- The sign `num` is to be shown with. -/
def signByte (num : Word) : Byte := if num.toInt < 0 then chr '-' else chr '+'

/-- The text has one sign, the one of `num`, and no digit before it. -/
def ShowsSign (num : Word) (bs : List Byte) : Prop :=
  ∃ before after, bs = before ++ signByte num :: after ∧
    (∀ c ∈ before, isSign c = false ∧ isDigit c = false) ∧ ∀ c ∈ after, isSign c = false

section Sign

variable {c : Byte}

/-- The bytes of decimal digits are no signs. -/
theorem isSign_digitText {convbase : Byte} {u : Nat} (hc : c ∈ digitText 10 convbase u) : isSign c = false := by
  rw [digitText, List.mem_reverse, List.mem_map] at hc
  obtain ⟨v, hv, rfl⟩ := hc
  have hlt : v < 10 := Nat.digits_lt_base (by decide) hv
  have hall : ∀ v, v < 10 → isSign (BitVec.ofNat 8 v + chr '0') = false := by decide
  rw [digitByte, if_neg (by omega)]
  exact hall v hlt

theorem isSign_replicate {b : Byte} {n : Nat} (hb : isSign b = false) (hc : c ∈ List.replicate n b) :
    isSign c = false := by
  rw [List.eq_of_mem_replicate hc]
  exact hb

/-- With the flag, each signed number has its sign stored or put out. -/
theorem numberSign_shown {flags : Word} (hshow : hasFlag flags showSign = true) (num : Word) :
    numberSign .signed num flags = [signByte num] := by
  have hneg : Negative .signed num ↔ num.toInt < 0 := ⟨fun h => h.2.2, fun h => ⟨rfl, rfl, h⟩⟩
  have hten : (Radix.signed.base : Int) = 10 := rfl
  unfold numberSign signOf signByte
  by_cases hlt : num.toInt < 0
  · simp [hten, hneg, hlt]
  · simp [hten, hneg, hlt, hshow]

/-- Zero is put out without a sign. -/
theorem isSign_zero {width : Int} {flags : Word} {convbase : Byte}
    (hc : c ∈ printi 0#32 10 true width flags convbase) : isSign c = false := by
  have hzero : printi 0#32 10 true width flags convbase = prints [chr '0'] width (keptFlags 10 flags) :=
    printi_zero (r := .signed)
  have hhexd : hexdOf (keptFlags 10 flags) = [] := hexdOf_keptFlags .signed flags
  obtain ⟨left, zeros, right, _, _, _, hbs⟩ := prints_inField [chr '0'] width (keptFlags 10 flags)
  rw [hzero, hbs, hhexd] at hc
  simp only [List.nil_append, List.mem_append, List.mem_singleton] at hc
  rcases hc with hc | hc | rfl | hc
  · exact isSign_replicate (by decide) hc
  · exact isSign_replicate (by decide) hc
  · decide
  · exact isSign_replicate (by decide) hc

end Sign

/-- The flag shows the sign of every number but zero. -/
theorem showsSign_iff (num : Word) (width : Int) (flags : Word) (convbase : Byte)
    (hshow : hasFlag flags showSign = true) (hhide : hasFlag flags hideSign = false) :
    ShowsSign num (printi num 10 true width flags convbase) ↔ num ≠ 0#32 := by
  constructor
  · rintro ⟨before, after, hbs, _, _⟩ rfl
    have hmem : signByte 0#32 ∈ printi 0#32 10 true width flags convbase := by
      rw [hbs]
      exact List.mem_append_right _ (List.mem_cons_self ..)
    exact absurd (isSign_zero hmem) (by decide)
  · intro hne
    have hparts := parts_of_prints (numberSign_base .signed num flags)
      (digitText Radix.signed.base convbase (magnitude .signed num)) width flags
    rw [← printi_nonzero hhide hne, numberSign_shown hshow] at hparts
    obtain ⟨left, zeros, right, _, hbs⟩ := hparts
    refine ⟨List.replicate left (chr ' '), List.replicate zeros (chr '0') ++
      (digitText 10 convbase (magnitude .signed num) ++ List.replicate right (chr ' ')), hbs, fun c hc => ?_,
      fun c hc => ?_⟩
    · rw [List.eq_of_mem_replicate hc]
      decide
    · rw [List.mem_append, List.mem_append] at hc
      rcases hc with hc | hc | hc
      · exact isSign_replicate (by decide) hc
      · exact isSign_digitText hc
      · exact isSign_replicate (by decide) hc

theorem showsSign_iff_negative :
    ShowsSign (-7#32) (printi (-7#32) 10 true 5 (showSign ||| padwZero) (chr 'a')) ↔ -7#32 ≠ 0#32 :=
  showsSign_iff (-7#32) 5 (showSign ||| padwZero) (chr 'a') (by decide) (by decide)

theorem not_showsSign_zero : ¬ShowsSign 0#32 (printi 0#32 10 true 3 showSign (chr 'a')) := by
  rintro ⟨before, after, hbs, _, _⟩
  have hmem : signByte 0#32 ∈ printi 0#32 10 true 3 showSign (chr 'a') := by
    rw [hbs]
    exact List.mem_append_right _ (List.mem_cons_self ..)
  exact absurd hmem (by decide)

example : printi 5#32 10 true 4 (showSign ||| padwZero) (chr 'a') = cstr "+005" := by decide

end LizaOS
