-- SUMMARY: strcpy against what a copy of a string is.
import LizaOS.Libc.StringRun

/-!
# Copies of strings

`strcpy` stores all bytes of a string but the NUL. What `dest` holds afterwards is the string if the NUL
was there before. The empty string is not copied at all: the loop runs on behind it.
-/

namespace LizaOS

open Exec

/-- `strcpy` as an expression. Control falls off the end of its body, so it has no value. -/
def strcpyValue {μ : Type} [Bus μ] (dest : Word) (src : Src) : K μ (Option Word) := do
  strcpy dest src
  pure none

/-- The string at `src`, watched up to its NUL. -/
def stringSrc (src : Word) (name : List Byte) : Src :=
  .mem src (some (.ofLen src.toNat (name.length + 1)))

/-- `dest` holds a copy of the string at `src`, nothing else has been stored, and nothing behind the
string has been read. -/
structure StringCopied (s s' : Kernel Flat) (dest src : Word) (name : List Byte) : Prop where
  copy : HoldsString s'.mem dest name
  frame : ∀ x, x < dest.toNat ∨ dest.toNat + name.length < x → s'.mem.ram x = s.mem.ram x
  inside : s'.strayed = false
  length : strlen (.mem dest none) s' = strlen (.mem src none) s'
  equal : strcmp (.mem dest none) (.mem src none) s' = .ok (false, s')

section Copies

variable {dest src : Word} {name : List Byte} {s : Kernel Flat}

/-- There is room for the string at `dest` and at `src`, and the two places are apart. -/
structure CopyRoom (dest src : Word) (name : List Byte) : Prop where
  dest_fits : dest.toNat + name.length < 2 ^ 32
  src_fits : src.toNat + name.length < 2 ^ 32
  apart : (Extent.ofLen src.toNat (name.length + 1)).Disjoint (Extent.ofLen dest.toNat (name.length + 1))

theorem within_stringSrc (h : src.toNat + name.length < 2 ^ 32) {i : Nat} (hi : i ≤ name.length) :
    Within (some (.ofLen src.toNat (name.length + 1))) (src + BitVec.ofNat 32 i) 1 := by
  rw [within_some, toNat_add_ofNat (by omega)]
  exact ⟨Nat.le_add_right _ _, by simp only [Extent.ofLen]; omega⟩

/-- A string that is not empty is copied, but for its NUL. -/
theorem strcpy_string (hroom : CopyRoom dest src name) (hname : Nulless name) (hne : name ≠ [])
    (hsrc : HoldsString s.mem src name) :
    strcpy dest (stringSrc src name) none s = .ok ((), copied s dest (s.mem.bytesAt src) name.length) := by
  obtain ⟨hdest, hfits, hapart⟩ := hroom
  have hpos := List.length_pos_iff.mpr hne
  have hlen : CopyLen (s.mem.bytesAt src) name.length := by
    refine ⟨hpos, ?_, fun j _ hj => ?_⟩
    · rw [hsrc _ (Nat.le_refl _), getD_length]
    · rw [hsrc j (Nat.le_of_lt hj)]
      exact hname.getD_ne hj
  refine strcpy_run hlen (Nat.le_of_lt hdest) (fun i k hi hk => ?_) fun i _ => within_none _ _
  have hread : (copied s dest (s.mem.bytesAt src) k).mem.byte (src + BitVec.ofNat 32 i) = s.mem.bytesAt src i := by
    simp only [copied, Flat.bytesAt, Flat.byte, Flat.fill]
    rw [toNat_add_ofNat (by omega)]
    refine Bytes.fill_outside ?_
    simp only [Extent.Disjoint, Extent.ofLen] at hapart
    omega
  have hload := load8_run (s := copied s dest (s.mem.bytesAt src) k) (within_stringSrc hfits hi)
  rw [hread] at hload
  exact hload

/-- Behind the empty string the loop reads on. -/
theorem strcpy_empty_strays {s' : Kernel Flat} (hrun : strcpy dest (stringSrc src []) none s = .ok ((), s')) :
    s'.strayed = true := by
  by_contra hclean
  have hs := Bool.eq_false_iff.mpr hclean
  change strcpyFrom dest (stringSrc src []) none (spinLimit - 1 + 1) 0 s = _ at hrun
  obtain ⟨b, s₁, _, _, hrest⟩ := clean_bind hrun hs fun b =>
    (Remembers.store8 _ b none).bind fun _ => (Src.get_remembers _ 1).bind fun _ =>
      .ite (Remembers.pure _) (strcpyFrom_remembers _ _ _ _ _)
  obtain ⟨_, s₂, _, _, hrest⟩ := clean_bind hrest hs fun _ =>
    (Src.get_remembers _ 1).bind fun _ => .ite (Remembers.pure _) (strcpyFrom_remembers _ _ _ _ _)
  obtain ⟨c, s₃, hget, hs₃, _⟩ := clean_bind hrest hs fun _ =>
    .ite (Remembers.pure _) (strcpyFrom_remembers _ _ _ _ _)
  have hin : Within (some (.ofLen src.toNat 1)) (src + 1#32) 1 := (load8_clean hget hs₃).1
  rw [within_some] at hin
  obtain ⟨hlow, hhigh⟩ := hin
  have hlt := src.isLt
  simp only [Extent.ofLen, BitVec.toNat_add, BitVec.toNat_ofNat] at hlow hhigh
  omega

/-- What the copy is like, if there is one. -/
theorem stringCopied_iff (hroom : CopyRoom dest src name) (hname : Nulless name) (hs : s.strayed = false)
    (hsrc : HoldsString s.mem src name) :
    StringCopied s (copied s dest (s.mem.bytesAt src) name.length) dest src name ↔
      s.mem.bytesAt dest name.length = 0#8 := by
  obtain ⟨hdest, hfits, hapart⟩ := hroom
  have hdisj : src.toNat + name.length < dest.toNat ∨ dest.toNat + name.length < src.toNat := by
    simp only [Extent.Disjoint, Extent.ofLen] at hapart
    omega
  -- the byte behind the copied ones is left alone
  have hbehind : (copied s dest (s.mem.bytesAt src) name.length).mem.bytesAt dest name.length =
      s.mem.bytesAt dest name.length := by
    rw [Flat.bytesAt_eq hdest, Flat.bytesAt_eq hdest]
    exact Bytes.fill_outside (.inr (Nat.le_refl _))
  constructor
  · intro h
    rw [← hbehind, h.copy _ (Nat.le_refl _), getD_length]
  · intro hnul
    have hcopy : HoldsString (copied s dest (s.mem.bytesAt src) name.length).mem dest name := by
      intro i hi
      rcases Nat.lt_or_eq_of_le hi with hlt | rfl
      · rw [Flat.bytesAt_eq (by omega), ← hsrc i hi]
        exact Bytes.fill_inside hlt
      · rw [hbehind, hnul, getD_length]
    have hkept : HoldsString (copied s dest (s.mem.bytesAt src) name.length).mem src name := by
      intro i hi
      rw [Flat.bytesAt_eq (by omega), ← hsrc i hi, Flat.bytesAt_eq (by omega)]
      exact Bytes.fill_outside (by omega)
    have hlimit : name.length < spinLimit := by
      unfold spinLimit
      omega
    have hspells : ∀ a, HoldsString (copied s dest (s.mem.bytesAt src) name.length).mem a name →
        (Src.mem a none).Spells (copied s dest (s.mem.bytesAt src) name.length).mem name := fun _ h => ⟨rfl, h⟩
    refine ⟨hcopy, fun x hx => Bytes.fill_outside (by omega), hs, ?_, ?_⟩
    · rw [strlen_run (hspells _ hcopy) hname hlimit, strlen_run (hspells _ hkept) hname hlimit]
    · rw [strcmp_run (hspells _ hcopy) (hspells _ hkept) hname hname hlimit]
      simp

/-- `strcpy` does not give `dest`. The string is copied exactly where it is not empty and its NUL was
at its place before. -/
theorem strcpy_copies_iff (hroom : CopyRoom dest src name) (hname : Nulless name) (hs : s.strayed = false)
    (hsrc : HoldsString s.mem src name) :
    ¬Returns (strcpyValue dest (stringSrc src name)) s (fun v s' =>
        v = some dest ∧ StringCopied s s' dest src name) ∧
      (Returns (strcpyValue dest (stringSrc src name)) s (fun _ s' => StringCopied s s' dest src name) ↔
        name ≠ [] ∧ s.mem.bytesAt dest name.length = 0#8) := by
  constructor
  · rintro ⟨v, s', hrun, hv, _⟩
    obtain ⟨_, s₁, _, hpure⟩ := bind_ok.mp hrun
    cases hpure
    cases hv
  · constructor
    · rintro ⟨v, s', hrun, hcopied⟩
      obtain ⟨_, s₁, hcopy, hpure⟩ := bind_ok.mp hrun
      cases hpure
      have hne : name ≠ [] := by
        rintro rfl
        have hstrayed := strcpy_empty_strays hcopy
        rw [hcopied.inside] at hstrayed
        cases hstrayed
      rw [strcpy_string hroom hname hne hsrc] at hcopy
      cases hcopy
      exact ⟨hne, (stringCopied_iff hroom hname hs hsrc).mp hcopied⟩
    · rintro ⟨hne, hnul⟩
      refine .of_eq (a := none) ?_ ((stringCopied_iff hroom hname hs hsrc).mpr hnul)
      rw [strcpyValue, bind_run (strcpy_string hroom hname hne hsrc)]
      rfl

end Copies

/-! ## A copy that does not end -/

/-- The string "ab" at 0x1000, and a place full of letters at 0x2000. -/
def twoStrings : Kernel Flat :=
  .reset { ram := fun x => if x = 0x1000 then 0x61#8 else if x = 0x1001 then 0x62#8
    else if 0x2000 ≤ x ∧ x < 0x2003 then 0x78#8 else 0#8
           cells := fun _ => 0#16 }

theorem twoStrings_holds : HoldsString twoStrings.mem 0x1000#32 [0x61#8, 0x62#8] := by
  intro i hi
  have hcases : i = 0 ∨ i = 1 ∨ i = 2 := by
    simp only [List.length_cons, List.length_nil] at hi
    omega
  rcases hcases with rfl | rfl | rfl <;> rfl

theorem strcpy_copies_iff_ab :
    Returns (strcpyValue 0x2010#32 (stringSrc 0x1000#32 [0x61#8, 0x62#8])) twoStrings fun _ s' =>
      StringCopied twoStrings s' 0x2010#32 0x1000#32 [0x61#8, 0x62#8] :=
  (strcpy_copies_iff ⟨by decide, by decide, by decide⟩ (by decide) rfl twoStrings_holds).2.mpr
    ⟨by decide, rfl⟩

/-- The letter behind the copy stays. -/
theorem not_strcpy_copies_ab :
    ¬Returns (strcpyValue 0x2000#32 (stringSrc 0x1000#32 [0x61#8, 0x62#8])) twoStrings fun _ s' =>
      StringCopied twoStrings s' 0x2000#32 0x1000#32 [0x61#8, 0x62#8] := by
  have hroom : CopyRoom 0x2000#32 0x1000#32 [0x61#8, 0x62#8] := ⟨by decide, by decide, by decide⟩
  rintro ⟨v, s', hrun, hcopied⟩
  rw [strcpyValue, bind_run (strcpy_string hroom (by decide) (by decide) twoStrings_holds)] at hrun
  cases hrun
  have hnul := (stringCopied_iff hroom (by decide) rfl twoStrings_holds).mp hcopied
  have hletter : twoStrings.mem.bytesAt 0x2000#32 2 = 0x78#8 := rfl
  exact absurd (hletter.symm.trans hnul) (by decide)

end LizaOS
