-- SUMMARY: How many bytes formatted output can have.
import LizaOS.Libc.Stdio

/-!
# The length of formatted output

A format without digits asks for no field width, so each of its conversions of a number puts out a
bounded number of bytes.
-/

namespace LizaOS

/-- The most bytes one conversion of a number puts out, in a field of at most 8. -/
def conversionLimit : Nat := 90

theorem prints_length_le (string : List Byte) (width : Int) (flags : Word) :
    (prints string width flags).length ≤ string.length + width.toNat + 2 := by
  have hhexd : (if hasFlag flags dispHexd then cstr "0x" else []).length ≤ 2 := by
    split
    · exact Nat.le_refl 2
    · exact Nat.zero_le 2
  unfold prints
  generalize (if hasFlag flags dispHexd then cstr "0x" else []) = hexd at hhexd
  have hpad : (if ¬(string.length : Int) ≥ width then width - (string.length : Int) else 0).toNat ≤
      width.toNat := by
    split <;> omega
  simp only
  generalize (if ¬(string.length : Int) ≥ width then width - (string.length : Int) else 0) = pad at hpad
  split
  · split
    · split <;> simp <;> omega
    · simp
      omega
  · split
    · simp
      omega
    · split <;> simp <;> omega

theorem digits_length_le (base : Nat) (convbase : Byte) (fuel u : Nat) (buffer : List Byte) :
    (digits base convbase fuel u buffer).length ≤ fuel + buffer.length := by
  induction fuel generalizing u buffer with
  | zero => simp [digits]
  | succ fuel ih =>
      unfold digits
      split
      · omega
      · refine Nat.le_trans (ih _ _) ?_
        simp only [List.length_cons]
        omega

theorem printi_length_le (num : Word) (base : Int) (sign : Bool) (width : Int) (flags : Word)
    (convbase : Byte) : (printi num base sign width flags convbase).length ≤ 71 + width.toNat := by
  unfold printi
  split
  · simp
  simp only
  generalize (if base ≠ 16 then flags &&& ~~~dispHexd else flags) = flags'
  split
  · refine Nat.le_trans (prints_length_le ..) ?_
    simp only [List.length_singleton]
    omega
  have hbuffer : ∀ u, (digits base.toNat convbase printBufLen u []).length ≤ 65 := fun u =>
    digits_length_le base.toNat convbase printBufLen u []
  generalize hu : digits base.toNat convbase printBufLen _ [] = buffer
  have hlen : buffer.length ≤ 65 := by
    rw [← hu]
    exact hbuffer _
  split
  · split
    · rw [List.length_append]
      generalize hsigns : (_ ++ _ : List Byte) = signs
      have hsigns' : signs.length ≤ 2 := by
        rw [← hsigns, List.length_append]
        split <;> split <;> decide
      have h := prints_length_le buffer (width - signs.length) flags'
      omega
    · refine Nat.le_trans (prints_length_le ..) ?_
      split <;> split <;> first | omega | (rw [List.length_cons]; omega) |
        (rw [List.length_cons, List.length_cons]; omega)
  · refine Nat.le_trans (prints_length_le ..) ?_
    omega

/-! ## Formats -/

/-- The bytes a piece puts out, if it is no string in memory. -/
def Piece.length : Piece → Nat
  | .text bs => bs.length
  | .string _ _ _ => 0

def textLength (pieces : List Piece) : Nat := (pieces.map Piece.length).sum

/-- The format has no digits. -/
def Unsized (fmt : List Byte) : Prop := ∀ c ∈ fmt, isDigit c = false

instance (fmt : List Byte) : Decidable (Unsized fmt) := by
  unfold Unsized
  exact inferInstance

theorem convert_length_le (c : Byte) (flags internal : Word) (args : Bytes) (ap : Nat) :
    (convert c 0 flags internal args ap).1.length ≤ conversionLimit := by
  have hint : ∀ num base sign width flags' convbase, width ≤ 8 →
      (printi num base sign width flags' convbase).length ≤ conversionLimit := by
    intro num base sign width flags' convbase hwidth
    have h := printi_length_le num base sign width flags' convbase
    simp only [conversionLimit]
    omega
  have hpointer : pointerWidth internal ≤ 8 := by
    unfold pointerWidth
    split
    · exact Int.le_refl 8
    · split <;> decide
  unfold convert
  simp only
  split
  · split
    · exact Nat.le_trans (prints_length_le ..) (by decide)
    · exact Nat.zero_le _
  split
  · refine Nat.le_trans (prints_length_le ..) ?_
    simp only [conversionLimit]
    split <;> simp
  repeat' split
  all_goals first
    | exact hint _ _ _ _ _ _ (by decide)
    | exact hint _ _ _ _ _ _ hpointer
    | exact Nat.le_add_left 1 89

/-- The cursor has moved on in the format. -/
def Behind (rest fmt : List Byte) : Prop := ∃ read, fmt = read ++ rest

theorem Behind.refl (fmt : List Byte) : Behind fmt fmt := ⟨[], rfl⟩

theorem Behind.cons {rest fmt : List Byte} {c : Byte} (h : Behind rest fmt) : Behind rest (c :: fmt) := by
  obtain ⟨read, rfl⟩ := h
  exact ⟨c :: read, rfl⟩

theorem Behind.trans {a b c : List Byte} (h : Behind a b) (h' : Behind b c) : Behind a c := by
  obtain ⟨read, rfl⟩ := h
  obtain ⟨read', rfl⟩ := h'
  exact ⟨read' ++ read, (List.append_assoc ..).symm⟩

theorem scanFlags_behind (fmt : List Byte) (flags : Word) : Behind (scanFlags fmt flags).2 fmt := by
  induction fmt generalizing flags with
  | nil => exact .refl []
  | cons c fmt ih =>
      unfold scanFlags
      split
      · exact (ih _).cons
      · exact .refl _

theorem scanLength_behind (fmt : List Byte) (flags : Word) : Behind (scanLength fmt flags).2 fmt := by
  induction fmt generalizing flags with
  | nil => exact .refl []
  | cons c fmt ih =>
      unfold scanLength
      split
      · exact (ih _).cons
      · split
        · exact (ih _).cons
        · exact .refl _

theorem Behind.unsized {rest fmt : List Byte} (h : Behind rest fmt) (hfmt : Unsized fmt) : Unsized rest := by
  obtain ⟨read, rfl⟩ := h
  exact fun c hc => hfmt c (List.mem_append_right _ hc)

theorem scanWidth_unsized {fmt : List Byte} (h : Unsized fmt) (width : Int) :
    scanWidth fmt width = (width, fmt) := by
  cases fmt with
  | nil => rfl
  | cons c fmt =>
      have hc := h c (List.mem_cons_self ..)
      simp [scanWidth, hc]

/-- One directive of an unsized format. -/
theorem directive_length_le {fmt : List Byte} (h : Unsized fmt) (args : Bytes) (ap : Nat) :
    (directive fmt args ap).1.length ≤ conversionLimit ∧ Behind (directive fmt args ap).2.1 fmt := by
  have hflags := scanFlags_behind fmt 0#32
  unfold directive
  generalize hscan : scanFlags fmt 0#32 = flagged at hflags
  obtain ⟨flags, rest⟩ := flagged
  have hwidth := scanWidth_unsized (hflags.unsized h) 0
  have hlength := (scanLength_behind rest 0#32).trans hflags
  simp only [hwidth]
  generalize scanLength rest 0#32 = sized at hlength ⊢
  obtain ⟨internal, rest'⟩ := sized
  exact ⟨convert_length_le _ _ _ _ _, hlength⟩

/-- The bytes put out for an unsized format: one for each of its own, and those of the conversions. -/
theorem printLoop_length_le {args : Bytes} {fuel ap : Nat} {fmt : List Byte} {pieces : List Piece}
    (hfmt : Unsized fmt) (h : printLoop args fuel fmt ap = .ok pieces) :
    textLength pieces ≤ fmt.length + conversionLimit * fmt.count (chr '%') := by
  induction fuel generalizing fmt ap pieces with
  | zero => cases h
  | succ fuel ih =>
      cases fmt with
      | nil =>
          cases h
          exact Nat.zero_le _
      | cons c fmt =>
          have htail : Unsized fmt := fun b hb => hfmt b (List.mem_cons_of_mem _ hb)
          -- what is put out first, and where the cursor is then
          have hnext : ∀ (piece : Piece) (rest : List Byte) (k ap' : Nat), Behind rest fmt →
              (printLoop args fuel rest ap').map (piece :: ·) = .ok pieces → piece.length ≤ k →
              textLength pieces ≤ k + fmt.length + conversionLimit * fmt.count (chr '%') := by
            intro piece rest k ap' hrest hrun hk
            cases hloop : printLoop args fuel rest ap' with
            | error e =>
                rw [hloop] at hrun
                cases hrun
            | ok more =>
                rw [hloop] at hrun
                cases hrun
                have hmore := ih (hrest.unsized htail) hloop
                obtain ⟨read, rfl⟩ := hrest
                have hcount : rest.count (chr '%') ≤ (read ++ rest).count (chr '%') := by
                  rw [List.count_append]
                  omega
                have hmul := Nat.mul_le_mul_left conversionLimit hcount
                simp only [textLength, List.map_cons, List.sum_cons, List.length_append] at hmore ⊢
                omega
          unfold printLoop at h
          by_cases hpct : c = chr '%'
          · subst hpct
            have hcount : (chr '%' :: fmt).count (chr '%') = fmt.count (chr '%') + 1 :=
              List.count_cons_self
            rw [hcount, List.length_cons]
            rw [if_neg (not_not.mpr rfl)] at h
            split at h
            · cases h
              simp [textLength]
            split at h
            · have hbehind : Behind fmt.tail fmt := by
                cases fmt with
                | nil => exact .refl []
                | cons b fmt => exact (Behind.refl fmt).cons
              have hlen := hnext (.text [chr '%']) fmt.tail 1 ap hbehind h (Nat.le_refl 1)
              simp only [Nat.mul_add]
              omega
            · have hdir := directive_length_le htail args ap
              generalize directive fmt args ap = dir at h hdir
              obtain ⟨piece, rest, ap'⟩ := dir
              cases rest with
              | nil => cases h
              | cons b rest =>
                  have hbehind : Behind rest fmt := ((Behind.refl rest).cons).trans hdir.2
                  have hlen := hnext piece rest conversionLimit ap' hbehind h hdir.1
                  simp only [Nat.mul_add]
                  omega
          · rw [if_pos hpct] at h
            have hlen := hnext (.text [c]) fmt 1 ap (.refl fmt) h (Nat.le_refl 1)
            rw [List.count_cons_of_ne hpct, List.length_cons]
            omega

/-- A bound on all that a format puts out. -/
theorem print_length_le {fmt : List Byte} {args : Bytes} {pieces : List Piece} (hfmt : Unsized fmt)
    (h : print fmt args = .ok pieces) :
    textLength pieces ≤ fmt.length + conversionLimit * fmt.count (chr '%') :=
  printLoop_length_le hfmt h

end LizaOS
