-- SUMMARY: An abstract scrolling terminal: the lines of a character stream and the character shown in each cell.
import Mathlib.Algebra.Order.Ring.Int
import Mathlib.Tactic.Common

/-!
# A scrolling terminal

A terminal is fed characters one by one. What it has printed is a list of lines, the last of which is
still being written. A terminal whose rows are `0 .. height` shows the last `height + 1` lines, the
last line in row `height` once there are that many, and shows the first lines from row 0 on before.
-/

namespace Terminal

variable {α : Type}

/-- The lines printed so far: the finished ones, and the one being written. -/
structure Lines (α : Type) where
  done : List (List α)
  cur : List α

namespace Lines

def empty : Lines α := ⟨[], []⟩

/-- The lines `L₀ .. Lₘ`. -/
def all (t : Lines α) : List (List α) := t.done ++ [t.cur]

/-- The number `m` of the line being written. -/
def last (t : Lines α) : Nat := t.done.length

def newline (t : Lines α) : Lines α := ⟨t.done ++ [t.cur], []⟩

def put (t : Lines α) (c : α) : Lines α := ⟨t.done, t.cur ++ [c]⟩

/-- The number of the line in row 0. -/
def top (height : Nat) (t : Lines α) : Nat := t.last - height

/-- The row of the line being written. -/
def row (height : Nat) (t : Lines α) : Nat := min t.last height

/-- The line with number `j`, empty if there is none. -/
def line (t : Lines α) (j : Nat) : List α := t.all.getD j []

/-- The character in a cell. -/
def shown (height : Nat) (t : Lines α) (r c : Nat) : Option α := (t.line (t.top height + r))[c]?

@[simp] theorem last_newline (t : Lines α) : t.newline.last = t.last + 1 := by
  simp [newline, last]

@[simp] theorem last_put (t : Lines α) (c : α) : (t.put c).last = t.last := rfl

@[simp] theorem cur_newline (t : Lines α) : t.newline.cur = [] := rfl

@[simp] theorem cur_put (t : Lines α) (c : α) : (t.put c).cur = t.cur ++ [c] := rfl

variable {height : Nat} {t : Lines α}

theorem top_add_row (height : Nat) (t : Lines α) : t.top height + t.row height = t.last := by
  unfold top row
  omega

/-! ## Lines -/

theorem line_last (t : Lines α) : t.line t.last = t.cur := by
  simp [line, all, last, List.getD_eq_getElem?_getD]

theorem line_of_gt {j : Nat} (h : t.last < j) : t.line j = [] := by
  have hlen : t.all.length ≤ j := by
    simp only [all, List.length_append, List.length_singleton]
    exact h
  simp [line, List.getD_eq_getElem?_getD, List.getElem?_eq_none hlen]

theorem line_newline (t : Lines α) (j : Nat) : t.newline.line j = t.line j := by
  simp only [line, newline, all, List.getD_eq_getElem?_getD, List.append_assoc]
  rcases Nat.lt_or_ge j (t.done ++ [t.cur]).length with h | h
  · rw [← List.append_assoc, List.getElem?_append_left h]
  · rw [← List.append_assoc, List.getElem?_append_right h, List.getElem?_eq_none h]
    cases hj : j - (t.done ++ [t.cur]).length <;> rfl

theorem line_put (t : Lines α) (c : α) (j : Nat) :
    (t.put c).line j = if j = t.last then t.cur ++ [c] else t.line j := by
  rcases Nat.lt_trichotomy j t.last with h | rfl | h
  · rw [if_neg (Nat.ne_of_lt h)]
    simp only [line, put, all, List.getD_eq_getElem?_getD]
    rw [List.getElem?_append_left h, List.getElem?_append_left h]
  · rw [if_pos rfl]
    exact line_last (t.put c)
  · rw [if_neg (Nat.ne_of_gt h), line_of_gt h, line_of_gt]
    exact h

theorem line_mem_all {j : Nat} (h : j ≤ t.last) : t.line j ∈ t.all := by
  have hlen : j < t.all.length := by
    simp only [all, List.length_append, List.length_singleton]
    exact Nat.lt_succ_of_le h
  simp only [line, List.getD_eq_getElem?_getD, List.getElem?_eq_getElem hlen, Option.getD_some]
  exact List.getElem_mem hlen

@[simp] theorem line_empty (j : Nat) : (empty : Lines α).line j = [] := by
  cases j <;> rfl

/-! ## What is shown -/

theorem shown_of_below {r c : Nat} (h : t.row height < r) : t.shown height r c = none := by
  have hj : t.last < t.top height + r := by
    have := top_add_row height t
    omega
  simp [shown, line_of_gt hj]

@[simp] theorem shown_empty (r c : Nat) : (empty : Lines α).shown height r c = none := by
  simp [shown]

/-- A new line below the last row changes nothing that is shown. -/
theorem shown_newline {r c : Nat} (h : t.last < height) :
    t.newline.shown height r c = t.shown height r c := by
  have htop : t.newline.top height = t.top height := by
    simp only [top, last_newline]
    omega
  simp only [shown, line_newline, htop]

/-- A new line in the last row moves every row up by one. -/
theorem shown_newline_scroll {r c : Nat} (h : height ≤ t.last) :
    t.newline.shown height r c = t.shown height (r + 1) c := by
  have htop : t.newline.top height + r = t.top height + (r + 1) := by
    simp only [top, last_newline]
    omega
  simp only [shown, line_newline, htop]

/-- A character is shown behind the line being written, and nothing else changes. -/
theorem shown_put (c : α) (r k : Nat) :
    (t.put c).shown height r k =
      if r = t.row height ∧ k = t.cur.length then some c else t.shown height r k := by
  have htop : (t.put c).top height = t.top height := rfl
  have hrow := top_add_row height t
  simp only [shown, line_put, htop]
  by_cases hr : r = t.row height
  · subst hr
    rw [hrow, if_pos rfl, line_last]
    rcases Nat.lt_trichotomy k t.cur.length with hk | rfl | hk
    · simp only [Nat.ne_of_lt hk, and_false, if_false]
      exact List.getElem?_append_left hk
    · simp
    · simp only [Nat.ne_of_gt hk, and_false, if_false]
      rw [List.getElem?_eq_none (Nat.le_of_lt hk), List.getElem?_eq_none]
      simp only [List.length_append, List.length_singleton]
      exact hk
  · rw [if_neg (by omega), if_neg (by simp [hr])]

/-! ## Lines that run on

A device that does not break lines writes the characters of line `j` from position `width * j` of an
endless sheet on, so that a long line reaches into the rows below it. -/

/-- The position holds a character of some line. -/
def Printed (width : Nat) (t : Lines α) (p : Nat) : Prop :=
  ∃ j, width * j ≤ p ∧ p < width * j + (t.line j).length

/-- The position of the next character. -/
def next (width : Nat) (t : Lines α) : Nat := width * t.last + t.cur.length

/-- No line reaches past the last row that is shown while it is written, and none reaches a row that
a later line has written to. -/
structure Fits (width height : Nat) (t : Lines α) : Prop where
  inside : ∀ j, width * min j height + (t.line j).length ≤ width * (height + 1)
  apart : ∀ i j, i < j → t.line j ≠ [] → width * i + (t.line i).length ≤ width * j

variable {width : Nat}

theorem not_printed_empty (width p : Nat) : ¬ (empty : Lines α).Printed width p := by
  rintro ⟨j, hlo, hhi⟩
  rw [line_empty] at hhi
  exact absurd hlo (Nat.not_le.mpr hhi)

theorem printed_newline (p : Nat) : t.newline.Printed width p ↔ t.Printed width p := by
  simp only [Printed, line_newline]

theorem printed_put (c : α) (p : Nat) :
    (t.put c).Printed width p ↔ p = t.next width ∨ t.Printed width p := by
  have hlast : (t.cur ++ [c]).length = t.cur.length + 1 := by simp
  constructor
  · rintro ⟨j, hlo, hhi⟩
    rw [line_put] at hhi
    by_cases hj : j = t.last
    · rw [if_pos hj, hlast] at hhi
      rcases Nat.lt_or_ge p (t.next width) with hp | hp
      · refine .inr ⟨j, hlo, ?_⟩
        rw [hj, line_last]
        exact hp
      · subst hj
        exact .inl (Nat.le_antisymm (Nat.le_of_lt_succ hhi) hp)
    · exact .inr ⟨j, hlo, by rwa [if_neg hj] at hhi⟩
  · rintro (rfl | ⟨j, hlo, hhi⟩)
    · refine ⟨t.last, Nat.le_add_right _ _, ?_⟩
      rw [line_put, if_pos rfl, hlast]
      exact Nat.lt_succ_self _
    · refine ⟨j, hlo, ?_⟩
      rw [line_put]
      split
      · rename_i hj
        rw [hj, line_last] at hhi
        rw [hj, hlast]
        omega
      · exact hhi

theorem fits_empty : (empty : Lines α).Fits width height where
  inside j := by
    rw [line_empty, List.length_nil, Nat.add_zero]
    exact Nat.mul_le_mul_left _ (by omega)
  apart i j _ hj := absurd (line_empty j) hj

theorem fits_newline : t.newline.Fits width height ↔ t.Fits width height := by
  constructor
  · rintro ⟨hin, hap⟩
    simp only [line_newline] at hin hap
    exact ⟨hin, hap⟩
  · rintro ⟨hin, hap⟩
    refine ⟨?_, ?_⟩ <;> simpa only [line_newline]

/-- Lines that fit still fit when they end earlier. -/
theorem Fits.of_grows {u : Lines α} (h : u.Fits width height) (hpre : ∀ j, t.line j <+: u.line j) :
    t.Fits width height where
  inside j := Nat.le_trans (Nat.add_le_add_left (hpre j).length_le _) (h.inside j)
  apart i j hij hj := by
    have hne : u.line j ≠ [] := by
      intro hnil
      have hempty := hpre j
      rw [hnil] at hempty
      exact hj (List.prefix_nil.mp hempty)
    exact Nat.le_trans (Nat.add_le_add_left (hpre i).length_le _) (h.apart i j hij hne)

/-- The next character keeps the lines fitting exactly when its position is in the rows shown and is
not taken. -/
theorem fits_put (h : t.Fits width height) (c : α) :
    (t.put c).Fits width height ↔
      width * t.row height + t.cur.length < width * (height + 1) ∧ ¬ t.Printed width (t.next width) := by
  have hcur : ((t.put c).line t.last).length = t.cur.length + 1 := by simp [line_put]
  constructor
  · rintro ⟨hin, hap⟩
    refine ⟨?_, ?_⟩
    · have hlast := hin t.last
      rw [hcur] at hlast
      exact hlast
    · rintro ⟨j, hlo, hhi⟩
      rcases Nat.lt_trichotomy j t.last with hj | rfl | hj
      · have hne : (t.put c).line t.last ≠ [] := by
          intro hnil
          simp [hnil] at hcur
        have hline : (t.put c).line j = t.line j := by rw [line_put, if_neg (Nat.ne_of_lt hj)]
        have hfar := hap j t.last hj hne
        rw [hline] at hfar
        exact absurd (Nat.lt_of_lt_of_le hhi hfar) (Nat.not_lt.mpr (Nat.le_add_right _ _))
      · rw [line_last] at hhi
        exact Nat.lt_irrefl _ hhi
      · rw [line_of_gt hj] at hhi
        exact absurd hlo (Nat.not_le.mpr hhi)
  · rintro ⟨hroom, hfree⟩
    refine ⟨fun j => ?_, fun i j hij hj => ?_⟩
    · by_cases hlast : j = t.last
      · subst hlast
        rw [hcur]
        exact hroom
      · rw [line_put, if_neg hlast]
        exact h.inside j
    · rcases Nat.lt_trichotomy j t.last with hlast | rfl | hlast
      · rw [line_put, if_neg (by omega)] at hj ⊢
        exact h.apart i j hij hj
      · rw [line_put, if_neg (Nat.ne_of_lt hij)]
        rcases Nat.lt_or_ge (width * t.last) (width * i + (t.line i).length) with hover | hok
        · -- Line `i` reaches into the row of the line being written, which is then empty still.
          have hnil : t.line t.last = [] := by
            by_contra hne
            exact absurd (h.apart i _ hij hne) (Nat.not_le.mpr hover)
          rw [line_last] at hnil
          refine absurd ⟨i, ?_, ?_⟩ hfree
          · exact Nat.le_trans (Nat.mul_le_mul_left _ (Nat.le_of_lt hij)) (Nat.le_add_right _ _)
          · simpa [next, hnil] using hover
        · exact hok
      · have hnil : (t.put c).line j = [] := line_of_gt (t := t.put c) hlast
        exact absurd hnil hj

end Lines

/-! ## Feeding a stream -/

variable [DecidableEq α]

/-- Feed one character: `nl` starts a new line and `nul` is dropped. -/
def feed (nl nul : α) (t : Lines α) (c : α) : Lines α :=
  if c = nl then t.newline else if c = nul then t else t.put c

/-- The lines of a stream. -/
def lines (nl nul : α) (stream : List α) : Lines α := stream.foldl (feed nl nul) .empty

/-- Lines only grow: each line of a prefix is a prefix of the same line of the stream. -/
theorem feed_line_grows (nl nul : α) (t : Lines α) (c : α) (j : Nat) :
    t.line j <+: (feed nl nul t c).line j := by
  unfold feed
  split
  · exact (Lines.line_newline t j).symm ▸ List.prefix_rfl
  split
  · exact List.prefix_rfl
  · rw [Lines.line_put]
    split
    · rename_i hj
      rw [hj, Lines.line_last]
      exact List.prefix_append _ _
    · exact List.prefix_rfl

theorem foldl_line_grows (nl nul : α) (stream : List α) (t : Lines α) (j : Nat) :
    t.line j <+: (stream.foldl (feed nl nul) t).line j := by
  induction stream generalizing t with
  | nil => exact List.prefix_rfl
  | cons c stream ih => exact (feed_line_grows nl nul t c j).trans (ih (feed nl nul t c))

end Terminal
