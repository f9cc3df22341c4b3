-- SUMMARY: Format strings as sequences of directives: what the parser makes of them, and exactly when it stays inside its string.
import LizaOS.Libc.CString
import LizaOS.Libc.Stdio

/-!
# Format strings

A format is read as a sequence of items: bytes that are put out as they are, `%%`, and directives. A
directive has three stages, each of which reads as far as it can, and a conversion byte behind them.
Every format is such a sequence with something left over at its end at most: a lone `%`, which the
parser handles, or a directive cut off in its stages, behind which it reads on.
-/

namespace LizaOS

/-! ## Stages -/

def isFlag (c : Byte) : Bool := (flagOf c).isSome

def isLength (c : Byte) : Bool := c = chr 'h' ∨ c = chr 'l'

/-- The bytes the three stages of a directive read when `rest` is behind them: each stage stops where
its bytes end. -/
structure Stages (flags width length rest : List Byte) : Prop where
  flags_mem : ∀ c ∈ flags, isFlag c = true
  flags_stop : isFlag (deref (width ++ (length ++ rest))) = false
  width_mem : ∀ c ∈ width, isDigit c = true
  width_stop : isDigit (deref (length ++ rest)) = false
  length_mem : ∀ c ∈ length, isLength c = true
  length_stop : isLength (deref rest) = false

instance (flags width length rest : List Byte) : Decidable (Stages flags width length rest) :=
  decidable_of_iff
    ((∀ c ∈ flags, isFlag c = true) ∧ isFlag (deref (width ++ (length ++ rest))) = false ∧
      (∀ c ∈ width, isDigit c = true) ∧ isDigit (deref (length ++ rest)) = false ∧
      (∀ c ∈ length, isLength c = true) ∧ isLength (deref rest) = false)
    ⟨fun ⟨h₁, h₂, h₃, h₄, h₅, h₆⟩ => ⟨h₁, h₂, h₃, h₄, h₅, h₆⟩,
      fun h => ⟨h.1, h.2, h.3, h.4, h.5, h.6⟩⟩

section Scans

variable {bs rest : List Byte}

theorem scanFlags_append (hmem : ∀ c ∈ bs, isFlag c = true) (hstop : isFlag (deref rest) = false)
    (flags : Word) : scanFlags (bs ++ rest) flags = ((scanFlags bs flags).1, rest) := by
  induction bs generalizing flags with
  | nil =>
      cases rest with
      | nil => rfl
      | cons c rest =>
          have hnone : flagOf c = none := Option.isSome_eq_false_iff.mp hstop |> Option.isNone_iff_eq_none.mp
          simp [scanFlags, hnone]
  | cons c bs ih =>
      obtain ⟨f, hf⟩ := Option.isSome_iff_exists.mp (hmem c (List.mem_cons_self ..))
      have hrest := ih (fun b hb => hmem b (List.mem_cons_of_mem _ hb)) (flags ||| f)
      simp only [List.cons_append, scanFlags, hf]
      exact hrest

theorem scanWidth_append (hmem : ∀ c ∈ bs, isDigit c = true) (hstop : isDigit (deref rest) = false)
    (width : Int) : scanWidth (bs ++ rest) width = ((scanWidth bs width).1, rest) := by
  induction bs generalizing width with
  | nil =>
      cases rest with
      | nil => rfl
      | cons c rest =>
          have hc : isDigit c = false := hstop
          simp [scanWidth, hc]
  | cons c bs ih =>
      have hc := hmem c (List.mem_cons_self ..)
      have hbs := fun b hb => hmem b (List.mem_cons_of_mem c hb)
      -- the next byte is a digit in both or in neither
      have hnext : isDigit (deref (bs ++ rest)) = isDigit (deref bs) := by
        cases bs with
        | nil => exact hstop
        | cons b bs => rfl
      simp only [List.cons_append, scanWidth, hc, if_true, hnext]
      exact ih hbs _

theorem scanLength_append (hmem : ∀ c ∈ bs, isLength c = true) (hstop : isLength (deref rest) = false)
    (flags : Word) : scanLength (bs ++ rest) flags = ((scanLength bs flags).1, rest) := by
  induction bs generalizing flags with
  | nil =>
      cases rest with
      | nil => rfl
      | cons c rest =>
          have hc : ¬(c = chr 'h' ∨ c = chr 'l') := of_decide_eq_false hstop
          rw [not_or] at hc
          simp [scanLength, hc.1, hc.2]
  | cons c bs ih =>
      have hc : c = chr 'h' ∨ c = chr 'l' := of_decide_eq_true (hmem c (List.mem_cons_self ..))
      have hbs := fun b hb => hmem b (List.mem_cons_of_mem c hb)
      rcases hc with rfl | rfl
      · simp only [List.cons_append, scanLength, if_true]
        exact ih hbs _
      · have hne : chr 'l' ≠ chr 'h' := by decide
        simp only [List.cons_append, scanLength, if_neg hne, if_true]
        exact ih hbs _

end Scans

/-! ## Directives -/

/-- A directive behind its `%`. -/
structure Directive where
  flags : List Byte
  width : List Byte
  length : List Byte
  conv : Byte
  deriving DecidableEq, Repr

namespace Directive

/-- The bytes of the stages. -/
def stages (d : Directive) : List Byte := d.flags ++ (d.width ++ d.length)

/-- The flags of both kinds, conflicts resolved. -/
def resolved (d : Directive) : Word × Word :=
  resolveFlags (scanFlags d.flags 0#32).1 (scanLength d.length 0#32).1

/-- What the directive puts out, and where it leaves the arguments. -/
def run (d : Directive) (args : Bytes) (ap : Nat) : Piece × Nat :=
  convert d.conv (scanWidth d.width 0).1 d.resolved.1 d.resolved.2 args ap

/-- A directive as the parser reads it: the conversion byte ends the stages, and `%%` is none. -/
structure Ok (d : Directive) : Prop where
  stages : Stages d.flags d.width d.length [d.conv]
  conv_ne : d.conv ≠ 0#8
  percent : d.stages = [] → d.conv ≠ chr '%'

instance (d : Directive) : Decidable d.Ok :=
  decidable_of_iff
    (Stages d.flags d.width d.length [d.conv] ∧ d.conv ≠ 0#8 ∧ (d.stages = [] → d.conv ≠ chr '%'))
    ⟨fun ⟨h₁, h₂, h₃⟩ => ⟨h₁, h₂, h₃⟩, fun h => ⟨h.1, h.2, h.3⟩⟩

end Directive

/-- The parser on the stages of a directive. -/
theorem directive_stages {flags width length rest : List Byte} (h : Stages flags width length rest)
    (args : Bytes) (ap : Nat) :
    directive (flags ++ (width ++ (length ++ rest))) args ap =
      let d : Directive := { flags := flags, width := width, length := length, conv := deref rest }
      ((d.run args ap).1, rest, (d.run args ap).2) := by
  unfold directive
  rw [scanFlags_append h.flags_mem h.flags_stop]
  simp only
  rw [scanWidth_append h.width_mem h.width_stop]
  simp only
  rw [scanLength_append h.length_mem h.length_stop]
  rfl

/-! ## Items -/

/-- A part of a format. -/
inductive Item where
  | byte (c : Byte)
  | percent
  | directive (d : Directive)
  deriving DecidableEq, Repr

namespace Item

def render : Item → List Byte
  | byte c => [c]
  | percent => [chr '%', chr '%']
  | directive d => chr '%' :: (d.stages ++ [d.conv])

/-- What the item puts out, and where it leaves the arguments. -/
def run (args : Bytes) (ap : Nat) : Item → Piece × Nat
  | byte c => (.text [c], ap)
  | percent => (.text [chr '%'], ap)
  | directive d => d.run args ap

def Ok : Item → Prop
  | byte c => c ≠ 0#8 ∧ c ≠ chr '%'
  | percent => True
  | directive d => d.Ok

instance (item : Item) : Decidable item.Ok := by
  cases item with
  | byte c => exact inferInstanceAs (Decidable (c ≠ 0#8 ∧ c ≠ chr '%'))
  | percent => exact inferInstanceAs (Decidable True)
  | directive d => exact inferInstanceAs (Decidable d.Ok)

end Item

/-- The format that is written for a sequence of items. -/
def renderAll (items : List Item) : List Byte := items.flatMap Item.render

/-- What a sequence of items puts out, and where it leaves the arguments. -/
def runAll (args : Bytes) : List Item → Nat → List Piece × Nat
  | [], ap => ([], ap)
  | item :: items, ap =>
      let first := item.run args ap
      let others := runAll args items first.2
      (first.1 :: others.1, others.2)

/-! ## The parser on items

One turn of the parser's loop reads one item. -/

section Parser

variable {args : Bytes} {rest : List Byte} {item : Item} {items : List Item} {n ap : Nat}

theorem printLoop_byte {c : Byte} (h : c ≠ chr '%') :
    printLoop args (n + 1) (c :: rest) ap = (printLoop args n rest ap).map (.text [c] :: ·) := by
  rw [printLoop, if_pos h]

theorem printLoop_percent :
    printLoop args (n + 1) (chr '%' :: chr '%' :: rest) ap =
      (printLoop args n rest ap).map (.text [chr '%'] :: ·) := by
  have hnul : deref (chr '%' :: rest) ≠ 0#8 := show chr '%' ≠ 0#8 by decide
  have hpct : deref (chr '%' :: rest) = chr '%' := rfl
  rw [printLoop, if_neg (not_not.mpr rfl), if_neg hnul, if_pos hpct]
  rfl

/-- A directive that is none of the parser's special cases. -/
theorem printLoop_stages {flags width length : List Byte} (h : Stages flags width length rest)
    (hnul : deref (flags ++ (width ++ (length ++ rest))) ≠ 0#8)
    (hpct : deref (flags ++ (width ++ (length ++ rest))) ≠ chr '%') :
    printLoop args (n + 1) (chr '%' :: (flags ++ (width ++ (length ++ rest)))) ap =
      match rest with
      | [] => .error .overrun
      | c :: rest =>
          let d : Directive := { flags := flags, width := width, length := length, conv := c }
          (printLoop args n rest (d.run args ap).2).map ((d.run args ap).1 :: ·) := by
  rw [printLoop, if_neg (not_not.mpr rfl), if_neg hnul, if_neg hpct, directive_stages h]
  cases rest with
  | nil => rfl
  | cons c rest => rfl

theorem isFlag_ne {c : Byte} (h : isFlag c = true) : c ≠ 0#8 ∧ c ≠ chr '%' := by
  constructor <;> rintro rfl <;> revert h <;> decide

theorem isDigit_ne {c : Byte} (h : isDigit c = true) : c ≠ 0#8 ∧ c ≠ chr '%' := by
  constructor <;> rintro rfl <;> revert h <;> decide

theorem isLength_ne {c : Byte} (h : isLength c = true) : c ≠ 0#8 ∧ c ≠ chr '%' := by
  constructor <;> rintro rfl <;> revert h <;> decide

/-- The first byte of the stages, if there is one, is none of the parser's special cases. -/
theorem Stages.first {flags width length : List Byte} (h : Stages flags width length rest)
    (hne : flags ++ (width ++ length) ≠ []) :
    deref (flags ++ (width ++ (length ++ rest))) ≠ 0#8 ∧
      deref (flags ++ (width ++ (length ++ rest))) ≠ chr '%' := by
  cases flags with
  | cons c flags => exact isFlag_ne (h.flags_mem c (List.mem_cons_self ..))
  | nil =>
      cases width with
      | cons c width => exact isDigit_ne (h.width_mem c (List.mem_cons_self ..))
      | nil =>
          cases length with
          | cons c length => exact isLength_ne (h.length_mem c (List.mem_cons_self ..))
          | nil => exact absurd rfl hne

theorem printLoop_item (h : item.Ok) :
    printLoop args (n + 1) (item.render ++ rest) ap =
      (printLoop args n rest (item.run args ap).2).map ((item.run args ap).1 :: ·) := by
  cases item with
  | byte c => exact printLoop_byte h.2
  | percent => exact printLoop_percent
  | directive d =>
      have hbytes : (Item.directive d).render ++ rest =
          chr '%' :: (d.flags ++ (d.width ++ (d.length ++ d.conv :: rest))) := by
        simp [Item.render, Directive.stages]
      have hstages : Stages d.flags d.width d.length (d.conv :: rest) := by
        refine ⟨h.stages.flags_mem, ?_, h.stages.width_mem, ?_, h.stages.length_mem, h.stages.length_stop⟩
        · have hstop := h.stages.flags_stop
          cases hw : d.width <;> cases hl : d.length <;> simpa [hw, hl, deref] using hstop
        · have hstop := h.stages.width_stop
          cases hl : d.length <;> simpa [hl, deref] using hstop
      have hfirst : deref (d.flags ++ (d.width ++ (d.length ++ d.conv :: rest))) ≠ 0#8 ∧
          deref (d.flags ++ (d.width ++ (d.length ++ d.conv :: rest))) ≠ chr '%' := by
        by_cases hempty : d.stages = []
        · have hpct := h.percent hempty
          simp only [Directive.stages, List.append_eq_nil_iff] at hempty
          rw [hempty.1, hempty.2.1, hempty.2.2]
          exact ⟨h.conv_ne, hpct⟩
        · exact hstages.first hempty
      rw [hbytes, printLoop_stages hstages hfirst.1 hfirst.2]
      rfl

/-- Each item takes one turn of the loop. -/
theorem printLoop_items (h : ∀ item ∈ items, item.Ok) :
    printLoop args (items.length + n) (renderAll items ++ rest) ap =
      (printLoop args n rest (runAll args items ap).2).map ((runAll args items ap).1 ++ ·) := by
  induction items generalizing ap with
  | nil =>
      rw [List.length_nil, Nat.zero_add]
      simp only [renderAll, List.flatMap_nil, List.nil_append, runAll]
      cases printLoop args n rest ap <;> rfl
  | cons item items ih =>
      have hrest : printLoop args (items.length + n) (renderAll items ++ rest) (item.run args ap).2 = _ :=
        ih fun i hi => h i (List.mem_cons_of_mem _ hi)
      have hturns : (item :: items).length + n = items.length + n + 1 := by
        rw [List.length_cons]
        omega
      have hbytes : renderAll (item :: items) ++ rest = item.render ++ (renderAll items ++ rest) := by
        simp [renderAll]
      have hrun : runAll args (item :: items) ap =
          ((item.run args ap).1 :: (runAll args items (item.run args ap).2).1,
            (runAll args items (item.run args ap).2).2) := rfl
      rw [hturns, hbytes, printLoop_item (h item (List.mem_cons_self ..)), hrest, hrun]
      cases printLoop args n rest (runAll args items (item.run args ap).2).2 <;> rfl

theorem Item.render_length_pos (item : Item) : 0 < item.render.length := by
  cases item <;> simp [Item.render]

theorem length_le_renderAll (items : List Item) : items.length ≤ (renderAll items).length := by
  induction items with
  | nil => exact Nat.zero_le _
  | cons item items ih =>
      have hpos := item.render_length_pos
      simp only [renderAll, List.flatMap_cons, List.length_append, List.length_cons] at ih ⊢
      omega

/-- The parser on a sequence of items with something behind it. -/
theorem print_items (h : ∀ item ∈ items, item.Ok) (rest : List Byte) (args : Bytes) :
    ∃ n, print (renderAll items ++ rest) args =
      (printLoop args (n + 1) rest (runAll args items 0).2).map ((runAll args items 0).1 ++ ·) := by
  have hlen := length_le_renderAll items
  refine ⟨(renderAll items ++ rest).length - items.length, ?_⟩
  have hturns : (renderAll items ++ rest).length + 1 =
      items.length + ((renderAll items ++ rest).length - items.length + 1) := by
    rw [List.length_append]
    omega
  rw [print, hturns, printLoop_items h]

/-- The parser puts out the items of a complete format, one after the other. -/
theorem print_renderAll (h : ∀ item ∈ items, item.Ok) :
    print (renderAll items) args = .ok (runAll args items 0).1 := by
  obtain ⟨n, hn⟩ := print_items h [] args
  rw [List.append_nil] at hn
  rw [hn]
  simp [printLoop, Except.map]

end Parser

/-! ## Every format -/

/-- The bytes of a directive that has no conversion byte. -/
def CutOff (tail : List Byte) : Prop :=
  ∃ flags width length, Stages flags width length [] ∧ flags ++ (width ++ length) ≠ [] ∧
    tail = chr '%' :: (flags ++ (width ++ length))

/-- The format ends inside a directive, behind a flag, a width digit or a length modifier at
least. -/
def EndsInDirective (fmt : List Byte) : Prop :=
  ∃ items tail, (∀ item ∈ items, Item.Ok item) ∧ CutOff tail ∧ fmt = renderAll items ++ tail

/-- The longest run of bytes that satisfy `p`, and what is behind it. -/
theorem span_eq (p : Byte → Bool) (hnul : p 0#8 = false) (fmt : List Byte) :
    ∃ bs rest, fmt = bs ++ rest ∧ (∀ c ∈ bs, p c = true) ∧ p (deref rest) = false := by
  refine ⟨fmt.takeWhile p, fmt.dropWhile p, List.takeWhile_append_dropWhile.symm, fun c hc => ?_, ?_⟩
  · exact List.all_eq_true.mp List.all_takeWhile c hc
  · induction fmt with
    | nil => exact hnul
    | cons c fmt ih =>
        rw [List.dropWhile_cons]
        split
        · exact ih
        · rename_i hp
          simpa [deref] using hp

/-- The stages read some of the bytes behind a `%`. -/
theorem exists_stages (fmt : List Byte) :
    ∃ flags width length rest, Stages flags width length rest ∧
      fmt = flags ++ (width ++ (length ++ rest)) := by
  obtain ⟨flags, rest, rfl, hflags, hstop⟩ := span_eq isFlag (by decide) fmt
  obtain ⟨width, rest, rfl, hwidth, hstop'⟩ := span_eq isDigit (by decide) rest
  obtain ⟨length, rest, rfl, hlength, hstop''⟩ := span_eq isLength (by decide) rest
  exact ⟨flags, width, length, rest, ⟨hflags, hstop, hwidth, hstop', hlength, hstop''⟩, rfl⟩

theorem renderAll_cons (item : Item) (items : List Item) :
    renderAll (item :: items) = item.render ++ renderAll items := rfl

/-- A format is a sequence of items, with a lone `%` or a directive that is cut off at its end at
most. -/
theorem exists_items {fmt : List Byte} (hfmt : Nulless fmt) :
    ∃ items tail, (∀ item ∈ items, Item.Ok item) ∧ fmt = renderAll items ++ tail ∧
      (tail = [] ∨ tail = [chr '%'] ∨ CutOff tail) := by
  induction hlen : fmt.length using Nat.strongRecOn generalizing fmt with
  | ind n ih =>
      subst hlen
      -- an item in front of a format that is such a sequence
      have hcons : ∀ (item : Item) rest, item.Ok → fmt = item.render ++ rest →
          ∃ items tail, (∀ item ∈ items, Item.Ok item) ∧ fmt = renderAll items ++ tail ∧
            (tail = [] ∨ tail = [chr '%'] ∨ CutOff tail) := by
        intro item rest (hitem : Item.Ok item) heq
        have hpos := item.render_length_pos
        have hrest : Nulless rest := fun b hb => hfmt b (by rw [heq]; exact List.mem_append_right _ hb)
        have hshort : rest.length < fmt.length := by
          rw [heq, List.length_append]
          omega
        obtain ⟨items, tail, hitems, rfl, htail⟩ := ih rest.length hshort hrest rfl
        refine ⟨item :: items, tail, ?_, ?_, htail⟩
        · rintro i (_ | ⟨_, hi⟩)
          · exact hitem
          · exact hitems i hi
        · rw [renderAll_cons, List.append_assoc]
          exact heq
      cases hfmt' : fmt with
      | nil => exact ⟨[], [], fun _ h => absurd h List.not_mem_nil, rfl, .inl rfl⟩
      | cons c rest =>
          rw [← hfmt']
          by_cases hpct : c = chr '%'
          · subst hpct
            obtain ⟨flags, width, length, rest', hstages, rfl⟩ := exists_stages rest
            cases rest' with
            | nil =>
                refine ⟨[], fmt, fun _ h => absurd h List.not_mem_nil, rfl, .inr ?_⟩
                rw [hfmt', List.append_nil]
                by_cases hempty : flags ++ (width ++ length) = []
                · exact .inl (by rw [hempty])
                · exact .inr ⟨flags, width, length, hstages, hempty, rfl⟩
            | cons conv rest' =>
                let d : Directive := { flags := flags, width := width, length := length, conv := conv }
                by_cases hspecial : d.stages = [] ∧ conv = chr '%'
                · obtain ⟨hempty, rfl⟩ := hspecial
                  refine hcons .percent rest' trivial ?_
                  simp only [d, Directive.stages, List.append_eq_nil_iff] at hempty
                  rw [hfmt', hempty.1, hempty.2.1, hempty.2.2]
                  rfl
                · have hconv : conv ≠ 0#8 := hfmt conv (by simp [hfmt'])
                  have hd : d.Ok := by
                    refine ⟨⟨hstages.flags_mem, ?_, hstages.width_mem, ?_, hstages.length_mem,
                      hstages.length_stop⟩, hconv, fun hempty heq => hspecial ⟨hempty, heq⟩⟩
                    · have hstop := hstages.flags_stop
                      simp only [d]
                      cases width <;> cases length <;> simpa [deref] using hstop
                    · have hstop := hstages.width_stop
                      simp only [d]
                      cases length <;> simpa [deref] using hstop
                  refine hcons (.directive d) rest' hd ?_
                  rw [hfmt']
                  simp [Item.render, Directive.stages, d]
          · have hc : c ≠ 0#8 := hfmt c (by simp [hfmt'])
            exact hcons (.byte c) rest ⟨hc, hpct⟩ hfmt'

/-! ## The bounds of the parser -/

theorem print_cutOff {items : List Item} {tail : List Byte} {args : Bytes}
    (h : ∀ item ∈ items, item.Ok) (htail : CutOff tail) :
    print (renderAll items ++ tail) args = .error .overrun := by
  obtain ⟨flags, width, length, hstages, hne, rfl⟩ := htail
  obtain ⟨n, hn⟩ := print_items h (chr '%' :: (flags ++ (width ++ length))) args
  have hfirst := hstages.first hne
  have hloop : printLoop args (n + 1) (chr '%' :: (flags ++ (width ++ (length ++ []))))
      (runAll args items 0).2 = .error .overrun := printLoop_stages hstages hfirst.1 hfirst.2
  rw [List.append_nil] at hloop
  rw [hn, hloop]
  rfl

/-- A format that does not end inside a directive has its pieces. -/
theorem print_complete {fmt : List Byte} (hfmt : Nulless fmt) (hends : ¬EndsInDirective fmt) (args : Bytes) :
    ∃ pieces, print fmt args = .ok pieces := by
  obtain ⟨items, tail, hitems, rfl, htail⟩ := exists_items hfmt
  rcases htail with rfl | rfl | hcut
  · exact ⟨_, by rw [List.append_nil]; exact print_renderAll hitems⟩
  · obtain ⟨n, hn⟩ := print_items hitems [chr '%'] args
    exact ⟨(runAll args items 0).1 ++ [], by rw [hn]; rfl⟩
  · exact absurd ⟨items, tail, hitems, hcut, rfl⟩ hends

/-- The parser comes to the end of its string, without reading behind it, exactly if the format does
not end inside a directive. -/
theorem print_inside_iff {fmt : List Byte} (hfmt : Nulless fmt) (args : Bytes) :
    (∃ pieces, print fmt args = .ok pieces) ↔ ¬EndsInDirective fmt := by
  constructor
  · rintro ⟨pieces, hok⟩ ⟨items, tail, hitems, htail, rfl⟩
    rw [print_cutOff hitems htail] at hok
    cases hok
  · exact fun hends => print_complete hfmt hends args

theorem print_inside_iff_decimal :
    (∃ pieces, print (cstr "%d") (slots [5#32]) = .ok pieces) ↔ ¬EndsInDirective (cstr "%d") :=
  print_inside_iff (by decide) (slots [5#32])

/-- The NUL behind a width is taken for a conversion byte and passed over. -/
theorem not_print_inside_width : ¬∃ pieces, print (cstr "%5") (slots []) = .ok pieces := by
  rintro ⟨pieces, h⟩
  have hover : print (cstr "%5") (slots []) = .error .overrun := rfl
  rw [hover] at h
  cases h

end LizaOS
