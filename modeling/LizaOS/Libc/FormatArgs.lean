-- SUMMARY: Which bytes of the argument list each directive reads, and exactly when they are its own.
import LizaOS.Libc.Format

/-!
# The arguments of a format

The argument cursor moves by the size of the type `va_arg` is given. A caller passes everything
shorter than an `int` in a whole slot of four bytes, and a `long long` in two of them, so a directive
for a `short` leaves the cursor inside its slot and one for a `long long` in the middle of its value.
-/

namespace LizaOS

/-! ## What a conversion reads -/

/-- The conversions of numbers. -/
def isInteger (c : Byte) : Bool :=
  c = chr 'd' ∨ c = chr 'i' ∨ c = chr 'u' ∨ c = chr 'x' ∨ c = chr 'p' ∨ c = chr 'X'

/-- `sizeof` of the type an integer conversion gives to `va_arg`. -/
def vaSize (internal : Word) : Nat :=
  if hasFlag internal dataLlgn then 4 else if hasFlag internal dataShrt then 2 else 4

/-- The bytes of arguments a conversion reads. -/
def argSize (c : Byte) (internal : Word) : Nat :=
  if c = chr 's' ∨ c = chr 'c' then 4 else if isInteger c then vaSize internal else 0

/-- The `n` bytes at the cursor `ap`, as a list of arguments of their own. -/
def window (args : Bytes) (ap n : Nat) : Bytes := fun k => if k < n then args (ap + k) else 0#8

section Convert

variable {args : Bytes} {ap n : Nat}

theorem read32_window (h : 4 ≤ n) : (window args ap n).read32 0 = args.read32 ap := by
  have hbyte : ∀ k, k < 4 → window args ap n k = args (ap + k) := fun k hk => if_pos (by omega)
  simp only [Bytes.read32]
  rw [hbyte 0 (by decide), hbyte (0 + 1) (by decide), hbyte (0 + 2) (by decide), hbyte (0 + 3) (by decide)]
  rfl

theorem read16_window (h : 2 ≤ n) : (window args ap n).read16 0 = args.read16 ap := by
  have hbyte : ∀ k, k < 2 → window args ap n k = args (ap + k) := fun k hk => if_pos (by omega)
  simp only [Bytes.read16]
  rw [hbyte 0 (by decide), hbyte (0 + 1) (by decide)]
  rfl

theorem vaArgInt_reads (signed : Bool) (internal : Word) (args : Bytes) (ap : Nat) :
    vaArgInt signed internal args ap =
      ((vaArgInt signed internal (window args ap (vaSize internal)) 0).1, ap + vaSize internal) := by
  unfold vaArgInt vaSize
  split
  · simp only [vaArg32, read32_window (Nat.le_refl 4)]
  · split
    · simp only [vaArg16, read16_window (Nat.le_refl 2)]
    · simp only [vaArg32, read32_window (Nat.le_refl 4)]

/-- The bytes that name a conversion. -/
def conversions : List Byte := cstr "scdiuxXp"

theorem not_mem_conversions {c : Byte} (h : c ∉ conversions) :
    c ≠ chr 's' ∧ c ≠ chr 'c' ∧ c ≠ chr 'd' ∧ c ≠ chr 'i' ∧ c ≠ chr 'u' ∧ c ≠ chr 'x' ∧
      c ≠ chr 'X' ∧ c ≠ chr 'p' := by
  refine ⟨?_, ?_, ?_, ?_, ?_, ?_, ?_, ?_⟩ <;> rintro rfl <;> exact h (by decide)

/-- A conversion depends on the bytes it reads, and moves the cursor over them. -/
theorem convert_reads (c : Byte) (width : Int) (flags internal : Word) (args : Bytes) (ap : Nat) :
    convert c width flags internal args ap =
      ((convert c width flags internal (window args ap (argSize c internal)) 0).1,
        ap + argSize c internal) := by
  -- the two ways in which a conversion takes an argument
  have hword : ∀ g : Word → Piece, (∀ a p, convert c width flags internal a p = (g (a.read32 p), p + 4)) →
      argSize c internal = 4 → convert c width flags internal args ap =
        ((convert c width flags internal (window args ap (argSize c internal)) 0).1,
          ap + argSize c internal) := by
    intro g hrun hsize
    rw [hrun, hrun, hsize, read32_window (Nat.le_refl 4)]
  have hinteger : ∀ (signed : Bool) (g : Word → Piece),
      (∀ a p, convert c width flags internal a p =
        (g (vaArgInt signed internal a p).1, (vaArgInt signed internal a p).2)) →
      argSize c internal = vaSize internal → convert c width flags internal args ap =
        ((convert c width flags internal (window args ap (argSize c internal)) 0).1,
          ap + argSize c internal) := by
    intro signed g hrun hsize
    rw [hrun, hrun, hsize, vaArgInt_reads signed internal args ap]
  by_cases hc : c ∈ conversions
  · have hcases : c = chr 's' ∨ c = chr 'c' ∨ c = chr 'd' ∨ c = chr 'i' ∨ c = chr 'u' ∨ c = chr 'x' ∨
        c = chr 'X' ∨ c = chr 'p' := by
      simpa [conversions, cstr, chr] using hc
    rcases hcases with rfl | rfl | rfl | rfl | rfl | rfl | rfl | rfl
    · exact hword (fun ptr => if ptr = 0#32 then .text (prints (cstr "(null)") width (flags &&& leftJust))
        else .string ptr width (flags &&& leftJust)) (fun _ _ => rfl) rfl
    · exact hword (fun w => .text (prints (if w.truncate 8 = 0#8 then [] else [w.truncate 8]) width
        (flags &&& leftJust))) (fun _ _ => rfl) rfl
    · exact hinteger true (fun w => .text (printi w 10 true width flags (chr 'a'))) (fun _ _ => rfl) rfl
    · exact hinteger true (fun w => .text (printi w 10 true width flags (chr 'a'))) (fun _ _ => rfl) rfl
    · exact hinteger false (fun w => .text (printi w 10 false width flags (chr 'a'))) (fun _ _ => rfl) rfl
    · exact hinteger false (fun w => .text (printi w 16 false width flags (chr 'a'))) (fun _ _ => rfl) rfl
    · exact hinteger false (fun w => .text (printi w 16 false width flags (chr 'A'))) (fun _ _ => rfl) rfl
    · exact hinteger false (fun w => .text (printi w 16 false (pointerWidth internal)
        (dispHexd ||| padwZero) (chr 'A'))) (fun _ _ => rfl) rfl
  · obtain ⟨hs, hch, hd, hi, hu, hx, hX, hp⟩ := not_mem_conversions hc
    have hrun : ∀ a p, convert c width flags internal a p = (.text [c], p) := by
      intro a p
      simp [convert, hs, hch, hd, hi, hu, hx, hX, hp]
    have hsize : argSize c internal = 0 := by
      simp [argSize, isInteger, hs, hch, hd, hi, hu, hx, hX, hp]
    rw [hrun, hrun, hsize]
    rfl

end Convert

/-! ## The reads of a format -/

/-- A read of the argument list: where it starts, and where it leaves the cursor. -/
structure ArgRead where
  start : Nat
  next : Nat
  deriving DecidableEq, Repr

namespace ArgRead

def size (r : ArgRead) : Nat := r.next - r.start

/-- The bytes that are read. -/
def bytes (r : ArgRead) (args : Bytes) : List Byte :=
  (List.range r.size).map fun k => args (r.start + k)

end ArgRead

namespace Directive

/-- The read of a directive at the cursor `ap`: what it moves the cursor over. -/
def read (d : Directive) (args : Bytes) (ap : Nat) : ArgRead where
  start := ap
  next := (d.run args ap).2

theorem read_size (d : Directive) (args : Bytes) (ap : Nat) :
    (d.read args ap).size = argSize d.conv d.resolved.2 := by
  rw [ArgRead.size, read, run, convert_reads]
  exact Nat.add_sub_cancel_left ..

/-- What a directive puts out depends on the bytes of its read alone. -/
theorem run_read (d : Directive) (args : Bytes) (ap : Nat) :
    (d.run args ap).1 = (d.run (window args (d.read args ap).start (d.read args ap).size) 0).1 := by
  rw [read_size, run, convert_reads]
  rfl

end Directive

/-- The reads of the directives that take an argument. -/
def argReads (args : Bytes) : List Item → Nat → List ArgRead
  | [], _ => []
  | .directive d :: items, ap =>
      if d.conv ∈ conversions then d.read args ap :: argReads args items (d.run args ap).2
      else argReads args items (d.run args ap).2
  | item :: items, ap => argReads args items (item.run args ap).2

/-- The pieces of a format, each directive's from the bytes of its read. -/
def readPieces (args : Bytes) : List Item → List ArgRead → List Piece
  | .directive d :: items, r :: rs => (d.run (window args r.start r.size) 0).1 :: readPieces args items rs
  | item :: items, rs => (item.run args 0).1 :: readPieces args items rs
  | [], _ => []

/-- The pieces the parser puts out are those of the reads. -/
theorem runAll_readPieces {items : List Item} (h : ∀ d, Item.directive d ∈ items → d.conv ∈ conversions)
    (args : Bytes) (ap : Nat) : (runAll args items ap).1 = readPieces args items (argReads args items ap) := by
  induction items generalizing ap with
  | nil => rfl
  | cons item items ih =>
      have hrest := ih fun d hd => h d (List.mem_cons_of_mem item hd)
      cases item with
      | byte c => exact congrArg _ (hrest ap)
      | percent => exact congrArg _ (hrest ap)
      | directive d =>
          rw [argReads, if_pos (h d (List.mem_cons_self ..)), readPieces, ← d.run_read, ← hrest]
          rfl

/-! ## The caller's side -/

inductive ArgType where
  | string | char | int | short | long | longLong | pointer
  deriving DecidableEq, Repr

/-- The bytes of a value. A `char` is passed as an `int`, and taken as one. -/
def ArgType.size : ArgType → Nat
  | .short => 2
  | .longLong => 8
  | _ => 4

/-- The bytes a caller passes for it. -/
def ArgType.slot : ArgType → Nat
  | .longLong => 8
  | _ => 4

/-- The type length modifiers name. Modifiers that contradict each other name none. -/
def namedType (length : List Byte) (plain : ArgType) : ArgType :=
  if chr 'h' ∈ length then if chr 'l' ∈ length then plain else .short
  else if 2 ≤ length.count (chr 'l') then .longLong
  else if chr 'l' ∈ length then .long
  else plain

namespace Directive

/-- The type of the argument a directive is for. -/
def argType (d : Directive) : ArgType :=
  if d.conv = chr 's' then .string
  else if d.conv = chr 'c' then .char
  else namedType d.length (if d.conv = chr 'p' then .pointer else .int)

end Directive

/-- The type of the argument an item takes. -/
def Item.argType : Item → Option ArgType
  | .directive d => some d.argType
  | _ => none

/-- An argument as the caller lays it out. -/
structure Arg where
  type : ArgType
  bytes : List Byte
  bytes_length : bytes.length = type.slot

/-- The bytes of the argument itself, without what pads its slot. -/
def Arg.value (a : Arg) : List Byte := a.bytes.take a.type.size

def layoutArgs (args : List Arg) : Bytes := fun k => (args.flatMap Arg.bytes).getD k 0#8

/-- A format whose directives are all conversions of arguments, and arguments that match it. -/
structure FormatCall where
  items : List Item
  ok : ∀ item ∈ items, item.Ok
  convs : ∀ d, Item.directive d ∈ items → d.conv ∈ conversions
  args : List Arg
  args_match : args.map Arg.type = items.filterMap Item.argType

/-- Each read takes the bytes of its own argument and leaves the cursor at the next one. -/
def ReadsOwn (m : Bytes) : List ArgRead → List Arg → Nat → Prop
  | [], [], _ => True
  | r :: rs, a :: as, offset =>
      (r.bytes m = a.value ∧ r.next = offset + a.type.slot) ∧ ReadsOwn m rs as (offset + a.type.slot)
  | _, _, _ => False

/-- `print` makes the piece of each directive from what that directive reads, which is its own argument. -/
structure FormatCall.ReadsOwnArgs (c : FormatCall) : Prop where
  pieces : print (renderAll c.items) (layoutArgs c.args) =
    .ok (readPieces (layoutArgs c.args) c.items (argReads (layoutArgs c.args) c.items 0))
  own : ReadsOwn (layoutArgs c.args) (argReads (layoutArgs c.args) c.items 0) c.args 0

/-- No directive is for a `short` or a `long long`. -/
def FormatCall.WordsOnly (c : FormatCall) : Prop :=
  ∀ d, Item.directive d ∈ c.items → d.argType ≠ .short ∧ d.argType ≠ .longLong

/-! ## Length modifiers -/

section Modifiers

theorem hasFlag_or (f g b : Word) : hasFlag (f ||| g) b = (hasFlag f b || hasFlag g b) := by
  unfold hasFlag
  rw [BitVec.and_or_distrib_right]
  simp only [ne_eq, BitVec.or_eq_zero_iff, not_and_or, Bool.decide_or]

/-- What the bit length stage has noted after some modifiers. -/
theorem scanLength_flags {length : List Byte} (h : ∀ c ∈ length, isLength c = true) (flags : Word)
    (hflags : hasFlag flags dataLlgn = true → hasFlag flags dataLong = true) :
    hasFlag (scanLength length flags).1 dataShrt = (hasFlag flags dataShrt || decide (chr 'h' ∈ length)) ∧
      hasFlag (scanLength length flags).1 dataLong = (hasFlag flags dataLong || decide (chr 'l' ∈ length)) ∧
      (hasFlag (scanLength length flags).1 dataLlgn = true →
        hasFlag (scanLength length flags).1 dataLong = true) := by
  induction length generalizing flags with
  | nil => simpa [scanLength] using hflags
  | cons c length ih =>
      have hrest := fun b hb => h b (List.mem_cons_of_mem c hb)
      have hc : c = chr 'h' ∨ c = chr 'l' := of_decide_eq_true (h c (List.mem_cons_self ..))
      have hlh : chr 'l' ≠ chr 'h' := by decide
      have hhl : chr 'h' ≠ chr 'l' := by decide
      rcases hc with rfl | rfl
      · have hnext := ih hrest (flags ||| dataShrt) (by
          rw [hasFlag_or, hasFlag_or]
          simpa [show hasFlag dataShrt dataLlgn = false from rfl,
            show hasFlag dataShrt dataLong = false from rfl] using hflags)
        rw [hasFlag_or, hasFlag_or] at hnext
        simpa [scanLength, hlh, show hasFlag dataShrt dataShrt = true from rfl,
          show hasFlag dataShrt dataLong = false from rfl] using hnext
      · have hstep : scanLength (chr 'l' :: length) flags =
            scanLength length (flags ||| if hasFlag flags dataLong then dataLlgn else dataLong) := by
          simp [scanLength, hlh]
        rw [hstep]
        cases hlong : hasFlag flags dataLong with
        | true =>
            have hnext := ih hrest (flags ||| dataLlgn) (by simp [hasFlag_or, hlong])
            simpa [hasFlag_or, hlong, hhl, show hasFlag dataLlgn dataShrt = false from rfl] using hnext
        | false =>
            have hnext := ih hrest (flags ||| dataLong) (by
              simp [hasFlag_or, show hasFlag dataLong dataLong = true from rfl])
            simpa [hasFlag_or, hlong, hhl, show hasFlag dataLong dataShrt = false from rfl,
              show hasFlag dataLong dataLong = true from rfl] using hnext

/-- The code reads two bytes for a `short` and four for everything else. -/
theorem vaSize_resolved {d : Directive} (h : ∀ c ∈ d.length, isLength c = true) :
    vaSize d.resolved.2 = if chr 'h' ∈ d.length ∧ chr 'l' ∉ d.length then 2 else 4 := by
  obtain ⟨hshrt, hlong, hllgn⟩ := scanLength_flags h 0#32 (by decide)
  have hzero : ∀ bit, hasFlag 0#32 bit = false := fun bit => by simp [hasFlag]
  rw [hzero, Bool.false_or] at hshrt hlong
  have hresolved : d.resolved.2 =
      if hasFlag (scanLength d.length 0#32).1 dataShrt ∧ (hasFlag (scanLength d.length 0#32).1 dataLong ∨
        hasFlag (scanLength d.length 0#32).1 dataLlgn) then 0#32 else (scanLength d.length 0#32).1 := rfl
  rw [hresolved]
  by_cases hh : chr 'h' ∈ d.length <;> by_cases hl : chr 'l' ∈ d.length
  · rw [if_pos ⟨by simp [hshrt, hh], .inl (by simp [hlong, hl])⟩, if_neg (by simp [hl])]
    decide
  · have hnolong : hasFlag (scanLength d.length 0#32).1 dataLong = false := by simp [hlong, hl]
    have hnollgn : hasFlag (scanLength d.length 0#32).1 dataLlgn = false := by
      by_contra hne
      rw [hllgn (Bool.not_eq_false _ ▸ hne)] at hnolong
      cases hnolong
    have hshort : hasFlag (scanLength d.length 0#32).1 dataShrt = true := by simp [hshrt, hh]
    rw [if_neg (by simp [hnolong, hnollgn]), if_pos ⟨hh, hl⟩]
    simp [vaSize, hnollgn, hshort]
  · have hnoshort : hasFlag (scanLength d.length 0#32).1 dataShrt = false := by simp [hshrt, hh]
    rw [if_neg (by simp [hnoshort]), if_neg (by simp [hh])]
    simp [vaSize, hnoshort]
  · have hnoshort : hasFlag (scanLength d.length 0#32).1 dataShrt = false := by simp [hshrt, hh]
    rw [if_neg (by simp [hnoshort]), if_neg (by simp [hh])]
    simp [vaSize, hnoshort]

/-- What a conversion of an argument reads, by the type of the argument. -/
theorem argSize_eq {d : Directive} (hd : d.Ok) (hc : d.conv ∈ conversions) :
    argSize d.conv d.resolved.2 = if d.argType = .short then 2 else 4 := by
  by_cases hs : d.conv = chr 's'
  · simp [argSize, Directive.argType, hs]
  by_cases hch : d.conv = chr 'c'
  · simp [argSize, Directive.argType, hch, show ¬(chr 'c' = chr 's') by decide]
  have hint : isInteger d.conv = true := by
    have hcases : d.conv = chr 's' ∨ d.conv = chr 'c' ∨ d.conv = chr 'd' ∨ d.conv = chr 'i' ∨
        d.conv = chr 'u' ∨ d.conv = chr 'x' ∨ d.conv = chr 'X' ∨ d.conv = chr 'p' := by
      simpa [conversions, cstr, chr] using hc
    unfold isInteger
    exact decide_eq_true (by tauto)
  have hsize : argSize d.conv d.resolved.2 = vaSize d.resolved.2 := by
    simp [argSize, hs, hch, hint]
  have htype : d.argType = namedType d.length (if d.conv = chr 'p' then .pointer else .int) := by
    simp [Directive.argType, hs, hch]
  have hplain : (if d.conv = chr 'p' then ArgType.pointer else .int) ≠ .short := by
    split <;> decide
  rw [hsize, vaSize_resolved hd.stages.length_mem, htype, namedType]
  by_cases hh : chr 'h' ∈ d.length <;> by_cases hl : chr 'l' ∈ d.length
  · simp [hh, hl, hplain]
  · simp [hh, hl]
  · simp only [hh, hl, false_and, if_false, if_true]
    split <;> rfl
  · simp only [hh, hl, false_and, if_false]
    split <;> rfl

end Modifiers

/-! ## Reading one's own argument -/

section Own

variable {m : Bytes} {args : List Arg} {a : Arg} {offset : Nat}

theorem ArgType.slot_of_ne {t : ArgType} (h : t ≠ .longLong) : t.slot = 4 := by
  cases t <;> first | rfl | exact absurd rfl h

theorem ArgType.size_of_ne {t : ArgType} (h : t ≠ .longLong) (h' : t ≠ .short) : t.size = 4 := by
  cases t <;> first | rfl | exact absurd rfl h | exact absurd rfl h'

/-- The arguments `args` are laid out from `offset` on. -/
def LaidOut (m : Bytes) (args : List Arg) (offset : Nat) : Prop :=
  ∀ k, k < (args.flatMap Arg.bytes).length → m (offset + k) = (args.flatMap Arg.bytes).getD k 0#8

theorem layoutArgs_laidOut (args : List Arg) : LaidOut (layoutArgs args) args 0 := by
  intro k _
  rw [Nat.zero_add]
  rfl

theorem LaidOut.tail (h : LaidOut m (a :: args) offset) : LaidOut m args (offset + a.type.slot) := by
  intro k hk
  have hlen := a.bytes_length
  have hnext := h (a.type.slot + k) (by rw [List.flatMap_cons, List.length_append]; omega)
  rw [← Nat.add_assoc, List.flatMap_cons, List.getD_eq_getElem?_getD,
    List.getElem?_append_right (by omega), hlen, Nat.add_sub_cancel_left] at hnext
  rw [hnext, List.getD_eq_getElem?_getD]

/-- A read of all bytes of the first argument. -/
theorem LaidOut.read (h : LaidOut m (a :: args) offset) (hfull : a.type.size = a.type.slot)
    {r : ArgRead} (hstart : r.start = offset) (hsize : r.size = a.type.size) : r.bytes m = a.value := by
  have hlen := a.bytes_length
  rw [ArgRead.bytes, Arg.value, hsize, hstart, hfull, ← hlen, List.take_length]
  refine List.ext_getElem (by simp) fun k hk hk' => ?_
  rw [List.getElem_map, List.getElem_range, h k (by rw [List.flatMap_cons, List.length_append]; omega),
    List.flatMap_cons, List.getD_eq_getElem?_getD, List.getElem?_append_left hk',
    List.getElem?_eq_getElem hk', Option.getD_some]

/-- A directive for a word reads it. -/
theorem read_own {d : Directive} (hd : d.Ok) (hc : d.conv ∈ conversions) (h : LaidOut m (a :: args) offset)
    (ht : d.argType = a.type) (hshort : d.argType ≠ .short) (hlong : d.argType ≠ .longLong) :
    (d.read m offset).bytes m = a.value ∧ (d.read m offset).next = offset + a.type.slot := by
  have hsize : argSize d.conv d.resolved.2 = 4 := by rw [argSize_eq hd hc, if_neg hshort]
  rw [ht] at hshort hlong
  have hslot := ArgType.slot_of_ne hlong
  have hfull := ArgType.size_of_ne hlong hshort
  refine ⟨h.read (hfull.trans hslot.symm) rfl ((d.read_size m offset).trans (hsize.trans hfull.symm)), ?_⟩
  rw [Directive.read, Directive.run, convert_reads, hsize, hslot]

/-- A directive for a `short` or a `long long` does not, or leaves the cursor elsewhere. -/
theorem not_read_own {d : Directive} (hd : d.Ok) (hc : d.conv ∈ conversions) (ht : d.argType = a.type)
    (hbad : d.argType = .short ∨ d.argType = .longLong) :
    ¬((d.read m offset).bytes m = a.value ∧ (d.read m offset).next = offset + a.type.slot) := by
  rintro ⟨_, hnext⟩
  rw [Directive.read, Directive.run, convert_reads, argSize_eq hd hc] at hnext
  rcases hbad with hbad | hbad <;> rw [← ht, hbad] at hnext <;> simp [ArgType.slot] at hnext

end Own

/-! ## Whole formats -/

theorem readsOwn_iff_of_laidOut {m : Bytes} {items : List Item} {args : List Arg} {offset : Nat}
    (hok : ∀ item ∈ items, item.Ok) (hconvs : ∀ d, Item.directive d ∈ items → d.conv ∈ conversions)
    (hmatch : args.map Arg.type = items.filterMap Item.argType) (hm : LaidOut m args offset) :
    ReadsOwn m (argReads m items offset) args offset ↔
      ∀ d, Item.directive d ∈ items → d.argType ≠ .short ∧ d.argType ≠ .longLong := by
  induction items generalizing args offset with
  | nil =>
      have hnil : args = [] := List.map_eq_nil_iff.mp hmatch
      subst hnil
      simp [argReads, ReadsOwn]
  | cons item items ih =>
      have hok' := fun i hi => hok i (List.mem_cons_of_mem item hi)
      have hconvs' := fun d hd => hconvs d (List.mem_cons_of_mem item hd)
      cases item with
      | byte c =>
          have hrest := ih hok' hconvs' hmatch hm
          simpa [argReads, Item.run] using hrest
      | percent =>
          have hrest := ih hok' hconvs' hmatch hm
          simpa [argReads, Item.run] using hrest
      | directive d =>
          have hd : d.Ok := hok _ (List.mem_cons_self ..)
          have hc := hconvs d (List.mem_cons_self ..)
          cases args with
          | nil => cases hmatch
          | cons a args =>
              obtain ⟨ht, hmatch'⟩ := List.cons.inj hmatch
              have hreads : argReads m (.directive d :: items) offset =
                  d.read m offset :: argReads m items (d.run m offset).2 := by
                rw [argReads, if_pos hc]
              rw [hreads, ReadsOwn]
              constructor
              · rintro ⟨hown, hothers⟩
                have hword : d.argType ≠ .short ∧ d.argType ≠ .longLong := by
                  refine ⟨fun hbad => ?_, fun hbad => ?_⟩
                  · exact not_read_own hd hc ht.symm (.inl hbad) hown
                  · exact not_read_own hd hc ht.symm (.inr hbad) hown
                have hcursor : (d.run m offset).2 = offset + a.type.slot := hown.2
                rw [hcursor] at hothers
                have hrest := (ih hok' hconvs' hmatch' hm.tail).mp hothers
                rintro d' (_ | ⟨_, hd'⟩)
                · exact hword
                · exact hrest d' hd'
              · intro hwords
                have hword := hwords d (List.mem_cons_self ..)
                have hown := read_own hd hc hm ht.symm hword.1 hword.2
                have hcursor : (d.run m offset).2 = offset + a.type.slot := hown.2
                rw [hcursor]
                exact ⟨hown, (ih hok' hconvs' hmatch' hm.tail).mpr fun d' hd' =>
                  hwords d' (List.mem_cons_of_mem _ hd')⟩

/-- Every directive reads its own argument exactly if none is for a `short` or a `long long`. -/
theorem readsOwnArgs_iff (c : FormatCall) : c.ReadsOwnArgs ↔ c.WordsOnly := by
  have hown := readsOwn_iff_of_laidOut c.ok c.convs c.args_match (layoutArgs_laidOut c.args)
  refine ⟨fun h => hown.mp h.own, fun h => ⟨?_, hown.mpr h⟩⟩
  rw [print_renderAll c.ok, runAll_readPieces c.convs]

/-- `%hd%d` with a short and an integer. -/
def shortThenInt : FormatCall where
  items := [.directive { flags := [], width := [], length := cstr "h", conv := chr 'd' },
    .directive { flags := [], width := [], length := [], conv := chr 'd' }]
  ok := by decide
  convs := by simp [conversions, cstr, chr]
  args := [{ type := .short, bytes := [1, 0, 0, 0], bytes_length := rfl },
    { type := .int, bytes := [2, 0, 0, 0], bytes_length := rfl }]
  args_match := by decide

/-- The directive for the short leaves the cursor inside the short's slot. -/
theorem not_readsOwnArgs_short : ¬shortThenInt.ReadsOwnArgs := by
  rintro ⟨_, ⟨_, hnext⟩, _⟩
  revert hnext
  decide

end LizaOS
