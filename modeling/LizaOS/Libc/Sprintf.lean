-- SUMMARY: Formatting to memory against formatting to the screen.
import LizaOS.Libc.FormatOutput
import LizaOS.Libc.StringRun
import Mathlib.Data.List.GetD

/-!
# Formatting to memory

`sprintf` and `vsprintf` of `libc/stdio.c`. `print` and the functions below it put each byte out through
`outchar`, which stores it at `*out` when there is an `out`. The strings of `%s` are taken to be apart
from the buffer.
-/

namespace LizaOS

open Exec

/-! ## Through `out` -/

section Out

variable {μ : Type} [Bus μ]

/-- `outchar`. The pointer behind `out` is handed on. -/
def outchar (out : Option Word) (c : Byte) : K μ (Option Word) :=
  match out with
  | some p => do
      store8 p c
      pure (some (p + 1#32))
  | none => do
      screenPut c
      pure none

/-- The bytes one after the other. -/
def outchars (out : Option Word) : List Byte → K μ (Option Word)
  | [] => pure out
  | c :: cs => do
      let out ← outchar out c
      outchars out cs

/-- `prints`, `printi` or a single `outchar`, with its count. -/
def outPiece (out : Option Word) : Piece → K μ (Option Word × Int)
  | .text bs => do
      let out ← outchars out bs
      pure (out, outCount bs)
  | .string ptr width flags => do
      let string ← readString (2 ^ 32) ptr
      let bs := prints string width flags
      let out ← outchars out bs
      pure (out, outCount bs)

def outPieces (out : Option Word) : List Piece → Int → K μ Int
  | [], cw => pure cw
  | piece :: pieces, cw => do
      let (out, n) ← outPiece out piece
      outPieces out pieces (toInt32 (cw + n))

/-- `print` with its `out`. -/
def printTo (out : Option Word) (fmt : List Byte) (args : Bytes) : K μ Int :=
  match print fmt args with
  | .ok pieces => outPieces out pieces 0
  | .error e => throw e

def sprintf (buf : Word) (fmt : List Byte) (args : Bytes) : K μ Int :=
  if buf = 0#32 then pure 0 else printTo (some buf) fmt args

/-- `vsprintf`, where `args` may be NULL. -/
def vsprintf (buf : Word) (fmt : List Byte) (args : Option Bytes) : K μ Int :=
  match args with
  | none => pure 0
  | some args => if buf = 0#32 then pure 0 else printTo (some buf) fmt args

end Out

section Runs

variable {s : Kernel Flat} {buf : Word} {f : Nat → Byte}

/-- Bytes are stored behind those that are there. -/
theorem outchars_run {text : List Byte} {i : Nat} (hfits : buf.toNat + (i + text.length) < 2 ^ 32)
    (hf : ∀ k, k < text.length → f (i + k) = text.getD k 0#8) :
    outchars (some (buf + BitVec.ofNat 32 i)) text (copied s buf f i) =
      .ok (some (buf + BitVec.ofNat 32 (i + text.length)), copied s buf f (i + text.length)) := by
  induction text generalizing i with
  | nil => rfl
  | cons c text ih =>
      rw [List.length_cons] at hfits hf
      have hfirst : f i = c := hf 0 (Nat.succ_pos _)
      have hstore := store8_copied (s := s) (f := f) (by omega : buf.toNat + i < 2 ^ 32) (within_none _ _)
      rw [hfirst] at hstore
      have hnext : buf + BitVec.ofNat 32 i + 1#32 = buf + BitVec.ofNat 32 (i + 1) := by
        rw [BitVec.add_assoc]
        exact congrArg (buf + ·) (BitVec.ofNat_add i 1).symm
      have hput : outchar (some (buf + BitVec.ofNat 32 i)) c (copied s buf f i) =
          .ok (some (buf + BitVec.ofNat 32 (i + 1)), copied s buf f (i + 1)) := by
        rw [outchar, bind_run hstore, hnext]
        rfl
      have hrest := ih (i := i + 1) (by omega) fun k hk => by
        have hk' := hf (k + 1) (by omega)
        rwa [← Nat.add_assoc, Nat.add_right_comm] at hk'
      have hlen : i + 1 + text.length = i + (c :: text).length := by
        rw [List.length_cons]
        omega
      rw [hlen] at hrest
      rw [outchars, bind_run hput]
      exact hrest

theorem HoldsString.first {m : Flat} {p : Word} {name : List Byte} (h : HoldsString m p name) :
    Bus.load8 m p = .ok (name.getD 0 0#8) := by
  have hfirst := h 0 (Nat.zero_le _)
  have hp : p + BitVec.ofNat 32 0 = p := BitVec.add_zero p
  rw [Flat.bytesAt, hp] at hfirst
  exact congrArg Except.ok hfirst

theorem HoldsString.next {m : Flat} {p : Word} {c : Byte} {name : List Byte}
    (h : HoldsString m p (c :: name)) : HoldsString m (p + 1#32) name := by
  intro i hi
  have hnext := h (i + 1) (Nat.succ_le_succ hi)
  have hp : p + BitVec.ofNat 32 (i + 1) = p + 1#32 + BitVec.ofNat 32 i := by
    rw [Nat.add_comm i 1, BitVec.ofNat_add, BitVec.add_assoc]
  rw [Flat.bytesAt, hp] at hnext
  exact hnext

/-- A string that is held in memory is the one that is read there. -/
theorem stringBytes_holds {m : Flat} {p : Word} {name : List Byte} (h : HoldsString m p name)
    (hname : Nulless name) {fuel : Nat} (hfuel : name.length < fuel) :
    stringBytes (Bus.load8 m) fuel p = .ok name := by
  induction name generalizing p fuel with
  | nil =>
      obtain ⟨fuel, rfl⟩ := Nat.exists_eq_succ_of_ne_zero (Nat.ne_of_gt hfuel)
      rw [stringBytes, h.first]
      rfl
  | cons c name ih =>
      obtain ⟨fuel, rfl⟩ := Nat.exists_eq_succ_of_ne_zero (Nat.ne_of_gt (Nat.zero_lt_of_lt hfuel))
      have hc : c ≠ 0#8 := hname c (List.mem_cons_self ..)
      have hrest := ih h.next (fun b hb => hname b (List.mem_cons_of_mem _ hb)) (Nat.lt_of_succ_lt_succ hfuel)
      rw [stringBytes, h.first]
      show (if c = 0#8 then _ else _) = _
      rw [if_neg hc, hrest]
      rfl

/-! ## Pieces -/

/-- The argument of a `%s` points to a string. -/
def PointsTo (m : Flat) (ptr : Word) (name : List Byte) : Prop :=
  HoldsString m ptr name ∧ Nulless name ∧ ptr.toNat + name.length < 2 ^ 32

/-- The strings of the pieces are there. -/
def StringsAt (m : Flat) (pieces : List Piece) : Prop :=
  ∀ ptr width flags, Piece.string ptr width flags ∈ pieces → ∃ name, PointsTo m ptr name

/-- The strings of the pieces are apart from the `n` bytes at `buf`. -/
def StringsApart (m : Flat) (pieces : List Piece) (buf : Word) (n : Nat) : Prop :=
  ∀ ptr width flags, Piece.string ptr width flags ∈ pieces → ∀ name, PointsTo m ptr name →
    (Extent.ofLen ptr.toNat (name.length + 1)).Disjoint (Extent.ofLen buf.toNat n)

variable {pieces : List Piece} {piece : Piece}

theorem PointsTo.read {m : Flat} {ptr : Word} {name : List Byte} (h : PointsTo m ptr name) :
    stringBytes (Bus.load8 m) (2 ^ 32) ptr = .ok name := by
  obtain ⟨hholds, hname, hfits⟩ := h
  exact stringBytes_holds hholds hname (by omega)

/-- What a piece puts out. -/
theorem StringsAt.piece_output {m : Flat} (h : StringsAt m (piece :: pieces)) :
    ∃ bs, piece.output (Bus.load8 m) = .ok bs := by
  cases piece with
  | text bs => exact ⟨bs, rfl⟩
  | string ptr width flags =>
      obtain ⟨name, hname⟩ := h ptr width flags (List.mem_cons_self ..)
      exact ⟨prints name width flags, by rw [Piece.output, hname.read]; rfl⟩

theorem StringsAt.tail {m : Flat} (h : StringsAt m (piece :: pieces)) : StringsAt m pieces :=
  fun ptr width flags hmem => h ptr width flags (List.mem_cons_of_mem _ hmem)

theorem StringsAt.output {m : Flat} (h : StringsAt m pieces) :
    ∃ bs, outputBytes (Bus.load8 m) pieces = .ok bs := by
  induction pieces with
  | nil => exact ⟨[], rfl⟩
  | cons piece pieces ih =>
      obtain ⟨first, hfirst⟩ := h.piece_output
      obtain ⟨rest, hrest⟩ := ih h.tail
      refine ⟨first ++ rest, ?_⟩
      rw [show piece :: pieces = [piece] ++ pieces from rfl, outputBytes_append, outputBytes_singleton, hfirst, hrest]
      rfl

/-- A string apart from the buffer is there while the buffer is filled. -/
theorem PointsTo.kept {ptr : Word} {name : List Byte} {i n : Nat} (h : PointsTo s.mem ptr name)
    (hapart : (Extent.ofLen ptr.toNat (name.length + 1)).Disjoint (Extent.ofLen buf.toNat n)) (hi : i ≤ n) :
    PointsTo (copied s buf f i).mem ptr name := by
  obtain ⟨hholds, hname, hfits⟩ := h
  refine ⟨fun k hk => ?_, hname, hfits⟩
  rw [← hholds k hk, Flat.bytesAt_eq (by omega), Flat.bytesAt_eq (by omega)]
  simp only [Extent.Disjoint, Extent.ofLen] at hapart
  exact Bytes.fill_outside (by omega)

/-- A piece is stored behind what is there. -/
theorem outPiece_run {bs : List Byte} {i n : Nat} (hstrings : StringsAt s.mem (piece :: pieces))
    (hapart : StringsApart s.mem (piece :: pieces) buf n) (hbs : piece.output (Bus.load8 s.mem) = .ok bs)
    (hfits : buf.toNat + (i + bs.length) < 2 ^ 32) (hi : i ≤ n)
    (hf : ∀ k, k < bs.length → f (i + k) = bs.getD k 0#8) :
    outPiece (some (buf + BitVec.ofNat 32 i)) piece (copied s buf f i) =
      .ok ((some (buf + BitVec.ofNat 32 (i + bs.length)), outCount bs), copied s buf f (i + bs.length)) := by
  have hput := outchars_run (s := s) hfits hf
  cases piece with
  | text text =>
      cases hbs
      rw [outPiece, bind_run hput]
      rfl
  | string ptr width flags =>
      obtain ⟨name, hname⟩ := hstrings ptr width flags (List.mem_cons_self ..)
      have hprints : bs = prints name width flags := by
        rw [Piece.output, hname.read] at hbs
        exact (Except.ok.inj hbs).symm
      have hthere := hname.kept (f := f) (hapart ptr width flags (List.mem_cons_self ..) name hname) hi
      have hread : readString (2 ^ 32) ptr (copied s buf f i) = .ok (name, copied s buf f i) := by
        rw [readString_run, hthere.read]
        rfl
      rw [outPiece, bind_run hread, ← hprints]
      exact (bind_run hput).trans rfl

/-- All pieces are stored one behind the other. -/
theorem outPieces_run {bs : List Byte} {i n : Nat} {cw : Int} (hstrings : StringsAt s.mem pieces)
    (hapart : StringsApart s.mem pieces buf n) (hbs : outputBytes (Bus.load8 s.mem) pieces = .ok bs)
    (hfits : buf.toNat + (i + bs.length) < 2 ^ 32) (hi : i + bs.length ≤ n)
    (hf : ∀ k, k < bs.length → f (i + k) = bs.getD k 0#8) :
    outPieces (some (buf + BitVec.ofNat 32 i)) pieces (toInt32 cw) (copied s buf f i) =
      .ok (toInt32 (cw + bs.length), copied s buf f (i + bs.length)) := by
  induction pieces generalizing i cw bs with
  | nil =>
      cases hbs
      simp [outPieces]
  | cons piece pieces ih =>
      obtain ⟨first, hfirst⟩ := hstrings.piece_output
      obtain ⟨rest, hrest⟩ := hstrings.tail.output
      have hsplit : bs = first ++ rest := by
        rw [show piece :: pieces = [piece] ++ pieces from rfl, outputBytes_append, outputBytes_singleton, hfirst,
          hrest] at hbs
        exact (Except.ok.inj hbs).symm
      subst hsplit
      rw [List.length_append] at hfits hi hf ⊢
      have hput := outPiece_run (f := f) (i := i) hstrings hapart hfirst (by omega) (by omega) fun k hk => by
        rw [hf k (by omega), List.getD_append _ _ _ _ hk]
      have hothers : outPieces (some (buf + BitVec.ofNat 32 (i + first.length))) pieces
          (toInt32 (cw + first.length)) (copied s buf f (i + first.length)) =
            .ok (toInt32 (cw + first.length + rest.length), copied s buf f (i + first.length + rest.length)) :=
        ih hstrings.tail
        (fun ptr width flags hmem => hapart ptr width flags (List.mem_cons_of_mem _ hmem)) hrest (by omega)
        (by omega) fun k hk => by
          rw [Nat.add_assoc, hf (first.length + k) (by omega), List.getD_append_right _ _ _ _ (Nat.le_add_right _ _),
            Nat.add_sub_cancel_left]
      have hcount : toInt32 (toInt32 cw + outCount first) = toInt32 (cw + first.length) := by
        rw [outCount_eq, toInt32_add, toInt32_add_right]
      have hlen : i + first.length + rest.length = i + (first.length + rest.length) := Nat.add_assoc _ _ _
      have hsum : cw + first.length + rest.length = cw + (first.length + rest.length : Nat) := by
        omega
      rw [hlen, hsum] at hothers
      rw [outPieces, bind_run hput, ← hothers, ← hcount]

/-! ## The buffer -/

/-- The buffer holds the bytes and a NUL, nothing else has changed, and their number is returned. -/
structure Formatted (s s' : Kernel Flat) (buf : Word) (bs : List Byte) (v : Int) : Prop where
  string : HoldsString s'.mem buf bs
  frame : ∀ x, x < buf.toNat ∨ buf.toNat + bs.length < x → s'.mem.ram x = s.mem.ram x
  others : ∃ ram, s' = { s with mem := { s.mem with ram := ram } }
  count : v = bs.length

/-- There is a buffer with room for the bytes and a NUL, apart from the strings. -/
structure BufferRoom (m : Flat) (pieces : List Piece) (buf : Word) (n : Nat) : Prop where
  buffer : buf ≠ 0#32
  fits : buf.toNat + n < 2 ^ 32
  apart : StringsApart m pieces buf (n + 1)

/-- `sprintf` stores the bytes, and no NUL. -/
theorem sprintf_run {fmt bs : List Byte} {args : Bytes} (hprint : print fmt args = .ok pieces)
    (hstrings : StringsAt s.mem pieces) (hbs : outputBytes (Bus.load8 s.mem) pieces = .ok bs)
    (hroom : BufferRoom s.mem pieces buf bs.length) :
    sprintf buf fmt args s =
      .ok (toInt32 bs.length, copied s buf (fun k => bs.getD k 0#8) bs.length) := by
  obtain ⟨hbuf, hfits, hapart⟩ := hroom
  have hrun : outPieces (some (buf + BitVec.ofNat 32 0)) pieces (toInt32 0) (copied s buf (fun k => bs.getD k 0#8) 0) =
      .ok (toInt32 (0 + bs.length), copied s buf (fun k => bs.getD k 0#8) (0 + bs.length)) :=
    outPieces_run hstrings hapart hbs (by omega) (by omega) fun k _ => by rw [Nat.zero_add]
  have hstart : copied s buf (fun k => bs.getD k 0#8) 0 = s := by simp [copied]
  have hzero : buf + BitVec.ofNat 32 0 = buf := BitVec.add_zero buf
  have hcount : toInt32 0 = 0 := by decide
  rw [hstart, hzero, hcount, Nat.zero_add, Int.zero_add] at hrun
  rw [sprintf, if_neg hbuf, printTo, hprint]
  exact hrun

theorem toInt32_eq_self {n : Nat} (h : n < 2 ^ 32) : toInt32 n = n ↔ n < 2 ^ 31 := by
  unfold toInt32
  rw [Int.bmod_def]
  split <;> omega

theorem formatted_iff {bs : List Byte} (hfits : buf.toNat + bs.length < 2 ^ 32) :
    Formatted s (copied s buf (fun k => bs.getD k 0#8) bs.length) buf bs (toInt32 bs.length) ↔
      s.mem.bytesAt buf bs.length = 0#8 ∧ bs.length < 2 ^ 31 := by
  have hlen : bs.length < 2 ^ 32 := by omega
  -- the byte behind those stored is left alone
  have hbehind : (copied s buf (fun k => bs.getD k 0#8) bs.length).mem.bytesAt buf bs.length =
      s.mem.bytesAt buf bs.length := by
    rw [Flat.bytesAt_eq hfits, Flat.bytesAt_eq hfits, copied_ram, Bytes.fill_outside (.inr (Nat.le_refl _))]
  constructor
  · rintro ⟨hstring, _, _, hcount⟩
    refine ⟨?_, (toInt32_eq_self hlen).mp hcount⟩
    rw [← hbehind, hstring _ (Nat.le_refl _), getD_length]
  · rintro ⟨hnul, hcount⟩
    refine ⟨fun i hi => ?_, fun x hx => ?_, ⟨_, rfl⟩, (toInt32_eq_self hlen).mpr hcount⟩
    · rcases Nat.lt_or_eq_of_le hi with hlt | rfl
      · rw [Flat.bytesAt_eq (by omega), copied_ram, Bytes.fill_inside hlt]
      · rw [hbehind, hnul, getD_length]
    · rw [copied_ram, Bytes.fill_outside (by omega)]

/-- The bytes `k_printf` passes to the screen are those `sprintf` and `vsprintf` store. They are a string
in the buffer, and counted, exactly where there was a NUL behind them before and they are fewer than
an `int` can count. -/
theorem sprintf_formats_iff {fmt : List Byte} {args : Bytes} (hfmt : Nulless fmt)
    (hcomplete : ¬EndsInDirective fmt)
    (hstrings : ∀ pieces, print fmt args = .ok pieces → StringsAt s.mem pieces) :
    ∃ pieces bs cw, print fmt args = .ok pieces ∧ printed (Bus.load8 s.mem) fmt args = .ok (bs, cw) ∧
      kPrintf fmt args s = bs.forM screenPut s ∧
      ∀ buf, BufferRoom s.mem pieces buf bs.length →
        vsprintf buf fmt (some args) s = sprintf buf fmt args s ∧
        (Returns (sprintf buf fmt args) s (fun v s' => Formatted s s' buf bs v) ↔
          s.mem.bytesAt buf bs.length = 0#8 ∧ bs.length < 2 ^ 31) := by
  obtain ⟨pieces, hprint⟩ := print_complete hfmt hcomplete args
  obtain ⟨bs, hbs⟩ := (hstrings pieces hprint).output
  have hprinted : printed (Bus.load8 s.mem) fmt args = .ok (bs, toInt32 bs.length) := by
    have houtputs := outputs_eq (Bus.load8 s.mem) pieces 0
    have hzero : toInt32 0 = 0 := by decide
    rw [hbs, hzero, Except.map, Int.zero_add] at houtputs
    rw [printed, hprint]
    exact houtputs
  refine ⟨pieces, bs, _, hprint, hprinted, kPrintf_output hprinted, fun buf hroom => ⟨rfl, ?_⟩⟩
  have hrun := sprintf_run hprint (hstrings pieces hprint) hbs hroom
  rw [← formatted_iff hroom.fits]
  constructor
  · rintro ⟨v, s', hreturns, hformatted⟩
    rw [hrun] at hreturns
    obtain ⟨rfl, rfl⟩ := Prod.mk.inj (Except.ok.inj hreturns)
    exact hformatted
  · exact fun hformatted => .of_eq hrun hformatted

end Runs

/-! ## A number -/

theorem five_pieces : print (cstr "%d") (slots [5#32]) = .ok [.text [chr '5']] := rfl

theorem five_strings {m : Flat} {pieces : List Piece} (h : print (cstr "%d") (slots [5#32]) = .ok pieces) :
    StringsAt m pieces ∧ ∀ buf n, StringsApart m pieces buf n := by
  rw [five_pieces] at h
  obtain rfl := Except.ok.inj h
  have hnone : ∀ ptr width flags, Piece.string ptr width flags ∉ [Piece.text [chr '5']] := by
    intro ptr width flags hmem
    cases List.mem_singleton.mp hmem
  exact ⟨fun ptr width flags hmem => absurd hmem (hnone ptr width flags),
    fun _ _ ptr width flags hmem => absurd hmem (hnone ptr width flags)⟩

theorem sprintf_formats_iff_five : Returns (sprintf 0x1000#32 (cstr "%d") (slots [5#32]))
    (Kernel.reset Flat.zero) fun v s' => Formatted (.reset .zero) s' 0x1000#32 [chr '5'] v := by
  have hends : ¬EndsInDirective (cstr "%d") := by
    rintro ⟨items, tail, hitems, htail, heq⟩
    have hfive := five_pieces
    rw [heq, print_cutOff hitems htail] at hfive
    cases hfive
  have hstrings : ∀ pieces, print (cstr "%d") (slots [5#32]) = .ok pieces →
      StringsAt (Kernel.reset Flat.zero).mem pieces := fun _ h => (five_strings h).1
  obtain ⟨pieces, bs, cw, hprint, hprinted, _, hbuf⟩ := sprintf_formats_iff (by decide) hends hstrings
  have hfive : printed (Bus.load8 (Kernel.reset Flat.zero).mem) (cstr "%d") (slots [5#32]) = .ok ([chr '5'], 1) := rfl
  rw [hfive] at hprinted
  obtain ⟨rfl, rfl⟩ := Prod.mk.inj (Except.ok.inj hprinted)
  exact (hbuf 0x1000#32 ⟨by decide, by decide, (five_strings hprint).2 _ _⟩).2.mpr ⟨rfl, by decide⟩

/-- In a buffer full of letters the number is not ended. -/
theorem not_sprintf_formats_letters : ¬Returns (sprintf 0x1000#32 (cstr "%d") (slots [5#32]))
    (Kernel.reset { Flat.zero with ram := fun _ => 0x78#8 }) fun v s' =>
      Formatted (.reset { Flat.zero with ram := fun _ => 0x78#8 }) s' 0x1000#32 [chr '5'] v := by
  have hfits : (0x1000#32).toNat + [chr '5'].length < 2 ^ 32 := by decide
  have hstrings := five_strings (m := { Flat.zero with ram := fun _ => 0x78#8 }) five_pieces
  have hroom : BufferRoom (Kernel.reset { Flat.zero with ram := fun _ => 0x78#8 }).mem [.text [chr '5']] 0x1000#32
      [chr '5'].length := ⟨by decide, hfits, hstrings.2 _ _⟩
  have hrun := sprintf_run five_pieces hstrings.1 rfl hroom
  rintro ⟨v, s', hreturns, hformatted⟩
  rw [hrun] at hreturns
  obtain ⟨rfl, rfl⟩ := Prod.mk.inj (Except.ok.inj hreturns)
  have hnul := ((formatted_iff hfits).mp hformatted).1
  have hletter : (Kernel.reset { Flat.zero with ram := fun _ => 0x78#8 }).mem.bytesAt 0x1000#32 1 = 0x78#8 := rfl
  exact absurd (hletter.symm.trans hnul) (by decide)

end LizaOS
