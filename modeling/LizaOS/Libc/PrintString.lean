-- SUMMARY: What a format with a lone `%s` behind its text prints, and which bytes the scan for the string's end reads.
import LizaOS.Libc.FormatOutput

/-!
# Printing a string

`prints` scans its string for the NUL before it puts anything out. The scan reads the bytes of the string
and the NUL behind them and no others, so it stays within an object exactly if it still comes to its end
when nothing outside the object can be read.
-/

namespace LizaOS

open Exec

/-! ## The scan -/

/-- `load` on the bytes of `e`; no other byte can be read. -/
def loadWithin (e : Extent) (load : Word → Except Stop Byte) (a : Word) : Except Stop Byte :=
  if e.lo ≤ a.toNat ∧ a.toNat < e.hi then load a else .error .pageFault

section Scan

variable {load : Word → Except Stop Byte} {e : Extent} {fuel i : Nat} {p : Word} {bs : List Byte} {b : Byte}

theorem loadWithin_ok : loadWithin e load p = .ok b ↔ p.toNat ∈ e ∧ load p = .ok b := by
  rw [Extent.mem_iff, loadWithin]
  split
  · exact (and_iff_right ‹_›).symm
  · exact ⟨nofun, fun h => absurd h.1 ‹_›⟩

/-- A byte read behind the first one. -/
theorem next_address (p : Word) (i : Nat) : p + BitVec.ofNat 32 (i + 1) = p + 1#32 + BitVec.ofNat 32 i := by
  rw [Nat.add_comm i 1, BitVec.ofNat_add, BitVec.add_assoc]

/-- One step of the scan. -/
theorem stringBytes_succ : stringBytes load (fuel + 1) p = .ok bs ↔ ∃ c, load p = .ok c ∧
    ((c = 0#8 ∧ bs = []) ∨ (c ≠ 0#8 ∧ ∃ rest, stringBytes load fuel (p + 1#32) = .ok rest ∧ bs = c :: rest)) := by
  rw [stringBytes]
  cases load p with
  | error e =>
      constructor
      · intro h
        cases h
      · rintro ⟨c, hc, _⟩
        cases hc
  | ok c =>
      show (if c = 0#8 then _ else _) = _ ↔ _
      by_cases hc : c = 0#8
      · rw [if_pos hc]
        constructor
        · intro h
          exact ⟨c, rfl, .inl ⟨hc, (Except.ok.inj h).symm⟩⟩
        · rintro ⟨d, hd, ⟨_, rfl⟩ | ⟨hne, _⟩⟩
          · rfl
          · exact absurd ((Except.ok.inj hd).symm.trans hc) hne
      · rw [if_neg hc]
        constructor
        · intro h
          cases hrest : stringBytes load fuel (p + 1#32) with
          | error e =>
              rw [hrest] at h
              cases h
          | ok rest =>
              rw [hrest] at h
              exact ⟨c, rfl, .inr ⟨hc, rest, rfl, (Except.ok.inj h).symm⟩⟩
        · rintro ⟨d, hd, ⟨hz, _⟩ | ⟨_, rest, hrest, rfl⟩⟩
          · exact absurd ((Except.ok.inj hd).trans hz) hc
          · rw [hrest, ← Except.ok.inj hd]
            rfl

/-- The scan comes to its end with exactly the strings that are there: bytes other than NUL, and a NUL. -/
theorem stringBytes_ok : stringBytes load fuel p = .ok bs ↔
    bs.length < fuel ∧ Nulless bs ∧
      ∀ i, i ≤ bs.length → load (p + BitVec.ofNat 32 i) = .ok (bs.getD i 0#8) := by
  have hp : ∀ p : Word, p + BitVec.ofNat 32 0 = p := BitVec.add_zero
  induction fuel generalizing p bs with
  | zero => exact ⟨nofun, fun h => absurd h.1 (Nat.not_lt_zero _)⟩
  | succ fuel ih =>
      rw [stringBytes_succ]
      constructor
      · rintro ⟨c, hload, ⟨rfl, rfl⟩ | ⟨hc, rest, hrest, rfl⟩⟩
        · refine ⟨Nat.succ_pos _, fun b hb => absurd hb List.not_mem_nil, fun i hi => ?_⟩
          obtain rfl := Nat.le_zero.mp hi
          rw [hp]
          exact hload
        · obtain ⟨hlen, hnul, hbytes⟩ := ih.mp hrest
          refine ⟨Nat.succ_lt_succ hlen, fun b hb => ?_, fun i hi => ?_⟩
          · rcases List.mem_cons.mp hb with rfl | hb
            · exact hc
            · exact hnul b hb
          · cases i with
            | zero =>
                rw [hp]
                exact hload
            | succ i =>
                rw [next_address]
                exact hbytes i (Nat.le_of_succ_le_succ hi)
      · rintro ⟨hlen, hbs, h⟩
        have hfirst := h 0 (Nat.zero_le _)
        rw [hp] at hfirst
        cases bs with
        | nil => exact ⟨_, hfirst, .inl ⟨rfl, rfl⟩⟩
        | cons b bs =>
            refine ⟨b, hfirst, .inr ⟨hbs b (List.mem_cons_self ..), bs, ?_, rfl⟩⟩
            refine ih.mpr ⟨Nat.lt_of_succ_lt_succ hlen, fun b hb => hbs b (List.mem_cons_of_mem _ hb), ?_⟩
            intro i hi
            rw [← next_address]
            exact h (i + 1) (Nat.succ_le_succ hi)

/-- The scan stays within `e` exactly if the string and its NUL lie there. -/
theorem stringBytes_within : stringBytes (loadWithin e load) fuel p = .ok bs ↔
    stringBytes load fuel p = .ok bs ∧ ∀ i, i ≤ bs.length → (p + BitVec.ofNat 32 i).toNat ∈ e := by
  rw [stringBytes_ok, stringBytes_ok]
  constructor
  · rintro ⟨hlen, hbs, h⟩
    exact ⟨⟨hlen, hbs, fun i hi => (loadWithin_ok.mp (h i hi)).2⟩, fun i hi => (loadWithin_ok.mp (h i hi)).1⟩
  · rintro ⟨⟨hlen, hbs, h⟩, hin⟩
    exact ⟨hlen, hbs, fun i hi => loadWithin_ok.mpr ⟨hin i hi, h i hi⟩⟩

end Scan

/-! ## The format -/

/-- The items of a text with `%s` behind it. -/
def stringItems (lead : List Byte) : List Item :=
  lead.map .byte ++ [.directive { flags := [], width := [], length := [], conv := chr 's' }]

section Format

variable {load : Word → Except Stop Byte} {lead bs : List Byte} {p : Word}

theorem stringItems_ok (hlead : ∀ c ∈ lead, c ≠ 0#8 ∧ c ≠ chr '%') : ∀ item ∈ stringItems lead, item.Ok := by
  intro item hitem
  rcases List.mem_append.mp hitem with hitem | hitem
  · obtain ⟨c, hc, rfl⟩ := List.mem_map.mp hitem
    exact hlead c hc
  · rw [List.mem_singleton.mp hitem]
    decide

/-- Text reads no argument, so the string is the first. -/
theorem runAll_stringItems (hp : p ≠ 0#32) :
    (runAll (slots [p]) (stringItems lead) 0).1 = lead.map (fun c => .text [c]) ++ [.string p 0 0#32] := by
  induction lead with
  | nil =>
      have hread : (slots [p]).read32 0 = p := slots_read32 [p] 0
      show [(convert (chr 's') 0 0#32 0#32 (slots [p]) 0).1] = _
      simp only [convert, if_true, vaArg32, hread, if_neg hp]
      rfl
  | cons c lead ih => exact congrArg (Piece.text [c] :: ·) ih

/-- A string without a width is put out as it is. -/
theorem prints_plain (bs : List Byte) : prints bs 0 0#32 = bs := by
  have hlen : (bs.length : Int) ≥ 0 := Int.natCast_nonneg _
  simp [prints, hlen, hasFlag]

theorem outputBytes_text (lead : List Byte) : outputBytes load (lead.map fun c => .text [c]) = .ok lead := by
  induction lead with
  | nil => rfl
  | cons c lead ih =>
      rw [List.map_cons, ← List.singleton_append, outputBytes_append, outputBytes_singleton, ih]
      rfl

/-- What is printed is the text and the string behind it. -/
theorem printed_string (load : Word → Except Stop Byte) (lead : List Byte)
    (hlead : ∀ c ∈ lead, c ≠ 0#8 ∧ c ≠ chr '%') (hp : p ≠ 0#32) :
    printed load (renderAll (stringItems lead)) (slots [p]) =
      (stringBytes load (2 ^ 32) p).map fun bs => (lead ++ bs, toInt32 (lead ++ bs).length) := by
  have houtputs := outputs_eq load (runAll (slots [p]) (stringItems lead) 0).1 0
  have hzero : toInt32 0 = 0 := by decide
  rw [hzero, runAll_stringItems hp, outputBytes_append, outputBytes_text, outputBytes_singleton,
    Piece.output] at houtputs
  rw [printed, print_renderAll (stringItems_ok hlead), runAll_stringItems hp]
  refine houtputs.trans ?_
  cases stringBytes load (2 ^ 32) p with
  | error e => rfl
  | ok bs =>
      show Except.ok (lead ++ prints bs 0 0#32, toInt32 (0 + (lead ++ prints bs 0 0#32).length)) = _
      rw [prints_plain, Int.zero_add]
      rfl

/-- What `%c` makes of a word. -/
def charText (w : Word) : List Byte := if w.truncate 8 = 0#8 then [] else [w.truncate 8]

theorem char_printed (load : Word → Except Stop Byte) (w : Word) :
    ∃ cw, printed load (cstr "%c") (slots [w]) = .ok (charText w, cw) := by
  have hslot : (slots [w]).read32 0 = w := slots_read32 [w] 0
  have hprints : prints (if w.truncate 8 = 0#8 then [] else [w.truncate 8]) 0 (0#32 &&& leftJust) = charText w :=
    prints_plain _
  have hformat : print (cstr "%c") (slots [w]) =
      .ok [.text (prints (if ((slots [w]).read32 0).truncate 8 = 0#8 then [] else [((slots [w]).read32 0).truncate 8])
        0 (0#32 &&& leftJust))] := rfl
  have houtput : outputBytes load [.text (charText w)] = .ok (charText w) := outputBytes_singleton _
  have hcount := outputs_eq load [.text (charText w)] 0
  rw [houtput] at hcount
  rw [hslot, hprints] at hformat
  rw [printed, hformat]
  exact ⟨_, hcount⟩

end Format

/-! ## On the screen -/

section Screen

variable {s : Kernel Flat} {lead bs : List Byte} {p : Word}

/-- A line that is printed goes to the screen. -/
theorem kPrintfln_output {fmt : List Byte} {args : Bytes} {cw : Int}
    (h : printed (Bus.load8 s.mem) fmt args = .ok (bs, cw)) :
    kPrintfln fmt args s = (bs ++ [newline]).forM screenPut s := by
  rw [kPrintfln, bind_apply, kPrintf_output h]
  simp only [List.forM_eq_forM, List.forM_append, List.forM_cons, List.forM_nil, bind_pure_unit]
  rfl

instance : IsPreorder (Kernel Flat) ConsoleOnly where
  refl := ConsoleOnly.refl
  trans _ _ _ := ConsoleOnly.trans

/-- Whatever is printed, nothing but the screen changes. -/
theorem kPrintf_respects (fmt : List Byte) (args : Bytes) :
    Respects ConsoleOnly (kPrintf fmt args : K Flat Unit) := by
  have hput : ∀ c, Respects ConsoleOnly (screenPut c : K Flat Unit) :=
    fun c s => (screenPut_console c).whenReturns
  have hread : ∀ p, Respects ConsoleOnly (readString (2 ^ 32) p : K Flat _) := by
    intro p s bs s' hrun
    rw [readString_run] at hrun
    cases hscan : stringBytes (Bus.load8 s.mem) (2 ^ 32) p with
    | error e =>
        rw [hscan] at hrun
        cases hrun
    | ok bs =>
        rw [hscan] at hrun
        cases hrun
        exact .refl s
  unfold kPrintf
  cases print fmt args with
  | error e => exact .throw e
  | ok pieces =>
      refine .forM fun piece => ?_
      cases piece with
      | text bs => exact .forM hput
      | string ptr width flags => exact (hread ptr).bind fun _ => .forM hput

theorem kPrintfln_respects (fmt : List Byte) (args : Bytes) :
    Respects ConsoleOnly (kPrintfln fmt args : K Flat Unit) :=
  (kPrintf_respects fmt args).bind fun _ _ => (screenPut_console newline).whenReturns

end Screen

end LizaOS
