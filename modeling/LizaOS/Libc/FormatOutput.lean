-- SUMMARY: The bytes and the count that formatted output gives, and that both are put together from the parts of a format.
import LizaOS.Libc.FormatArgs
import LizaOS.Libc.StdioRun

/-!
# The output of a format

What `print` puts out is a list of bytes, read off its pieces and the strings they point to, and a
count, which each function starts at 0 and raises by one for each byte. A format is complete if it is
a sequence of items whose directives take one slot of four bytes or none; its output is then the
outputs of its items, each run on its own slots.
-/

namespace LizaOS

open Exec

/-! ## Output -/

/-- The bytes of the string at `p`, at most `fuel` of them, read through `load`. -/
def stringBytes (load : Word → Except Stop Byte) : Nat → Word → Except Stop (List Byte)
  | 0, _ => .error .spin
  | fuel + 1, p => do
      let c ← load p
      if c = 0#8 then pure [] else return c :: (← stringBytes load fuel (p + 1#32))

/-- The bytes a piece stands for. -/
def Piece.output (load : Word → Except Stop Byte) : Piece → Except Stop (List Byte)
  | .text bs => .ok bs
  | .string ptr width flags => do return prints (← stringBytes load (2 ^ 32) ptr) width flags

/-- The count of a function that has put out the bytes `bs`. -/
def outCount (bs : List Byte) : Int := bs.foldl (fun cw _ => toInt32 (cw + 1)) 0

/-- The bytes of the pieces, and the count of `print`, which stands at `cw` before them. -/
def outputs (load : Word → Except Stop Byte) : List Piece → Int → Except Stop (List Byte × Int)
  | [], cw => .ok ([], cw)
  | piece :: pieces, cw => do
      let bs ← piece.output load
      let others ← outputs load pieces (toInt32 (cw + outCount bs))
      return (bs ++ others.1, others.2)

/-- The bytes `print` puts out, and the count it returns. -/
def printed (load : Word → Except Stop Byte) (fmt : List Byte) (args : Bytes) :
    Except Stop (List Byte × Int) := do
  let pieces ← print fmt args
  outputs load pieces 0

/-! ## Counts -/

theorem toInt32_add (x y : Int) : toInt32 (toInt32 x + y) = toInt32 (x + y) := by
  unfold toInt32
  exact Int.bmod_add_bmod

theorem toInt32_add_right (x y : Int) : toInt32 (x + toInt32 y) = toInt32 (x + y) := by
  rw [Int.add_comm, toInt32_add, Int.add_comm]

theorem outCount_eq (bs : List Byte) : outCount bs = toInt32 bs.length := by
  have hcount : ∀ cw, bs.foldl (fun cw _ => toInt32 (cw + 1)) (toInt32 cw) = toInt32 (cw + bs.length) := by
    induction bs with
    | nil => simp
    | cons b bs ih =>
        intro cw
        rw [List.foldl_cons, toInt32_add, ih]
        congr 1
        rw [List.length_cons]
        omega
  simpa [outCount, toInt32] using hcount 0

section Outputs

variable {load : Word → Except Stop Byte} {pieces pieces' : List Piece}

/-- The bytes of the pieces. -/
def outputBytes (load : Word → Except Stop Byte) (pieces : List Piece) : Except Stop (List Byte) := do
  return (← pieces.mapM (Piece.output load)).flatten

/-- The count goes up by the number of bytes put out. -/
theorem outputs_eq (load : Word → Except Stop Byte) (pieces : List Piece) (cw : Int) :
    outputs load pieces (toInt32 cw) =
      (outputBytes load pieces).map fun bs => (bs, toInt32 (cw + bs.length)) := by
  induction pieces generalizing cw with
  | nil => simp [outputs, outputBytes, Except.map, pure, Except.pure, bind, Except.bind]
  | cons piece pieces ih =>
      simp only [outputs, outputBytes, List.mapM_cons]
      cases piece.output load with
      | error e => rfl
      | ok bs =>
          have hrest := ih (cw + bs.length)
          simp only [outCount_eq, toInt32_add, toInt32_add_right, bind, Except.bind, hrest, outputBytes]
          cases pieces.mapM (Piece.output load) with
          | error e => rfl
          | ok outs =>
              simp [Except.map, pure, Except.pure]
              congr 1
              omega

theorem outputBytes_append : outputBytes load (pieces ++ pieces') = do
    let bs ← outputBytes load pieces
    let bs' ← outputBytes load pieces'
    return bs ++ bs' := by
  simp only [outputBytes, List.mapM_append, bind_assoc, pure_bind, List.flatten_append]

theorem outputBytes_singleton (piece : Piece) : outputBytes load [piece] = piece.output load := by
  simp only [outputBytes, List.mapM_cons, List.mapM_nil, bind_assoc, pure_bind, List.flatten_cons,
    List.flatten_nil, List.append_nil, bind_pure]

theorem outputBytes_cons (piece : Piece) (pieces : List Piece) : outputBytes load (piece :: pieces) = do
    let bs ← piece.output load
    let bs' ← outputBytes load pieces
    return bs ++ bs' := by
  rw [← List.singleton_append, outputBytes_append, outputBytes_singleton]

end Outputs

/-! ## Formats that read no string -/

section Silent

variable {μ : Type} [Bus μ] {e : Stop} {pieces : List Piece} {bs : List Byte}

theorem stringBytes_error (e : Stop) (n : Nat) (p : Word) : stringBytes (fun _ => .error e) (n + 1) p = .error e := rfl

/-- What can be put out without a load is text. -/
theorem putPieces_silent (h : outputBytes (fun _ => .error e) pieces = .ok bs) :
    (pieces.forM putPiece : K μ Unit) = bs.forM screenPut := by
  induction pieces generalizing bs with
  | nil =>
      cases h
      rfl
  | cons piece pieces ih =>
      rw [outputBytes_cons] at h
      cases piece with
      | string ptr width flags =>
          have hfuel : (2 ^ 32 : Nat) = 4294967295 + 1 := rfl
          rw [Piece.output, hfuel, stringBytes_error] at h
          cases h
      | text text =>
          obtain ⟨_, htext, h⟩ := except_bind_ok.mp h
          obtain ⟨rest, hrest, hbs⟩ := except_bind_ok.mp h
          cases htext
          cases hbs
          have htail := ih hrest
          simp only [List.forM_eq_forM] at htail ⊢
          rw [List.forM_cons, List.forM_append, htail]
          rfl

/-- A format that is printed without a load puts out these bytes on every machine. -/
theorem kPrintf_silent {fmt : List Byte} {args : Bytes} {cw : Int}
    (h : printed (fun _ => .error e) fmt args = .ok (bs, cw)) : (kPrintf fmt args : K μ Unit) = bs.forM screenPut := by
  unfold kPrintf
  rw [printed] at h
  obtain ⟨pieces, hprint, houtputs⟩ := except_bind_ok.mp h
  have hcount := outputs_eq (fun _ => .error e) pieces 0
  have hzero : toInt32 0 = 0 := by decide
  rw [hzero, houtputs] at hcount
  obtain ⟨bs', hbytes, hpair⟩ := except_map_ok.mp hcount.symm
  cases hpair
  rw [hprint]
  exact putPieces_silent hbytes

end Silent

/-! ## Complete formats -/

namespace Item

/-- The bytes of arguments the item reads. -/
def argBytes : Item → Nat
  | .directive d => argSize d.conv d.resolved.2
  | _ => 0

/-- The slots the item takes. -/
def argWords (item : Item) : Nat := item.argBytes / 4

end Item

/-- The slots a format takes. -/
def wordsOf (items : List Item) : Nat := (items.map Item.argWords).sum

/-- A sequence of items, each of which reads one slot or none. -/
structure Complete (items : List Item) : Prop where
  ok : ∀ item ∈ items, item.Ok
  slot : ∀ item ∈ items, item.argBytes = 0 ∨ item.argBytes = 4

instance (items : List Item) : Decidable (Complete items) :=
  decidable_of_iff
    ((∀ item ∈ items, item.Ok) ∧ ∀ item ∈ items, item.argBytes = 0 ∨ item.argBytes = 4)
    ⟨fun ⟨h₁, h₂⟩ => ⟨h₁, h₂⟩, fun h => ⟨h.1, h.2⟩⟩

namespace Complete

variable {item : Item} {items items' : List Item}

theorem tail (h : Complete (item :: items)) : Complete items :=
  ⟨fun i hi => h.ok i (List.mem_cons_of_mem _ hi), fun i hi => h.slot i (List.mem_cons_of_mem _ hi)⟩

theorem head (h : Complete (item :: items)) : Complete [item] := by
  constructor
  · intro i hi
    rw [List.mem_singleton.mp hi]
    exact h.ok item (List.mem_cons_self ..)
  · intro i hi
    rw [List.mem_singleton.mp hi]
    exact h.slot item (List.mem_cons_self ..)

theorem append (h : Complete items) (h' : Complete items') : Complete (items ++ items') :=
  ⟨fun i hi => (List.mem_append.mp hi).elim (h.ok i) (h'.ok i),
    fun i hi => (List.mem_append.mp hi).elim (h.slot i) (h'.slot i)⟩

/-- The cursor moves over whole slots. -/
theorem argBytes_eq (h : Complete (item :: items)) : item.argBytes = 4 * item.argWords := by
  have hslot := h.slot item (List.mem_cons_self ..)
  unfold Item.argWords
  omega

end Complete

/-! ## Running items on their own slots -/

section Runs

variable {item : Item} {items items' : List Item} {args args' : Bytes} {ap ap' : Nat}

/-- An item depends on the bytes it reads, and moves the cursor over them. -/
theorem Item.run_reads (item : Item) (args : Bytes) (ap : Nat) :
    item.run args ap = ((item.run (window args ap item.argBytes) 0).1, ap + item.argBytes) := by
  cases item with
  | byte c => rfl
  | percent => rfl
  | directive d => exact convert_reads _ _ _ _ args ap

theorem Item.run_congr (h : ∀ k, k < item.argBytes → args (ap + k) = args' (ap' + k)) :
    (item.run args ap).1 = (item.run args' ap').1 := by
  have hwindow : window args ap item.argBytes = window args' ap' item.argBytes := by
    funext k
    simp only [window]
    split
    · exact h k ‹_›
    · rfl
  rw [item.run_reads args, item.run_reads args', hwindow]

theorem runAll_append (args : Bytes) (items items' : List Item) (ap : Nat) :
    runAll args (items ++ items') ap =
      ((runAll args items ap).1 ++ (runAll args items' (runAll args items ap).2).1,
        (runAll args items' (runAll args items ap).2).2) := by
  induction items generalizing ap with
  | nil => rfl
  | cons item items ih =>
      have hrest := ih (item.run args ap).2
      simp only [List.cons_append, runAll, hrest]

/-- A complete format leaves the cursor behind its slots. -/
theorem runAll_next (h : Complete items) (args : Bytes) (ap : Nat) :
    (runAll args items ap).2 = ap + 4 * wordsOf items := by
  induction items generalizing ap with
  | nil => rfl
  | cons item items ih =>
      have hbytes := h.argBytes_eq
      have hfirst : (item.run args ap).2 = ap + item.argBytes := by rw [item.run_reads]
      simp only [runAll, hfirst, ih h.tail, wordsOf, List.map_cons, List.sum_cons]
      omega

/-- A complete format puts out the same wherever its slots are. -/
theorem runAll_congr (h : Complete items)
    (hargs : ∀ k, k < 4 * wordsOf items → args (ap + k) = args' (ap' + k)) :
    (runAll args items ap).1 = (runAll args' items ap').1 := by
  induction items generalizing ap ap' with
  | nil => rfl
  | cons item items ih =>
      have hbytes := h.argBytes_eq
      have hwords : wordsOf (item :: items) = item.argWords + wordsOf items := rfl
      rw [hwords] at hargs
      have hfirst : (item.run args ap).1 = (item.run args' ap').1 :=
        Item.run_congr fun k hk => hargs k (by omega)
      have hnext : (item.run args ap).2 = ap + item.argBytes := by rw [item.run_reads]
      have hnext' : (item.run args' ap').2 = ap' + item.argBytes := by rw [item.run_reads]
      have hrest : (runAll args items (ap + item.argBytes)).1 = (runAll args' items (ap' + item.argBytes)).1 := by
        refine ih h.tail fun k hk => ?_
        rw [Nat.add_assoc, Nat.add_assoc]
        exact hargs (item.argBytes + k) (by omega)
      simp only [runAll, hfirst, hnext, hnext', hrest]

theorem slots_append_left {a a' : List Word} {k : Nat} (h : k < 4 * a.length) :
    slots (a ++ a') k = slots a k := by
  have hk : k / 4 < a.length := by omega
  simp [slots, List.getD_eq_getElem?_getD, List.getElem?_append_left hk]

theorem slots_append_right (a a' : List Word) (k : Nat) :
    slots (a ++ a') (4 * a.length + k) = slots a' k := by
  have hdiv : (4 * a.length + k) / 4 = a.length + k / 4 := by omega
  have hmod : (4 * a.length + k) % 4 = k % 4 := by omega
  simp [slots, hdiv, hmod, List.getD_eq_getElem?_getD, List.getElem?_append_right]

theorem slots_read32 (ws : List Word) (i : Nat) : (slots ws).read32 (4 * i) = ws.getD i 0#32 := by
  have hbyte : ∀ k, k < 4 → slots ws (4 * i + k) = byteAt (ws.getD i 0#32) k := by
    intro k hk
    have hdiv : (4 * i + k) / 4 = i := by omega
    have hmod : (4 * i + k) % 4 = k := by omega
    rw [slots, hdiv, hmod]
  have hfirst : slots ws (4 * i) = byteAt (ws.getD i 0#32) 0 := hbyte 0 (by decide)
  rw [Bytes.read32, hfirst, hbyte 1 (by decide), hbyte 2 (by decide), hbyte 3 (by decide), ofBytes_byteAt]

/-- Two complete formats in a row, each on its own slots. -/
theorem runAll_slots (h : Complete items) (h' : Complete items') {a a' : List Word}
    (ha : a.length = wordsOf items) :
    (runAll (slots (a ++ a')) (items ++ items') 0).1 =
      (runAll (slots a) items 0).1 ++ (runAll (slots a') items' 0).1 := by
  have hfirst : (runAll (slots (a ++ a')) items 0).1 = (runAll (slots a) items 0).1 :=
    runAll_congr h fun k hk => by
      rw [Nat.zero_add]
      exact slots_append_left (by omega)
  have hsecond : (runAll (slots (a ++ a')) items' (4 * wordsOf items)).1 = (runAll (slots a') items' 0).1 :=
    runAll_congr h' fun k _ => by
      rw [← ha, slots_append_right, Nat.zero_add]
  rw [runAll_append, runAll_next h, Nat.zero_add, hfirst, hsecond]

end Runs

/-! ## Composition -/

section Composition

variable {load : Word → Except Stop Byte} {items items' : List Item} {a a' : List Word}

/-- The bytes a format puts out. -/
def itemBytes (load : Word → Except Stop Byte) (items : List Item) (a : List Word) :
    Except Stop (List Byte) := outputBytes load (runAll (slots a) items 0).1

/-- A complete format puts out the bytes of its items and returns their number. -/
theorem printed_renderAll (h : Complete items) (load : Word → Except Stop Byte) (a : List Word) :
    printed load (renderAll items) (slots a) =
      (itemBytes load items a).map fun bs => (bs, toInt32 bs.length) := by
  have houtputs := outputs_eq load (runAll (slots a) items 0).1 0
  simp only [Int.zero_add] at houtputs
  rw [printed, print_renderAll h.ok]
  exact houtputs

theorem itemBytes_append (load : Word → Except Stop Byte) (h : Complete items) (h' : Complete items')
    (ha : a.length = wordsOf items) (a' : List Word) :
    itemBytes load (items ++ items') (a ++ a') = do
      let bs ← itemBytes load items a
      let bs' ← itemBytes load items' a'
      return bs ++ bs' := by
  rw [itemBytes, runAll_slots h h' ha, outputBytes_append]
  rfl

/-- The outputs of the items of a format, each run by `print` on its own slots. -/
def itemOutputs (load : Word → Except Stop Byte) : List Item → List Word → Except Stop (List (List Byte))
  | [], _ => .ok []
  | item :: items, a => do
      let first ← printed load item.render (slots (a.take item.argWords))
      let others ← itemOutputs load items (a.drop item.argWords)
      return first.1 :: others

theorem renderAll_append (items items' : List Item) :
    renderAll (items ++ items') = renderAll items ++ renderAll items' := List.flatMap_append

theorem renderAll_singleton (item : Item) : renderAll [item] = item.render := by
  simp [renderAll]

/-- The bytes of a complete format are the outputs of its items in a row. -/
theorem itemBytes_eq (h : Complete items) (ha : a.length = wordsOf items) :
    itemBytes load items a = (itemOutputs load items a).map List.flatten := by
  induction items generalizing a with
  | nil => rfl
  | cons item items ih =>
      have hwords : wordsOf (item :: items) = item.argWords + wordsOf items := rfl
      have htake : (a.take item.argWords).length = wordsOf [item] := by
        rw [List.length_take, show wordsOf [item] = item.argWords from Nat.add_zero _]
        omega
      have hdrop : (a.drop item.argWords).length = wordsOf items := by
        rw [List.length_drop]
        omega
      have hsplit := itemBytes_append load h.head h.tail htake (a.drop item.argWords)
      rw [List.take_append_drop] at hsplit
      have hfirst := printed_renderAll h.head load (a.take item.argWords)
      rw [renderAll_singleton] at hfirst
      rw [show item :: items = [item] ++ items from rfl, hsplit, ih h.tail hdrop]
      simp only [List.singleton_append, itemOutputs, hfirst]
      cases itemBytes load [item] (a.take item.argWords) with
      | error e => rfl
      | ok bs => cases itemOutputs load items (a.drop item.argWords) <;> rfl

/-- Formatting is compositional. Two complete formats in a row, on their slots in a row, put out what
each puts out by itself and return the sum of the counts; and a complete format puts out what its
items put out and returns the number of bytes. -/
theorem printed_compositional (load : Word → Except Stop Byte) :
    (∀ items items' a a', Complete items → a.length = wordsOf items →
      Complete items' → a'.length = wordsOf items' →
      printed load (renderAll items ++ renderAll items') (slots (a ++ a')) = do
        let r ← printed load (renderAll items) (slots a)
        let r' ← printed load (renderAll items') (slots a')
        return (r.1 ++ r'.1, toInt32 (r.2 + r'.2))) ∧
    (∀ items a, Complete items → a.length = wordsOf items →
      printed load (renderAll items) (slots a) =
        (itemOutputs load items a).map fun outs => (outs.flatten, toInt32 outs.flatten.length)) := by
  constructor
  · intro items items' a a' h ha h' ha'
    rw [← renderAll_append, printed_renderAll (h.append h'), printed_renderAll h, printed_renderAll h',
      itemBytes_append _ h h' ha]
    cases itemBytes load items a with
    | error e => rfl
    | ok bs =>
        cases itemBytes load items' a' with
        | error e => rfl
        | ok bs' =>
            have hcount : toInt32 ((bs ++ bs').length : Int) =
                toInt32 (toInt32 bs.length + toInt32 bs'.length) := by
              rw [toInt32_add, toInt32_add_right, List.length_append, Int.natCast_add]
            simp only [Except.map, bind, Except.bind, pure, Except.pure, hcount]
  · intro items a h ha
    rw [printed_renderAll h, itemBytes_eq h ha]
    cases itemOutputs load items a <;> rfl

theorem printed_compositional_sample :
    (printed (fun _ => .ok 0#8) (cstr "%5d" ++ cstr "%-x|") (slots [7#32, 255#32]) = do
      let r ← printed (fun _ => .ok 0#8) (cstr "%5d") (slots [7#32])
      let r' ← printed (fun _ => .ok 0#8) (cstr "%-x|") (slots [255#32])
      return (r.1 ++ r'.1, toInt32 (r.2 + r'.2))) ∧
    printed (fun _ => .ok 0#8) (cstr "%5d") (slots [7#32]) =
      (itemOutputs (fun _ => .ok 0#8)
        [.directive { flags := [], width := cstr "5", length := [], conv := chr 'd' }] [7#32]).map
        fun outs => (outs.flatten, toInt32 outs.flatten.length) :=
  ⟨(printed_compositional fun _ => .ok 0#8).1
    [.directive { flags := [], width := cstr "5", length := [], conv := chr 'd' }]
    [.directive { flags := cstr "-", width := [], length := [], conv := chr 'x' }, .byte (chr '|')]
    [7#32] [255#32] (by decide) rfl (by decide) rfl,
   (printed_compositional fun _ => .ok 0#8).2
    [.directive { flags := [], width := cstr "5", length := [], conv := chr 'd' }] [7#32] (by decide) rfl⟩

end Composition

/-! ## On the screen -/

section Screen

variable {s s' : Kernel Flat}

theorem readString_run (fuel : Nat) (p : Word) :
    readString fuel p s = (stringBytes (Bus.load8 s.mem) fuel p).map fun bs => (bs, s) := by
  induction fuel generalizing p with
  | zero => rfl
  | succ fuel ih =>
      have hload : load8 p none s = (Bus.load8 s.mem p).map fun c => (c, s) := rfl
      simp only [readString, stringBytes, bind_apply, hload]
      cases Bus.load8 s.mem p with
      | error e => rfl
      | ok c =>
          simp only [Except.map, bind, Except.bind]
          split
          · rfl
          · have hrest := ih (p + 1#32)
            simp only [StateT.bind, bind, Except.bind, hrest]
            cases stringBytes (Bus.load8 s.mem) fuel (p + 1#32) <;> rfl

theorem ConsoleOnly.load8 (h : ConsoleOnly s s') : Bus.load8 s'.mem = Bus.load8 s.mem := by
  obtain ⟨cells, ports, vga, rfl⟩ := h
  rfl

/-- Text is put out byte by byte, and the rest of the pieces sees the same strings. -/
theorem putPieces_output {pieces : List Piece} {bs : List Byte}
    (h : outputBytes (Bus.load8 s.mem) pieces = .ok bs) :
    pieces.forM putPiece s = bs.forM screenPut s := by
  induction pieces generalizing s bs with
  | nil =>
      cases h
      rfl
  | cons piece pieces ih =>
      rw [show piece :: pieces = [piece] ++ pieces from rfl, outputBytes_append] at h
      cases hfirst : outputBytes (Bus.load8 s.mem) [piece] with
      | error e =>
          rw [hfirst] at h
          cases h
      | ok first =>
          cases hrest : outputBytes (Bus.load8 s.mem) pieces with
          | error e =>
              rw [hfirst, hrest] at h
              cases h
          | ok rest =>
              rw [hfirst, hrest] at h
              cases h
              rw [outputBytes_singleton] at hfirst
              have hput : putPiece piece s = first.forM screenPut s := by
                cases piece with
                | text text =>
                    cases hfirst
                    rfl
                | string ptr width flags =>
                    cases hstring : stringBytes (Bus.load8 s.mem) (2 ^ 32) ptr with
                    | error e =>
                        rw [Piece.output, hstring] at hfirst
                        cases hfirst
                    | ok string =>
                        rw [Piece.output, hstring] at hfirst
                        cases hfirst
                        have hread : readString (2 ^ 32) ptr s = .ok (string, s) := by
                          rw [readString_run, hstring]
                          rfl
                        rw [putPiece, bind_run hread]
              obtain ⟨u, s₁, hrun, hconsole⟩ := screenText_console (s := s) first
              rw [← hconsole.load8] at hrest
              have hforM : ∀ xs ys : List Byte, (xs ++ ys).forM screenPut s =
                  (do xs.forM screenPut; ys.forM screenPut : K Flat Unit) s := by
                intro xs ys
                simp
              rw [hforM, bind_run hrun, ← ih hrest]
              exact bind_run (hput.trans hrun)

/-- What is printed is what goes to the screen. -/
theorem kPrintf_output {fmt : List Byte} {args : Bytes} {bs : List Byte} {cw : Int}
    (h : printed (Bus.load8 s.mem) fmt args = .ok (bs, cw)) :
    kPrintf fmt args s = bs.forM screenPut s := by
  unfold kPrintf
  cases hprint : print fmt args with
  | error e =>
      rw [printed, hprint] at h
      cases h
  | ok pieces =>
      have houtputs := outputs_eq (Bus.load8 s.mem) pieces 0
      rw [printed, hprint] at h
      have hbytes : outputBytes (Bus.load8 s.mem) pieces = .ok bs := by
        cases hb : outputBytes (Bus.load8 s.mem) pieces with
        | error e =>
            rw [hb] at houtputs
            cases houtputs.symm.trans h
        | ok bs' =>
            rw [hb] at houtputs
            cases houtputs.symm.trans h
            rfl
      exact putPieces_output hbytes

end Screen

end LizaOS
