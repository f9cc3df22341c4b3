-- SUMMARY: The text of the directory listing, as a function of the files and of what the buffer held.
import LizaOS.Kernel.MainRun

/-!
# The text of a listing

Each turn of the loop shows an entry under its name, and then the buffer the file was read to, up to the
first NUL. The buffer is never cleared, so what a turn shows is the file with what is left behind it, and
the text of the whole loop is a function of the files, in the order of the directory, and of the bytes the
buffer held at the start.
-/

namespace LizaOS

open Exec

/-! ## The text -/

/-- A file of the directory: its name, where it begins in memory, and its contents. -/
structure ListedFile where
  name : List Byte
  start : Word
  contents : List Byte

/-- The entry of the directory `/dev`. -/
def devFile : ListedFile := ⟨cstr "dev", 0#32, []⟩

/-- The file that is opened under the name of `f`: the first one of this name. -/
def openedFile (files : List ListedFile) (f : ListedFile) : ListedFile :=
  (files.find? fun g => g.name = f.name).getD f

/-- The buffer once a file has been read to it. -/
def overlay (contents buffer : List Byte) : List Byte := contents ++ buffer.drop contents.length

/-- The bytes before the first NUL. -/
def beforeNul (bs : List Byte) : List Byte := bs.takeWhile (· ≠ 0#8)

/-- The buffer behind the turn of an entry. -/
def bufferAfter (files : List ListedFile) (buffer : List Byte) (f : ListedFile) : List Byte :=
  if f.name = cstr "dev" then buffer else overlay (openedFile files f).contents buffer

/-- What the turn of an entry shows, from the buffer as it is behind it. `read` prints a byte of its own. -/
def turnText (files : List ListedFile) (after : List Byte) (f : ListedFile) : List Byte :=
  cstr "Found file " ++ f.name ++ [newline] ++
    if f.name = cstr "dev" then cstr "(directory)" ++ [newline]
    else charText (openedFile files f).start ++ (cstr "content: " ++ beforeNul after ++ [newline])

/-- What the turns of the entries show, one after the other. -/
def entriesText (files : List ListedFile) : List Byte → List ListedFile → List Byte
  | _, [] => []
  | buffer, f :: entries =>
      turnText files (bufferAfter files buffer f) f ++ entriesText files (bufferAfter files buffer f) entries

/-- What the loop shows. -/
def listingText (files : List ListedFile) (buffer : List Byte) : List Byte :=
  entriesText files buffer (devFile :: files)

/-- The files of a mounted image. -/
def mountedFiles (m : Bytes) (addr : Word) (n : Nat) (names : Nat → List Byte) : List ListedFile :=
  (List.range n).map fun j => ⟨names j, fileStart m addr j, fileBytes m addr n j⟩

/-- The files of the image of `s₀`, under the names they have once it is mounted in `s₁`. -/
def listedFiles (addr : Word) (s₀ s₁ : Kernel Flat) : List ListedFile :=
  mountedFiles s₀.mem.ram addr (fileCount s₀.mem.ram addr) (inodeName s₁.mem.ram s₀.alloc)

/-- The bytes of the buffer. -/
def bufferBytes (m : Bytes) (buf : Word) : List Byte := (List.range bufLen).map fun k => m (buf.toNat + k)

section Files

variable {m m' : Bytes} {addr buf : Word} {n j k : Nat} {names : Nat → List Byte}

theorem mountedFiles_get (m : Bytes) (addr : Word) (names : Nat → List Byte) (hk : k < n) :
    (mountedFiles m addr n names)[k]? = some ⟨names k, fileStart m addr k, fileBytes m addr n k⟩ := by
  rw [mountedFiles, List.getElem?_map, List.getElem?_range hk]
  rfl

/-- The file that is opened is the first of its name. -/
theorem openedFile_mounted (m : Bytes) (addr : Word) {f : ListedFile} (hk : k < n) (hf : f.name = names k)
    (hfound : FoundFor names k j) :
    openedFile (mountedFiles m addr n names) f = ⟨names j, fileStart m addr j, fileBytes m addr n j⟩ := by
  have hj : j < n := Nat.lt_of_le_of_lt hfound.le hk
  have hget := mountedFiles_get m addr names hj
  have hfind : (mountedFiles m addr n names).find? (fun g => g.name = f.name) =
      some ⟨names j, fileStart m addr j, fileBytes m addr n j⟩ := by
    obtain ⟨hlt, hj'⟩ := List.getElem?_eq_some_iff.mp hget
    refine List.find?_eq_some_iff_getElem.mpr ⟨?_, j, hlt, hj', fun i hi => ?_⟩
    · simp only [hf, hfound.same, decide_true]
    · have hget' := mountedFiles_get m addr names (Nat.lt_trans hi hj)
      obtain ⟨_, hi'⟩ := List.getElem?_eq_some_iff.mp hget'
      have hne := hfound.first i hi
      simp only [hi', hf, hne, decide_false, Bool.not_false]
  rw [openedFile, hfind, Option.getD_some]

theorem bufferBytes_length (m : Bytes) (buf : Word) : (bufferBytes m buf).length = bufLen := by
  simp [bufferBytes]

theorem bufferBytes_get (hk : k < bufLen) : (bufferBytes m buf)[k]? = some (m (buf.toNat + k)) := by
  rw [bufferBytes, List.getElem?_map, List.getElem?_range hk]
  rfl

theorem bufferBytes_congr (h : ∀ k, k < bufLen → m' (buf.toNat + k) = m (buf.toNat + k)) :
    bufferBytes m' buf = bufferBytes m buf :=
  List.map_congr_left fun k hk => h k (List.mem_range.mp hk)

/-- A file shorter than the buffer is laid over its bytes. -/
theorem bufferBytes_overlay {file : List Byte} (hlen : file.length ≤ bufLen)
    (hfile : ∀ k, k < file.length → m' (buf.toNat + k) = file.getD k 0#8)
    (hleft : ∀ k, file.length ≤ k → k < bufLen → m' (buf.toNat + k) = m (buf.toNat + k)) :
    bufferBytes m' buf = overlay file (bufferBytes m buf) := by
  refine List.ext_getElem? fun k => ?_
  rcases Nat.lt_or_ge k bufLen with hk | hk
  · rw [bufferBytes_get hk, overlay]
    rcases Nat.lt_or_ge k file.length with hlt | hge
    · rw [List.getElem?_append_left hlt, hfile k hlt, List.getD_eq_getElem?_getD, List.getElem?_eq_getElem hlt]
      rfl
    · rw [List.getElem?_append_right hge, List.getElem?_drop, Nat.add_sub_cancel' hge, bufferBytes_get hk,
        hleft k hge hk]
  · rw [List.getElem?_eq_none (by rw [bufferBytes_length]; exact hk), List.getElem?_eq_none]
    rw [overlay, List.length_append, List.length_drop, bufferBytes_length]
    omega

/-- The string in memory is what is before the first NUL. -/
theorem stringAt_bytes (m : Bytes) (k p : Nat) :
    stringAt m k p = beforeNul ((List.range k).map fun i => m (p + i)) := by
  induction k generalizing p with
  | zero => rfl
  | succ k ih =>
      have hshift : (List.range k).map (fun i => m (p + 1 + i)) = (List.range k).map fun i => m (p + (i + 1)) :=
        List.map_congr_left fun i _ => by rw [Nat.add_assoc, Nat.add_comm 1]
      rw [stringAt, ih (p + 1), hshift, List.range_succ_eq_map, List.map_cons, List.map_map, beforeNul, beforeNul,
        Nat.add_zero]
      by_cases hz : m p = 0#8
      · rw [if_pos hz, List.takeWhile_cons_of_neg (by simp [hz])]
      · rw [if_neg hz, List.takeWhile_cons_of_pos (by simp [hz])]
        rfl

end Files

/-! ## Plain listings -/

/-- What the loop shows where each turn shows the file it has opened. -/
def plainText (files entries : List ListedFile) : List Byte :=
  entries.flatMap fun f => turnText files (openedFile files f).contents f

def plainListing (files : List ListedFile) : List Byte := plainText files (devFile :: files)

/-- The lengths of the files that are opened, in the order of the directory. -/
def openedLengths (files entries : List ListedFile) : List Nat :=
  (entries.filter fun f => f.name ≠ cstr "dev").map fun f => (openedFile files f).contents.length

/-- The buffer holds `mark` bytes of text, and only NULs behind them. -/
def MarkedTo (buffer : List Byte) (mark : Nat) : Prop :=
  ∃ text n, Nulless text ∧ text.length = mark ∧ buffer = text ++ List.replicate n 0#8

section Plain

variable {files entries : List ListedFile} {f : ListedFile} {text buffer contents : List Byte} {mark : Nat}
  {m : Bytes} {buf : Word}

theorem beforeNul_append (h : Nulless text) : beforeNul (text ++ buffer) = text ++ beforeNul buffer :=
  List.takeWhile_append_of_pos fun b hb => decide_eq_true (h b hb)

theorem beforeNul_replicate (n : Nat) : beforeNul (List.replicate n 0#8) = [] := by
  cases n with
  | zero => rfl
  | succ n => rfl

theorem beforeNul_self (h : Nulless text) : beforeNul text = text := by
  have happend : beforeNul (text ++ []) = text ++ [] := beforeNul_append h
  rwa [List.append_nil] at happend

/-- A file that reaches the mark covers what the buffer held. -/
theorem MarkedTo.covered (h : MarkedTo buffer mark) (hle : mark ≤ contents.length) :
    beforeNul (buffer.drop contents.length) = [] := by
  obtain ⟨text, n, _, rfl, rfl⟩ := h
  rw [List.drop_append, List.drop_eq_nil_of_le hle, List.nil_append, List.drop_replicate, beforeNul_replicate]

/-- A shorter one leaves some of it. -/
theorem MarkedTo.uncovered (h : MarkedTo buffer mark) (hlt : contents.length < mark) :
    beforeNul (buffer.drop contents.length) ≠ [] := by
  obtain ⟨text, n, hnul, rfl, rfl⟩ := h
  have hrest : Nulless (text.drop contents.length) := fun b hb => hnul b (List.mem_of_mem_drop hb)
  rw [List.drop_append, beforeNul_append hrest]
  intro hnil
  have hlength := congrArg List.length (List.append_eq_nil_iff.mp hnil).1
  rw [List.length_drop, List.length_nil] at hlength
  omega

theorem MarkedTo.overlay (h : MarkedTo buffer mark) (hc : Nulless contents) (hle : mark ≤ contents.length) :
    MarkedTo (overlay contents buffer) contents.length := by
  obtain ⟨text, n, _, rfl, rfl⟩ := h
  refine ⟨contents, n - (contents.length - text.length), hc, rfl, ?_⟩
  rw [LizaOS.overlay, List.drop_append, List.drop_eq_nil_of_le hle, List.nil_append, List.drop_replicate]

/-- The text of the turn of a file is its plain text with what the buffer still held before the newline. -/
theorem turnText_overlay (buffer : List Byte) (hdev : f.name ≠ cstr "dev")
    (hc : Nulless (openedFile files f).contents) :
    ∃ lead, turnText files (openedFile files f).contents f =
        lead ++ (openedFile files f).contents ++ [newline] ∧
      turnText files (bufferAfter files buffer f) f =
        lead ++ (openedFile files f).contents ++ beforeNul (buffer.drop (openedFile files f).contents.length) ++
          [newline] := by
  refine ⟨cstr "Found file " ++ f.name ++ [newline] ++ charText (openedFile files f).start ++ cstr "content: ", ?_, ?_⟩
  · rw [turnText, if_neg hdev, beforeNul_self hc]
    simp only [List.append_assoc]
  · rw [turnText, bufferAfter, if_neg hdev, if_neg hdev, overlay, beforeNul_append hc]
    simp only [List.append_assoc]

/-- Nothing is left out of the plain text. The induction is on the entries. -/
theorem plainText_length_le (hfiles : ∀ f ∈ entries, Nulless (openedFile files f).contents) (buffer : List Byte) :
    (plainText files entries).length ≤ (entriesText files buffer entries).length := by
  induction entries generalizing buffer with
  | nil => exact Nat.le_refl 0
  | cons f entries ih =>
      have hrest := ih (fun g hg => hfiles g (List.mem_cons_of_mem f hg)) (bufferAfter files buffer f)
      rw [plainText, List.flatMap_cons, entriesText, List.length_append, List.length_append, ← plainText]
      refine Nat.add_le_add ?_ hrest
      by_cases hdev : f.name = cstr "dev"
      · rw [turnText, turnText, if_pos hdev, if_pos hdev]
      · obtain ⟨lead, hplain, hturn⟩ := turnText_overlay buffer hdev (hfiles f List.mem_cons_self)
        rw [hplain, hturn]
        simp only [List.length_append]
        omega

/-- The listing is plain if and only if no file opened is shorter than one before it. The mark is the
length of the last one. -/
theorem entriesText_plain_iff (hfiles : ∀ f ∈ entries, Nulless (openedFile files f).contents)
    (h : MarkedTo buffer mark) :
    entriesText files buffer entries = plainText files entries ↔
      (mark :: openedLengths files entries).IsChain (· ≤ ·) := by
  induction entries generalizing buffer mark with
  | nil => exact ⟨fun _ => .singleton mark, fun _ => rfl⟩
  | cons f entries ih =>
      have hrest : ∀ g ∈ entries, Nulless (openedFile files g).contents := fun g hg =>
        hfiles g (List.mem_cons_of_mem f hg)
      rw [plainText, List.flatMap_cons, entriesText, ← plainText]
      by_cases hdev : f.name = cstr "dev"
      · have hlengths : openedLengths files (f :: entries) = openedLengths files entries := by
          simp [openedLengths, hdev]
        have hturn : turnText files (bufferAfter files buffer f) f =
            turnText files (openedFile files f).contents f := by
          rw [turnText, turnText, if_pos hdev, if_pos hdev]
        rw [hlengths, hturn, List.append_cancel_left_eq, bufferAfter, if_pos hdev]
        exact ih hrest h
      · have hc := hfiles f List.mem_cons_self
        have hlengths : openedLengths files (f :: entries) =
            (openedFile files f).contents.length :: openedLengths files entries := by
          simp [openedLengths, hdev]
        obtain ⟨lead, hplain, hturn⟩ := turnText_overlay buffer hdev hc
        have hlonger := plainText_length_le hrest (bufferAfter files buffer f)
        have hafter : bufferAfter files buffer f = overlay (openedFile files f).contents buffer := if_neg hdev
        rw [hlengths, List.isChain_cons_cons, hplain, hturn]
        constructor
        · intro heq
          -- both are as long, so the buffer has nothing left behind the file
          have hlength := congrArg List.length heq
          simp only [List.length_append] at hlength
          have hnil : beforeNul (buffer.drop (openedFile files f).contents.length) = [] :=
            List.eq_nil_of_length_eq_zero (by omega)
          have hle : mark ≤ (openedFile files f).contents.length :=
            Nat.le_of_not_lt fun hlt => h.uncovered hlt hnil
          rw [hnil, List.append_nil, List.append_cancel_left_eq, hafter] at heq
          exact ⟨hle, (ih hrest (h.overlay hc hle)).mp heq⟩
        · rintro ⟨hle, hchain⟩
          rw [h.covered hle, List.append_nil, hafter, (ih hrest (h.overlay hc hle)).mpr hchain]

theorem markedTo_zero (n : Nat) : MarkedTo (List.replicate n 0#8) 0 :=
  ⟨[], n, fun _ hb => absurd hb List.not_mem_nil, rfl, rfl⟩

theorem bufferBytes_zero (h : ∀ k, k < bufLen → m (buf.toNat + k) = 0#8) :
    bufferBytes m buf = List.replicate bufLen 0#8 := by
  refine List.eq_replicate_iff.mpr ⟨bufferBytes_length m buf, fun b hb => ?_⟩
  obtain ⟨k, hk, rfl⟩ := List.mem_map.mp hb
  exact h k (List.mem_range.mp hk)

theorem openedFile_mem (h : f ∈ files) : openedFile files f ∈ files := by
  rw [openedFile]
  cases hfind : files.find? fun g => g.name = f.name with
  | none => exact h
  | some g => exact List.mem_of_find?_eq_some hfind

/-- From a buffer of NULs the listing is plain if and only if the files go up in length. -/
theorem listingText_plain_iff (n : Nat) (hfiles : ∀ f ∈ files, Nulless f.contents) :
    listingText files (List.replicate n 0#8) = plainListing files ↔
      (openedLengths files files).IsChain (· ≤ ·) := by
  have hdev : devFile.name = cstr "dev" := rfl
  have hturn : turnText files (List.replicate n 0#8) devFile =
      turnText files (openedFile files devFile).contents devFile := by
    rw [turnText, turnText, if_pos hdev, if_pos hdev]
  have hopened : ∀ f ∈ files, Nulless (openedFile files f).contents := fun f hf => hfiles _ (openedFile_mem hf)
  rw [listingText, plainListing, plainText, List.flatMap_cons, entriesText, ← plainText, bufferAfter, if_pos hdev,
    hturn, List.append_cancel_left_eq, entriesText_plain_iff hopened (markedTo_zero n)]
  cases openedLengths files files with
  | nil => exact ⟨fun _ => .nil, fun _ => .singleton 0⟩
  | cons l ls => rw [List.isChain_cons_cons, and_iff_right (Nat.zero_le l)]

end Plain

end LizaOS
