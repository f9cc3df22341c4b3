-- SUMMARY: The host program that packs files into an image, and what the image it writes consists of.
import LizaOS.Libc.CString
import LizaOS.Libc.StringRun

/-!
# The image packer

`misc/initrd.c`. The program is given the path of each file and the name it is to have in the image.
It fills in a table of headers on the stack and writes the number of files, the table as it is, and
the contents of the files. The table is not initialised, so its unused bytes are arbitrary. The
program has a declaration of its own of the header.
-/

namespace LizaOS

/-- The size of `struct initrd_header` with its padding, the length of the table, the length of a name,
and the offsets of the fields. -/
def packSize : Nat := 76
def packHeaders : Nat := 64
def packNameLen : Nat := 64
def packMagic : Nat := 0
def packName : Nat := 1
def packOffset : Nat := 68
def packLength : Nat := 72

/-- The byte every header starts with. -/
def packMagicByte : Byte := 0xBF

/-- The arguments behind the program's name, two by two. A last one without a partner is ignored. -/
def pairs {α : Type} : List α → List (α × α)
  | path :: name :: rest => (path, name) :: pairs rest
  | _ => []

/-- The host's `strcpy`, which copies the NUL. -/
def hostStrcpy (m : Bytes) (dest : Nat) (src : List Byte) : Bytes :=
  (m.fill dest src.length fun j => src.getD j 0#8).write8 (dest + src.length) 0#8

/-- The body of the first loop: header `i` is filled in for a file of this name and length that goes
to `off`. -/
def packHeader (headers : Bytes) (i : Nat) (off : Word) (name : List Byte) (length : Word) : Bytes :=
  let header := packSize * i
  let headers := hostStrcpy headers (header + packName) name
  let headers := headers.write32 (header + packOffset) off
  let headers := headers.write32 (header + packLength) length
  headers.write8 (header + packMagic) packMagicByte

/-- The first loop, from header `i` on. A file that is not found ends the program. -/
def packTable (files : List Byte → Option (List Byte)) :
    List (List Byte × List Byte) → Nat → Word → Bytes → Option Bytes
  | [], _, _, headers => some headers
  | (path, name) :: rest, i, off, headers => do
      let contents ← files path
      let length := BitVec.ofNat 32 contents.length
      packTable files rest (i + 1) (off + length) (packHeader headers i off name length)

/-- The second loop: each file is read again, as many bytes as its header says. -/
def packContents (files : List Byte → Option (List Byte)) (headers : Bytes) :
    List (List Byte × List Byte) → Nat → Option (List Byte)
  | [], _ => some []
  | (path, _) :: rest, i => do
      let contents ← files path
      let length := headers.read32 (packSize * i + packLength)
      let data ← packContents files headers rest (i + 1)
      some (contents.take length.toNat ++ data)

/-- `main`: the bytes written to the image, for the arguments and the files the host has. -/
def initrdMain (argv : List (List Byte)) (files : List Byte → Option (List Byte)) (headers : Bytes) :
    Option (List Byte) := do
  let args := pairs argv.tail
  let nheaders := BitVec.ofNat 32 args.length
  let headers ← packTable files args 0 (BitVec.ofNat 32 (packSize * packHeaders + 4)) headers
  let data ← packContents files headers args 0
  some ((List.range 4).map (byteAt nheaders) ++ (List.range (packSize * packHeaders)).map headers ++ data)

/-! ## One header -/

/-- The header at `p` is that of a file of this name and length at `off`. -/
structure HeaderHolds (headers : Bytes) (p : Nat) (off : Word) (name : List Byte) (length : Word) :
    Prop where
  name : ∀ j, j ≤ name.length → headers (p + packName + j) = name.getD j 0#8
  offset : headers.read32 (p + packOffset) = off
  length : headers.read32 (p + packLength) = length

section Header

variable {headers headers' : Bytes} {i p x : Nat} {off length : Word} {name : List Byte}

theorem packHeader_other (hname : name.length < packNameLen)
    (hx : x < packSize * i ∨ packSize * (i + 1) ≤ x) :
    packHeader headers i off name length x = headers x := by
  simp only [packSize, packNameLen] at hx hname
  simp only [packHeader, hostStrcpy, packSize, packName, packOffset, packLength, packMagic]
  rw [Bytes.write8_other (by omega), Bytes.write32_other (by omega), Bytes.write32_other (by omega),
    Bytes.write8_other (by omega), Bytes.fill_outside (by omega)]

theorem packHeader_holds (hname : name.length < packNameLen) :
    HeaderHolds (packHeader headers i off name length) (packSize * i) off name length := by
  simp only [packNameLen] at hname
  refine ⟨fun j hj => ?_, ?_, ?_⟩
  · simp only [packHeader, hostStrcpy, packName, packOffset, packLength, packMagic]
    rw [Bytes.write8_other (by omega), Bytes.write32_other (by omega), Bytes.write32_other (by omega)]
    rcases Nat.lt_or_eq_of_le hj with hlt | rfl
    · rw [Bytes.write8_other (by omega), Bytes.fill_inside hlt]
    · rw [Bytes.write8_same, getD_length]
  · simp only [packHeader, packOffset, packLength, packMagic]
    rw [Bytes.read32_write8_other (by omega), Bytes.read32_write32_other (by omega),
      Bytes.read32_write32_same]
  · simp only [packHeader, packLength, packMagic]
    rw [Bytes.read32_write8_other (by omega), Bytes.read32_write32_same]

/-- A header is known by its bytes, wherever it lies. -/
theorem HeaderHolds.congr {p' : Nat} (h : HeaderHolds headers p off name length)
    (hname : name.length < packNameLen) (heq : ∀ j, j < packSize → headers' (p' + j) = headers (p + j)) :
    HeaderHolds headers' p' off name length := by
  simp only [packNameLen] at hname
  have hword : ∀ o, o + 4 ≤ packSize → headers'.read32 (p' + o) = headers.read32 (p + o) := by
    intro o ho
    simp only [Bytes.read32, Nat.add_assoc]
    rw [heq o (by omega), heq (o + 1) (by omega), heq (o + 2) (by omega), heq (o + 3) (by omega)]
  refine ⟨fun j hj => ?_, ?_, ?_⟩
  · rw [← h.name j hj, Nat.add_assoc, Nat.add_assoc]
    exact heq (packName + j) (by simp only [packName, packSize]; omega)
  · rw [hword packOffset (by decide), h.offset]
  · rw [hword packLength (by decide), h.length]

end Header

/-! ## The table -/

/-- A file to be packed: where the host has it, the name it is to have, and its contents. -/
structure PackedFile where
  path : List Byte
  name : List Byte
  contents : List Byte

/-- The arguments for packing the files. -/
def packArgs (fs : List PackedFile) : List (List Byte × List Byte) := fs.map fun f => (f.path, f.name)

/-- The length of the contents of the files together. -/
def contentsLen (fs : List PackedFile) : Nat := (fs.map fun f => f.contents.length).sum

/-- The host has the files, and their names have room in a header. -/
structure Packable (files : List Byte → Option (List Byte)) (fs : List PackedFile) : Prop where
  found : ∀ f ∈ fs, files f.path = some f.contents
  short : ∀ f ∈ fs, f.name.length < packNameLen

section Table

variable {files : List Byte → Option (List Byte)} {f : PackedFile} {fs : List PackedFile}
  {headers : Bytes}

theorem pairs_args (fs : List PackedFile) :
    pairs (fs.flatMap fun f => [f.path, f.name]) = packArgs fs := by
  induction fs with
  | nil => rfl
  | cons f fs ih => rw [List.flatMap_cons, packArgs, List.map_cons, ← packArgs, ← ih]; rfl

theorem Packable.tail (h : Packable files (f :: fs)) : Packable files fs where
  found g hg := h.found g (List.mem_cons_of_mem f hg)
  short g hg := h.short g (List.mem_cons_of_mem f hg)

/-- Filling in the table goes through, leaves the headers before it alone, and each header holds its
file at an offset that is the sum of the lengths before. -/
theorem packTable_run (h : Packable files fs) (i : Nat) (off : Word) (headers : Bytes) :
    ∃ headers', packTable files (packArgs fs) i off headers = some headers' ∧
      (∀ x, x < packSize * i → headers' x = headers x) ∧
      ∀ (j : Nat) (hj : j < fs.length),
        HeaderHolds headers' (packSize * (i + j)) (off + BitVec.ofNat 32 (contentsLen (fs.take j)))
          fs[j].name (BitVec.ofNat 32 fs[j].contents.length) := by
  induction fs generalizing i off headers with
  | nil => exact ⟨headers, rfl, fun _ _ => rfl, fun j hj => absurd hj (Nat.not_lt_zero j)⟩
  | cons f fs ih =>
      have hshort := h.short f (List.mem_cons_self ..)
      obtain ⟨headers', hrun, hbefore, hall⟩ := ih h.tail (i + 1)
        (off + BitVec.ofNat 32 f.contents.length)
        (packHeader headers i off f.name (BitVec.ofNat 32 f.contents.length))
      refine ⟨headers', ?_, fun x hx => ?_, fun j hj => ?_⟩
      · rw [packArgs, List.map_cons, packTable, h.found f (List.mem_cons_self ..)]
        exact hrun
      · rw [hbefore x (by simp only [packSize] at hx ⊢; omega), packHeader_other hshort (.inl hx)]
      · cases j with
        | zero =>
            have hzero : off + BitVec.ofNat 32 (contentsLen ((f :: fs).take 0)) = off := by
              simp [contentsLen]
            rw [hzero]
            refine (packHeader_holds hshort).congr hshort fun j hj => hbefore _ ?_
            simp only [packSize] at hj ⊢
            omega
        | succ j =>
            have hnext := hall j (Nat.lt_of_succ_lt_succ hj)
            have hoff : off + BitVec.ofNat 32 (contentsLen ((f :: fs).take (j + 1))) =
                off + BitVec.ofNat 32 f.contents.length + BitVec.ofNat 32 (contentsLen (fs.take j)) := by
              rw [BitVec.add_assoc, ← BitVec.ofNat_add]
              rfl
            rw [hoff, show i + (j + 1) = i + 1 + j by omega]
            exact hnext

/-- The contents are written whole. -/
theorem packContents_run (h : Packable files fs) (i : Nat)
    (hfit : ∀ f ∈ fs, f.contents.length < 2 ^ 32)
    (hlen : ∀ (j : Nat) (hj : j < fs.length),
      headers.read32 (packSize * (i + j) + packLength) = BitVec.ofNat 32 fs[j].contents.length) :
    packContents files headers (packArgs fs) i = some (fs.flatMap fun f => f.contents) := by
  induction fs generalizing i with
  | nil => rfl
  | cons f fs ih =>
      have hmem : f ∈ f :: fs := List.mem_cons_self ..
      have hrest := ih h.tail (i + 1) (fun g hg => hfit g (List.mem_cons_of_mem f hg)) fun j hj => by
        have hnext := hlen (j + 1) (Nat.succ_lt_succ hj)
        rwa [show i + (j + 1) = i + 1 + j by omega] at hnext
      have hfirst := hlen 0 (Nat.succ_pos _)
      rw [Nat.add_zero] at hfirst
      have htake : f.contents.take (headers.read32 (packSize * i + packLength)).toNat = f.contents := by
        rw [hfirst, List.getElem_cons_zero, BitVec.toNat_ofNat, Nat.mod_eq_of_lt (hfit f hmem),
          List.take_length]
      rw [packArgs, List.map_cons, packContents, h.found f hmem]
      rw [packArgs] at hrest
      simp only [Option.bind_eq_bind, Option.bind_some, hrest, htake, List.flatMap_cons]

/-! ## The image -/

/-- The memory holds the image of the files at `p`. -/
structure HoldsImage (m : Bytes) (p : Nat) (fs : List PackedFile) : Prop where
  count : m.read32 p = BitVec.ofNat 32 fs.length
  header : ∀ (j : Nat) (hj : j < fs.length),
    HeaderHolds m (p + 4 + packSize * j)
      (BitVec.ofNat 32 (packSize * packHeaders + 4 + contentsLen (fs.take j)))
      fs[j].name (BitVec.ofNat 32 fs[j].contents.length)
  contents : ∀ (j : Nat) (hj : j < fs.length),
    m.Holds (p + (packSize * packHeaders + 4 + contentsLen (fs.take j))) fs[j].contents

/-- The contents of a file lie behind those of the files before it. -/
theorem holds_contents {m : Bytes} {p : Nat} (h : m.Holds p (fs.flatMap fun f => f.contents)) (j : Nat)
    (hj : j < fs.length) : m.Holds (p + contentsLen (fs.take j)) fs[j].contents := by
  induction fs generalizing p j with
  | nil => exact absurd hj (Nat.not_lt_zero j)
  | cons f fs ih =>
      rw [List.flatMap_cons, Bytes.holds_append] at h
      cases j with
      | zero => simpa [contentsLen] using h.1
      | succ j =>
          have hrest := ih h.2 j (Nat.lt_of_succ_lt_succ hj)
          rw [Nat.add_assoc] at hrest
          exact hrest

theorem contentsLen_take_le (fs : List PackedFile) (j : Nat) (hj : j < fs.length) :
    contentsLen (fs.take j) + fs[j].contents.length ≤ contentsLen fs := by
  induction fs generalizing j with
  | nil => exact absurd hj (Nat.not_lt_zero j)
  | cons f fs ih =>
      cases j with
      | zero => simp [contentsLen]
      | succ j =>
          have hrest := ih j (Nat.lt_of_succ_lt_succ hj)
          simp only [contentsLen, List.take_succ_cons, List.map_cons, List.sum_cons,
            List.getElem_cons_succ] at hrest ⊢
          omega

/-- The bytes of an image with this table. -/
def imageBytes (headers : Bytes) (fs : List PackedFile) : List Byte :=
  (List.range 4).map (byteAt (BitVec.ofNat 32 fs.length)) ++
    (List.range (packSize * packHeaders)).map headers ++ fs.flatMap fun f => f.contents

theorem imageBytes_length (headers : Bytes) (fs : List PackedFile) :
    (imageBytes headers fs).length = packSize * packHeaders + 4 + contentsLen fs := by
  simp only [imageBytes, contentsLen, List.length_append, List.length_map, List.length_range,
    List.length_flatMap]
  omega

theorem imageBytes_holds {m : Bytes} {p : Nat} (hn : fs.length ≤ packHeaders)
    (hshort : ∀ f ∈ fs, f.name.length < packNameLen)
    (hheaders : ∀ (j : Nat) (hj : j < fs.length),
      HeaderHolds headers (packSize * j)
        (BitVec.ofNat 32 (packSize * packHeaders + 4 + contentsLen (fs.take j)))
        fs[j].name (BitVec.ofNat 32 fs[j].contents.length))
    (hm : m.Holds p (imageBytes headers fs)) : HoldsImage m p fs := by
  rw [imageBytes, Bytes.holds_append, Bytes.holds_append, Bytes.holds_map_range,
    Bytes.holds_map_range] at hm
  obtain ⟨⟨hcount, htable⟩, hcontents⟩ := hm
  refine ⟨?_, fun j hj => ?_, fun j hj => ?_⟩
  · have hbyte := hcount 0 (by decide)
    rw [Nat.add_zero] at hbyte
    rw [Bytes.read32, hbyte, hcount 1 (by decide), hcount 2 (by decide), hcount 3 (by decide),
      ofBytes_byteAt]
  · refine (hheaders j hj).congr (hshort _ (List.getElem_mem hj)) fun k hk => ?_
    have hbyte := htable (packSize * j + k) (by simp only [packSize, packHeaders] at *; omega)
    simpa [Nat.add_assoc] using hbyte
  · have hdata := holds_contents hcontents j hj
    simp only [List.length_append, List.length_map, List.length_range] at hdata
    rwa [Nat.add_comm 4, Nat.add_assoc] at hdata

/-- The packer writes an image of the files, whatever was in its table before. -/
theorem initrdMain_run (h : Packable files fs) (hn : fs.length ≤ packHeaders)
    (hsize : packSize * packHeaders + 4 + contentsLen fs < 2 ^ 32) (prog : List Byte) (junk : Bytes) :
    ∃ image, initrdMain (prog :: fs.flatMap fun f => [f.path, f.name]) files junk = some image ∧
      image.length = packSize * packHeaders + 4 + contentsLen fs ∧
      ∀ m p, Bytes.Holds m p image → HoldsImage m p fs := by
  obtain ⟨headers, htable, _, hheaders⟩ :=
    packTable_run h 0 (BitVec.ofNat 32 (packSize * packHeaders + 4)) junk
  have hfit : ∀ f ∈ fs, f.contents.length < 2 ^ 32 := by
    intro f hf
    obtain ⟨j, hj, rfl⟩ := List.getElem_of_mem hf
    have hle := contentsLen_take_le fs j hj
    omega
  have hdata := packContents_run h 0 hfit fun j hj => (hheaders j hj).length
  refine ⟨imageBytes headers fs, ?_, imageBytes_length headers fs,
    fun m p hm => imageBytes_holds hn h.short (fun j hj => ?_) hm⟩
  · rw [initrdMain, List.tail_cons, pairs_args, htable]
    simp only [Option.bind_eq_bind, Option.bind_some, hdata]
    rw [imageBytes, packArgs, List.length_map]
  · have hheader := hheaders j hj
    rwa [Nat.zero_add, ← BitVec.ofNat_add] at hheader

end Table

end LizaOS
