-- SUMMARY: Where the image packer stores, and for which command lines its stores stay in the table.
import LizaOS.Logic.Extent
import LizaOS.Misc.Initrd
import Mathlib.Data.List.GetD

/-!
# The stores of the packer

The packer counts the pairs on its command line and copies the names without a test of either. Its stores
are listed here with the objects they are meant for; the bytes beside them do not change.
-/

namespace LizaOS

/-! ## Stores -/

/-- The bytes a store goes to, and the object it is meant for. -/
structure PackStore where
  bytes : Extent
  object : Extent
  deriving DecidableEq, Repr

/-- `headers` -/
def headersExtent : Extent := .ofLen 0 (packSize * packHeaders)

/-- `headers[i].name` -/
def nameExtent (i : Nat) : Extent := .ofLen (packSize * i + packName) packNameLen

/-- The copy of the name, which is meant for the field and for the table. -/
def nameStores (i : Nat) (name : List Byte) : List PackStore :=
  let bytes := Extent.ofLen (packSize * i + packName) (name.length + 1)
  [⟨bytes, nameExtent i⟩, ⟨bytes, headersExtent⟩]

/-- `headers[i].offset = off` -/
def offsetStore (i : Nat) : PackStore := ⟨.ofLen (packSize * i + packOffset) 4, headersExtent⟩

/-- The stores behind the opening of the file. -/
def openedStores (i : Nat) : List PackStore :=
  [⟨.ofLen (packSize * i + packLength) 4, headersExtent⟩, ⟨.ofLen (packSize * i + packMagic) 1, headersExtent⟩]

/-- The stores of the first loop, from header `i` on. -/
def tableStores (files : List Byte → Option (List Byte)) : List (List Byte × List Byte) → Nat → List PackStore
  | [], _ => []
  | (path, name) :: rest, i =>
      nameStores i name ++ offsetStore i ::
        match files path with
        | none => []
        | some _ => openedStores i ++ tableStores files rest (i + 1)

section Stores

variable {files : List Byte → Option (List Byte)} {args : List (List Byte × List Byte)} {headers headers' : Bytes}
  {i x : Nat} {off length : Word} {name : List Byte} {st : PackStore}

/-- The stores of a turn of the loop are all there are. -/
theorem packHeader_beside (hname : ∀ st ∈ nameStores i name, x ∉ st.bytes) (hoff : x ∉ (offsetStore i).bytes)
    (hopened : ∀ st ∈ openedStores i, x ∉ st.bytes) : packHeader headers i off name length x = headers x := by
  simp only [nameStores, openedStores, offsetStore, List.forall_mem_cons, Extent.mem_ofLen] at hname hoff hopened
  simp only [packHeader, hostStrcpy]
  rw [Bytes.write8_other (by omega), Bytes.write32_other (by omega), Bytes.write32_other (by omega),
    Bytes.write8_other (by omega), Bytes.fill_outside (by omega)]

/-- The stores of the loop are all there are. -/
theorem packTable_beside (hrun : packTable files args i off headers = some headers')
    (hx : ∀ st ∈ tableStores files args i, x ∉ st.bytes) : headers' x = headers x := by
  induction args generalizing i off headers with
  | nil =>
      cases hrun
      rfl
  | cons a args ih =>
      obtain ⟨path, name⟩ := a
      rw [packTable] at hrun
      rw [tableStores] at hx
      cases hfile : files path with
      | none =>
          rw [hfile] at hrun
          cases hrun
      | some contents =>
          rw [hfile] at hrun hx
          simp only [List.forall_mem_append, List.forall_mem_cons] at hx
          obtain ⟨hname, hoff, hopened, hrest⟩ := hx
          rw [ih hrun hrest]
          exact packHeader_beside hname hoff hopened

/-- The stores of one turn with a file that is found. -/
def turnStores (i : Nat) (name : List Byte) : List PackStore :=
  nameStores i name ++ offsetStore i :: openedStores i

/-- Where the files are found, each header has its stores. -/
theorem mem_tableStores (hfound : ∀ a ∈ args, (files a.1).isSome) : st ∈ tableStores files args i ↔
    ∃ (j : Nat) (hj : j < args.length), st ∈ turnStores (i + j) args[j].2 := by
  induction args generalizing i with
  | nil => simp [tableStores]
  | cons a args ih =>
      obtain ⟨contents, hfile⟩ := Option.isSome_iff_exists.mp (hfound a (List.mem_cons_self ..))
      have hturn : st ∈ tableStores files (a :: args) i ↔
          st ∈ turnStores i a.2 ∨ st ∈ tableStores files args (i + 1) := by
        rw [tableStores, hfile, ← List.mem_append, turnStores, List.append_assoc, List.cons_append]
      rw [hturn, ih fun b hb => hfound b (List.mem_cons_of_mem a hb)]
      constructor
      · rintro (h | ⟨j, hj, h⟩)
        · exact ⟨0, Nat.succ_pos _, h⟩
        · refine ⟨j + 1, Nat.succ_lt_succ hj, ?_⟩
          rwa [← Nat.add_assoc, Nat.add_right_comm]
      · rintro ⟨j, hj, h⟩
        cases j with
        | zero => exact .inl h
        | succ j =>
            refine .inr ⟨j, Nat.lt_of_succ_lt_succ hj, ?_⟩
            rwa [Nat.add_right_comm, Nat.add_assoc]

/-- The stores of a turn stay in their objects exactly if the header is one of the table and the name has
room in it. -/
theorem turnStores_within : (∀ st ∈ turnStores i name, st.bytes.Within st.object) ↔
    i < packHeaders ∧ name.length < packNameLen := by
  simp only [turnStores, nameStores, offsetStore, openedStores, nameExtent, headersExtent, List.cons_append,
    List.nil_append, List.forall_mem_cons, Extent.Within, Extent.ofLen, packSize, packHeaders, packName,
    packNameLen, packOffset, packLength, packMagic]
  constructor
  · rintro ⟨_, _, _, _, _, _⟩
    omega
  · rintro ⟨_, _⟩
    refine ⟨by omega, by omega, by omega, by omega, by omega, ?_⟩
    exact fun st hst => absurd hst List.not_mem_nil

end Stores

/-! ## Safety -/

/-- The packer keeps to its table: the first loop changes the bytes of its stores only, and these stay in their
objects. The image it writes, if any, has the names it was given. -/
structure PacksSafely (prog : List Byte) (args : List (List Byte × List Byte))
    (files : List Byte → Option (List Byte)) (junk : Bytes) : Prop where
  beside : ∀ headers, packTable files args 0 (BitVec.ofNat 32 (packSize * packHeaders + 4)) junk = some headers →
    ∀ x, (∀ st ∈ tableStores files args 0, x ∉ st.bytes) → headers x = junk x
  stores : ∀ st ∈ tableStores files args 0, st.bytes.Within st.object
  count : ∀ image, initrdMain (prog :: args.flatMap fun a => [a.1, a.2]) files junk = some image →
    (Bytes.read32 (fun x => image.getD x 0#8) 0).toNat ≤ 64
  names : ∀ image, initrdMain (prog :: args.flatMap fun a => [a.1, a.2]) files junk = some image →
    ∀ (j : Nat) (hj : j < args.length), args[j].2.length < packNameLen ∧
      ∀ k, k ≤ args[j].2.length → image.getD (4 + packSize * j + packName + k) 0#8 = args[j].2.getD k 0#8

section Safety

variable {files : List Byte → Option (List Byte)} {args : List (List Byte × List Byte)} {prog image : List Byte}
  {junk : Bytes}

/-- The files the arguments are for. -/
def packedFiles (files : List Byte → Option (List Byte)) (args : List (List Byte × List Byte)) :
    List PackedFile :=
  args.map fun a => ⟨a.1, a.2, (files a.1).getD []⟩

theorem packArgs_packedFiles : packArgs (packedFiles files args) = args := by
  rw [packArgs, packedFiles, List.map_map]
  exact List.map_id _

theorem packable_packedFiles (hfound : ∀ a ∈ args, (files a.1).isSome)
    (hshort : ∀ a ∈ args, a.2.length < packNameLen) : Packable files (packedFiles files args) := by
  constructor
  · intro f hf
    obtain ⟨a, ha, rfl⟩ := List.mem_map.mp hf
    obtain ⟨contents, hfile⟩ := Option.isSome_iff_exists.mp (hfound a ha)
    simp [hfile]
  · intro f hf
    obtain ⟨a, ha, rfl⟩ := List.mem_map.mp hf
    exact hshort a ha

/-- An image consists of the number of pairs, the table, and the contents. -/
theorem initrdMain_image
    (hrun : initrdMain (prog :: args.flatMap fun a => [a.1, a.2]) files junk = some image) :
    ∃ headers data, packTable files args 0 (BitVec.ofNat 32 (packSize * packHeaders + 4)) junk = some headers ∧
      image = (List.range 4).map (byteAt (BitVec.ofNat 32 args.length)) ++
        (List.range (packSize * packHeaders)).map headers ++ data := by
  have hpairs : pairs (args.flatMap fun a => [a.1, a.2]) = args := by
    have hargs := pairs_args (packedFiles files args)
    rwa [packArgs_packedFiles, packedFiles, List.flatMap_map] at hargs
  rw [initrdMain, List.tail_cons, hpairs] at hrun
  obtain ⟨headers, htable, hrest⟩ := Option.bind_eq_some_iff.mp hrun
  obtain ⟨data, _, himage⟩ := Option.bind_eq_some_iff.mp hrest
  exact ⟨headers, data, htable, (Option.some.inj himage).symm⟩

/-- The number and the table as they are in the image. -/
theorem image_getD {n : Word} {headers : Bytes} {data : List Byte}
    (himage : image = (List.range 4).map (byteAt n) ++ (List.range (packSize * packHeaders)).map headers ++ data) :
    Bytes.read32 (fun x => image.getD x 0#8) 0 = n ∧
      ∀ k, k < packSize * packHeaders → image.getD (4 + k) 0#8 = headers k := by
  have hbyte : ∀ (f : Nat → Byte) (m k : Nat), k < m → ((List.range m).map f).getD k 0#8 = f k := by
    intro f m k hk
    simp [List.getD_eq_getElem?_getD, hk]
  rw [List.append_assoc] at himage
  refine ⟨?_, fun k hk => ?_⟩
  · have hcount : ∀ k, k < 4 → image.getD k 0#8 = byteAt n k := by
      intro k hk
      rw [himage, List.getD_append _ _ _ _ (by simpa using hk), hbyte _ _ _ hk]
    rw [Bytes.read32, hcount 0 (by decide), hcount (0 + 1) (by decide), hcount (0 + 2) (by decide),
      hcount (0 + 3) (by decide)]
    exact ofBytes_byteAt n
  · rw [himage, List.getD_append_right _ _ _ _ (by simp), List.length_map, List.length_range,
      Nat.add_sub_cancel_left, List.getD_append _ _ _ _ (by simpa using hk), hbyte _ _ _ hk]

/-- The packer is safe exactly for up to 64 files with names of up to 63 bytes. -/
theorem packsSafely_iff (prog : List Byte) (args : List (List Byte × List Byte))
    (files : List Byte → Option (List Byte)) (junk : Bytes) (hfound : ∀ a ∈ args, (files a.1).isSome) :
    PacksSafely prog args files junk ↔ args.length ≤ 64 ∧ ∀ a ∈ args, a.2.length ≤ 63 := by
  constructor
  · intro h
    have hturn : ∀ (j : Nat) (hj : j < args.length), j < packHeaders ∧ args[j].2.length < packNameLen := by
      intro j hj
      refine turnStores_within.mp fun st hst => h.stores st ((mem_tableStores hfound).mpr ⟨j, hj, ?_⟩)
      rwa [Nat.zero_add]
    refine ⟨?_, fun a ha => ?_⟩
    · by_contra hlong
      exact Nat.lt_irrefl _ (hturn 64 (Nat.lt_of_not_le hlong)).1
    · obtain ⟨j, hj, rfl⟩ := List.getElem_of_mem ha
      exact Nat.le_of_lt_succ (hturn j hj).2
  · rintro ⟨hcount, hnames⟩
    have hshort : ∀ a ∈ args, a.2.length < packNameLen := fun a ha => Nat.lt_succ_of_le (hnames a ha)
    refine ⟨fun headers hrun x hx => packTable_beside hrun hx, fun st hst => ?_, fun image hrun => ?_,
      fun image hrun j hj => ?_⟩
    · obtain ⟨j, hj, hst⟩ := (mem_tableStores hfound).mp hst
      rw [Nat.zero_add] at hst
      exact turnStores_within.mpr ⟨Nat.lt_of_lt_of_le hj hcount, hshort _ (List.getElem_mem hj)⟩ st hst
    · obtain ⟨headers, data, _, himage⟩ := initrdMain_image hrun
      rw [(image_getD himage).1, BitVec.toNat_ofNat]
      exact Nat.le_trans (Nat.mod_le _ _) hcount
    · obtain ⟨headers, data, htable, himage⟩ := initrdMain_image hrun
      have hlen := hshort _ (List.getElem_mem hj)
      have hpackable := packable_packedFiles hfound hshort
      obtain ⟨headers', htable', _, hheaders⟩ :=
        packTable_run hpackable 0 (BitVec.ofNat 32 (packSize * packHeaders + 4)) junk
      rw [packArgs_packedFiles, htable] at htable'
      obtain rfl := Option.some.inj htable'
      have hj' : j < (packedFiles files args).length := by rwa [packedFiles, List.length_map]
      have hheader := hheaders j hj'
      have hname : (packedFiles files args)[j].name = args[j].2 := by simp [packedFiles]
      refine ⟨hlen, fun k hk => ?_⟩
      have hbyte := hheader.name k (by rw [hname]; exact hk)
      rw [Nat.zero_add, hname] at hbyte
      rw [← hbyte, Nat.add_assoc, Nat.add_assoc, ← Nat.add_assoc (packSize * j), (image_getD himage).2]
      simp only [packSize, packHeaders, packName, packNameLen] at hlen ⊢
      omega

end Safety

theorem packsSafely_iff_short :
    PacksSafely (cstr "initrd") [(cstr "f", cstr "a")] (fun _ => some [0x78#8]) fun _ => 0xFF#8 :=
  (packsSafely_iff (cstr "initrd") [(cstr "f", cstr "a")] (fun _ => some [0x78#8]) (fun _ => 0xFF#8)
    fun _ _ => rfl).mpr (by decide)

/-- The NUL behind a name of 64 bytes goes behind its field. -/
theorem not_packsSafely_long :
    ¬PacksSafely (cstr "initrd") [(cstr "f", List.replicate 64 0x61#8)] (fun _ => some [0x78#8])
      fun _ => 0xFF#8 := by
  intro h
  have hstore := h.stores ⟨.ofLen 1 65, .ofLen 1 64⟩ (List.mem_cons_self ..)
  exact absurd hstore (by decide)

end LizaOS
