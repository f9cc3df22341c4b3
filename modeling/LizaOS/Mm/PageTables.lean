-- SUMMARY: The tables of the paging code as they lie in memory: their invariant, and what an added table and a stored entry change.
import LizaOS.Machine.PageWalk
import LizaOS.Mm.Paging

/-!
# Page tables in memory

The directory, the reverse mapping and the tables are pages of the early heap, one behind the other.
`Tables` is the invariant of the paging code: for each index the directory and the reverse mapping are
both empty or name the same table, and no table serves two indices. It is about physical memory only;
through which address space the kernel gets at it does not matter here.
-/

namespace LizaOS

/-! ## Kernel pages -/

/-- Where the kernel has the frame of one of its pages. -/
def physOf (v : Word) : Nat := v.toNat - 0xC0000000

theorem toNat_sub_virtBase {v : Word} (h : 0xC0000000 ≤ v.toNat) : (v - virtBase).toNat = physOf v := by
  have hle : virtBase ≤ v := BitVec.le_def.mpr h
  rw [BitVec.toNat_sub_of_le hle]
  rfl

/-! ## Entries the code stores -/

namespace Entry

theorem frame_eq (e : Word) : frame e = (e &&& pageAlign).toNat := (toNat_and_pageAlign e).symm

theorem frame_or (a b : Word) : frame (a ||| b) = ((a &&& pageAlign) ||| (b &&& pageAlign)).toNat := by
  rw [frame_eq, BitVec.and_or_distrib_right]

theorem and_present_ne_zero {e : Word} (h : present e = true) : e &&& pageEntryPresent ≠ 0#32 :=
  and_one_ne_zero_iff.mpr h

/-- The frame of a kernel page, as `virt_to_phys` gives it. -/
theorem and_pageAlign_eq {e v : Word} (h : frame e = physOf v) (hv : 0xC0000000 ≤ v.toNat) :
    e &&& pageAlign = v - virtBase := by
  apply BitVec.eq_of_toNat_eq
  rw [← frame_eq, h, toNat_sub_virtBase hv]

/-- Flags do not touch the frame. -/
theorem frame_or_flags {e flags : Word} (h : flags.toNat < 4096) : frame (e ||| flags) = frame e := by
  have hflags : flags &&& pageAlign = 0#32 := by
    apply BitVec.eq_of_toNat_eq
    rw [toNat_and_pageAlign, BitVec.toNat_ofNat]
    omega
  rw [frame_or, hflags, BitVec.or_zero, frame_eq]

theorem present_or (a b : Word) : present (a ||| b) = (present a || present b) := by
  simp [present]

/-- The entry that `virt_to_phys` puts together from the reverse mapping and the present bit. -/
theorem present_rev {rev pde : Word} (h : present pde = true) :
    present (rev ||| (pde &&& pageEntryPresent)) = true := by
  have hp : present pageEntryPresent = true := by decide
  rw [present] at hp h
  rw [present_or, present, present, BitVec.getLsbD_and, h, hp]
  simp

theorem pageAlign_rev {rev pde : Word} (h : rev.toNat % 4096 = 0) :
    (rev ||| (pde &&& pageEntryPresent)) &&& pageAlign = rev := by
  have hle : (pde &&& pageEntryPresent).toNat ≤ pageEntryPresent.toNat := by
    rw [BitVec.toNat_and]
    exact Nat.and_le_right
  have hone : pageEntryPresent.toNat = 1 := by decide
  apply BitVec.eq_of_toNat_eq
  rw [← frame_eq, frame_or_flags (by omega), frame_of_aligned h]

theorem writable_or (a b : Word) : writable (a ||| b) = (writable a || writable b) := by
  simp [writable]

end Entry

/-- What the directory holds for the table at `t`. -/
def tableEntry (t : Word) : Word := (t - virtBase) ||| pageEntryPresent ||| pageEntryRw

/-- What `page_map_pte` makes of an entry. -/
def mappedEntry (old phys perm : Word) : Word :=
  (((old &&& ~~~pageAlign) ||| phys) ||| perm) ||| pageEntryPresent

section Entries

open Entry

variable {t old phys perm : Word}

theorem present_tableEntry (t : Word) : present (tableEntry t) = true := by
  rw [tableEntry, present_or, present_or]
  have hp : present pageEntryPresent = true := by decide
  simp [hp]

theorem writable_tableEntry (t : Word) : writable (tableEntry t) = true := by
  rw [tableEntry, writable_or]
  have hw : writable pageEntryRw = true := by decide
  simp [hw]

theorem frame_tableEntry (ht : t.toNat % 4096 = 0) (hbase : 0xC0000000 ≤ t.toNat) :
    frame (tableEntry t) = physOf t := by
  have hsub := toNat_sub_virtBase hbase
  rw [tableEntry, frame_or_flags (by decide), frame_or_flags (by decide), frame_of_aligned, hsub]
  rw [hsub]
  unfold physOf
  omega

theorem present_mappedEntry (old phys perm : Word) : present (mappedEntry old phys perm) = true := by
  rw [mappedEntry, present_or]
  have hp : present pageEntryPresent = true := by decide
  simp [hp]

theorem frame_mappedEntry (hphys : phys.toNat % 4096 = 0) (hperm : perm.toNat < 4096) :
    frame (mappedEntry old phys perm) = phys.toNat := by
  have hold : (old &&& ~~~pageAlign) &&& pageAlign = 0#32 := by
    ext i hi
    simp
  rw [mappedEntry, frame_or_flags (by decide), frame_or_flags hperm, frame_or, hold, BitVec.zero_or,
    ← frame_eq, frame_of_aligned hphys]

theorem writable_mappedEntry (h : writable perm = true) : writable (mappedEntry old phys perm) = true := by
  rw [mappedEntry, writable_or, writable_or, h]
  simp

end Entries

/-! ## The invariant -/

/-- The directory entry of index `i`. -/
def dirOf (m : Bytes) (paging : Paging) (i : Nat) : Word := pdeOf m (physOf paging.pageDirectory) i

/-- The entry of index `i` in the reverse mapping. -/
def revOf (m : Bytes) (paging : Paging) (i : Nat) : Word :=
  m.read32 (physOf paging.ptPhysToVirt + 4 * i)

/-- Both tables are empty at index `i`, or name one table on the heap below `cur`. -/
def SlotOk (m : Bytes) (paging : Paging) (cur i : Nat) : Prop :=
  (dirOf m paging i = 0#32 ∧ revOf m paging i = 0#32) ∨
  (dirOf m paging i = tableEntry (revOf m paging i) ∧ (revOf m paging i).toNat % 4096 = 0 ∧
    paging.ptPhysToVirt.toNat + 4096 ≤ (revOf m paging i).toNat ∧
    (revOf m paging i).toNat + 4096 ≤ cur)

/-- The paging structures lie on the heap from the directory to `cur`. -/
structure Tables (m : Bytes) (paging : Paging) (cur : Nat) : Prop where
  dir_mod : paging.pageDirectory.toNat % 4096 = 0
  dir_ge : 0xC0100000 ≤ paging.pageDirectory.toNat
  rev_eq : paging.ptPhysToVirt.toNat = paging.pageDirectory.toNat + 4096
  cur_mod : cur % 4096 = 0
  cur_ge : paging.pageDirectory.toNat + 8192 ≤ cur
  slot : ∀ i, i < 1024 → SlotOk m paging cur i
  distinct : ∀ i j, i < 1024 → j < 1024 → revOf m paging i ≠ 0#32 →
    revOf m paging i = revOf m paging j → i = j

/-- The page at `v` holds the directory, the reverse mapping or a table. -/
def StructureAt (m : Bytes) (paging : Paging) (v : Word) : Prop :=
  v = paging.pageDirectory ∨ v = paging.ptPhysToVirt ∨
    ∃ i, i < 1024 ∧ Entry.present (dirOf m paging i) = true ∧ v = revOf m paging i

/-- The frames of the paging structures. -/
def StructureFrames (paging : Paging) (cur x : Nat) : Prop :=
  physOf paging.pageDirectory ≤ x ∧ x < cur - 0xC0000000

namespace Tables

open Entry

variable {m m' : Bytes} {paging : Paging} {cur i j : Nat} {v : Word}

/-- The walk from the directory the code has built. -/
abbrev walk (m : Bytes) (paging : Paging) (v : Word) : Option Leaf :=
  lookup m (physOf paging.pageDirectory) v

theorem rev_frame (h : Tables m paging cur) :
    physOf paging.ptPhysToVirt = physOf paging.pageDirectory + 4096 := by
  have hdir := h.dir_ge
  have hrev := h.rev_eq
  unfold physOf
  omega

theorem present_iff (h : Tables m paging cur) (hi : i < 1024) :
    present (dirOf m paging i) = true ↔ revOf m paging i ≠ 0#32 := by
  rcases h.slot i hi with ⟨hdir, hrev⟩ | ⟨hdir, _, hlow, _⟩
  · rw [hdir, hrev]
    decide
  · rw [hdir]
    refine ⟨fun _ => ne_zero_iff_toNat.mpr (by omega), fun _ => present_tableEntry _⟩

/-- A table that is present. -/
structure Table (m : Bytes) (paging : Paging) (cur i : Nat) : Prop where
  entry : dirOf m paging i = tableEntry (revOf m paging i)
  mod : (revOf m paging i).toNat % 4096 = 0
  low : paging.pageDirectory.toNat + 8192 ≤ (revOf m paging i).toNat
  high : (revOf m paging i).toNat + 4096 ≤ cur
  frame : Entry.frame (dirOf m paging i) = physOf (revOf m paging i)
  frame_low : physOf paging.pageDirectory + 8192 ≤ physOf (revOf m paging i)
  frame_high : physOf (revOf m paging i) + 4096 ≤ cur - 0xC0000000

theorem table (h : Tables m paging cur) (hi : i < 1024) (hp : present (dirOf m paging i) = true) :
    Table m paging cur i := by
  have hge := h.dir_ge
  rcases h.slot i hi with ⟨hdir, _⟩ | ⟨hdir, hmod, hlow, hhigh⟩
  · rw [hdir] at hp
    cases hp
  · rw [h.rev_eq] at hlow
    refine ⟨hdir, hmod, by omega, hhigh, ?_, ?_, ?_⟩
    · rw [hdir]
      exact frame_tableEntry hmod (by omega)
    · unfold physOf
      omega
    · unfold physOf
      omega

theorem structureAt_inside (h : Tables m paging cur) (hv : StructureAt m paging v) :
    v.toNat % 4096 = 0 ∧ paging.pageDirectory.toNat ≤ v.toNat ∧ v.toNat + 4096 ≤ cur := by
  have hmod := h.dir_mod
  have hrev := h.rev_eq
  have hcur := h.cur_ge
  rcases hv with rfl | rfl | ⟨i, hi, hp, rfl⟩
  · omega
  · omega
  · have ht := h.table hi hp
    have hlow := ht.low
    exact ⟨ht.mod, by omega, ht.high⟩

/-- Two tables have one frame only if they are the same. -/
theorem frame_inj (h : Tables m paging cur) (hi : i < 1024) (hj : j < 1024)
    (hpi : present (dirOf m paging i) = true) (hpj : present (dirOf m paging j) = true)
    (heq : physOf (revOf m paging i) = physOf (revOf m paging j)) : i = j := by
  have hti := h.table hi hpi
  have htj := h.table hj hpj
  have hge := h.dir_ge
  have hlow := hti.low
  have hlow' := htj.low
  refine h.distinct i j hi hj ((h.present_iff hi).mp hpi) (BitVec.eq_of_toNat_eq ?_)
  unfold physOf at heq
  omega

/-! ## Stores beside the structures -/

theorem dirOf_agree {A : Nat → Prop} (hm : AgreeOff A m m')
    (hA : ∀ x, A x → ¬InWord (physOf paging.pageDirectory + 4 * i) x) :
    dirOf m' paging i = dirOf m paging i :=
  hm.read32 fun _ hk hx => hA _ hx (inWord_add hk)

theorem revOf_agree {A : Nat → Prop} (hm : AgreeOff A m m')
    (hA : ∀ x, A x → ¬InWord (physOf paging.ptPhysToVirt + 4 * i) x) :
    revOf m' paging i = revOf m paging i :=
  hm.read32 fun _ hk hx => hA _ hx (inWord_add hk)

/-- The slots of index `i` are in the frames of the structures. -/
theorem slots_inside (h : Tables m paging cur) (hi : i < 1024) {x : Nat}
    (hx : InWord (physOf paging.pageDirectory + 4 * i) x ∨ InWord (physOf paging.ptPhysToVirt + 4 * i) x) :
    StructureFrames paging cur x := by
  have hge := h.dir_ge
  have hcur := h.cur_ge
  have hrev := h.rev_frame
  unfold InWord at hx
  unfold StructureFrames physOf at *
  omega

/-- The frame of a table that is present is one of the structures', behind the reverse mapping. -/
theorem table_inside (h : Tables m paging cur) (hi : i < 1024) (hp : present (dirOf m paging i) = true)
    {x : Nat} (hx : InFrame (Entry.frame (dirOf m paging i)) x) :
    physOf paging.ptPhysToVirt + 4096 ≤ x ∧ StructureFrames paging cur x := by
  have ht := h.table hi hp
  have hlow := ht.frame_low
  have hhigh := ht.frame_high
  have hrev := h.rev_frame
  rw [ht.frame] at hx
  obtain ⟨hx, hx'⟩ := hx
  refine ⟨by omega, by omega, by omega⟩

theorem word_inFrame {f j x : Nat} (hj : j < 1024) (hx : InWord (f + 4 * j) x) : InFrame f x := by
  unfold InWord at hx
  unfold InFrame
  omega

/-- Stores beside the structures leave every walk as it is. -/
theorem steady (h : Tables m paging cur) {A : Nat → Prop}
    (hA : ∀ x, A x → ¬StructureFrames paging cur x) (v : Word) :
    Steady m (physOf paging.pageDirectory) A v := by
  refine Steady.of_entries (fun x hx hAx => hA x hAx ?_) fun hp x hx hAx => hA x hAx ?_
  · exact h.slots_inside (dirIndex_lt v) (.inl hx)
  · exact (h.table_inside (dirIndex_lt v) hp (word_inFrame (tableIndex_lt v) hx)).2

/-- They leave the slots as they are. -/
theorem agree_slots (h : Tables m paging cur) {A : Nat → Prop} (hm : AgreeOff A m m')
    (hA : ∀ x, A x → ¬StructureFrames paging cur x) (hi : i < 1024) :
    dirOf m' paging i = dirOf m paging i ∧ revOf m' paging i = revOf m paging i :=
  ⟨dirOf_agree hm fun x hx hin => hA x hx (h.slots_inside hi (.inl hin)),
    revOf_agree hm fun x hx hin => hA x hx (h.slots_inside hi (.inr hin))⟩

theorem agree (h : Tables m paging cur) {A : Nat → Prop} (hm : AgreeOff A m m')
    (hA : ∀ x, A x → ¬StructureFrames paging cur x) : Tables m' paging cur := by
  have hslots := fun i hi => h.agree_slots hm hA (i := i) hi
  refine { h with slot := fun i hi => ?_, distinct := fun i j hi hj => ?_ }
  · unfold SlotOk
    rw [(hslots i hi).1, (hslots i hi).2]
    exact h.slot i hi
  · rw [(hslots i hi).2, (hslots j hj).2]
    exact h.distinct i j hi hj

/-- Where the slots have not changed, the structures are where they were. -/
theorem structureAt_congr
    (hslots : ∀ i, i < 1024 → dirOf m' paging i = dirOf m paging i ∧ revOf m' paging i = revOf m paging i)
    (hv : StructureAt m' paging v) : StructureAt m paging v := by
  rcases hv with hv | hv | ⟨i, hi, hp, hv⟩
  · exact .inl hv
  · exact .inr (.inl hv)
  · obtain ⟨hdir, hrev⟩ := hslots i hi
    exact .inr (.inr ⟨i, hi, hdir ▸ hp, hv.trans hrev⟩)

/-- The tables are what they are whether they are in use or not. -/
theorem enabled (h : Tables m paging cur) (b : Bool) :
    Tables m { paging with kernelPagingEnabled := b } cur :=
  ⟨h.dir_mod, h.dir_ge, h.rev_eq, h.cur_mod, h.cur_ge, h.slot, h.distinct⟩

/-- The heap above the structures may grow. -/
theorem mono (h : Tables m paging cur) {cur' : Nat} (hle : cur ≤ cur') (hmod : cur' % 4096 = 0) :
    Tables m paging cur' := by
  refine { h with cur_mod := hmod, cur_ge := Nat.le_trans h.cur_ge hle, slot := fun i hi => ?_ }
  rcases h.slot i hi with hempty | ⟨hdir, ha, hlow, hhigh⟩
  · exact .inl hempty
  · exact .inr ⟨hdir, ha, hlow, Nat.le_trans hhigh hle⟩

end Tables

/-! ## Entries of the tables -/

/-- Entry `j` of the table of index `i`. A table that is not present has empty entries. -/
def entryOf (m : Bytes) (paging : Paging) (i j : Nat) : Word :=
  if Entry.present (dirOf m paging i) then pteOf m (dirOf m paging i) j else 0#32

/-- Where the entry of `virt` is in memory. -/
def pteAt (m : Bytes) (paging : Paging) (virt : Word) : Nat :=
  Entry.frame (dirOf m paging (dirIndex virt)) + 4 * tableIndex virt

/-- The bytes `page_map` stores to when it makes the table of index `i` in the frame at `f`: the frame,
the two slots, and what `S` says the screen is mapped to. -/
def TableStores (paging : Paging) (i f : Nat) (S : Nat → Prop) (x : Nat) : Prop :=
  InFrame f x ∨ InWord (physOf paging.pageDirectory + 4 * i) x ∨
    InWord (physOf paging.ptPhysToVirt + 4 * i) x ∨ S x

/-- The frames the processor looks entries up in: the directory and the tables that are present. -/
def WalkFrames (m : Bytes) (paging : Paging) (x : Nat) : Prop :=
  InFrame (physOf paging.pageDirectory) x ∨
    ∃ i, i < 1024 ∧ Entry.present (dirOf m paging i) = true ∧ InFrame (Entry.frame (dirOf m paging i)) x

/-- There is no table for index `i` yet, the page at `t` may become one, and the screen is off what
the processor looks up. -/
structure TableSpace (m : Bytes) (paging : Paging) (cur i : Nat) (t : Word) (S : Nat → Prop) : Prop where
  index : i < 1024
  absent : Entry.present (dirOf m paging i) = false
  mod : t.toNat % 4096 = 0
  above : cur ≤ t.toNat
  walked : ∀ x, S x → ¬WalkFrames m paging x

/-- The screen is also off the reverse mapping and the page for the table. -/
structure TableRoom (m : Bytes) (paging : Paging) (cur i : Nat) (t : Word) (S : Nat → Prop) : Prop
    extends TableSpace m paging cur i t S where
  screen_rev : ∀ x, S x → ¬InFrame (physOf paging.ptPhysToVirt) x
  screen_new : ∀ x, S x → ¬InFrame (physOf t) x

theorem TableSpace.frame {m : Bytes} {paging : Paging} {cur i : Nat} {t : Word} {S : Nat → Prop}
    (h : TableSpace m paging cur i t S) : cur - 0xC0000000 ≤ physOf t := Nat.sub_le_sub_right h.above _

/-- An empty table at `t` has been made for index `i`. -/
structure TableMade (m m' : Bytes) (paging : Paging) (i : Nat) (t : Word) (S : Nat → Prop) : Prop where
  agree : AgreeOff (TableStores paging i (physOf t) S) m m'
  zero : ∀ j, j < 1024 → m'.read32 (physOf t + 4 * j) = 0#32
  dir : dirOf m' paging i = tableEntry t
  rev : revOf m' paging i = t

/-- The entry of `virt` has been overwritten with `e`. -/
structure EntryStored (m m' : Bytes) (paging : Paging) (virt e : Word) : Prop where
  agree : AgreeOff (InWord (pteAt m paging virt)) m m'
  read : m'.read32 (pteAt m paging virt) = e

namespace Tables

open Entry

variable {m m' : Bytes} {paging : Paging} {cur i j : Nat} {v virt t e : Word} {S : Nat → Prop}

theorem entryOf_present (hp : present (dirOf m paging i) = true) :
    entryOf m paging i j = pteOf m (dirOf m paging i) j := if_pos hp

theorem entryOf_absent (hp : present (dirOf m paging i) = false) : entryOf m paging i j = 0#32 :=
  if_neg (by simp [hp])

theorem walk_eq (m : Bytes) (paging : Paging) (v : Word) :
    walk m paging v = leafOf (dirOf m paging (dirIndex v)) (entryOf m paging (dirIndex v) (tableIndex v)) := by
  cases hp : present (dirOf m paging (dirIndex v)) with
  | false => exact (leafOf_none hp).trans (leafOf_none hp).symm
  | true =>
      rw [entryOf_present hp]
      rfl

/-! ## A new table -/

theorem walkFrames_inside (h : Tables m paging cur) {x : Nat} (hx : WalkFrames m paging x) :
    StructureFrames paging cur x := by
  have hge := h.dir_ge
  have hcur := h.cur_ge
  have hdir : physOf paging.pageDirectory + 0xC0000000 = paging.pageDirectory.toNat :=
    Nat.sub_add_cancel (by omega)
  rcases hx with ⟨hlow, hhigh⟩ | ⟨k, hk, hp, hx⟩
  · exact ⟨hlow, by omega⟩
  · exact (h.table_inside hk hp hx).2

theorem rev_inside (h : Tables m paging cur) {x : Nat} (hx : InFrame (physOf paging.ptPhysToVirt) x) :
    StructureFrames paging cur x := by
  have hge := h.dir_ge
  have hcur := h.cur_ge
  have hrev := h.rev_frame
  have hdir : physOf paging.pageDirectory + 0xC0000000 = paging.pageDirectory.toNat :=
    Nat.sub_add_cancel (by omega)
  obtain ⟨hlow, hhigh⟩ := hx
  exact ⟨by omega, by omega⟩

/-- The new table is one of the structures. -/
theorem new_inside (h : Tables m paging cur) (hn : TableSpace m paging cur i t S) {x : Nat}
    (hx : InFrame (physOf t) x) : StructureFrames paging (t.toNat + 4096) x := by
  have hge := h.dir_ge
  have hcur := h.cur_ge
  have habove := hn.above
  have hnew : physOf t + 0xC0000000 = t.toNat := Nat.sub_add_cancel (by omega)
  have hdir : physOf paging.pageDirectory + 0xC0000000 = paging.pageDirectory.toNat :=
    Nat.sub_add_cancel (by omega)
  obtain ⟨hlow, hhigh⟩ := hx
  exact ⟨by omega, by omega⟩

/-- What is stored while a table is made is in the new page, in the slots of its index, or on the
screen. -/
theorem make_apart (h : Tables m paging cur) (hn : TableSpace m paging cur i t S) {k x : Nat}
    (hk : k < 1024) (hki : k ≠ i) (hA : TableStores paging i (physOf t) S x)
    (hx : InWord (physOf paging.pageDirectory + 4 * k) x ∨ InWord (physOf paging.ptPhysToVirt + 4 * k) x) :
    S x := by
  have hi := hn.index
  have hf := hn.frame
  have hrev := h.rev_frame
  have hhigh := (h.slots_inside hk hx).2
  rcases hA with hA | hA | hA | hA
  · unfold InFrame at hA
    omega
  · unfold InWord at hx hA
    omega
  · unfold InWord at hx hA
    omega
  · exact hA

/-- The directory entries of the other indices are not stored to while a table is made. -/
theorem make_apart_dir (h : Tables m paging cur) (hn : TableSpace m paging cur i t S) {k x : Nat}
    (hk : k < 1024) (hki : k ≠ i) (hA : TableStores paging i (physOf t) S x) :
    ¬InWord (physOf paging.pageDirectory + 4 * k) x := fun hx =>
  hn.walked x (make_apart h hn hk hki hA (.inl hx)) (.inl (word_inFrame hk hx))

/-- Nor are their slots in the reverse mapping. -/
theorem make_apart_rev (h : Tables m paging cur) (hn : TableRoom m paging cur i t S) {k x : Nat}
    (hk : k < 1024) (hki : k ≠ i) (hA : TableStores paging i (physOf t) S x) :
    ¬InWord (physOf paging.ptPhysToVirt + 4 * k) x := fun hx =>
  hn.screen_rev x (make_apart h hn.toTableSpace hk hki hA (.inr hx)) (word_inFrame hk hx)

/-- Nor are the other tables. -/
theorem make_apart_table (h : Tables m paging cur) (hn : TableSpace m paging cur i t S) {k x : Nat}
    (hk : k < 1024) (hp : present (dirOf m paging k) = true) (hA : TableStores paging i (physOf t) S x) :
    ¬InFrame (Entry.frame (dirOf m paging k)) x := by
  have hi := hn.index
  have hf := hn.frame
  have hrev := h.rev_frame
  intro hx
  obtain ⟨hlow, hin⟩ := h.table_inside hk hp hx
  have hhigh := hin.2
  rcases hA with hA | hA | hA | hA
  · unfold InFrame at hA
    omega
  · unfold InWord at hA
    omega
  · unfold InWord at hA
    omega
  · exact hn.walked x hA (.inr ⟨k, hk, hp, hx⟩)

/-- While a table is made, the walks through other tables do not change. -/
theorem steady_make (h : Tables m paging cur) (hn : TableSpace m paging cur i t S) (hv : dirIndex v ≠ i) :
    Steady m (physOf paging.pageDirectory) (TableStores paging i (physOf t) S) v := by
  refine Steady.of_entries (fun x hx hA => ?_) fun hp x hx hA => ?_
  · exact make_apart_dir h hn (dirIndex_lt v) hv hA hx
  · exact make_apart_table h hn (dirIndex_lt v) hp hA (word_inFrame (tableIndex_lt v) hx)

/-- The slots of the other indices are as they were. -/
theorem made_slots (h : Tables m paging cur) (hn : TableRoom m paging cur i t S)
    (hm : TableMade m m' paging i t S) {k : Nat} (hk : k < 1024) (hki : k ≠ i) :
    dirOf m' paging k = dirOf m paging k ∧ revOf m' paging k = revOf m paging k := by
  have hdir := fun x hA => make_apart_dir h hn.toTableSpace (x := x) hk hki hA
  have hrev := fun x hA => make_apart_rev h hn (x := x) hk hki hA
  exact ⟨dirOf_agree hm.agree hdir, revOf_agree hm.agree hrev⟩

theorem made (h : Tables m paging cur) (hn : TableRoom m paging cur i t S)
    (hm : TableMade m m' paging i t S) : Tables m' paging (t.toNat + 4096) := by
  have hge := h.dir_ge
  have hcurge := h.cur_ge
  have hrev := h.rev_eq
  have hmod := hn.mod
  have hcur := hn.above
  have hslots := fun k hk hki => made_slots h hn hm (k := k) hk hki
  have hbelow : ∀ k, k < 1024 → revOf m paging k ≠ t := by
    intro k hk heq
    rcases h.slot k hk with ⟨_, hzero⟩ | ⟨_, _, _, hhigh⟩
    · rw [hzero] at heq
      rw [← heq] at hcur
      simp at hcur
      omega
    · rw [heq] at hhigh
      omega
  refine { h with cur_mod := by omega, cur_ge := by omega, slot := fun k hk => ?_, distinct := fun k l hk hl => ?_ }
  · by_cases hki : k = i
    · rw [hki]
      exact .inr ⟨by rw [hm.dir, hm.rev], by rw [hm.rev]; exact hmod, by rw [hm.rev]; omega, by rw [hm.rev]⟩
    · obtain ⟨hdir, hrev'⟩ := hslots k hk hki
      unfold SlotOk
      rw [hdir, hrev']
      rcases h.slot k hk with hempty | ⟨hentry, hmod, hlow, hhigh⟩
      · exact .inl hempty
      · exact .inr ⟨hentry, hmod, hlow, by omega⟩
  · intro hne heq
    by_cases hki : k = i <;> by_cases hli : l = i
    · rw [hki, hli]
    · rw [hki, hm.rev, (hslots l hl hli).2] at heq
      exact absurd heq.symm (hbelow l hl)
    · rw [hli, hm.rev, (hslots k hk hki).2] at heq
      exact absurd heq (hbelow k hk)
    · rw [(hslots k hk hki).2] at hne heq
      rw [(hslots l hl hli).2] at heq
      exact h.distinct k l hk hl hne heq

theorem present_made (hm : TableMade m m' paging i t S) : present (dirOf m' paging i) = true := by
  rw [hm.dir]
  exact present_tableEntry t

/-- A new table is empty, and the others have the entries they had. -/
theorem entryOf_made (h : Tables m paging cur) (hn : TableRoom m paging cur i t S)
    (hm : TableMade m m' paging i t S) {k : Nat} (hk : k < 1024) (hj : j < 1024) :
    entryOf m' paging k j = entryOf m paging k j := by
  by_cases hki : k = i
  · subst hki
    have hge := h.dir_ge
    have hcurge := h.cur_ge
    have hcur := hn.above
    have hframe := frame_tableEntry hn.mod (by omega)
    rw [entryOf_absent hn.absent, entryOf_present (present_made hm), hm.dir, pteOf, hframe]
    exact hm.zero j hj
  · have hdir := (made_slots h hn hm hk hki).1
    unfold entryOf
    rw [hdir]
    cases hp : present (dirOf m paging k) with
    | false => rfl
    | true =>
        refine hm.agree.read32 fun n hn' hA => ?_
        exact make_apart_table h hn.toTableSpace hk hp hA (word_inFrame hj (inWord_add hn'))

/-- A new table maps nothing. -/
theorem walk_made (h : Tables m paging cur) (hn : TableRoom m paging cur i t S)
    (hm : TableMade m m' paging i t S) (v : Word) : walk m' paging v = walk m paging v := by
  rw [walk_eq, walk_eq, entryOf_made h hn hm (dirIndex_lt v) (tableIndex_lt v)]
  by_cases hv : dirIndex v = i
  · rw [hv, entryOf_absent hn.absent, leafOf_none hn.absent]
    exact leafOf_absent (by decide)
  · rw [(made_slots h hn hm (dirIndex_lt v) hv).1]

/-! ## A stored entry -/

theorem pteAt_inFrame (m : Bytes) (paging : Paging) (virt : Word) {x : Nat}
    (hx : InWord (pteAt m paging virt) x) : InFrame (Entry.frame (dirOf m paging (dirIndex virt))) x :=
  word_inFrame (tableIndex_lt virt) hx

/-- A store to the entry of another page does not change a walk. -/
theorem steady_store (h : Tables m paging cur) (hp : present (dirOf m paging (dirIndex virt)) = true)
    (hv : pageOf v ≠ pageOf virt) :
    Steady m (physOf paging.pageDirectory) (InWord (pteAt m paging virt)) v := by
  have hrev := h.rev_frame
  refine Steady.of_entries (fun x hx hA => ?_) fun hpv x hx hA => ?_
  · have hlow := (h.table_inside (dirIndex_lt virt) hp (pteAt_inFrame m paging virt hA)).1
    have hlt := dirIndex_lt v
    unfold InWord at hx
    omega
  · have hframe := (h.table (dirIndex_lt v) hpv).frame
    have hframe' := (h.table (dirIndex_lt virt) hp).frame
    by_cases hi : dirIndex v = dirIndex virt
    · -- one table, two entries
      have hj : tableIndex v ≠ tableIndex virt := fun hj => hv (pageOf_inj.mpr ⟨hi, hj⟩)
      rw [hi] at hx
      unfold InWord pteAt dirOf at *
      omega
    · have hne : physOf (revOf m paging (dirIndex v)) ≠ physOf (revOf m paging (dirIndex virt)) :=
        fun heq => hi (h.frame_inj (dirIndex_lt v) (dirIndex_lt virt) hpv hp heq)
      have hin := word_inFrame (tableIndex_lt v) hx
      have hin' := pteAt_inFrame m paging virt hA
      have hmod := Entry.frame_mod (dirOf m paging (dirIndex v))
      have hmod' := Entry.frame_mod (dirOf m paging (dirIndex virt))
      unfold InFrame dirOf at *
      omega

theorem stored_slots (h : Tables m paging cur) (hp : present (dirOf m paging (dirIndex virt)) = true)
    (hm : EntryStored m m' paging virt e) {k : Nat} (hk : k < 1024) :
    dirOf m' paging k = dirOf m paging k ∧ revOf m' paging k = revOf m paging k := by
  have hrev := h.rev_frame
  have hlow : ∀ x, InWord (pteAt m paging virt) x → physOf paging.ptPhysToVirt + 4096 ≤ x := fun x hx =>
    (h.table_inside (dirIndex_lt virt) hp (pteAt_inFrame m paging virt hx)).1
  refine ⟨dirOf_agree hm.agree fun x hx hin => ?_, revOf_agree hm.agree fun x hx hin => ?_⟩ <;>
  · have hx' := hlow x hx
    unfold InWord at hin
    omega

theorem stored (h : Tables m paging cur) (hp : present (dirOf m paging (dirIndex virt)) = true)
    (hm : EntryStored m m' paging virt e) : Tables m' paging cur := by
  have hslots := fun k hk => stored_slots h hp hm (k := k) hk
  refine { h with slot := fun k hk => ?_, distinct := fun k l hk hl => ?_ }
  · unfold SlotOk
    rw [(hslots k hk).1, (hslots k hk).2]
    exact h.slot k hk
  · rw [(hslots k hk).2, (hslots l hl).2]
    exact h.distinct k l hk hl

/-- Only the entry of `virt` has changed. -/
theorem entryOf_stored (h : Tables m paging cur) (hp : present (dirOf m paging (dirIndex virt)) = true)
    (hm : EntryStored m m' paging virt e) (hi : i < 1024) (hj : j < 1024) :
    entryOf m' paging i j =
      if i = dirIndex virt ∧ j = tableIndex virt then e else entryOf m paging i j := by
  have hdir := (stored_slots h hp hm hi).1
  split
  · rename_i heq
    obtain ⟨rfl, rfl⟩ := heq
    rw [entryOf_present (by rw [hdir]; exact hp), hdir]
    exact hm.read
  · rename_i hne
    unfold entryOf
    rw [hdir]
    cases hpi : present (dirOf m paging i) with
    | false => rfl
    | true =>
        refine hm.agree.read32 fun n hn hx => ?_
        have hframe := (h.table hi hpi).frame
        have hframe' := (h.table (dirIndex_lt virt) hp).frame
        have hjv := tableIndex_lt virt
        by_cases hii : i = dirIndex virt
        · subst hii
          unfold InWord pteAt at hx
          omega
        · have hapart : physOf (revOf m paging i) ≠ physOf (revOf m paging (dirIndex virt)) :=
            fun heq => hii (h.frame_inj hi (dirIndex_lt virt) hpi hp heq)
          have hmod := Entry.frame_mod (dirOf m paging i)
          have hmod' := Entry.frame_mod (dirOf m paging (dirIndex virt))
          unfold InWord pteAt at hx
          omega

theorem walk_stored (h : Tables m paging cur) (hp : present (dirOf m paging (dirIndex virt)) = true)
    (hm : EntryStored m m' paging virt e) (v : Word) :
    walk m' paging v =
      if pageOf v = pageOf virt then leafOf (dirOf m paging (dirIndex virt)) e else walk m paging v := by
  rw [walk_eq, walk_eq, entryOf_stored h hp hm (dirIndex_lt v) (tableIndex_lt v),
    (stored_slots h hp hm (dirIndex_lt v)).1]
  by_cases hv : pageOf v = pageOf virt
  · rw [if_pos (pageOf_inj.mp hv), if_pos hv, (pageOf_inj.mp hv).1]
  · rw [if_neg fun heq => hv (pageOf_inj.mpr heq), if_neg hv]

/-! ## A mapped page -/

/-- What a call of `page_map` makes of the tables: one entry is new, and no table is lost. -/
structure Mapped (m m' : Bytes) (paging : Paging) (cur' : Nat) (virt phys perm : Word) : Prop where
  tables : Tables m' paging cur'
  present : present (dirOf m' paging (dirIndex virt)) = true
  entry : ∀ i j, i < 1024 → j < 1024 → entryOf m' paging i j =
    if i = dirIndex virt ∧ j = tableIndex virt then mappedEntry (entryOf m paging i j) phys perm
    else entryOf m paging i j
  kept : ∀ i, i < 1024 → (i = dirIndex virt → Entry.present (dirOf m paging i) = true) →
    dirOf m' paging i = dirOf m paging i ∧ revOf m' paging i = revOf m paging i
  walk : ∀ v, walk m' paging v =
    if pageOf v = pageOf virt then some {
      frame := phys.toNat
      writable := Entry.writable (mappedEntry (entryOf m paging (dirIndex virt) (tableIndex virt)) phys perm) }
    else Tables.walk m paging v

section Mapped

variable {phys perm : Word} (hphys : phys.toNat % 4096 = 0) (hperm : perm.toNat < 4096)

include hphys hperm

/-- The page a new entry maps. -/
theorem leafOf_mapped (t old : Word) : leafOf (tableEntry t) (mappedEntry old phys perm) =
    some { frame := phys.toNat, writable := Entry.writable (mappedEntry old phys perm) } := by
  rw [leafOf_some (present_tableEntry t) (present_mappedEntry old phys perm), frame_mappedEntry hphys hperm,
    writable_tableEntry, Bool.true_and]

theorem mapped_stored (h : Tables m paging cur) (hp : Entry.present (dirOf m paging (dirIndex virt)) = true)
    (hm : EntryStored m m' paging virt
      (mappedEntry (entryOf m paging (dirIndex virt) (tableIndex virt)) phys perm)) :
    Mapped m m' paging cur virt phys perm := by
  have hlt := dirIndex_lt virt
  have hslots := fun i hi => stored_slots h hp hm (k := i) hi
  refine ⟨h.stored hp hm, ?_, fun i j hi hj => ?_, fun i hi _ => hslots i hi, fun v => ?_⟩
  · rw [(hslots _ hlt).1]
    exact hp
  · rw [entryOf_stored h hp hm hi hj]
    split
    · rename_i heq
      rw [heq.1, heq.2]
    · rfl
  · rw [walk_stored h hp hm v, (h.table hlt hp).entry, leafOf_mapped hphys hperm]

theorem mapped_made {m₁ : Bytes} {t : Word} {S : Nat → Prop} (h : Tables m paging cur)
    (hn : TableRoom m paging cur (dirIndex virt) t S) (hm : TableMade m m₁ paging (dirIndex virt) t S)
    (hs : EntryStored m₁ m' paging virt
      (mappedEntry (entryOf m₁ paging (dirIndex virt) (tableIndex virt)) phys perm)) :
    Mapped m m' paging (t.toNat + 4096) virt phys perm := by
  have hmapped := mapped_stored hphys hperm (h.made hn hm) (present_made hm) hs
  have hentry := fun i j hi hj => entryOf_made h hn hm (k := i) (j := j) hi hj
  refine ⟨hmapped.tables, hmapped.present, fun i j hi hj => ?_, fun i hi hp => ?_, fun v => ?_⟩
  · rw [hmapped.entry i j hi hj, hentry i j hi hj]
  · have hne : i ≠ dirIndex virt := by
      intro heq
      have hpi := hp heq
      rw [heq, hn.absent] at hpi
      cases hpi
    have hslots := made_slots h hn hm hi hne
    have hkept := hmapped.kept i hi fun heq => absurd heq hne
    exact ⟨hkept.1.trans hslots.1, hkept.2.trans hslots.2⟩
  · rw [hmapped.walk v, walk_made h hn hm v, hentry _ _ (dirIndex_lt virt) (tableIndex_lt virt)]

end Mapped

end Tables

end LizaOS
