-- SUMMARY: Inode records in memory: storing fields one after the other and reading them back, and the inodes of directories.
import LizaOS.Drivers.Ramdisk
import LizaOS.Libc.StdioRun
import LizaOS.Libc.StringRun
import LizaOS.Mm.EarlyHeap

/-!
# Inodes in memory

`storeFields` writes words into one record. What it leaves is `writeFields`, which is read back field
by field; a record is otherwise known by its extent only.
-/

namespace LizaOS

open Exec

/-! ## Fields of a record -/

/-- The memory with the fields of the record at `p` stored in order. -/
def writeFields (m : Bytes) (p : Nat) (fields : List (Nat × Word)) : Bytes :=
  fields.foldl (fun m f => m.write32 (p + f.1) f.2) m

/-- The offsets of the fields. -/
def offsets (fields : List (Nat × Word)) : List Nat := fields.map Prod.fst

/-- The fields lie in the part of an inode behind its name. -/
def FieldsInside (fields : List (Nat × Word)) : Prop :=
  ∀ o ∈ offsets fields, inodeNameLen ≤ o ∧ o + 4 ≤ inodeSize

/-- No two fields overlap. -/
def FieldsApart (fields : List (Nat × Word)) : Prop :=
  (offsets fields).Pairwise fun o o' => o + 4 ≤ o' ∨ o' + 4 ≤ o

/-- The memory holds the fields of the record at `p`. -/
def HasFields (m : Bytes) (p : Nat) (fields : List (Nat × Word)) : Prop :=
  ∀ f ∈ fields, m.read32 (p + f.1) = f.2

section Fields

variable {m m' : Bytes} {p x : Nat} {fields : List (Nat × Word)}

@[simp] theorem writeFields_cons (m : Bytes) (p : Nat) (f : Nat × Word) (fields : List (Nat × Word)) :
    writeFields m p (f :: fields) = writeFields (m.write32 (p + f.1) f.2) p fields := rfl

theorem writeFields_append (m : Bytes) (p : Nat) (fs gs : List (Nat × Word)) :
    writeFields m p (fs ++ gs) = writeFields (writeFields m p fs) p gs :=
  List.foldl_append ..

/-- A byte in none of the fields is left alone. -/
theorem writeFields_other (h : ∀ f ∈ fields, x < p + f.1 ∨ p + f.1 + 4 ≤ x) :
    writeFields m p fields x = m x := by
  induction fields generalizing m with
  | nil => rfl
  | cons f fields ih =>
      rw [writeFields_cons, ih fun g hg => h g (List.mem_cons_of_mem _ hg)]
      exact Bytes.write32_other (h f (List.mem_cons_self ..))

/-- The name of an inode and everything outside it are left alone. -/
theorem writeFields_outside (hf : FieldsInside fields) (h : x < p + inodeNameLen ∨ p + inodeSize ≤ x) :
    writeFields m p fields x = m x := by
  refine writeFields_other fun f hmem => ?_
  have hin := hf f.1 (List.mem_map_of_mem hmem)
  omega

/-- The fields read back. -/
theorem hasFields_writeFields (ha : FieldsApart fields) : HasFields (writeFields m p fields) p fields := by
  induction fields generalizing m with
  | nil => exact fun f hf => absurd hf (List.not_mem_nil)
  | cons g fields ih =>
      rw [FieldsApart, offsets, List.map_cons, List.pairwise_cons] at ha
      intro f hf
      rw [writeFields_cons]
      rcases List.mem_cons.mp hf with rfl | hmem
      · have hkept : (writeFields (m.write32 (p + f.1) f.2) p fields).read32 (p + f.1) =
            (m.write32 (p + f.1) f.2).read32 (p + f.1) := by
          refine Bytes.read32_congr fun y hy hy' => writeFields_other fun g hg => ?_
          have hap := ha.1 g.1 (List.mem_map_of_mem hg)
          omega
        rw [hkept, Bytes.read32_write32_same]
      · exact ih ha.2 f hmem

theorem HasFields.congr (h : HasFields m p fields) (hf : FieldsInside fields)
    (heq : ∀ x, p + inodeNameLen ≤ x → x < p + inodeSize → m' x = m x) : HasFields m' p fields := by
  intro f hmem
  have hin := hf f.1 (List.mem_map_of_mem hmem)
  rw [← h f hmem]
  exact Bytes.read32_congr fun x hx hx' => heq x (by omega) (by omega)

end Fields

/-! ## Storing fields -/

/-- The state with other contents of RAM. -/
def Kernel.withRam (s : Kernel Flat) (r : Bytes) : Kernel Flat := { s with mem := { s.mem with ram := r } }

section Store

variable {s s' : Kernel Flat} {node : Word} {obj : Option Extent} {fields : List (Nat × Word)}

@[simp] theorem withRam_ram (s : Kernel Flat) (r : Bytes) : (s.withRam r).mem.ram = r := rfl
@[simp] theorem withRam_ramdisk (s : Kernel Flat) (r : Bytes) : (s.withRam r).ramdisk = s.ramdisk := rfl
@[simp] theorem withRam_strayed (s : Kernel Flat) (r : Bytes) : (s.withRam r).strayed = s.strayed := rfl

@[simp] theorem withRam_withRam (s : Kernel Flat) (r r' : Bytes) :
    (s.withRam r).withRam r' = s.withRam r' := rfl

@[simp] theorem withRam_self (s : Kernel Flat) : s.withRam s.mem.ram = s := rfl

theorem copied_eq_withRam (s : Kernel Flat) (d : Word) (f : Nat → Byte) (n : Nat) :
    copied s d f n = s.withRam (s.mem.ram.fill d.toNat n f) := rfl

theorem storeFields_run (hfit : ∀ f ∈ fields, node.toNat + f.1 + 4 ≤ 2 ^ 32)
    (hin : ∀ f ∈ fields, Within obj (node + BitVec.ofNat 32 f.1) 4) :
    storeFields node obj fields s =
      .ok ((), s.withRam (writeFields s.mem.ram node.toNat fields)) := by
  induction fields generalizing s with
  | nil => rfl
  | cons f fields ih =>
      have hlt := hfit f (List.mem_cons_self ..)
      have haddr : (node + BitVec.ofNat 32 f.1).toNat = node.toNat + f.1 := toNat_add_ofNat (by omega)
      have hstore := store32_run (s := s) (w := f.2) (hin f (List.mem_cons_self ..))
      have hram : (s.mem.setWord (node + BitVec.ofNat 32 f.1) f.2).ram =
          s.mem.ram.write32 (node.toNat + f.1) f.2 := by
        rw [Flat.setWord_ram (by omega), haddr]
      have hrest := ih (s := { s with mem := s.mem.setWord (node + BitVec.ofNat 32 f.1) f.2 })
        (fun g hg => hfit g (List.mem_cons_of_mem _ hg)) (fun g hg => hin g (List.mem_cons_of_mem _ hg))
      have hbind : storeFields node obj (f :: fields) s =
          storeFields node obj fields { s with mem := s.mem.setWord (node + BitVec.ofNat 32 f.1) f.2 } :=
        bind_run hstore
      rw [hbind, hrest, writeFields_cons, hram]
      rfl

theorem storeFields_remembers (node : Word) (obj : Option Extent) (fields : List (Nat × Word)) :
    Remembers (storeFields node obj fields : K Flat Unit) :=
  Remembers.forM fun f => Remembers.store32 _ f.2 obj

theorem storeFields_clean (h : storeFields node obj fields s = .ok ((), s')) (hs : s'.strayed = false) :
    ∀ f ∈ fields, Within obj (node + BitVec.ofNat 32 f.1) 4 := by
  induction fields generalizing s with
  | nil => exact fun f hf => absurd hf (List.not_mem_nil)
  | cons f fields ih =>
      obtain ⟨_, s₁, hstore, hs₁, hrest⟩ := clean_bind (x := store32 _ f.2 obj) h hs fun _ =>
        storeFields_remembers node obj fields
      intro g hg
      rcases List.mem_cons.mp hg with rfl | hmem
      · exact (store32_clean hstore hs₁).1
      · exact ih hrest g hmem

end Store

/-! ## Directories -/

/-- An inode record in memory that does not wrap. -/
structure IsDirectory (sym : RamdiskSymbols) (m : Bytes) (p : Word) : Prop where
  fits : p.toNat + inodeSize ≤ 2 ^ 32
  fields : HasFields m p.toNat (directoryFields sym)

theorem offsets_directoryFields (sym : RamdiskSymbols) : offsets (directoryFields sym) =
    [148, 144, 136, 132, 128, 140, 156, 160, 164, 168, 172, 176, 180, 152] := rfl

theorem directoryFields_inside (sym : RamdiskSymbols) : FieldsInside (directoryFields sym) := by
  rw [FieldsInside, offsets_directoryFields]
  decide

theorem directoryFields_apart (sym : RamdiskSymbols) : FieldsApart (directoryFields sym) := by
  rw [FieldsApart, offsets_directoryFields]
  decide

end LizaOS
