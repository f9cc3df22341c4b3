-- SUMMARY: What a turn of the listing loop reads and prints, and exactly when a file is shown as it is.
import LizaOS.Drivers.RamdiskDirectory
import LizaOS.Drivers.RamdiskRead
import LizaOS.Drivers.RamdiskSafety
import LizaOS.Kernel.Main
import Mathlib.Data.List.GetD

/-!
# Listing the root directory

Every turn of the loop comes back with the file system as it was mounted, so what a turn shows depends on
the file and on the buffer alone. A file is copied to the buffer without a NUL behind it; the line that is
printed ends at the first NUL in the buffer or beyond it.
-/

namespace LizaOS

open Exec

/-! ## The setting -/

/-- The stack buffer. -/
def bufExtent (buf : Word) : Extent := .ofLen buf.toNat bufLen

/-- The stack buffer lies apart from the image, the inodes and the driver's global. -/
structure StackBuffer (sym : RamdiskSymbols) (addr size : Word) (a : Alloc) (n : Nat) (buf : Word) : Prop where
  ne : buf ≠ 0#32
  fits : buf.toNat + bufLen ≤ 2 ^ 32
  image : (bufExtent buf).Apart (imageExtent addr size)
  dentry : (bufExtent buf).Apart sym.dentryExtent
  inodes : ∀ x, InodeByte a n x → x ∉ bufExtent buf

/-- The contents of file `j` in the mounted image. -/
def fileBytes (m : Bytes) (addr : Word) (n j : Nat) : List Byte :=
  (List.range (fileLength m addr j).toNat).map fun k => relocate m addr n ((fileStart m addr j).toNat + k)

/-- File `j` is not empty, lies in the image and has no NUL inside. -/
structure ProperFile (m : Bytes) (addr size : Word) (n j : Nat) : Prop where
  nonempty : fileLength m addr j ≠ 0#32
  inside : (Extent.ofLen (fileStart m addr j).toNat (fileLength m addr j).toNat).Within (imageExtent addr size)
  nulless : Nulless (fileBytes m addr n j)

/-- The file that is found under the name of file `k`: the first one of this name. -/
structure FoundFor (names : Nat → List Byte) (k j : Nat) : Prop where
  le : j ≤ k
  same : names j = names k
  first : ∀ i, i < j → names i ≠ names k

theorem exists_foundFor (names : Nat → List Byte) (k : Nat) : ∃ j, FoundFor names k j := by
  classical
  have hsome : ∃ j, names j = names k := ⟨k, rfl⟩
  exact ⟨Nat.find hsome, Nat.find_min' hsome rfl, Nat.find_spec hsome, fun i hi => Nat.find_min hsome hi⟩

section Setting

variable {sym : RamdiskSymbols} {m : Bytes} {a : Alloc} {addr size buf : Word} {n i j k : Nat}
  {s s' s₁ : Kernel Flat} {e : Extent} {name : List Byte} {ino : Word}

theorem fileBytes_length (m : Bytes) (addr : Word) (n j : Nat) :
    (fileBytes m addr n j).length = (fileLength m addr j).toNat := by
  simp [fileBytes]

theorem fileBytes_getD (hk : k < (fileLength m addr j).toNat) :
    (fileBytes m addr n j).getD k 0#8 = relocate m addr n ((fileStart m addr j).toNat + k) := by
  have hlen : k < (fileBytes m addr n j).length := by
    rw [fileBytes_length]
    exact hk
  exact (List.getD_eq_getElem _ _ hlen).trans (by simp only [fileBytes, List.getElem_map, List.getElem_range])

theorem ConsoleOnly.changes (h : ConsoleOnly s s') : ChangesOnly e s s' := by
  obtain ⟨hram, hrd, hstray⟩ := console_nodes h
  exact ⟨hrd, hstray, fun x _ => by rw [hram]⟩

/-- All states with the file system mounted have the same names in the inodes. -/
theorem Mounted.nameBytes (hm : Mounted sym m a addr size n s) (hm' : Mounted sym m a addr size n s')
    (hi : i < n) {j : Nat} (hj : j < inodeNameLen) :
    s'.mem.ram (nodeAt (nodesAt a) i + j) = s.mem.ram (nodeAt (nodesAt a) i + j) := by
  obtain ⟨len, hfit, hname⟩ := (hm.files i hi).name
  obtain ⟨len', hfit', hname'⟩ := (hm'.files i hi).name
  obtain rfl := hfit.copy.unique hfit'.copy
  rw [hname j hj, hname' j hj]

theorem Mounted.names (hm : Mounted sym m a addr size n s) (hm' : Mounted sym m a addr size n s')
    (hi : i < n) : inodeName s'.mem.ram a i = inodeName s.mem.ram a i :=
  stringAt_congr fun _ hj => hm.nameBytes hm' hi hj

theorem Mounted.nameFits (hm : Mounted sym m a addr size n s) (hm' : Mounted sym m a addr size n s')
    (hi : i < n) (h : NameFits fun j => s.mem.ram (nodeAt (nodesAt a) i + j)) :
    NameFits fun j => s'.mem.ram (nodeAt (nodesAt a) i + j) :=
  h.congr fun _ hj => (hm.nameBytes hm' hi (Nat.lt_of_le_of_lt hj (by decide))).symm

/-- A change of the buffer leaves the file system mounted. -/
theorem Mounted.buffer (hbuf : StackBuffer sym addr size a n buf) (hm : Mounted sym m a addr size n s)
    (h : ChangesOnly (bufExtent buf) s s') : Mounted sym m a addr size n s' :=
  hm.changes h (fun x hx hb => hbuf.image x hb hx) hbuf.inodes

/-! ## The entry and its name -/

theorem EntryIs.holds (h : EntryIs sym s.mem.ram name ino) (hlen : name.length < nameLen) :
    HoldsString s.mem sym.dentry name := by
  have hfits := sym.dentry_fits
  simp only [dentrySize, nameLen] at hfits hlen
  intro i hi
  rw [Flat.bytesAt_eq (by omega)]
  exact h.name i hi

theorem name_shown (h : EntryIs sym s.mem.ram name ino) (hname : Nulless name) (hlen : name.length < nameLen) :
    Returns (kPrintfln (cstr "Found file %s") (slots [sym.dentry])) s fun _ s' =>
      ConsoleOnly s s' ∧ Shown (cstr "Found file " ++ name ++ [newline]) s s' := by
  have hscan : stringBytes (Bus.load8 s.mem) (2 ^ 32) sym.dentry = .ok name := by
    refine stringBytes_ok.mpr ⟨Nat.lt_trans hlen (by decide), hname, fun i hi => ?_⟩
    exact congrArg Except.ok (h.holds hlen i hi)
  have hformat : renderAll (stringItems (cstr "Found file ")) = cstr "Found file %s" := by decide
  have hline := kPrintfln_string (cstr "Found file ") (by decide) sym.dentry_ne hscan
  rwa [hformat] at hline

theorem readdirFs_sameConsole (sym : RamdiskSymbols) (node index : Word) :
    Respects SameConsole (readdirFs (ramdiskOps sym) node index : K Flat Word) := by
  refine (load32_sameConsole _ none).bind fun _ => .ite ((load32_sameConsole _ none).bind fun _ => ?_) (.pure _)
  refine .ite (.ite (Respects.get.bind fun _ => .ite ?_ (.ite (.pure _) ?_)) (.throw _)) (.pure _)
  · refine (strcpy_sameConsole _ _ _).bind fun _ => (store8_sameConsole _ _ _).bind fun _ => ?_
    exact (store32_sameConsole _ _ _).bind fun _ => .pure _
  · refine (strcpy_sameConsole _ _ _).bind fun _ => (strlen_sameConsole _).bind fun _ => ?_
    refine (store8_sameConsole _ _ _).bind fun _ => (load32_sameConsole _ _).bind fun _ => ?_
    exact (store32_sameConsole _ _ _).bind fun _ => .pure _

/-- Once an entry is listed, its name is printed, and then it is looked up. -/
theorem kmainEntry_listed {root w : Word} (buf : Word) (hname : Nulless name) (hlen : name.length < nameLen)
    (h : Returns (readdirFs (ramdiskOps sym) root w) s fun r s' =>
      r = sym.dentry ∧ ChangesOnly sym.dentryExtent s s' ∧ EntryIs sym s'.mem.ram name ino) :
    ∃ s₁, ChangesOnly sym.dentryExtent s s₁ ∧ HoldsString s₁.mem sym.dentry name ∧
      Shown (cstr "Found file " ++ name ++ [newline]) s s₁ ∧
      kmainEntry (ramdiskOps sym) root w buf s = (do
        let ino ← finddirFs (ramdiskOps sym) root (.mem sym.dentry none)
        kmainInode (ramdiskOps sym) ino buf) s₁ := by
  obtain ⟨r, s₁, hrun, rfl, hchange, hentry⟩ := h
  obtain ⟨_, s₂, hprint, hconsole, hline⟩ := name_shown hentry hname hlen
  have hram : s₂.mem.ram = s₁.mem.ram := (console_nodes hconsole).1
  refine ⟨s₂, hchange.trans hconsole.changes, ?_, ?_, ?_⟩
  · have hentry' : EntryIs sym s₂.mem.ram name ino := by
      rw [hram]
      exact hentry
    exact hentry'.holds hlen
  · have hlisted : Shown [] s s₁ := .nothing (readdirFs_sameConsole sym root w) hrun
    have hshown := hlisted.append hline
    rwa [List.nil_append] at hshown
  · rw [kmainEntry, bind_run hrun, if_neg sym.dentry_ne]
    exact bind_run hprint

/-! ## The inode -/

/-- Plain text is printed as it is. -/
theorem directory_printed (load : Word → Except Stop Byte) :
    ∃ cw, printed load (cstr "(directory)") (slots []) = .ok (cstr "(directory)", cw) := by
  have hformat : print (cstr "(directory)") (slots []) = .ok ((cstr "(directory)").map fun c => .text [c]) := rfl
  have hcount := outputs_eq load ((cstr "(directory)").map fun c => .text [c]) 0
  have hzero : toInt32 0 = 0 := by decide
  rw [outputBytes_text, hzero] at hcount
  rw [printed, hformat]
  exact ⟨_, hcount⟩

section Inode

variable (hp : RamdiskPlaced sym addr size a) (hroom : RamdiskRoom a n) (hm : Mounted sym m a addr size n s)

include hp hroom hm

theorem kmainInode_dir (buf : Word) {node : Node} (hdir : node.IsDir) :
    Returns (kmainInode (ramdiskOps sym) (node.addr s.ramdisk) buf) s fun turn s' =>
      turn = .directory ∧ ConsoleOnly s s' ∧ Shown (cstr "(directory)" ++ [newline]) s s' := by
  have hflags := flags_run hp hroom hm (hdir.valid n)
  rw [if_pos hdir] at hflags
  obtain ⟨cw, hprinted⟩ := directory_printed (Bus.load8 s.mem)
  obtain ⟨_, s', hprint, hconsole, hshown⟩ := kPrintfln_shown hprinted
  refine .of_eq (a := .directory) ?_ ⟨rfl, hconsole, hshown⟩
  rw [kmainInode, bind_run hflags, if_pos rfl]
  exact bind_run hprint

/-- The first bytes of the file are copied to the buffer; those behind them are left as they were. -/
theorem kmainInode_file (hj : j < n) (hproper : ProperFile m addr size n j)
    (hbuf : StackBuffer sym addr size a n buf) :
    Returns (kmainInode (ramdiskOps sym) ((Node.file j).addr s.ramdisk) buf) s fun turn s' =>
      turn = .content ∧ ChangesOnly (bufExtent buf) s s' ∧ Shown (charText (fileStart m addr j)) s s' ∧
        (∀ k, k < min bufLen (fileLength m addr j).toNat →
          s'.mem.ram (buf.toNat + k) = (fileBytes m addr n j).getD k 0#8) ∧
        ∀ k, min bufLen (fileLength m addr j).toNat ≤ k →
          s'.mem.ram (buf.toNat + k) = s.mem.ram (buf.toNat + k) := by
  have hvalid : Node.Valid n (.file j) := hj
  have hfile : ¬(Node.file j).IsDir := id
  have hflags := flags_run hp hroom hm hvalid
  rw [if_neg hfile] at hflags
  have hlength := (fileLength m addr j).isLt
  -- what is read is as much of the file as the buffer holds
  have hlen : (readLen (fileLength m addr j) 0#32 (BitVec.ofNat 32 bufLen)).toNat =
      min bufLen (fileLength m addr j).toNat :=
    readLen_toNat (Nat.zero_le _) (by decide)
  have hstart : fileStart m addr j + 0#32 = fileStart m addr j := BitVec.add_zero _
  have hpos := ne_zero_iff_toNat.mp hproper.nonempty
  have hle : ¬fileLength m addr j < 0#32 := fun h => by
    rw [BitVec.lt_def] at h
    exact Nat.not_lt_zero _ h
  have hread := @readFs_run sym m a addr size 0#32 (BitVec.ofNat 32 bufLen) buf n j s hp hroom hm hj hle
  rw [ReadInside, hlen, hstart] at hread
  generalize readLen (fileLength m addr j) 0#32 (BitVec.ofNat 32 bufLen) = c at hread hlen
  have hfits := hbuf.fits
  have hinside := hproper.inside
  simp only [Extent.Within, Extent.ofLen, imageExtent] at hinside
  obtain ⟨sz, s', hrun, rfl, hchange, hbytes⟩ := hread
    (.inr (by simp only [Extent.Within, Extent.ofLen, imageExtent]; omega)) (by omega)
    (fun x hx => hbuf.image x (by simp only [bufExtent, Extent.mem_ofLen] at hx ⊢; omega))
  have hsz : ¬sz ≤ 0#32 := by
    rw [BitVec.le_def, hlen]
    simp only [bufLen, BitVec.toNat_ofNat]
    omega
  have hshown := (hm.fileNode hp hroom hj).2.readFs_shown hle _ _ hrun
  refine .of_eq (a := .content) ?_ ⟨rfl, ⟨hchange.ramdisk, hchange.strayed, fun x hx => ?_⟩, hshown, ?_, ?_⟩
  · rw [kmainInode, bind_run hflags, if_neg (by decide), bind_run hrun, if_neg hsz]
    rfl
  · refine hchange.ram x fun h => hx ?_
    simp only [bufExtent, Extent.mem_ofLen] at h ⊢
    omega
  · intro k hk
    rw [hbytes k hk, fileBytes_getD (by omega)]
  · intro k hk
    refine hchange.ram _ fun h => ?_
    rw [Extent.mem_ofLen] at h
    omega

end Inode

/-! ## Turns -/

section Turns

variable (hp : RamdiskPlaced sym addr size a) (hroom : RamdiskRoom a n) (hm : Mounted sym m a addr size n s)

include hp hroom hm

/-- Behind the last file the loop ends. -/
theorem kmainEntry_end {w : Word} (hw : w ≠ 0#32) (hindex : n ≤ (w - 1#32).toNat) :
    kmainEntry (ramdiskOps sym) (Node.root.addr s.ramdisk) w buf s = .ok (.ended, s) := by
  have hdir : Node.IsDir .root := trivial
  have hend := readdirFs_end hp hroom hm hdir (fun _ => hw) hindex
  rw [kmainEntry, bind_run hend, if_pos rfl]
  rfl

theorem find_dev (hholds : HoldsString s.mem sym.dentry (cstr "dev")) :
    finddirFs (ramdiskOps sym) (Node.root.addr s.ramdisk) (.mem sym.dentry none) s =
      .ok (Node.dev.addr s.ramdisk, s) := by
  have hroot : Node.IsDir .root := trivial
  have hspells : (Src.mem sym.dentry none).Spells s.mem (cstr "dev") := ⟨rfl, hholds⟩
  obtain ⟨r, hrun, hr⟩ := finddirFs_run hp hroom hm hspells (by decide) hroot
  rw [if_pos ⟨rfl, rfl⟩] at hr
  rw [hrun, hr]
  rfl

theorem find_file (hk : k < n) (hdev : inodeName s.mem.ram a k ≠ cstr "dev")
    (hfound : FoundFor (inodeName s.mem.ram a) k j)
    (hholds : HoldsString s.mem sym.dentry (inodeName s.mem.ram a k)) :
    finddirFs (ramdiskOps sym) (Node.root.addr s.ramdisk) (.mem sym.dentry none) s =
      .ok ((Node.file j).addr s.ramdisk, s) := by
  have hroot : Node.IsDir .root := trivial
  have hspells : (Src.mem sym.dentry none).Spells s.mem (inodeName s.mem.ram a k) := ⟨rfl, hholds⟩
  obtain ⟨r, hrun, hr⟩ := finddirFs_run hp hroom hm hspells (stringAt_nulless _ _ _) hroot
  rw [if_neg (fun h => hdev h.2)] at hr
  rcases hr with ⟨i, _, hsame, hfirst, rfl⟩ | ⟨hnone, _⟩
  · -- both are the first file of the name
    obtain rfl : i = j := by
      rcases Nat.lt_trichotomy i j with h | h | h
      · exact absurd hsame (hfound.first i h)
      · exact h
      · exact absurd hfound.same (hfirst j h)
    exact hrun
  · exact absurd rfl (hnone k hk)

/-- The turn of an entry with the name of the directory `/dev`. -/
theorem kmainEntry_directory (buf : Word) {w : Word}
    (hlist : Returns (readdirFs (ramdiskOps sym) (Node.root.addr s.ramdisk) w) s fun r s' =>
      r = sym.dentry ∧ ChangesOnly sym.dentryExtent s s' ∧ EntryIs sym s'.mem.ram (cstr "dev") ino) :
    Returns (kmainEntry (ramdiskOps sym) (Node.root.addr s.ramdisk) w buf) s fun turn s' =>
      turn = .directory ∧ ChangesOnly sym.dentryExtent s s' ∧
        Shown (cstr "Found file " ++ cstr "dev" ++ [newline] ++ (cstr "(directory)" ++ [newline])) s s' := by
  have hdir : Node.IsDir .dev := trivial
  obtain ⟨s₁, hchange, hholds, hnamed, hturn⟩ := kmainEntry_listed buf (by decide) (by decide) hlist
  have hm₁ := hm.entry hp hroom hchange
  have hroot : Node.root.addr s.ramdisk = Node.root.addr s₁.ramdisk := by rw [hchange.ramdisk]
  obtain ⟨turn, s₂, hrun, hdone, hconsole, hshown⟩ := kmainInode_dir hp hroom hm₁ buf hdir
  refine .of_eq ?_ ⟨hdone, hchange.trans hconsole.changes, hnamed.append hshown⟩
  rw [hturn, hroot, bind_run (find_dev hp hroom hm₁ hholds)]
  exact hrun

/-- The turn of a file, from the entry it is listed under to the bytes in the buffer. -/
theorem kmainEntry_file {w : Word} (hk : k < n) (hw : w - 1#32 = BitVec.ofNat 32 k)
    (hfits : NameFits fun i => s.mem.ram (nodeAt (nodesAt a) k + i))
    (hdev : inodeName s.mem.ram a k ≠ cstr "dev") (hfound : FoundFor (inodeName s.mem.ram a) k j)
    (hproper : ProperFile m addr size n j) (hbuf : StackBuffer sym addr size a n buf) :
    Returns (kmainEntry (ramdiskOps sym) (Node.root.addr s.ramdisk) w buf) s fun turn s' =>
      turn = .content ∧ Mounted sym m a addr size n s' ∧
        Shown (cstr "Found file " ++ inodeName s.mem.ram a k ++ [newline] ++ charText (fileStart m addr j)) s s' ∧
        (∀ k, k < min bufLen (fileLength m addr j).toNat →
          s'.mem.ram (buf.toNat + k) = (fileBytes m addr n j).getD k 0#8) ∧
        ∀ k, min bufLen (fileLength m addr j).toNat ≤ k → k < bufLen →
          s'.mem.ram (buf.toNat + k) = s.mem.ram (buf.toNat + k) := by
  have hdir : Node.IsDir .root := trivial
  have hj : j < n := Nat.lt_of_le_of_lt hfound.le hk
  obtain ⟨z, hz, hnul⟩ := hfits.nul
  have hshort : (inodeName s.mem.ram a k).length < nameLen := Nat.lt_of_le_of_lt (stringAt_length_le hnul) hz
  obtain ⟨s₁, hchange, hholds, hnamed, hturn⟩ := kmainEntry_listed buf (stringAt_nulless _ _ _) hshort
    (readdirFs_entry hp hroom hm hdir hk hw hfits)
  have hm₁ := hm.entry hp hroom hchange
  have hnames : ∀ i, i < n → inodeName s₁.mem.ram a i = inodeName s.mem.ram a i :=
    fun i hi => hm.names hm₁ hi
  have hroot : Node.root.addr s.ramdisk = Node.root.addr s₁.ramdisk := by rw [hchange.ramdisk]
  have hfind := find_file (j := j) hp hroom hm₁ hk (by rw [hnames k hk]; exact hdev)
    ⟨hfound.le, by rw [hnames j hj, hnames k hk]; exact hfound.same, fun i hi => by
      rw [hnames i (Nat.lt_trans hi hj), hnames k hk]
      exact hfound.first i hi⟩ (by rw [hnames k hk]; exact hholds)
  obtain ⟨turn, s₂, hrun, hdone, hread, hshown, hbytes, hleft⟩ := kmainInode_file hp hroom hm₁ hj hproper hbuf
  refine .of_eq ?_ ⟨hdone, hm₁.buffer hbuf hread, hnamed.append hshown, hbytes, fun i hi hlt => ?_⟩
  · rw [hturn, hroot, bind_run hfind]
    exact hrun
  · rw [hleft i hi]
    refine hchange.ram _ (hbuf.dentry _ ?_)
    rw [bufExtent, Extent.mem_ofLen]
    omega

/-- Every turn leaves the file system mounted. -/
theorem kmainTurn_mounted {w : Word} (hfits : ∀ i, i < n → NameFits fun j => s.mem.ram (nodeAt (nodesAt a) i + j))
    (hfiles : ∀ i, i < n → ProperFile m addr size n i) (hbuf : StackBuffer sym addr size a n buf) :
    WhenReturns (kmainTurn (ramdiskOps sym) (Node.root.addr s.ramdisk) w buf) s fun _ s' =>
      Mounted sym m a addr size n s' := by
  have hroot : Node.IsDir .root := trivial
  have hentry : WhenReturns (kmainEntry (ramdiskOps sym) (Node.root.addr s.ramdisk) w buf) s fun _ s' =>
      Mounted sym m a addr size n s' := by
    by_cases hw : w = 0#32
    · rw [hw]
      refine ((kmainEntry_directory hp hroom hm buf (readdirFs_dev hp hroom hm)).mono fun _ s' h => ?_).whenReturns
      exact hm.entry hp hroom h.2.1
    rcases Nat.lt_or_ge (w - 1#32).toNat n with hlt | hge
    · have hindex : w - 1#32 = BitVec.ofNat 32 (w - 1#32).toNat := BitVec.eq_of_toNat_eq (by simp)
      generalize (w - 1#32).toNat = k at hlt hindex
      by_cases hdev : inodeName s.mem.ram a k = cstr "dev"
      · have hlist := readdirFs_entry hp hroom hm hroot hlt hindex (hfits k hlt)
        rw [hdev] at hlist
        exact ((kmainEntry_directory hp hroom hm buf hlist).mono fun _ s' h => hm.entry hp hroom h.2.1).whenReturns
      · obtain ⟨j, hfound⟩ := exists_foundFor (inodeName s.mem.ram a) k
        have hj := hfiles j (Nat.lt_of_le_of_lt hfound.le hlt)
        exact ((kmainEntry_file hp hroom hm hlt hindex (hfits k hlt) hdev hfound hj hbuf).mono
          fun _ s' h => h.2.1).whenReturns
    · intro turn s' hrun
      rw [kmainEntry_end hp hroom hm hw hge] at hrun
      cases hrun
      exact hm
  refine hentry.bind fun turn s₁ hm₁ => ?_
  cases turn with
  | ended => exact .pure hm₁
  | directory => exact .pure hm₁
  | content =>
      have hprint : WhenReturns (kPrintfln (cstr "content: %s") (slots [buf])) s₁ fun _ s' => ConsoleOnly s₁ s' :=
        kPrintfln_respects (cstr "content: %s") (slots [buf]) s₁
      exact hprint.bind fun _ s₂ hconsole => .pure (hm₁.buffer hbuf hconsole.changes)

end Turns

/-! ## What is shown -/

/-- In the turn that begins in `s`, what is printed behind the prefix is the file, as much of it as the
buffer holds, and the scan for the end of the string stays in the buffer. -/
def ShowsFile (sym : RamdiskSymbols) (fsRoot i buf : Word) (file : List Byte) (s : Kernel Flat) : Prop :=
  Returns (kmainEntry (ramdiskOps sym) fsRoot i buf) s fun turn s' => turn = .content ∧
    (∃ cw, printed (Bus.load8 s'.mem) (cstr "content: %s") (slots [buf]) =
      .ok (cstr "content: " ++ file.take bufLen, cw)) ∧
    ∃ text, stringBytes (loadWithin (bufExtent buf) (Bus.load8 s'.mem)) (2 ^ 32) buf = .ok text

theorem kmainTurn_content {root w : Word}
    (h : kmainEntry (ramdiskOps sym) root w buf s = .ok (.content, s₁)) :
    kmainTurn (ramdiskOps sym) root w buf s = (do
      kPrintfln (cstr "content: %s") (slots [buf])
      pure true) s₁ := by
  rw [kmainTurn, bind_run h]

/-- The turn then puts these bytes on the screen, and a newline. -/
theorem ShowsFile.turn {root w : Word} {file : List Byte} (h : ShowsFile sym root w buf file s) :
    ∃ s₁, kmainEntry (ramdiskOps sym) root w buf s = .ok (.content, s₁) ∧
      kmainTurn (ramdiskOps sym) root w buf s = (do
        ((cstr "content: " ++ file.take bufLen) ++ [newline]).forM screenPut
        pure true) s₁ := by
  obtain ⟨turn, s₁, hrun, rfl, ⟨cw, hprinted⟩, _⟩ := h
  refine ⟨s₁, hrun, ?_⟩
  rw [kmainTurn_content hrun, bind_apply, bind_apply, kPrintfln_output hprinted]

/-- The bytes at the buffer when the line is printed. -/
theorem bufferText_iff (hbuf : StackBuffer sym addr size a n buf) (hproper : ProperFile m addr size n j)
    (hbytes : ∀ k, k < min bufLen (fileLength m addr j).toNat →
      s'.mem.ram (buf.toNat + k) = (fileBytes m addr n j).getD k 0#8)
    (hleft : ∀ k, min bufLen (fileLength m addr j).toNat ≤ k → k < bufLen →
      s'.mem.ram (buf.toNat + k) = s.mem.ram (buf.toNat + k)) :
    ((∃ cw, printed (Bus.load8 s'.mem) (cstr "content: %s") (slots [buf]) =
        .ok (cstr "content: " ++ (fileBytes m addr n j).take bufLen, cw)) ∧
      ∃ text, stringBytes (loadWithin (bufExtent buf) (Bus.load8 s'.mem)) (2 ^ 32) buf = .ok text) ↔
    (fileLength m addr j).toNat < bufLen ∧ s.mem.ram (buf.toNat + (fileLength m addr j).toNat) = 0#8 := by
  have hfits := hbuf.fits
  have hlength := fileBytes_length m addr n j
  have hformat : renderAll (stringItems (cstr "content: ")) = cstr "content: %s" := by decide
  have hprints := printed_string (Bus.load8 s'.mem) (cstr "content: ") (by decide) hbuf.ne
  rw [hformat] at hprints
  have hload : ∀ k, k < bufLen → Bus.load8 s'.mem (buf + BitVec.ofNat 32 k) = .ok (s'.mem.ram (buf.toNat + k)) := by
    intro k hk
    exact congrArg Except.ok (Flat.bytesAt_eq (by omega))
  constructor
  · rintro ⟨⟨cw, hprinted⟩, text, htext⟩
    obtain ⟨hscan, hin⟩ := stringBytes_within.mp htext
    have hsame : cstr "content: " ++ text = cstr "content: " ++ (fileBytes m addr n j).take bufLen := by
      rw [hscan] at hprints
      exact (Prod.mk.inj (Except.ok.inj (hprints.symm.trans hprinted))).1
    have htake := List.append_cancel_left hsame
    -- the NUL is in the buffer, too
    have hend : text.length < bufLen := by
      refine Nat.lt_of_not_le fun hge => ?_
      have hbehind := hin bufLen hge
      have hne := ne_zero_iff_toNat.mp hbuf.ne
      simp only [bufExtent, Extent.mem_ofLen, BitVec.toNat_add, BitVec.toNat_ofNat, bufLen] at hbehind hfits
      omega
    have hshort : (fileLength m addr j).toNat < bufLen := by
      rw [htake, List.length_take, hlength] at hend
      omega
    have htext : text.length = (fileLength m addr j).toNat := by
      rw [htake, List.length_take, hlength]
      exact Nat.min_eq_right (Nat.le_of_lt hshort)
    obtain ⟨_, _, hbytes'⟩ := stringBytes_ok.mp hscan
    have hnul := hbytes' text.length (Nat.le_refl _)
    rw [hload _ hend, getD_length, htext] at hnul
    exact ⟨hshort, (hleft _ (Nat.min_le_right _ _) hshort).symm.trans (Except.ok.inj hnul)⟩
  · rintro ⟨hshort, hnul⟩
    have hread : ∀ k, k ≤ (fileBytes m addr n j).length →
        s'.mem.ram (buf.toNat + k) = (fileBytes m addr n j).getD k 0#8 := by
      intro k hk
      rcases Nat.lt_or_eq_of_le hk with hlt | rfl
      · exact hbytes k (by omega)
      · rw [getD_length, hlength, hleft _ (Nat.min_le_right _ _) hshort, hnul]
    have hscan : stringBytes (Bus.load8 s'.mem) (2 ^ 32) buf = .ok (fileBytes m addr n j) := by
      refine stringBytes_ok.mpr ⟨by rw [hlength]; exact BitVec.isLt _, hproper.nulless, fun k hk => ?_⟩
      rw [hload k (by omega), hread k hk]
    have htake : (fileBytes m addr n j).take bufLen = fileBytes m addr n j :=
      List.take_of_length_le (by omega)
    rw [hscan, Except.map] at hprints
    rw [htake]
    refine ⟨⟨_, hprints⟩, fileBytes m addr n j, stringBytes_within.mpr ⟨hscan, fun k hk => ?_⟩⟩
    rw [bufExtent, Extent.mem_ofLen, toNat_add_ofNat (by omega)]
    omega

/-- A file is shown exactly if it is shorter than the buffer and there was a NUL in the buffer where it
ends. -/
theorem showsFile_mounted_iff {w : Word} (hp : RamdiskPlaced sym addr size a) (hroom : RamdiskRoom a n)
    (hm : Mounted sym m a addr size n s) (hk : k < n) (hw : w - 1#32 = BitVec.ofNat 32 k)
    (hfits : NameFits fun i => s.mem.ram (nodeAt (nodesAt a) k + i))
    (hdev : inodeName s.mem.ram a k ≠ cstr "dev") (hfound : FoundFor (inodeName s.mem.ram a) k j)
    (hproper : ProperFile m addr size n j) (hbuf : StackBuffer sym addr size a n buf) :
    ShowsFile sym (Node.root.addr s.ramdisk) w buf (fileBytes m addr n j) s ↔
      (fileLength m addr j).toNat < bufLen ∧ s.mem.ram (buf.toNat + (fileLength m addr j).toNat) = 0#8 := by
  obtain ⟨turn, s₁, hrun, hturn, _, _, hbytes, hleft⟩ :=
    kmainEntry_file (w := w) hp hroom hm hk hw hfits hdev hfound hproper hbuf
  rw [← bufferText_iff hbuf hproper hbytes hleft]
  constructor
  · rintro ⟨turn', s', hrun', _, hshown⟩
    rw [hrun] at hrun'
    cases hrun'
    exact hshown
  · exact fun hshown => .of_eq hrun ⟨hturn, hshown⟩

end Setting

/-! ## All turns -/

/-- The ramdisk is mounted, without an access outside its objects. The names of its entries fit in the
driver's global, and its files are proper. -/
structure Listable (sym : RamdiskSymbols) (addr size : Word) (s₀ : Kernel Flat) (root : Word) (s₁ : Kernel Flat) :
    Prop where
  placed : RamdiskPlaced sym addr size s₀.alloc
  run : ramdiskInit sym addr size s₀ = .ok (root, s₁)
  clean : s₁.strayed = false
  names : ∀ i, i < fileCount s₀.mem.ram addr → NameFits fun j => s₁.mem.ram (nodeAt (nodesAt s₀.alloc) i + j)
  files : ∀ i, i < fileCount s₀.mem.ram addr → ProperFile s₀.mem.ram addr size (fileCount s₀.mem.ram addr) i

section Loop

variable {sym : RamdiskSymbols} {addr size root buf w : Word} {j k : Nat} {s₀ s₁ s₂ s s' : Kernel Flat}

theorem Listable.mounted (h : Listable sym addr size s₀ root s₁) :
    RamdiskRoom s₀.alloc (fileCount s₀.mem.ram addr) ∧ root = Node.root.addr s₁.ramdisk ∧
      Mounted sym s₀.mem.ram s₀.alloc addr size (fileCount s₀.mem.ram addr) s₁ := by
  obtain ⟨hroom, hfit⟩ := ramdiskInit_clean h.placed h.run h.clean
  obtain ⟨hroot, _, hm⟩ := (ramdiskInit_run h.placed hroom hfit).whenReturns root s₁ h.run
  exact ⟨hroom, hroot.trans hm.root.symm, hm⟩

/-- The file system is mounted whenever a turn begins. -/
theorem TurnBegins.mounted (h : Listable sym addr size s₀ root s₁)
    (hbuf : StackBuffer sym addr size s₀.alloc (fileCount s₀.mem.ram addr) buf)
    (hleft : ChangesOnly (bufExtent buf) s₁ s₂) (hturn : TurnBegins (ramdiskOps sym) root buf s₂ w s) :
    root = Node.root.addr s.ramdisk ∧
      Mounted sym s₀.mem.ram s₀.alloc addr size (fileCount s₀.mem.ram addr) s := by
  obtain ⟨hroom, hroot, hm⟩ := h.mounted
  have hsame : ∀ s, Mounted sym s₀.mem.ram s₀.alloc addr size (fileCount s₀.mem.ram addr) s →
      root = Node.root.addr s.ramdisk := fun s hs => by
    rw [hroot, Node.addr, Node.addr, hm.root, hs.root]
  induction hturn with
  | first =>
      have hm₂ := hm.buffer hbuf hleft
      exact ⟨hsame _ hm₂, hm₂⟩
  | next hturn hrun ih =>
      obtain ⟨hroot', hm'⟩ := ih
      rw [hroot'] at hrun
      have hfits := fun i hi => hm.nameFits hm' hi (h.names i hi)
      have hnext := kmainTurn_mounted h.placed hroom hm' hfits h.files hbuf _ _ hrun
      exact ⟨hsame _ hnext, hnext⟩

/-- A loop that comes back has gone through turns up to one that ends it. -/
theorem kmainList_turns {ops : DriverOps Flat} {fuel : Nat} (hturn : TurnBegins ops root buf s₀ w s)
    (hrun : kmainList ops root buf fuel w s = .ok ((), s')) :
    ∃ w' s'', TurnBegins ops root buf s₀ w' s'' ∧ kmainTurn ops root w' buf s'' = .ok (false, s') := by
  induction fuel generalizing w s with
  | zero => cases hrun
  | succ fuel ih =>
      rw [kmainList] at hrun
      obtain ⟨more, s₁, hfirst, hrest⟩ := bind_ok.mp hrun
      cases more with
      | false =>
          cases hrest
          exact ⟨w, s, hturn, hfirst⟩
      | true => exact ih (hturn.next hfirst) hrest

/-- In every turn for a file, what is shown is what was read, exactly if the file is shorter than the
buffer and the buffer held a NUL where the file ends. -/
theorem showsFile_iff (h : Listable sym addr size s₀ root s₁)
    (hbuf : StackBuffer sym addr size s₀.alloc (fileCount s₀.mem.ram addr) buf)
    (hleft : ChangesOnly (bufExtent buf) s₁ s₂)
    (hturn : TurnBegins (ramdiskOps sym) root buf s₂ (BitVec.ofNat 32 (k + 1)) s)
    (hk : k < fileCount s₀.mem.ram addr) (hdev : inodeName s₁.mem.ram s₀.alloc k ≠ cstr "dev")
    (hfound : FoundFor (inodeName s₁.mem.ram s₀.alloc) k j) :
    ShowsFile sym root (BitVec.ofNat 32 (k + 1)) buf (fileBytes s₀.mem.ram addr (fileCount s₀.mem.ram addr) j) s ↔
      (fileLength s₀.mem.ram addr j).toNat < bufLen ∧
        s.mem.ram (buf.toNat + (fileLength s₀.mem.ram addr j).toNat) = 0#8 := by
  obtain ⟨hroom, _, hm⟩ := h.mounted
  obtain ⟨hroot, hm'⟩ := hturn.mounted h hbuf hleft
  have hj := Nat.lt_of_le_of_lt hfound.le hk
  have hindex : BitVec.ofNat 32 (k + 1) - 1#32 = BitVec.ofNat 32 k := by
    rw [BitVec.ofNat_add, BitVec.add_sub_cancel]
  have hnames : ∀ i, i ≤ k → inodeName s.mem.ram s₀.alloc i = inodeName s₁.mem.ram s₀.alloc i :=
    fun i hi => hm.names hm' (Nat.lt_of_le_of_lt hi hk)
  have hfound' : FoundFor (inodeName s.mem.ram s₀.alloc) k j := by
    refine ⟨hfound.le, ?_, fun i hi => ?_⟩
    · rw [hnames j hfound.le, hnames k (Nat.le_refl k)]
      exact hfound.same
    · rw [hnames i (Nat.le_trans (Nat.le_of_lt hi) hfound.le), hnames k (Nat.le_refl k)]
      exact hfound.first i hi
  rw [hroot]
  refine showsFile_mounted_iff h.placed hroom hm' hk hindex (hm.nameFits hm' hk (h.names k hk)) ?_ hfound'
    (h.files j hj) hbuf
  rw [hnames k (Nat.le_refl k)]
  exact hdev

end Loop

/-! ## The small image -/

section Tiny

variable {root : Word} {s s₁ s₂ : Kernel Flat}

theorem tiny_buffer : StackBuffer tinySymbols 0x1000#32 81#32 tinyKernel.alloc
    (fileCount tinyKernel.mem.ram 0x1000#32) 0x8000#32 where
  ne := by decide
  fits := by decide
  image := Extent.Disjoint.apart (by decide)
  dentry := Extent.Disjoint.apart (by decide)
  inodes x hx := by
    rw [tiny_count] at hx
    have happart : (freeHeap tinyKernel.alloc).Disjoint (bufExtent 0x8000#32) := by decide
    exact happart.not_mem (inodeByte_heap tiny_room hx)

theorem tiny_heapZero : HeapZero tinyKernel.mem.ram tinyKernel.alloc 1 := by
  intro x hx
  have hheap := inodeByte_heap tiny_room hx
  have hlow : 0x10000 ≤ x := (Extent.mem_iff.mp hheap).1
  show tinyImage x = 0#8
  rw [tinyImage, if_neg (by omega), if_neg (by omega), if_neg (by omega), if_neg (by omega), if_neg (by omega)]

theorem tiny_file : fileBytes tinyKernel.mem.ram 0x1000#32 (fileCount tinyKernel.mem.ram 0x1000#32) 0 = [chr 'x'] := by
  rw [tiny_count]
  decide

/-- The small image is mounted and has the file `a`. -/
theorem tiny_listable : ∃ root s₁, Listable tinySymbols 0x1000#32 81#32 tinyKernel root s₁ ∧
    inodeName s₁.mem.ram tinyKernel.alloc 0 ≠ cstr "dev" := by
  obtain ⟨root, s₁, hrun, hclean, hm⟩ := tiny_mounted
  refine ⟨root, s₁, ⟨tiny_placed, hrun, hclean, fun i hi => ?_, fun i hi => ?_⟩, ?_⟩
  · rw [tiny_count] at hi
    exact mounted_nameFits hm tiny_named tiny_heapZero hi
  · rw [tiny_count] at hi
    obtain rfl : i = 0 := by omega
    refine ⟨by decide, by decide, ?_⟩
    rw [tiny_file]
    decide
  · rw [mounted_inodeName hm tiny_named tiny_heapZero Nat.zero_lt_one]
    exact tiny_named.not_dev 0 Nat.zero_lt_one

/-- The turn of the file comes second, and the first leaves the buffer as it was. -/
theorem tiny_turn (h : Listable tinySymbols 0x1000#32 81#32 tinyKernel root s₁)
    (hleft : ChangesOnly (bufExtent 0x8000#32) s₁ s₂) :
    ∃ s, TurnBegins (ramdiskOps tinySymbols) root 0x8000#32 s₂ (BitVec.ofNat 32 (0 + 1)) s ∧
      s.mem.ram 0x8001 = s₂.mem.ram 0x8001 := by
  obtain ⟨hroom, _, _⟩ := h.mounted
  have hfirst : TurnBegins (ramdiskOps tinySymbols) root 0x8000#32 s₂ 0#32 s₂ := .first
  obtain ⟨hroot, hm⟩ := hfirst.mounted h tiny_buffer hleft
  obtain ⟨turn, s, hrun, rfl, hchange, _⟩ := kmainEntry_directory tiny_placed hroom hm 0x8000#32
    (readdirFs_dev tiny_placed hroom hm)
  refine ⟨s, hfirst.next ?_, hchange.ram _ ?_⟩
  · rw [kmainTurn, hroot, bind_run hrun]
    rfl
  · have happart : (bufExtent 0x8000#32).Disjoint tinySymbols.dentryExtent := by decide
    exact happart.not_mem (by rw [bufExtent, Extent.mem_ofLen]; decide)

end Tiny

/-- Where the buffer held a NUL, the file is shown. -/
theorem showsFile_iff_tiny : ∃ root s₁ s, Listable tinySymbols 0x1000#32 81#32 tinyKernel root s₁ ∧
    (ShowsFile tinySymbols root (BitVec.ofNat 32 (0 + 1)) 0x8000#32
        (fileBytes tinyKernel.mem.ram 0x1000#32 (fileCount tinyKernel.mem.ram 0x1000#32) 0) s ↔
      (fileLength tinyKernel.mem.ram 0x1000#32 0).toNat < bufLen ∧
        s.mem.ram ((0x8000#32).toNat + (fileLength tinyKernel.mem.ram 0x1000#32 0).toNat) = 0#8) := by
  obtain ⟨root, s₁, hlist, hdev⟩ := tiny_listable
  have hleft : ChangesOnly (bufExtent 0x8000#32) s₁ s₁ := ⟨rfl, rfl, fun _ _ => rfl⟩
  obtain ⟨s, hturn, _⟩ := tiny_turn hlist hleft
  have hk : 0 < fileCount tinyKernel.mem.ram 0x1000#32 := by rw [tiny_count]; decide
  exact ⟨root, s₁, s, hlist, showsFile_iff hlist tiny_buffer hleft hturn hk hdev
    ⟨Nat.le_refl 0, rfl, fun i hi => absurd hi (Nat.not_lt_zero i)⟩⟩

/-- The buffer held a letter behind the place of the one byte of the file: it is shown, too. -/
theorem not_showsFile_leftover : ∃ root s₁ s₂ s, Listable tinySymbols 0x1000#32 81#32 tinyKernel root s₁ ∧
    StackBuffer tinySymbols 0x1000#32 81#32 tinyKernel.alloc (fileCount tinyKernel.mem.ram 0x1000#32) 0x8000#32 ∧
    ChangesOnly (bufExtent 0x8000#32) s₁ s₂ ∧
    TurnBegins (ramdiskOps tinySymbols) root 0x8000#32 s₂ 1#32 s ∧
    inodeName s₁.mem.ram tinyKernel.alloc 0 ≠ cstr "dev" ∧
    fileBytes tinyKernel.mem.ram 0x1000#32 (fileCount tinyKernel.mem.ram 0x1000#32) 0 = [chr 'x'] ∧
    ¬ShowsFile tinySymbols root 1#32 0x8000#32 [chr 'x'] s := by
  obtain ⟨root, s₁, hlist, hdev⟩ := tiny_listable
  have hleft : ChangesOnly (bufExtent 0x8000#32) s₁ (s₁.withRam (s₁.mem.ram.write8 0x8001 (chr 'A'))) := by
    refine ⟨rfl, rfl, fun x hx => Bytes.write8_other fun h => hx ?_⟩
    rw [h, bufExtent, Extent.mem_ofLen]
    decide
  obtain ⟨s, hturn, hbyte⟩ := tiny_turn hlist hleft
  refine ⟨root, s₁, _, s, hlist, tiny_buffer, hleft, hturn, hdev, tiny_file, fun hshows => ?_⟩
  obtain ⟨hroom, _, hm₁⟩ := hlist.mounted
  obtain ⟨hroot, hm⟩ := hturn.mounted hlist tiny_buffer hleft
  have hk : 0 < fileCount tinyKernel.mem.ram 0x1000#32 := by rw [tiny_count]; decide
  have hname := hm₁.names hm hk
  rw [hroot, ← tiny_file] at hshows
  have hnul := (showsFile_mounted_iff (k := 0) (j := 0) tiny_placed hroom hm hk (by decide)
    (hm₁.nameFits hm hk (hlist.names 0 hk)) (by rw [hname]; exact hdev)
    ⟨Nat.le_refl 0, rfl, fun i hi => absurd hi (Nat.not_lt_zero i)⟩ (hlist.files 0 hk) tiny_buffer).mp hshows
  have hlength : fileLength tinyKernel.mem.ram 0x1000#32 0 = 1#32 := by decide
  have hletter : s.mem.ram 0x8001 = chr 'A' := by
    rw [hbyte, withRam_ram]
    exact Bytes.write8_same _
  rw [hlength] at hnul
  exact absurd (hletter.symm.trans hnul.2) (by decide)

end LizaOS
