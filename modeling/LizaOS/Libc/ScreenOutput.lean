-- SUMMARY: The bytes code puts on the screen, whatever else it does, and how they add up.
import LizaOS.Fs.Vfs
import LizaOS.Libc.PrintString

/-!
# What goes to the screen

The console is the screen and the globals of its driver. What bytes make of it does not depend on the
rest of the state, so the bytes that are put out by code which works on memory in between add up.
-/

namespace LizaOS

open Exec

/-- The console is the same in both states. -/
structure SameConsole (s s' : Kernel Flat) : Prop where
  cells : s'.mem.cells = s.mem.cells
  vga : s'.vga = s.vga
  ports : s'.ports = s.ports
  bg : s'.screenBg = s.screenBg

namespace SameConsole

variable {s s₁ s₂ : Kernel Flat}

theorem refl (s : Kernel Flat) : SameConsole s s := ⟨rfl, rfl, rfl, rfl⟩

theorem symm (h : SameConsole s s₁) : SameConsole s₁ s := ⟨h.cells.symm, h.vga.symm, h.ports.symm, h.bg.symm⟩

theorem trans (h : SameConsole s s₁) (h' : SameConsole s₁ s₂) : SameConsole s s₂ :=
  ⟨h'.cells.trans h.cells, h'.vga.trans h.vga, h'.ports.trans h.ports, h'.bg.trans h.bg⟩

/-- A note of an access is not part of the console. -/
theorem noted (s : Kernel Flat) (obj : Option Extent) (a : Word) (n : Nat) : SameConsole s (s.noted obj a n) := by
  cases obj with
  | none => exact .refl s
  | some e =>
      unfold Kernel.noted
      dsimp only
      split
      · exact .refl s
      · exact ⟨rfl, rfl, rfl, rfl⟩

end SameConsole

instance : IsPreorder (Kernel Flat) SameConsole where
  refl := SameConsole.refl
  trans _ _ _ := SameConsole.trans

/-! ## Code that works on memory -/

section Memory

theorem load8_sameConsole (a : Word) (obj : Option Extent) : Respects SameConsole (load8 a obj : K Flat Byte) :=
  fun s _ _ h => by
    cases h
    exact .noted s obj a 1

theorem store8_sameConsole (a : Word) (b : Byte) (obj : Option Extent) :
    Respects SameConsole (store8 a b obj : K Flat Unit) := fun s _ _ h => by
  cases h
  have hnoted := SameConsole.noted s obj a 1
  exact ⟨rfl, hnoted.vga, hnoted.ports, hnoted.bg⟩

theorem load32_sameConsole (a : Word) (obj : Option Extent) : Respects SameConsole (load32 a obj : K Flat Word) :=
  fun s _ _ h => by
    cases h
    exact .noted s obj a 4

theorem store32_sameConsole (a w : Word) (obj : Option Extent) :
    Respects SameConsole (store32 a w obj : K Flat Unit) := fun s _ _ h => by
  cases h
  have hnoted := SameConsole.noted s obj a 4
  exact ⟨rfl, hnoted.vga, hnoted.ports, hnoted.bg⟩

theorem Src.get_sameConsole (src : Src) (i : Nat) : Respects SameConsole (src.get i : K Flat Byte) := by
  cases src with
  | mem a obj => exact load8_sameConsole _ obj
  | lit bs => exact .ite (.pure _) (.throw _)

theorem memcpy_sameConsole (dst src : Word) (size : Nat) (obj : Option Extent) :
    Respects SameConsole (memcpy dst src size obj : K Flat Unit) :=
  .forUp (fun _ => (load8_sameConsole _ obj).bind fun _ => store8_sameConsole _ _ none) 0 size

theorem strcpy_sameConsole (dest : Word) (src : Src) (obj : Option Extent) :
    Respects SameConsole (strcpy dest src obj : K Flat Unit) := by
  have hloop : ∀ fuel i, Respects SameConsole (strcpyFrom dest src obj fuel i : K Flat Unit) := by
    intro fuel
    induction fuel with
    | zero => exact fun _ => .throw _
    | succ fuel ih =>
        intro i
        refine (src.get_sameConsole i).bind fun _ => (store8_sameConsole _ _ obj).bind fun _ => ?_
        exact (src.get_sameConsole (i + 1)).bind fun _ => .ite (.pure _) (ih (i + 1))
  exact hloop _ 0

theorem strlen_sameConsole (src : Src) : Respects SameConsole (strlen src : K Flat Nat) := by
  have hloop : ∀ fuel i, Respects SameConsole (strlenFrom src fuel i : K Flat Nat) := by
    intro fuel
    induction fuel with
    | zero => exact fun _ => .throw _
    | succ fuel ih => exact fun i => (src.get_sameConsole i).bind fun _ => .ite (.pure _) (ih (i + 1))
  exact hloop _ 0

end Memory

/-! ## Bytes on two consoles -/

section Alike

theorem outb_alike (port : Half) (b : Byte) : Alike SameConsole (outb port b : K Flat Unit) := fun s t h =>
  .of_eq (outb_run port b) (.of_eq (outb_run port b) ⟨rfl, h.cells, h.vga, by rw [h.ports], h.bg⟩)

theorem loadCell_alike (a : Word) : Alike SameConsole (loadCell a : K Flat Half) := fun s t h =>
  .of_eq (a := s.mem.cells a) rfl (.of_eq (a := t.mem.cells a) rfl ⟨by rw [h.cells], h⟩)

theorem storeCell_alike (a : Word) (c : Half) : Alike SameConsole (storeCell a c : K Flat Unit) := fun s t h => by
  refine .of_eq (a := ()) rfl (.of_eq (a := ()) rfl ⟨rfl, ?_, h.vga, h.ports, h.bg⟩)
  simp only [Flat.setCell, h.cells]

theorem vgaPositionCursor_alike (x y : Byte) : Alike SameConsole (vgaPositionCursor x y : K Flat Unit) :=
  (outb_alike _ _).bind fun _ => (outb_alike _ _).bind fun _ => (outb_alike _ _).bind fun _ => outb_alike _ _

/-- The cursor is moved to where the driver's globals say. -/
theorem moveCursor_alike : Alike SameConsole (do
    let vga := (← get).vga
    vgaPositionCursor vga.x vga.y : K Flat Unit) :=
  .get (fun _ => vgaPositionCursor_alike _ _) fun s t h => by rw [h.vga]

theorem scroll_alike : Alike SameConsole (scroll : K Flat Unit) := by
  unfold scroll
  refine .get (fun s => ?_) fun s t h => by rw [h.vga]
  refine .bind (.forUp (fun i => (loadCell_alike _).bind fun c => storeCell_alike _ c) _ _) fun _ => ?_
  exact .modify fun s t h => ⟨h.cells, by rw [h.vga], h.ports, h.bg⟩

theorem vgaWriteB_alike (ch : Byte) (fore back : Color) :
    Alike SameConsole (vgaWriteB ch fore back : K Flat Unit) := by
  unfold vgaWriteB
  refine .get (fun s => ?_) fun s t h => by rw [h.vga]
  refine (storeCell_alike _ _).bind fun _ => .bind (.modify fun s t h => ?_) fun _ => moveCursor_alike
  exact ⟨h.cells, by rw [h.vga], h.ports, h.bg⟩

theorem vgaNewline_alike : Alike SameConsole (vgaNewline : K Flat Unit) := by
  unfold vgaNewline
  refine .get (fun s => .ite (scroll_alike.bind fun _ => moveCursor_alike) ?_) fun s t h => by rw [h.vga]
  exact .bind (.modify fun s t h => ⟨h.cells, by rw [h.vga], h.ports, h.bg⟩) fun _ => moveCursor_alike

theorem screenPut_alike (c : Byte) : Alike SameConsole (screenPut c : K Flat Unit) := by
  unfold screenPut charProcess
  refine .ite vgaNewline_alike (.ite (.pure ()) ?_)
  exact .get (fun _ => vgaWriteB_alike _ _ _) fun s t h => by rw [h.bg]

end Alike

/-! ## What has been put out -/

/-- The bytes, put on the screen in `s`, leave the console of `s'`. -/
def Shown (bs : List Byte) (s s' : Kernel Flat) : Prop :=
  Returns (bs.forM screenPut) s fun _ t => SameConsole t s'

namespace Shown

variable {bs bs' : List Byte} {s s' s₁ s₂ : Kernel Flat}

/-- Code that leaves the console alone puts nothing out. -/
theorem nothing {α : Type} {x : K Flat α} {a : α} (hx : Respects SameConsole x) (h : x s = .ok (a, s')) :
    Shown [] s s' := .of_eq (a := ()) rfl (hx s a s' h)

theorem of_eq (h : bs.forM screenPut s = .ok ((), s')) : Shown bs s s' := Returns.of_eq h (.refl s')

/-- What is put out first comes first. -/
theorem append (h : Shown bs s s₁) (h' : Shown bs' s₁ s₂) : Shown (bs ++ bs') s s₂ := by
  obtain ⟨_, t, hrun, hsame⟩ := h
  obtain ⟨_, t', hrun', hsame'⟩ := h'
  have halike : Alike SameConsole (bs'.forM screenPut : K Flat Unit) := .forM screenPut_alike
  obtain ⟨_, u, hu, _, v, hv, _, huv⟩ := halike s₁ t hsame.symm
  rw [hrun'] at hu
  cases hu
  refine Returns.of_eq (a := ()) ?_ (huv.symm.trans hsame')
  have happend : (bs ++ bs').forM screenPut s = (do bs.forM screenPut; bs'.forM screenPut : K Flat Unit) s := by
    simp
  rw [happend, bind_run hrun]
  exact hv

end Shown

section Printed

variable {bs lead fmt : List Byte} {args : Bytes} {cw : Int} {s : Kernel Flat} {p : Word}

theorem kPrintf_shown (h : printed (Bus.load8 s.mem) fmt args = .ok (bs, cw)) :
    Returns (kPrintf fmt args) s fun _ s' => ConsoleOnly s s' ∧ Shown bs s s' := by
  obtain ⟨_, s', hrun, hconsole⟩ := screenText_console (s := s) bs
  exact .of_eq ((kPrintf_output h).trans hrun) ⟨hconsole, .of_eq hrun⟩

/-- A line that is printed is put out with its newline. -/
theorem kPrintfln_shown (h : printed (Bus.load8 s.mem) fmt args = .ok (bs, cw)) :
    Returns (kPrintfln fmt args) s fun _ s' => ConsoleOnly s s' ∧ Shown (bs ++ [newline]) s s' := by
  obtain ⟨_, s', hrun, hconsole⟩ := screenText_console (s := s) (bs ++ [newline])
  exact .of_eq ((kPrintfln_output h).trans hrun) ⟨hconsole, .of_eq hrun⟩

/-- A line with a string that ends. -/
theorem kPrintfln_string (lead : List Byte) (hlead : ∀ c ∈ lead, c ≠ 0#8 ∧ c ≠ chr '%') (hp : p ≠ 0#32)
    (h : stringBytes (Bus.load8 s.mem) (2 ^ 32) p = .ok bs) :
    Returns (kPrintfln (renderAll (stringItems lead)) (slots [p])) s fun _ s' =>
      ConsoleOnly s s' ∧ Shown (lead ++ bs ++ [newline]) s s' := by
  have hprinted := printed_string (Bus.load8 s.mem) lead hlead hp
  rw [h] at hprinted
  exact kPrintfln_shown hprinted

end Printed

end LizaOS
