-- SUMMARY: Printing on flat memory comes back and touches nothing but the screen.
import LizaOS.Drivers.VgaRun
import LizaOS.Kernel.Watch
import LizaOS.Libc.Stdio

/-!
# Runs of the printing functions

Printing is of interest to the rest of the kernel for what it leaves alone. On flat memory the screen
is not part of RAM, so what is printed has no influence on anything but the screen and the driver's
own globals.
-/

namespace LizaOS

open Exec

/-! ## The rest of the kernel's globals -/

section Around

variable {μ : Type}

theorem vgaPositionCursor_around (x y : Byte) : Respects Around (vgaPositionCursor x y : K μ Unit) := by
  intro s _ s' hrun
  rw [vgaPositionCursor_run] at hrun
  cases hrun
  exact ⟨s.mem, _, s.vga, rfl⟩

variable [Bus μ]

theorem vgaWriteB_around (ch : Byte) (fore back : Color) :
    Respects Around (vgaWriteB ch fore back : K μ Unit) := by
  unfold vgaWriteB
  refine Respects.get.bind fun _ => (Around.storeCell _ _).bind fun _ => ?_
  refine Respects.bind (.modify fun s => ⟨s.mem, s.ports, _, rfl⟩) fun _ => Respects.get.bind fun _ => ?_
  exact vgaPositionCursor_around _ _

theorem scroll_around : Respects Around (scroll : K μ Unit) := by
  unfold scroll
  refine Respects.get.bind fun _ => Respects.bind (.forUp ?_ _ _) fun _ =>
    .modify fun s => ⟨s.mem, s.ports, _, rfl⟩
  exact fun _ => (Around.loadCell _).bind fun _ => Around.storeCell _ _

theorem vgaNewline_around : Respects Around (vgaNewline : K μ Unit) := by
  unfold vgaNewline
  refine Respects.get.bind fun _ => .ite ?_ ?_
  · exact scroll_around.bind fun _ => Respects.get.bind fun _ => vgaPositionCursor_around _ _
  · refine Respects.bind (.modify fun s => ⟨s.mem, s.ports, _, rfl⟩) fun _ => Respects.get.bind fun _ => ?_
    exact vgaPositionCursor_around _ _

theorem screenPut_around (c : Byte) : Respects Around (screenPut c : K μ Unit) :=
  .ite vgaNewline_around (.ite (.pure _) (Respects.get.bind fun _ => vgaWriteB_around _ _ _))

theorem readString_around (fuel : Nat) (p : Word) : Respects Around (readString fuel p : K μ _) := by
  induction fuel generalizing p with
  | zero => exact .throw _
  | succ fuel ih =>
      exact (Around.load8 p).bind fun _ => .ite (.pure _) ((ih _).bind fun _ => .pure _)

theorem kPrintf_around (fmt : List Byte) (args : Bytes) : Respects Around (kPrintf fmt args : K μ Unit) := by
  unfold kPrintf
  cases print fmt args with
  | error e => exact .throw e
  | ok pieces =>
      refine .forM fun piece => ?_
      cases piece with
      | text bs => exact .forM fun c => screenPut_around c
      | string ptr width flags =>
          exact (readString_around _ _).bind fun _ => .forM fun c => screenPut_around c

theorem kPrintfln_around (fmt : List Byte) (args : Bytes) :
    Respects Around (kPrintfln fmt args : K μ Unit) :=
  (kPrintf_around fmt args).bind fun _ => screenPut_around newline

/-- Printing is not a watched access. -/
theorem kPrintf_remembers (fmt : List Byte) (args : Bytes) : Remembers (kPrintf fmt args : K μ Unit) :=
  Around.remembers (kPrintf_around fmt args)

theorem kPrintfln_remembers (fmt : List Byte) (args : Bytes) : Remembers (kPrintfln fmt args : K μ Unit) :=
  Around.remembers (kPrintfln_around fmt args)

end Around

/-! ## The screen and nothing else -/

/-- The states differ in the screen and in the globals of its driver at most. -/
def ConsoleOnly (s s' : Kernel Flat) : Prop :=
  ∃ cells ports vga, s' = { s with mem := { s.mem with cells := cells }, ports := ports, vga := vga }

theorem ConsoleOnly.refl (s : Kernel Flat) : ConsoleOnly s s := ⟨s.mem.cells, s.ports, s.vga, rfl⟩

theorem ConsoleOnly.trans {s₁ s₂ s₃ : Kernel Flat} (h : ConsoleOnly s₁ s₂) (h' : ConsoleOnly s₂ s₃) :
    ConsoleOnly s₁ s₃ := by
  obtain ⟨cells, ports, vga, rfl⟩ := h
  obtain ⟨cells', ports', vga', rfl⟩ := h'
  exact ⟨cells', ports', vga', rfl⟩

section Console

variable {s : Kernel Flat}

theorem scroll_console : Returns (scroll : K Flat Unit) s fun _ s' => ConsoleOnly s s' := by
  have hloop : Returns (forUp (scrollCell s.vga.vgaBuff) 0 scrollCells : K Flat Unit) s
      fun _ s' => ConsoleOnly s s' := by
    refine forUp_returns (I := fun _ s' => ConsoleOnly s s') (.refl s) fun i s₁ _ _ h₁ => ?_
    exact .of_eq (a := ()) rfl (h₁.trans ⟨_, s₁.ports, s₁.vga, rfl⟩)
  obtain ⟨_, s₁, hrun, h₁⟩ := hloop
  rw [Returns, scroll, bind_run (get_apply s), bind_run hrun]
  exact ⟨_, _, rfl, h₁.trans ⟨s₁.mem.cells, s₁.ports, _, rfl⟩⟩

theorem screenPut_console (c : Byte) : Returns (screenPut c) s fun _ s' => ConsoleOnly s s' := by
  by_cases hnl : c = newline
  · subst hnl
    rcases Nat.lt_or_ge s.vga.y.toNat vgaHeight with hy | hy
    · exact .of_eq (screenPut_newline hy) ⟨s.mem.cells, _, _, rfl⟩
    · have hscroll := (scroll_console (s := s)).bind (R := fun _ s' => ConsoleOnly s s')
        (f := fun _ => do vgaPositionCursor (← get).vga.x (← get).vga.y) fun _ s₁ h₁ =>
          .of_eq (vgaPositionCursor_run s₁.vga.x s₁.vga.y) (h₁.trans ⟨s₁.mem.cells, _, s₁.vga, rfl⟩)
      have hput : screenPut newline s = (do
          scroll
          vgaPositionCursor (← get).vga.x (← get).vga.y) s := by
        simp [screenPut, charProcess, vgaNewline, bind_apply, hy]
      rw [Returns, hput]
      exact hscroll
  · by_cases hnul : c = 0#8
    · subst hnul
      exact .of_eq screenPut_nul (ConsoleOnly.refl s)
    · exact .of_eq (screenPut_printable ⟨hnl, hnul⟩) ⟨_, _, _, rfl⟩

theorem screenText_console (bs : List Byte) : Returns (bs.forM screenPut) s fun _ s' => ConsoleOnly s s' := by
  induction bs generalizing s with
  | nil => exact .of_eq rfl (ConsoleOnly.refl s)
  | cons c bs ih =>
      exact (screenPut_console c).bind fun _ s₁ h₁ => ih.mono fun _ s₂ h₂ => h₁.trans h₂

/-- The piece is no string in memory. -/
def Piece.isText : Piece → Bool
  | .text _ => true
  | .string _ _ _ => false

theorem putPieces_console {pieces : List Piece} (h : pieces.all Piece.isText = true) :
    Returns (pieces.forM putPiece) s fun _ s' => ConsoleOnly s s' := by
  induction pieces generalizing s with
  | nil => exact .of_eq rfl (ConsoleOnly.refl s)
  | cons piece pieces ih =>
      rw [List.all_cons, Bool.and_eq_true] at h
      have hfirst : Returns (putPiece piece) s fun _ s' => ConsoleOnly s s' := by
        cases piece with
        | text bs => exact screenText_console bs
        | string ptr width flags => cases h.1
      exact hfirst.bind fun _ s₁ h₁ => (ih h.2).mono fun _ s₂ h₂ => h₁.trans h₂

/-- Printing comes back, if the format is well formed and has no `%s`. -/
theorem kPrintf_console {fmt : List Byte} {args : Bytes}
    (h : (print fmt args).map (·.all Piece.isText) = .ok true) :
    Returns (kPrintf fmt args) s fun _ s' => ConsoleOnly s s' := by
  unfold kPrintf
  cases hprint : print fmt args with
  | error e =>
      rw [hprint] at h
      cases h
  | ok pieces =>
      rw [hprint] at h
      exact putPieces_console (Except.ok.inj h)

theorem kPrintfln_console {fmt : List Byte} {args : Bytes}
    (h : (print fmt args).map (·.all Piece.isText) = .ok true) :
    Returns (kPrintfln fmt args) s fun _ s' => ConsoleOnly s s' :=
  (kPrintf_console h).bind fun _ _ h₁ =>
    (screenPut_console newline).mono fun _ _ h₂ => h₁.trans h₂

end Console

end LizaOS
