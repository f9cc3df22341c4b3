-- SUMMARY: Printing sends bytes to the ports of the CRT controller only, so it leaves the other devices alone.
import LizaOS.Drivers.Pic8259
import LizaOS.Kernel.Frequency
import LizaOS.Libc.StdioRun

/-!
# Ports of the console

What the kernel has sent to ports is in the order in which it was sent. A device takes the bytes for its own ports
from it.
-/

namespace LizaOS

open Exec

def CrtcPort (port : Half) : Prop := port = vgaCrtcIndex ∨ port = vgaCrtcData

/-- Behind what has been sent there are bytes for the CRT controller only. -/
def SentToCrtc {μ : Type} (s s' : Kernel μ) : Prop :=
  ∃ ws, s'.ports = s.ports ++ ws ∧ ∀ w ∈ ws, CrtcPort w.1

instance {μ : Type} : IsPreorder (Kernel μ) SentToCrtc where
  refl s := ⟨[], (List.append_nil _).symm, fun _ hw => absurd hw List.not_mem_nil⟩
  trans s s' s'' := by
    rintro ⟨ws, hws, hall⟩ ⟨ws', hws', hall'⟩
    refine ⟨ws ++ ws', by rw [hws', hws, List.append_assoc], fun w hw => ?_⟩
    exact (List.mem_append.mp hw).elim (hall w) (hall' w)

section Printing

variable {μ : Type}

theorem SentToCrtc.of_eq {s s' : Kernel μ} (h : s'.ports = s.ports) : SentToCrtc s s' :=
  ⟨[], by rw [h, List.append_nil], fun _ hw => absurd hw List.not_mem_nil⟩

theorem vgaPositionCursor_sends (x y : Byte) : Respects SentToCrtc (vgaPositionCursor x y : K μ Unit) := by
  intro s _ s' hrun
  rw [vgaPositionCursor_run] at hrun
  cases hrun
  refine ⟨cursorWrites x y, rfl, fun w hw => ?_⟩
  simp only [cursorWrites, List.mem_cons, List.not_mem_nil, or_false] at hw
  rcases hw with rfl | rfl | rfl | rfl
  · exact .inl rfl
  · exact .inr rfl
  · exact .inl rfl
  · exact .inr rfl

variable [Bus μ]

theorem loadCell_sends (a : Word) : Respects SentToCrtc (loadCell a : K μ Half) := by
  intro s _ s' hrun
  obtain ⟨_, _, hs⟩ := except_map_ok.mp hrun
  cases hs
  exact .of_eq rfl

theorem storeCell_sends (a : Word) (c : Half) : Respects SentToCrtc (storeCell a c : K μ Unit) := by
  intro s _ s' hrun
  obtain ⟨_, _, hs⟩ := except_map_ok.mp hrun
  cases hs
  exact .of_eq rfl

theorem vgaWriteB_sends (ch : Byte) (fore back : Color) : Respects SentToCrtc (vgaWriteB ch fore back : K μ Unit) := by
  unfold vgaWriteB
  refine Respects.get.bind fun _ => (storeCell_sends _ _).bind fun _ => ?_
  refine Respects.bind (.modify fun _ => .of_eq rfl) fun _ => Respects.get.bind fun _ => ?_
  exact vgaPositionCursor_sends _ _

theorem scroll_sends : Respects SentToCrtc (scroll : K μ Unit) := by
  unfold scroll
  refine Respects.get.bind fun _ => Respects.bind (.forUp ?_ _ _) fun _ => .modify fun _ => .of_eq rfl
  exact fun _ => (loadCell_sends _).bind fun _ => storeCell_sends _ _

theorem vgaNewline_sends : Respects SentToCrtc (vgaNewline : K μ Unit) := by
  unfold vgaNewline
  refine Respects.get.bind fun _ => .ite ?_ ?_
  · exact scroll_sends.bind fun _ => Respects.get.bind fun _ => vgaPositionCursor_sends _ _
  · refine Respects.bind (.modify fun _ => .of_eq rfl) fun _ => Respects.get.bind fun _ => ?_
    exact vgaPositionCursor_sends _ _

theorem screenPut_sends (c : Byte) : Respects SentToCrtc (screenPut c : K μ Unit) :=
  .ite vgaNewline_sends (.ite (.pure _) (Respects.get.bind fun _ => vgaWriteB_sends _ _ _))

theorem readString_sends (fuel : Nat) (p : Word) : Respects SentToCrtc (readString fuel p : K μ _) := by
  induction fuel generalizing p with
  | zero => exact .throw _
  | succ fuel ih =>
      refine Respects.bind (fun s _ s' hrun => ?_) fun _ => .ite (.pure _) ((ih _).bind fun _ => .pure _)
      obtain ⟨_, _, hs⟩ := except_map_ok.mp hrun
      cases hs
      exact .of_eq rfl

theorem kPrintf_sends (fmt : List Byte) (args : Bytes) : Respects SentToCrtc (kPrintf fmt args : K μ Unit) := by
  unfold kPrintf
  cases print fmt args with
  | error e => exact .throw e
  | ok pieces =>
      refine .forM fun piece => ?_
      cases piece with
      | text bs => exact .forM fun c => screenPut_sends c
      | string ptr width flags => exact (readString_sends _ _).bind fun _ => .forM fun c => screenPut_sends c

end Printing

/-! ## The other devices -/

theorem Pics.writes_crtc {ws : List (Half × Byte)} (h : ∀ w ∈ ws, CrtcPort w.1) (p : Pics) : p.writes ws = p := by
  induction ws with
  | nil => rfl
  | cons w ws ih =>
      have hw : p.outb w.1 w.2 = p := by
        rcases h w (List.mem_cons_self ..) with hport | hport <;> rw [hport] <;> rfl
      show (p.outb w.1 w.2).writes ws = p
      rw [hw]
      exact ih fun w' hw' => h w' (List.mem_cons_of_mem w hw')

theorem Pit.writes_crtc {ws : List (Half × Byte)} (h : ∀ w ∈ ws, CrtcPort w.1) (p : Pit) : p.writes ws = p := by
  induction ws with
  | nil => rfl
  | cons w ws ih =>
      have hw : p.outb w.1 w.2 = p := by
        rcases h w (List.mem_cons_self ..) with hport | hport <;> rw [hport] <;> rfl
      show (p.outb w.1 w.2).writes ws = p
      rw [hw]
      exact ih fun w' hw' => h w' (List.mem_cons_of_mem w hw')

theorem Pit.writes_append (p : Pit) (ws ws' : List (Half × Byte)) :
    p.writes (ws ++ ws') = (p.writes ws).writes ws' := List.foldl_append ..

/-- The drivers of the interrupt controllers and of the interval timer use different ports. -/
theorem Pics.writes_frequency (p : Pics) (f : Half) : p.writes (frequencyWrites f) = p := rfl

end LizaOS
