-- SUMMARY: Hardware interrupts from the raised line to the end of the service: none is lost, none is served twice.
import LizaOS.Drivers.Pic8259
import LizaOS.Kernel.DispatchRun
import Mathlib.Data.Fintype.Basic

/-!
# Interrupt lines

The interrupt code together with the controllers: devices raise their lines at any time, the processor is
interrupted when a controller asks for it, and the stubs call the C code, which tells the controllers of the end.
A handler may switch interrupts on, so interrupts may arrive while one is handled.
-/

namespace LizaOS

open Exec

/-! ## A machine with controllers -/

/-- Memory with the controllers beside it. `taken` counts the bytes of the kernel's port writes that they have seen,
`latched` the requests of each line that found it not raised, and `served` the interrupts taken for it. -/
structure Wired where
  ram : Flat
  pics : Pics
  taken : Nat
  latched : Fin 16 → Nat
  served : Fin 16 → Nat

instance : Bus Wired where
  load8 m a := Bus.load8 m.ram a
  store8 m a b := (Bus.store8 m.ram a b).map fun ram => { m with ram := ram }
  load32 m a := Bus.load32 m.ram a
  store32 m a w := (Bus.store32 m.ram a w).map fun ram => { m with ram := ram }
  loadCell m a := Bus.loadCell m.ram a
  storeCell m a h := (Bus.storeCell m.ram a h).map fun ram => { m with ram := ram }

namespace Kernel

/-- The controllers, with what the kernel has sent to them. -/
def pics (s : Kernel Wired) : Pics := s.mem.pics.writes (s.ports.drop s.mem.taken)

/-- The controllers come to a state of their own. -/
def withPics (s : Kernel Wired) (p : Pics) : Kernel Wired :=
  { s with mem := { s.mem with pics := p, taken := s.ports.length } }

/-- A device raises its line. -/
def raise (n : Fin 16) (s : Kernel Wired) : Kernel Wired :=
  let s' := s.withPics (s.pics.raise n)
  { s' with mem := { s'.mem with
    latched := fun k => if k = n ∧ s.pics.raised n = false then s.mem.latched k + 1 else s.mem.latched k } }

/-- The controllers have given a vector to the processor. -/
def interrupted (s : Kernel Wired) (v : Nat) (p : Pics) : Kernel Wired :=
  let s' := s.withPics p
  { s' with mem := { s'.mem with
    served := fun k => if v = 32 + k.val then s.mem.served k + 1 else s.mem.served k } }

end Kernel

/-- The entry of the table that the processor goes through: where there is none it raises the exception for
this. -/
def Gate.at (v : Nat) : Gate :=
  if h : v < 32 then .exception ⟨v, h⟩
  else if h : v < 48 then .irq ⟨v - 32, by omega⟩
  else if v = 128 then .system
  else .exception ⟨11, by decide⟩

/-- Work of the kernel and its handlers that is not about the controllers. -/
structure OtherWork where
  work : Kernel Wired → Kernel Wired
  ports : ∀ s, ∃ ws, (work s).ports = s.ports ++ ws ∧ ∀ p : Pics, p.writes ws = p
  mem : ∀ s, (work s).mem.pics = s.mem.pics ∧ (work s).mem.taken = s.mem.taken ∧
    (work s).mem.latched = s.mem.latched ∧ (work s).mem.served = s.mem.served

/-- What happens, in the order in which it begins. While an interrupt is handled, more may happen. -/
inductive LineEvent where
  | raise (n : Fin 16)
  | interrupt (at' : Interrupted) (inside : List LineEvent)
  /-- A request is gone when the processor asks for its vector. -/
  | spurious (second : Bool) (at' : Interrupted) (inside : List LineEvent)
  | own (w : OtherWork)

section Run

/-- The stub and the C code behind a vector, which calls the handler. -/
def dispatchVector (call : Word → Registers → D Wired Unit) (v : Nat) (at' : Interrupted) : D Wired Unit := do
  note (.delivered (Gate.at v).vector)
  (Gate.at v).handle call at'

/-- The processor is interrupted, if a controller asks for it. -/
def takeInterrupt (call : Word → Registers → D Wired Unit) (at' : Interrupted) : D Wired Unit := do
  let p := (← get).kernel.pics
  if p.Interrupting then
    kernelCode (modify fun s => s.interrupted p.acknowledge.1 p.acknowledge.2)
    dispatchVector call p.acknowledge.1 at'

/-- The processor is interrupted for a request that is gone. -/
def takeSpurious (call : Word → Registers → D Wired Unit) (second : Bool) (at' : Interrupted) : D Wired Unit := do
  let p := (← get).kernel.pics
  kernelCode (modify fun s => s.withPics (p.spurious second).2)
  dispatchVector call (p.spurious second).1 at'

mutual

def LineEvent.run : LineEvent → D Wired Unit
  | .raise n => kernelCode (modify (Kernel.raise n))
  | .interrupt at' inside => takeInterrupt (called (runLines inside)) at'
  | .spurious second at' inside => takeSpurious (called (runLines inside)) second at'
  | .own w => kernelCode (modify w.work)

def runLines : List LineEvent → D Wired Unit
  | [] => pure ()
  | e :: es => do
      e.run
      runLines es

end

end Run

/-! ## What is kept -/

/-- The controllers are programmed, serve no more lines than in `p`, have its masks, and have lost no request. -/
structure Serving (p : Pics) (s : Kernel Wired) : Prop where
  taken : s.mem.taken ≤ s.ports.length
  programmed : s.pics.Programmed 0x20 0x28
  service : p.NoMore s.pics
  masks : ∀ k, s.pics.masked k = p.masked k
  balance : ∀ k : Fin 16, k.val ≠ Pics.cascadeLine → s.mem.latched k = s.mem.served k + (s.pics.raised k).toNat
  maskedOff : ∀ k, p.masked k = true → s.mem.served k = 0

namespace Kernel

variable {s : Kernel Wired} {p : Pics} {v : Nat} {n : Fin 16}

theorem pics_withPics (s : Kernel Wired) (p : Pics) : (s.withPics p).pics = p := by
  rw [pics, withPics]
  simp only [List.drop_length]
  rfl

theorem pics_raise (n : Fin 16) (s : Kernel Wired) : (s.raise n).pics = s.pics.raise n :=
  pics_withPics s _

theorem pics_interrupted (s : Kernel Wired) (v : Nat) (p : Pics) : (s.interrupted v p).pics = p :=
  pics_withPics s p

theorem pics_sent (ws : List (Half × Byte)) (hs : s.mem.taken ≤ s.ports.length) :
    pics { s with ports := s.ports ++ ws } = s.pics.writes ws := by
  show s.mem.pics.writes ((s.ports ++ ws).drop s.mem.taken) = _
  rw [List.drop_append_of_le_length hs, Pics.writes_append]
  rfl

theorem pics_work (w : OtherWork) (hs : s.mem.taken ≤ s.ports.length) : (w.work s).pics = s.pics := by
  obtain ⟨ws, hports, hws⟩ := w.ports s
  obtain ⟨hpics, htaken, _⟩ := w.mem s
  show (w.work s).mem.pics.writes ((w.work s).ports.drop (w.work s).mem.taken) = _
  rw [hports, hpics, htaken, List.drop_append_of_le_length hs, Pics.writes_append, hws]
  rfl

end Kernel

namespace Serving

variable {p q : Pics} {s : Kernel Wired} {n : Fin 16}

theorem raise (h : Serving p s) (n : Fin 16) : Serving p (s.raise n) := by
  obtain ⟨_, hprogrammed, hservice, hmasks, hbalance, hoff⟩ := h
  refine ⟨Nat.le_refl _, ?_, ?_, fun k => ?_, fun k hk => ?_, hoff⟩
  · rw [Kernel.pics_raise]
    exact hprogrammed.raise n
  · rw [Kernel.pics_raise]
    exact hservice.trans (Pics.raise_noMore s.pics n)
  · rw [Kernel.pics_raise, Pics.masked_raise, hmasks]
  · have hold := hbalance k hk
    rw [Kernel.pics_raise, Pics.raised_raise]
    show (if k = n ∧ s.pics.raised n = false then s.mem.latched k + 1 else s.mem.latched k) = s.mem.served k + _
    by_cases hkn : k = n
    · subst hkn
      cases hraised : s.pics.raised k with
      | false =>
          rw [hraised] at hold
          simp only [true_and, if_true]
          rw [hold]
          rfl
      | true =>
          rw [hraised] at hold
          simp only [Bool.true_eq_false, and_false, if_false, if_true]
          exact hold
    · rw [if_neg fun h => hkn h.1, if_neg hkn]
      exact hold

theorem own (h : Serving p s) (w : OtherWork) : Serving p (w.work s) := by
  obtain ⟨ws, hports, _⟩ := w.ports s
  obtain ⟨_, htaken, hlatched, hserved⟩ := w.mem s
  have hsame := Kernel.pics_work w h.taken
  refine ⟨?_, ?_, ?_, ?_, fun k hk => ?_, fun k hk => ?_⟩
  · rw [htaken, hports, List.length_append]
    have hle := h.taken
    omega
  · rw [hsame]
    exact h.programmed
  · rw [hsame]
    exact h.service
  · rw [hsame]
    exact h.masks
  · rw [hsame, hlatched, hserved]
    exact h.balance k hk
  · rw [hserved]
    exact h.maskedOff k hk

/-- A service begins. -/
theorem begin (h : Serving p s) {q : Pics} (hq : q.Programmed 0x20 0x28) (htaken : s.pics.Taken n q) :
    Serving q (s.interrupted (32 + n) q) := by
  refine ⟨Nat.le_refl _, ?_, ?_, fun k => ?_, fun k hk => ?_, fun k hk => ?_⟩
  · rw [Kernel.pics_interrupted]
    exact hq
  · rw [Kernel.pics_interrupted]
    exact .refl q
  · rw [Kernel.pics_interrupted]
  · have hold := h.balance k hk
    rw [Kernel.pics_interrupted, htaken.others k hk]
    show s.mem.latched k = (if 32 + n.val = 32 + k.val then s.mem.served k + 1 else s.mem.served k) + _
    by_cases hkn : k = n
    · subst hkn
      rw [if_pos rfl, if_pos rfl, hold, htaken.raised]
      rfl
    · have hne : ¬32 + n.val = 32 + k.val := fun heq => hkn (Fin.ext (by omega))
      rw [if_neg hne, if_neg hkn]
      exact hold
  · have hne : ¬32 + n.val = 32 + k.val := by
      intro heq
      obtain rfl : n = k := Fin.ext (by omega)
      rw [htaken.masks, htaken.unmasked] at hk
      cases hk
    show (if 32 + n.val = 32 + k.val then s.mem.served k + 1 else s.mem.served k) = 0
    rw [if_neg hne]
    rw [htaken.masks, h.masks] at hk
    exact h.maskedOff k hk

/-- A request is gone. -/
theorem withPics (h : Serving p s) {q : Pics} (hq : q.Programmed 0x20 0x28)
    (hraised : ∀ k : Fin 16, k.val ≠ Pics.cascadeLine → q.raised k = s.pics.raised k)
    (hmasks : ∀ k, q.masked k = s.pics.masked k) : Serving q (s.withPics q) := by
  refine ⟨Nat.le_refl _, ?_, ?_, fun k => ?_, fun k hk => ?_, fun k hk => ?_⟩
  · rw [Kernel.pics_withPics]
    exact hq
  · rw [Kernel.pics_withPics]
    exact .refl q
  · rw [Kernel.pics_withPics]
  · rw [Kernel.pics_withPics, hraised k hk]
    exact h.balance k hk
  · rw [hmasks, h.masks] at hk
    exact h.maskedOff k hk

theorem idle (h : Serving p s) (hidle : p.Idle) : s.pics.Idle := h.service.idle hidle

/-- The controllers are told of the end. -/
theorem ended (h : Serving q s) (hq : ∀ r, q.NoMore r → p.NoMore (r.ended n))
    (hmasks : ∀ k, q.masked k = p.masked k) :
    Serving p { s with ports := s.ports ++ eoiWrites (BitVec.ofNat 8 (32 + n)) } := by
  have hpics := Kernel.pics_sent (eoiWrites (BitVec.ofNat 8 (32 + n))) h.taken
  rw [Pics.writes_eoi] at hpics
  obtain ⟨hprogrammed, hraised, hmasked⟩ := Pics.ended_keeps h.programmed n
  have hle := h.taken
  refine ⟨?_, ?_, ?_, fun k => ?_, fun k hk => ?_, fun k hk => ?_⟩
  · rw [List.length_append]
    exact Nat.le_add_right_of_le hle
  · rw [hpics]
    exact hprogrammed
  · rw [hpics]
    exact hq _ h.service
  · rw [hpics, hmasked, h.masks, hmasks]
  · rw [hpics, hraised]
    exact h.balance k hk
  · exact h.maskedOff k (by rw [hmasks, hk])

end Serving

/-! ## Runs -/

section Runs

variable {p q : Pics} {d : Dispatch Wired} {n : Fin 16}

theorem Gate.at_irq (n : Fin 16) : Gate.at (32 + n) = .irq n := by
  unfold Gate.at
  rw [dif_neg (by omega), dif_pos (by omega)]
  exact congrArg Gate.irq (Fin.ext (Nat.add_sub_cancel_left ..))

/-- The C code calls what the table has for the vector, if anything, and then sends the end of the interrupt. -/
theorem isrIrqHandler_calls {I : Kernel Wired → Prop} (call : Word → Registers → D Wired Unit) (reg : Registers)
    (hnull : d.kernel.handlers reg.intNo.toNat = 0#32 → I d.kernel)
    (hcall : d.kernel.handlers reg.intNo.toNat ≠ 0#32 → ∀ acts,
      ∃ d', call (d.kernel.handlers reg.intNo.toNat) reg { d with acts := acts } = (.ok (), d') ∧ I d'.kernel) :
    ∃ d', isrIrqHandler call reg d = (.ok (), d') ∧ ∃ s, I s ∧
      d'.kernel = { s with ports := s.ports ++ eoiWrites (reg.intNo.setWidth 8) } := by
  have heoi : ∀ d : Dispatch Wired, kernelCode (pic8259Eoi (reg.intNo.setWidth 8)) d =
      (.ok (), { d with kernel := { d.kernel with ports := d.kernel.ports ++ eoiWrites (reg.intNo.setWidth 8) } }) :=
    fun d => by rw [kernelCode, pic8259Eoi_writes]
  rw [isrIrqHandler, Lasting.bind_ok (loadHandler_run _ d)]
  by_cases hzero : d.kernel.handlers reg.intNo.toNat = 0#32
  · rw [if_neg (not_not.mpr hzero)]
    exact ⟨_, heoi _, d.kernel, hnull hzero, rfl⟩
  · rw [if_pos hzero, Lasting.bind_ok (loadHandler_run _ _)]
    obtain ⟨d₁, hrun, h₁⟩ := hcall hzero
      (d.acts ++ [.handlerIndex reg.intNo.toNat] ++ [.handlerIndex reg.intNo.toNat])
    exact ⟨_, (Lasting.bind_ok hrun).trans (heoi d₁), d₁.kernel, h₁, rfl⟩

/-- A vector of the controllers is dispatched: behind its end no more is in service than before the service. -/
theorem dispatchVector_serving {I : Kernel Wired → Prop} (call : Word → Registers → D Wired Unit) (at' : Interrupted)
    (hI : ∀ s, I s → Serving q s)
    (hnull : d.kernel.handlers (32 + (n.val : Int)) = 0#32 → I d.kernel)
    (hcall : d.kernel.handlers (32 + (n.val : Int)) ≠ 0#32 → ∀ reg acts,
      ∃ d', call (d.kernel.handlers (32 + (n.val : Int))) reg { d with acts := acts } = (.ok (), d') ∧ I d'.kernel)
    (hends : ∀ r, q.NoMore r → p.NoMore (r.ended n)) (hmasks : ∀ k, q.masked k = p.masked k) :
    ∃ d', dispatchVector call (32 + n) at' d = (.ok (), d') ∧ Serving p d'.kernel ∧ ∃ s, I s ∧
      d'.kernel = { s with ports := s.ports ++ eoiWrites (BitVec.ofNat 8 (32 + n)) } := by
  have hnum : ((Gate.irq n).registers at').intNo.setWidth 8 = BitVec.ofNat 8 (32 + n) := by
    apply BitVec.eq_of_toNat_eq
    rw [BitVec.toNat_setWidth, Gate.registers_intNo, BitVec.toNat_ofNat]
    rfl
  have hindex : (((Gate.irq n).registers at').intNo.toNat : Int) = 32 + (n.val : Int) := by
    rw [Gate.registers_intNo]
    rfl
  obtain ⟨d', hrun, s, hs, hkernel⟩ := isrIrqHandler_calls (I := I) call ((Gate.irq n).registers at')
    (d := { d with acts := d.acts ++ [.delivered (Gate.irq n).vector] })
    (by rw [hindex]; exact hnull) (by rw [hindex]; exact fun hthere acts => hcall hthere _ acts)
  rw [hnum] at hkernel
  refine ⟨d', ?_, ?_, s, hs, hkernel⟩
  · rw [dispatchVector, Gate.at_irq, Lasting.bind_ok (note_run _ d)]
    exact hrun
  · rw [hkernel]
    exact (hI s hs).ended hends hmasks

/-- An interrupt is for a line that has been raised, if a controller asks for one at all. -/
theorem takeInterrupt_cases (call : Word → Registers → D Wired Unit) (at' : Interrupted) (h : Serving p d.kernel) :
    (¬d.kernel.pics.Interrupting ∧ takeInterrupt call at' d = (.ok (), d)) ∨
    ∃ n q, d.kernel.pics.Taken n q ∧ q.Programmed 0x20 0x28 ∧ (∀ k, q.masked k = p.masked k) ∧
      takeInterrupt call at' d =
        dispatchVector call (32 + n) at' { d with kernel := d.kernel.interrupted (32 + n) q } := by
  rw [takeInterrupt, Lasting.bind_ok (Lasting.get_run d)]
  by_cases hint : d.kernel.pics.Interrupting
  · obtain ⟨n, hvector, htaken, hprogrammed⟩ := Pics.acknowledge_taken h.programmed hint
    have hv : d.kernel.pics.acknowledge.1 = 32 + n := by
      rw [hvector]
      split <;> omega
    refine .inr ⟨n, d.kernel.pics.acknowledge.2, htaken, hprogrammed, fun k => (htaken.masks k).trans (h.masks k), ?_⟩
    rw [if_pos hint, hv]
    rfl
  · rw [if_neg hint]
    exact .inl ⟨hint, rfl⟩

/-- An interrupt for a request that is gone. -/
theorem takeSpurious_run (call : Word → Registers → D Wired Unit) (second : Bool) (at' : Interrupted)
    (h : Serving p d.kernel) :
    ∃ q, Serving q (d.kernel.withPics q) ∧ (∀ r, q.NoMore r → p.NoMore (r.ended (Pics.spuriousLine second))) ∧
      (∀ k, q.masked k = p.masked k) ∧ takeSpurious call second at' d =
        dispatchVector call (32 + Pics.spuriousLine second) at' { d with kernel := d.kernel.withPics q } := by
  obtain ⟨hvector, hprogrammed, hraised, hmasks, hends⟩ := Pics.spurious_ends h.programmed second
  have hv : (d.kernel.pics.spurious second).1 = 32 + (Pics.spuriousLine second).val := by
    rw [hvector]
    cases second <;> rfl
  refine ⟨_, h.withPics hprogrammed hraised hmasks, fun r hr => h.service.trans (hends r hr),
    fun k => (hmasks k).trans (h.masks k), ?_⟩
  rw [takeSpurious, Lasting.bind_ok (Lasting.get_run d), hv]
  rfl

mutual

/-- Each step comes back with no more lines in service, however much has happened inside it. The induction is on
what happens inside, and a request that is gone ends one service at most. -/
theorem LineEvent.run_serving (e : LineEvent) {p : Pics} {d : Dispatch Wired} (h : Serving p d.kernel) :
    ∃ d', e.run d = (.ok (), d') ∧ Serving p d'.kernel := by
  cases e with
  | raise n => exact ⟨_, rfl, h.raise n⟩
  | own w => exact ⟨_, rfl, h.own w⟩
  | interrupt at' inside =>
      obtain ⟨_, hrun⟩ | ⟨n, q, htaken, hprogrammed, hmasks, hrun⟩ :=
        takeInterrupt_cases (called (runLines inside)) at' h
      · exact ⟨d, hrun, h⟩
      · obtain ⟨d', hdispatch, h', _⟩ := dispatchVector_serving (n := n) (I := Serving q)
          (d := { d with kernel := d.kernel.interrupted (32 + n) q }) (called (runLines inside)) at' (fun _ hs => hs)
          (fun _ => h.begin hprogrammed htaken) (fun _ _ _ => runLines_serving inside (h.begin hprogrammed htaken))
          (fun r hr => h.service.trans (htaken.ends r hr)) hmasks
        exact ⟨d', hrun.trans hdispatch, h'⟩
  | spurious second at' inside =>
      obtain ⟨q, hq, hends, hmasks, hrun⟩ := takeSpurious_run (called (runLines inside)) second at' h
      obtain ⟨d', hdispatch, h', _⟩ := dispatchVector_serving (I := Serving q)
        (d := { d with kernel := d.kernel.withPics q }) (called (runLines inside)) at' (fun _ hs => hs) (fun _ => hq)
        (fun _ _ _ => runLines_serving inside hq) hends hmasks
      exact ⟨d', hrun.trans hdispatch, h'⟩

theorem runLines_serving (es : List LineEvent) {p : Pics} {d : Dispatch Wired} (h : Serving p d.kernel) :
    ∃ d', runLines es d = (.ok (), d') ∧ Serving p d'.kernel := by
  cases es with
  | nil => exact ⟨d, rfl, h⟩
  | cons e es =>
      obtain ⟨d₁, hrun, h₁⟩ := e.run_serving h
      obtain ⟨d₂, hrest, h₂⟩ := runLines_serving es h₁
      exact ⟨d₂, (Lasting.bind_ok hrun).trans hrest, h₂⟩

end

/-! ## Requests are served -/

/-- The lines that have been raised and may interrupt. -/
def Pics.waiting (p : Pics) : Finset (Fin 16) :=
  Finset.univ.filter fun n => n.val ≠ Pics.cascadeLine ∧ p.raised n = true ∧ p.masked n = false

/-- Interrupts whose handlers raise no line themselves. -/
def interruptsFor (services : List (Interrupted × List OtherWork)) : List LineEvent :=
  services.map fun service => .interrupt service.1 (service.2.map .own)

theorem runLines_own (ws : List OtherWork) (h : Serving q d.kernel) : ∃ d', runLines (ws.map .own) d = (.ok (), d') ∧
    Serving q d'.kernel ∧ d'.kernel.pics = d.kernel.pics ∧ d'.kernel.mem.latched = d.kernel.mem.latched := by
  induction ws generalizing d with
  | nil => exact ⟨d, rfl, h, rfl, rfl⟩
  | cons w ws ih =>
      have hrun : (LineEvent.own w).run d = (.ok (), { d with kernel := w.work d.kernel }) := rfl
      obtain ⟨d', hrest, h', hpics, hlatched⟩ := ih (d := { d with kernel := w.work d.kernel }) (h.own w)
      refine ⟨d', (Lasting.bind_ok hrun).trans hrest, h', ?_, ?_⟩
      · exact hpics.trans (Kernel.pics_work w h.taken)
      · exact hlatched.trans (w.mem d.kernel).2.2.1

/-- One interrupt at rest serves one of the lines that wait. -/
theorem interrupt_serves (h : Serving p d.kernel) (hidle : p.Idle) (at' : Interrupted) (ws : List OtherWork)
    (hwaiting : d.kernel.pics.waiting.Nonempty) :
    ∃ d' n, (LineEvent.interrupt at' (ws.map .own)).run d = (.ok (), d') ∧ Serving p d'.kernel ∧
      n ∈ d.kernel.pics.waiting ∧ d'.kernel.pics.waiting = d.kernel.pics.waiting.erase n ∧
      d'.kernel.mem.latched = d.kernel.mem.latched := by
  obtain ⟨m, hm⟩ := hwaiting
  obtain ⟨_, hline, hraised, hmasked⟩ := Finset.mem_filter.mp hm
  have hint := Pics.interrupting_of_raised h.programmed (h.idle hidle) hline hraised hmasked
  obtain ⟨hnot, _⟩ | ⟨n, q, htaken, hprogrammed, hmasks, hrun⟩ :=
    takeInterrupt_cases (called (runLines (ws.map .own))) at' h
  · exact absurd hint hnot
  -- the handler raises no line, so between the start and the end nothing happens to the controllers
  let I : Kernel Wired → Prop := fun s => Serving q s ∧ s.pics = q ∧ s.mem.latched = d.kernel.mem.latched
  have hbegin : I (d.kernel.interrupted (32 + n) q) :=
    ⟨h.begin hprogrammed htaken, Kernel.pics_interrupted _ _ _, rfl⟩
  have hown : ∀ d, I d.kernel → ∃ d', runLines (ws.map .own) d = (.ok (), d') ∧ I d'.kernel := by
    intro d₁ ⟨h₁, hpics, hlatched⟩
    obtain ⟨d₂, hown, h₂, hpics', hlatched'⟩ := runLines_own ws h₁
    exact ⟨d₂, hown, h₂, hpics'.trans hpics, hlatched'.trans hlatched⟩
  obtain ⟨d', hdispatch, h', s, ⟨hs, hpics, hlatched⟩, hkernel⟩ := dispatchVector_serving (n := n) (I := I)
    (d := { d with kernel := d.kernel.interrupted (32 + n) q }) (called (runLines (ws.map .own))) at' (fun _ hs => hs.1) (fun _ => hbegin)
    (fun _ _ _ => hown _ hbegin) (fun r hr => h.service.trans (htaken.ends r hr)) hmasks
  have hended : d'.kernel.pics = q.ended n := by
    rw [hkernel, Kernel.pics_sent _ hs.taken, hpics, Pics.writes_eoi]
  obtain ⟨_, hkept, hkept'⟩ := Pics.ended_keeps hprogrammed n
  refine ⟨d', n, hrun.trans hdispatch, h', ?_, ?_, ?_⟩
  · exact Finset.mem_filter.mpr ⟨Finset.mem_univ n, htaken.device, htaken.raised, htaken.unmasked⟩
  · ext k
    rw [Finset.mem_erase, Pics.waiting, Pics.waiting, Finset.mem_filter, Finset.mem_filter, hended, hkept, hkept',
      htaken.masks]
    by_cases hk : k.val = Pics.cascadeLine
    · simp [hk]
    · rw [htaken.others k hk]
      by_cases hkn : k = n
      · simp [hkn]
      · simp [hkn]
  · rw [hkernel]
    exact hlatched

/-- Where no line waits no controller asks for an interrupt. -/
theorem interrupt_none (h : Serving p d.kernel) (at' : Interrupted) (inside : List LineEvent)
    (hnone : d.kernel.pics.waiting = ∅) : (LineEvent.interrupt at' inside).run d = (.ok (), d) := by
  obtain ⟨_, hrun⟩ | ⟨n, q, htaken, _⟩ := takeInterrupt_cases (called (runLines inside)) at' h
  · exact hrun
  · have hn : n ∈ d.kernel.pics.waiting :=
      Finset.mem_filter.mpr ⟨Finset.mem_univ n, htaken.device, htaken.raised, htaken.unmasked⟩
    rw [hnone] at hn
    exact absurd hn (Finset.notMem_empty n)

/-- As many interrupts as there are lines that wait serve them all. -/
theorem interrupts_serve (services : List (Interrupted × List OtherWork)) (h : Serving p d.kernel) (hidle : p.Idle)
    (hcard : d.kernel.pics.waiting.card ≤ services.length) :
    ∃ d', runLines (interruptsFor services) d = (.ok (), d') ∧ Serving p d'.kernel ∧ d'.kernel.pics.waiting = ∅ ∧
      d'.kernel.mem.latched = d.kernel.mem.latched := by
  induction services generalizing d with
  | nil => exact ⟨d, rfl, h, Finset.card_eq_zero.mp (Nat.le_zero.mp hcard), rfl⟩
  | cons service services ih =>
      by_cases hwaiting : d.kernel.pics.waiting.Nonempty
      · obtain ⟨d₁, n, hrun, h₁, hn, herase, hlatched⟩ := interrupt_serves h hidle service.1 service.2 hwaiting
        have hcard₁ : d₁.kernel.pics.waiting.card ≤ services.length := by
          rw [herase, Finset.card_erase_of_mem hn]
          exact Nat.sub_le_of_le_add hcard
        obtain ⟨d₂, hrest, h₂, hempty, hlatched'⟩ := ih h₁ hcard₁
        exact ⟨d₂, (Lasting.bind_ok hrun).trans hrest, h₂, hempty, hlatched'.trans hlatched⟩
      · have hnone := Finset.not_nonempty_iff_eq_empty.mp hwaiting
        obtain ⟨d₂, hrest, hkept⟩ := ih h (by rw [hnone]; exact Nat.zero_le _)
        exact ⟨d₂, (Lasting.bind_ok (interrupt_none h service.1 _ hnone)).trans hrest, hkept⟩

/-- There is no device on the line between the controllers. -/
theorem Pics.waiting_card_le (p : Pics) : p.waiting.card ≤ 15 := by
  have hsubset : p.waiting ⊆ Finset.univ.erase ⟨2, by decide⟩ := fun n hn =>
    Finset.mem_erase.mpr ⟨fun heq => (Finset.mem_filter.mp hn).2.1 (congrArg Fin.val heq), Finset.mem_univ n⟩
  exact Finset.card_le_card hsubset

end Runs

/-! ## From the initialisation on -/

section Init

variable {s : Kernel Wired} {es : List LineEvent}

/-- `inb`, as far as it reads from the controllers. -/
def inbPics (port : Half) : K Wired Byte := fun s => .ok (s.pics.inb port, s)

theorem pic8259Init_run (s : Kernel Wired) : pic8259Init inbPics outb s =
    .ok ((), { s with ports := s.ports ++ initWrites s.pics.master.imr s.pics.slave.imr }) :=
  pic8259Init_sends s.pics.inb fun _ => rfl

/-- The initialisation leaves the masks, and nothing raised and nothing in service. -/
theorem serving_init (htaken : s.mem.taken ≤ s.ports.length)
    (hnone : ∀ n, s.mem.latched n = 0 ∧ s.mem.served n = 0) :
    ∃ s₁, pic8259Init inbPics outb s = .ok ((), s₁) ∧ Serving s₁.pics s₁ ∧ s₁.pics.Idle ∧
      ∀ k, s₁.pics.masked k = s.pics.masked k := by
  have hpics := Kernel.pics_sent (initWrites s.pics.master.imr s.pics.slave.imr) htaken
  rw [Pics.writes_init] at hpics
  refine ⟨_, pic8259Init_run s, ⟨?_, ?_, .refl _, fun _ => rfl, fun k hk => ?_, fun k _ => (hnone k).2⟩, ?_, fun k => ?_⟩
  · rw [List.length_append]
    exact Nat.le_add_right_of_le htaken
  · rw [hpics]
    exact Pics.initialised_programmed _ _
  · rw [hpics]
    show s.mem.latched k = s.mem.served k + _
    rw [(hnone k).1, (hnone k).2]
    unfold Pics.raised
    split
    · rfl
    · rfl
  · rw [hpics]
    exact ⟨fun _ => rfl, fun _ => rfl⟩
  · rw [hpics]
    rfl

/-- Whatever state the controllers are found in: behind `pic8259_init` every run comes back with no line left in
service, the masks are those found, a masked line is never served, and each request that was latched has either
been served once or is still there. -/
theorem lines_served (es : List LineEvent) (htaken : s.mem.taken ≤ s.ports.length)
    (hnone : ∀ n, s.mem.latched n = 0 ∧ s.mem.served n = 0) :
    ∃ s₁ d', pic8259Init inbPics outb s = .ok ((), s₁) ∧
      runLines es { kernel := s₁, acts := [] } = (.ok (), d') ∧ d'.kernel.pics.Idle ∧
      (∀ n, d'.kernel.pics.masked n = s.pics.masked n) ∧ (∀ n, s.pics.masked n = true → d'.kernel.mem.served n = 0) ∧
      ∀ n : Fin 16, n.val ≠ 2 →
        d'.kernel.mem.latched n = d'.kernel.mem.served n + (d'.kernel.pics.raised n).toNat := by
  obtain ⟨s₁, hinit, hserving, hidle, hmasks⟩ := serving_init htaken hnone
  obtain ⟨d', hrun, h'⟩ := runLines_serving es (d := { kernel := s₁, acts := [] }) hserving
  refine ⟨s₁, d', hinit, hrun, h'.idle hidle, fun n => (h'.masks n).trans (hmasks n), fun n hn => ?_, h'.balance⟩
  exact h'.maskedOff n (by rw [hmasks, hn])

/-- Controllers in the middle of an initialisation, with line 3 masked, and nothing raised yet. There is a handler for
every line. -/
def wiredUp : Kernel Wired :=
  let pic : Pic :=
    { stage := .cascade, icw1 := icw1, vector := 0x20#8, cascade := 0#8, mode := 0#8, imr := 8#8,
      irr := fun _ => true, isr := fun _ => true }
  let ram : Wired :=
    { ram := .zero, pics := { master := pic, slave := pic }, taken := 0, latched := fun _ => 0, served := fun _ => 0 }
  { Kernel.reset ram with handlers := fun _ => 0xC0108000#32 }

/-- The timer and line 9 while the disk is served. Between the two a request is gone, and the end of its interrupt
is that of the disk's on the first controller. -/
def nestedLines : List LineEvent :=
  [.raise ⟨14, by decide⟩, .raise ⟨3, by decide⟩,
    .interrupt atRest
      [.raise ⟨0, by decide⟩, .interrupt atRest [], .spurious false atRest [], .raise ⟨9, by decide⟩, .interrupt atRest []],
    .spurious true atRest [.raise ⟨14, by decide⟩], .raise ⟨14, by decide⟩]

/-- Everything inside the disk's interrupt is served there, and one more request of the disk is left. -/
theorem nestedLines_counts {s₁ : Kernel Wired} {d : Dispatch Wired} (hinit : pic8259Init inbPics outb wiredUp = .ok ((), s₁))
    (hrun : runLines nestedLines { kernel := s₁, acts := [] } = (.ok (), d)) :
    d.kernel.mem.served ⟨0, by decide⟩ = 1 ∧ d.kernel.mem.served ⟨9, by decide⟩ = 1 ∧
      d.kernel.mem.served ⟨14, by decide⟩ = 1 ∧ d.kernel.mem.latched ⟨14, by decide⟩ = 2 := by
  rw [pic8259Init_run] at hinit
  obtain rfl : _ = s₁ := congrArg Prod.snd (Except.ok.inj hinit)
  obtain rfl : _ = d := congrArg Prod.snd hrun
  refine ⟨?_, ?_, ?_, ?_⟩
  · decide +kernel
  · decide +kernel
  · decide +kernel
  · decide +kernel

theorem lines_served_nested : ∃ s₁ d', pic8259Init inbPics outb wiredUp = .ok ((), s₁) ∧
    runLines nestedLines { kernel := s₁, acts := [] } = (.ok (), d') ∧ d'.kernel.pics.Idle ∧
    d'.kernel.mem.served ⟨3, by decide⟩ = 0 ∧ d'.kernel.mem.served ⟨0, by decide⟩ = 1 ∧
    d'.kernel.mem.served ⟨9, by decide⟩ = 1 ∧ d'.kernel.mem.served ⟨14, by decide⟩ = 1 ∧
    ∀ n : Fin 16, n.val ≠ 2 → d'.kernel.mem.latched n = d'.kernel.mem.served n + (d'.kernel.pics.raised n).toNat := by
  obtain ⟨s₁, d', hinit, hrun, hidle, _, hoff, hbalance⟩ :=
    lines_served (s := wiredUp) nestedLines (Nat.le_refl 0) (fun _ => ⟨rfl, rfl⟩)
  obtain ⟨htimer, hnine, hdisk, _⟩ := nestedLines_counts hinit hrun
  exact ⟨s₁, d', hinit, hrun, hidle, hoff _ (by decide), htimer, hnine, hdisk, hbalance⟩

/-- Behind any such run fifteen interrupts, whose handlers raise no line, are enough: each request of a line that is
not masked has then been served. -/
theorem lines_drained (es : List LineEvent) {services : List (Interrupted × List OtherWork)}
    (htaken : s.mem.taken ≤ s.ports.length) (hnone : ∀ n, s.mem.latched n = 0 ∧ s.mem.served n = 0)
    (hservices : 15 ≤ services.length) :
    ∃ s₁ d d', pic8259Init inbPics outb s = .ok ((), s₁) ∧ runLines es { kernel := s₁, acts := [] } = (.ok (), d) ∧
      runLines (interruptsFor services) d = (.ok (), d') ∧ d'.kernel.pics.Idle ∧
      ∀ n : Fin 16, n.val ≠ 2 → s.pics.masked n = false → d'.kernel.mem.served n = d.kernel.mem.latched n := by
  obtain ⟨s₁, hinit, hserving, hidle, hmasks⟩ := serving_init htaken hnone
  obtain ⟨d, hrun, h⟩ := runLines_serving es (d := { kernel := s₁, acts := [] }) hserving
  obtain ⟨d', hdrain, h', hempty, hlatched⟩ :=
    interrupts_serve services h hidle (d.kernel.pics.waiting_card_le.trans hservices)
  refine ⟨s₁, d, d', hinit, hrun, hdrain, h'.idle hidle, fun n hn hmasked => ?_⟩
  have hraised : d'.kernel.pics.raised n = false := by
    by_contra hraised
    have hwaiting : n ∈ d'.kernel.pics.waiting := Finset.mem_filter.mpr
      ⟨Finset.mem_univ n, hn, Bool.eq_true_of_not_eq_false hraised, by rw [h'.masks, hmasks, hmasked]⟩
    rw [hempty] at hwaiting
    exact Finset.notMem_empty n hwaiting
  have hbalance := h'.balance n hn
  rw [hraised, hlatched] at hbalance
  exact hbalance.symm

theorem lines_drained_nested : ∃ s₁ d d', pic8259Init inbPics outb wiredUp = .ok ((), s₁) ∧
    runLines nestedLines { kernel := s₁, acts := [] } = (.ok (), d) ∧
    runLines (interruptsFor (List.replicate 15 (atRest, []))) d = (.ok (), d') ∧
    d.kernel.mem.served ⟨14, by decide⟩ = 1 ∧ d'.kernel.mem.served ⟨14, by decide⟩ = 2 := by
  obtain ⟨s₁, d, d', hinit, hrun, hdrain, _, hserved⟩ :=
    @lines_drained wiredUp nestedLines (List.replicate 15 (atRest, [])) (Nat.le_refl 0)
      (fun _ => ⟨rfl, rfl⟩) (by decide)
  obtain ⟨_, _, hdisk, hlatched⟩ := nestedLines_counts hinit hrun
  exact ⟨s₁, d, d', hinit, hrun, hdrain, hdisk, (hserved _ (by decide) (by decide)).trans hlatched⟩

end Init

end LizaOS
