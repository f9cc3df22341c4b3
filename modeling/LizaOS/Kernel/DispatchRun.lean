-- SUMMARY: Every delivery calls the handler last registered for its vector, as long as no number is negative and no vector is 128.
import LizaOS.Kernel.CrashDump
import LizaOS.Libc.StdioRun

/-!
# Runs of the dispatch

What the dispatcher is for is said by a second reading of the events, which knows nothing of tables: a
vector has a handler, the last that was registered for it, and a delivery calls it. The code follows this
reading in every run of events that are `Proper`. Of the two kinds that are not, a registration with a
negative number stores outside the table, and the vector 128 has no message.
-/

namespace LizaOS

open Exec

/-! ## What a run is meant to do -/

/-- The handler last registered for each vector, if any, and the deliveries and calls so far. -/
structure Meant where
  latest : Nat → Option Word
  acts : List Act

/-- A registration. `NULL` takes the handler away. -/
def Meant.registered (m : Meant) (num : Int) (handler : Word) : Meant :=
  if 0 ≤ num ∧ num < noInterruptHandlers then
    { m with latest := fun v =>
        if (v : Int) = num then if handler = 0#32 then none else some handler else m.latest v }
  else m

abbrev M (α : Type) := Lasting Meant Stop α

namespace Meant

def log (act : Act) : M Unit := fun m => (.ok (), { m with acts := m.acts ++ [act] })

/-- A delivery calls the handler of its vector. -/
def dispatch (v : Nat) (reg : Registers) (inside : M Unit) : M Unit := do
  match (← get).latest v with
  | none => pure ()
  | some handler => do
      log (.called handler reg)
      inside

theorem dispatch_pure (v : Nat) (reg : Registers) (m : Meant) : (dispatch v reg (pure ()) m).1 = .ok () := by
  rw [dispatch, Lasting.bind_ok (Lasting.get_run m)]
  cases m.latest v <;> rfl

end Meant

/-- Behind an exception the machine halts. -/
def Gate.goOn : Gate → M Unit
  | .irq _ => pure ()
  | .exception _ | .system => throw .panic

section Readings

variable {μ : Type}

mutual

def Event.meant : Event μ → M Unit
  | .register num handler => fun m => (.ok (), m.registered num handler)
  | .deliver g at' inside => do
      Meant.log (.delivered g.vector)
      Meant.dispatch g.vector (g.registers at') (eventsMeant inside)
      g.goOn
  | .own _ => pure ()
  | .panic => throw .panic

def eventsMeant : List (Event μ) → M Unit
  | [] => pure ()
  | e :: es => do
      e.meant
      eventsMeant es

end

end Readings

/-- The handlers in a table. -/
def Meant.start (s : Kernel Flat) : Meant where
  latest v := if s.handlers v = 0#32 then none else some (s.handlers v)
  acts := []

/-- The deliveries and the calls. -/
def Act.isCall : Act → Bool
  | .delivered _ | .called _ _ => true
  | .handlerIndex _ | .messageIndex _ => false

/-- The element is one of its array. -/
def Act.InArray : Act → Prop
  | .delivered _ | .called _ _ => True
  | .handlerIndex i => 0 ≤ i ∧ i < noInterruptHandlers
  | .messageIndex i => i < exceptionMessages.length

/-- The dispatch is faithful and in bounds in a run from `s`. -/
structure Dispatched (s : Kernel Flat) (es : List (Event Flat)) : Prop where
  calls : (runEvents es { kernel := s, acts := [] }).2.acts.filter Act.isCall = (eventsMeant es (Meant.start s)).2.acts
  ends : (runEvents es { kernel := s, acts := [] }).1 = (eventsMeant es (Meant.start s)).1
  inArray : ∀ act ∈ (runEvents es { kernel := s, acts := [] }).2.acts, act.InArray
  beside : ∀ i, ¬(0 ≤ i ∧ i < noInterruptHandlers) →
    (runEvents es { kernel := s, acts := [] }).2.kernel.handlers i = s.handlers i

/-- The steps for which the code does this: no number is negative, and nothing arrives through the
entry 128. -/
inductive Event.Proper : Event Flat → Prop where
  | register {num : Int} {handler : Word} (hnum : 0 ≤ num) : Proper (.register num handler)
  | deliver {g : Gate} {at' : Interrupted} {inside : List (Event Flat)} (hgate : g ≠ .system)
      (hinside : ∀ e ∈ inside, Proper e) : Proper (.deliver g at' inside)
  | own (w : OwnWork Flat) : Proper (.own w)
  | panic : Proper .panic

/-! ## Printing -/

section Printing

variable {s : Kernel Flat} {α : Type} {x : K Flat α}

theorem kernelCode_run {a : α} {s' : Kernel Flat} (h : x s = .ok (a, s')) (acts : List Act) :
    kernelCode x { kernel := s, acts := acts } = (.ok a, { kernel := s', acts := acts }) := by
  rw [kernelCode, h]

/-- A row comes back, whatever its arguments are. -/
theorem row_console {leads : List String} (hok : ∀ item ∈ rowItems leads, item.Ok) (args : Bytes) :
    Returns (kPrintf (renderAll (rowItems leads)) args) s fun _ s' => ConsoleOnly s s' :=
  (screenText_console _).congr (kPrintf_output (row_prints hok _ _))

theorem printRegisters_console (beyond : Bytes) (reg : Registers) :
    Returns (printRegisters beyond reg) s fun _ s' => ConsoleOnly s s' := by
  have hfirst : ∀ item ∈ rowItems ["eax=0x", ", ebx=0x", ", ecx=0x", ", edx=0x"], item.Ok := by decide
  have hsecond : ∀ item ∈ rowItems ["edi=0x", ", esi=0x", ", ebp=0x", ", esp=0x"], item.Ok := by decide
  have hthird : ∀ item ∈ rowItems ["eip=0x", ", cs=0x", ", ss=0x", ", eflags=0x", ", useresp=0x"], item.Ok := by
    decide
  rw [printRegisters_eq]
  simp only [dumpLines, List.forM_eq_forM, List.forM_cons, List.forM_nil, bind_pure_unit]
  refine (row_console hfirst _).bind fun _ s₁ h₁ => (row_console hsecond _).bind fun _ s₂ h₂ => ?_
  exact (row_console hthird _).mono fun _ s₃ h₃ => h₁.trans (h₂.trans h₃)

theorem registered_console (num : Int) :
    Returns (kPrintf (cstr "IRQ %d registered\n") (slots [BitVec.ofInt 32 num])) s fun _ s' => ConsoleOnly s s' :=
  kPrintf_console rfl

theorem halt_console :
    Returns (kPrintfln (cstr "[PANIC] Halt and catch fire") (slots [])) s fun _ s' => ConsoleOnly s s' :=
  kPrintfln_console rfl

theorem pic8259Eoi_run (irq : Byte) :
    ∃ ports, pic8259Eoi irq s = .ok ((), { s with ports := ports }) := by
  unfold pic8259Eoi
  split <;> exact ⟨_, rfl⟩

theorem ConsoleOnly.handlers {s' : Kernel Flat} (h : ConsoleOnly s s') : s'.handlers = s.handlers := by
  obtain ⟨_, _, _, rfl⟩ := h
  rfl

end Printing

/-! ## The table and the handlers meant -/

/-- The code has come as far as it is meant to: the table holds the handlers, the deliveries and calls are
those meant, no index was outside its array, and the memory beside the table is as it was. -/
structure InStep (beside : Int → Word) (d : Dispatch Flat) (m : Meant) : Prop where
  table : ∀ v : Nat, v < 256 → d.kernel.handlers v = (m.latest v).getD 0#32
  someNonzero : ∀ v, m.latest v ≠ some 0#32
  acts : d.acts.filter Act.isCall = m.acts
  inArray : ∀ act ∈ d.acts, act.InArray
  beside : ∀ i, ¬(0 ≤ i ∧ i < noInterruptHandlers) → d.kernel.handlers i = beside i

namespace InStep

variable {beside : Int → Word} {d : Dispatch Flat} {m : Meant}

theorem start (s : Kernel Flat) : InStep s.handlers { kernel := s, acts := [] } (.start s) where
  table v _ := by
    simp only [Meant.start]
    split
    · assumption
    · rfl
  someNonzero v := by
    simp only [Meant.start]
    split
    · exact nofun
    · rename_i hne
      exact fun h => hne (Option.some.inj h)
  acts := rfl
  inArray _ h := nomatch h
  beside _ _ := rfl

/-- A delivery or a call. -/
theorem call (h : InStep beside d m) {act : Act} (hact : act.isCall = true) :
    InStep beside { d with acts := d.acts ++ [act] } { m with acts := m.acts ++ [act] } where
  table := h.table
  someNonzero := h.someNonzero
  acts := by rw [List.filter_append, h.acts, List.filter_cons_of_pos hact, List.filter_nil]
  inArray act' hmem := by
    rcases List.mem_append.mp hmem with hbefore | hlast
    · exact h.inArray act' hbefore
    · rw [List.mem_singleton.mp hlast]
      cases act with
      | delivered v => trivial
      | called handler reg => trivial
      | handlerIndex i => cases hact
      | messageIndex i => cases hact
  beside := h.beside

/-- An access to one of the arrays. -/
theorem access (h : InStep beside d m) {act : Act} (hact : act.isCall = false) (hin : act.InArray) :
    InStep beside { d with acts := d.acts ++ [act] } m where
  table := h.table
  someNonzero := h.someNonzero
  acts := by
    rw [List.filter_append, h.acts, List.filter_cons_of_neg (by rw [hact]; exact Bool.false_ne_true), List.filter_nil,
      List.append_nil]
  inArray act' hmem := by
    rcases List.mem_append.mp hmem with hbefore | hlast
    · exact h.inArray act' hbefore
    · rw [List.mem_singleton.mp hlast]
      exact hin
  beside := h.beside

/-- Code that leaves the table alone. -/
theorem kernel (h : InStep beside d m) {s : Kernel Flat} (hs : s.handlers = d.kernel.handlers) :
    InStep beside { d with kernel := s } m where
  table v hv := by
    rw [hs]
    exact h.table v hv
  someNonzero := h.someNonzero
  acts := h.acts
  inArray := h.inArray
  beside i hi := by
    rw [hs]
    exact h.beside i hi

/-- A store to the table is the registration meant. -/
theorem store (h : InStep beside d m) {num : Int} (hnum : 0 ≤ num) (hlt : num < noInterruptHandlers)
    (handler : Word) :
    InStep beside
      { d with kernel := { d.kernel with
          handlers := fun n => if n = num then handler else d.kernel.handlers n } }
      (m.registered num handler) := by
  rw [Meant.registered, if_pos ⟨hnum, hlt⟩]
  refine ⟨fun v hv => ?_, fun v => ?_, h.acts, h.inArray, fun i hi => ?_⟩
  · by_cases heq : (v : Int) = num
    · simp only [heq, if_true]
      split
      · assumption
      · rfl
    · simp only [heq, if_false]
      exact h.table v hv
  · by_cases heq : (v : Int) = num
    · simp only [heq, if_true]
      split
      · exact nofun
      · rename_i hne
        exact fun h => hne (Option.some.inj h)
    · simp only [heq, if_false]
      exact h.someNonzero v
  · have hne : i ≠ num := fun heq => hi (heq ▸ ⟨hnum, hlt⟩)
    simp only [hne, if_false]
    exact h.beside i hi

end InStep

/-! ## The code follows -/

section Code

variable {beside : Int → Word} {d : Dispatch Flat} {m : Meant} {α : Type}

/-- Kernel code that comes back and leaves the table alone. -/
theorem kernelCode_inStep {x : K Flat Unit} (h : InStep beside d m)
    (hx : Returns x d.kernel fun _ s => s.handlers = d.kernel.handlers) :
    ∃ d', kernelCode x d = (.ok (), d') ∧ InStep beside d' m ∧ d'.acts = d.acts ∧
      d'.kernel.handlers = d.kernel.handlers := by
  obtain ⟨_, s, hrun, hs⟩ := hx
  exact ⟨_, kernelCode_run hrun d.acts, h.kernel hs, rfl, hs⟩

theorem registerHandler_simulates (h : InStep beside d m) {num : Int} (hnum : 0 ≤ num) (handler : Word) :
    Simulates (InStep beside) (registerHandler num handler) (Event.register num handler : Event Flat).meant d m := by
  obtain ⟨d', hprint, h', hacts, hhandlers⟩ := kernelCode_inStep h
    ((registered_console num).mono fun _ _ hs => hs.handlers)
  rw [Simulates, registerHandler, Lasting.bind_ok hprint]
  by_cases hlt : num < noInterruptHandlers
  · rw [if_pos hlt]
    have hin : (Act.handlerIndex num).InArray := ⟨hnum, hlt⟩
    exact ⟨rfl, (h'.access rfl hin).store hnum hlt handler⟩
  · rw [if_neg hlt]
    have hmeant : m.registered num handler = m := if_neg fun hin => hlt hin.2
    refine ⟨rfl, ?_⟩
    change InStep beside d' (m.registered num handler)
    rw [hmeant]
    exact h'

/-- The part the two C functions have in common: the handler is called if there is one, behind some work. -/
def callIfThere (v : Nat) (reg : Registers) (work : K Flat Unit) (call : Word → Registers → D Flat Unit) :
    D Flat Unit := do
  if (← loadHandler v) ≠ 0#32 then
    kernelCode work
    let handler ← loadHandler v
    call handler reg

theorem isrIrqHandler_eq (reg : Registers) (call : Word → Registers → D Flat Unit) :
    isrIrqHandler call reg = (do
      callIfThere reg.intNo.toNat reg (pure ()) call
      kernelCode (pic8259Eoi (reg.intNo.setWidth 8))) := by
  have hnothing : (kernelCode (pure ()) : D Flat Unit) = pure () := rfl
  rw [isrIrqHandler, callIfThere, bind_assoc, hnothing]
  refine bind_congr fun w => ?_
  by_cases hw : w ≠ 0#32
  · simp only [if_pos hw, bind_assoc, pure_bind]
  · simp only [if_neg hw, pure_bind]

/-- How `isr_exception_handler` ends. -/
def showAndPanic (beyond : Bytes) (reg : Registers) : D Flat Unit := do
  kernelCode (printRegisters beyond reg)
  note (.messageIndex reg.intNo.toNat)
  kernelCode (kPrintfln (cstr "[PANIC] Halt and catch fire") (slots []))
  kernelCode ((cstr "received pointer: " ++ cstr (exceptionMessages.getD reg.intNo.toNat "") ++ [newline]).forM
    screenPut)
  throw .panic

theorem isrExceptionHandler_eq (beyond : Bytes) (reg : Registers) (call : Word → Registers → D Flat Unit) :
    isrExceptionHandler call beyond reg = (do
      callIfThere reg.intNo.toNat reg (printRegisters beyond reg) call
      showAndPanic beyond reg) := by
  rw [isrExceptionHandler, callIfThere, bind_assoc]
  refine bind_congr fun w => ?_
  by_cases hw : w ≠ 0#32
  · simp only [if_pos hw, bind_assoc, showAndPanic]
  · simp only [if_neg hw, pure_bind, showAndPanic]

theorem call_simulates (h : InStep beside d m) {v : Nat} (hv : v < 256) {reg : Registers} {work : K Flat Unit}
    (hwork : ∀ s, Returns work s fun _ s' => s'.handlers = s.handlers) {inside : D Flat Unit} {meant : M Unit}
    (hinside : ∀ d m, InStep beside d m → Simulates (InStep beside) inside meant d m) :
    Simulates (InStep beside) (callIfThere v reg work (called inside)) (Meant.dispatch v reg meant) d m := by
  have hin : (Act.handlerIndex v).InArray := ⟨Int.natCast_nonneg v, Int.ofNat_lt.mpr hv⟩
  have hloaded := h.access rfl hin
  rw [Simulates, callIfThere, Lasting.bind_ok (loadHandler_run v d)]
  cases hlatest : m.latest v with
  | none =>
      have hzero : d.kernel.handlers v = 0#32 := by rw [h.table v hv, hlatest]; rfl
      have hmeant : Meant.dispatch v reg meant m = (.ok (), m) := by
        rw [Meant.dispatch, Lasting.bind_ok (Lasting.get_run m), hlatest]
        rfl
      rw [if_neg (not_not.mpr hzero), hmeant]
      exact ⟨rfl, hloaded⟩
  | some handler =>
      have hhandler : d.kernel.handlers v = handler := by rw [h.table v hv, hlatest]; rfl
      have hne : d.kernel.handlers v ≠ 0#32 := fun hzero =>
        h.someNonzero v (by rw [hlatest, ← hhandler, hzero])
      have hmeant : Meant.dispatch v reg meant m = meant { m with acts := m.acts ++ [.called handler reg] } := by
        rw [Meant.dispatch, Lasting.bind_ok (Lasting.get_run m), hlatest]
        rfl
      obtain ⟨d', hrun, h', _, hsame⟩ := kernelCode_inStep hloaded (hwork _)
      have hagain : d'.kernel.handlers v = handler := (congrFun hsame v).trans hhandler
      rw [if_pos hne, hmeant, Lasting.bind_ok hrun, Lasting.bind_ok (loadHandler_run v d'), hagain,
        called_run]
      exact hinside _ _ ((h'.access rfl hin).call rfl)

theorem isrIrqHandler_simulates (h : InStep beside d m) {reg : Registers} (hv : reg.intNo.toNat < 256)
    {inside : D Flat Unit} {meant : M Unit}
    (hinside : ∀ d m, InStep beside d m → Simulates (InStep beside) inside meant d m) :
    Simulates (InStep beside) (isrIrqHandler (called inside) reg)
      (do Meant.dispatch reg.intNo.toNat reg meant; Gate.goOn (.irq 0)) d m := by
  have hnothing : ∀ s, Returns (pure () : K Flat Unit) s fun _ s' => s'.handlers = s.handlers :=
    fun s => .of_eq rfl rfl
  rw [isrIrqHandler_eq]
  refine Simulates.bind (call_simulates h hv hnothing hinside) fun _ d' m' h' => ?_
  obtain ⟨ports, hrun⟩ := pic8259Eoi_run (s := d'.kernel) (reg.intNo.setWidth 8)
  rw [Simulates, kernelCode_run hrun d'.acts]
  exact ⟨rfl, h'.kernel rfl⟩

theorem showAndPanic_run (beyond : Bytes) (reg : Registers) (d : Dispatch Flat) :
    ∃ s, showAndPanic beyond reg d =
        (.error .panic, { kernel := s, acts := d.acts ++ [.messageIndex reg.intNo.toNat] }) ∧
      ConsoleOnly d.kernel s := by
  obtain ⟨_, s₁, hrun₁, h₁⟩ := printRegisters_console (s := d.kernel) beyond reg
  obtain ⟨_, s₂, hrun₂, h₂⟩ := halt_console (s := s₁)
  obtain ⟨_, s₃, hrun₃, h₃⟩ := screenText_console (s := s₂)
    (cstr "received pointer: " ++ cstr (exceptionMessages.getD reg.intNo.toNat "") ++ [newline])
  refine ⟨s₃, ?_, h₁.trans (h₂.trans h₃)⟩
  rw [showAndPanic, Lasting.bind_ok (kernelCode_run hrun₁ d.acts), Lasting.bind_ok (note_run _ _),
    Lasting.bind_ok (kernelCode_run hrun₂ _), Lasting.bind_ok (kernelCode_run hrun₃ _)]
  rfl

theorem isrExceptionHandler_simulates (h : InStep beside d m) {reg : Registers} (hv : reg.intNo.toNat < 32)
    {inside : D Flat Unit} {meant : M Unit}
    (hinside : ∀ d m, InStep beside d m → Simulates (InStep beside) inside meant d m) (beyond : Bytes) :
    Simulates (InStep beside) (isrExceptionHandler (called inside) beyond reg)
      (do Meant.dispatch reg.intNo.toNat reg meant; Gate.goOn .system) d m := by
  have hregisters : ∀ s, Returns (printRegisters beyond reg) s fun _ s' => s'.handlers = s.handlers :=
    fun s => (printRegisters_console beyond reg).mono fun _ _ hs => hs.handlers
  rw [isrExceptionHandler_eq]
  refine Simulates.bind (call_simulates h (Nat.lt_trans hv (by decide)) hregisters hinside) fun _ d' m' h' => ?_
  obtain ⟨s, hrun, hs⟩ := showAndPanic_run beyond reg d'
  have hmessage : (Act.messageIndex reg.intNo.toNat).InArray := hv
  rw [Simulates, hrun]
  exact ⟨rfl, (h'.access rfl hmessage).kernel hs.handlers⟩

/-! ## The vectors -/

theorem Gate.registers_intNo (g : Gate) (at' : Interrupted) : (g.registers at').intNo.toNat = g.vector := by
  cases g with
  | exception v =>
      rw [Gate.registers, exceptionRegisters_intNo, BitVec.toNat_ofNat]
      exact Nat.mod_eq_of_lt (Nat.lt_trans v.isLt (by decide))
  | irq n =>
      have hshows := irqArgument_shows Gate.uncalled n at'.pad (c := at'.cpu)
      have hlt : 32 + n.val < 2 ^ 32 := by omega
      rw [Gate.registers, hshows.intNo, BitVec.toNat_ofNat]
      exact Nat.mod_eq_of_lt hlt
  | system =>
      rw [Gate.registers, exception128_intNo]
      rfl

theorem Gate.handle_simulates (h : InStep beside d m) {g : Gate} (hgate : g ≠ .system) (at' : Interrupted)
    {inside : D Flat Unit} {meant : M Unit}
    (hinside : ∀ d m, InStep beside d m → Simulates (InStep beside) inside meant d m) :
    Simulates (InStep beside) (g.handle (called inside) at')
      (do Meant.dispatch g.vector (g.registers at') meant; g.goOn) d m := by
  have hnum := g.registers_intNo at'
  cases g with
  | exception v =>
      rw [← hnum]
      refine isrExceptionHandler_simulates h ?_ hinside at'.beyond
      rw [hnum]
      exact v.isLt
  | irq n =>
      rw [← hnum]
      refine isrIrqHandler_simulates h ?_ hinside
      rw [hnum, Gate.vector]
      omega
  | system => exact absurd rfl hgate

end Code

/-! ## Runs -/

section Runs

variable {beside : Int → Word} {d : Dispatch Flat} {m : Meant}

/-- A run does what is meant, if each of its steps does. -/
theorem runEvents_simulates {es : List (Event Flat)}
    (hes : ∀ e ∈ es, ∀ d m, InStep beside d m → Simulates (InStep beside) e.run e.meant d m)
    (h : InStep beside d m) : Simulates (InStep beside) (runEvents es) (eventsMeant es) d m := by
  induction es generalizing d m with
  | nil => exact .pure () h
  | cons e es ih =>
      exact (hes e (List.mem_cons_self ..) d m h).bind fun _ d' m' h' =>
        ih (fun e' he' => hes e' (List.mem_cons_of_mem _ he')) h'

theorem Event.run_simulates {e : Event Flat} (he : e.Proper) (h : InStep beside d m) :
    Simulates (InStep beside) e.run e.meant d m := by
  induction he generalizing d m with
  | register hnum => exact registerHandler_simulates h hnum _
  | deliver hgate _ ih =>
      have hinside := fun d m => runEvents_simulates (d := d) (m := m) fun e he _ _ h => ih e he h
      exact Gate.handle_simulates (h.call rfl) hgate _ hinside
  | own w => exact ⟨rfl, h.kernel (w.handlers _)⟩
  | panic => exact .throw _ h

/-- A number from 256 on leaves everything alone but the screen, where the call shows its message. -/
theorem registerHandler_refused {num : Int} (hnum : noInterruptHandlers ≤ num) (handler : Word) (d : Dispatch Flat) :
    ∃ s, registerHandler num handler d = (.ok (), { d with kernel := s }) ∧ ConsoleOnly d.kernel s := by
  obtain ⟨_, s, hprint, hs⟩ := registered_console (s := d.kernel) num
  refine ⟨s, ?_, hs⟩
  rw [registerHandler, Lasting.bind_ok (kernelCode_run hprint d.acts), if_neg (not_lt.mpr hnum)]
  rfl

/-- Interrupt dispatch is faithful and in bounds in every run without negative numbers and without a delivery
through the entry 128; a registration that is refused changes nothing but the screen. -/
theorem dispatched_of_proper (s : Kernel Flat) {es : List (Event Flat)} (hes : ∀ e ∈ es, e.Proper) :
    Dispatched s es ∧ ∀ num handler d, noInterruptHandlers ≤ num →
      ∃ s', registerHandler num handler d = (.ok (), { d with kernel := s' }) ∧ ConsoleOnly d.kernel s' := by
  obtain ⟨hends, hstep⟩ := runEvents_simulates (fun e he _ _ h => e.run_simulates (hes e he) h) (InStep.start s)
  exact ⟨⟨hstep.acts, hends, hstep.inArray, hstep.beside⟩, fun num handler d hnum =>
    registerHandler_refused hnum handler d⟩

/-- Kernel code at rest. -/
def atRest : Interrupted where
  cpu := alignmentCheck
  pad := 0#16
  err := 0#32
  beyond _ := 0#8

/-- The interrupt line of the keyboard. -/
def keyboardLine : Fin 16 := ⟨1, by decide⟩

/-- The exception of a page fault. -/
def pageFaultVector : Fin 32 := ⟨14, by decide⟩

/-- A handler for the keyboard registers one for page faults, and then there is a page fault. -/
def keyboardRun : List (Event Flat) :=
  [.register 33 0xC0101000#32, .deliver (.irq keyboardLine) atRest [.register 14 0xC0102000#32],
    .deliver (.exception pageFaultVector) atRest []]

theorem dispatched_of_proper_keyboard :
    Dispatched (.reset .zero) keyboardRun ∧
      (eventsMeant keyboardRun (.start (.reset .zero))).2.acts =
        [.delivered 33, .called 0xC0101000#32 (Gate.registers atRest (.irq keyboardLine)), .delivered 14,
          .called 0xC0102000#32 (Gate.registers atRest (.exception pageFaultVector))] := by
  have hproper : ∀ e ∈ keyboardRun, e.Proper := by
    rintro e (_ | ⟨_, _ | ⟨_, _ | ⟨_, ⟨⟩⟩⟩⟩)
    · exact .register (by decide)
    · refine .deliver (fun h => by cases h) ?_
      rintro e (_ | ⟨_, ⟨⟩⟩)
      exact .register (by decide)
    · refine .deliver (fun h => by cases h) ?_
      rintro e ⟨⟩
  exact ⟨(dispatched_of_proper (.reset .zero) hproper).1, rfl⟩

/-- A negative number is an index outside the table. -/
theorem not_dispatched_negative (s : Kernel Flat) {num : Int} (hnum : num < 0) (handler : Word) :
    ¬Dispatched s [.register num handler] := by
  intro h
  obtain ⟨_, s', hprint, _⟩ := registered_console (s := s) num
  have hlt : num < noInterruptHandlers := Int.lt_trans hnum (by decide)
  have hrun : registerHandler num handler { kernel := s, acts := [] } =
      storeHandler num handler { kernel := s', acts := [] } := by
    rw [registerHandler, Lasting.bind_ok (kernelCode_run hprint []), if_pos hlt]
  have hacts : (runEvents [.register num handler] { kernel := s, acts := [] } : _ × Dispatch Flat).2.acts =
      [.handlerIndex num] := by
    rw [runEvents, Event.run, Lasting.bind_ok (hrun.trans rfl)]
    rfl
  have hindex := h.inArray (.handlerIndex num) (by rw [hacts]; exact List.mem_singleton_self _)
  exact absurd hindex.1 (not_le.mpr hnum)

/-- The entry 128 has no message. -/
theorem not_dispatched_system (s : Kernel Flat) (at' : Interrupted) : ¬Dispatched s [.deliver .system at' []] := by
  intro h
  have hnum : ((Gate.registers at' .system).intNo).toNat = 128 := Gate.registers_intNo .system at'
  generalize hreg : Gate.registers at' .system = reg at hnum
  have hdelivered : InStep s.handlers { kernel := s, acts := [.delivered 128] }
      { Meant.start s with acts := [.delivered 128] } := (InStep.start s).call rfl
  have hregisters : ∀ s, Returns (printRegisters at'.beyond reg) s fun _ s' => s'.handlers = s.handlers :=
    fun s => (printRegisters_console at'.beyond reg).mono fun _ _ hs => hs.handlers
  have hcall : Simulates (InStep s.handlers)
      (callIfThere reg.intNo.toNat reg (printRegisters at'.beyond reg) (called (runEvents [])))
      (Meant.dispatch reg.intNo.toNat reg (pure ())) _ _ :=
    call_simulates hdelivered (by rw [hnum]; decide) hregisters fun _ _ h => .pure () h
  obtain ⟨hend, _⟩ := hcall
  rw [Meant.dispatch_pure] at hend
  cases hthere : callIfThere reg.intNo.toNat reg (printRegisters at'.beyond reg) (called (runEvents []))
      { kernel := s, acts := [.delivered 128] } with
  | mk r d =>
      rw [hthere] at hend
      obtain rfl : r = .ok () := hend
      obtain ⟨s', hpanic, _⟩ := showAndPanic_run at'.beyond reg d
      have hrun : runEvents [.deliver .system at' []] { kernel := s, acts := [] } =
          (.error .panic, { kernel := s', acts := d.acts ++ [.messageIndex 128] }) := by
        rw [runEvents, Event.run, Gate.handle, hreg, isrExceptionHandler_eq]
        refine Lasting.bind_error ?_
        rw [Lasting.bind_ok (note_run _ _), ← hnum, ← hpanic]
        exact Lasting.bind_ok hthere
      have hindex := h.inArray (.messageIndex 128) (by rw [hrun]; exact List.mem_append_right _ (List.mem_singleton_self _))
      exact absurd hindex (by decide : ¬128 < exceptionMessages.length)

theorem not_dispatched_minus_one :
    ¬Dispatched (.reset .zero) [.register (-1) 0xC0101000#32] ∧
      ¬Dispatched (.reset .zero) [.deliver .system atRest []] :=
  ⟨not_dispatched_negative _ (by decide) _, not_dispatched_system _ _⟩

end Runs

end LizaOS
