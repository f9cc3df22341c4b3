-- SUMMARY: The tick counter counts every interrupt of the timer's line once, however interrupts are raised, nested or lost.
import LizaOS.Kernel.IrqLines
import LizaOS.Kernel.TimerRun

/-!
# The clock

`timer_handler` behind the controllers. The runs are those of the lines, but the handler that the table has for the
vector of line 0 is the one of the timer; any other handler does what it likes, except to the tick counter and to the
table. The functions the timer could call are none, as nothing ever enters one in `g_timer_function_manager`.
-/

namespace LizaOS

open Exec

/-! ## The handler -/

/-- The table of timer functions in the `.bss` section. -/
def noTimerFunctions : TimerFunctionManager where
  functions _ := 0#32
  funcArgs _ := { timeout := 0#32 }

/-- `timer_handler`, on the state of the kernel. -/
def runTimerHandler {μ : Type} : K μ Unit := fun s =>
  let t : Timers := { timer := s.timer, manager := noTimerFunctions, interrupts := 0, calls := [] }
  (timerHandler t).map fun r => ((), { s with timer := r.2.timer })

theorem runTimerHandler_run {μ : Type} (s : Kernel μ) :
    runTimerHandler s = .ok ((), { s with timer := s.timer.tick }) := by
  have hsound : noTimerFunctions.Sound := fun _ _ h => absurd rfl h
  obtain ⟨_, t, hrun, htick⟩ := timerHandler_ticks
    (s := { timer := s.timer, manager := noTimerFunctions, interrupts := 0, calls := [] }) hsound
  rw [runTimerHandler, hrun, Except.map, htick]

/-! ## Runs with the timer's handler -/

/-- Work that leaves the tick counter and the table of handlers alone. -/
structure ClockedWork extends OtherWork where
  clock : ∀ s, (work s).timer = s.timer ∧ (work s).handlers = s.handlers

/-- What happens, in the order in which it begins. More may happen while an interrupt is handled: `inside` until the
handler's own code has run, and `behind` from there to the handler's end. -/
inductive ClockEvent where
  | raise (n : Fin 16)
  | interrupt (at' : Interrupted) (inside behind : List ClockEvent)
  | spurious (second : Bool) (at' : Interrupted) (inside behind : List ClockEvent)
  | own (w : ClockedWork)

/-- A handler is called: that of the timer is at the address `clock`. -/
def callHandler (clock : Word) (inside behind : D Wired Unit) (handler : Word) (reg : Registers) : D Wired Unit :=
  called (do
    inside
    if handler = clock then
      kernelCode runTimerHandler
    behind) handler reg

section Run

variable (clock : Word)

mutual

def ClockEvent.run : ClockEvent → D Wired Unit
  | .raise n => kernelCode (modify (Kernel.raise n))
  | .interrupt at' inside behind => takeInterrupt (callHandler clock (runClock inside) (runClock behind)) at'
  | .spurious second at' inside behind =>
      takeSpurious (callHandler clock (runClock inside) (runClock behind)) second at'
  | .own w => kernelCode (modify w.work)

def runClock : List ClockEvent → D Wired Unit
  | [] => pure ()
  | e :: es => do
      e.run
      runClock es

end

end Run

/-! ## What is kept -/

theorem clockLine_lt : 0 < 16 := by decide

/-- The line of the timer. -/
def clockLine : Fin 16 := ⟨0, clockLine_lt⟩

/-- The counter has gone up from `base` by the interrupts served on the line of the timer, whose handler is in the
table for that line only. -/
structure Clocked (clock base : Word) (s : Kernel Wired) : Prop where
  ticks : s.timer.gTicks = base + BitVec.ofNat 32 (s.mem.served clockLine)
  own : s.handlers 32 = clock
  others : ∀ n : Fin 16, n ≠ clockLine → s.handlers (32 + (n.val : Int)) ≠ clock

namespace Clocked

variable {clock base : Word} {s s' : Kernel Wired} {n : Fin 16}

theorem congr (h : Clocked clock base s) (htimer : s'.timer = s.timer) (hhandlers : s'.handlers = s.handlers)
    (hserved : s'.mem.served clockLine = s.mem.served clockLine) : Clocked clock base s' := by
  refine ⟨?_, ?_, ?_⟩
  · rw [htimer, hserved]
    exact h.ticks
  · rw [hhandlers]
    exact h.own
  · rw [hhandlers]
    exact h.others

theorem ended (h : Clocked clock base s) (ws : List (Half × Byte)) :
    Clocked clock base { s with ports := s.ports ++ ws } := h.congr rfl rfl rfl

theorem clockedWork (h : Clocked clock base s) (w : ClockedWork) : Clocked clock base (w.work s) :=
  h.congr (w.clock s).1 (w.clock s).2 (congrFun (w.mem s).2.2.2 clockLine)

/-- A service begins. That of the timer's line is counted ahead of the tick. -/
theorem begin (h : Clocked clock base s) (n : Fin 16) (q : Pics) :
    Clocked clock (if n = clockLine then base - 1#32 else base) (s.interrupted (32 + n) q) := by
  by_cases hn : n = clockLine
  · subst hn
    have hserved : (s.interrupted (32 + clockLine) q).mem.served clockLine = s.mem.served clockLine + 1 := by
      show (if 32 + clockLine.val = 32 + clockLine.val then s.mem.served clockLine + 1 else s.mem.served clockLine) = _
      rw [if_pos rfl]
    refine ⟨?_, h.own, h.others⟩
    show s.timer.gTicks = _
    rw [hserved, if_pos rfl, h.ticks, BitVec.ofNat_add, BitVec.add_comm (BitVec.ofNat 32 _), ← BitVec.add_assoc,
      BitVec.sub_add_cancel]
  · have hserved : ¬32 + n.val = 32 + clockLine.val := fun heq => hn (Fin.ext (Nat.add_left_cancel heq))
    rw [if_neg hn]
    exact h.congr rfl rfl (if_neg hserved)

/-- The tick is counted. -/
theorem tick (h : Clocked clock (base - 1#32) s) : Clocked clock base { s with timer := s.timer.tick } := by
  refine ⟨?_, h.own, h.others⟩
  show s.timer.gTicks + 1#32 = base + BitVec.ofNat 32 (s.mem.served clockLine)
  rw [h.ticks, BitVec.add_assoc, BitVec.add_comm (BitVec.ofNat 32 _), ← BitVec.add_assoc, BitVec.sub_add_cancel]

end Clocked

/-! ## Runs -/

/-- The work ends with the lines in service and the ticks as they were, from wherever the counter starts. -/
def KeepsClock (clock : Word) (q : Pics) (work : D Wired Unit) : Prop :=
  ∀ base d, Serving q d.kernel → Clocked clock base d.kernel →
    ∃ d', work d = (.ok (), d') ∧ Serving q d'.kernel ∧ Clocked clock base d'.kernel

section Runs

variable {clock base : Word} {p q : Pics} {d : Dispatch Wired} {n : Fin 16} {inside behind : D Wired Unit}

/-- The handler of the timer's line counts its tick, wherever in the handler other interrupts arrive. -/
theorem callHandler_counts (hinside : KeepsClock clock q inside) (hbehind : KeepsClock clock q behind)
    {handler : Word} (reg : Registers) (hhandler : handler = clock ↔ n = clockLine) (h : Serving q d.kernel)
    (hclocked : Clocked clock (if n = clockLine then base - 1#32 else base) d.kernel) :
    ∃ d', callHandler clock inside behind handler reg d = (.ok (), d') ∧ Serving q d'.kernel ∧
      Clocked clock base d'.kernel := by
  obtain ⟨d₁, hrun₁, h₁, hclocked₁⟩ := hinside _ { d with acts := d.acts ++ [.called handler reg] } h hclocked
  rw [callHandler, called_run, Lasting.bind_ok hrun₁]
  by_cases hn : n = clockLine
  · rw [if_pos hn] at hclocked₁
    have htick : kernelCode runTimerHandler d₁ =
        (.ok (), { d₁ with kernel := { d₁.kernel with timer := d₁.kernel.timer.tick } }) := by
      rw [kernelCode, runTimerHandler_run]
    rw [if_pos (hhandler.mpr hn), Lasting.bind_ok htick]
    exact hbehind base _ ⟨h₁.taken, h₁.programmed, h₁.service, h₁.masks, h₁.balance, h₁.maskedOff⟩ hclocked₁.tick
  · rw [if_neg hn] at hclocked₁
    rw [if_neg fun heq => hn (hhandler.mp heq)]
    exact hbehind base d₁ h₁ hclocked₁

/-- A service counts the ticks inside it, and one of the timer's line its own as well. -/
theorem dispatchVector_counts (base : Word) (at' : Interrupted) (hclock : clock ≠ 0#32) (hinside : KeepsClock clock q inside)
    (hbehind : KeepsClock clock q behind) (h : Serving q d.kernel)
    (hclocked : Clocked clock (if n = clockLine then base - 1#32 else base) d.kernel)
    (hends : ∀ r, q.NoMore r → p.NoMore (r.ended n)) (hmasks : ∀ k, q.masked k = p.masked k) :
    ∃ d', dispatchVector (callHandler clock inside behind) (32 + n) at' d = (.ok (), d') ∧ Serving p d'.kernel ∧
      Clocked clock base d'.kernel := by
  have hhandler : d.kernel.handlers (32 + (n.val : Int)) = clock ↔ n = clockLine := by
    refine ⟨fun heq => by_contra fun hn => hclocked.others n hn heq, fun hn => ?_⟩
    rw [hn]
    exact hclocked.own
  obtain ⟨d', hrun, h', s, ⟨_, hs⟩, hkernel⟩ := dispatchVector_serving
    (I := fun s => Serving q s ∧ Clocked clock base s) (n := n) (d := d) (callHandler clock inside behind) at'
    (fun _ hs => hs.1)
    (fun hnull => by
      have hn : n ≠ clockLine := fun hn => hclock (by rw [← hhandler.mpr hn, hnull])
      rw [if_neg hn] at hclocked
      exact ⟨h, hclocked⟩)
    (fun _ reg acts => callHandler_counts hinside hbehind reg hhandler h hclocked) hends hmasks
  refine ⟨d', hrun, h', ?_⟩
  rw [hkernel]
  exact hs.ended _

mutual

/-- Each step comes back with no more lines in service, and with the ticks counted. The induction is on what happens
inside an interrupt and behind its handler's code, for every value the counter starts from. -/
theorem ClockEvent.run_keeps (e : ClockEvent) (hclock : clock ≠ 0#32) {p : Pics} : KeepsClock clock p (e.run clock) := by
  intro base d h hclocked
  cases e with
  | raise n => exact ⟨_, rfl, h.raise n, hclocked.congr rfl rfl rfl⟩
  | own w => exact ⟨_, rfl, h.own _, hclocked.clockedWork w⟩
  | interrupt at' inside behind =>
      obtain ⟨_, hrun⟩ | ⟨n, q, htaken, hprogrammed, hmasks, hrun⟩ :=
        takeInterrupt_cases (callHandler clock (runClock clock inside) (runClock clock behind)) at' h
      · exact ⟨d, hrun, h, hclocked⟩
      · obtain ⟨d', hdispatch, h'⟩ := dispatchVector_counts (d := { d with kernel := _ }) base at' hclock
          (runClock_keeps inside hclock) (runClock_keeps behind hclock) (h.begin hprogrammed htaken)
          (hclocked.begin n q) (fun r hr => h.service.trans (htaken.ends r hr)) hmasks
        exact ⟨d', hrun.trans hdispatch, h'⟩
  | spurious second at' inside behind =>
      obtain ⟨q, hq, hends, hmasks, hrun⟩ :=
        takeSpurious_run (callHandler clock (runClock clock inside) (runClock clock behind)) second at' h
      have hother : Pics.spuriousLine second ≠ clockLine := by cases second <;> decide
      have hclocked' : Clocked clock (if Pics.spuriousLine second = clockLine then base - 1#32 else base)
          (d.kernel.withPics q) := by
        rw [if_neg hother]
        exact hclocked.congr rfl rfl rfl
      obtain ⟨d', hdispatch, h'⟩ := dispatchVector_counts (d := { d with kernel := _ }) base at' hclock
        (runClock_keeps inside hclock) (runClock_keeps behind hclock) hq hclocked' hends hmasks
      exact ⟨d', hrun.trans hdispatch, h'⟩

theorem runClock_keeps (es : List ClockEvent) (hclock : clock ≠ 0#32) {p : Pics} :
    KeepsClock clock p (runClock clock es) := by
  intro base d h hclocked
  cases es with
  | nil => exact ⟨d, rfl, h, hclocked⟩
  | cons e es =>
      obtain ⟨d₁, hrun, h₁, hclocked₁⟩ := e.run_keeps hclock base d h hclocked
      obtain ⟨d₂, hrest, h₂⟩ := runClock_keeps es hclock base d₁ h₁ hclocked₁
      exact ⟨d₂, (Lasting.bind_ok hrun).trans hrest, h₂⟩

end

/-- From the state `kmain` leaves: every run comes back, and the counter has gone up by the requests latched on the
timer's line, less the one that may still wait. -/
theorem clock_counts {s : Kernel Wired} (es : List ClockEvent) (hclock : clock ≠ 0#32) (hown : s.handlers 32 = clock)
    (hothers : ∀ n : Fin 16, n ≠ clockLine → s.handlers (32 + (n.val : Int)) ≠ clock)
    (htaken : s.mem.taken ≤ s.ports.length) (hprogrammed : s.pics.Programmed 0x20 0x28) (hidle : s.pics.Idle)
    (hraised : ∀ n, s.pics.raised n = false) (hnone : ∀ n, s.mem.latched n = 0 ∧ s.mem.served n = 0) :
    ∃ d', runClock clock es { kernel := s, acts := [] } = (.ok (), d') ∧ d'.kernel.pics.Idle ∧
      d'.kernel.timer.gTicks + BitVec.ofNat 32 (d'.kernel.pics.raised clockLine).toNat =
        s.timer.gTicks + BitVec.ofNat 32 (d'.kernel.mem.latched clockLine) := by
  have hserving : Serving s.pics s := ⟨htaken, hprogrammed, .refl _, fun _ => rfl,
    fun k _ => by rw [(hnone k).1, (hnone k).2, hraised k]; rfl, fun k _ => (hnone k).2⟩
  have hclocked : Clocked clock s.timer.gTicks s :=
    ⟨by rw [(hnone clockLine).2, BitVec.add_zero], hown, hothers⟩
  obtain ⟨d', hrun, h', hcounted⟩ := runClock_keeps es hclock _ { kernel := s, acts := [] } hserving hclocked
  refine ⟨d', hrun, h'.idle hidle, ?_⟩
  rw [hcounted.ticks, h'.balance clockLine (by decide), BitVec.ofNat_add, BitVec.add_assoc]

/-- The handler of the timer in its entry and another one in the rest of the table, with line 3 masked. -/
def clockedUp : Kernel Wired :=
  { Kernel.reset { ram := .zero, pics := { master := Pics.initialised 0x20#8 4#8 8#8, slave := Pics.initialised 0x28#8 2#8 0#8 }
                   taken := 0, latched := fun _ => 0, served := fun _ => 0 } with
    handlers := fun n => if n = 32 then 0xC0108100#32 else 0xC0108000#32 }

theorem diskLine_lt : 14 < 16 := by decide

/-- The timer twice while the disk is served, with a request that is gone between them. Its line is raised again
while the first tick is counted, and once more at the end. -/
def tickingLines : List ClockEvent :=
  [.raise ⟨14, diskLine_lt⟩,
    .interrupt atRest
      [.raise clockLine, .interrupt atRest [.raise clockLine] [], .spurious false atRest [] []]
      [.interrupt atRest [] []],
    .spurious true atRest [.raise clockLine] []]

theorem clock_counts_nested : ∃ d', runClock 0xC0108100#32 tickingLines { kernel := clockedUp, acts := [] } = (.ok (), d') ∧
    d'.kernel.pics.Idle ∧ d'.kernel.timer.gTicks = 2#32 ∧ d'.kernel.pics.raised clockLine = true ∧
    d'.kernel.timer.gTicks + BitVec.ofNat 32 (d'.kernel.pics.raised clockLine).toNat =
      0#32 + BitVec.ofNat 32 (d'.kernel.mem.latched clockLine) := by
  obtain ⟨d', hrun, hidle, hcounted⟩ := clock_counts (s := clockedUp) tickingLines (by decide) rfl (by decide)
    (Nat.le_refl 0) (Pics.initialised_programmed _ _) ⟨fun _ => rfl, fun _ => rfl⟩ (by decide) (fun _ => ⟨rfl, rfl⟩)
  refine ⟨d', hrun, hidle, ?_, ?_, hcounted⟩
  · obtain rfl : _ = d' := congrArg Prod.snd hrun
    decide +kernel
  · obtain rfl : _ = d' := congrArg Prod.snd hrun
    decide +kernel

end Runs

end LizaOS
