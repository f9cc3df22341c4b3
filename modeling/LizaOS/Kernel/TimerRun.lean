-- SUMMARY: Timer functions keep their period up to the first wrap of the tick counter; sleep waits right in one round of it.
import LizaOS.Kernel.Timer
import LizaOS.Logic.Counter
import LizaOS.Machine.Word

/-!
# Runs of the timer

The tick counter stands for the number of interrupts, and wraps at 2^32. Both the periodic functions and
`sleep` take it for that number.
-/

namespace LizaOS

open Exec Counter

/-! ## Periodic functions -/

/-- An entry with a timeout has a function. -/
def TimerFunctionManager.Sound (m : TimerFunctionManager) : Prop :=
  ∀ i, i < maximumTimerFunctions → (m.funcArgs i).timeout ≠ 0#32 → m.functions i ≠ 0#32

/-- The interrupts in which an entry has been called. -/
def Timers.times (s : Timers) (i : Nat) : List Nat := (s.calls.filter fun call => call.entry = i).map (·.interrupt)

/-- The functions have been called at their periods in the first `n` interrupts. -/
structure FiresPeriodically (m : TimerFunctionManager) (n : Nat) (s : Timers) : Prop where
  count : ∀ i, i < maximumTimerFunctions → (m.funcArgs i).timeout ≠ 0#32 →
    (s.times i).length = n / (m.funcArgs i).timeout.toNat
  apart : ∀ i, i < maximumTimerFunctions → (m.funcArgs i).timeout ≠ 0#32 →
    (s.times i).IsChain fun a b => b = a + (m.funcArgs i).timeout.toNat
  idle : ∀ i, i < maximumTimerFunctions → (m.funcArgs i).timeout = 0#32 → s.times i = []
  own : ∀ call ∈ s.calls, call.function = m.functions call.entry ∧ call.args = call.entry

/-- Before the first interrupt. -/
def Timers.start (m : TimerFunctionManager) (freqHz : Half) : Timers where
  timer := { gTicks := 0#32, gFreqHz := freqHz }
  manager := m
  interrupts := 0
  calls := []

/-- The entry is due at a counter. -/
def TimerFunctionManager.Due (m : TimerFunctionManager) (gTicks : Word) (i : Nat) : Prop :=
  (m.funcArgs i).timeout ≠ 0#32 ∧ gTicks % (m.funcArgs i).timeout = 0#32

instance (m : TimerFunctionManager) (gTicks : Word) (i : Nat) : Decidable (m.Due gTicks i) :=
  inferInstanceAs (Decidable (_ ∧ _))

section Handler

variable {m : TimerFunctionManager} {s : Timers}

/-- The calls of the first `k` turns. -/
def callsUpTo (s : Timers) : Nat → List TimerCall
  | 0 => []
  | k + 1 => callsUpTo s k ++ if s.manager.Due s.timer.gTicks k then
      [{ interrupt := s.interrupts, entry := k, function := s.manager.functions k, args := k }] else []

theorem timerHandlerEntry_run (hsound : s.manager.Sound) {i : Nat} (hi : i < maximumTimerFunctions)
    (calls : List TimerCall) :
    timerHandlerEntry i { s with calls := calls } = .ok ((), { s with
      calls := calls ++ if s.manager.Due s.timer.gTicks i then
        [{ interrupt := s.interrupts, entry := i, function := s.manager.functions i, args := i }] else [] }) := by
  rw [timerHandlerEntry, bind_run (get_apply _)]
  by_cases htimeout : (s.manager.funcArgs i).timeout = 0#32
  · have hnot : ¬s.manager.Due s.timer.gTicks i := fun h => h.1 htimeout
    rw [if_neg (not_not.mpr htimeout), if_neg hnot, List.append_nil]
    rfl
  · rw [if_pos htimeout]
    by_cases hdue : s.timer.gTicks % (s.manager.funcArgs i).timeout = 0#32
    · have hthere : s.manager.Due s.timer.gTicks i := ⟨htimeout, hdue⟩
      rw [if_pos hdue, if_pos hthere, callFunction, bind_run (get_apply _), if_neg (hsound i hi htimeout)]
      rfl
    · have hnot : ¬s.manager.Due s.timer.gTicks i := fun h => hdue h.2
      rw [if_neg hdue, if_neg hnot, List.append_nil]
      rfl

/-- The handler counts the tick and calls what is due. -/
theorem timerHandler_run (hsound : s.manager.Sound) :
    timerHandler s = .ok ((), { s with
      timer := s.timer.tick
      interrupts := s.interrupts + 1
      calls := s.calls ++
        callsUpTo { s with timer := s.timer.tick, interrupts := s.interrupts + 1 } maximumTimerFunctions }) := by
  let s₁ : Timers := { s with timer := s.timer.tick, interrupts := s.interrupts + 1 }
  have hloop : Returns (forUp timerHandlerEntry 0 maximumTimerFunctions) s₁ fun _ s' =>
      s' = { s₁ with calls := s.calls ++ callsUpTo s₁ (0 + maximumTimerFunctions) } := by
    refine forUp_returns (I := fun k s' => s' = { s₁ with calls := s.calls ++ callsUpTo s₁ k }) ?_ ?_
    · simp [callsUpTo, s₁]
    · rintro k _ _ hk rfl
      refine .of_eq (timerHandlerEntry_run (s := s₁) hsound (by omega) _) ?_
      rw [callsUpTo, List.append_assoc]
  obtain ⟨_, s', hrun, rfl⟩ := hloop
  have hcount : (modify fun s => { s with timer := s.timer.tick, interrupts := s.interrupts + 1 } : T Unit) s =
      .ok ((), s₁) := rfl
  rw [timerHandler, bind_run hcount, hrun, Nat.zero_add]

/-- A tick is counted in every interrupt. -/
theorem timerHandler_ticks (hsound : s.manager.Sound) :
    Returns timerHandler s fun _ s' => s'.timer = s.timer.tick :=
  .of_eq (timerHandler_run hsound) rfl

/-- In one interrupt an entry is called once at most. -/
theorem callsUpTo_times (s : Timers) {i : Nat} (k : Nat) :
    ((callsUpTo s k).filter fun call => call.entry = i).map (·.interrupt) =
      if i < k ∧ s.manager.Due s.timer.gTicks i then [s.interrupts] else [] := by
  induction k with
  | zero => rfl
  | succ k ih =>
      rw [callsUpTo, List.filter_append, List.map_append, ih]
      by_cases heq : k = i
      · subst heq
        rw [if_neg fun h => Nat.lt_irrefl _ h.1, List.nil_append]
        by_cases hdue : s.manager.Due s.timer.gTicks k
        · rw [if_pos hdue, if_pos ⟨Nat.lt_succ_self k, hdue⟩]
          simp
        · rw [if_neg hdue, if_neg fun h => hdue h.2]
          rfl
      · have hother : ((if s.manager.Due s.timer.gTicks k then
            [({ interrupt := s.interrupts, entry := k, function := s.manager.functions k, args := k } : TimerCall)]
              else []).filter fun call => call.entry = i) = [] := by
          split
          · exact List.filter_cons_of_neg (by simpa using heq)
          · rfl
        have hlt : i < k + 1 ↔ i < k := by omega
        rw [hother, List.map_nil, List.append_nil]
        simp only [hlt]

theorem callsUpTo_own (s : Timers) (k : Nat) {call : TimerCall} (h : call ∈ callsUpTo s k) :
    call.function = s.manager.functions call.entry ∧ call.args = call.entry := by
  induction k with
  | zero => cases h
  | succ k ih =>
      rcases List.mem_append.mp h with hbefore | hlast
      · exact ih hbefore
      · split at hlast
        · rw [List.mem_singleton.mp hlast]
          exact ⟨rfl, rfl⟩
        · cases hlast

/-- The state behind the first `n` interrupts: the counter, and the calls of each entry. -/
structure Ticked (m : TimerFunctionManager) (n : Nat) (s : Timers) : Prop where
  manager : s.manager = m
  ticks : s.timer.gTicks = BitVec.ofNat 32 n
  interrupts : s.interrupts = n
  times : ∀ i, i < maximumTimerFunctions → s.times i =
    if (m.funcArgs i).timeout = 0#32 then [] else firings (2 ^ 32) (m.funcArgs i).timeout.toNat n
  own : ∀ call ∈ s.calls, call.function = m.functions call.entry ∧ call.args = call.entry

theorem Ticked.handler {n : Nat} (hsound : m.Sound) (h : Ticked m n s) :
    Returns timerHandler s fun _ s' => Ticked m (n + 1) s' := by
  obtain ⟨rfl, hticks, hinterrupts, htimes, hown⟩ := h
  have hnext : s.timer.tick.gTicks = BitVec.ofNat 32 (n + 1) := by
    rw [Timer.tick, hticks, BitVec.ofNat_add]
  refine .of_eq (timerHandler_run hsound) ⟨rfl, hnext, by rw [hinterrupts], fun i hi => ?_, fun call hcall => ?_⟩
  · rw [Timers.times, List.filter_append, List.map_append, callsUpTo_times]
    have hbefore := htimes i hi
    unfold Timers.times at hbefore
    rw [hbefore]
    by_cases htimeout : (s.manager.funcArgs i).timeout = 0#32
    · have hnot : ¬s.manager.Due s.timer.tick.gTicks i := fun h => h.1 htimeout
      rw [if_pos htimeout, if_pos htimeout, if_neg fun h => hnot h.2]
      rfl
    · have hdue : s.manager.Due s.timer.tick.gTicks i ↔
          (n + 1) % 2 ^ 32 % (s.manager.funcArgs i).timeout.toNat = 0 := by
        rw [TimerFunctionManager.Due, hnext, ← BitVec.toNat_inj, BitVec.toNat_umod, BitVec.toNat_ofNat]
        exact and_iff_right htimeout
      rw [if_neg htimeout, if_neg htimeout, firings]
      simp only [hi, true_and, hdue, hinterrupts]
  · rcases List.mem_append.mp hcall with hbefore | hlater
    · exact hown call hbefore
    · have hlaterOwn := callsUpTo_own _ _ hlater
      exact hlaterOwn

theorem timerInterrupts_ticked (hsound : m.Sound) (freqHz : Half) (n : Nat) :
    Returns (timerInterrupts n) (.start m freqHz) fun _ s => Ticked m n s := by
  induction n with
  | zero =>
      have htimes : ∀ i, Timers.times (.start m freqHz) i = [] := fun _ => rfl
      refine .of_eq rfl ⟨rfl, rfl, rfl, fun i _ => ?_, nofun⟩
      rw [htimes, firings, ite_self]
  | succ n ih => exact ih.bind fun _ s h => h.handler hsound

/-- The periods are kept exactly up to the first wrap of the counter, or if all of them divide 2^32. -/
theorem Ticked.periods_iff {n : Nat} (h : Ticked m n s) :
    FiresPeriodically m n s ↔ n < 2 ^ 32 ∨
      ∀ i, i < maximumTimerFunctions → (m.funcArgs i).timeout ≠ 0#32 → (m.funcArgs i).timeout.toNat ∣ 2 ^ 32 := by
  have hperiodic : ∀ i, (m.funcArgs i).timeout ≠ 0#32 →
      (Periodic (2 ^ 32) (m.funcArgs i).timeout.toNat n ↔ n < 2 ^ 32 ∨ (m.funcArgs i).timeout.toNat ∣ 2 ^ 32) :=
    fun i htimeout => periodic_iff (ne_zero_iff_toNat.mp htimeout) (m.funcArgs i).timeout.isLt
  have htimes : ∀ i, i < maximumTimerFunctions → (m.funcArgs i).timeout ≠ 0#32 →
      s.times i = firings (2 ^ 32) (m.funcArgs i).timeout.toNat n := fun i hi htimeout => by
    rw [h.times i hi, if_neg htimeout]
  constructor
  · intro hfires
    by_cases hn : n < 2 ^ 32
    · exact .inl hn
    · refine .inr fun i hi htimeout => ?_
      have hentry : Periodic (2 ^ 32) (m.funcArgs i).timeout.toNat n := by
        have hcount := hfires.count i hi htimeout
        have hapart := hfires.apart i hi htimeout
        rw [htimes i hi htimeout] at hcount hapart
        exact ⟨hcount, hapart⟩
      exact ((hperiodic i htimeout).mp hentry).resolve_left hn
  · intro hcond
    have hentry : ∀ i, i < maximumTimerFunctions → (m.funcArgs i).timeout ≠ 0#32 →
        Periodic (2 ^ 32) (m.funcArgs i).timeout.toNat n := fun i hi htimeout =>
      (hperiodic i htimeout).mpr (hcond.imp_right fun hdvd => hdvd i hi htimeout)
    refine ⟨fun i hi htimeout => ?_, fun i hi htimeout => ?_, fun i hi htimeout => ?_, h.own⟩
    · rw [htimes i hi htimeout]
      exact (hentry i hi htimeout).count
    · rw [htimes i hi htimeout]
      exact (hentry i hi htimeout).apart
    · rw [h.times i hi, if_pos htimeout]

/-- After any number of interrupts the periodic functions have been called at their periods, exactly if the
counter has not wrapped or every period divides 2^32. -/
theorem firesPeriodically_iff (hsound : m.Sound) (freqHz : Half) (n : Nat) :
    Returns (timerInterrupts n) (.start m freqHz) (fun _ s => FiresPeriodically m n s) ↔
      n < 2 ^ 32 ∨ ∀ i, i < maximumTimerFunctions → (m.funcArgs i).timeout ≠ 0#32 →
        (m.funcArgs i).timeout.toNat ∣ 2 ^ 32 := by
  obtain ⟨_, s, hrun, hticked⟩ := timerInterrupts_ticked hsound freqHz n
  rw [← hticked.periods_iff]
  constructor
  · exact fun h => h.whenReturns _ _ hrun
  · exact fun h => .of_eq hrun h

/-- A table with one function, called in every third interrupt. -/
def everyThird : TimerFunctionManager where
  functions i := if i = 0 then 0xC0103000#32 else 0#32
  funcArgs i := { timeout := if i = 0 then 3#32 else 0#32 }

theorem everyThird_sound : everyThird.Sound := by
  intro i _ htimeout
  by_cases hi : i = 0
  · simp [everyThird, hi]
  · simp [everyThird, hi] at htimeout

theorem firesPeriodically_iff_third :
    Returns (timerInterrupts 100) (.start everyThird 100#16) fun _ s => FiresPeriodically everyThird 100 s :=
  (firesPeriodically_iff everyThird_sound 100#16 100).mpr (.inl (by decide))

/-- Between 4294967295 and the wrap behind it there is one interrupt. -/
theorem not_firesPeriodically_wrap :
    ¬Returns (timerInterrupts (2 ^ 32)) (.start everyThird 100#16) fun _ s =>
      FiresPeriodically everyThird (2 ^ 32) s := by
  intro hfires
  obtain ⟨_, s, hrun, hticked⟩ := timerInterrupts_ticked everyThird_sound 100#16 (2 ^ 32)
  rcases hticked.periods_iff.mp (hfires.whenReturns _ _ hrun) with hlt | hdvd
  · exact Nat.lt_irrefl _ hlt
  · exact absurd (hdvd 0 (by decide) (by decide)) (by decide)

end Handler

/-! ## Sleeping -/

/-- The interrupts that have occurred before the test `k` of the loop, but for those right before it. -/
def occurred (bursts : Nat → Nat) : Nat → Nat
  | 0 => 0
  | k + 1 => occurred bursts k + bursts k

/-- The interrupts to wait for. -/
def duration (t : Timer) (sec : Int) : Nat := (sec * t.gFreqHz.toNat).toNat

/-- At the test `k` the time is up for the first time. -/
structure FirstDue (t : Timer) (sec : Int) (bursts : Nat → Nat) (k : Nat) : Prop where
  before : ∀ j, j < k → occurred bursts (j + 1) < duration t sec
  due : duration t sec ≤ occurred bursts (k + 1)

/-- `sleep` does not return early, and not late either. -/
structure Sleeps (t : Timer) (sec : Int) (bursts : Nat → Nat) : Prop where
  notEarly : ∀ fuel k, sleep t sec bursts fuel = some k → duration t sec ≤ occurred bursts (k + 1)
  notLate : ∀ k, FirstDue t sec bursts k → occurred bursts (k + 1) < duration t sec + 2 ^ 31 →
    ∃ fuel, sleep t sec bursts fuel = some k

/-- At each test up to the first at which the time is up, if that is not 2^31 interrupts late, the counter has
wrapped as often as its value at the end of the time. -/
def InOneRound (t : Timer) (sec : Int) (bursts : Nat → Nat) : Prop :=
  ∀ k, (∀ j, j < k → occurred bursts (j + 1) < duration t sec) →
    occurred bursts (k + 1) < duration t sec + 2 ^ 31 →
      (t.gTicks.toNat + occurred bursts (k + 1)) / 2 ^ 32 = (t.gTicks.toNat + duration t sec) / 2 ^ 32

section Sleeping

variable {t : Timer} {sec : Int} {bursts : Nat → Nat} {stop : Word} {k : Nat}

theorem occurred_mono {j : Nat} (h : j ≤ k) : occurred bursts j ≤ occurred bursts k := by
  induction h with
  | refl => exact Nat.le_refl _
  | step _ ih => exact Nat.le_add_right_of_le ih

theorem Timer.ticks_gTicks (n : Nat) (t : Timer) : (t.ticks n).gTicks = t.gTicks + BitVec.ofNat 32 n := by
  induction n with
  | zero => exact (BitVec.add_zero _).symm
  | succ n ih => rw [Timer.ticks, Timer.tick, ih, BitVec.add_assoc, ← BitVec.ofNat_add]

/-- The test `k` finds the time not up. -/
def Waits (t : Timer) (stop : Word) (bursts : Nat → Nat) (k : Nat) : Prop :=
  t.gTicks + BitVec.ofNat 32 (occurred bursts (k + 1)) < stop

/-- The loop is left at the first test that finds the time up. -/
theorem sleepLoop_eq_some {fuel : Nat} {t' : Timer}
    (ht' : t'.gTicks = t.gTicks + BitVec.ofNat 32 (occurred bursts k)) {r : Nat} :
    sleepLoop stop bursts fuel k t' = some r ↔
      k ≤ r ∧ r < k + fuel ∧ (∀ j, k ≤ j → j < r → Waits t stop bursts j) ∧ ¬Waits t stop bursts r := by
  induction fuel generalizing k t' with
  | zero =>
      rw [sleepLoop]
      constructor
      · exact nofun
      · rintro ⟨hle, hlt, _⟩
        omega
  | succ fuel ih =>
      have hticks : (t'.ticks (bursts k)).gTicks = t.gTicks + BitVec.ofNat 32 (occurred bursts (k + 1)) := by
        rw [Timer.ticks_gTicks, ht', occurred, BitVec.ofNat_add, BitVec.add_assoc]
      rw [sleepLoop]
      by_cases hwait : Waits t stop bursts k
      · have hgo : (t'.ticks (bursts k)).gTicks < stop := by
          rw [hticks]
          exact hwait
        rw [if_pos hgo, ih hticks]
        constructor
        · rintro ⟨hle, hlt, hbefore, hup⟩
          refine ⟨by omega, by omega, fun j hj hjr => ?_, hup⟩
          rcases Nat.eq_or_lt_of_le hj with rfl | hj
          · exact hwait
          · exact hbefore j hj hjr
        · rintro ⟨hle, hlt, hbefore, hup⟩
          have hne : r ≠ k := fun heq => hup (heq ▸ hwait)
          exact ⟨by omega, by omega, fun j hj hjr => hbefore j (by omega) hjr, hup⟩
      · have hstop : ¬(t'.ticks (bursts k)).gTicks < stop := by
          rw [hticks]
          exact hwait
        rw [if_neg hstop]
        constructor
        · intro heq
          obtain rfl := Option.some.inj heq
          exact ⟨Nat.le_refl _, by omega, fun j hj hjr => absurd hjr (by omega), hwait⟩
        · rintro ⟨hle, _, hbefore, _⟩
          rcases Nat.eq_or_lt_of_le hle with rfl | hlt
          · rfl
          · exact absurd (hbefore k (Nat.le_refl k) hlt) hwait

theorem sleep_eq_some {fuel r : Nat} :
    sleep t sec bursts fuel = some r ↔
      r < fuel ∧ (∀ j, j < r → Waits t (sleepEnd t sec) bursts j) ∧ ¬Waits t (sleepEnd t sec) bursts r := by
  rw [sleep, sleepLoop_eq_some (BitVec.add_zero _).symm]
  simp

/-- A test compares the counter with its value at the end of the time. -/
theorem waits_iff_mod (hsec : 0 ≤ sec) : Waits t (sleepEnd t sec) bursts k ↔
    (t.gTicks.toNat + occurred bursts (k + 1)) % 2 ^ 32 < (t.gTicks.toNat + duration t sec) % 2 ^ 32 := by
  have hproduct : sec * t.gFreqHz.toNat = (duration t sec : Int) :=
    (Int.toNat_of_nonneg (Int.mul_nonneg hsec (Int.natCast_nonneg _))).symm
  rw [Waits, sleepEnd, hproduct, BitVec.ofInt_natCast, BitVec.lt_def, BitVec.toNat_add, BitVec.toNat_add,
    BitVec.toNat_ofNat, BitVec.toNat_ofNat, Nat.add_mod_mod, Nat.add_mod_mod]

theorem waits_iff_lt (hsec : 0 ≤ sec)
    (h : (t.gTicks.toNat + occurred bursts (k + 1)) / 2 ^ 32 = (t.gTicks.toNat + duration t sec) / 2 ^ 32) :
    Waits t (sleepEnd t sec) bursts k ↔ occurred bursts (k + 1) < duration t sec := by
  rw [waits_iff_mod hsec, mod_lt_mod_iff h]
  exact Nat.add_lt_add_iff_left

theorem sleeps_of_inOneRound (hsec : 0 ≤ sec) (h : InOneRound t sec bursts) : Sleeps t sec bursts := by
  constructor
  · intro fuel k hleft
    obtain ⟨_, _, hup⟩ := sleep_eq_some.mp hleft
    by_contra hearly
    have hlt : occurred bursts (k + 1) < duration t sec := by omega
    have hround := h k (fun j hj => Nat.lt_of_le_of_lt (occurred_mono (by omega)) hlt) (by omega)
    exact hup ((waits_iff_lt hsec hround).mpr hlt)
  · rintro k ⟨hbefore, hdue⟩ hsoon
    refine ⟨k + 1, sleep_eq_some.mpr ⟨Nat.lt_succ_self k, fun j hj => ?_, ?_⟩⟩
    · have hlt := hbefore j hj
      have hround := h j (fun i hi => hbefore i (by omega)) (by omega)
      exact (waits_iff_lt hsec hround).mpr hlt
    · rw [waits_iff_lt hsec (h k hbefore hsoon)]
      omega

/-- Where the end of the time is behind a wrap, no test may come before the wrap; where it is not, the test at
which the time is up may not come behind one. -/
theorem inOneRound_of_sleeps (hsec : 0 ≤ sec) (hshort : duration t sec < 2 ^ 31) (h : Sleeps t sec bursts) :
    InOneRound t sec bursts := by
  intro k hbefore hsoon
  have hticks := t.gTicks.isLt
  rcases Nat.lt_or_ge (t.gTicks.toNat + duration t sec) (2 ^ 32) with hnowrap | hwrap
  · rw [Nat.div_eq_of_lt hnowrap]
    refine Nat.div_eq_of_lt ?_
    by_contra hlate
    have hdue : FirstDue t sec bursts k := ⟨hbefore, by omega⟩
    obtain ⟨fuel, hleft⟩ := h.notLate k hdue hsoon
    refine (sleep_eq_some.mp hleft).2.2 ?_
    rw [waits_iff_mod hsec, Nat.mod_eq_of_lt hnowrap]
    omega
  · have hround : ∀ x, 2 ^ 32 ≤ x → x < 2 * 2 ^ 32 → x / 2 ^ 32 = 1 := fun x hle hlt => by omega
    rw [hround _ hwrap (by omega)]
    refine hround _ ?_ (by omega)
    by_contra hbeforeWrap
    -- then the first test of all comes before the wrap, and finds the time up
    have hfirst : occurred bursts (0 + 1) ≤ occurred bursts (k + 1) := occurred_mono (by omega)
    have hleft : sleep t sec bursts 1 = some 0 := by
      refine sleep_eq_some.mpr ⟨Nat.zero_lt_one, fun j hj => absurd hj (Nat.not_lt_zero j), ?_⟩
      rw [waits_iff_mod hsec, Nat.mod_eq_of_lt (by omega)]
      omega
    have hnotEarly := h.notEarly 1 0 hleft
    omega

/-- `sleep` waits right in a run exactly if the counter and its value at the end of the time are in one round at the
tests that matter; it does so however the interrupts fall, exactly if the time ends at 2^31 at the latest. -/
theorem sleeps_iff (hsec : 0 ≤ sec) (hshort : sec * t.gFreqHz.toNat < 2 ^ 31) :
    (∀ bursts, Sleeps t sec bursts ↔ InOneRound t sec bursts) ∧
      ((∀ bursts, Sleeps t sec bursts) ↔ t.gTicks.toNat + duration t sec ≤ 2 ^ 31) := by
  have hduration : duration t sec < 2 ^ 31 := by
    have hproduct : sec * t.gFreqHz.toNat = (duration t sec : Int) :=
      (Int.toNat_of_nonneg (Int.mul_nonneg hsec (Int.natCast_nonneg _))).symm
    omega
  have hrun : ∀ bursts, Sleeps t sec bursts ↔ InOneRound t sec bursts := fun bursts =>
    ⟨inOneRound_of_sleeps hsec hduration, sleeps_of_inOneRound hsec⟩
  refine ⟨hrun, fun hall => ?_, fun hend bursts => (hrun bursts).mpr fun k _ hsoon => ?_⟩
  · by_contra hlate
    have hticks := t.gTicks.isLt
    have hfirst : ∀ n, occurred (fun _ => n) 1 = n := fun n => Nat.zero_add n
    have hround := fun n => (hrun fun _ => n).mp (hall _) 0 (fun j hj => absurd hj (Nat.not_lt_zero j))
    simp only [hfirst] at hround
    rcases Nat.lt_or_ge (t.gTicks.toNat + duration t sec) (2 ^ 32) with hnowrap | hwrap
    · have hatWrap := hround (2 ^ 32 - t.gTicks.toNat) (by omega)
      omega
    · have hatOnce := hround 0 (by omega)
      omega
  · rw [Nat.div_eq_of_lt (by omega), Nat.div_eq_of_lt (by omega)]

/-- A second after a hundred ticks, with an interrupt between any two tests. -/
theorem sleeps_iff_second : Sleeps { gTicks := 100#32, gFreqHz := 100#16 } 1 fun _ => 1 :=
  ((sleeps_iff (by decide) (by decide)).2).mpr (by decide) _

/-- Sixteen ticks before the wrap a second is over at once. -/
theorem not_sleeps_wrap : ¬Sleeps { gTicks := 0xFFFFFFF0#32, gFreqHz := 100#16 } 1 fun _ => 0 := by
  intro h
  have hleft : sleep { gTicks := 0xFFFFFFF0#32, gFreqHz := 100#16 } 1 (fun _ => 0) 1 = some 0 := by decide
  exact absurd (h.notEarly 1 0 hleft) (by decide)

end Sleeping

end LizaOS
