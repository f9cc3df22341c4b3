-- SUMMARY: The frequency of the timer interrupt, and how long a sleep lasts by the clock of the interval timer.
import LizaOS.Kernel.Isr
import LizaOS.Kernel.TimerRun
import LizaOS.Machine.Pit
import Mathlib.Order.Monotone.Basic
import Mathlib.Tactic.IntervalCases

/-!
# Frequency

`timer_set_frequency` and `timer_init` of `kernel/timer.c`, down to the interval timer, which gives the interrupts
that `sleep` counts.
-/

namespace LizaOS

open Exec

/-! ## The code -/

def timerInputClockFrequency : Nat := 1193180
def timerCommandPort : Half := 0x43#16
def timerChannel0DataPort : Half := 0x40#16

/-- The quotient of two `int`s, in a `uint16`. -/
def timerDivisor (f : Half) : Half := BitVec.ofNat 16 (timerInputClockFrequency / f.toNat)

section Code

variable {μ : Type}

def timerSetFrequency (f : Half) : K μ Unit := do
  modify fun s => { s with timer := { s.timer with gFreqHz := f } }
  -- a division by zero raises an exception, whose handler panics
  if f = 0#16 then throw .panic
  let divisor := timerDivisor f
  outb timerCommandPort 0b00110110#8
  outb timerChannel0DataPort ((divisor &&& 0xFF#16).setWidth 8)
  outb timerChannel0DataPort (((divisor >>> 8) &&& 0xFF#16).setWidth 8)

def irqBase : Int := 0x20

def timerInit [Bus μ] (timerHandler : Word) : K μ Unit := do
  timerSetFrequency 100#16
  isrRegisterInterruptHandler irqBase timerHandler

end Code

/-- The bytes `timer_set_frequency` sends. -/
def frequencyWrites (f : Half) : List (Half × Byte) :=
  [(timerCommandPort, 0b00110110#8), (timerChannel0DataPort, ((timerDivisor f) &&& 0xFF#16).setWidth 8),
    (timerChannel0DataPort, ((timerDivisor f >>> 8) &&& 0xFF#16).setWidth 8)]

/-! ## The interval timer -/

section Programmed

variable {μ : Type} {f : Half} {p : Pit}

theorem timerSetFrequency_run (hf : f ≠ 0#16) (s : Kernel μ) : timerSetFrequency f s = .ok ((), { s with
    timer := { s.timer with gFreqHz := f }, ports := s.ports ++ frequencyWrites f }) := by
  have hrun : timerSetFrequency f s = (do
      if f = 0#16 then throw .panic
      outb timerCommandPort 0b00110110#8
      outb timerChannel0DataPort ((timerDivisor f &&& 0xFF#16).setWidth 8)
      outb timerChannel0DataPort (((timerDivisor f >>> 8) &&& 0xFF#16).setWidth 8) : K μ Unit)
      { s with timer := { s.timer with gFreqHz := f } } := rfl
  have hports : ∀ a b c : Half × Byte, s.ports ++ [a] ++ [b] ++ [c] = s.ports ++ [a, b, c] := fun a b c => by
    rw [List.append_assoc, List.append_assoc]
    rfl
  rw [hrun, if_neg hf, frequencyWrites, ← hports]
  rfl

theorem timerSetFrequency_zero (s : Kernel μ) : timerSetFrequency 0#16 s = .error .panic := rfl

theorem half_ne_zero {h : Half} : h ≠ 0#16 ↔ 0 < h.toNat := by
  rw [Nat.pos_iff_ne_zero, Ne, Ne, BitVec.toNat_eq]
  rfl

/-- A divisor is taken apart and put together again. -/
theorem divisor_bytes (d : Half) : ((d >>> 8) &&& 0xFF#16).setWidth 8 ++ (d &&& 0xFF#16).setWidth 8 = d := by
  refine BitVec.eq_of_getLsbD_eq fun i hi => ?_
  rw [BitVec.getLsbD_append]
  interval_cases i <;> simp

/-- Whatever has been written to the timer before. -/
theorem Pit.writes_frequency (p : Pit) (f : Half) : p.writes (frequencyWrites f) =
    { access := 3#2, mode := 3#3, bcd := false, low := none, reload := Pit.period false (timerDivisor f)
      count := Pit.period false (timerDivisor f) } := by
  have hcontrol : p.outb timerCommandPort 0b00110110#8 =
      { p with access := 3#2, mode := 3#3, bcd := false, low := none, count := 0 } := rfl
  have hrun : p.writes (frequencyWrites f) = { p with
      access := 3#2, mode := 3#3, bcd := false, low := none
      reload := Pit.period false
        (((timerDivisor f >>> 8) &&& 0xFF#16).setWidth 8 ++ ((timerDivisor f) &&& 0xFF#16).setWidth 8)
      count := Pit.period false
        (((timerDivisor f >>> 8) &&& 0xFF#16).setWidth 8 ++ ((timerDivisor f) &&& 0xFF#16).setWidth 8) } := rfl
  rw [hrun, divisor_bytes]

/-- A divisor that fits is the period. -/
theorem period_divisor (hf : 19 ≤ f.toNat) :
    Pit.period false (timerDivisor f) = timerInputClockFrequency / f.toNat ∧ 0 < timerInputClockFrequency / f.toNat := by
  have hlt := f.isLt
  have hpos : 0 < timerInputClockFrequency / f.toNat := Nat.div_pos (by unfold timerInputClockFrequency; omega) (by omega)
  have hle : timerInputClockFrequency / f.toNat ≤ timerInputClockFrequency / 19 := Nat.div_le_div_left hf (by decide)
  have hbound : timerInputClockFrequency / 19 < 2 ^ 16 := by decide
  have hdivisor : (timerDivisor f).toNat = timerInputClockFrequency / f.toNat := by
    rw [timerDivisor, BitVec.toNat_ofNat, Nat.mod_eq_of_lt (by omega)]
  refine ⟨?_, hpos⟩
  rw [Pit.period, if_neg (by decide), if_neg (half_ne_zero.mpr (by omega)), hdivisor]

end Programmed

/-! ## The rate -/

/-- In `n` seconds there are at least as many interrupts as asked for, and no more in a time that is `f` clocks a
second shorter. -/
structure RightRate (f : Half) (p : Pit) : Prop where
  notSlow : ∀ n, n * f.toNat ≤ (p.clocks (n * timerInputClockFrequency)).1
  notFast : ∀ n, (p.clocks (n * (timerInputClockFrequency - f.toNat))).1 ≤ n * f.toNat

section Rate

variable {μ : Type} {f : Half} {p : Pit} {s s' : Kernel μ}

/-- The timer that `timer_set_frequency` has programmed. -/
theorem programmed_periodic (p : Pit) (f : Half) : (p.writes (frequencyWrites f)).Periodic := by
  have hpos : 0 < Pit.period false (timerDivisor f) := by
    rw [Pit.period, if_neg (by decide)]
    split
    · decide
    · next hne => exact half_ne_zero.mp hne
  have hmode : (3#3).getLsbD 1 = true := by decide
  rw [Pit.writes_frequency]
  exact ⟨hmode, hpos, Nat.le_refl _⟩

theorem programmed_clocks (p : Pit) (f : Half) (n : Nat) :
    ((p.writes (frequencyWrites f)).clocks n).1 = n / Pit.period false (timerDivisor f) := by
  rw [Pit.clocks_eq (programmed_periodic p f), Pit.writes_frequency, Nat.sub_self, Nat.add_zero]

theorem rightRate_of_le (hf : 19 ≤ f.toNat) (p : Pit) : RightRate f (p.writes (frequencyWrites f)) := by
  obtain ⟨hperiod, hpos⟩ := period_divisor hf
  have hfits := Nat.div_mul_le_self timerInputClockFrequency f.toNat
  have hnext := Nat.lt_succ_iff.mp (Nat.lt_succ_of_lt (Nat.lt_div_mul_add (a := timerInputClockFrequency) (by omega : 0 < f.toNat)))
  constructor
  · intro n
    rw [programmed_clocks, hperiod, Nat.le_div_iff_mul_le hpos, Nat.mul_assoc]
    exact Nat.mul_le_mul_left n (by rw [Nat.mul_comm]; exact hfits)
  · intro n
    rw [programmed_clocks, hperiod]
    refine Nat.div_le_of_le_mul ?_
    rw [Nat.mul_left_comm]
    exact Nat.mul_le_mul_left n (by omega)

/-- Below 19 interrupts a second the divisor does not fit. -/
theorem le_of_rightRate (hf : f ≠ 0#16) (h : RightRate f (p.writes (frequencyWrites f))) : 19 ≤ f.toNat := by
  have hfast := h.notFast 1
  rw [programmed_clocks, Nat.one_mul, Nat.one_mul] at hfast
  by_contra hlt
  have hpos := half_ne_zero.mp hf
  have hcases : ∀ k, k < 19 → 0 < k →
      k < (timerInputClockFrequency - k) / Pit.period false (BitVec.ofNat 16 (timerInputClockFrequency / k)) := by decide
  have hk := hcases f.toNat (by omega) hpos
  rw [timerDivisor] at hfast
  omega

/-- `timer_set_frequency` comes back and gives the rate it is asked for, whatever state the timer is in, exactly from
19 interrupts a second on. -/
theorem rightRate_iff (f : Half) (s : Kernel μ) (p : Pit) :
    (Returns (timerSetFrequency f) s fun _ s' => RightRate f (p.writes (s'.ports.drop s.ports.length))) ↔
      19 ≤ f.toNat := by
  have hdrop : (s.ports ++ frequencyWrites f).drop s.ports.length = frequencyWrites f := List.drop_left ..
  constructor
  · intro h
    by_cases hf : f = 0#16
    · subst hf
      obtain ⟨_, _, hrun, _⟩ := h
      rw [timerSetFrequency_zero] at hrun
      cases hrun
    · have hright := h.whenReturns _ _ (timerSetFrequency_run hf s)
      dsimp only at hright
      rw [hdrop] at hright
      exact le_of_rightRate hf hright
  · intro hf
    refine .of_eq (timerSetFrequency_run (half_ne_zero.mpr (by omega)) s) ?_
    dsimp only
    rw [hdrop]
    exact rightRate_of_le hf p

end Rate

/-! ## Sleeping by the clock -/

/-- The interrupts of the timer between the tests of the loop of `sleep`, which are at these clocks. -/
def burstsAt (p : Pit) (tests : Nat → Nat) : Nat → Nat
  | 0 => (p.clocks (tests 0)).1
  | k + 1 => (p.clocks (tests (k + 1))).1 - (p.clocks (tests k)).1

section Sleep

variable {μ : Type} {f : Half} {p : Pit} {s s' : Kernel μ} {t : Timer} {sec : Int} {tests : Nat → Nat}

theorem occurred_burstsAt (htests : Monotone tests) (k : Nat) :
    occurred (burstsAt p tests) (k + 1) = (p.clocks (tests k)).1 := by
  induction k with
  | zero => exact Nat.zero_add _
  | succ k ih =>
      rw [occurred, ih, burstsAt]
      exact Nat.add_sub_cancel' (Pit.clocks_mono (htests (Nat.le_succ k)))

theorem Pit.Periodic.clocks (h : p.Periodic) (n : Nat) :
    (p.clocks n).2.Periodic ∧ (p.clocks n).2.reload = p.reload := by
  have hpos := h.pos
  have hle := h.le
  have hmod := Nat.mod_lt (n + (p.reload - p.count)) (by omega : 0 < p.reload)
  rw [Pit.clocks_eq h]
  exact ⟨⟨h.mode, Nat.sub_pos_of_lt hmod, Nat.sub_le _ _⟩, rfl⟩

/-- A number of interrupts takes as many periods, but for the first, which may have begun. -/
theorem Pit.Periodic.le_clocks (h : p.Periodic) {k n : Nat} :
    (k ≤ (p.clocks n).1 → k * p.reload ≤ n + p.reload) ∧ (k * p.reload ≤ n → k ≤ (p.clocks n).1) := by
  have hpos := h.pos
  have hle := h.le
  rw [Pit.clocks_eq h, Nat.le_div_iff_mul_le (by omega)]
  constructor
  · omega
  · omega

theorem Pit.Periodic.clocks_le (h : p.Periodic) (n : Nat) : (p.clocks n).1 ≤ n + p.reload := by
  have hpos := h.pos
  have hle := h.le
  exact Nat.le_trans (Nat.le_mul_of_pos_right _ (by omega)) (h.le_clocks.1 (Nat.le_refl _))

/-- The first test at which the time is up, if it is at one. -/
theorem exists_firstDue {bursts : Nat → Nat} {k : Nat} (h : duration t sec ≤ occurred bursts (k + 1)) :
    ∃ j, j ≤ k ∧ FirstDue t sec bursts j := by
  induction k using Nat.strongRecOn with
  | _ k ih =>
      by_cases hfirst : ∀ j, j < k → occurred bursts (j + 1) < duration t sec
      · exact ⟨k, Nat.le_refl k, hfirst, h⟩
      · push Not at hfirst
        obtain ⟨j, hj, hdue⟩ := hfirst
        obtain ⟨i, hi, hfirst⟩ := ih j hj hdue
        exact ⟨i, by omega, hfirst⟩

/-- By the clock of a timer that `timer_set_frequency` has programmed some time ago, `sleep` does not come back before
its seconds are over, but for `f` clocks a second and one period, and it comes back at the first test behind them at
the latest. -/
theorem sleep_lasts {p₀ : Pit} {ago : Nat} (hset : timerSetFrequency f s = .ok ((), s')) (hf : 19 ≤ f.toNat)
    (hp : p = ((p₀.writes (s'.ports.drop s.ports.length)).clocks ago).2) (hfreq : t.gFreqHz = s'.timer.gFreqHz)
    (hsec : 0 ≤ sec) (hround : t.gTicks.toNat + duration t sec ≤ 2 ^ 31) (htests : Monotone tests) :
    (∀ fuel k, sleep t sec (burstsAt p tests) fuel = some k →
      sec.toNat * (timerInputClockFrequency - f.toNat) ≤ tests k + timerInputClockFrequency / f.toNat) ∧
    ∀ k, sec.toNat * timerInputClockFrequency ≤ tests k → (p.clocks (tests k)).1 < duration t sec + 2 ^ 31 →
      ∃ fuel j, j ≤ k ∧ sleep t sec (burstsAt p tests) fuel = some j := by
  obtain ⟨hperiod, hpos⟩ := period_divisor hf
  rw [timerSetFrequency_run (half_ne_zero.mpr (by omega))] at hset
  cases hset
  dsimp only at hp hfreq
  rw [List.drop_left] at hp
  obtain ⟨hperiodic, hreload⟩ := (programmed_periodic p₀ f).clocks ago
  rw [← hp] at hperiodic hreload
  rw [Pit.writes_frequency, hperiod] at hreload
  dsimp only at hreload
  have hduration : duration t sec = sec.toNat * f.toNat := by
    obtain ⟨n, rfl⟩ := Int.eq_ofNat_of_zero_le hsec
    rw [duration, hfreq]
    rfl
  have hsleeps : Sleeps t sec (burstsAt p tests) := by
    refine sleeps_of_inOneRound hsec fun k _ hsoon => ?_
    rw [Nat.div_eq_of_lt (by omega), Nat.div_eq_of_lt (by omega)]
  have hfits := Nat.div_mul_le_self timerInputClockFrequency f.toNat
  have hnext := Nat.lt_div_mul_add (a := timerInputClockFrequency) (by omega : 0 < f.toNat)
  constructor
  · intro fuel k hleft
    have hdue := hsleeps.notEarly fuel k hleft
    rw [occurred_burstsAt htests, hduration] at hdue
    have hclocks := hperiodic.le_clocks.1 hdue
    rw [hreload] at hclocks
    refine Nat.le_trans ?_ hclocks
    rw [Nat.mul_assoc]
    refine Nat.mul_le_mul_left _ ?_
    rw [Nat.mul_comm]
    omega
  · intro k hlate hsoon
    have hdue : duration t sec ≤ occurred (burstsAt p tests) (k + 1) := by
      rw [occurred_burstsAt htests, hduration]
      refine hperiodic.le_clocks.2 (Nat.le_trans ?_ hlate)
      rw [hreload, Nat.mul_assoc]
      exact Nat.mul_le_mul_left _ (by rw [Nat.mul_comm]; exact hfits)
    obtain ⟨j, hj, hfirst⟩ := exists_firstDue hdue
    have hmono : occurred (burstsAt p tests) (j + 1) ≤ occurred (burstsAt p tests) (k + 1) := occurred_mono (by omega)
    rw [occurred_burstsAt htests k] at hmono
    obtain ⟨fuel, hleft⟩ := hsleeps.notLate j hfirst (by omega)
    exact ⟨fuel, j, hj, hleft⟩

/-- A timer in the middle of a count of which one byte has been written. -/
def halfWritten : Pit := { access := 3#2, mode := 2#3, bcd := false, low := some 5#8, reload := 1000, count := 10 }

/-- Two seconds at 100 interrupts a second, with a test every hundredth of a second or so. -/
theorem sleep_lasts_two : ∃ s', timerSetFrequency 100#16 (Kernel.reset Flat.zero) = .ok ((), s') ∧
    ∃ fuel j, 198 ≤ j ∧ j ≤ 199 ∧ sleep { gTicks := 7#32, gFreqHz := 100#16 } 2
      (burstsAt ((halfWritten.writes s'.ports).clocks 5000).2 fun k => 12000 * k) fuel = some j := by
  have hset := timerSetFrequency_run (f := 100#16) (by decide) (Kernel.reset Flat.zero)
  refine ⟨_, hset, ?_⟩
  obtain ⟨hearly, hlate⟩ := @sleep_lasts _ _ _ _ _ { gTicks := 7#32, gFreqHz := 100#16 } 2 (fun k => 12000 * k)
    halfWritten 5000 hset (by decide) rfl rfl (by decide) (by decide) fun _ _ h => Nat.mul_le_mul_left 12000 h
  have hclocks := ((programmed_periodic halfWritten 100#16).clocks 5000).1.clocks_le (12000 * 199)
  have hduration : duration { gTicks := 7#32, gFreqHz := 100#16 } 2 = 200 := by decide
  obtain ⟨fuel, j, hj, hleft⟩ := hlate 199 (by decide) (by
    rw [hduration]
    exact Nat.lt_of_le_of_lt hclocks (by rw [((programmed_periodic halfWritten 100#16).clocks 5000).2]; decide))
  have hlasted : 2 * (timerInputClockFrequency - 100) ≤ 12000 * j + timerInputClockFrequency / 100 :=
    hearly fuel j hleft
  unfold timerInputClockFrequency at hlasted
  exact ⟨fuel, j, by omega, hj, hleft⟩

end Sleep

end LizaOS
