-- SUMMARY: The 8259A interrupt controller, and the pair of them in a PC.
import LizaOS.Machine.Word
import Mathlib.Data.Fin.Tuple.Basic
import Mathlib.Data.Fintype.Card

/-!
# Interrupt controllers

The 8259A as far as a kernel uses it: its initialisation, the mask, priorities in fully nested mode, and the end
of an interrupt. The rotation of priorities, and reading the other registers through the command port, are left
out.
-/

namespace LizaOS

/-- What a controller takes the next byte at its data port for. -/
inductive PicStage where
  | mask
  | vector
  | cascade
  | mode
  deriving DecidableEq, Repr

structure Pic where
  stage : PicStage
  /-- The word that began the initialisation. -/
  icw1 : Byte
  vector : Byte
  cascade : Byte
  mode : Byte
  imr : Byte
  /-- The lines that have been raised, and those in service. -/
  irr : Fin 8 → Bool
  isr : Fin 8 → Bool

namespace Pic

/-! ## Ports -/

/-- An end of interrupt that does not name its line. -/
def endOfInterrupt (p : Pic) : Pic :=
  match Fin.find? p.isr with
  | some i => { p with isr := Function.update p.isr i false }
  | none => p

/-- A byte at the command port. -/
def command (b : Byte) (p : Pic) : Pic :=
  if b.getLsbD 4 then
    { p with
      stage := .vector
      icw1 := b
      mode := 0#8
      imr := 0#8
      irr := fun _ => false
      isr := fun _ => false }
  else if b.getLsbD 3 then p
  else if b.extractLsb' 5 3 = 1#3 then p.endOfInterrupt
  else if b.extractLsb' 5 3 = 3#3 then { p with isr := fun i => p.isr i && decide (i.val ≠ b.toNat % 8) }
  else p

/-- The stage behind the words that every initialisation has. -/
def lastStage (p : Pic) : PicStage := if p.icw1.getLsbD 0 then .mode else .mask

/-- A byte at the data port. -/
def data (b : Byte) (p : Pic) : Pic :=
  match p.stage with
  | .mask => { p with imr := b }
  | .vector => { p with vector := b, stage := if p.icw1.getLsbD 1 then p.lastStage else .cascade }
  | .cascade => { p with cascade := b, stage := p.lastStage }
  | .mode => { p with mode := b, stage := .mask }

/-! ## Interrupts -/

/-- The line that is to be served next: it is not masked, and its priority is above those in service. -/
def request (p : Pic) : Option (Fin 8) :=
  if p.stage = .mask then
    match Fin.find? fun i => p.irr i && !p.imr.getLsbD i with
    | some i => if ∀ j, p.isr j = true → i < j then some i else none
    | none => none
  else none

def serve (i : Fin 8) (p : Pic) : Pic :=
  { p with
    irr := Function.update p.irr i false
    isr := if p.mode.getLsbD 1 then p.isr else Function.update p.isr i true }

def vectorOf (p : Pic) (i : Fin 8) : Nat := (p.vector &&& 0xF8#8).toNat + i

/-- The last line stands for a request that is gone when the processor asks for its vector. -/
def lastLine : Fin 8 := ⟨7, by decide⟩

def acknowledge (p : Pic) : Nat × Pic :=
  match p.request with
  | some i => (p.vectorOf i, p.serve i)
  | none => (p.vectorOf lastLine, p)

/-- How many lines are in service. -/
def inService (p : Pic) : Nat := (Finset.univ.filter fun i => p.isr i = true).card

section Lemmas

variable {p : Pic} {i : Fin 8}

theorem request_eq_some : p.request = some i ↔ p.stage = .mask ∧ (p.irr i = true ∧ p.imr.getLsbD i = false) ∧
    (∀ j, j < i → p.irr j = true → p.imr.getLsbD j = true) ∧ ∀ j, p.isr j = true → i < j := by
  have hfirst : ∀ k, (Fin.find? fun i => p.irr i && !p.imr.getLsbD i) = some k ↔
      (p.irr k = true ∧ p.imr.getLsbD k = false) ∧ ∀ j, j < k → p.irr j = true → p.imr.getLsbD j = true := by
    intro k
    rw [Fin.find?_eq_some_iff]
    simp
  unfold request
  by_cases hstage : p.stage = .mask
  · rw [if_pos hstage]
    cases hfind : Fin.find? fun i => p.irr i && !p.imr.getLsbD i with
    | none =>
        rw [hfind] at hfirst
        simp only [reduceCtorEq, false_iff] at hfirst ⊢
        exact fun h => hfirst i ⟨h.2.1, h.2.2.1⟩
    | some k =>
        rw [hfind] at hfirst
        simp only
        constructor
        · intro h
          split at h
          · next habove =>
            cases h
            have hk := (hfirst i).mp rfl
            exact ⟨hstage, hk.1, hk.2, habove⟩
          · cases h
        · rintro ⟨_, hi, hbefore, habove⟩
          cases (hfirst i).mpr ⟨hi, hbefore⟩
          exact if_pos habove
  · rw [if_neg hstage]
    simp [hstage]

/-- With nothing in service a line that is raised and not masked makes a request. -/
theorem request_isSome (hstage : p.stage = .mask) (hidle : ∀ j, p.isr j = false) (hirr : p.irr i = true)
    (himr : p.imr.getLsbD i = false) : p.request.isSome = true := by
  have hsome : (Fin.find? fun i => p.irr i && !p.imr.getLsbD i).isSome = true :=
    Fin.isSome_find?_iff.mpr ⟨i, by rw [hirr, himr]; rfl⟩
  obtain ⟨k, hk⟩ := Option.isSome_iff_exists.mp hsome
  have habove : ∀ j, p.isr j = true → k < j := fun j hj => by
    rw [hidle j] at hj
    cases hj
  rw [request, if_pos hstage, hk]
  exact congrArg Option.isSome (if_pos habove)

theorem inService_eq_zero : p.inService = 0 ↔ ∀ i, p.isr i = false := by
  rw [inService, Finset.card_eq_zero, Finset.filter_eq_empty_iff]
  simp

theorem inService_serve (p : Pic) (i : Fin 8) : (p.serve i).inService ≤ p.inService + 1 := by
  refine (Finset.card_le_card fun j hj => ?_).trans (Finset.card_insert_le i _)
  have hserved : (if p.mode.getLsbD 1 then p.isr else Function.update p.isr i true) j = true :=
    (Finset.mem_filter.mp hj).2
  rw [Finset.mem_insert, Finset.mem_filter]
  by_cases hji : j = i
  · exact .inl hji
  · refine .inr ⟨Finset.mem_univ j, ?_⟩
    split at hserved
    · exact hserved
    · rwa [Function.update_of_ne hji] at hserved

/-- An end of interrupt that does not name its line takes one out of service, whichever it is for. -/
theorem inService_endOfInterrupt (p : Pic) : p.endOfInterrupt.inService = p.inService - 1 := by
  rw [endOfInterrupt]
  cases hfind : Fin.find? p.isr with
  | none =>
      have hnone := inService_eq_zero.mpr (Fin.find?_eq_none_iff.mp hfind)
      show p.inService = p.inService - 1
      rw [hnone]
  | some i =>
      have hi : p.isr i = true := (Fin.find?_eq_some_iff.mp hfind).1
      have herase : (Finset.univ.filter fun j => Function.update p.isr i false j = true) =
          (Finset.univ.filter fun j => p.isr j = true).erase i := by
        ext j
        rw [Finset.mem_erase, Finset.mem_filter, Finset.mem_filter, Function.update_apply]
        by_cases hji : j = i
        · simp [hji]
        · simp [hji]
      show (Finset.univ.filter fun j => Function.update p.isr i false j = true).card = _
      rw [herase, Finset.card_erase_of_mem (Finset.mem_filter.mpr ⟨Finset.mem_univ i, hi⟩), inService]

theorem endOfInterrupt_keeps (p : Pic) : ∃ isr, p.endOfInterrupt = { p with isr := isr } := by
  rw [endOfInterrupt]
  split
  · exact ⟨_, rfl⟩
  · exact ⟨p.isr, rfl⟩

end Lemmas

end Pic

/-! ## Two controllers -/

/-- The second controller is connected to line 2 of the first. -/
structure Pics where
  master : Pic
  slave : Pic

namespace Pics

/-- The line of the first controller that the second is connected to. -/
def cascadeLine : Fin 8 := ⟨2, by decide⟩

def outb (p : Pics) (port : Half) (b : Byte) : Pics :=
  if port = 0x20#16 then { p with master := p.master.command b }
  else if port = 0x21#16 then { p with master := p.master.data b }
  else if port = 0xA0#16 then { p with slave := p.slave.command b }
  else if port = 0xA1#16 then { p with slave := p.slave.data b }
  else p

/-- The masks can be read. -/
def inb (p : Pics) (port : Half) : Byte :=
  if port = 0x21#16 then p.master.imr else if port = 0xA1#16 then p.slave.imr else 0#8

/-- A device raises its line, which is one of the second controller from 8 on. -/
def raise (n : Fin 16) (p : Pics) : Pics :=
  if h : n.val < 8 then { p with master := { p.master with irr := Function.update p.master.irr ⟨n, h⟩ true } }
  else { p with slave := { p.slave with irr := Function.update p.slave.irr ⟨n - 8, by omega⟩ true } }

def raised (p : Pics) (n : Fin 16) : Bool :=
  if h : n.val < 8 then p.master.irr ⟨n, h⟩ else p.slave.irr ⟨n - 8, by omega⟩

/-- A line of the second controller is also masked with the one that this controller is connected to. -/
def masked (p : Pics) (n : Fin 16) : Bool :=
  if n.val < 8 then p.master.imr.getLsbD n
  else p.slave.imr.getLsbD (n - 8) || p.master.imr.getLsbD cascadeLine

/-- The first controller, with its line from the second as that one drives it. -/
def wired (p : Pics) : Pic :=
  { p.master with irr := Function.update p.master.irr cascadeLine p.slave.request.isSome }

/-- The second controller gives the vector if both have been told that it is connected to the line. -/
def Answers (p : Pics) (i : Fin 8) : Prop :=
  p.master.cascade.getLsbD i = true ∧ p.slave.cascade.toNat % 8 = i

instance (p : Pics) (i : Fin 8) : Decidable (p.Answers i) := instDecidableAnd

/-- The processor asks for the vector of a request. -/
def acknowledge (p : Pics) : Nat × Pics :=
  match p.wired.request with
  | some i =>
      if p.Answers i then (p.slave.acknowledge.1, { master := p.wired.serve i, slave := p.slave.acknowledge.2 })
      else (p.wired.vectorOf i, { p with master := p.wired.serve i })
  | none => (p.wired.vectorOf Pic.lastLine, p)

/-- A request is withdrawn before the processor asks for its vector: one of the second controller, for which the
first one is still in service, or one of the first. -/
def spurious (second : Bool) (p : Pics) : Nat × Pics :=
  if second then (p.slave.vectorOf Pic.lastLine, { p with master := p.wired.serve cascadeLine })
  else (p.wired.vectorOf Pic.lastLine, p)

/-- The processor is interrupted. -/
def Interrupting (p : Pics) : Prop := p.wired.request.isSome = true

instance (p : Pics) : Decidable p.Interrupting := instDecidableEqBool _ _

/-- The bytes of a driver, one after the other. -/
def writes (p : Pics) (ws : List (Half × Byte)) : Pics := ws.foldl (fun p w => p.outb w.1 w.2) p

theorem writes_append (p : Pics) (ws ws' : List (Half × Byte)) : p.writes (ws ++ ws') = (p.writes ws).writes ws' :=
  List.foldl_append ..

/-! ## Programmed controllers -/

/-- The controllers are initialised as in every PC, with the given vectors. -/
structure Programmed (p : Pics) (first second : Nat) : Prop where
  master_stage : p.master.stage = .mask
  slave_stage : p.slave.stage = .mask
  master_vector : (p.master.vector &&& 0xF8#8).toNat = first
  slave_vector : (p.slave.vector &&& 0xF8#8).toNat = second
  master_cascade : p.master.cascade = 4#8
  slave_cascade : p.slave.cascade = 2#8
  master_mode : p.master.mode.getLsbD 1 = false
  slave_mode : p.slave.mode.getLsbD 1 = false

/-- No more lines are in service than in `p`. -/
structure NoMore (p q : Pics) : Prop where
  master : q.master.inService ≤ p.master.inService
  slave : q.slave.inService ≤ p.slave.inService

/-- No line is in service. -/
def Idle (p : Pics) : Prop := (∀ i, p.master.isr i = false) ∧ ∀ i, p.slave.isr i = false

/-- An end of interrupt for the vector of line `n`: the second controller is told of its own lines. -/
def ended (p : Pics) (n : Nat) : Pics :=
  if n < 8 then { p with master := p.master.endOfInterrupt }
  else { master := p.master.endOfInterrupt, slave := p.slave.endOfInterrupt }

/-- The request of line `n` has been taken for service. -/
structure Taken (p : Pics) (n : Fin 16) (p' : Pics) : Prop where
  raised : p.raised n = true
  unmasked : p.masked n = false
  device : n.val ≠ cascadeLine
  others : ∀ k : Fin 16, k.val ≠ cascadeLine → p'.raised k = if k = n then false else p.raised k
  masks : ∀ k, p'.masked k = p.masked k
  ends : ∀ q, p'.NoMore q → p.NoMore (q.ended n)

section Lemmas

variable {p p' q : Pics} {first second n : Nat}

theorem Programmed.answers (h : p.Programmed first second) (i : Fin 8) : p.Answers i ↔ i = cascadeLine := by
  rw [Answers, h.master_cascade, h.slave_cascade]
  revert i
  decide

theorem Programmed.serve (h : p.Programmed first second) (i : Fin 8) :
    Programmed { p with master := p.wired.serve i } first second :=
  ⟨h.master_stage, h.slave_stage, h.master_vector, h.slave_vector, h.master_cascade, h.slave_cascade, h.master_mode,
    h.slave_mode⟩

theorem NoMore.refl (p : Pics) : p.NoMore p := ⟨Nat.le_refl _, Nat.le_refl _⟩

theorem NoMore.trans (h : p.NoMore p') (h' : p'.NoMore q) : p.NoMore q :=
  ⟨h'.master.trans h.master, h'.slave.trans h.slave⟩

theorem NoMore.idle (h : p.NoMore q) (hp : p.Idle) : q.Idle :=
  ⟨Pic.inService_eq_zero.mp (Nat.le_zero.mp (h.master.trans (Nat.le_of_eq (Pic.inService_eq_zero.mpr hp.1)))),
    Pic.inService_eq_zero.mp (Nat.le_zero.mp (h.slave.trans (Nat.le_of_eq (Pic.inService_eq_zero.mpr hp.2))))⟩

/-- What begins with one line more in each controller that is told of the end ends with no more lines. -/
theorem NoMore.ended (h : p'.NoMore q) (hmaster : p'.master.inService ≤ p.master.inService + 1)
    (hslave : p'.slave.inService ≤ p.slave.inService + if n < 8 then 0 else 1) : p.NoMore (q.ended n) := by
  have hm := h.master
  have hs := h.slave
  unfold Pics.ended
  split
  · next hn =>
    rw [if_pos hn] at hslave
    refine ⟨?_, hs.trans hslave⟩
    rw [Pic.inService_endOfInterrupt]
    omega
  · next hn =>
    rw [if_neg hn] at hslave
    refine ⟨?_, ?_⟩
    · rw [Pic.inService_endOfInterrupt]
      omega
    · rw [Pic.inService_endOfInterrupt]
      omega

/-- A request of the first controller itself. -/
theorem taken_master {i : Fin 8} (hi : i ≠ cascadeLine) (hreq : p.wired.request = some i) :
    p.Taken ⟨i, by omega⟩ { p with master := p.wired.serve i } := by
  obtain ⟨_, ⟨hirr, himr⟩, _⟩ := Pic.request_eq_some.mp hreq
  have hraised : p.wired.irr i = p.master.irr i := Function.update_of_ne hi ..
  refine ⟨?_, ?_, fun heq => hi (Fin.ext heq), fun k hk => ?_, fun _ => rfl, fun q hq => ?_⟩
  · rw [raised, dif_pos i.isLt, ← hraised, hirr]
  · rw [masked, if_pos i.isLt]
    exact himr
  · unfold raised
    by_cases hlt : k.val < 8
    · have hne : (⟨k, hlt⟩ : Fin 8) ≠ cascadeLine := fun heq => hk (congrArg Fin.val heq)
      have hk' : (k = ⟨i, by omega⟩) ↔ (⟨k, hlt⟩ : Fin 8) = i := by
        rw [Fin.ext_iff, Fin.ext_iff]
      rw [dif_pos hlt, dif_pos hlt]
      simp only [Pic.serve, wired, Function.update_apply, hk', if_neg hne]
    · have hne : k ≠ ⟨i, by omega⟩ := fun heq => hlt (by rw [heq]; exact i.isLt)
      rw [dif_neg hlt, dif_neg hlt, if_neg hne]
  · exact hq.ended (p.wired.inService_serve i) (Nat.le_add_right ..)

/-- A request of the second controller. -/
theorem taken_slave {i : Fin 8} (hreq : p.wired.request = some cascadeLine)
    (hslave : p.slave.request = some i) :
    p.Taken ⟨8 + i, by omega⟩ { master := p.wired.serve cascadeLine, slave := p.slave.serve i } := by
  obtain ⟨_, ⟨_, hline⟩, _⟩ := Pic.request_eq_some.mp hreq
  obtain ⟨_, ⟨hirr, himr⟩, _⟩ := Pic.request_eq_some.mp hslave
  have hge : ¬8 + i.val < 8 := by omega
  have hi : (⟨8 + i.val - 8, by omega⟩ : Fin 8) = i := Fin.ext (Nat.add_sub_cancel_left ..)
  refine ⟨?_, ?_, ?_, fun k hk => ?_, fun _ => rfl, fun q hq => ?_⟩
  · rw [raised, dif_neg hge, hi, hirr]
  · rw [masked, if_neg hge, Nat.add_sub_cancel_left, himr]
    exact hline
  · unfold cascadeLine
    dsimp only
    omega
  · unfold raised
    by_cases hlt : k.val < 8
    · have hne : (⟨k, hlt⟩ : Fin 8) ≠ cascadeLine := fun heq => hk (congrArg Fin.val heq)
      have hk' : k ≠ ⟨8 + i, by omega⟩ := fun heq => hge (by rw [heq] at hlt; exact hlt)
      rw [dif_pos hlt, dif_pos hlt, if_neg hk']
      simp only [Pic.serve, wired, Function.update_apply, if_neg hne]
    · have hk' : (k = ⟨8 + i, by omega⟩) ↔ (⟨k - 8, by omega⟩ : Fin 8) = i := by
        rw [Fin.ext_iff, Fin.ext_iff]
        dsimp only
        omega
      rw [dif_neg hlt, dif_neg hlt]
      simp only [Pic.serve, Function.update_apply, hk']
  · refine hq.ended (p.wired.inService_serve cascadeLine) ?_
    rw [if_neg hge]
    exact p.slave.inService_serve i

/-- An interrupt is for a line that has been raised and is not masked, and the processor is given its vector. -/
theorem acknowledge_taken (h : p.Programmed first second) (hint : p.Interrupting) :
    ∃ n : Fin 16, p.acknowledge.1 = (if n.val < 8 then first + n else second + (n - 8)) ∧ p.Taken n p.acknowledge.2 ∧
      p.acknowledge.2.Programmed first second := by
  obtain ⟨i, hreq⟩ := Option.isSome_iff_exists.mp hint
  by_cases hi : i = cascadeLine
  · subst hi
    obtain ⟨_, ⟨hirr, _⟩, _⟩ := Pic.request_eq_some.mp hreq
    have hsome : p.slave.request.isSome = true := by
      rw [← hirr]
      exact (Function.update_self cascadeLine p.slave.request.isSome p.master.irr).symm
    obtain ⟨j, hslave⟩ := Option.isSome_iff_exists.mp hsome
    have hack : p.acknowledge =
        (p.slave.vectorOf j, { master := p.wired.serve cascadeLine, slave := p.slave.serve j }) := by
      rw [acknowledge, hreq]
      simp only [if_pos ((h.answers cascadeLine).mpr rfl), Pic.acknowledge, hslave]
    have hge : ¬8 + j.val < 8 := by omega
    rw [hack]
    refine ⟨⟨8 + j, by omega⟩, ?_, taken_slave hreq hslave, ?_⟩
    · rw [if_neg hge, Nat.add_sub_cancel_left, Pic.vectorOf, h.slave_vector]
    · exact ⟨h.master_stage, h.slave_stage, h.master_vector, h.slave_vector, h.master_cascade, h.slave_cascade,
        h.master_mode, h.slave_mode⟩
  · have hack : p.acknowledge = (p.wired.vectorOf i, { p with master := p.wired.serve i }) := by
      rw [acknowledge, hreq]
      simp only [if_neg fun hanswers => hi ((h.answers i).mp hanswers)]
    rw [hack]
    refine ⟨⟨i, by omega⟩, ?_, taken_master hi hreq, h.serve i⟩
    rw [if_pos i.isLt, Pic.vectorOf]
    exact congrArg (· + i.val) h.master_vector

/-- The line whose vector a request that is gone is given. -/
def spuriousLine (second : Bool) : Fin 16 := if second then ⟨15, by decide⟩ else ⟨7, by decide⟩

/-- A request that is gone raises no line, and behind its end no more is in service than before: the end may be
that of another line. -/
theorem spurious_ends (h : p.Programmed first second) (b : Bool) :
    (p.spurious b).1 = (if b then second + 7 else first + 7) ∧ (p.spurious b).2.Programmed first second ∧
      (∀ k : Fin 16, k.val ≠ cascadeLine → (p.spurious b).2.raised k = p.raised k) ∧
      (∀ k, (p.spurious b).2.masked k = p.masked k) ∧
      ∀ q, (p.spurious b).2.NoMore q → p.NoMore (q.ended (spuriousLine b)) := by
  cases b with
  | false =>
      refine ⟨?_, h, fun _ _ => rfl, fun _ => rfl, fun q hq => ?_⟩
      · exact congrArg (· + 7) h.master_vector
      · exact hq.ended (Nat.le_add_right ..) (Nat.le_add_right ..)
  | true =>
      refine ⟨?_, h.serve cascadeLine, fun k hk => ?_, fun _ => rfl, fun q hq => ?_⟩
      · exact congrArg (· + 7) h.slave_vector
      · show raised { p with master := p.wired.serve cascadeLine } k = _
        unfold raised
        by_cases hlt : k.val < 8
        · have hne : (⟨k, hlt⟩ : Fin 8) ≠ cascadeLine := fun heq => hk (congrArg Fin.val heq)
          rw [dif_pos hlt, dif_pos hlt]
          simp only [Pic.serve, wired, Function.update_apply, if_neg hne]
        · rw [dif_neg hlt, dif_neg hlt]
      · exact hq.ended (p.wired.inService_serve cascadeLine) (Nat.le_add_right ..)

/-- An end of interrupt changes what is in service, and nothing else. -/
theorem ended_keeps (h : p.Programmed first second) (n : Nat) : (p.ended n).Programmed first second ∧
    (∀ k, (p.ended n).raised k = p.raised k) ∧ ∀ k, (p.ended n).masked k = p.masked k := by
  obtain ⟨isr, hmaster⟩ := Pic.endOfInterrupt_keeps p.master
  obtain ⟨isr', hslave⟩ := Pic.endOfInterrupt_keeps p.slave
  unfold ended
  rw [hmaster, hslave]
  split
  · exact ⟨⟨h.master_stage, h.slave_stage, h.master_vector, h.slave_vector, h.master_cascade, h.slave_cascade,
      h.master_mode, h.slave_mode⟩, fun _ => rfl, fun _ => rfl⟩
  · exact ⟨⟨h.master_stage, h.slave_stage, h.master_vector, h.slave_vector, h.master_cascade, h.slave_cascade,
      h.master_mode, h.slave_mode⟩, fun _ => rfl, fun _ => rfl⟩

theorem interrupting_of_raised (h : p.Programmed first second) (hidle : p.Idle) {n : Fin 16}
    (hn : n.val ≠ cascadeLine) (hraised : p.raised n = true) (hmasked : p.masked n = false) : p.Interrupting := by
  unfold raised at hraised
  unfold masked at hmasked
  by_cases hlt : n.val < 8
  · rw [dif_pos hlt] at hraised
    rw [if_pos hlt] at hmasked
    have hne : (⟨n, hlt⟩ : Fin 8) ≠ cascadeLine := fun heq => hn (congrArg Fin.val heq)
    exact Pic.request_isSome (p := p.wired) h.master_stage hidle.1 ((Function.update_of_ne hne ..).trans hraised) hmasked
  · rw [dif_neg hlt] at hraised
    rw [if_neg hlt, Bool.or_eq_false_iff] at hmasked
    have hslave := Pic.request_isSome h.slave_stage hidle.2 hraised hmasked.1
    exact Pic.request_isSome (p := p.wired) h.master_stage hidle.1 ((Function.update_self ..).trans hslave) hmasked.2

/-! ## Raised lines -/

theorem raised_raise (n k : Fin 16) : (p.raise n).raised k = if k = n then true else p.raised k := by
  unfold raise raised
  by_cases hn : n.val < 8
  · by_cases hk : k.val < 8
    · have heq : (⟨k, hk⟩ : Fin 8) = ⟨n, hn⟩ ↔ k = n := by
        rw [Fin.ext_iff, Fin.ext_iff]
      simp only [dif_pos hn, dif_pos hk, Function.update_apply, heq]
    · have hne : k ≠ n := fun heq => hk (heq ▸ hn)
      simp only [dif_pos hn, dif_neg hk, if_neg hne]
  · by_cases hk : k.val < 8
    · have hne : k ≠ n := fun heq => hn (heq ▸ hk)
      simp only [dif_neg hn, dif_pos hk, if_neg hne]
    · have heq : (⟨k - 8, by omega⟩ : Fin 8) = ⟨n - 8, by omega⟩ ↔ k = n := by
        rw [Fin.ext_iff, Fin.ext_iff]
        dsimp only
        omega
      simp only [dif_neg hn, dif_neg hk, Function.update_apply, heq]

theorem raise_noMore (p : Pics) (n : Fin 16) : p.NoMore (p.raise n) := by
  unfold raise
  split
  · exact ⟨Nat.le_refl _, Nat.le_refl _⟩
  · exact ⟨Nat.le_refl _, Nat.le_refl _⟩

theorem masked_raise (n k : Fin 16) : (p.raise n).masked k = p.masked k := by
  unfold raise
  split
  · rfl
  · rfl

theorem Programmed.raise (h : p.Programmed first second) (n : Fin 16) : (p.raise n).Programmed first second := by
  unfold Pics.raise
  split
  · exact ⟨h.master_stage, h.slave_stage, h.master_vector, h.slave_vector, h.master_cascade, h.slave_cascade,
      h.master_mode, h.slave_mode⟩
  · exact ⟨h.master_stage, h.slave_stage, h.master_vector, h.slave_vector, h.master_cascade, h.slave_cascade,
      h.master_mode, h.slave_mode⟩

end Lemmas

end Pics

end LizaOS
