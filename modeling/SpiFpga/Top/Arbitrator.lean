/-
The arbitrator of the interconnect, `altera_merlin_arbitrator`.

It grants with one addition: to the inverted requests, written twice, it adds the
place that has priority, and the carry stops at the first request from there on.
The saved priority is the grant, moved on by one place.
-/

import SpiFpga.Bus.RoundRobin
import SpiFpga.Clocked.Machine

namespace SpiFpga.Top

open Bus Clocked

section Model

variable {width : Nat}

/-- The adder for a few bits, bit by bit. -/
def fullAdder (a b : BitVec width) : BitVec width :=
  (BitVec.iunfoldr
    (fun place carry =>
      (a.getLsbD place && b.getLsbD place || carry && (a.getLsbD place ^^ b.getLsbD place),
        (a.getLsbD place ^^ b.getLsbD place) ^^ carry)) false).2

def carryChain (a b : BitVec width) : BitVec width :=
  (a.setWidth (width + 1) + b.setWidth (width + 1)).setWidth width

/-- `altera_merlin_arb_adder`. -/
def arbAdder (a b : BitVec width) : BitVec width :=
  if width ≤ 8 then fullAdder a b else carryChain a b

inductive ArbitrationScheme where
  | roundRobin
  | fixedPriority
  | noArb
  deriving DecidableEq

structure ArbitratorParameters where
  numRequesters : Nat
  scheme : ArbitrationScheme
  pipeline : Bool

structure ArbitratorInputs (parameters : ArbitratorParameters) where
  reset : Bool
  request : BitVec parameters.numRequesters
  incrementTopPriority : Bool
  saveTopPriority : Bool

variable (parameters : ArbitratorParameters)

def topPriority (topPriorityReg : BitVec parameters.numRequesters) :
    BitVec parameters.numRequesters :=
  if parameters.scheme = .roundRobin ∧ 1 < parameters.numRequesters then topPriorityReg else 1

def grantDoubleVector (request topPriorityReg : BitVec parameters.numRequesters) :
    BitVec (parameters.numRequesters + parameters.numRequesters) :=
  (request ++ request) &&&
    arbAdder (~~~request ++ ~~~request)
      (BitVec.ofNat parameters.numRequesters 0 ++ topPriority parameters topPriorityReg)

def grant (request topPriorityReg : BitVec parameters.numRequesters) :
    BitVec parameters.numRequesters :=
  match parameters.scheme with
  | .noArb => request
  | .roundRobin | .fixedPriority =>
      (grantDoubleVector parameters request topPriorityReg).extractLsb' 0
          parameters.numRequesters |||
        (grantDoubleVector parameters request topPriorityReg).extractLsb'
          parameters.numRequesters parameters.numRequesters

def topPriorityNext (input : ArbitratorInputs parameters)
    (topPriorityReg : BitVec parameters.numRequesters) : BitVec parameters.numRequesters :=
  if parameters.pipeline then
    if input.incrementTopPriority then
      if input.request ≠ 0 then (grant parameters input.request topPriorityReg).rotateLeft 1
      else topPriorityReg
    else topPriorityReg
  else if input.incrementTopPriority then
    if input.request ≠ 0 then (grant parameters input.request topPriorityReg).rotateLeft 1
    else topPriorityReg.rotateLeft 1
  else if input.saveTopPriority then grant parameters input.request topPriorityReg
  else topPriorityReg

def arbitrator : Machine (ArbitratorInputs parameters) (BitVec parameters.numRequesters) :=
  { resetState := 1
    reset := fun input => input.reset
    next := topPriorityNext parameters }

end Model

/-! ### Both adders add -/

section Adder

variable {width : Nat} (a b : BitVec width)

theorem fullAdder_eq : fullAdder a b = a + b := by
  have sum := BitVec.add_eq_adc width a b
  rw [BitVec.adc] at sum
  rw [sum, fullAdder]
  congr 2
  funext place carry
  rw [BitVec.adcb]
  cases a.getLsbD place <;> cases b.getLsbD place <;> cases carry <;> rfl

theorem carryChain_eq : carryChain a b = a + b := by
  rw [carryChain, BitVec.setWidth_add _ _ (Nat.le_succ width),
    BitVec.setWidth_setWidth_of_le _ (Nat.le_succ width),
    BitVec.setWidth_setWidth_of_le _ (Nat.le_succ width), BitVec.setWidth_eq, BitVec.setWidth_eq]

theorem arbAdder_eq : arbAdder a b = a + b := by
  rw [arbAdder]
  split
  next => exact fullAdder_eq a b
  next => exact carryChain_eq a b

end Adder

/-! ### The grant goes round -/

/-- Requesters take turns: the scheme `"round-robin"`, pipelined, with more than one
of them. -/
structure TakesTurns (parameters : ArbitratorParameters) : Prop where
  scheme : parameters.scheme = .roundRobin
  pipelined : parameters.pipeline = true
  several : 1 < parameters.numRequesters

theorem zero_append_twoPow {width place : Nat} (inside : place < width) :
    BitVec.ofNat width 0 ++ BitVec.twoPow width place = BitVec.twoPow (width + width) place := by
  apply BitVec.eq_of_getLsbD_eq
  intro other _inWord
  rw [BitVec.getLsbD_append, BitVec.getLsbD_twoPow, BitVec.getLsbD_twoPow,
    decide_eq_true inside, decide_eq_true (by omega : place < width + width), Bool.true_and]
  split
  next => rfl
  next high =>
    rw [BitVec.getLsbD_zero, decide_eq_false (by omega : ¬place = other)]

theorem twoPow_injective {width left right : Nat} (inside : left < width)
    (same : BitVec.twoPow width left = BitVec.twoPow width right) : left = right := by
  have bit : (BitVec.twoPow width left).getLsbD left = true := by
    rw [BitVec.getLsbD_twoPow, decide_eq_true inside, decide_eq_true rfl, Bool.true_and]
  rw [same, BitVec.getLsbD_twoPow, Bool.and_eq_true, decide_eq_true_eq, decide_eq_true_eq] at bit
  exact bit.2.symm

theorem twoPow_rotateLeft {width place : Nat} (several : 1 < width) (inside : place < width) :
    (BitVec.twoPow width place).rotateLeft 1 = BitVec.twoPow width (behind width place) := by
  apply BitVec.eq_of_getLsbD_eq
  intro other inWord
  rw [BitVec.getLsbD_rotateLeft_of_le several, BitVec.getLsbD_twoPow, BitVec.getLsbD_twoPow,
    BitVec.getLsbD_twoPow, decide_eq_true inside, decide_eq_true (behind_lt inside),
    decide_eq_true inWord]
  simp only [Bool.true_and]
  unfold behind
  by_cases first : other < 1
  · rw [decide_eq_true first, cond_true]
    exact decide_eq_decide.mpr (by split_ifs <;> omega)
  · rw [decide_eq_false first, cond_false]
    exact decide_eq_decide.mpr (by split_ifs <;> omega)

section Turns

variable {parameters : ArbitratorParameters} {top index : Nat}
  {request : BitVec parameters.numRequesters}

theorem grantDoubleVector_eq (turns : TakesTurns parameters)
    (inside : top < parameters.numRequesters)
    (request : BitVec parameters.numRequesters) :
    grantDoubleVector parameters request (BitVec.twoPow _ top) =
      (request ++ request) &&& (~~~(request ++ request) +
        BitVec.twoPow (parameters.numRequesters + parameters.numRequesters) top) := by
  rw [grantDoubleVector, topPriority, if_pos ⟨turns.scheme, turns.several⟩, arbAdder_eq,
    BitVec.not_append, zero_append_twoPow inside]

/-- The grant is the first request from the priority on. -/
theorem grant_getLsbD_iff (turns : TakesTurns parameters)
    (topInside : top < parameters.numRequesters) (inside : index < parameters.numRequesters)
    (request : BitVec parameters.numRequesters) :
    (grant parameters request (BitVec.twoPow _ top)).getLsbD index = true ↔
      FirstFrom (fun other => request.getLsbD other = true) parameters.numRequesters top
        index := by
  rw [← isolated_twice_iff request topInside inside, ← grantDoubleVector_eq turns topInside request,
    grant, turns.scheme]
  simp only [BitVec.getLsbD_or, BitVec.getLsbD_extractLsb', inside, decide_true, Bool.true_and,
    Nat.zero_add, Bool.or_eq_true, Nat.add_comm parameters.numRequesters index]

theorem grant_eq (turns : TakesTurns parameters) (topInside : top < parameters.numRequesters)
    (found : FirstFrom (fun other => request.getLsbD other = true) parameters.numRequesters top
      index) :
    grant parameters request (BitVec.twoPow _ top) = BitVec.twoPow _ index := by
  apply BitVec.eq_of_getLsbD_eq
  intro other inWord
  have granted := grant_getLsbD_iff turns topInside inWord request
  rw [BitVec.getLsbD_twoPow, decide_eq_true found.inside, Bool.true_and, Bool.eq_iff_iff, granted,
    decide_eq_true_eq]
  constructor
  · intro foundToo
    exact found.unique topInside foundToo
  · rintro rfl
    exact found

theorem grant_of_quiet (turns : TakesTurns parameters)
    (topInside : top < parameters.numRequesters) :
    grant parameters (BitVec.ofNat parameters.numRequesters 0) (BitVec.twoPow _ top) =
      BitVec.ofNat parameters.numRequesters 0 := by
  apply BitVec.eq_of_getLsbD_eq
  intro index inside
  have granted := grant_getLsbD_iff turns topInside inside (BitVec.ofNat _ 0)
  rw [BitVec.getLsbD_zero, ← Bool.not_eq_true, granted]
  intro found
  have asks := found.asking
  rw [BitVec.getLsbD_zero] at asks
  cases asks

theorem topPriorityNext_of_idle (turns : TakesTurns parameters)
    {input : ArbitratorInputs parameters} (idle : input.incrementTopPriority = false)
    {priority : BitVec parameters.numRequesters} :
    topPriorityNext parameters input priority = priority := by
  rw [topPriorityNext, if_pos turns.pipelined, idle, if_neg Bool.false_ne_true]

/-- An arbitration with a request grants one requester and goes on behind it; without
one the priority stays. -/
theorem topPriorityNext_eq (turns : TakesTurns parameters)
    (topInside : top < parameters.numRequesters) (input : ArbitratorInputs parameters) :
    (input.incrementTopPriority = true ∧ ∃ index,
        FirstFrom (fun other => input.request.getLsbD other = true) parameters.numRequesters top
            index ∧
          topPriorityNext parameters input (BitVec.twoPow _ top) =
            BitVec.twoPow _ (behind parameters.numRequesters index)) ∨
      (input.incrementTopPriority = true → input.request = 0) ∧
        topPriorityNext parameters input (BitVec.twoPow _ top) = BitVec.twoPow _ top := by
  rw [topPriorityNext, if_pos turns.pipelined]
  by_cases arbitrates : input.incrementTopPriority = true
  · rw [if_pos arbitrates]
    by_cases quiet : input.request = 0
    · rw [if_neg (not_not.mpr quiet)]
      exact Or.inr ⟨fun _increments => quiet, rfl⟩
    · rw [if_pos quiet]
      have asked : ∃ index, index < parameters.numRequesters ∧
          input.request.getLsbD index = true := by
        by_contra none
        apply quiet
        apply BitVec.eq_of_getLsbD_eq
        intro index inside
        have low : input.request.getLsbD index = false :=
          Bool.eq_false_of_not_eq_true fun asks => none ⟨index, inside, asks⟩
        exact low.trans BitVec.getLsbD_zero.symm
      obtain ⟨index, found⟩ := exists_firstFrom asked top
      refine Or.inl ⟨arbitrates, index, found, ?_⟩
      rw [grant_eq turns topInside found, twoPow_rotateLeft turns.several found.inside]
  · rw [if_neg arbitrates]
    exact Or.inr ⟨fun increments => absurd increments arbitrates, rfl⟩

end Turns

section Run

variable {parameters : ArbitratorParameters} (inputs : Nat → ArbitratorInputs parameters)

def priorityAt (cycle : Nat) : BitVec parameters.numRequesters :=
  (arbitrator parameters).run inputs cycle

def grantAt (cycle : Nat) : BitVec parameters.numRequesters :=
  grant parameters (inputs cycle).request (priorityAt inputs cycle)

/-- The requester that an arbitration turns to. -/
def turnAt (cycle : Nat) : Option Nat :=
  if (inputs cycle).incrementTopPriority then
    (List.range parameters.numRequesters).find? fun index => (grantAt inputs cycle).getLsbD index
  else none

variable {inputs} {cycle first last index top : Nat}

theorem priority_oneHot (turns : TakesTurns parameters)
    (inputs : Nat → ArbitratorInputs parameters) (cycle : Nat) :
    ∃ top, top < parameters.numRequesters ∧ priorityAt inputs cycle = BitVec.twoPow _ top := by
  have several := turns.several
  refine Machine.run_invariant (fun _input => True)
    (fun priority => ∃ top, top < parameters.numRequesters ∧ priority = BitVec.twoPow _ top)
    ⟨0, by omega, BitVec.twoPow_zero.symm⟩ ?_ (fun _cycle => trivial) cycle
  rintro input _ _admissible ⟨top, inside, rfl⟩
  rcases topPriorityNext_eq turns inside input with ⟨_acts, index, found, next⟩ | ⟨_quiet, next⟩
  · exact ⟨behind parameters.numRequesters index, behind_lt found.inside, next⟩
  · exact ⟨top, inside, next⟩

theorem turnAt_eq_some (turns : TakesTurns parameters) (inside : top < parameters.numRequesters)
    (priority : priorityAt inputs cycle = BitVec.twoPow _ top)
    (turn : turnAt inputs cycle = some index) :
    (inputs cycle).incrementTopPriority = true ∧
      FirstFrom (fun other => (inputs cycle).request.getLsbD other = true)
        parameters.numRequesters top index := by
  rw [turnAt] at turn
  split at turn
  next arbitrates =>
    have granted := List.find?_some turn
    have member := List.mem_range.mp (List.mem_of_find?_eq_some turn)
    rw [grantAt, priority] at granted
    exact ⟨arbitrates, (grant_getLsbD_iff turns inside member _).mp granted⟩
  next => cases turn

theorem turnAt_of_first (turns : TakesTurns parameters) (inside : top < parameters.numRequesters)
    (priority : priorityAt inputs cycle = BitVec.twoPow _ top)
    (arbitrates : (inputs cycle).incrementTopPriority = true)
    (found : FirstFrom (fun other => (inputs cycle).request.getLsbD other = true)
      parameters.numRequesters top index) :
    turnAt inputs cycle = some index := by
  cases turn : turnAt inputs cycle with
  | none =>
      rw [turnAt, if_pos arbitrates] at turn
      have missed := List.find?_eq_none.mp turn index (List.mem_range.mpr found.inside)
      rw [grantAt, priority] at missed
      exact absurd ((grant_getLsbD_iff turns inside found.inside _).mpr found) missed
  | some other =>
      have foundToo := (turnAt_eq_some turns inside priority turn).2
      rw [foundToo.unique inside found]

theorem circle (turns : TakesTurns parameters) {tops : Nat → Nat}
    (priority : ∀ cycle, tops cycle < parameters.numRequesters ∧
      priorityAt inputs cycle = BitVec.twoPow _ (tops cycle))
    (quiet : (arbitrator parameters).Quiet inputs first last) :
    Circle parameters.numRequesters
      (fun cycle index => (inputs cycle).request.getLsbD index = true) tops (turnAt inputs) first
      last := by
  have step : ∀ cycle, first ≤ cycle → cycle < last → priorityAt inputs (cycle + 1) =
      topPriorityNext parameters (inputs cycle) (BitVec.twoPow _ (tops cycle)) := by
    intro cycle lower upper
    rw [← (priority cycle).2]
    exact quiet.run_succ lower upper
  refine ⟨(priority first).1, ?_, ?_, ?_⟩
  · intro cycle index _lower _upper turn
    exact (turnAt_eq_some turns (priority cycle).1 (priority cycle).2 turn).2
  · intro cycle index lower upper turn
    obtain ⟨inside, here⟩ := priority cycle
    obtain ⟨arbitrates, found⟩ := turnAt_eq_some turns inside here turn
    have next := step cycle lower upper
    rw [(priority (cycle + 1)).2] at next
    rcases topPriorityNext_eq turns inside (inputs cycle) with
      ⟨_acts, granted, foundToo, moved⟩ | ⟨quietNow, _kept⟩
    · rw [moved, foundToo.unique inside found] at next
      exact twoPow_injective (priority (cycle + 1)).1 next
    · have asks := found.asking
      rw [quietNow arbitrates] at asks
      exact absurd (asks.symm.trans BitVec.getLsbD_zero) (by decide)
  · intro cycle lower upper turn
    obtain ⟨inside, here⟩ := priority cycle
    have next := step cycle lower upper
    rw [(priority (cycle + 1)).2] at next
    rcases topPriorityNext_eq turns inside (inputs cycle) with
      ⟨acts, granted, found, _moved⟩ | ⟨_quietNow, kept⟩
    · rw [turnAt_of_first turns inside here acts found] at turn
      cases turn
    · rw [kept] at next
      exact twoPow_injective (priority (cycle + 1)).1 next

end Run

/-- Of as many arbitrations as there are requesters, all of which it takes part in,
one grants a requester alone. -/
theorem requester_served (parameters : ArbitratorParameters) (turns : TakesTurns parameters)
    (inputs : Nat → ArbitratorInputs parameters) {first length index : Nat}
    (quiet : (arbitrator parameters).Quiet inputs first (first + length))
    (inside : index < parameters.numRequesters)
    (asking : ∀ cycle, first ≤ cycle → cycle < first + length →
      (inputs cycle).incrementTopPriority = true → (inputs cycle).request.getLsbD index = true)
    (enough : parameters.numRequesters ≤
      occurrences (fun offset => (inputs (first + offset)).incrementTopPriority) length) :
    ∃ cycle, first ≤ cycle ∧ cycle < first + length ∧
      (inputs cycle).incrementTopPriority = true ∧
      grantAt inputs cycle = BitVec.twoPow _ index := by
  choose tops priority using priority_oneHot turns inputs
  have rounds := circle turns priority quiet
  have asks : ∀ cycle, first ≤ cycle → cycle < first + length → turnAt inputs cycle ≠ none →
      (inputs cycle).request.getLsbD index = true := by
    intro cycle lower upper acts
    apply asking cycle lower upper
    by_contra idle
    exact acts (if_neg idle)
  by_contra never
  have waiting : ∀ cycle, first ≤ cycle → cycle < first + length →
      turnAt inputs cycle ≠ some index := by
    intro cycle lower upper turn
    obtain ⟨arbitrates, found⟩ := turnAt_eq_some turns (priority cycle).1 (priority cycle).2 turn
    refine never ⟨cycle, lower, upper, arbitrates, ?_⟩
    rw [grantAt, (priority cycle).2]
    exact grant_eq turns (priority cycle).1 found
  have few := rounds.turns_lt inside (Nat.le_refl _) asks waiting
  have counted : occurrences (fun offset => (inputs (first + offset)).incrementTopPriority) length ≤
      occurrences (fun offset => (turnAt inputs (first + offset)).isSome) length := by
    apply occurrences_le
    intro offset before arbitrates
    have takesPart := asking (first + offset) (Nat.le_add_right _ _)
      (Nat.add_lt_add_left before first) arbitrates
    have asked : ∃ other, other < parameters.numRequesters ∧
        (inputs (first + offset)).request.getLsbD other = true := ⟨index, inside, takesPart⟩
    obtain ⟨found, isFirst⟩ := exists_firstFrom asked (tops (first + offset))
    rw [turnAt_of_first turns (priority _).1 (priority _).2 arbitrates isFirst, Option.isSome_some]
  omega

abbrev twoMasters : ArbitratorParameters :=
  { numRequesters := 2, scheme := .roundRobin, pipeline := true }

theorem twoMasters_takesTurns : TakesTurns twoMasters := ⟨rfl, rfl, by decide⟩

def bothRequest (_cycle : Nat) : ArbitratorInputs twoMasters :=
  { reset := false, request := BitVec.allOnes 2, incrementTopPriority := true
    saveTopPriority := false }

theorem requester_served_both :
    ∃ cycle, 3 ≤ cycle ∧ cycle < 3 + 2 ∧ (bothRequest cycle).incrementTopPriority = true ∧
      grantAt bothRequest cycle = BitVec.twoPow twoMasters.numRequesters 1 := by
  have inside : 1 < twoMasters.numRequesters := Nat.lt_add_one 1
  have enough : twoMasters.numRequesters ≤
      occurrences (fun offset => (bothRequest (3 + offset)).incrementTopPriority) 2 := by
    decide
  have asks : (BitVec.allOnes 2).getLsbD 1 = true := by decide
  exact requester_served twoMasters twoMasters_takesTurns bothRequest
    (fun _cycle _lower _upper => rfl) inside (fun _cycle _lower _upper _increments => asks) enough

end SpiFpga.Top
