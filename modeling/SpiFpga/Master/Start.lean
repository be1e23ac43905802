/-
The start port is active on the transition LOW to HIGH.

The ASM tests the level of `start` in two states and has no edge detector.  The
specification here is a module that has one: it leaves idle on a rising edge and
never waits in its end state.  The module of the source refines it, and the two
differ only while a start level outlives its frame.
-/

import SpiFpga.Master.Module

namespace SpiFpga.Master

open Clocked

variable {generics : Generics}

/-- The start level, counted as LOW during reset. -/
def startLevel (inputs : Nat → Inputs generics) (cycle : Nat) : Bool :=
  (inputs cycle).start && !(inputs cycle).reset

def previousLevel (inputs : Nat → Inputs generics) : Nat → Bool
  | 0 => false
  | cycle + 1 => startLevel inputs cycle

def rises (inputs : Nat → Inputs generics) (cycle : Nat) : Bool :=
  startLevel inputs cycle && !previousLevel inputs cycle

/-- A frame begins in the cycle in which the ASM leaves idle. -/
def Begins (inputs : Nat → Inputs generics) (cycle : Nat) : Prop :=
  stateAt inputs cycle = .idle ∧ startLevel inputs cycle = true

/-- From the cycle after a frame's begin up to and including its first end-state
cycle, unless a reset intervenes. -/
def Busy (inputs : Nat → Inputs generics) (cycle : Nat) : Prop :=
  ∃ first, first < cycle ∧ Begins inputs first ∧
    (∀ between, first < between → between ≤ cycle → (inputs between).reset = false) ∧
    ∀ between, first < between → between < cycle → stateAt inputs between ≠ .endState

theorem startLevel_eq_true {inputs : Nat → Inputs generics} {cycle : Nat}
    (high : startLevel inputs cycle = true) :
    (inputs cycle).start = true ∧ (inputs cycle).reset = false := by
  simpa only [startLevel, Bool.and_eq_true, Bool.not_eq_true'] using high

/-! ### The frame under way -/

/-- The frame begun in one cycle has neither been reset nor left for idle by
another. -/
structure Underway (inputs : Nat → Inputs generics) (first cycle : Nat) : Prop where
  begins : Begins inputs first
  before : first < cycle
  quiet : Quiet inputs first cycle
  active : ∀ between, first < between → between ≤ cycle → stateAt inputs between ≠ .idle

theorem exists_underway {inputs : Nat → Inputs generics} {cycle : Nat}
    (notIdle : stateAt inputs cycle ≠ .idle) : ∃ first, Underway inputs first cycle := by
  induction cycle with
  | zero => exact absurd rfl notIdle
  | succ cycle ih =>
      obtain ⟨low, lowAfter, advanced⟩ := registersAt_succ_of_ne_idle notIdle
      by_cases wasIdle : stateAt inputs cycle = .idle
      · have started : (inputs cycle).start = true := by
          cases level : (inputs cycle).start with
          | true => rfl
          | false =>
              rw [stateAt_succ low lowAfter, wasIdle, level] at notIdle
              exact absurd rfl notIdle
        refine ⟨cycle, ⟨wasIdle, ?_⟩, Nat.lt_succ_self cycle, ?_, ?_⟩
        · simp only [startLevel, started, low, Bool.not_false, Bool.and_self]
        · intro between lower upper
          rcases Nat.lt_or_eq_of_le upper with inside | atEnd
          · rw [Nat.le_antisymm (Nat.le_of_lt_succ inside) lower]
            exact low
          · rw [atEnd]
            exact lowAfter
        · intro between lower upper
          rw [Nat.le_antisymm upper lower]
          exact notIdle
      · obtain ⟨first, begins, before, quiet, active⟩ := ih wasIdle
        refine ⟨first, begins, Nat.lt_succ_of_lt before, quiet.succ lowAfter, ?_⟩
        intro between lower upper
        rcases Nat.lt_or_eq_of_le upper with inside | atEnd
        · exact active between lower (Nat.le_of_lt_succ inside)
        · rw [atEnd]
          exact notIdle

theorem underway_of_high {inputs : Nat → Inputs generics} {first cycle : Nat}
    (begins : Begins inputs first) (before : first < cycle) (quiet : Quiet inputs first cycle)
    (high : ∀ between, first ≤ between → between < cycle → (inputs between).start = true) :
    Underway inputs first cycle := by
  refine ⟨begins, before, quiet, ?_⟩
  intro between lower upper atIdle
  obtain ⟨previous, rfl⟩ : ∃ previous, between = previous + 1 := ⟨between - 1, by omega⟩
  have arrow := quiet.arrow previous (Nat.le_of_lt_succ lower) upper
  rw [atIdle, high previous (Nat.le_of_lt_succ lower) upper] at arrow
  cases arrow.to_idle.1

theorem stateAt_ne_idle_of_busy {inputs : Nat → Inputs generics} {cycle : Nat}
    (busy : Busy inputs cycle) : stateAt inputs cycle ≠ .idle := by
  obtain ⟨first, before, ⟨atIdle, level⟩, quiet, notEnded⟩ := busy
  induction cycle, before using Nat.le_induction with
  | base =>
      obtain ⟨started, low⟩ := startLevel_eq_true level
      have arrow := stateAt_arrow low (quiet (first + 1) (Nat.lt_succ_self _) (Nat.le_refl _))
      intro again
      rw [again, started] at arrow
      cases arrow.to_idle.1
  | succ cycle before ih =>
      have notIdle := ih
        (fun between lower upper => quiet between lower (Nat.le_succ_of_le upper))
        (fun between lower upper => notEnded between lower (Nat.lt_succ_of_lt upper))
      have notEnd := notEnded cycle before (Nat.lt_succ_self cycle)
      have arrow := stateAt_arrow (quiet cycle before (Nat.le_succ cycle))
        (quiet (cycle + 1) (Nat.lt_succ_of_lt before) (Nat.le_refl _))
      intro again
      rw [again] at arrow
      rcases arrow.to_idle.2 with wasIdle | wasEnd
      · exact notIdle wasIdle
      · exact notEnd wasEnd

theorem previousLevel_of_idle {inputs : Nat → Inputs generics} {cycle : Nat}
    (atIdle : stateAt inputs cycle = .idle) (low : (inputs cycle).reset = false) :
    previousLevel inputs cycle = false := by
  cases cycle with
  | zero => rfl
  | succ cycle =>
      unfold previousLevel
      by_contra high
      obtain ⟨started, lowBefore⟩ := startLevel_eq_true (Bool.eq_true_of_not_eq_false high)
      have arrow := stateAt_arrow lowBefore low
      rw [atIdle, started] at arrow
      cases arrow.to_idle.1

theorem Underway.previousLevel_of_ended {inputs : Nat → Inputs generics}
    {first ending cycle : Nat} (underway : Underway inputs first cycle)
    (after : first < ending) (before : ending < cycle)
    (isOver : stateAt inputs ending = .endState) :
    stateAt inputs cycle = .endState ∧ previousLevel inputs cycle = true := by
  obtain ⟨_begins, _before, quiet, active⟩ := underway
  have step : ∀ now, ending ≤ now → now < cycle → stateAt inputs now = .endState →
      stateAt inputs (now + 1) = .endState ∧ previousLevel inputs (now + 1) = true := by
    intro now lower upper atEnd
    have low := Quiet.low quiet now (by omega) (by omega)
    have arrow := stateAt_arrow low (quiet (now + 1) (by omega) upper)
    rw [atEnd] at arrow
    rcases arrow.from_end with ⟨started, stays⟩ | ⟨_stopped, atIdle⟩
    · rw [previousLevel, startLevel, started, low]
      exact ⟨stays, rfl⟩
    · exact absurd atIdle (active (now + 1) (by omega) upper)
  obtain ⟨last, rfl⟩ : ∃ last, cycle = last + 1 := ⟨cycle - 1, by omega⟩
  have waits : ∀ now, ending ≤ now → now ≤ last → stateAt inputs now = .endState := by
    intro now lower upper
    induction now, lower using Nat.le_induction with
    | base => exact isOver
    | succ now lower ih => exact (step now lower (by omega) (ih (by omega))).1
  exact step last (by omega) (Nat.lt_succ_self last) (waits last (by omega) (Nat.le_refl last))

theorem stateAt_idle_of_low {inputs : Nat → Inputs generics} {first last : Nat}
    (atIdle : stateAt inputs first = .idle) (ordered : first ≤ last)
    (quiet : Quiet inputs first last)
    (low : ∀ cycle, first ≤ cycle → cycle < last → (inputs cycle).start = false) :
    stateAt inputs last = .idle := by
  induction last, ordered using Nat.le_induction with
  | base => exact atIdle
  | succ last ordered ih =>
      have before := ih (quiet.mono (Nat.le_refl _) (Nat.le_succ _))
        (fun cycle lower upper => low cycle lower (Nat.lt_succ_of_lt upper))
      rw [quiet.stateAt_succ last ordered (Nat.lt_succ_self last), before,
        low last ordered (Nat.lt_succ_self last)]
      rfl

/-! ### The edge-triggered specification -/

/-- A module with an edge detector on `start`: idle is left on a rising edge, and
the end state lasts one period. -/
def edgeTriggered (generics : Generics) : Machine (Inputs generics) (Registers generics) :=
  { resetState := resetRegisters generics
    reset := Inputs.reset
    next := fun input registers =>
      nextRegisters
        { input with start := input.start && decide (registers.stateReg = .idle) } registers }

def edgeInputs (inputs : Nat → Inputs generics) (cycle : Nat) : Inputs generics :=
  { inputs cycle with start := rises inputs cycle }

/-- The registers agree, and so do the states unless a start level has outlived
its frame. -/
structure Refines (previous : Bool) (concrete abstract : Registers generics) : Prop where
  sameRegisters : concrete = { abstract with stateReg := concrete.stateReg }
  sameState : concrete.stateReg = abstract.stateReg ∨
    concrete.stateReg = .endState ∧ abstract.stateReg = .idle ∧ previous = true
  idleLow : concrete.stateReg = .idle → previous = false

/-- Everything but the next state is indifferent to `start`, and the two resting
states drive the same signals. -/
theorem nextRegisters_start_irrelevant (input : Inputs generics) (start : Bool)
    {concrete abstract : Registers generics}
    (sameRegisters : concrete = { abstract with stateReg := concrete.stateReg })
    (sameState : concrete.stateReg = abstract.stateReg ∨
      concrete.stateReg = .endState ∧ abstract.stateReg = .idle) :
    nextRegisters input concrete =
      { nextRegisters { input with start := start } abstract with
        stateReg := (nextRegisters input concrete).stateReg } := by
  obtain ⟨state, tx, rx, delay, div, cs, clk, bits, div2, data⟩ := concrete
  obtain ⟨state', tx', rx', delay', div', cs', clk', bits', div2', data'⟩ := abstract
  simp only [Registers.mk.injEq, true_and] at sameRegisters
  obtain ⟨rfl, rfl, rfl, rfl, rfl, rfl, rfl, rfl, rfl⟩ := sameRegisters
  rcases sameState with same | ⟨atEnd, atIdle⟩
  · dsimp only at same
    subst same
    cases state <;> rfl
  · dsimp only at atEnd atIdle
    subst atEnd atIdle
    rfl

theorem nextRegisters_refines (input : Inputs generics) {previous : Bool}
    {concrete abstract : Registers generics} (refines : Refines previous concrete abstract) :
    Refines input.start (nextRegisters input concrete)
      ((edgeTriggered generics).next { input with start := input.start && !previous }
        abstract) := by
  obtain ⟨sameRegisters, sameState, idleLow⟩ := refines
  have registersNext := nextRegisters_start_irrelevant input
    (input.start && !previous && decide (abstract.stateReg = .idle)) sameRegisters
    (sameState.imp_right (fun outlived => ⟨outlived.1, outlived.2.1⟩))
  refine ⟨registersNext, ?_, ?_⟩
  · simp only [edgeTriggered, nextRegisters_stateReg]
    rcases sameState with same | ⟨atEnd, atIdle, high⟩
    · have sameBits : concrete.bitsCounterReg = abstract.bitsCounterReg := by
        rw [sameRegisters]
      rw [← same, sameBits]
      cases atState : concrete.stateReg with
      | idle =>
          left
          rw [idleLow atState]
          simp
      | initTxState => exact Or.inl rfl
      | communicationState => exact Or.inl rfl
      | storeRxState => exact Or.inl rfl
      | endState => cases input.start <;> simp
    · rw [atEnd, atIdle, high]
      cases input.start <;> simp
  · rw [nextRegisters_stateReg]
    cases concrete.stateReg with
    | idle => cases input.start <;> simp
    | initTxState => intro impossible; cases impossible
    | communicationState => dsimp only; split <;> simp
    | storeRxState => intro impossible; cases impossible
    | endState => cases input.start <;> simp

theorem registersAt_refines (inputs : Nat → Inputs generics) (cycle : Nat) :
    Refines (previousLevel inputs cycle && !(inputs cycle).reset) (registersAt inputs cycle)
      ((edgeTriggered generics).run (edgeInputs inputs) cycle) := by
  have atReset (previous : Bool) (low : previous = false) :
      Refines previous (resetRegisters generics) (resetRegisters generics) :=
    ⟨rfl, Or.inl rfl, fun _atIdle => low⟩
  induction cycle with
  | zero => exact atReset _ rfl
  | succ cycle ih =>
      cases low : (inputs cycle).reset with
      | true =>
          have cleared : (edgeTriggered generics).run (edgeInputs inputs) (cycle + 1) =
              resetRegisters generics := Machine.run_succ_of_reset cycle low
          rw [registersAt_succ_of_reset low, cleared]
          apply atReset
          rw [previousLevel, startLevel, low, Bool.not_true, Bool.and_false, Bool.false_and]
      | false =>
          cases lowAfter : (inputs (cycle + 1)).reset with
          | true =>
              have cleared : (edgeTriggered generics).run (edgeInputs inputs) (cycle + 1) =
                  resetRegisters generics := Machine.run_of_reset (cycle + 1) lowAfter
              rw [registersAt_of_reset lowAfter, cleared]
              apply atReset
              rw [Bool.not_true, Bool.and_false]
          | false =>
              have advanced : (edgeTriggered generics).run (edgeInputs inputs) (cycle + 1) =
                  (edgeTriggered generics).next (edgeInputs inputs cycle)
                    ((edgeTriggered generics).run (edgeInputs inputs) cycle) :=
                Machine.run_succ cycle low lowAfter
              have risen : rises inputs cycle =
                  ((inputs cycle).start && !previousLevel inputs cycle) := by
                rw [rises, startLevel, low, Bool.not_false, Bool.and_true]
              rw [low, Bool.not_false, Bool.and_true] at ih
              rw [registersAt_succ low lowAfter, advanced, edgeInputs, risen, previousLevel,
                startLevel, low, Bool.not_false, Bool.and_true, Bool.and_true]
              exact nextRegisters_refines (inputs cycle) ih

/-! ### Frames begin at rising edges -/

theorem begins_iff_rises (inputs : Nat → Inputs generics) (cycle : Nat) :
    Begins inputs cycle ↔ rises inputs cycle = true ∧ ¬Busy inputs cycle := by
  constructor
  · rintro ⟨atIdle, level⟩
    have lowBefore := previousLevel_of_idle atIdle (startLevel_eq_true level).2
    refine ⟨?_, fun busy => stateAt_ne_idle_of_busy busy atIdle⟩
    rw [rises, level, lowBefore]
    rfl
  · rintro ⟨risen, notBusy⟩
    simp only [rises, Bool.and_eq_true, Bool.not_eq_true'] at risen
    obtain ⟨level, lowBefore⟩ := risen
    refine ⟨?_, level⟩
    by_contra notIdle
    obtain ⟨first, underway⟩ := exists_underway notIdle
    apply notBusy
    refine ⟨first, underway.before, underway.begins, ?_, ?_⟩
    · intro between lower upper
      exact underway.quiet between (Nat.le_of_lt lower) upper
    · intro ending after before isOver
      have high := (underway.previousLevel_of_ended after before isOver).2
      rw [lowBefore] at high
      cases high

/-! ### Falling edges do not matter -/

def SameEnvironment (input input' : Inputs generics) : Prop :=
  input = { input' with start := input.start }

theorem Refines.dataRxOut_eq {previous : Bool} {concrete abstract : Registers generics}
    (refines : Refines previous concrete abstract) (input input' : Inputs generics) :
    dataRxOut input concrete = dataRxOut input' abstract := by
  obtain ⟨sameRegisters, sameState, _idleLow⟩ := refines
  have sameBuffer : concrete.rxBufferReg = abstract.rxBufferReg := by rw [sameRegisters]
  have sameData : concrete.rxDataReg = abstract.rxDataReg := by rw [sameRegisters]
  unfold dataRxOut
  rw [rxDataNext_eq, rxDataNext_eq, sameBuffer, sameData]
  rcases sameState with same | ⟨atEnd, atIdle, _high⟩
  · rw [same]
  · rw [atEnd, atIdle, if_neg (by decide), if_neg (by decide)]

/-- Both runs refine one run of the specification. -/
theorem ports_eq_of_rises_eq {inputs inputs' : Nat → Inputs generics}
    (environment : ∀ cycle, SameEnvironment (inputs cycle) (inputs' cycle))
    (edges : ∀ cycle, rises inputs cycle = rises inputs' cycle) (cycle : Nat) :
    chipSelect inputs cycle = chipSelect inputs' cycle ∧
      sclk inputs cycle = sclk inputs' cycle ∧
      mosi inputs cycle = mosi inputs' cycle ∧
      dataRx inputs cycle = dataRx inputs' cycle := by
  have sameEdgeInputs : edgeInputs inputs = edgeInputs inputs' := by
    funext now
    rw [edgeInputs, edgeInputs, edges now, environment now]
  have left := registersAt_refines inputs cycle
  have right := registersAt_refines inputs' cycle
  rw [sameEdgeInputs] at left
  refine ⟨?_, ?_, ?_, ?_⟩
  · rw [chipSelect, chipSelect, left.sameRegisters, right.sameRegisters]
    rfl
  · rw [sclk, sclk, left.sameRegisters, right.sameRegisters]
    rfl
  · rw [mosi, mosi, left.sameRegisters, right.sameRegisters]
    rfl
  · exact (left.dataRxOut_eq (inputs cycle) (inputs cycle)).trans
      (right.dataRxOut_eq (inputs' cycle) (inputs cycle)).symm

theorem start_edge_triggered (generics : Generics) :
    (∀ (inputs : Nat → Inputs generics) (cycle : Nat),
      Begins inputs cycle ↔ rises inputs cycle = true ∧ ¬Busy inputs cycle) ∧
    ∀ inputs inputs' : Nat → Inputs generics,
      (∀ cycle, SameEnvironment (inputs cycle) (inputs' cycle)) →
      (∀ cycle, rises inputs cycle = rises inputs' cycle) →
      ∀ cycle,
        chipSelect inputs cycle = chipSelect inputs' cycle ∧
          sclk inputs cycle = sclk inputs' cycle ∧
          mosi inputs cycle = mosi inputs' cycle ∧
          dataRx inputs cycle = dataRx inputs' cycle :=
  ⟨begins_iff_rises, fun _inputs _inputs' environment edges =>
    ports_eq_of_rises_eq environment edges⟩

theorem start_edge_triggered_pulse :
    sclk (steadyInputs {} (fun cycle => decide (cycle < 1)) 5 12 (fun _cycle => true)) 20 =
      sclk (steadyInputs {} (fun cycle => decide (cycle < 3)) 5 12 (fun _cycle => true)) 20 :=
  ((start_edge_triggered {}).2
    (steadyInputs {} (fun cycle => decide (cycle < 1)) 5 12 (fun _cycle => true))
    (steadyInputs {} (fun cycle => decide (cycle < 3)) 5 12 (fun _cycle => true))
    (fun _cycle => rfl) (fun cycle => by
      match cycle with
      | 0 => rfl
      | 1 => rfl
      | 2 => rfl
      | 3 => rfl
      | cycle + 4 => simp [rises, startLevel, previousLevel, steadyInputs]) 20).2.1

end SpiFpga.Master
