/-
Modules started by one write of the start register.

Whatever two modules have done before, in idle every register that feeds chip
select, the clock and the end of the frame is back at one value.  From there on
these registers read nothing that the modules do not share, until both wait in
their end state.
-/

import SpiFpga.Master.Steady
import SpiFpga.Top.System

namespace SpiFpga.Top

open Clocked Master

variable {generics : Generics}

/-! ### Counters at rest -/

/-- The delay counter is cleared on the way to the end state, and the divider a
period later. -/
structure CountersCleared (registers : Registers generics) : Prop where
  ended : registers.stateReg = .endState →
    registers.delayCounterReg = 0 ∧ registers.bitsCounterReg = 0
  idle : registers.stateReg = .idle →
    registers.delayCounterReg = 0 ∧ registers.bitsCounterReg = 0 ∧ registers.divCounterReg = 0

theorem resetRegisters_countersCleared : CountersCleared (resetRegisters generics) :=
  ⟨fun impossible => StateType.noConfusion impossible, fun _atIdle => ⟨rfl, rfl, rfl⟩⟩

theorem nextRegisters_countersCleared (input : Inputs generics)
    {registers : Registers generics} (nonneg : 0 ≤ input.delayConstant)
    (cleared : CountersCleared registers) : CountersCleared (nextRegisters input registers) := by
  have arrow := nextRegisters_arrow input registers
  by_cases inComm : registers.stateReg = .communicationState
  · rw [inComm] at arrow
    have active := arrow.from_comm
    constructor
    · intro atEnd
      rw [atEnd] at active
      rcases active with impossible | impossible <;> cases impossible
    · intro atIdle
      rw [atIdle] at active
      rcases active with impossible | impossible <;> cases impossible
  · obtain ⟨_clkNext, bitsNext, delayNext, _csNext⟩ := nextRegisters_of_ne_comm input inComm
    refine ⟨fun _atEnd => ⟨delayNext, bitsNext⟩, fun atIdle => ⟨delayNext, bitsNext, ?_⟩⟩
    apply divCounterNext_of_waiting input nonneg
    rw [atIdle] at arrow
    rcases arrow.to_idle.2 with wasIdle | wasEnd
    · exact (cleared.idle wasIdle).1
    · exact (cleared.ended wasEnd).1

theorem countersCleared_run {inputs : Nat → Inputs generics}
    (delays : ∀ cycle, 0 ≤ (inputs cycle).delayConstant) (cycle : Nat) :
    CountersCleared (registersAt inputs cycle) :=
  Machine.run_invariant (fun input => 0 ≤ input.delayConstant) CountersCleared
    resetRegisters_countersCleared
    (fun input _registers nonneg => nextRegisters_countersCleared input nonneg) delays cycle

/-! ### Two modules in lockstep -/

structure SameProgress (left right : Registers generics) : Prop where
  state : left.stateReg = right.stateReg
  delayCounter : left.delayCounterReg = right.delayCounterReg
  divCounter : left.divCounterReg = right.divCounterReg
  bitsCounter : left.bitsCounterReg = right.bitsCounterReg
  spiCs : left.spiCsReg = right.spiCsReg
  spiClk : left.spiClkReg = right.spiClkReg

/-- The start levels matter in the two resting states only. -/
theorem nextRegisters_sameProgress {input input' : Inputs generics}
    {left right : Registers generics} (same : SameProgress left right)
    (sameDelay : input.delayConstant = input'.delayConstant)
    (sameStart : left.stateReg = .idle ∨ left.stateReg = .endState →
      input.start = input'.start) :
    SameProgress (nextRegisters input left) (nextRegisters input' right) := by
  obtain ⟨reset, start, data, delay, miso⟩ := input
  obtain ⟨reset', start', data', delay', miso'⟩ := input'
  obtain ⟨state, tx, rx, delayCount, div, cs, clk, bits, div2, rxData⟩ := left
  obtain ⟨state', tx', rx', delayCount', div', cs', clk', bits', div2', rxData'⟩ := right
  obtain ⟨sameState, sameCount, sameDiv, sameBits, sameCs, sameClk⟩ := same
  dsimp only at sameDelay sameStart sameState sameCount sameDiv sameBits sameCs sameClk
  subst sameDelay sameState sameCount sameDiv sameBits sameCs sameClk
  cases state with
  | idle =>
      obtain rfl := sameStart (Or.inl rfl)
      exact ⟨rfl, rfl, rfl, rfl, rfl, rfl⟩
  | initTxState => exact ⟨rfl, rfl, rfl, rfl, rfl, rfl⟩
  | communicationState => exact ⟨rfl, rfl, rfl, rfl, rfl, rfl⟩
  | storeRxState => exact ⟨rfl, rfl, rfl, rfl, rfl, rfl⟩
  | endState =>
      obtain rfl := sameStart (Or.inr rfl)
      exact ⟨rfl, rfl, rfl, rfl, rfl, rfl⟩

theorem sameProgress_of_idle {inputs inputs' : Nat → Inputs generics}
    (two : 2 ≤ generics.clkDiv) (delays : ∀ cycle, 0 ≤ (inputs cycle).delayConstant)
    (delays' : ∀ cycle, 0 ≤ (inputs' cycle).delayConstant) {cycle : Nat}
    (atIdle : stateAt inputs cycle = .idle) (atIdle' : stateAt inputs' cycle = .idle) :
    SameProgress (registersAt inputs cycle) (registersAt inputs' cycle) := by
  have invariant := busInvariant_run two inputs cycle
  have invariant' := busInvariant_run two inputs' cycle
  obtain ⟨delayZero, bitsZero, divZero⟩ := (countersCleared_run delays cycle).idle atIdle
  obtain ⟨delayZero', bitsZero', divZero'⟩ := (countersCleared_run delays' cycle).idle atIdle'
  have elsewhere : ∀ {state : StateType}, state = .idle →
      state ≠ .communicationState ∧ state ≠ .storeRxState := by
    intro state isIdle
    subst isIdle
    exact ⟨StateType.noConfusion, StateType.noConfusion⟩
  obtain ⟨notComm, notStore⟩ := elsewhere atIdle
  obtain ⟨notComm', notStore'⟩ := elsewhere atIdle'
  exact
    { state := atIdle.trans atIdle'.symm
      delayCounter := delayZero.trans delayZero'.symm
      divCounter := divZero.trans divZero'.symm
      bitsCounter := bitsZero.trans bitsZero'.symm
      spiCs := (invariant.released notComm notStore).trans
        (invariant'.released notComm' notStore').symm
      spiClk := (invariant.rest notComm).trans (invariant'.rest notComm').symm }

/-- From a common begin on, until both wait in the end state. The start levels
agree where they matter: they have just begun both frames. -/
theorem sameProgress_run (two : 2 ≤ generics.clkDiv) {inputs inputs' : Nat → Inputs generics}
    (delays : ∀ cycle, 0 ≤ (inputs cycle).delayConstant)
    (sameDelay : ∀ cycle, (inputs cycle).delayConstant = (inputs' cycle).delayConstant)
    {first cycle : Nat} (begins : Begins inputs first) (begins' : Begins inputs' first)
    (after : first ≤ cycle) (quiet : Quiet inputs first cycle)
    (quiet' : Quiet inputs' first cycle)
    (running : ∀ between, first < between → between < cycle →
      ¬(stateAt inputs between = .endState ∧ stateAt inputs' between = .endState)) :
    SameProgress (registersAt inputs cycle) (registersAt inputs' cycle) ∧
      (first < cycle → stateAt inputs cycle ≠ .idle) := by
  induction cycle, after using Nat.le_induction with
  | base =>
      have delays' : ∀ cycle, 0 ≤ (inputs' cycle).delayConstant := by
        intro now
        rw [← sameDelay now]
        exact delays now
      exact ⟨sameProgress_of_idle two delays delays' begins.1 begins'.1,
        fun impossible => absurd impossible (Nat.lt_irrefl first)⟩
  | succ cycle after ih =>
      obtain ⟨same, active⟩ := ih (quiet.mono (Nat.le_refl _) (Nat.le_succ _))
        (quiet'.mono (Nat.le_refl _) (Nat.le_succ _))
        (fun between lower upper => running between lower (Nat.lt_succ_of_lt upper))
      have arrow := quiet.arrow cycle after (Nat.lt_succ_self cycle)
      have started := (startLevel_eq_true begins.2).1
      have started' := (startLevel_eq_true begins'.2).1
      have notEnd : stateAt inputs cycle ≠ .endState := by
        intro atEnd
        rcases Nat.lt_or_eq_of_le after with later | now
        · exact running cycle later (Nat.lt_succ_self cycle) ⟨atEnd, same.state.symm.trans atEnd⟩
        · rw [← now, begins.1] at atEnd
          cases atEnd
      have idleFirst : stateAt inputs cycle = .idle → cycle = first := by
        intro atIdle
        rcases Nat.lt_or_eq_of_le after with later | now
        · exact absurd atIdle (active later)
        · exact now.symm
      constructor
      · rw [quiet.registersAt_succ cycle after (Nat.lt_succ_self cycle),
          quiet'.registersAt_succ cycle after (Nat.lt_succ_self cycle)]
        apply nextRegisters_sameProgress same (sameDelay cycle)
        intro resting
        rcases resting with atIdle | atEnd
        · rw [idleFirst atIdle, started, started']
        · exact absurd atEnd notEnd
      · intro _later atIdle
        rw [atIdle] at arrow
        obtain ⟨low, wasIdle | wasEnd⟩ := arrow.to_idle
        · rw [idleFirst wasIdle, started] at low
          cases low
        · exact notEnd wasEnd

/-! ### The six modules -/

structure Lockstep (inputs : Nat → TopInputs) (left right : Fin 6) (cycle : Nat) : Prop where
  progress : SameProgress (modulesAt inputs cycle left) (modulesAt inputs cycle right)
  endSignal : endSignalSpiDspArray (inputs cycle) (modulesAt inputs cycle) left =
    endSignalSpiDspArray (inputs cycle) (modulesAt inputs cycle) right

theorem modules_lockstep (inputs : Nat → TopInputs) (left right : Fin 6) (first cycle : Nat)
    (begins : Begins (moduleInputs inputs left) first)
    (begins' : Begins (moduleInputs inputs right) first) (after : first ≤ cycle)
    (noReset : ∀ between, first ≤ between → between ≤ cycle → (inputs between).resetN = true)
    (running : ∀ between, first < between → between < cycle →
      ¬((modulesAt inputs between left).stateReg = .endState ∧
        (modulesAt inputs between right).stateReg = .endState)) :
    Lockstep inputs left right cycle := by
  have quiet := quiet_of_resetN noReset
  have bothRunning : ∀ between, first < between → between < cycle →
      ¬(stateAt (moduleInputs inputs left) between = .endState ∧
        stateAt (moduleInputs inputs right) between = .endState) := by
    intro between lower upper
    have notBoth := running between lower upper
    rw [modulesAt_eq, modulesAt_eq] at notBoth
    exact notBoth
  have delays : ∀ now, 0 ≤ (moduleInputs inputs left now).delayConstant :=
    fun now => Int.natCast_nonneg ((inputs now).delaySpi.toNat)
  have sameDelay : ∀ now, (moduleInputs inputs left now).delayConstant =
      (moduleInputs inputs right now).delayConstant := fun _now => rfl
  have same := (sameProgress_run (by decide) delays sameDelay begins begins' after (quiet left)
    (quiet right) bothRunning).1
  rw [← modulesAt_eq, ← modulesAt_eq] at same
  refine ⟨same, ?_⟩
  rw [endSignalSpiDspArray, endSignalSpiDspArray, endSignal_eq, endSignal_eq, same.state]

/-- Module 0 runs a frame of its own before it is started again, together with
module 1. -/
def startedTogether (cycle : Nat) : TopInputs :=
  { resetN := true
    startSpi := if cycle < 111 then 1 else if cycle < 120 then 0 else 3
    delaySpi := 12
    spiTx := fun index => index.val
    spiDspMisoIn := fun index => index = module0 }

theorem startedTogether_begins (index : Fin 6) (either : index = 0 ∨ index = 1) :
    Begins (moduleInputs startedTogether index) 120 := by
  have quiet : ∀ first last, Quiet (moduleInputs startedTogether index) first last :=
    fun _first _last _cycle _lower _upper => rfl
  have low : ∀ cycle, 111 ≤ cycle → cycle < 120 →
      (moduleInputs startedTogether index cycle).start = false := by
    intro cycle lower upper
    have none : (startedTogether cycle).startSpi = 0 := by
      rw [startedTogether, if_neg (by omega), if_pos upper]
    change (startedTogether cycle).startSpi.getLsbD index = false
    rw [none]
    exact BitVec.getLsbD_zero
  have atIdle : stateAt (moduleInputs startedTogether index) 112 = .idle := by
    rcases either with rfl | rfl
    · have frame : SteadyFrame (moduleInputs startedTogether 0) 0 12 :=
        ⟨⟨rfl, rfl⟩, fun _cycle _lower _upper => rfl, quiet _ _⟩
      have position : storeCycle moduleGenerics 0 12 + 1 = 111 := by decide
      have ended := frame.ends (by decide) rfl
      rw [position] at ended
      have arrow := (quiet 0 112).arrow 111 (by decide) (by decide)
      rw [ended, low 111 (by decide) (by decide)] at arrow
      rcases arrow.from_end with ⟨high, _stillEnd⟩ | ⟨_low, rearmed⟩
      · cases high
      · exact rearmed
    · have powerOn : stateAt (moduleInputs startedTogether 1) 0 = .idle := rfl
      refine stateAt_idle_of_low powerOn (by decide) (quiet 0 112) ?_
      intro cycle _lower upper
      rcases Nat.lt_or_ge cycle 111 with early | late
      · have first : (startedTogether cycle).startSpi = 1 := if_pos early
        change (startedTogether cycle).startSpi.getLsbD 1 = false
        rw [first]
        rfl
      · exact low cycle late (by omega)
  refine ⟨stateAt_idle_of_low atIdle (by decide) (quiet 112 120)
    (fun cycle lower upper => low cycle (by omega) upper), ?_⟩
  rcases either with rfl | rfl <;> rfl

/-- In the middle of the common frame, in a period with an edge. -/
theorem modules_lockstep_pair : Lockstep startedTogether 0 1 181 := by
  refine modules_lockstep startedTogether 0 1 120 181
    (startedTogether_begins 0 (Or.inl rfl)) (startedTogether_begins 1 (Or.inr rfl)) (by decide)
    (fun _between _lower _upper => rfl) ?_
  rintro between lower upper ⟨ended, _endedToo⟩
  have frame : SteadyFrame (moduleInputs startedTogether 0) 120 12 :=
    ⟨startedTogether_begins 0 (Or.inl rfl), fun _cycle _lower _upper => rfl,
      fun _cycle _lower _upper => rfl⟩
  have store : storeCycle moduleGenerics 120 12 = 230 := rfl
  rw [modulesAt_eq] at ended
  exact frame.notEnded (by decide) (Nat.le_of_lt lower) (by omega) ended

end SpiFpga.Top
