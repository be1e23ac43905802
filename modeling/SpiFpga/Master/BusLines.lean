/-
Safety of the bus lines under arbitrary inputs.

`spi_clk_reg` is never reloaded between frames.  It rests at `cpol` because every
frame toggles it an even number of times, and the number is even because the end
test, which sees the bit counter one period late, meets a divider that has just
pulsed.  The invariant of one register bank carries all of this.
-/

import Mathlib.Data.Int.Bitwise
import SpiFpga.Master.Module

namespace SpiFpga.Master

open Clocked

variable {generics : Generics}

structure BusInvariant (registers : Registers generics) : Prop where
  rest : registers.stateReg ≠ .communicationState → registers.spiClkReg = generics.cpol
  parity : registers.stateReg = .communicationState →
    registers.spiClkReg = (generics.cpol ^^ registers.bitsCounterReg.bodd)
  bounded : registers.stateReg = .communicationState →
    0 ≤ registers.bitsCounterReg ∧ registers.bitsCounterReg ≤ generics.word * 2
  complete : registers.stateReg = .storeRxState →
    registers.bitsCounterReg = generics.word * 2
  -- the divider has moved on when the last toggle becomes visible
  spent : registers.stateReg = .communicationState →
    registers.bitsCounterReg = generics.word * 2 → registers.divCounterReg ≠ 0
  fresh : registers.stateReg = .communicationState → registers.delayCounterReg = 0 →
    registers.bitsCounterReg = 0
  selected : registers.stateReg = .communicationState →
    0 ≤ registers.delayCounterReg ∧
      (registers.spiCsReg = true ∨ registers.delayCounterReg = 0)
  released : registers.stateReg ≠ .communicationState → registers.stateReg ≠ .storeRxState →
    registers.spiCsReg = false

theorem resetRegisters_busInvariant : BusInvariant (resetRegisters generics) where
  rest _notComm := rfl
  parity impossible := nomatch impossible
  bounded impossible := nomatch impossible
  complete impossible := nomatch impossible
  spent impossible := nomatch impossible
  fresh impossible := nomatch impossible
  selected impossible := nomatch impossible
  released _notComm _notStore := rfl

private theorem bodd_word_twice : ((generics.word : Int) * 2).bodd = false := by
  rw [Int.bodd_mul]
  exact Bool.and_false _

theorem startSclk_divClkPulse {input : Inputs generics} {registers : Registers generics}
    (toggles : startSclk input registers = true) : divClkPulse input registers = true := by
  unfold startSclk at toggles
  rw [Bool.and_eq_true] at toggles
  exact toggles.2

/-- Outside the communication state the clock register and the counters that
drive it do what they do in every quiet period. -/
theorem nextRegisters_of_ne_comm (input : Inputs generics) {registers : Registers generics}
    (notComm : registers.stateReg ≠ .communicationState) :
    (nextRegisters input registers).spiClkReg = registers.spiClkReg ∧
      (nextRegisters input registers).bitsCounterReg = 0 ∧
      (nextRegisters input registers).delayCounterReg = 0 ∧
      (nextRegisters input registers).spiCsReg = false := by
  simp only [nextRegisters, spiClkNext, bitsCounterNext, delayCounterNext, startDelay_eq,
    spiCsNext_eq, decide_eq_false notComm, Bool.false_eq_true, if_false, and_self]

theorem nextRegisters_of_comm (input : Inputs generics) {registers : Registers generics}
    (inComm : registers.stateReg = .communicationState) :
    (nextRegisters input registers).spiClkReg =
        (registers.spiClkReg ^^ startSclk input registers) ∧
      (nextRegisters input registers).bitsCounterReg =
        registers.bitsCounterReg + (if startSclk input registers then 1 else 0) ∧
      (nextRegisters input registers).delayCounterReg = registers.delayCounterReg + 1 ∧
      (nextRegisters input registers).spiCsReg = true := by
  simp only [nextRegisters, spiClkNext, bitsCounterNext, delayCounterNext, startDelay_eq,
    spiCsNext_eq, inComm, decide_true, if_true]
  cases startSclk input registers <;> simp

theorem divCounterNext_of_waiting (input : Inputs generics) {registers : Registers generics}
    (nonneg : 0 ≤ input.delayConstant) (waiting : registers.delayCounterReg = 0) :
    (nextRegisters input registers).divCounterReg = 0 := by
  change divCounterNext input registers = 0
  have isClosed : enDivCounter input registers = false := by
    rw [enDivCounter, delayCounterEnd, waiting]
    exact decide_eq_false (by omega)
  rw [divCounterNext, isClosed, Divider.next_closed]

namespace BusInvariant

variable {input : Inputs generics} {registers : Registers generics}

/-- Two consecutive toggles are at least two periods apart, so the toggle that
completes a frame is the last one. -/
theorem still_of_complete (invariant : BusInvariant registers)
    (inComm : registers.stateReg = .communicationState)
    (finished : registers.bitsCounterReg = generics.word * 2) :
    startSclk input registers = false := by
  cases toggles : startSclk input registers with
  | false => rfl
  | true =>
      have pulsed := startSclk_divClkPulse toggles
      simp only [divClkPulse, Divider.pulse, Bool.and_eq_true, decide_eq_true_eq] at pulsed
      exact absurd pulsed.2 (invariant.spent inComm finished)

theorem stay (two : 2 ≤ generics.clkDiv) (invariant : BusInvariant registers)
    (inComm : registers.stateReg = .communicationState)
    (unfinished : registers.bitsCounterReg < generics.word * 2) :
    BusInvariant (nextRegisters input registers) := by
  obtain ⟨clkNext, bitsNext, delayNext, csNext⟩ := nextRegisters_of_comm input inComm
  have nonneg := (invariant.bounded inComm).1
  have delayNonneg := (invariant.selected inComm).1
  have stays : (nextRegisters input registers).stateReg = .communicationState := by
    rw [nextRegisters_stateReg, inComm]
    exact if_pos unfinished
  refine
    { rest := fun notComm => absurd stays notComm
      parity := fun _inComm => ?_
      bounded := fun _inComm => ?_
      complete := fun inStore => ?_
      spent := fun _inComm lastToggle => ?_
      fresh := fun _inComm atZero => ?_
      selected := fun _inComm => ⟨by omega, Or.inl csNext⟩
      released := fun notComm => absurd stays notComm }
  · rw [clkNext, bitsNext, invariant.parity inComm]
    cases startSclk input registers <;> simp [Int.bodd_add]
  · rw [bitsNext]
    split <;> omega
  · cases stays.symm.trans inStore
  · cases toggles : startSclk input registers with
    | true => exact Divider.next_ne_zero_of_pulse two (startSclk_divClkPulse toggles)
    | false =>
        rw [bitsNext, toggles] at lastToggle
        simp only [Bool.false_eq_true, if_false] at lastToggle
        omega
  · omega

theorem finish (invariant : BusInvariant registers)
    (inComm : registers.stateReg = .communicationState)
    (complete : ¬registers.bitsCounterReg < generics.word * 2) :
    BusInvariant (nextRegisters input registers) := by
  obtain ⟨clkNext, bitsNext, _delayNext, _csNext⟩ := nextRegisters_of_comm input inComm
  have atMost := (invariant.bounded inComm).2
  have finished : registers.bitsCounterReg = generics.word * 2 := by omega
  have stores : (nextRegisters input registers).stateReg = .storeRxState := by
    rw [nextRegisters_stateReg, inComm]
    exact if_neg complete
  have left : (nextRegisters input registers).stateReg ≠ .communicationState := by
    rw [stores]
    exact StateType.noConfusion
  rw [invariant.still_of_complete inComm finished] at clkNext bitsNext
  refine
    { rest := fun _notComm => ?_
      parity := fun inComm' => absurd inComm' left
      bounded := fun inComm' => absurd inComm' left
      complete := fun _inStore => ?_
      spent := fun inComm' => absurd inComm' left
      fresh := fun inComm' => absurd inComm' left
      selected := fun inComm' => absurd inComm' left
      released := fun _notComm notStore => absurd stores notStore }
  · rw [clkNext, invariant.parity inComm, finished, bodd_word_twice]
    simp
  · rw [bitsNext, finished]
    simp

/-- Outside the communication state the counters are cleared, so a frame is
entered with everything at rest. -/
theorem outside (invariant : BusInvariant registers)
    (notComm : registers.stateReg ≠ .communicationState) :
    BusInvariant (nextRegisters input registers) := by
  obtain ⟨clkNext, bitsNext, delayNext, csNext⟩ := nextRegisters_of_ne_comm input notComm
  have clkNow := invariant.rest notComm
  have wordPos := generics.wordPos
  have arrow := nextRegisters_arrow input registers
  have notStore : (nextRegisters input registers).stateReg ≠ .storeRxState := by
    intro inStore
    rw [inStore] at arrow
    exact notComm arrow.to_store
  refine
    { rest := fun _notComm => clkNext.trans clkNow
      parity := fun _inComm => ?_
      bounded := fun _inComm => ?_
      complete := fun inStore => absurd inStore notStore
      spent := fun _inComm lastToggle => ?_
      fresh := fun _inComm _atZero => bitsNext
      selected := fun _inComm => ⟨by omega, Or.inr delayNext⟩
      released := fun _notComm _notStore => csNext }
  · rw [clkNext, clkNow, bitsNext]
    exact (Bool.xor_false _).symm
  · rw [bitsNext]
    omega
  · rw [bitsNext] at lastToggle
    omega

end BusInvariant

theorem nextRegisters_busInvariant (two : 2 ≤ generics.clkDiv) (input : Inputs generics)
    {registers : Registers generics} (invariant : BusInvariant registers) :
    BusInvariant (nextRegisters input registers) := by
  by_cases inComm : registers.stateReg = .communicationState
  · by_cases unfinished : registers.bitsCounterReg < generics.word * 2
    · exact invariant.stay two inComm unfinished
    · exact invariant.finish inComm unfinished
  · exact invariant.outside inComm

theorem busInvariant_run (two : 2 ≤ generics.clkDiv) (inputs : Nat → Inputs generics)
    (cycle : Nat) : BusInvariant (registersAt inputs cycle) :=
  Machine.run_invariant (fun _input => True) BusInvariant resetRegisters_busInvariant
    (fun input _registers _admissible => nextRegisters_busInvariant two input)
    (fun _cycle => trivial) cycle

theorem chipSelect_low {inputs : Nat → Inputs generics} {cycle : Nat}
    (notComm : stateAt inputs cycle ≠ .communicationState)
    (notStore : stateAt inputs cycle ≠ .storeRxState) : chipSelect inputs cycle = false := by
  cases cycle with
  | zero => rfl
  | succ cycle =>
      rcases Machine.run_succ_cases (regProcess generics) inputs cycle with
        cleared | ⟨low, lowAfter, advanced⟩
      · exact congrArg Registers.spiCsReg cleared
      · have before : stateAt inputs cycle ≠ .communicationState := by
          intro inComm
          have arrow := stateAt_arrow low lowAfter
          rw [inComm] at arrow
          rcases arrow.from_comm with stays | stores
          · exact notComm stays
          · exact notStore stores
        rw [chipSelect, spiCsOut, registersAt, advanced]
        exact (nextRegisters_of_ne_comm (inputs cycle) before).2.2.2

/-! ### Edges of one frame -/

/-- The cycles of one frame, from its entry into the communication state on. -/
structure InFrame (inputs : Nat → Inputs generics) (entry cycle : Nat) : Prop where
  entered : stateAt inputs entry = .communicationState
  fromOutside : stateAt inputs (entry - 1) ≠ .communicationState
  after : entry ≤ cycle
  within : ∀ between, entry ≤ between → between ≤ cycle →
    stateAt inputs between = .communicationState ∨ stateAt inputs between = .storeRxState

theorem sclk_parity (two : 2 ≤ generics.clkDiv) {inputs : Nat → Inputs generics} {cycle : Nat}
    (active : stateAt inputs cycle = .communicationState ∨
      stateAt inputs cycle = .storeRxState) :
    sclk inputs cycle =
      (generics.cpol ^^ (registersAt inputs cycle).bitsCounterReg.bodd) := by
  have invariant := busInvariant_run two inputs cycle
  rcases active with inComm | inStore
  · exact invariant.parity inComm
  · have notComm : (registersAt inputs cycle).stateReg ≠ .communicationState := by
      intro inComm
      exact absurd (inComm.symm.trans inStore) (by decide)
    rw [invariant.complete inStore, bodd_word_twice, Bool.xor_false]
    exact invariant.rest notComm

theorem bitsCounter_bounded (two : 2 ≤ generics.clkDiv) {inputs : Nat → Inputs generics}
    {cycle : Nat}
    (active : stateAt inputs cycle = .communicationState ∨
      stateAt inputs cycle = .storeRxState) :
    (registersAt inputs cycle).bitsCounterReg ≤ generics.word * 2 := by
  have invariant := busInvariant_run two inputs cycle
  rcases active with inComm | inStore
  · exact (invariant.bounded inComm).2
  · exact Int.le_of_eq (invariant.complete inStore)

/-- The bit counter counts the edges that have appeared since the frame entered
the communication state. Induction on the cycles of the frame. -/
theorem bitsCounter_eq_edgeCount {inputs : Nat → Inputs generics} {entry cycle : Nat}
    (frame : InFrame inputs entry cycle) :
    (registersAt inputs cycle).bitsCounterReg = edgeCount (sclk inputs) entry cycle := by
  obtain ⟨entered, fromOutside, after, within⟩ := frame
  induction cycle, after using Nat.le_induction with
  | base =>
      rw [edgeCount_self]
      cases entry with
      | zero => rfl
      | succ before =>
          have notIdle : stateAt inputs (before + 1) ≠ .idle := by
            rw [entered]
            exact StateType.noConfusion
          obtain ⟨_low, _lowAfter, advanced⟩ := registersAt_succ_of_ne_idle notIdle
          rw [advanced]
          exact (nextRegisters_of_ne_comm (inputs before) fromOutside).2.1
  | succ cycle after ih =>
      have earlier := ih (fun between lower upper =>
        within between lower (Nat.le_succ_of_le upper))
      have activeNext := within (cycle + 1) (Nat.le_succ_of_le after) (Nat.le_refl _)
      have notIdle : stateAt inputs (cycle + 1) ≠ .idle := by
        intro atIdle
        rw [atIdle] at activeNext
        rcases activeNext with impossible | impossible <;> cases impossible
      obtain ⟨_low, _lowAfter, advanced⟩ := registersAt_succ_of_ne_idle notIdle
      rcases within cycle after (Nat.le_succ cycle) with inComm | inStore
      · obtain ⟨clkNext, bitsNext, _delayNext, _csNext⟩ :=
          nextRegisters_of_comm (inputs cycle) inComm
        have sclkNext : sclk inputs (cycle + 1) =
            (sclk inputs cycle ^^ startSclk (inputs cycle) (registersAt inputs cycle)) := by
          unfold sclk spiClkOut
          rw [advanced]
          exact clkNext
        rw [edgeCount_succ _ after, sclkNext, advanced, bitsNext, earlier]
        cases startSclk (inputs cycle) (registersAt inputs cycle) <;>
          cases sclk inputs cycle <;> simp
      · have atEnd : stateAt inputs (cycle + 1) = .endState := by
          unfold stateAt at inStore ⊢
          rw [advanced, nextRegisters_stateReg, inStore]
        rw [atEnd] at activeNext
        rcases activeNext with impossible | impossible <;> cases impossible

/-! ### Safety of the lines -/

structure SafeBusLines (inputs : Nat → Inputs generics) : Prop where
  restsWhenReleased : ∀ cycle, chipSelect inputs cycle = false →
    sclk inputs cycle = generics.cpol
  followsBitsCounter : ∀ cycle,
    stateAt inputs cycle = .communicationState ∨ stateAt inputs cycle = .storeRxState →
      sclk inputs cycle =
        (generics.cpol ^^ (registersAt inputs cycle).bitsCounterReg.bodd)
  changesWhenSelected : ∀ cycle, (inputs (cycle + 1)).reset = false →
    sclk inputs (cycle + 1) ≠ sclk inputs cycle →
      chipSelect inputs cycle = true ∧ chipSelect inputs (cycle + 1) = true
  countsEdges : ∀ entry cycle, InFrame inputs entry cycle →
    (registersAt inputs cycle).bitsCounterReg = edgeCount (sclk inputs) entry cycle ∧
      edgeCount (sclk inputs) entry cycle ≤ 2 * generics.word ∧
      (stateAt inputs cycle = .storeRxState →
        edgeCount (sclk inputs) entry cycle = 2 * generics.word)
  endsAtRest : ∀ cycle, ended inputs cycle = true →
    chipSelect inputs cycle = false ∧ sclk inputs cycle = generics.cpol

theorem sclk_rests_when_released (two : 2 ≤ generics.clkDiv)
    {inputs : Nat → Inputs generics} {cycle : Nat}
    (isReleased : chipSelect inputs cycle = false) : sclk inputs cycle = generics.cpol := by
  have invariant := busInvariant_run two inputs cycle
  by_cases inComm : (registersAt inputs cycle).stateReg = .communicationState
  · rcases (invariant.selected inComm).2 with isSelected | atZero
    · exact absurd (isReleased.symm.trans isSelected) Bool.false_ne_true
    · have clkNow := invariant.parity inComm
      rw [invariant.fresh inComm atZero, Int.bodd_zero, Bool.xor_false] at clkNow
      exact clkNow
  · exact invariant.rest inComm

/-- A toggle needs an expired delay, hence a delay counter that has left zero, and
chip select is registered one period after the counter starts. -/
theorem sclk_changes_when_selected (two : 2 ≤ generics.clkDiv)
    {inputs : Nat → Inputs generics} (delays : ∀ cycle, 0 ≤ (inputs cycle).delayConstant)
    {cycle : Nat} (lowAfter : (inputs (cycle + 1)).reset = false)
    (changed : sclk inputs (cycle + 1) ≠ sclk inputs cycle) :
    chipSelect inputs cycle = true ∧ chipSelect inputs (cycle + 1) = true := by
  have invariant := busInvariant_run two inputs cycle
  cases low : (inputs cycle).reset with
  | true =>
      have same : sclk inputs (cycle + 1) = sclk inputs cycle := by
        unfold sclk
        rw [registersAt_succ_of_reset low, registersAt_of_reset low]
      exact absurd same changed
  | false =>
      unfold sclk chipSelect spiClkOut spiCsOut at *
      rw [registersAt_succ low lowAfter] at changed ⊢
      by_cases inComm : (registersAt inputs cycle).stateReg = .communicationState
      · obtain ⟨clkNext, _bitsNext, _delayNext, csNext⟩ :=
          nextRegisters_of_comm (inputs cycle) inComm
        have toggles : startSclk (inputs cycle) (registersAt inputs cycle) = true := by
          by_contra still
          rw [clkNext, Bool.eq_false_of_not_eq_true still] at changed
          exact changed (Bool.xor_false _)
        have expired := Divider.gate_of_pulse (startSclk_divClkPulse toggles)
        simp only [enDivCounter, delayCounterEnd, decide_eq_true_eq] at expired
        have nonneg := delays cycle
        rcases (invariant.selected inComm).2 with isSelected | atZero
        · exact ⟨isSelected, csNext⟩
        · omega
      · exact absurd (nextRegisters_of_ne_comm (inputs cycle) inComm).1 changed

theorem endState_at_rest (two : 2 ≤ generics.clkDiv) {inputs : Nat → Inputs generics}
    {cycle : Nat} (isOver : ended inputs cycle = true) :
    chipSelect inputs cycle = false ∧ sclk inputs cycle = generics.cpol := by
  have invariant := busInvariant_run two inputs cycle
  unfold ended at isOver
  rw [endSignal_eq, decide_eq_true_eq] at isOver
  constructor
  · exact invariant.released (by rw [isOver]; decide) (by rw [isOver]; decide)
  · exact invariant.rest (by rw [isOver]; decide)

theorem busLines_safe (two : 2 ≤ generics.clkDiv) (inputs : Nat → Inputs generics)
    (delays : ∀ cycle, 0 ≤ (inputs cycle).delayConstant) : SafeBusLines inputs where
  restsWhenReleased _cycle isReleased := sclk_rests_when_released two isReleased
  followsBitsCounter _cycle active := sclk_parity two active
  changesWhenSelected _cycle lowAfter changed :=
    sclk_changes_when_selected two delays lowAfter changed
  countsEdges entry cycle frame := by
    have counted := bitsCounter_eq_edgeCount frame
    have active := frame.within cycle frame.after (Nat.le_refl cycle)
    have bounded := bitsCounter_bounded two active
    refine ⟨counted, by omega, ?_⟩
    intro inStore
    have complete := (busInvariant_run two inputs cycle).complete inStore
    omega
  endsAtRest _cycle isOver := endState_at_rest two isOver

theorem busLines_safe_default :
    SafeBusLines (steadyInputs {} (fun _cycle => true) 0 12 (fun _cycle => false)) :=
  busLines_safe (by decide) _ (fun _cycle => Int.natCast_nonneg 12)

end SpiFpga.Master
