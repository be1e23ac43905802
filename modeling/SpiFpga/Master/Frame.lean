/-
What a frame does, as a function of its delays.

The cycles of the communication state are numbered from zero; the delay counter
shows that number.  Two gates are read off the sequence of delays, and with them
every toggle of the clock and every shift of the word.  The trace theorems say
that the registers follow this schedule, whatever the delays do, until the bit
counter has reached its final value.
-/

import SpiFpga.Master.BusLines
import SpiFpga.Master.Start

namespace SpiFpga.Master

open Clocked

variable {generics : Generics}

/-! ### The schedule -/

/-- `CLK_DIV` as a number of cycles. -/
def divisor (generics : Generics) : Nat := generics.clkDiv.toNat

def expired (delay : Nat → Int) (index : Nat) : Bool := decide (delay index < index)

def armed (generics : Generics) (delay : Nat → Int) (index : Nat) : Bool :=
  decide (delay index + shift generics < index)

def toggles (generics : Generics) (delay : Nat → Int) (index : Nat) : Bool :=
  pulses (divisor generics) (expired delay) index

def shifts (generics : Generics) (delay : Nat → Int) (index : Nat) : Bool :=
  expired delay index && pulses (divisor generics * 2) (armed generics delay) index

def Unfinished (generics : Generics) (delay : Nat → Int) (index : Nat) : Prop :=
  ∀ earlier, earlier < index → occurrences (toggles generics delay) earlier < generics.word * 2

theorem Unfinished.of_succ {delay : Nat → Int} {index : Nat}
    (unfinished : Unfinished generics delay (index + 1)) : Unfinished generics delay index :=
  fun earlier before => unfinished earlier (Nat.lt_succ_of_lt before)

theorem divisor_cast (nonneg : 0 ≤ generics.clkDiv) :
    ((divisor generics : Nat) : Int) = generics.clkDiv :=
  Int.toNat_of_nonneg nonneg

theorem divisor_twice_cast (nonneg : 0 ≤ generics.clkDiv) :
    ((divisor generics * 2 : Nat) : Int) = generics.clkDiv * 2 := by
  rw [Nat.cast_mul, divisor_cast nonneg]
  rfl

theorem divisor_pos (positive : 1 ≤ generics.clkDiv) : 0 < divisor generics := by
  unfold divisor
  omega

theorem shift_nonpos (nonneg : 0 ≤ generics.clkDiv) : shift generics ≤ 0 := by
  unfold shift
  split <;> omega

theorem armed_of_expired (nonneg : 0 ≤ generics.clkDiv) {delay : Nat → Int} {index : Nat}
    (isOver : expired delay index = true) : armed generics delay index = true := by
  have below := shift_nonpos nonneg
  unfold expired at isOver
  rw [decide_eq_true_eq] at isOver
  exact decide_eq_true (by omega)

/-- The clock gate is inside the shift gate, so `start_sclk` is the divider pulse. -/
theorem startSclk_eq (nonneg : 0 ≤ generics.clkDiv) (input : Inputs generics)
    (registers : Registers generics) :
    startSclk input registers = divClkPulse input registers := by
  have below := shift_nonpos nonneg
  unfold startSclk
  cases pulsed : divClkPulse input registers with
  | false => exact Bool.and_false _
  | true =>
      have isOver := Divider.gate_of_pulse pulsed
      simp only [enDivCounter, delayCounterEnd, decide_eq_true_eq] at isOver
      rw [Bool.and_true, delayCounterShiftEnd, decide_eq_true_eq]
      omega

/-! ### Communication cycles of a frame -/

/-- The delays that a frame meets in its communication cycles. -/
def frameDelay (inputs : Nat → Inputs generics) (first index : Nat) : Int :=
  (inputs (first + 2 + index)).delayConstant

def frameMiso (inputs : Nat → Inputs generics) (first index : Nat) : Bool :=
  (inputs (first + 2 + index)).spiMisoIn

/-- The word that `init_tx_state` samples. -/
def frameWord (inputs : Nat → Inputs generics) (first : Nat) : BitVec generics.word :=
  (inputs (first + 1)).dataTxIn

structure ClockTrace (inputs : Nat → Inputs generics) (first index : Nat) : Prop where
  delayCounter : (registersAt inputs (first + 2 + index)).delayCounterReg = index
  bitsCounter : (registersAt inputs (first + 2 + index)).bitsCounterReg =
    occurrences (toggles generics (frameDelay inputs first)) index
  spiCs : chipSelect inputs (first + 2 + index) = decide (0 < index)
  spiClk : sclk inputs (first + 2 + index) =
    (sclk inputs first ^^ (occurrences (toggles generics (frameDelay inputs first)) index).bodd)
  divCounter : expired (frameDelay inputs first) index = true →
    (registersAt inputs (first + 2 + index)).divCounterReg =
      (elapsed (expired (frameDelay inputs first)) index % divisor generics : Nat)

structure DataTrace (inputs : Nat → Inputs generics) (first index : Nat) : Prop where
  divCounter2 : armed generics (frameDelay inputs first) index = true →
    (registersAt inputs (first + 2 + index)).divCounter2Reg =
      (elapsed (armed generics (frameDelay inputs first)) index % (divisor generics * 2) : Nat)
  txBuffer : (registersAt inputs (first + 2 + index)).txBufferReg =
    shifted (frameWord inputs first) (shifts generics (frameDelay inputs first))
      (fun _index => false) index
  rxBuffer : (registersAt inputs (first + 2 + index)).rxBufferReg =
    shifted (registersAt inputs (first + 2)).rxBufferReg
      (shifts generics (frameDelay inputs first)) (frameMiso inputs first) index

theorem begins_enters {inputs : Nat → Inputs generics} {first : Nat}
    (begins : Begins inputs first) (quiet : Quiet inputs first (first + 2)) :
    stateAt inputs (first + 1) = .initTxState ∧
      stateAt inputs (first + 2) = .communicationState := by
  obtain ⟨atIdle, level⟩ := begins
  have initState : stateAt inputs (first + 1) = .initTxState := by
    rw [quiet.stateAt_succ first (Nat.le_refl first) (by omega), atIdle,
      (startLevel_eq_true level).1]
    rfl
  refine ⟨initState, ?_⟩
  rw [quiet.stateAt_succ (first + 1) (by omega) (by omega), initState]

theorem clockTrace_zero {inputs : Nat → Inputs generics} {first : Nat}
    (begins : Begins inputs first) (quiet : Quiet inputs first (first + 2))
    (nonneg : 0 ≤ frameDelay inputs first 0) : ClockTrace inputs first 0 := by
  have initState := (begins_enters begins quiet).1
  have firstNotComm : stateAt inputs first ≠ .communicationState := by
    rw [begins.1]
    exact StateType.noConfusion
  have initNotComm : stateAt inputs (first + 1) ≠ .communicationState := by
    rw [initState]
    exact StateType.noConfusion
  have toInit := nextRegisters_of_ne_comm (inputs first) firstNotComm
  rw [← quiet.registersAt_succ first (by omega) (by omega)] at toInit
  have toComm := nextRegisters_of_ne_comm (inputs (first + 1)) initNotComm
  rw [← quiet.registersAt_succ (first + 1) (by omega) (by omega)] at toComm
  refine
    { delayCounter := toComm.2.2.1
      bitsCounter := ?_
      spiCs := toComm.2.2.2
      spiClk := ?_
      divCounter := ?_ }
  · rw [occurrences_zero]
    exact toComm.2.1
  · rw [occurrences_zero, Nat.bodd_zero, Bool.xor_false]
    exact toComm.1.trans toInit.1
  · intro isOver
    simp only [expired, decide_eq_true_eq] at isOver
    omega

/-- The delay comparators are the gates of the schedule. -/
theorem ClockTrace.gates {inputs : Nat → Inputs generics} {first index : Nat}
    (trace : ClockTrace inputs first index) :
    delayCounterEnd (inputs (first + 2 + index)) (registersAt inputs (first + 2 + index)) =
        expired (frameDelay inputs first) index ∧
      delayCounterShiftEnd (inputs (first + 2 + index))
          (registersAt inputs (first + 2 + index)) =
        armed generics (frameDelay inputs first) index := by
  rw [delayCounterEnd, delayCounterShiftEnd, trace.delayCounter]
  exact ⟨rfl, rfl⟩

theorem ClockTrace.startSclk {inputs : Nat → Inputs generics} {first index : Nat}
    (positive : 1 ≤ generics.clkDiv) (trace : ClockTrace inputs first index) :
    startSclk (inputs (first + 2 + index)) (registersAt inputs (first + 2 + index)) =
      toggles generics (frameDelay inputs first) index := by
  rw [startSclk_eq (by omega), divClkPulse, enDivCounter, trace.gates.1]
  exact Divider.pulse_elapsed trace.divCounter

theorem ClockTrace.succ {inputs : Nat → Inputs generics} {first index : Nat}
    (positive : 1 ≤ generics.clkDiv) (trace : ClockTrace inputs first index)
    (inComm : stateAt inputs (first + 2 + index) = .communicationState)
    (quiet : Quiet inputs first (first + 2 + (index + 1))) :
    ClockTrace inputs first (index + 1) := by
  have advanced := quiet.registersAt_succ (first + 2 + index) (by omega) (by omega)
  obtain ⟨clkNext, bitsNext, delayNext, csNext⟩ :=
    nextRegisters_of_comm (inputs (first + 2 + index)) inComm
  rw [← advanced, trace.startSclk positive] at clkNext bitsNext
  rw [← advanced, trace.delayCounter] at delayNext
  rw [← advanced] at csNext
  refine
    { delayCounter := delayNext.trans (Int.natCast_succ index).symm
      bitsCounter := ?_
      spiCs := csNext.trans (decide_eq_true (Nat.succ_pos index)).symm
      spiClk := ?_
      divCounter := ?_ }
  · rw [occurrences_succ, ← Nat.add_assoc, bitsNext, trace.bitsCounter]
    split <;> simp
  · rw [occurrences_succ]
    refine clkNext.trans ?_
    have clkNow := trace.spiClk
    unfold sclk spiClkOut at clkNow ⊢
    rw [clkNow]
    cases toggles generics (frameDelay inputs first) index <;> simp
  · intro _isOver
    have pos := divisor_pos positive
    rw [← Nat.add_assoc, advanced]
    change divCounterNext _ _ = _
    rw [divCounterNext, enDivCounter, trace.gates.1, ← divisor_cast (by omega)]
    exact Divider.next_elapsed pos trace.divCounter

theorem clockTrace {inputs : Nat → Inputs generics} {first index : Nat}
    (positive : 1 ≤ generics.clkDiv) (begins : Begins inputs first)
    (nonneg : 0 ≤ frameDelay inputs first 0)
    (unfinished : Unfinished generics (frameDelay inputs first) index)
    (quiet : Quiet inputs first (first + 2 + index)) :
    stateAt inputs (first + 2 + index) = .communicationState ∧
      ClockTrace inputs first index := by
  induction index with
  | zero => exact ⟨(begins_enters begins quiet).2, clockTrace_zero begins quiet nonneg⟩
  | succ index ih =>
      obtain ⟨inComm, trace⟩ := ih unfinished.of_succ (quiet.mono (Nat.le_refl _) (by omega))
      refine ⟨?_, trace.succ positive inComm quiet⟩
      have remaining := unfinished index (Nat.lt_succ_self index)
      rw [← Nat.add_assoc, quiet.stateAt_succ (first + 2 + index) (by omega) (by omega),
        inComm]
      dsimp only
      rw [trace.bitsCounter, if_pos (by exact_mod_cast remaining)]

theorem stores_of_complete {inputs : Nat → Inputs generics} {first index : Nat}
    (inComm : stateAt inputs (first + 2 + index) = .communicationState)
    (trace : ClockTrace inputs first index)
    (complete : generics.word * 2 ≤ occurrences (toggles generics (frameDelay inputs first)) index)
    (quiet : Quiet inputs first (first + 2 + (index + 1))) :
    stateAt inputs (first + 2 + (index + 1)) = .storeRxState := by
  rw [← Nat.add_assoc, quiet.stateAt_succ (first + 2 + index) (by omega) (by omega),
    inComm]
  dsimp only
  rw [trace.bitsCounter, if_neg (by exact_mod_cast Nat.not_lt_of_le complete)]

/-! ### Transmit and receive registers -/

theorem nextRegisters_buffers (input : Inputs generics) {registers : Registers generics}
    (notInit : registers.stateReg ≠ .initTxState) :
    (nextRegisters input registers).txBufferReg =
        (if enTx input registers then registers.txBufferReg.shiftConcat false
          else registers.txBufferReg) ∧
      (nextRegisters input registers).rxBufferReg =
        (if enTx input registers then registers.rxBufferReg.shiftConcat input.spiMisoIn
          else registers.rxBufferReg) := by
  simp only [nextRegisters, txBufferNext, rxBufferNext, loadTxBuffer_eq, decide_eq_false notInit,
    Bool.false_eq_true, if_false, and_self]

theorem notInit_of_comm {registers : Registers generics}
    (inComm : registers.stateReg = .communicationState) : registers.stateReg ≠ .initTxState := by
  rw [inComm]
  exact StateType.noConfusion

theorem txBuffer_loaded {inputs : Nat → Inputs generics} {first : Nat}
    (begins : Begins inputs first) (quiet : Quiet inputs first (first + 2)) :
    (registersAt inputs (first + 2)).txBufferReg = frameWord inputs first := by
  have initState := (begins_enters begins quiet).1
  have loads : loadTxBuffer (inputs (first + 1)) (registersAt inputs (first + 1)) = true := by
    rw [loadTxBuffer_eq]
    exact decide_eq_true initState
  rw [quiet.registersAt_succ (first + 1) (by omega) (by omega)]
  change txBufferNext _ _ = _
  rw [txBufferNext, loads, if_pos rfl]
  rfl

theorem dataTrace_zero {inputs : Nat → Inputs generics} {first : Nat}
    (begins : Begins inputs first) (quiet : Quiet inputs first (first + 2))
    (unarmed : armed generics (frameDelay inputs first) 0 = false) :
    DataTrace inputs first 0 := by
  refine
    { divCounter2 := ?_
      txBuffer := txBuffer_loaded begins quiet
      rxBuffer := rfl }
  intro isArmed
  rw [unarmed] at isArmed
  cases isArmed

theorem DataTrace.enTx {inputs : Nat → Inputs generics} {first index : Nat}
    (clock : ClockTrace inputs first index) (trace : DataTrace inputs first index) :
    enTx (inputs (first + 2 + index)) (registersAt inputs (first + 2 + index)) =
      shifts generics (frameDelay inputs first) index := by
  rw [Master.enTx, divClk2Pulse, enDivCounterShift, clock.gates.1, clock.gates.2, shifts]
  congr 1
  exact Divider.pulse_elapsed trace.divCounter2

theorem DataTrace.succ {inputs : Nat → Inputs generics} {first index : Nat}
    (positive : 1 ≤ generics.clkDiv) (clock : ClockTrace inputs first index)
    (trace : DataTrace inputs first index)
    (inComm : stateAt inputs (first + 2 + index) = .communicationState)
    (quiet : Quiet inputs first (first + 2 + (index + 1))) :
    DataTrace inputs first (index + 1) := by
  have advanced := quiet.registersAt_succ (first + 2 + index) (by omega) (by omega)
  obtain ⟨txNext, rxNext⟩ :=
    nextRegisters_buffers (inputs (first + 2 + index)) (notInit_of_comm inComm)
  rw [← advanced, trace.enTx clock] at txNext rxNext
  refine
    { divCounter2 := ?_
      txBuffer := ?_
      rxBuffer := ?_ }
  · intro _isArmed
    have pos : 0 < divisor generics * 2 := Nat.mul_pos (divisor_pos positive) Nat.two_pos
    rw [← Nat.add_assoc, advanced]
    change divCounter2Next _ _ = _
    rw [divCounter2Next, enDivCounterShift, clock.gates.2, ← divisor_twice_cast (by omega)]
    exact Divider.next_elapsed pos trace.divCounter2
  · rw [shifted_succ, ← trace.txBuffer]
    exact txNext
  · rw [shifted_succ, ← trace.rxBuffer]
    exact rxNext

theorem dataTrace {inputs : Nat → Inputs generics} {first index : Nat}
    (positive : 1 ≤ generics.clkDiv) (begins : Begins inputs first)
    (nonneg : 0 ≤ frameDelay inputs first 0)
    (unarmed : armed generics (frameDelay inputs first) 0 = false)
    (unfinished : Unfinished generics (frameDelay inputs first) index)
    (quiet : Quiet inputs first (first + 2 + index)) : DataTrace inputs first index := by
  induction index with
  | zero => exact dataTrace_zero begins quiet unarmed
  | succ index ih =>
      have earlier : Quiet inputs first (first + 2 + index) :=
        quiet.mono (Nat.le_refl _) (by omega)
      obtain ⟨inComm, clock⟩ := clockTrace positive begins nonneg unfinished.of_succ earlier
      exact (ih unfinished.of_succ earlier).succ positive clock inComm quiet

end SpiFpga.Master
