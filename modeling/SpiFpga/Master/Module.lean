/-
The SPI master module, entity `spi_master_module` with architecture `arch1`.

Every definition translates one process or one concurrent assignment of the
architecture, under its own name.  `std_logic` is a Boolean, `'1'` is `true`; a
vector `(WORD-1 downto 0)` is a bit vector whose bit `i` has index `i`; the
integer signals are unbounded.  A period of `clk` is one step of the machine.
-/

import SpiFpga.Clocked.Divider
import SpiFpga.Clocked.Machine
import SpiFpga.Clocked.ShiftRegister

namespace SpiFpga.Master

open Clocked

/-- The generics. A null vector has no high bit, so elaboration needs a word. -/
structure Generics where
  clkDiv : Int := 3
  cpol : Bool := false
  cpha : Bool := false
  word : Nat := 32
  wordPos : 0 < word := by decide

inductive StateType where
  | idle
  | initTxState
  | communicationState
  | storeRxState
  | endState
  deriving DecidableEq, Repr

structure Registers (generics : Generics) where
  stateReg : StateType
  txBufferReg : BitVec generics.word
  rxBufferReg : BitVec generics.word
  delayCounterReg : Int
  divCounterReg : Int
  spiCsReg : Bool
  spiClkReg : Bool
  bitsCounterReg : Int
  divCounter2Reg : Int
  rxDataReg : BitVec generics.word
  deriving DecidableEq

structure Inputs (generics : Generics) where
  reset : Bool
  start : Bool
  dataTxIn : BitVec generics.word
  delayConstant : Int := 12
  spiMisoIn : Bool

variable {generics : Generics}

/-! ### The ASM -/

structure AsmSignals (generics : Generics) where
  stateNext : StateType
  endSignal : Bool
  loadTxBuffer : Bool
  spiCsNext : Bool
  startDelay : Bool
  rxDataNext : BitVec generics.word

/-- The default values at the head of `next_logic_process`. Only the next state
has none: every branch of the case assigns it. -/
def asmDefaults (registers : Registers generics) (stateNext : StateType) :
    AsmSignals generics :=
  { stateNext := stateNext
    endSignal := false
    loadTxBuffer := false
    spiCsNext := false
    startDelay := false
    rxDataNext := registers.rxDataReg }

def nextLogicProcess (start : Bool) (registers : Registers generics) : AsmSignals generics :=
  match registers.stateReg with
  | .idle =>
      asmDefaults registers (if start then .initTxState else .idle)
  | .initTxState =>
      { asmDefaults registers .communicationState with loadTxBuffer := true }
  | .communicationState =>
      { asmDefaults registers
          (if registers.bitsCounterReg < generics.word * 2 then .communicationState
            else .storeRxState) with
        spiCsNext := true
        startDelay := true }
  | .storeRxState =>
      { asmDefaults registers .endState with rxDataNext := registers.rxBufferReg }
  | .endState =>
      { asmDefaults registers (if start then .endState else .idle) with endSignal := true }

def startDelay (input : Inputs generics) (registers : Registers generics) : Bool :=
  (nextLogicProcess input.start registers).startDelay

def loadTxBuffer (input : Inputs generics) (registers : Registers generics) : Bool :=
  (nextLogicProcess input.start registers).loadTxBuffer

/-! ### Delay counter and clock dividers -/

def shift (generics : Generics) : Int :=
  if generics.cpha = false then -generics.clkDiv else 0

def delayCounterNext (input : Inputs generics) (registers : Registers generics) : Int :=
  if startDelay input registers then registers.delayCounterReg + 1 else 0

def delayCounterEnd (input : Inputs generics) (registers : Registers generics) : Bool :=
  decide (registers.delayCounterReg > input.delayConstant)

def delayCounterShiftEnd (input : Inputs generics) (registers : Registers generics) : Bool :=
  decide (registers.delayCounterReg > input.delayConstant + shift generics)

def enDivCounter (input : Inputs generics) (registers : Registers generics) : Bool :=
  delayCounterEnd input registers

def enDivCounterShift (input : Inputs generics) (registers : Registers generics) : Bool :=
  delayCounterShiftEnd input registers

def divCounterNext (input : Inputs generics) (registers : Registers generics) : Int :=
  Divider.next generics.clkDiv (enDivCounter input registers) registers.divCounterReg

def divClkPulse (input : Inputs generics) (registers : Registers generics) : Bool :=
  Divider.pulse (enDivCounter input registers) registers.divCounterReg

def divCounter2Next (input : Inputs generics) (registers : Registers generics) : Int :=
  Divider.next (generics.clkDiv * 2) (enDivCounterShift input registers) registers.divCounter2Reg

def divClk2Pulse (input : Inputs generics) (registers : Registers generics) : Bool :=
  Divider.pulse (enDivCounterShift input registers) registers.divCounter2Reg

/-! ### SPI clock toggle and bit counter -/

def startSclk (input : Inputs generics) (registers : Registers generics) : Bool :=
  delayCounterShiftEnd input registers && divClkPulse input registers

def spiClkNext (input : Inputs generics) (registers : Registers generics) : Bool :=
  if startDelay input registers then
    if startSclk input registers then !registers.spiClkReg else registers.spiClkReg
  else registers.spiClkReg

def bitsCounterNext (input : Inputs generics) (registers : Registers generics) : Int :=
  if startDelay input registers then
    if startSclk input registers then registers.bitsCounterReg + 1 else registers.bitsCounterReg
  else 0

/-! ### Transmit and receive registers -/

def enTx (input : Inputs generics) (registers : Registers generics) : Bool :=
  delayCounterEnd input registers && divClk2Pulse input registers

def txBufferNext (input : Inputs generics) (registers : Registers generics) :
    BitVec generics.word :=
  if loadTxBuffer input registers then input.dataTxIn
  -- the bit at 'high drops out and the new one enters at index 0
  else if enTx input registers then registers.txBufferReg.shiftConcat false
  else registers.txBufferReg

def rxBufferNext (input : Inputs generics) (registers : Registers generics) :
    BitVec generics.word :=
  if loadTxBuffer input registers then registers.rxBufferReg
  else if enTx input registers then registers.rxBufferReg.shiftConcat input.spiMisoIn
  else registers.rxBufferReg

/-! ### Register process and output ports -/

def resetRegisters (generics : Generics) : Registers generics :=
  { stateReg := .idle
    txBufferReg := 0
    rxBufferReg := 0
    delayCounterReg := 0
    divCounterReg := 0
    spiCsReg := false
    spiClkReg := generics.cpol
    bitsCounterReg := 0
    divCounter2Reg := 0
    rxDataReg := 0 }

def nextRegisters (input : Inputs generics) (registers : Registers generics) :
    Registers generics :=
  { stateReg := (nextLogicProcess input.start registers).stateNext
    txBufferReg := txBufferNext input registers
    rxBufferReg := rxBufferNext input registers
    delayCounterReg := delayCounterNext input registers
    divCounterReg := divCounterNext input registers
    spiCsReg := (nextLogicProcess input.start registers).spiCsNext
    spiClkReg := spiClkNext input registers
    bitsCounterReg := bitsCounterNext input registers
    divCounter2Reg := divCounter2Next input registers
    rxDataReg := (nextLogicProcess input.start registers).rxDataNext }

/-- `reg_process`: the reset branch comes first, for a level and at an edge. -/
def regProcess (generics : Generics) : Machine (Inputs generics) (Registers generics) :=
  { resetState := resetRegisters generics
    reset := Inputs.reset
    next := nextRegisters }

def spiMosiOut (registers : Registers generics) : Bool := registers.txBufferReg.msb

def dataRxOut (input : Inputs generics) (registers : Registers generics) :
    BitVec generics.word :=
  (nextLogicProcess input.start registers).rxDataNext

def spiCsOut (registers : Registers generics) : Bool := registers.spiCsReg

def spiClkOut (registers : Registers generics) : Bool := registers.spiClkReg

def endSignal (input : Inputs generics) (registers : Registers generics) : Bool :=
  (nextLogicProcess input.start registers).endSignal

/-! ### The ports over a run -/

section Run

variable (inputs : Nat → Inputs generics) (cycle : Nat)

def registersAt : Registers generics := (regProcess generics).run inputs cycle

def stateAt : StateType := (registersAt inputs cycle).stateReg

def mosi : Bool := spiMosiOut (registersAt inputs cycle)

def chipSelect : Bool := spiCsOut (registersAt inputs cycle)

def sclk : Bool := spiClkOut (registersAt inputs cycle)

def dataRx : BitVec generics.word := dataRxOut (inputs cycle) (registersAt inputs cycle)

def ended : Bool := endSignal (inputs cycle) (registersAt inputs cycle)

end Run

/-- No reset from one cycle to another, both included. -/
abbrev Quiet (inputs : Nat → Inputs generics) (first last : Nat) : Prop :=
  (regProcess generics).Quiet inputs first last

/-- The input stream of a concrete run: no reset, one word and one delay held. -/
def steadyInputs (generics : Generics) (start : Nat → Bool) (word : BitVec generics.word)
    (delay : Nat) (miso : Nat → Bool) (cycle : Nat) : Inputs generics :=
  { reset := false
    start := start cycle
    dataTxIn := word
    delayConstant := delay
    spiMisoIn := miso cycle }

/-! ### What the ASM drives in each state -/

section Asm

variable (start : Bool) (input : Inputs generics) (registers : Registers generics)

@[simp] theorem startDelay_eq :
    startDelay input registers = decide (registers.stateReg = .communicationState) := by
  unfold startDelay nextLogicProcess
  cases registers.stateReg <;> rfl

@[simp] theorem loadTxBuffer_eq :
    loadTxBuffer input registers = decide (registers.stateReg = .initTxState) := by
  unfold loadTxBuffer nextLogicProcess
  cases registers.stateReg <;> rfl

@[simp] theorem endSignal_eq :
    endSignal input registers = decide (registers.stateReg = .endState) := by
  unfold endSignal nextLogicProcess
  cases registers.stateReg <;> rfl

@[simp] theorem spiCsNext_eq :
    (nextLogicProcess start registers).spiCsNext =
      decide (registers.stateReg = .communicationState) := by
  unfold nextLogicProcess
  cases registers.stateReg <;> rfl

@[simp] theorem rxDataNext_eq :
    (nextLogicProcess start registers).rxDataNext =
      if registers.stateReg = .storeRxState then registers.rxBufferReg
      else registers.rxDataReg := by
  unfold nextLogicProcess
  cases registers.stateReg <;> rfl

theorem stateNext_eq :
    (nextLogicProcess start registers).stateNext =
      match registers.stateReg with
      | .idle => if start then .initTxState else .idle
      | .initTxState => .communicationState
      | .communicationState =>
          if registers.bitsCounterReg < generics.word * 2 then .communicationState
          else .storeRxState
      | .storeRxState => .endState
      | .endState => if start then .endState else .idle := by
  unfold nextLogicProcess
  cases registers.stateReg <;> rfl

/-- The successor state is the only field that reads `start`. -/
theorem nextRegisters_stateReg :
    (nextRegisters input registers).stateReg =
      match registers.stateReg with
      | .idle => if input.start then .initTxState else .idle
      | .initTxState => .communicationState
      | .communicationState =>
          if registers.bitsCounterReg < generics.word * 2 then .communicationState
          else .storeRxState
      | .storeRxState => .endState
      | .endState => if input.start then .endState else .idle :=
  stateNext_eq input.start registers

end Asm

/-! ### The ASM chart -/

/-- From which state the ASM goes to which, and under what condition. -/
inductive AsmArrow (start : Bool) (unfinished : Prop) : StateType → StateType → Prop where
  | waits (low : start = false) : AsmArrow start unfinished .idle .idle
  | begins (high : start = true) : AsmArrow start unfinished .idle .initTxState
  | loads : AsmArrow start unfinished .initTxState .communicationState
  | shifts (more : unfinished) :
      AsmArrow start unfinished .communicationState .communicationState
  | finishes (complete : ¬unfinished) :
      AsmArrow start unfinished .communicationState .storeRxState
  | stores : AsmArrow start unfinished .storeRxState .endState
  | holds (high : start = true) : AsmArrow start unfinished .endState .endState
  | rearms (low : start = false) : AsmArrow start unfinished .endState .idle

theorem nextRegisters_arrow (input : Inputs generics) (registers : Registers generics) :
    AsmArrow input.start (registers.bitsCounterReg < generics.word * 2) registers.stateReg
      (nextRegisters input registers).stateReg := by
  rw [nextRegisters_stateReg]
  cases registers.stateReg with
  | idle =>
      cases level : input.start with
      | false => exact .waits rfl
      | true => exact .begins rfl
  | initTxState => exact .loads
  | communicationState =>
      dsimp only
      split
      next more => exact .shifts more
      next complete => exact .finishes complete
  | storeRxState => exact .stores
  | endState =>
      cases level : input.start with
      | false => exact .rearms rfl
      | true => exact .holds rfl

namespace AsmArrow

variable {start : Bool} {unfinished : Prop} {state : StateType}

theorem to_idle (arrow : AsmArrow start unfinished state .idle) :
    start = false ∧ (state = .idle ∨ state = .endState) := by
  cases arrow with
  | waits low => exact ⟨low, Or.inl rfl⟩
  | rearms low => exact ⟨low, Or.inr rfl⟩

theorem to_comm (arrow : AsmArrow start unfinished state .communicationState) :
    state = .initTxState ∨ state = .communicationState := by
  cases arrow with
  | loads => exact Or.inl rfl
  | shifts _more => exact Or.inr rfl

theorem to_store (arrow : AsmArrow start unfinished state .storeRxState) :
    state = .communicationState := by
  cases arrow with
  | finishes _complete => rfl

theorem from_comm (arrow : AsmArrow start unfinished .communicationState state) :
    state = .communicationState ∨ state = .storeRxState := by
  cases arrow with
  | shifts _more => exact Or.inl rfl
  | finishes _complete => exact Or.inr rfl

theorem from_end (arrow : AsmArrow start unfinished .endState state) :
    start = true ∧ state = .endState ∨ start = false ∧ state = .idle := by
  cases arrow with
  | holds high => exact Or.inl ⟨high, rfl⟩
  | rearms low => exact Or.inr ⟨low, rfl⟩

end AsmArrow

section Steps

variable {inputs : Nat → Inputs generics} {cycle : Nat}

theorem registersAt_succ (low : (inputs cycle).reset = false)
    (lowAfter : (inputs (cycle + 1)).reset = false) :
    registersAt inputs (cycle + 1) = nextRegisters (inputs cycle) (registersAt inputs cycle) :=
  Machine.run_succ cycle low lowAfter

theorem registersAt_of_reset (high : (inputs cycle).reset = true) :
    registersAt inputs cycle = resetRegisters generics :=
  Machine.run_of_reset cycle high

theorem registersAt_succ_of_reset (high : (inputs cycle).reset = true) :
    registersAt inputs (cycle + 1) = resetRegisters generics :=
  Machine.run_succ_of_reset cycle high

/-- A reset shows in the state, so any other state was reached by a clock edge. -/
theorem registersAt_succ_of_ne_idle (notIdle : stateAt inputs (cycle + 1) ≠ .idle) :
    (inputs cycle).reset = false ∧ (inputs (cycle + 1)).reset = false ∧
      registersAt inputs (cycle + 1) =
        nextRegisters (inputs cycle) (registersAt inputs cycle) := by
  rcases Machine.run_succ_cases (regProcess generics) inputs cycle with
    cleared | advanced
  · have atIdle : stateAt inputs (cycle + 1) = .idle :=
      congrArg Registers.stateReg cleared
    exact absurd atIdle notIdle
  · exact advanced

theorem stateAt_succ (low : (inputs cycle).reset = false)
    (lowAfter : (inputs (cycle + 1)).reset = false) :
    stateAt inputs (cycle + 1) =
      match stateAt inputs cycle with
      | .idle => if (inputs cycle).start then .initTxState else .idle
      | .initTxState => .communicationState
      | .communicationState =>
          if (registersAt inputs cycle).bitsCounterReg < generics.word * 2 then
            .communicationState
          else .storeRxState
      | .storeRxState => .endState
      | .endState => if (inputs cycle).start then .endState else .idle := by
  unfold stateAt
  rw [registersAt_succ low lowAfter]
  exact nextRegisters_stateReg _ _

theorem stateAt_arrow (low : (inputs cycle).reset = false)
    (lowAfter : (inputs (cycle + 1)).reset = false) :
    AsmArrow (inputs cycle).start
      ((registersAt inputs cycle).bitsCounterReg < generics.word * 2) (stateAt inputs cycle)
      (stateAt inputs (cycle + 1)) := by
  unfold stateAt
  rw [registersAt_succ low lowAfter]
  exact nextRegisters_arrow _ _

/-- The receive port changes in `store_rx_state` only. -/
theorem dataRx_succ (low : (inputs cycle).reset = false)
    (lowAfter : (inputs (cycle + 1)).reset = false)
    (notStore : stateAt inputs (cycle + 1) ≠ .storeRxState) :
    dataRx inputs (cycle + 1) = dataRx inputs cycle := by
  have shown : dataRx inputs (cycle + 1) = (registersAt inputs (cycle + 1)).rxDataReg := by
    rw [dataRx, dataRxOut, rxDataNext_eq]
    exact if_neg notStore
  rw [shown, registersAt_succ low lowAfter]
  rfl

theorem Quiet.low {first last : Nat} (quiet : Quiet inputs first last) (cycle : Nat)
    (lower : first ≤ cycle) (upper : cycle ≤ last) : (inputs cycle).reset = false :=
  quiet cycle lower upper

theorem Quiet.registersAt_succ {first last : Nat} (quiet : Quiet inputs first last)
    (cycle : Nat)
    (lower : first ≤ cycle) (upper : cycle < last) :
    registersAt inputs (cycle + 1) = nextRegisters (inputs cycle) (registersAt inputs cycle) :=
  Machine.Quiet.run_succ quiet lower upper

theorem Quiet.stateAt_succ {first last : Nat} (quiet : Quiet inputs first last)
    (cycle : Nat)
    (lower : first ≤ cycle) (upper : cycle < last) :
    stateAt inputs (cycle + 1) =
      match stateAt inputs cycle with
      | .idle => if (inputs cycle).start then .initTxState else .idle
      | .initTxState => .communicationState
      | .communicationState =>
          if (registersAt inputs cycle).bitsCounterReg < generics.word * 2 then
            .communicationState
          else .storeRxState
      | .storeRxState => .endState
      | .endState => if (inputs cycle).start then .endState else .idle :=
  Master.stateAt_succ (quiet cycle lower (Nat.le_of_lt upper))
    (quiet (cycle + 1) (Nat.le_succ_of_le lower) upper)

theorem Quiet.arrow {first last : Nat} (quiet : Quiet inputs first last) (cycle : Nat)
    (lower : first ≤ cycle) (upper : cycle < last) :
    AsmArrow (inputs cycle).start
      ((registersAt inputs cycle).bitsCounterReg < generics.word * 2) (stateAt inputs cycle)
      (stateAt inputs (cycle + 1)) :=
  stateAt_arrow (quiet.low cycle lower (Nat.le_of_lt upper))
    (quiet.low (cycle + 1) (Nat.le_succ_of_le lower) upper)

theorem Quiet.dataRx_kept {first last : Nat} (quiet : Quiet inputs first last)
    (ordered : first ≤ last)
    (notStore : ∀ between, first < between → between ≤ last →
      stateAt inputs between ≠ .storeRxState) :
    dataRx inputs last = dataRx inputs first := by
  induction last, ordered using Nat.le_induction with
  | base => rfl
  | succ last ordered ih =>
      have low := quiet.low last ordered (Nat.le_succ last)
      have lowAfter := quiet.low (last + 1) (Nat.le_succ_of_le ordered) (Nat.le_refl _)
      rw [dataRx_succ low lowAfter (notStore (last + 1) (by omega) (Nat.le_refl _))]
      exact ih (Machine.Quiet.mono quiet (Nat.le_refl _) (Nat.le_succ _))
        (fun between lower upper => notStore between lower (Nat.le_succ_of_le upper))

end Steps

end SpiFpga.Master
