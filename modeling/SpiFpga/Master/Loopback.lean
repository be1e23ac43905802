/-
A module whose MISO is wired to its own MOSI.

The loop puts the transmit register in front of the receive register, so the two
move as one register of twice the word length.  The word that a frame delivers is
then the word it loaded, moved by the number of register shifts, whatever the
delay did meanwhile; with exactly `WORD` shifts it comes back whole.
-/

import SpiFpga.Master.LatestFrame

namespace SpiFpga.Master

open Clocked

variable {generics : Generics}

def Looped (inputs : Nat → Inputs generics) (first last : Nat) : Prop :=
  ∀ cycle, first ≤ cycle → cycle < last → (inputs cycle).spiMisoIn = mosi inputs cycle

def dataRegisters (registers : Registers generics) : BitVec (generics.word + generics.word) :=
  registers.rxBufferReg ++ registers.txBufferReg

def enTxAt (inputs : Nat → Inputs generics) (first index : Nat) : Bool :=
  enTx (inputs (first + 2 + index)) (registersAt inputs (first + 2 + index))

/-- Register shifts of a frame before one of its cycles, communication cycles
numbered from zero. -/
def shiftCount (inputs : Nat → Inputs generics) (first index : Nat) : Nat :=
  occurrences (enTxAt inputs first) index

theorem nextRegisters_dataRegisters {input : Inputs generics} {registers : Registers generics}
    (notInit : registers.stateReg ≠ .initTxState)
    (looped : input.spiMisoIn = spiMosiOut registers) :
    dataRegisters (nextRegisters input registers) =
      if enTx input registers then (dataRegisters registers).shiftConcat false
      else dataRegisters registers := by
  obtain ⟨txNext, rxNext⟩ := nextRegisters_buffers input notInit
  rw [dataRegisters, txNext, rxNext, looped]
  cases enTx input registers with
  | false => rfl
  | true =>
      simp only [if_true]
      rw [dataRegisters, shiftConcat_append generics.wordPos]
      rfl

theorem AsmArrow.to_init {start : Bool} {unfinished : Prop} {state : StateType}
    (arrow : AsmArrow start unfinished state .initTxState) : state = .idle := by
  cases arrow with
  | begins _high => rfl

variable {inputs : Nat → Inputs generics} {first index : Nat}

theorem Underway.mono {cycle between : Nat} (underway : Underway inputs first cycle)
    (after : first < between) (upTo : between ≤ cycle) : Underway inputs first between :=
  ⟨underway.begins, after, underway.quiet.mono (Nat.le_refl first) upTo,
    fun earlier lower upper => underway.active earlier lower (Nat.le_trans upper upTo)⟩

theorem Underway.notInit (underway : Underway inputs first (first + 2 + index)) :
    stateAt inputs (first + 2 + index) ≠ .initTxState := by
  have arrow := underway.quiet.arrow (first + 1 + index) (by omega) (by omega)
  have position : first + 1 + index + 1 = first + 2 + index := by omega
  rw [position] at arrow
  intro loads
  rw [loads] at arrow
  exact underway.active (first + 1 + index) (by omega) (by omega) arrow.to_init

theorem Underway.dataRegisters_eq (underway : Underway inputs first (first + 2 + index))
    (looped : Looped inputs (first + 2) (first + 2 + index)) :
    dataRegisters (registersAt inputs (first + 2 + index)) =
      dataRegisters (registersAt inputs (first + 2)) <<< shiftCount inputs first index := by
  rw [shiftCount, ← shifted_low]
  induction index with
  | zero => rfl
  | succ index ih =>
      have before : Underway inputs first (first + 2 + index) :=
        underway.mono (by omega) (by omega)
      have step := nextRegisters_dataRegisters before.notInit
        (looped (first + 2 + index) (Nat.le_add_right _ _) (Nat.lt_succ_self _))
      rw [← underway.quiet.registersAt_succ (first + 2 + index) (by omega) (by omega),
        ih before (fun cycle lower upper => looped cycle lower (Nat.lt_succ_of_lt upper))] at step
      rw [shifted_succ]
      exact step

theorem SteadyFrame.underway (positive : 1 ≤ generics.clkDiv) {delay : Nat}
    (frame : SteadyFrame inputs first delay) :
    Underway inputs first (storeCycle generics first delay) := by
  have atStore := storeCycle_eq generics first delay
  refine ⟨frame.begins, by omega, frame.quiet, ?_⟩
  intro between lower upper atIdle
  rcases Nat.lt_or_eq_of_le upper with before | last
  · rcases frame.before_store positive lower before with loads | communicates
    · cases loads.symm.trans atIdle
    · cases communicates.symm.trans atIdle
  · rw [last, frame.stores positive] at atIdle
    cases atIdle

theorem Underway.dataRx_eq (underway : Underway inputs first (first + 2 + index))
    (stores : stateAt inputs (first + 2 + index) = .storeRxState)
    (looped : Looped inputs (first + 2) (first + 2 + index)) :
    dataRx inputs (first + 2 + index) =
      (((registersAt inputs (first + 2)).rxBufferReg ++ frameWord inputs first) <<<
        shiftCount inputs first index).extractLsb' generics.word generics.word := by
  have loaded := txBuffer_loaded underway.begins
    (underway.quiet.mono (Nat.le_refl first) (Nat.le_add_right _ _))
  have delivered : dataRx inputs (first + 2 + index) =
      (dataRegisters (registersAt inputs (first + 2 + index))).extractLsb'
        generics.word generics.word := by
    rw [dataRx, dataRxOut, rxDataNext_eq, dataRegisters, BitVec.extractLsb'_append_eq_left]
    exact if_pos stores
  rw [delivered, underway.dataRegisters_eq looped, dataRegisters, loaded]

/-- Whatever the delay does, the loop loses no bit and adds none but zeros: the
word delivered is cut out of the registers as they were loaded, moved up by one
place for each shift. -/
theorem loopback_received (inputs : Nat → Inputs generics) (first index : Nat)
    (underway : Underway inputs first (first + 2 + index))
    (stores : stateAt inputs (first + 2 + index) = .storeRxState)
    (looped : Looped inputs (first + 2) (first + 2 + index)) :
    dataRx inputs (first + 2 + index) =
      (((registersAt inputs (first + 2)).rxBufferReg ++ frameWord inputs first) <<<
        shiftCount inputs first index).extractLsb' generics.word generics.word :=
  underway.dataRx_eq stores looped

def twoBits : Generics := { clkDiv := 2, word := 2, wordPos := Nat.two_pos }

def twoBitLoop : Nat → Inputs twoBits :=
  steadyInputs twoBits (fun _cycle => true) 2 2 (fun cycle => decide (cycle < 8))

theorem twoBitLoop_looped : Looped twoBitLoop 2 13 := by
  have wired : ∀ cycle, cycle < 13 → 2 ≤ cycle →
      (twoBitLoop cycle).spiMisoIn = mosi twoBitLoop cycle := by decide
  exact fun cycle lower upper => wired cycle upper lower

theorem loopback_received_twoBits :
    dataRx twoBitLoop 13 =
      (((registersAt twoBitLoop 2).rxBufferReg ++ frameWord twoBitLoop 0) <<<
        shiftCount twoBitLoop 0 11).extractLsb' 2 2 :=
  have frame : SteadyFrame twoBitLoop 0 2 := steadyInputs_frame twoBits _ _ 2 _ rfl
  loopback_received twoBitLoop 0 11 (frame.underway (by decide)) (frame.stores (by decide))
    twoBitLoop_looped

theorem dataRx_of_looped (underway : Underway inputs first (first + 2 + index))
    (stores : stateAt inputs (first + 2 + index) = .storeRxState)
    (looped : Looped inputs (first + 2) (first + 2 + index))
    (whole : shiftCount inputs first index = generics.word) :
    dataRx inputs (first + 2 + index) = frameWord inputs first := by
  rw [underway.dataRx_eq stores looped, whole]
  apply BitVec.eq_of_getLsbD_eq
  intro place inWord
  have inBoth : generics.word + place < generics.word + generics.word := by omega
  simp [inWord, inBoth, BitVec.getElem_append]

namespace SteadyFrame

variable {delay : Nat}

theorem shiftCount_eq_word (two : 2 ≤ generics.clkDiv) (frame : SteadyFrame inputs first delay)
    (aligned : Aligned generics delay) :
    shiftCount inputs first (lastIndex generics delay + 1) = generics.word := by
  have positive : 1 ≤ generics.clkDiv := by omega
  rw [← shiftCount_complete two delay,
    ← frame.shiftCount_eq positive aligned (Nat.le_refl (lastIndex generics delay + 1))]
  apply occurrences_congr
  intro index before
  have inRange : index ≤ lastIndex generics delay + 1 := Nat.le_of_lt before
  exact (frame.data positive aligned inRange).enTx (frame.clock positive inRange)

/-- The loop echoes the word in either clock phase. -/
theorem echoes (two : 2 ≤ generics.clkDiv) (frame : SteadyFrame inputs first delay)
    (aligned : Aligned generics delay)
    (looped : Looped inputs (first + 2) (storeCycle generics first delay)) :
    dataRx inputs (storeCycle generics first delay) = frameWord inputs first := by
  have positive : 1 ≤ generics.clkDiv := by omega
  have underway := frame.underway positive
  have stores := frame.stores positive
  rw [storeCycle_eq] at looped underway stores ⊢
  exact dataRx_of_looped underway stores looped (frame.shiftCount_eq_word two aligned)

end SteadyFrame

end SpiFpga.Master
