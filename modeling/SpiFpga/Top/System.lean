/-
The top level, entity `spi_minimized_delay_top` with architecture `arch0`.

Six SPI master modules stand behind the registers of the processor system.  They
share the clock, the reset line and the delay register; each has its own bit of
the start register and its own transmit and receive register.  One flag, the or
of the six end signals, goes back to the processor.
-/

import SpiFpga.Master.Start

namespace SpiFpga.Top

open Clocked Master

/-- The generic map of `spi_modules_generate_dsp`. -/
def moduleGenerics : Generics :=
  { clkDiv := 3
    cpol := false
    cpha := false
    word := 16 }

/-- One period of the signals that the modules read: the reset line of the board,
the registers of the processor system and the MISO lines. -/
structure TopInputs where
  resetN : Bool
  startSpi : BitVec 6
  delaySpi : BitVec 8
  spiTx : Fin 6 → BitVec 16
  spiDspMisoIn : Fin 6 → Bool

def rst (input : TopInputs) : Bool := !input.resetN

def delaySpiInt (input : TopInputs) : Int := input.delaySpi.toNat

def portMap (index : Fin 6) (input : TopInputs) : Inputs moduleGenerics :=
  { reset := rst input
    start := input.startSpi.getLsbD index
    dataTxIn := input.spiTx index
    delayConstant := delaySpiInt input
    spiMisoIn := input.spiDspMisoIn index }

def spiModulesGenerateDsp : Machine TopInputs (Fin 6 → Registers moduleGenerics) :=
  { resetState := fun _index => resetRegisters moduleGenerics
    reset := rst
    next := fun input modules index => nextRegisters (portMap index input) (modules index) }

def endSignalSpiDspArray (input : TopInputs) (modules : Fin 6 → Registers moduleGenerics)
    (index : Fin 6) : Bool :=
  endSignal (portMap index input) (modules index)

def endSignalSpiDsp (input : TopInputs) (modules : Fin 6 → Registers moduleGenerics) : Bool :=
  endSignalSpiDspArray input modules 0 || endSignalSpiDspArray input modules 1 ||
    endSignalSpiDspArray input modules 2 || endSignalSpiDspArray input modules 3 ||
    endSignalSpiDspArray input modules 4 || endSignalSpiDspArray input modules 5

def dataDspRxArray (input : TopInputs) (modules : Fin 6 → Registers moduleGenerics)
    (index : Fin 6) : BitVec 16 :=
  dataRxOut (portMap index input) (modules index)

/-- The module behind `SPI_TX_REGISTER_0` and `SPI_RX_REGISTER_0`. -/
abbrev module0 : Fin 6 := 0

abbrev module1 : Fin 6 := 1

abbrev module2 : Fin 6 := 2

/-! ### The modules in a run -/

def modulesAt (inputs : Nat → TopInputs) (cycle : Nat) : Fin 6 → Registers moduleGenerics :=
  spiModulesGenerateDsp.run inputs cycle

def endFlag (inputs : Nat → TopInputs) (cycle : Nat) : Bool :=
  endSignalSpiDsp (inputs cycle) (modulesAt inputs cycle)

def rxRegister (inputs : Nat → TopInputs) (index : Fin 6) (cycle : Nat) : BitVec 16 :=
  dataDspRxArray (inputs cycle) (modulesAt inputs cycle) index

def moduleInputs (inputs : Nat → TopInputs) (index : Fin 6) (cycle : Nat) :
    Inputs moduleGenerics :=
  portMap index (inputs cycle)

variable {inputs : Nat → TopInputs} {index : Fin 6} {cycle : Nat}

/-- Each module runs as if it were alone with its own inputs. -/
theorem modulesAt_eq (inputs : Nat → TopInputs) (cycle : Nat) (index : Fin 6) :
    modulesAt inputs cycle index = registersAt (moduleInputs inputs index) cycle := by
  refine Machine.run_related
    (fun (modules : Fin 6 → Registers moduleGenerics) (registers : Registers moduleGenerics) =>
      modules index = registers) rfl (fun _cycle => rfl) ?_ cycle
  intro now modules registers same
  exact congrArg (nextRegisters (moduleInputs inputs index now)) same

theorem quiet_of_resetN {first last : Nat}
    (noReset : ∀ cycle, first ≤ cycle → cycle ≤ last → (inputs cycle).resetN = true)
    (index : Fin 6) : Quiet (moduleInputs inputs index) first last :=
  fun cycle lower upper => congrArg not (noReset cycle lower upper)

theorem rxRegister_eq (inputs : Nat → TopInputs) (index : Fin 6) (cycle : Nat) :
    rxRegister inputs index cycle = dataRx (moduleInputs inputs index) cycle := by
  rw [rxRegister, dataDspRxArray, modulesAt_eq]
  rfl

/-- The flag is high when any one module is in its end state. -/
theorem endFlag_iff : endFlag inputs cycle = true ↔
    ∃ index, stateAt (moduleInputs inputs index) cycle = .endState := by
  have ended : ∀ index,
      endSignalSpiDspArray (inputs cycle) (modulesAt inputs cycle) index =
        decide (stateAt (moduleInputs inputs index) cycle = .endState) := by
    intro index
    rw [endSignalSpiDspArray, endSignal_eq, modulesAt_eq]
    rfl
  simp only [endFlag, endSignalSpiDsp, ended, Bool.or_eq_true, decide_eq_true_eq, or_assoc,
    Fin.exists_fin_succ, Fin.exists_fin_zero, or_false]
  rfl

end SpiFpga.Top
