/-
The two ends of the link to the DSP.

`spi_init` of the DSP program chooses the clocking scheme of its SPI peripheral,
and the generic map of the top level chooses the phase of the masters.  The
masters change MOSI together with each falling edge.  A slave that latches on
falling edges is given a bit that is just leaving; one that latches on rising
edges is given every bit half a period before and after.
-/

import SpiFpga.Master.Duplex
import SpiFpga.Top.Completion

namespace SpiFpga.Top

open Clocked Master

structure ClockingScheme where
  clkPolarity : Bool
  clkPhase : Bool
  deriving DecidableEq

/-- The scheme that `spi_init` sets, a rising edge without delay. -/
def spiInit : ClockingScheme :=
  { clkPolarity := false
    clkPhase := false }

inductive SclkEdge where
  | rising
  | falling
  deriving DecidableEq

/-- The number in its frame of the edge on which a slave latches a bit. With
`cpol = '0'` the even edges rise and the odd ones fall. -/
def SclkEdge.number (edge : SclkEdge) (index : Nat) : Nat :=
  match edge with
  | .rising => 2 * index
  | .falling => 2 * index + 1

/-- MOSI carries each bit in the last cycle before the edge that latches it, and
still in the cycle in which the edge appears. -/
def TransmitFits (edge : SclkEdge) {generics : Generics} (inputs : Nat → Inputs generics)
    (first delay : Nat) : Prop :=
  ∀ index, index < generics.word →
    mosi inputs (edgeCycle generics first delay (edge.number index) - 1) =
        (frameWord inputs first).getLsbD (generics.word - 1 - index) ∧
      mosi inputs (edgeCycle generics first delay (edge.number index)) =
        (frameWord inputs first).getLsbD (generics.word - 1 - index)

section Phase

variable {generics : Generics} {inputs : Nat → Inputs generics} {first delay : Nat}

theorem mosi_at_trailing (positive : 1 ≤ generics.clkDiv) (phase : generics.cpha = false)
    (frame : SteadyFrame inputs first delay) (early : divisor generics ≤ delay) {index : Nat}
    (inWord : index < generics.word) :
    mosi inputs (edgeCycle generics first delay (2 * index + 1)) =
      nextBit (frameWord inputs first) index := by
  have pos := divisor_pos positive
  have atEdge := shift_at_trailing phase first delay index
  have within : edgeCycle generics first delay (2 * index + 1) < storeCycle generics first delay :=
    edge_within positive (by omega)
  rw [← atEdge, storeCycle_eq] at within
  rw [← atEdge, Nat.add_assoc (first + 2)]
  refine frame.mosi_next positive (Or.inr early) (by omega) ?_ inWord
  apply occurrences_opensAt_eq (by omega)
  · omega
  · rw [Nat.mul_succ (divisor generics * 2)]
    omega

theorem transmitFits_rising (positive : 1 ≤ generics.clkDiv) (phase : generics.cpha = false)
    (frame : SteadyFrame inputs first delay) (early : divisor generics ≤ delay) :
    TransmitFits .rising inputs first delay := by
  have pos := divisor_pos positive
  intro index inWord
  have leading : SclkEdge.rising.number index = 2 * index := rfl
  rw [leading]
  exact ⟨frame.sends positive phase early inWord (by omega) (by omega),
    frame.sends positive phase early inWord (by omega) (by omega)⟩

theorem transmitFits_falling_iff (positive : 1 ≤ generics.clkDiv) (phase : generics.cpha = false)
    (frame : SteadyFrame inputs first delay) (early : divisor generics ≤ delay) :
    TransmitFits .falling inputs first delay ↔ frameWord inputs first = 0 := by
  have pos := divisor_pos positive
  rw [← nextBit_eq_iff]
  constructor
  · intro fits index inWord
    rw [← mosi_at_trailing positive phase frame early inWord]
    exact (fits index inWord).2
  · intro same index inWord
    have trailing : edgeCycle generics first delay (2 * index + 1) =
        edgeCycle generics first delay (2 * index) + divisor generics := edgeCycle_succ _ _ _
    have before : mosi inputs (edgeCycle generics first delay (2 * index + 1) - 1) =
        (frameWord inputs first).getLsbD (generics.word - 1 - index) :=
      frame.sends positive phase early inWord (by omega) (by omega)
    exact ⟨before, (mosi_at_trailing positive phase frame early inWord).trans (same index inWord)⟩

end Phase

/-- Which edges latch is documented for the peripheral; for the scheme of `spi_init`
they are the falling ones. -/
theorem transmit_fits_iff (latches : ClockingScheme → SclkEdge)
    (documented : latches spiInit = .falling) (inputs : Nat → TopInputs) (index : Fin 6)
    (first delay : Nat) (range : 3 ≤ delay)
    (frame : SteadyFrame (moduleInputs inputs index) first delay) :
    TransmitFits (latches spiInit) (moduleInputs inputs index) first delay ↔
      frameWord (moduleInputs inputs index) first = 0 := by
  rw [documented]
  exact transmitFits_falling_iff (by decide) rfl frame range

def latchEdge (scheme : ClockingScheme) : SclkEdge :=
  if scheme.clkPolarity = scheme.clkPhase then .falling else .rising

theorem transmit_fits_iff_startedLater :
    TransmitFits (latchEdge spiInit) (moduleInputs startedLater 0) 0 3 ↔
      frameWord (moduleInputs startedLater 0) 0 = 0 :=
  transmit_fits_iff latchEdge rfl startedLater 0 0 3 (Nat.le_refl 3) startedLater_frame

/-- The word ten has left the line by one place when it is latched. -/
theorem transmit_misfits :
    ¬∀ (latches : ClockingScheme → SclkEdge), latches spiInit = .falling →
      ∀ (inputs : Nat → TopInputs) (index : Fin 6) (first delay : Nat), 3 ≤ delay →
        SteadyFrame (moduleInputs inputs index) first delay →
        TransmitFits (latches spiInit) (moduleInputs inputs index) first delay := by
  intro claimed
  have fits := claimed latchEdge rfl startedLater 0 0 3 (Nat.le_refl 3) startedLater_frame
  have zero := (transmitFits_falling_iff (by decide) rfl startedLater_frame (by decide)).mp fits
  exact absurd zero (by decide)

end SpiFpga.Top
