/-
The clock phase `cpha = '1'`.

By the standard both sides change on a leading edge and sample on the trailing
edge that follows.  Here the option only lets the shift gate open together with
the clock gate, so the word moves on the leading edges themselves: the first bit
leaves before its trailing edge, and the receiver samples what the slave sent
before that edge.
-/

import SpiFpga.Master.Duplex

namespace SpiFpga.Master

open Clocked

variable {generics : Generics}

/-- The slave changes on each leading edge and holds its last bit to the end. -/
def SlaveSends (inputs : Nat → Inputs generics) (first delay : Nat)
    (word : BitVec generics.word) : Prop :=
  ∀ index, index < generics.word → ∀ cycle,
    edgeCycle generics first delay (2 * index) ≤ cycle →
    cycle < edgeCycle generics first delay (2 * index + 2) →
    cycle ≤ storeCycle generics first delay →
    (inputs cycle).spiMisoIn = word.getLsbD (generics.word - 1 - index)

structure StandardPhase (inputs : Nat → Inputs generics) (first delay : Nat)
    (word : BitVec generics.word) : Prop where
  sends : ∀ index, index < generics.word →
    mosi inputs (edgeCycle generics first delay (2 * index + 1) - 1) =
      (frameWord inputs first).getLsbD (generics.word - 1 - index)
  receives : SlaveSends inputs first delay word →
    dataRx inputs (storeCycle generics first delay + 1) = word

def misoBefore (inputs : Nat → Inputs generics) (first delay : Nat) : Bool :=
  (inputs (edgeCycle generics first delay 0 - 1)).spiMisoIn

theorem shift_at_leading (phase : generics.cpha = true) (first delay index : Nat) :
    first + 2 + (shiftStart generics delay + divisor generics * 2 * index) + 1 =
      edgeCycle generics first delay (2 * index) := by
  rw [shiftStart, phase, if_pos rfl, edgeCycle]
  ring

theorem shiftCount_before_trailing (positive : 1 ≤ generics.clkDiv)
    (phase : generics.cpha = true) {first delay index offset : Nat}
    (here : first + 2 + offset + 1 = edgeCycle generics first delay (2 * index + 1)) :
    occurrences (pulses (divisor generics * 2) (opensAt (shiftStart generics delay))) offset =
      index + 1 := by
  have pos := divisor_pos positive
  have shift := shift_at_leading phase first delay index
  rw [edgeCycle_succ] at here
  apply occurrences_opensAt_eq (by omega)
  · omega
  · rw [Nat.mul_succ (divisor generics * 2)]
    omega

namespace SteadyFrame

variable {inputs : Nat → Inputs generics} {first delay index : Nat}

theorem mosi_before_trailing (positive : 1 ≤ generics.clkDiv) (phase : generics.cpha = true)
    (frame : SteadyFrame inputs first delay) (inWord : index < generics.word) :
    mosi inputs (edgeCycle generics first delay (2 * index + 1) - 1) =
      nextBit (frameWord inputs first) index := by
  have inFrame : edgeCycle generics first delay (2 * index + 1) <
      storeCycle generics first delay := edge_within positive (by omega)
  obtain ⟨offset, position⟩ : ∃ offset,
      first + 2 + offset + 1 = edgeCycle generics first delay (2 * index + 1) :=
    ⟨edgeCycle generics first delay (2 * index + 1) - (first + 3), by
      unfold edgeCycle
      omega⟩
  have counted := shiftCount_before_trailing positive phase position
  rw [← position, storeCycle_eq] at inFrame
  rw [← position, Nat.add_sub_cancel]
  exact frame.mosi_next positive (Or.inl phase) (by omega) counted inWord

/-- The first bit received is what MISO carried before the frame's first edge. -/
theorem received_first (two : 2 ≤ generics.clkDiv) (phase : generics.cpha = true)
    (frame : SteadyFrame inputs first delay) :
    (dataRx inputs (storeCycle generics first delay)).getLsbD (generics.word - 1) =
      misoBefore inputs first delay := by
  have received := frame.received two (Or.inl phase) generics.wordPos
  have position := shift_at_leading phase first delay 0
  rw [misoBefore, ← position]
  exact received

theorem received_later (two : 2 ≤ generics.clkDiv) (phase : generics.cpha = true)
    (frame : SteadyFrame inputs first delay) {word : BitVec generics.word}
    (slave : SlaveSends inputs first delay word) (inWord : index + 1 < generics.word) :
    (dataRx inputs (storeCycle generics first delay)).getLsbD
        (generics.word - 1 - (index + 1)) =
      word.getLsbD (generics.word - 1 - index) := by
  have positive : 1 ≤ generics.clkDiv := by omega
  have pos := divisor_pos positive
  have position := shift_at_leading phase first delay (index + 1)
  have inFrame : edgeCycle generics first delay (2 * (index + 1)) <
      storeCycle generics first delay := edge_within positive (by omega)
  have period : edgeCycle generics first delay (2 * index + 2) =
      edgeCycle generics first delay (2 * index) + divisor generics + divisor generics := by
    rw [edgeCycle_succ, edgeCycle_succ]
  have next : 2 * (index + 1) = 2 * index + 2 := Nat.mul_succ 2 index
  rw [next] at position inFrame
  rw [frame.received two (Or.inl phase) inWord]
  exact slave index (by omega) _ (by omega) (by omega) (by omega)

theorem sends_iff (positive : 1 ≤ generics.clkDiv) (phase : generics.cpha = true)
    (frame : SteadyFrame inputs first delay) :
    (∀ index, index < generics.word →
      mosi inputs (edgeCycle generics first delay (2 * index + 1) - 1) =
        (frameWord inputs first).getLsbD (generics.word - 1 - index)) ↔
      frameWord inputs first = 0 := by
  rw [← nextBit_eq_iff]
  constructor
  · intro sends index inWord
    rw [← sends index inWord, frame.mosi_before_trailing positive phase inWord]
  · intro sends index inWord
    rw [← sends index inWord, frame.mosi_before_trailing positive phase inWord]

theorem receives_iff (two : 2 ≤ generics.clkDiv) (phase : generics.cpha = true)
    (frame : SteadyFrame inputs first delay) {word : BitVec generics.word}
    (slave : SlaveSends inputs first delay word) :
    dataRx inputs (storeCycle generics first delay) = word ↔
      ∀ place, place < generics.word → word.getLsbD place = misoBefore inputs first delay := by
  have wordPos := generics.wordPos
  constructor
  · intro received
    have fromTop : ∀ index, index < generics.word →
        word.getLsbD (generics.word - 1 - index) = misoBefore inputs first delay := by
      intro index
      induction index with
      | zero =>
          intro _wordPos
          rw [← frame.received_first two phase, received]
          rfl
      | succ index ih =>
          intro inWord
          have later := frame.received_later two phase slave inWord
          rw [received] at later
          exact later.trans (ih (by omega))
    intro place inWord
    have found := fromTop (generics.word - 1 - place) (by omega)
    have position : generics.word - 1 - (generics.word - 1 - place) = place := by omega
    rw [position] at found
    exact found
  · intro constant
    apply BitVec.eq_of_getLsbD_eq
    intro place inWord
    obtain ⟨index, fromTop, rfl⟩ : ∃ index, index < generics.word ∧
        place = generics.word - 1 - index := ⟨generics.word - 1 - place, by omega, by omega⟩
    rw [constant _ inWord]
    cases index with
    | zero => exact frame.received_first two phase
    | succ index =>
        rw [frame.received_later two phase slave fromTop]
        exact constant _ (by omega)

end SteadyFrame

/-- Only the zero word leaves as the standard has it, and only a word of equal
bits can arrive. -/
theorem standardPhase_iff (two : 2 ≤ generics.clkDiv) (phase : generics.cpha = true)
    (inputs : Nat → Inputs generics) (first delay : Nat)
    (frame : SteadyFrame inputs first delay)
    (lowAfter : (inputs (storeCycle generics first delay + 1)).reset = false)
    (word : BitVec generics.word) :
    StandardPhase inputs first delay word ↔
      frameWord inputs first = 0 ∧
        (SlaveSends inputs first delay word → ∀ place, place < generics.word →
          word.getLsbD place = misoBefore inputs first delay) := by
  have positive : 1 ≤ generics.clkDiv := by omega
  have kept := frame.dataRx_after_store positive lowAfter
  constructor
  · intro standard
    refine ⟨(frame.sends_iff positive phase).mp standard.sends, ?_⟩
    intro slave
    exact (frame.receives_iff two phase slave).mp (kept.symm.trans (standard.receives slave))
  · intro condition
    obtain ⟨isZero, constant⟩ := condition
    refine ⟨(frame.sends_iff positive phase).mpr isZero, ?_⟩
    intro slave
    exact kept.trans ((frame.receives_iff two phase slave).mpr (constant slave))

def trailingPhase : Generics := { clkDiv := 2, cpha := true, word := 2 }

theorem standardPhase_iff_zero :
    StandardPhase (steadyInputs trailingPhase (fun _cycle => true) 0 3 (fun _cycle => true)) 0 3
        3 ↔
      frameWord (steadyInputs trailingPhase (fun _cycle => true) 0 3 (fun _cycle => true)) 0 = 0 ∧
        (SlaveSends (steadyInputs trailingPhase (fun _cycle => true) 0 3 (fun _cycle => true)) 0 3
            3 →
          ∀ place, place < trailingPhase.word → (3 : BitVec trailingPhase.word).getLsbD place =
            misoBefore (steadyInputs trailingPhase (fun _cycle => true) 0 3 (fun _cycle => true))
              0 3) :=
  standardPhase_iff (by decide) rfl _ 0 3 (steadyInputs_frame trailingPhase _ 0 3 _ rfl) rfl 3

theorem standardPhase_first_bit_lost :
    ¬∀ (generics : Generics) (inputs : Nat → Inputs generics) (first delay : Nat)
      (word : BitVec generics.word),
      2 ≤ generics.clkDiv → generics.cpha = true → SteadyFrame inputs first delay →
      (inputs (storeCycle generics first delay + 1)).reset = false →
      StandardPhase inputs first delay word := by
  intro claimed
  have standard := claimed trailingPhase
    (steadyInputs trailingPhase (fun _cycle => true) 2 0 (fun _cycle => false)) 0 0 0 (by decide)
    rfl (steadyInputs_frame trailingPhase _ 2 0 _ rfl) rfl
  have sent := standard.sends 0 (by decide)
  have lost :
      mosi (steadyInputs trailingPhase (fun _cycle => true) 2 0 (fun _cycle => false)) 5 =
        false := by
    decide
  exact absurd (lost.symm.trans sent) (by decide)

end SpiFpga.Master
