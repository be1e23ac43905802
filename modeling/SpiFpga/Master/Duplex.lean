/-
Both directions of a frame under a delay that is held.

The shift gate opens one divider range before the clock gate, or together with
it, and every second divider range after that the word moves by one place.  With
`cpha = '0'` a shift falls on every trailing edge: the bit that leaves was on the
line around the leading edge, and the bit that enters was there just before the
trailing one.
-/

import Mathlib.Tactic.Ring
import SpiFpga.Master.Steady

namespace SpiFpga.Master

open Clocked

variable {generics : Generics}

/-! ### The shifts of the frame -/

def shiftStart (generics : Generics) (delay : Nat) : Nat :=
  if generics.cpha then delay + 1 else delay + 1 + divisor generics

/-- The shift gate does not open before the frame. -/
def Aligned (generics : Generics) (delay : Nat) : Prop :=
  generics.cpha = true ∨ divisor generics ≤ delay

namespace SteadyFrame

variable {inputs : Nat → Inputs generics} {first delay index : Nat}

theorem armed_eq (positive : 1 ≤ generics.clkDiv) (frame : SteadyFrame inputs first delay)
    (aligned : Aligned generics delay) (inRange : index ≤ lastIndex generics delay) :
    armed generics (frameDelay inputs first) index =
      opensAt (if generics.cpha then delay + 1 else delay + 1 - divisor generics) index := by
  have width : ((divisor generics : Nat) : Int) = generics.clkDiv := divisor_cast (by omega)
  rw [armed, opensAt, frame.held.frameDelay_eq (beforeStore inRange), decide_eq_decide, shift]
  rcases aligned with phase | early
  · simp only [phase, Bool.true_eq_false, if_false, if_true]
    omega
  · cases generics.cpha with
    | true =>
        simp only [Bool.true_eq_false, if_false, if_true]
        omega
    | false =>
        simp only [Bool.false_eq_true, if_false, if_true]
        omega

theorem shifts_eq (positive : 1 ≤ generics.clkDiv) (frame : SteadyFrame inputs first delay)
    (aligned : Aligned generics delay) (inRange : index ≤ lastIndex generics delay) :
    shifts generics (frameDelay inputs first) index =
      pulses (divisor generics * 2) (opensAt (shiftStart generics delay)) index := by
  have pos := divisor_pos positive
  have gate : pulses (divisor generics * 2) (armed generics (frameDelay inputs first)) index =
      pulses (divisor generics * 2)
        (opensAt (if generics.cpha then delay + 1 else delay + 1 - divisor generics)) index :=
    pulses_congr (fun _earlier before =>
      frame.armed_eq positive aligned (Nat.le_trans before inRange))
  rw [shifts, gate, frame.held.expired_eq (beforeStore inRange), Bool.eq_iff_iff,
    Bool.and_eq_true, opensAt, decide_eq_true_eq, pulses_opensAt, pulses_opensAt, shiftStart]
  rcases Bool.eq_false_or_eq_true generics.cpha with phase | phase
  · rw [phase, if_pos rfl, if_pos rfl]
    constructor
    · intro both
      exact both.2
    · intro shifted
      obtain ⟨number, position⟩ := shifted
      exact ⟨by omega, number, position⟩
  · have early : divisor generics ≤ delay := aligned.resolve_left (by rw [phase]; simp)
    rw [phase, if_neg Bool.false_ne_true, if_neg Bool.false_ne_true]
    constructor
    · intro both
      obtain ⟨isOver, number, position⟩ := both
      cases number with
      | zero => omega
      | succ number =>
          rw [Nat.mul_succ] at position
          exact ⟨number, by omega⟩
    · intro shifted
      obtain ⟨number, position⟩ := shifted
      refine ⟨by omega, number + 1, ?_⟩
      rw [Nat.mul_succ]
      omega

theorem shiftCount_eq (positive : 1 ≤ generics.clkDiv) (frame : SteadyFrame inputs first delay)
    (aligned : Aligned generics delay) (inRange : index ≤ lastIndex generics delay + 1) :
    occurrences (shifts generics (frameDelay inputs first)) index =
      occurrences (pulses (divisor generics * 2) (opensAt (shiftStart generics delay))) index :=
  occurrences_congr (fun _earlier before => frame.shifts_eq positive aligned (by omega))

theorem unarmed (positive : 1 ≤ generics.clkDiv) (frame : SteadyFrame inputs first delay)
    (aligned : Aligned generics delay) : armed generics (frameDelay inputs first) 0 = false := by
  rw [frame.armed_eq positive aligned (Nat.zero_le _)]
  apply decide_eq_false
  rcases aligned with phase | early
  · rw [phase, if_pos rfl]
    omega
  · split <;> omega

theorem frameDelay_nonneg (frame : SteadyFrame inputs first delay) :
    0 ≤ frameDelay inputs first 0 := by
  rw [frame.held.frameDelay_eq (beforeStore (Nat.zero_le _))]
  exact Int.natCast_nonneg delay

theorem data (positive : 1 ≤ generics.clkDiv) (frame : SteadyFrame inputs first delay)
    (aligned : Aligned generics delay) (inRange : index ≤ lastIndex generics delay + 1) :
    DataTrace inputs first index := by
  have tracedTo : ∀ index, index ≤ lastIndex generics delay → DataTrace inputs first index :=
    fun index inRange =>
      dataTrace positive frame.begins frame.frameDelay_nonneg (frame.unarmed positive aligned)
        (frame.held.unfinished positive (Nat.le_of_lt (beforeStore inRange)) inRange)
        (frame.quiet_upTo (Nat.le_succ_of_le inRange))
  rcases Nat.lt_or_eq_of_le inRange with before | afterLast
  · exact tracedTo index (Nat.le_of_lt_succ before)
  · rw [afterLast]
    exact (tracedTo _ (Nat.le_refl _)).succ positive (frame.clock positive (Nat.le_succ _))
      (frame.communicates positive (Nat.le_refl _)) (frame.quiet_upTo (Nat.le_refl _))

/-- The line shows the word from its high end, one place further after each shift. -/
theorem mosi_eq (positive : 1 ≤ generics.clkDiv) (frame : SteadyFrame inputs first delay)
    (aligned : Aligned generics delay) (inRange : index ≤ lastIndex generics delay + 1)
    {count : Nat}
    (counted : occurrences
      (pulses (divisor generics * 2) (opensAt (shiftStart generics delay))) index = count)
    (kept : count < generics.word) :
    mosi inputs (first + 2 + index) =
      (frameWord inputs first).getLsbD (generics.word - 1 - count) := by
  rw [← frame.shiftCount_eq positive aligned inRange] at counted
  rw [mosi, spiMosiOut, (frame.data positive aligned inRange).txBuffer,
    shifted_msb _ _ _ (by rw [counted]; exact kept), counted]

theorem txBuffer_spent (positive : 1 ≤ generics.clkDiv) (frame : SteadyFrame inputs first delay)
    (aligned : Aligned generics delay) (inRange : index ≤ lastIndex generics delay + 1)
    (spent : generics.word ≤ occurrences
      (pulses (divisor generics * 2) (opensAt (shiftStart generics delay))) index) :
    (registersAt inputs (first + 2 + index)).txBufferReg = 0 := by
  rw [← frame.shiftCount_eq positive aligned inRange] at spent
  rw [(frame.data positive aligned inRange).txBuffer]
  exact (shifted_eq_of_full spent).trans (shifted_zero (fun _earlier _before => rfl))

theorem mosi_spent (positive : 1 ≤ generics.clkDiv) (frame : SteadyFrame inputs first delay)
    (aligned : Aligned generics delay) (inRange : index ≤ lastIndex generics delay + 1)
    (spent : generics.word ≤ occurrences
      (pulses (divisor generics * 2) (opensAt (shiftStart generics delay))) index) :
    mosi inputs (first + 2 + index) = false := by
  rw [mosi, spiMosiOut, frame.txBuffer_spent positive aligned inRange spent]
  exact BitVec.msb_zero

theorem mosi_next (positive : 1 ≤ generics.clkDiv) (frame : SteadyFrame inputs first delay)
    (aligned : Aligned generics delay) (inRange : index ≤ lastIndex generics delay + 1)
    {count : Nat}
    (counted : occurrences
      (pulses (divisor generics * 2) (opensAt (shiftStart generics delay))) index = count + 1)
    (inWord : count < generics.word) :
    mosi inputs (first + 2 + index) = nextBit (frameWord inputs first) count := by
  unfold nextBit
  split
  next kept => exact frame.mosi_eq positive aligned inRange counted kept
  next last => exact frame.mosi_spent positive aligned inRange (by omega)

theorem shiftCount_complete (two : 2 ≤ generics.clkDiv) (delay : Nat) :
    occurrences (pulses (divisor generics * 2) (opensAt (shiftStart generics delay)))
      (lastIndex generics delay + 1) = generics.word := by
  have wordPos := generics.wordPos
  have apart : 2 ≤ divisor generics := by
    unfold divisor
    omega
  obtain ⟨number, wordEq⟩ : ∃ number, generics.word = number + 1 :=
    ⟨generics.word - 1, by omega⟩
  have span : lastIndex generics delay =
      delay + 2 + divisor generics + divisor generics * 2 * number := by
    have halves : 2 * generics.word - 1 = 2 * number + 1 := by omega
    rw [lastIndex, halves]
    ring
  have position : shiftStart generics delay = delay + 1 ∨
      shiftStart generics delay = delay + 1 + divisor generics := by
    unfold shiftStart
    split <;> omega
  rw [wordEq, span]
  apply occurrences_opensAt_eq (by omega)
  · omega
  · rw [Nat.mul_succ (divisor generics * 2)]
    omega

theorem dataRx_store (positive : 1 ≤ generics.clkDiv) (frame : SteadyFrame inputs first delay) :
    dataRx inputs (storeCycle generics first delay) =
      (registersAt inputs (storeCycle generics first delay)).rxBufferReg := by
  rw [dataRx, dataRxOut, rxDataNext_eq]
  exact if_pos (frame.stores positive)

theorem dataRx_after_store (positive : 1 ≤ generics.clkDiv)
    (frame : SteadyFrame inputs first delay)
    (lowAfter : (inputs (storeCycle generics first delay + 1)).reset = false) :
    dataRx inputs (storeCycle generics first delay + 1) =
      dataRx inputs (storeCycle generics first delay) := by
  have atStore := storeCycle_eq generics first delay
  apply dataRx_succ (frame.quiet _ (by omega) (Nat.le_refl _)) lowAfter
  rw [frame.ends positive lowAfter]
  exact StateType.noConfusion

theorem received (two : 2 ≤ generics.clkDiv) (frame : SteadyFrame inputs first delay)
    (aligned : Aligned generics delay) (inWord : index < generics.word) :
    (dataRx inputs (storeCycle generics first delay)).getLsbD (generics.word - 1 - index) =
      frameMiso inputs first (shiftStart generics delay + divisor generics * 2 * index) := by
  have positive : 1 ≤ generics.clkDiv := by omega
  have pos := divisor_pos positive
  have opened : pulses (divisor generics * 2) (opensAt (shiftStart generics delay))
      (shiftStart generics delay + divisor generics * 2 * index) = true :=
    pulses_opensAt.mpr ⟨index, rfl⟩
  have counted : occurrences
      (pulses (divisor generics * 2) (opensAt (shiftStart generics delay)))
      (shiftStart generics delay + divisor generics * 2 * index + 1) = index + 1 := by
    apply occurrences_opensAt_eq (by omega)
    · omega
    · rw [Nat.mul_succ (divisor generics * 2)]
      omega
  have total := shiftCount_complete two delay
  have before : shiftStart generics delay + divisor generics * 2 * index <
      lastIndex generics delay + 1 := by
    by_contra late
    have counts := occurrences_mono (pulses (divisor generics * 2)
      (opensAt (shiftStart generics delay))) (Nat.le_of_not_lt late)
    rw [occurrences_succ, opened, if_pos rfl] at counted
    omega
  have captured := shifted_captured (registersAt inputs (first + 2)).rxBufferReg
    (shifts generics (frameDelay inputs first)) (frameMiso inputs first) before
    (by rw [frame.shifts_eq positive aligned (by omega)]; exact opened)
  rw [frame.shiftCount_eq positive aligned (Nat.le_refl _),
    frame.shiftCount_eq positive aligned before, total, counted] at captured
  have places : generics.word - 1 - index = generics.word - (index + 1) := by omega
  rw [frame.dataRx_store positive, storeCycle_eq,
    (frame.data positive aligned (Nat.le_refl _)).rxBuffer, places]
  exact captured (by omega)

theorem chipSelect_eq (positive : 1 ≤ generics.clkDiv) (frame : SteadyFrame inputs first delay)
    {cycle : Nat} (lower : first ≤ cycle) (upper : cycle ≤ storeCycle generics first delay) :
    chipSelect inputs cycle = decide (first + 2 < cycle) := by
  have atStore := storeCycle_eq generics first delay
  by_cases early : cycle < first + 2
  · rw [decide_eq_false (by omega)]
    obtain rfl | rfl : cycle = first ∨ cycle = first + 1 := by omega
    · apply chipSelect_low <;> rw [frame.begins.1] <;> exact StateType.noConfusion
    · have atInit := (begins_enters frame.begins (frame.quiet_upTo (Nat.zero_le _))).1
      apply chipSelect_low <;> rw [atInit] <;> exact StateType.noConfusion
  · obtain ⟨index, rfl⟩ := Nat.exists_eq_add_of_le (Nat.le_of_not_lt early)
    rw [(frame.clock positive (by omega)).spiCs, decide_eq_decide]
    omega

end SteadyFrame

/-! ### Full duplex with the leading edge in the middle of the bit -/

/-- The word that MISO carries, bit by bit, in the last cycle before each trailing
edge. -/
def WordReceived (inputs : Nat → Inputs generics) (first delay : Nat)
    (word : BitVec generics.word) : Prop :=
  ∀ index, index < generics.word → word.getLsbD (generics.word - 1 - index) =
    (inputs (edgeCycle generics first delay (2 * index + 1) - 1)).spiMisoIn

theorem wordReceived_unique {inputs : Nat → Inputs generics}
    {first delay : Nat} {word word' : BitVec generics.word}
    (received : WordReceived inputs first delay word)
    (received' : WordReceived inputs first delay word') : word = word' := by
  apply BitVec.eq_of_getLsbD_eq
  intro place inWord
  have position : generics.word - 1 - (generics.word - 1 - place) = place := by omega
  have bit := received (generics.word - 1 - place) (by omega)
  have bit' := received' (generics.word - 1 - place) (by omega)
  rw [position] at bit bit'
  exact bit.trans bit'.symm

/-- Edges are numbered from zero: the even ones lead and the odd ones trail. -/
structure FullDuplexFrame (inputs : Nat → Inputs generics) (first delay : Nat) : Prop where
  communicates : ∀ cycle, first + 2 ≤ cycle → cycle < storeCycle generics first delay →
    stateAt inputs cycle = .communicationState
  stores : stateAt inputs (storeCycle generics first delay) = .storeRxState
  selects : ∀ cycle, first + 2 < cycle → cycle ≤ storeCycle generics first delay →
    chipSelect inputs cycle = true
  edges : ∀ cycle, first ≤ cycle → cycle < storeCycle generics first delay →
    (sclk inputs (cycle + 1) ≠ sclk inputs cycle ↔
      ∃ index, index < 2 * generics.word ∧ cycle + 1 = edgeCycle generics first delay index)
  spacing : ∀ index, edgeCycle generics first delay (index + 1) =
    edgeCycle generics first delay index + divisor generics
  rests : sclk inputs first = generics.cpol
  leading : ∀ index, index < generics.word →
    sclk inputs (edgeCycle generics first delay (2 * index)) = !generics.cpol
  trailing : ∀ index, index < generics.word →
    sclk inputs (edgeCycle generics first delay (2 * index + 1)) = generics.cpol
  sends : ∀ index, index < generics.word → ∀ cycle,
    edgeCycle generics first delay (2 * index) ≤ cycle + divisor generics →
    cycle < edgeCycle generics first delay (2 * index) + divisor generics →
    mosi inputs cycle = (frameWord inputs first).getLsbD (generics.word - 1 - index)
  sendsAtTrailing : ∀ cycle, first + 2 ≤ cycle → cycle < storeCycle generics first delay →
    mosi inputs (cycle + 1) ≠ mosi inputs cycle →
    ∃ index, index < generics.word ∧
      cycle + 1 = edgeCycle generics first delay (2 * index + 1)
  receives : WordReceived inputs first delay (dataRx inputs (storeCycle generics first delay))
  keeps : ∀ cycle, storeCycle generics first delay ≤ cycle → Quiet inputs first cycle →
    (∀ between, storeCycle generics first delay < between → between ≤ cycle →
      stateAt inputs between ≠ .storeRxState) →
    dataRx inputs cycle = dataRx inputs (storeCycle generics first delay)

/-- With `cpha = '0'` the shifts fall on the trailing edges. -/
theorem shift_at_trailing (phase : generics.cpha = false) (first delay index : Nat) :
    first + 2 + (shiftStart generics delay + divisor generics * 2 * index) + 1 =
      edgeCycle generics first delay (2 * index + 1) := by
  rw [shiftStart, phase, if_neg Bool.false_ne_true, edgeCycle]
  ring

theorem shiftCount_around_leading (positive : 1 ≤ generics.clkDiv)
    (phase : generics.cpha = false) {first delay index offset : Nat}
    (lower : edgeCycle generics first delay (2 * index) ≤ first + 2 + offset + divisor generics)
    (upper : first + 2 + offset < edgeCycle generics first delay (2 * index) + divisor generics) :
    occurrences (pulses (divisor generics * 2) (opensAt (shiftStart generics delay))) offset =
      index := by
  have pos := divisor_pos positive
  have here := shift_at_trailing phase first delay index
  rw [edgeCycle_succ] at here
  cases index with
  | zero =>
      apply occurrences_opensAt_zero (by omega)
      omega
  | succ index =>
      rw [Nat.mul_succ (divisor generics * 2)] at here
      apply occurrences_opensAt_eq (by omega)
      · omega
      · rw [Nat.mul_succ (divisor generics * 2)]
        omega

namespace SteadyFrame

variable {inputs : Nat → Inputs generics} {first delay index : Nat}

theorem sends (positive : 1 ≤ generics.clkDiv) (phase : generics.cpha = false)
    (frame : SteadyFrame inputs first delay) (early : divisor generics ≤ delay)
    (inWord : index < generics.word) {cycle : Nat}
    (lower : edgeCycle generics first delay (2 * index) ≤ cycle + divisor generics)
    (upper : cycle < edgeCycle generics first delay (2 * index) + divisor generics) :
    mosi inputs cycle = (frameWord inputs first).getLsbD (generics.word - 1 - index) := by
  have inFrame : edgeCycle generics first delay (2 * index + 1) <
      storeCycle generics first delay := edge_within positive (by omega)
  have afterLoad : first + 2 + divisor generics ≤
      edgeCycle generics first delay (2 * index) := by
    unfold edgeCycle
    omega
  obtain ⟨offset, rfl⟩ : ∃ offset, cycle = first + 2 + offset := ⟨cycle - (first + 2), by omega⟩
  rw [edgeCycle_succ, storeCycle_eq] at inFrame
  exact frame.mosi_eq positive (Or.inr early) (by omega)
    (shiftCount_around_leading positive phase lower upper) inWord

theorem shifts_of_mosi_changes (positive : 1 ≤ generics.clkDiv)
    (frame : SteadyFrame inputs first delay) (aligned : Aligned generics delay)
    (inRange : index ≤ lastIndex generics delay)
    (changed : mosi inputs (first + 2 + index + 1) ≠ mosi inputs (first + 2 + index)) :
    shifts generics (frameDelay inputs first) index = true := by
  by_contra still
  apply changed
  have now := (frame.data positive aligned (Nat.le_succ_of_le inRange)).txBuffer
  have after := (frame.data positive aligned (Nat.succ_le_succ inRange)).txBuffer
  rw [shifted_succ, if_neg still, ← now] at after
  exact congrArg BitVec.msb after

theorem wordReceived (two : 2 ≤ generics.clkDiv) (phase : generics.cpha = false)
    (frame : SteadyFrame inputs first delay) (early : divisor generics ≤ delay) :
    WordReceived inputs first delay (dataRx inputs (storeCycle generics first delay)) := by
  intro index inWord
  rw [frame.received two (Or.inr early) inWord, ← shift_at_trailing phase first delay index]
  rfl

theorem fullDuplex (two : 2 ≤ generics.clkDiv) (phase : generics.cpha = false)
    (frame : SteadyFrame inputs first delay) (early : divisor generics ≤ delay) :
    FullDuplexFrame inputs first delay := by
  have positive : 1 ≤ generics.clkDiv := by omega
  have atStore := storeCycle_eq generics first delay
  have level : ∀ {index : Nat}, index < 2 * generics.word →
      sclk inputs (edgeCycle generics first delay index) =
        (generics.cpol ^^ (index + 1).bodd) := by
    intro index inFrame
    rw [frame.sclk_edge positive (Nat.le_of_lt (edge_within positive inFrame)),
      frame.sclk_first two]
  refine
    { communicates := ?_
      stores := frame.stores positive
      selects := ?_
      edges := fun _cycle lower upper => frame.changes_iff_edge two lower upper
      spacing := edgeCycle_succ first delay
      rests := frame.sclk_first two
      leading := ?_
      trailing := ?_
      sends := fun _index inWord _cycle lower upper =>
        frame.sends positive phase early inWord lower upper
      sendsAtTrailing := ?_
      receives := frame.wordReceived two phase early
      keeps := ?_ }
  · intro cycle lower upper
    obtain ⟨index, rfl⟩ := Nat.exists_eq_add_of_le lower
    exact frame.communicates positive (by omega)
  · intro cycle lower upper
    rw [frame.chipSelect_eq positive (by omega) upper]
    exact decide_eq_true lower
  · intro index inWord
    rw [level (by omega), Nat.bodd_succ, Nat.bodd_mul]
    simp
  · intro index inWord
    rw [level (by omega), Nat.bodd_succ, Nat.bodd_succ, Nat.bodd_mul]
    simp
  · intro cycle lower upper changed
    obtain ⟨index, rfl⟩ := Nat.exists_eq_add_of_le lower
    have shifted := frame.shifts_of_mosi_changes positive (Or.inr early) (by omega) changed
    rw [frame.shifts_eq positive (Or.inr early) (by omega), pulses_opensAt] at shifted
    obtain ⟨number, rfl⟩ := shifted
    have atEdge := shift_at_trailing phase first delay number
    have inFrame := edge_inFrame two (Nat.le_trans (Nat.le_of_eq atEdge.symm) upper)
    exact ⟨number, by omega, atEdge⟩
  · intro cycle lower quiet notStore
    have fromStore : Quiet inputs (storeCycle generics first delay) cycle :=
      quiet.mono (by omega) (Nat.le_refl _)
    exact fromStore.dataRx_kept lower notStore

end SteadyFrame

theorem fullDuplex_frame (two : 2 ≤ generics.clkDiv) (phase : generics.cpha = false)
    (inputs : Nat → Inputs generics) (first delay : Nat)
    (frame : SteadyFrame inputs first delay) (early : generics.clkDiv ≤ delay) :
    FullDuplexFrame inputs first delay :=
  frame.fullDuplex two phase (by
    unfold divisor
    omega)

theorem fullDuplex_frame_default :
    FullDuplexFrame
      (steadyInputs {} (fun _cycle => true) 0x80000001 12 (fun cycle => cycle.bodd)) 0 12 :=
  fullDuplex_frame (by decide) rfl _ 0 12 (steadyInputs_frame {} _ _ 12 _ rfl) (by decide)

end SpiFpga.Master
