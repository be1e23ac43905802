/-
Delays that change while a frame runs.

The word and the start bit are taken over when a frame begins, but the delay is
compared in every cycle.  A new value can close both gates and open them again,
and the two dividers then restart from wherever the gates open.  The frame keeps
its word exactly when the dividers are back in phase at each opening.
-/

import SpiFpga.Clocked.TwoDividers
import SpiFpga.Master.Frame

namespace SpiFpga.Master

open Clocked

variable {generics : Generics}

structure CompletedFrame (inputs : Nat → Inputs generics) (first count : Nat) : Prop where
  begins : Begins inputs first
  quiet : Quiet inputs first (first + 2 + count)
  communicates : ∀ index, index < count →
    stateAt inputs (first + 2 + index) = .communicationState
  stores : stateAt inputs (first + 2 + count) = .storeRxState

def shiftsAt (inputs : Nat → Inputs generics) (first index : Nat) : Bool :=
  enTx (inputs (first + 2 + index)) (registersAt inputs (first + 2 + index))

/-- As many shifts as the word has bits, each in the cycle in which a trailing
edge appears; the number of an edge is the number of edges before it. -/
structure WordIntact (inputs : Nat → Inputs generics) (first count : Nat) : Prop where
  shiftCount : occurrences (shiftsAt inputs first) count = generics.word
  atTrailing : ∀ index, index < count → shiftsAt inputs first index = true →
    sclk inputs (first + 2 + index + 1) ≠ sclk inputs (first + 2 + index) ∧
      (edgeCount (sclk inputs) (first + 2) (first + 2 + index)).bodd = true

/-- Whenever the clock gate opens, the shift gate has been open for a number of
divider ranges of the other parity than the edges so far, unless the clock gate
closes again before that matters. -/
def DelayInPhase (generics : Generics) (delay : Nat → Int) (count : Nat) : Prop :=
  ∀ index, index < count → Opens (expired delay) index →
    InPhase (armed generics delay) (expired delay) (divisor generics) index ∨
      ∃ closing, ClosesFirst (armed generics delay) (expired delay) (divisor generics) index closing

namespace CompletedFrame

variable {inputs : Nat → Inputs generics} {first count index : Nat}

theorem traces (positive : 1 ≤ generics.clkDiv) (frame : CompletedFrame inputs first count)
    (nonneg : 0 ≤ frameDelay inputs first 0)
    (unarmed : armed generics (frameDelay inputs first) 0 = false) (inRange : index ≤ count) :
    ClockTrace inputs first index ∧ DataTrace inputs first index := by
  have quietTo : ∀ {index}, index ≤ count → Quiet inputs first (first + 2 + index) :=
    fun inRange => frame.quiet.mono (Nat.le_refl _) (Nat.add_le_add_left inRange _)
  induction index with
  | zero =>
      exact ⟨clockTrace_zero frame.begins (quietTo inRange) nonneg,
        dataTrace_zero frame.begins (quietTo inRange) unarmed⟩
  | succ index ih =>
      obtain ⟨clock, data⟩ := ih (Nat.le_of_succ_le inRange)
      have inComm := frame.communicates index inRange
      exact ⟨clock.succ positive inComm (quietTo inRange),
        data.succ positive clock inComm (quietTo inRange)⟩

theorem count_pos (frame : CompletedFrame inputs first count) : 0 < count := by
  have inComm := (begins_enters frame.begins
    (frame.quiet.mono (Nat.le_refl _) (Nat.le_add_right _ _))).2
  have stores := frame.stores
  cases count with
  | zero =>
      rw [Nat.add_zero, inComm] at stores
      cases stores
  | succ count => exact Nat.succ_pos count

theorem inFrame (frame : CompletedFrame inputs first count) (inRange : index ≤ count) :
    InFrame inputs (first + 2) (first + 2 + index) := by
  have positive := frame.count_pos
  refine
    { entered := frame.communicates 0 positive
      fromOutside := ?_
      after := Nat.le_add_right _ _
      within := ?_ }
  · have initState := (begins_enters frame.begins
      (frame.quiet.mono (Nat.le_refl _) (Nat.le_add_right _ _))).1
    change stateAt inputs (first + 1) ≠ .communicationState
    rw [initState]
    exact StateType.noConfusion
  · intro between lower upper
    obtain ⟨offset, rfl⟩ := Nat.exists_eq_add_of_le lower
    rcases Nat.lt_or_eq_of_le (Nat.le_trans (Nat.le_of_add_le_add_left upper) inRange) with
      inside | last
    · exact Or.inl (frame.communicates offset inside)
    · rw [last]
      exact Or.inr frame.stores

end CompletedFrame

theorem unarmed_of_wide (nonneg : 0 ≤ generics.clkDiv) {delay : Nat → Int}
    (wide : generics.clkDiv ≤ delay 0) :
    armed generics delay 0 = false ∧ 0 ≤ delay 0 := by
  refine ⟨decide_eq_false ?_, by omega⟩
  unfold shift
  split <;> omega

namespace CompletedFrame

variable {inputs : Nat → Inputs generics} {first count : Nat}

theorem schedule (two : 2 ≤ generics.clkDiv) (frame : CompletedFrame inputs first count)
    (wide : generics.clkDiv ≤ frameDelay inputs first 0) {index : Nat} (inRange : index < count) :
    shiftsAt inputs first index = shifts generics (frameDelay inputs first) index ∧
      (sclk inputs (first + 2 + index + 1) ≠ sclk inputs (first + 2 + index) ↔
        toggles generics (frameDelay inputs first) index = true) ∧
      edgeCount (sclk inputs) (first + 2) (first + 2 + index) =
        occurrences (toggles generics (frameDelay inputs first)) index := by
  have positive : 1 ≤ generics.clkDiv := by omega
  obtain ⟨unarmed, nonneg⟩ := unarmed_of_wide (by omega) wide
  obtain ⟨clock, data⟩ :=
    frame.traces positive nonneg unarmed (Nat.le_of_lt inRange)
  obtain ⟨clockNext, _dataNext⟩ := frame.traces positive nonneg unarmed inRange
  refine ⟨data.enTx clock, ?_, ?_⟩
  · have clkNext := clockNext.spiClk
    rw [Nat.add_assoc (first + 2), clkNext, clock.spiClk, occurrences_succ]
    cases toggles generics (frameDelay inputs first) index <;> simp
  · have counted := bitsCounter_eq_edgeCount (frame.inFrame (Nat.le_of_lt inRange))
    rw [clock.bitsCounter] at counted
    exact (Int.ofNat.inj counted).symm

theorem toggleCount (two : 2 ≤ generics.clkDiv) (frame : CompletedFrame inputs first count)
    (wide : generics.clkDiv ≤ frameDelay inputs first 0) :
    occurrences (toggles generics (frameDelay inputs first)) count = generics.word * 2 := by
  obtain ⟨unarmed, nonneg⟩ := unarmed_of_wide (by omega) wide
  have clock := (frame.traces (by omega) nonneg unarmed (Nat.le_refl count)).1
  have complete := (busInvariant_run two inputs (first + 2 + count)).complete frame.stores
  have counted := clock.bitsCounter.symm.trans complete
  exact_mod_cast counted

theorem wordIntact_iff_meets (two : 2 ≤ generics.clkDiv)
    (frame : CompletedFrame inputs first count)
    (wide : generics.clkDiv ≤ frameDelay inputs first 0) :
    WordIntact inputs first count ↔
      Meets (armed generics (frameDelay inputs first)) (expired (frameDelay inputs first))
        (divisor generics) count := by
  have half : occurrences (alternate (toggles generics (frameDelay inputs first))) count =
      generics.word := by
    rw [occurrences_alternate, frame.toggleCount two wide]
    omega
  have sameShifts : occurrences (shiftsAt inputs first) count =
      occurrences (shifts generics (frameDelay inputs first)) count :=
    occurrences_congr (fun _index inRange => (frame.schedule two wide inRange).1)
  constructor
  · intro intact index inRange
    change shifts generics (frameDelay inputs first) index =
      alternate (toggles generics (frameDelay inputs first)) index
    refine eq_of_occurrences_eq ?_ ?_ inRange
    · intro earlier before shifted
      obtain ⟨shiftsNow, changesIff, counted⟩ := frame.schedule two wide before
      obtain ⟨changed, odd⟩ := intact.atTrailing earlier before (shiftsNow.trans shifted)
      rw [counted] at odd
      rw [alternate, Bool.and_eq_true]
      exact ⟨changesIff.mp changed, odd⟩
    · exact (sameShifts.symm.trans intact.shiftCount).trans half.symm
  · intro meets
    constructor
    · rw [sameShifts, ← half]
      exact occurrences_congr meets
    · intro index inRange shifted
      obtain ⟨shiftsNow, changesIff, counted⟩ := frame.schedule two wide inRange
      have trailing := (meets index inRange).symm.trans (shiftsNow.symm.trans shifted)
      rw [alternate, Bool.and_eq_true] at trailing
      rw [changesIff, counted]
      exact trailing

end CompletedFrame

theorem wordIntact_iff (two : 2 ≤ generics.clkDiv) (inputs : Nat → Inputs generics)
    (first count : Nat) (frame : CompletedFrame inputs first count)
    (wide : ∀ index, index < count → generics.clkDiv ≤ frameDelay inputs first index) :
    WordIntact inputs first count ↔ DelayInPhase generics (frameDelay inputs first) count := by
  have firstWide := wide 0 frame.count_pos
  rw [frame.wordIntact_iff_meets two firstWide]
  apply meets_iff_inPhase (divisor_pos (by omega))
  · intro index isOver
    exact armed_of_expired (by omega) isOver
  · have total := frame.toggleCount two firstWide
    unfold toggles at total
    rw [total, Nat.bodd_mul]
    exact Bool.and_false _

/-- A delay that is changed only before the shift gate opens, by the old and by the
new value, opens the clock gate once, and in phase. -/
theorem delayInPhase_of_settled (positive : 1 ≤ generics.clkDiv) (phase : generics.cpha = false)
    {delay : Nat → Int} {count value : Nat} (wide : generics.clkDiv ≤ value)
    (waits : ∀ index : Nat, index < count → index + generics.clkDiv ≤ value →
      index + generics.clkDiv ≤ delay index)
    (settled : ∀ index : Nat, index < count → value < index + generics.clkDiv →
      delay index = value) : DelayInPhase generics delay count := by
  have width : ((divisor generics : Nat) : Int) = generics.clkDiv := divisor_cast (by omega)
  have expiredAt : ∀ index, index < count → expired delay index = opensAt (value + 1) index := by
    intro index inRange
    have before := waits index inRange
    have after := settled index inRange
    rw [expired, opensAt, decide_eq_decide]
    omega
  have armedAt : ∀ index, index < count →
      armed generics delay index = opensAt (value + 1 - divisor generics) index := by
    intro index inRange
    have before := waits index inRange
    have after := settled index inRange
    rw [armed, opensAt, shift, phase, if_pos rfl, decide_eq_decide]
    omega
  intro index inRange opens
  left
  have isOpen := (expiredAt index inRange).symm.trans opens.isOpen
  have fresh := opens.fresh
  rw [elapsed_congr (fun earlier before => expiredAt earlier (Nat.lt_trans before inRange)),
    elapsed_opensAt] at fresh
  rw [opensAt, decide_eq_true_eq] at isOpen
  have none : occurrences (pulses (divisor generics) (expired delay)) index = 0 := by
    apply occurrences_eq_zero
    intro earlier before
    rw [pulses, expiredAt earlier (Nat.lt_trans before inRange), opensAt,
      decide_eq_false (by omega), Bool.false_and]
  have openTime : index - (value + 1 - divisor generics) = divisor generics := by omega
  rw [InPhase, none, elapsed_congr (fun earlier before =>
    armedAt earlier (Nat.lt_trans before inRange)), elapsed_opensAt, openTime, Nat.zero_add,
    Nat.mul_one, Nat.mul_two]

/-- So does a delay that is written only while the module is not communicating. -/
theorem delayInPhase_of_held (positive : 1 ≤ generics.clkDiv) (phase : generics.cpha = false)
    {delay : Nat → Int} {count value : Nat} (held : ∀ index, index < count → delay index = value)
    (wide : generics.clkDiv ≤ value) : DelayInPhase generics delay count := by
  refine delayInPhase_of_settled positive phase wide ?_
    (fun index inRange _late => held index inRange)
  intro index inRange early
  rw [held index inRange]
  exact early

/-- One bit a frame, and a delay that is lowered to the divider range while the
frame waits for its first edge. -/
def loweredDelay (cycle : Nat) : Inputs { clkDiv := 2, word := 1 } :=
  { reset := false
    start := true
    dataTxIn := 1
    delayConstant := if cycle < 5 then 9 else 2
    spiMisoIn := true }

theorem loweredDelay_frame : CompletedFrame loweredDelay 0 7 where
  begins := ⟨rfl, rfl⟩
  quiet _cycle _lower _upper := rfl
  communicates := by decide
  stores := by decide

theorem wordIntact_iff_lowered :
    WordIntact loweredDelay 0 7 ↔
      DelayInPhase { clkDiv := 2, word := 1 } (frameDelay loweredDelay 0) 7 :=
  wordIntact_iff (by decide) loweredDelay 0 7 loweredDelay_frame (by decide)

/-- Both gates open in one cycle, and the first shift falls on the leading edge. -/
theorem lowered_delay_moves_shift :
    ¬∀ (generics : Generics) (inputs : Nat → Inputs generics) (first count : Nat),
      2 ≤ generics.clkDiv → generics.cpha = false → CompletedFrame inputs first count →
      (∀ index, index < count → generics.clkDiv ≤ frameDelay inputs first index) →
      WordIntact inputs first count := by
  intro claimed
  have intact := claimed { clkDiv := 2, word := 1 } loweredDelay 0 7 (by decide) rfl
    loweredDelay_frame (by decide)
  have early : shiftsAt loweredDelay 0 3 = true := by decide
  have leading : (edgeCount (sclk loweredDelay) 2 5).bodd = false := by decide
  have trailing := (intact.atTrailing 3 (by decide) early).2
  exact absurd (leading.symm.trans trailing) Bool.false_ne_true

end SpiFpga.Master
