/-
What a frame keeps of the run before it.

With `cpha = '0'` the shift gate opens one divider range early.  While the delay
is no shorter than that range the gate is closed in idle, and a frame is a
function of its word and of MISO.  A shorter delay makes the threshold negative:
the second divider then runs freely, and its phase tells how long ago the last
reset was.
-/

import SpiFpga.Master.Timing

namespace SpiFpga.Master

open Clocked

variable {generics : Generics}

def ConstantDelay (inputs : Nat → Inputs generics) (delay : Nat) : Prop :=
  ∀ cycle, (inputs cycle).delayConstant = delay

theorem ConstantDelay.held {inputs : Nat → Inputs generics} {delay : Nat}
    (constant : ConstantDelay inputs delay) (first last : Nat) :
    HeldDelay inputs first delay last :=
  fun cycle _lower _upper => constant cycle

/-- Two frames that are given one word and see the same MISO bits. -/
structure SameRequest (inputs inputs' : Nat → Inputs generics) (first first' delay : Nat) :
    Prop where
  word : frameWord inputs first = frameWord inputs' first'
  miso : ∀ offset, first + offset ≤ storeCycle generics first delay →
    (inputs (first + offset)).spiMisoIn = (inputs' (first' + offset)).spiMisoIn

structure SameFrame (inputs inputs' : Nat → Inputs generics) (first first' delay : Nat) :
    Prop where
  chipSelect : ∀ offset, first + offset ≤ storeCycle generics first delay + 1 →
    chipSelect inputs (first + offset) = chipSelect inputs' (first' + offset)
  sclk : ∀ offset, first + offset ≤ storeCycle generics first delay + 1 →
    sclk inputs (first + offset) = sclk inputs' (first' + offset)
  mosi : ∀ offset, first + offset ≤ storeCycle generics first delay + 1 →
    mosi inputs (first + offset) = mosi inputs' (first' + offset)
  delivered : dataRx inputs (storeCycle generics first delay + 1) =
    dataRx inputs' (storeCycle generics first' delay + 1)

def HistoryIndependent (generics : Generics) (delay : Nat) : Prop :=
  ∀ (inputs inputs' : Nat → Inputs generics) (first first' : Nat),
    ConstantDelay inputs delay → ConstantDelay inputs' delay →
    Begins inputs first → Begins inputs' first' →
    Quiet inputs first (storeCycle generics first delay + 1) →
    Quiet inputs' first' (storeCycle generics first' delay + 1) →
    SameRequest inputs inputs' first first' delay →
    SameFrame inputs inputs' first first' delay

/-! ### A delay that covers the divider range -/

theorem txBufferNext_of_zero (input : Inputs generics) {registers : Registers generics}
    (notInit : registers.stateReg ≠ .initTxState) (empty : registers.txBufferReg = 0) :
    (nextRegisters input registers).txBufferReg = 0 := by
  rw [(nextRegisters_buffers input notInit).1, empty, shiftConcat_zero_false, ite_self]

/-- Every frame shifts its whole word out, so the transmit register is empty
outside the communication state. -/
theorem txBuffer_rest (two : 2 ≤ generics.clkDiv) {inputs : Nat → Inputs generics}
    {delay : Nat} (aligned : Aligned generics delay) (constant : ConstantDelay inputs delay)
    {cycle : Nat} (notComm : stateAt inputs cycle ≠ .communicationState) :
    (registersAt inputs cycle).txBufferReg = 0 := by
  have positive : 1 ≤ generics.clkDiv := by omega
  induction cycle with
  | zero => rfl
  | succ cycle ih =>
      by_cases atStore : stateAt inputs (cycle + 1) = .storeRxState
      · have notIdle : stateAt inputs (cycle + 1) ≠ .idle := by
          rw [atStore]
          exact StateType.noConfusion
        obtain ⟨first, underway⟩ := exists_underway notIdle
        have held := constant.held first (cycle + 1 + 1)
        have position := underway.eq_storeCycle positive held atStore
        have frame := underway.frame held (Nat.le_of_eq position.symm)
        rw [position, storeCycle_eq]
        exact frame.txBuffer_spent positive aligned (Nat.le_refl _)
          (Nat.le_of_eq (SteadyFrame.shiftCount_complete two delay).symm)
      · rcases Machine.run_succ_cases (regProcess generics) inputs cycle with
          cleared | ⟨low, lowAfter, advanced⟩
        · exact congrArg Registers.txBufferReg cleared
        · have arrow := stateAt_arrow low lowAfter
          have before : stateAt inputs cycle ≠ .communicationState ∧
              stateAt inputs cycle ≠ .initTxState := by
            constructor
            · intro inComm
              rw [inComm] at arrow
              rcases arrow.from_comm with stays | stores
              · exact notComm stays
              · exact atStore stores
            · intro atInit
              rw [stateAt_succ low lowAfter, atInit] at notComm
              exact notComm rfl
          have kept := txBufferNext_of_zero (inputs cycle) before.2 (ih before.1)
          rw [registersAt, advanced]
          exact kept

/-- The cycles of a frame: two before the communication state, those that the
trace theorems cover, and one after the store state. -/
theorem offset_cases (generics : Generics) (first : Nat) {delay offset : Nat}
    (upTo : first + offset ≤ storeCycle generics first delay + 1) :
    offset = 0 ∨ offset = 1 ∨
      (∃ index, index ≤ lastIndex generics delay + 1 ∧ offset = 2 + index) ∨
      offset = lastIndex generics delay + 4 := by
  have atStore := storeCycle_eq generics first delay
  by_cases early : offset < 2
  · omega
  · by_cases late : offset = lastIndex generics delay + 4
    · exact Or.inr (Or.inr (Or.inr late))
    · exact Or.inr (Or.inr (Or.inl ⟨offset - 2, by omega, by omega⟩))

namespace SteadyFrame

variable {inputs : Nat → Inputs generics} {first delay offset : Nat}

theorem notComm_first (frame : SteadyFrame inputs first delay) :
    stateAt inputs first ≠ .communicationState ∧
      stateAt inputs (first + 1) ≠ .communicationState := by
  rw [frame.begins.1, (begins_enters frame.begins (frame.quiet_upTo (Nat.zero_le _))).1]
  exact ⟨StateType.noConfusion, StateType.noConfusion⟩

theorem sclk_offset (two : 2 ≤ generics.clkDiv) (frame : SteadyFrame inputs first delay)
    (lowAfter : (inputs (storeCycle generics first delay + 1)).reset = false)
    (upTo : first + offset ≤ storeCycle generics first delay + 1) :
    sclk inputs (first + offset) =
      (generics.cpol ^^ (occurrences (pulses (divisor generics) (opensAt (delay + 1)))
        (min (offset - 2) (lastIndex generics delay + 1))).bodd) := by
  have positive : 1 ≤ generics.clkDiv := by omega
  have position := storeCycle_eq generics first delay
  have traced : ∀ index, index ≤ lastIndex generics delay + 1 →
      sclk inputs (first + 2 + index) =
        (generics.cpol ^^
          (occurrences (pulses (divisor generics) (opensAt (delay + 1))) index).bodd) := by
    intro index inRange
    rw [(frame.clock positive inRange).spiClk, frame.held.toggleCount_eq (upToStore inRange),
      frame.sclk_first two]
  rcases offset_cases generics first upTo with rfl | rfl | ⟨index, inRange, rfl⟩ | rfl
  · rw [Nat.add_zero, frame.sclk_first two, Nat.zero_sub, Nat.zero_min, occurrences_zero]
    simp
  · have none : min (1 - 2) (lastIndex generics delay + 1) = 0 := by omega
    rw [(frame.sclk_before_first positive).1, frame.sclk_first two, none, occurrences_zero]
    simp
  · rw [Nat.add_sub_cancel_left, Nat.min_eq_left inRange, ← Nat.add_assoc]
    exact traced index inRange
  · have atEnd : first + (lastIndex generics delay + 4) =
        storeCycle generics first delay + 1 := by omega
    have last : min (lastIndex generics delay + 4 - 2) (lastIndex generics delay + 1) =
        lastIndex generics delay + 1 := by omega
    rw [atEnd, frame.sclk_last positive lowAfter, last, position]
    exact traced _ (Nat.le_refl _)

theorem mosi_offset (two : 2 ≤ generics.clkDiv) (aligned : Aligned generics delay)
    (constant : ConstantDelay inputs delay) (frame : SteadyFrame inputs first delay)
    (lowAfter : (inputs (storeCycle generics first delay + 1)).reset = false)
    (upTo : first + offset ≤ storeCycle generics first delay + 1) :
    mosi inputs (first + offset) =
      if 2 ≤ offset ∧ offset < lastIndex generics delay + 4 then
        (shifted (frameWord inputs first)
          (pulses (divisor generics * 2) (opensAt (shiftStart generics delay)))
          (fun _index => false) (offset - 2)).msb
      else false := by
  have positive : 1 ≤ generics.clkDiv := by omega
  have position := storeCycle_eq generics first delay
  obtain ⟨idleNotComm, initNotComm⟩ := frame.notComm_first
  have restsLow : ∀ cycle, stateAt inputs cycle ≠ .communicationState →
      mosi inputs cycle = false := by
    intro cycle notComm
    rw [mosi, spiMosiOut, txBuffer_rest two aligned constant notComm]
    exact BitVec.msb_zero
  rcases offset_cases generics first upTo with rfl | rfl | ⟨index, inRange, rfl⟩ | rfl
  · rw [if_neg (by omega)]
    exact restsLow first idleNotComm
  · rw [if_neg (by omega)]
    exact restsLow (first + 1) initNotComm
  · rw [if_pos (by omega), Nat.add_sub_cancel_left, ← Nat.add_assoc, mosi, spiMosiOut,
      (frame.data positive aligned inRange).txBuffer]
    congr 1
    exact shifted_congr (fun _earlier before => frame.shifts_eq positive aligned (by omega))
      (fun _earlier _before => rfl)
  · have atEnd : first + (lastIndex generics delay + 4) =
        storeCycle generics first delay + 1 := by omega
    rw [atEnd, if_neg (by omega)]
    apply restsLow
    rw [frame.ends positive lowAfter]
    exact StateType.noConfusion

theorem delivered_eq (two : 2 ≤ generics.clkDiv) (aligned : Aligned generics delay)
    (frame : SteadyFrame inputs first delay)
    (lowAfter : (inputs (storeCycle generics first delay + 1)).reset = false) :
    dataRx inputs (storeCycle generics first delay + 1) =
      shifted 0 (pulses (divisor generics * 2) (opensAt (shiftStart generics delay)))
        (frameMiso inputs first) (lastIndex generics delay + 1) := by
  have positive : 1 ≤ generics.clkDiv := by omega
  rw [frame.dataRx_after_store positive lowAfter, frame.dataRx_store positive, storeCycle_eq,
    (frame.data positive aligned (Nat.le_refl _)).rxBuffer]
  refine (shifted_congr (fun earlier before => frame.shifts_eq positive aligned ?_)
    (fun _earlier _before => rfl)).trans (shifted_eq_of_full ?_)
  · exact Nat.le_of_lt_succ before
  · exact Nat.le_of_eq (shiftCount_complete two delay).symm

end SteadyFrame

theorem sameFrame (two : 2 ≤ generics.clkDiv) {inputs inputs' : Nat → Inputs generics}
    {first first' delay : Nat} (aligned : Aligned generics delay)
    (constant : ConstantDelay inputs delay) (constant' : ConstantDelay inputs' delay)
    (begins : Begins inputs first) (begins' : Begins inputs' first')
    (quiet : Quiet inputs first (storeCycle generics first delay + 1))
    (quiet' : Quiet inputs' first' (storeCycle generics first' delay + 1))
    (request : SameRequest inputs inputs' first first' delay) :
    SameFrame inputs inputs' first first' delay := by
  have positive : 1 ≤ generics.clkDiv := by omega
  have position := storeCycle_eq generics first delay
  have position' := storeCycle_eq generics first' delay
  have frame : SteadyFrame inputs first delay :=
    ⟨begins, constant.held first _, quiet.mono (Nat.le_refl _) (Nat.le_succ _)⟩
  have frame' : SteadyFrame inputs' first' delay :=
    ⟨begins', constant'.held first' _, quiet'.mono (Nat.le_refl _) (Nat.le_succ _)⟩
  have lowAfter := quiet.low (storeCycle generics first delay + 1) (by omega) (Nat.le_refl _)
  have lowAfter' := quiet'.low (storeCycle generics first' delay + 1) (by omega) (Nat.le_refl _)
  refine
    { chipSelect := ?_
      sclk := ?_
      mosi := ?_
      delivered := ?_ }
  · intro offset upTo
    rw [frame.chipSelect_offset positive lowAfter upTo,
      frame'.chipSelect_offset positive lowAfter' (by omega)]
  · intro offset upTo
    rw [frame.sclk_offset two lowAfter upTo, frame'.sclk_offset two lowAfter' (by omega)]
  · intro offset upTo
    rw [frame.mosi_offset two aligned constant lowAfter upTo,
      frame'.mosi_offset two aligned constant' lowAfter' (by omega), request.word]
  · rw [frame.delivered_eq two aligned lowAfter, frame'.delivered_eq two aligned lowAfter']
    apply shifted_congr
    · intro _earlier _before
      rfl
    · intro earlier before
      have same := request.miso (2 + earlier) (by omega)
      rw [frameMiso, frameMiso, Nat.add_assoc, Nat.add_assoc]
      exact same

/-! ### A shorter delay -/

theorem delayCounter_nonneg (inputs : Nat → Inputs generics) (cycle : Nat) :
    0 ≤ (registersAt inputs cycle).delayCounterReg := by
  apply Machine.run_invariant (fun _input => True)
    (fun registers : Registers generics => 0 ≤ registers.delayCounterReg) (Int.le_refl 0)
  · intro input registers _admissible nonneg
    change 0 ≤ delayCounterNext input registers
    unfold delayCounterNext
    split <;> omega
  · exact fun _cycle => trivial

/-- A threshold below zero is passed in every state, so nothing ever clears the
second divider. -/
theorem divCounter2_free (positive : 1 ≤ generics.clkDiv) (phase : generics.cpha = false)
    {inputs : Nat → Inputs generics} {delay : Nat} (constant : ConstantDelay inputs delay)
    (short : delay < generics.clkDiv) (noReset : ∀ cycle, (inputs cycle).reset = false)
    (cycle : Nat) :
    (registersAt inputs cycle).divCounter2Reg = (cycle % (divisor generics * 2) : Nat) := by
  induction cycle with
  | zero => rfl
  | succ cycle ih =>
      have pos := divisor_pos positive
      have isOpen : enDivCounterShift (inputs cycle) (registersAt inputs cycle) = true := by
        have nonneg := delayCounter_nonneg inputs cycle
        rw [enDivCounterShift, delayCounterShiftEnd, constant cycle, shift, phase, if_pos rfl]
        exact decide_eq_true (by omega)
      rw [registersAt_succ (noReset cycle) (noReset (cycle + 1))]
      change divCounter2Next _ _ = _
      rw [divCounter2Next, isOpen, ih, ← divisor_twice_cast (by omega)]
      exact Divider.next_mod (by omega) cycle

def idleThenSend (generics : Generics) (delay idle : Nat) : Nat → Inputs generics :=
  steadyInputs generics (fun cycle => decide (cycle = idle))
    (BitVec.twoPow generics.word (generics.word - 1)) delay (fun _cycle => false)

theorem idleThenSend_frame (generics : Generics) (delay idle : Nat) :
    SteadyFrame (idleThenSend generics delay idle) idle delay := by
  have waits : stateAt (idleThenSend generics delay idle) idle = .idle := by
    have powerOn : stateAt (idleThenSend generics delay idle) 0 = .idle := rfl
    apply stateAt_idle_of_low powerOn (Nat.zero_le idle) (fun _cycle _lower _upper => rfl)
    intro cycle _lower upper
    exact decide_eq_false (Nat.ne_of_lt upper)
  refine ⟨⟨waits, ?_⟩, fun _cycle _lower _upper => rfl, fun _cycle _lower _upper => rfl⟩
  have started : (idleThenSend generics delay idle idle).start = true := decide_eq_true rfl
  rw [startLevel, started]
  rfl

theorem SteadyFrame.txBuffer_waiting {inputs : Nat → Inputs generics} {first delay : Nat}
    (positive : 1 ≤ generics.clkDiv) (frame : SteadyFrame inputs first delay) {index : Nat}
    (waiting : index ≤ delay + 1) :
    (registersAt inputs (first + 2 + index)).txBufferReg = frameWord inputs first := by
  have inFrame : delay + 1 ≤ lastIndex generics delay := by
    unfold lastIndex
    omega
  induction index with
  | zero => exact txBuffer_loaded frame.begins (frame.quiet_upTo (Nat.zero_le _))
  | succ index ih =>
      have inRange : index ≤ lastIndex generics delay := by omega
      have quiet := frame.quiet_upTo (Nat.succ_le_succ inRange)
      have inComm := frame.communicates positive inRange
      have notYet : enTx (inputs (first + 2 + index)) (registersAt inputs (first + 2 + index)) =
          false := by
        rw [enTx, (frame.clock positive (Nat.le_succ_of_le inRange)).gates.1,
          frame.held.expired_eq (beforeStore inRange), opensAt, decide_eq_false (by omega),
          Bool.false_and]
      rw [← Nat.add_assoc, quiet.registersAt_succ (first + 2 + index) (by omega) (by omega),
        (nextRegisters_buffers _ (notInit_of_comm inComm)).1, notYet, if_neg Bool.false_ne_true]
      exact ih (by omega)

theorem msb_twoPow_shiftConcat (width : Nat) :
    ((BitVec.twoPow width (width - 1)).shiftConcat false).msb = false := by
  rw [BitVec.msb_eq_getLsbD_last, BitVec.getLsbD_shiftConcat]
  split
  next => exact Bool.and_false _
  next above =>
    have lower : width - 1 ≠ width - 1 - 1 := by omega
    rw [BitVec.getLsbD_twoPow, decide_eq_false lower, Bool.and_false, Bool.and_false]

theorem msb_twoPow (width : Nat) (positive : 0 < width) :
    (BitVec.twoPow width (width - 1)).msb = true := by
  have top : width - 1 < width := by omega
  rw [BitVec.msb_eq_getLsbD_last, BitVec.getLsbD_twoPow, decide_eq_true top, decide_eq_true rfl]
  rfl

/-- The free divider alone decides whether the first cycle in which the delay has
expired shifts. -/
theorem idleThenSend_enTx (positive : 1 ≤ generics.clkDiv) (phase : generics.cpha = false)
    {delay : Nat} (short : delay < generics.clkDiv) (idle : Nat) :
    enTx (idleThenSend generics delay idle (idle + 2 + (delay + 1)))
        (registersAt (idleThenSend generics delay idle) (idle + 2 + (delay + 1))) =
      decide (divisor generics * 2 ∣ idle + 2 + (delay + 1)) := by
  have frame := idleThenSend_frame generics delay idle
  have inRange : delay + 1 ≤ lastIndex generics delay := by
    unfold lastIndex
    omega
  have gates := (frame.clock positive (Nat.le_succ_of_le inRange)).gates
  have constant : ConstantDelay (idleThenSend generics delay idle) delay := fun _cycle => rfl
  have free := divCounter2_free positive phase constant short (fun _cycle => rfl)
    (idle + 2 + (delay + 1))
  have isOver : expired (frameDelay (idleThenSend generics delay idle) idle) (delay + 1) =
      true := by
    rw [frame.held.expired_eq (beforeStore inRange)]
    exact decide_eq_true (Nat.le_refl _)
  have isArmed : armed generics (frameDelay (idleThenSend generics delay idle) idle)
      (delay + 1) = true := armed_of_expired (by omega) isOver
  rw [enTx, divClk2Pulse, enDivCounterShift, gates.1, gates.2, isOver, isArmed, free,
    Divider.pulse_open, Bool.true_and, decide_eq_decide, Nat.dvd_iff_mod_eq_zero]
  exact Int.natCast_eq_zero

theorem idleThenSend_mosi (positive : 1 ≤ generics.clkDiv) (phase : generics.cpha = false)
    {delay : Nat} (short : delay < generics.clkDiv) (idle : Nat) :
    mosi (idleThenSend generics delay idle) (idle + (delay + 4)) =
      !decide (divisor generics * 2 ∣ idle + 2 + (delay + 1)) := by
  have frame := idleThenSend_frame generics delay idle
  have inRange : delay + 1 ≤ lastIndex generics delay := by
    unfold lastIndex
    omega
  have quiet := frame.quiet_upTo (Nat.succ_le_succ inRange)
  have inComm := frame.communicates positive inRange
  have next : idle + (delay + 4) = idle + 2 + (delay + 1) + 1 := by omega
  have sent : frameWord (idleThenSend generics delay idle) idle =
      BitVec.twoPow generics.word (generics.word - 1) := rfl
  rw [mosi, spiMosiOut, next, quiet.registersAt_succ (idle + 2 + (delay + 1)) (by omega)
    (by omega), (nextRegisters_buffers _ (notInit_of_comm inComm)).1,
    idleThenSend_enTx positive phase short, frame.txBuffer_waiting positive (Nat.le_refl _), sent]
  by_cases divides : divisor generics * 2 ∣ idle + 2 + (delay + 1)
  · rw [decide_eq_true divides, if_pos rfl, msb_twoPow_shiftConcat]
    rfl
  · rw [decide_eq_false divides, if_neg Bool.false_ne_true, msb_twoPow _ generics.wordPos]
    rfl

theorem not_historyIndependent (two : 2 ≤ generics.clkDiv) (phase : generics.cpha = false)
    {delay : Nat} (short : delay < generics.clkDiv) : ¬HistoryIndependent generics delay := by
  intro independent
  have positive : 1 ≤ generics.clkDiv := by omega
  have width : ((divisor generics : Nat) : Int) = generics.clkDiv := divisor_cast (by omega)
  obtain ⟨idle, aligned⟩ : ∃ idle, idle + 2 + (delay + 1) = divisor generics * 2 * 2 :=
    ⟨divisor generics * 2 * 2 - (delay + 3), by omega⟩
  have frame := idleThenSend_frame generics delay idle
  have frame' := idleThenSend_frame generics delay (idle + 1)
  have same := independent _ _ idle (idle + 1) (fun _cycle => rfl) (fun _cycle => rfl)
    frame.begins frame'.begins (fun _cycle _lower _upper => rfl) (fun _cycle _lower _upper => rfl)
    ⟨rfl, fun _offset _upTo => rfl⟩
  have inFrame : idle + (delay + 4) ≤ storeCycle generics idle delay + 1 := by
    rw [storeCycle_eq, lastIndex]
    omega
  have line := same.mosi (delay + 4) inFrame
  have late : idle + 1 + 2 + (delay + 1) = divisor generics * 2 * 2 + 1 := by omega
  have notDivides : ¬divisor generics * 2 ∣ divisor generics * 2 * 2 + 1 := by
    rw [Nat.dvd_add_right (Nat.dvd_mul_right _ _), Nat.dvd_one]
    omega
  rw [idleThenSend_mosi positive phase short, idleThenSend_mosi positive phase short, aligned,
    late, decide_eq_true (Nat.dvd_mul_right _ _), decide_eq_false notDivides] at line
  cases line

theorem historyIndependent_iff (two : 2 ≤ generics.clkDiv) (phase : generics.cpha = false)
    (delay : Nat) : HistoryIndependent generics delay ↔ generics.clkDiv ≤ delay := by
  constructor
  · intro independent
    by_contra short
    exact not_historyIndependent two phase (by omega) independent
  · intro covers
    have aligned : Aligned generics delay := by
      right
      unfold divisor
      omega
    intro inputs inputs' first first' constant constant' begins begins' quiet quiet' request
    exact sameFrame two aligned constant constant' begins begins' quiet quiet' request

theorem historyIndependent_iff_default :
    HistoryIndependent {} 12 ↔ ({} : Generics).clkDiv ≤ (12 : Nat) :=
  historyIndependent_iff (by decide) rfl 12

/-- The reset value of the delay register is too short. -/
theorem historyDependent_reset_delay :
    ¬∀ (generics : Generics) (delay : Nat), 2 ≤ generics.clkDiv → generics.cpha = false →
      HistoryIndependent generics delay := by
  intro claimed
  have dependent : ¬HistoryIndependent {} 0 := not_historyIndependent (by decide) rfl (by decide)
  exact dependent (claimed {} 0 (by decide) rfl)

end SpiFpga.Master
