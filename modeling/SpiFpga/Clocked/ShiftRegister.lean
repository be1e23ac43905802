/-
Shift registers clocked through an enable.

The register takes one serial bit at its low end in each enabled period and
drops its top bit.  What it holds is a function of the loaded word, the enable
and the serial line: every captured bit has moved up by the number of enabled
periods that followed its own.
-/

import SpiFpga.Clocked.Waveform

namespace SpiFpga.Clocked

variable {width : Nat}

def shifted (load : BitVec width) (enable serial : Nat → Bool) : Nat → BitVec width
  | 0 => load
  | period + 1 =>
      if enable period then (shifted load enable serial period).shiftConcat (serial period)
      else shifted load enable serial period

theorem shifted_succ (load : BitVec width) (enable serial : Nat → Bool) (period : Nat) :
    shifted load enable serial (period + 1) =
      if enable period then (shifted load enable serial period).shiftConcat (serial period)
      else shifted load enable serial period := rfl

theorem shifted_add (load : BitVec width) (enable serial : Nat → Bool) (start period : Nat) :
    shifted load enable serial (start + period) =
      shifted (shifted load enable serial start) (fun later => enable (start + later))
        (fun later => serial (start + later)) period := by
  induction period with
  | zero => rfl
  | succ period ih => rw [← Nat.add_assoc, shifted_succ, shifted_succ, ih]

theorem shifted_kept {load : BitVec width} {enable serial : Nat → Bool} {start period : Nat}
    (ordered : start ≤ period)
    (disabled : ∀ between, start ≤ between → between < period → enable between = false) :
    shifted load enable serial period = shifted load enable serial start := by
  induction period, ordered using Nat.le_induction with
  | base => rfl
  | succ period ordered ih =>
      rw [shifted_succ, disabled period ordered (Nat.lt_succ_self period),
        if_neg Bool.false_ne_true]
      exact ih (fun between lower upper => disabled between lower (Nat.lt_succ_of_lt upper))

theorem shifted_congr {load : BitVec width} {enable enable' serial serial' : Nat → Bool}
    {period : Nat}
    (sameEnable : ∀ earlier, earlier < period → enable earlier = enable' earlier)
    (sameSerial : ∀ earlier, earlier < period → serial earlier = serial' earlier) :
    shifted load enable serial period = shifted load enable' serial' period := by
  induction period with
  | zero => rfl
  | succ period ih =>
      rw [shifted_succ, shifted_succ, sameEnable period (Nat.lt_succ_self period),
        sameSerial period (Nat.lt_succ_self period),
        ih (fun earlier before => sameEnable earlier (Nat.lt_succ_of_lt before))
          (fun earlier before => sameSerial earlier (Nat.lt_succ_of_lt before))]

theorem shifted_loaded (load : BitVec width) (enable serial : Nat → Bool)
    {period index : Nat} (kept : index + occurrences enable period < width) :
    (shifted load enable serial period).getLsbD (index + occurrences enable period) =
      load.getLsbD index := by
  induction period with
  | zero => rw [occurrences_zero, Nat.add_zero, shifted]
  | succ period ih =>
      rw [occurrences_succ] at kept ⊢
      rw [shifted_succ]
      cases isEnabled : enable period with
      | false =>
          simp only [isEnabled, Bool.false_eq_true, if_false, Nat.add_zero] at kept ⊢
          exact ih kept
      | true =>
          simp only [isEnabled, if_true] at kept ⊢
          rw [BitVec.getLsbD_shiftConcat, decide_eq_true kept, Bool.true_and,
            if_neg (by omega)]
          exact ih (by omega)

theorem shifted_captured (load : BitVec width) (enable serial : Nat → Bool)
    {period captured : Nat} (before : captured < period) (isEnabled : enable captured = true)
    (kept : occurrences enable period - occurrences enable (captured + 1) < width) :
    (shifted load enable serial period).getLsbD
        (occurrences enable period - occurrences enable (captured + 1)) =
      serial captured := by
  induction period with
  | zero => exact absurd before (Nat.not_lt_zero captured)
  | succ period ih =>
      rw [shifted_succ]
      rcases Nat.lt_or_eq_of_le (Nat.le_of_lt_succ before) with earlier | latest
      · have ordered : occurrences enable (captured + 1) ≤ occurrences enable period :=
          occurrences_mono enable earlier
        rw [occurrences_succ enable period] at kept ⊢
        cases nowEnabled : enable period with
        | false =>
            simp only [nowEnabled, Bool.false_eq_true, if_false, Nat.add_zero] at kept ⊢
            exact ih earlier kept
        | true =>
            simp only [nowEnabled, if_true] at kept ⊢
            have position :
                occurrences enable period + 1 - occurrences enable (captured + 1) - 1 =
                  occurrences enable period - occurrences enable (captured + 1) := by
              omega
            rw [BitVec.getLsbD_shiftConcat, decide_eq_true kept, Bool.true_and,
              if_neg (by omega), position]
            exact ih earlier (by omega)
      · subst latest
        rw [Nat.sub_self] at kept ⊢
        rw [isEnabled, if_pos rfl, BitVec.getLsbD_shiftConcat, decide_eq_true kept,
          Bool.true_and, if_pos rfl]

/-- The low end after a number of enabled periods is what the serial line
carried then, whatever was loaded. -/
theorem shifted_low_eq {load load' : BitVec width} {enable serial : Nat → Bool}
    {period index : Nat} (fresh : index < occurrences enable period) :
    (shifted load enable serial period).getLsbD index =
      (shifted load' enable serial period).getLsbD index := by
  induction period generalizing index with
  | zero =>
      rw [occurrences_zero] at fresh
      exact absurd fresh (Nat.not_lt_zero index)
  | succ period ih =>
      rw [occurrences_succ] at fresh
      rw [shifted_succ, shifted_succ]
      cases isEnabled : enable period with
      | false =>
          simp only [isEnabled, Bool.false_eq_true, if_false, Nat.add_zero] at fresh ⊢
          exact ih fresh
      | true =>
          simp only [isEnabled, if_true] at fresh ⊢
          rw [BitVec.getLsbD_shiftConcat, BitVec.getLsbD_shiftConcat]
          by_cases lowest : index = 0
          · rw [if_pos lowest, if_pos lowest]
          · rw [if_neg lowest, if_neg lowest, ih (by omega)]

/-- A register that has shifted through its whole width has forgotten its load. -/
theorem shifted_eq_of_full {load load' : BitVec width} {enable serial : Nat → Bool}
    {period : Nat} (full : width ≤ occurrences enable period) :
    shifted load enable serial period = shifted load' enable serial period := by
  apply BitVec.eq_of_getLsbD_eq
  intro index inRange
  exact shifted_low_eq (Nat.lt_of_lt_of_le inRange full)

theorem shiftConcat_zero_false : ((0 : BitVec width)).shiftConcat false = (0 : BitVec width) := by
  apply BitVec.eq_of_getLsbD_eq
  intro index inRange
  rw [BitVec.getLsbD_shiftConcat]
  simp

theorem shifted_zero {enable serial : Nat → Bool} {period : Nat}
    (low : ∀ earlier, earlier < period → serial earlier = false) :
    shifted (0 : BitVec width) enable serial period = (0 : BitVec width) := by
  induction period with
  | zero => rfl
  | succ period ih =>
      rw [shifted_succ, ih (fun earlier before => low earlier (Nat.lt_succ_of_lt before)),
        low period (Nat.lt_succ_self period), shiftConcat_zero_false, ite_self]

theorem shifted_low (load : BitVec width) (enable : Nat → Bool) (period : Nat) :
    shifted load enable (fun _earlier => false) period = load <<< occurrences enable period := by
  induction period with
  | zero => rw [occurrences_zero, BitVec.shiftLeft_zero, shifted]
  | succ period ih =>
      rw [shifted_succ, occurrences_succ, ih]
      cases enable period with
      | false => simp
      | true =>
          rw [if_pos rfl, if_pos rfl, BitVec.shiftLeft_add]
          apply BitVec.eq_of_getLsbD_eq
          intro index inRange
          rw [BitVec.getLsbD_shiftConcat, BitVec.getLsbD_shiftLeft (load <<< _)]
          cases index <;> simp [inRange]

/-- Two registers in series are one register of both widths. -/
theorem shiftConcat_append {upper lower : Nat} (lowerPos : 0 < lower) (high : BitVec upper)
    (low : BitVec lower) (bit : Bool) :
    (high ++ low).shiftConcat bit = high.shiftConcat low.msb ++ low.shiftConcat bit := by
  apply BitVec.eq_of_getLsbD_eq
  intro index inRange
  rw [BitVec.getLsbD_shiftConcat, BitVec.getLsbD_append, BitVec.getLsbD_append,
    BitVec.getLsbD_shiftConcat, BitVec.getLsbD_shiftConcat, BitVec.msb_eq_getLsbD_last]
  rcases Nat.lt_trichotomy index lower with below | same | above
  · have before : index - 1 < lower := by omega
    simp [below, before, inRange]
  · have upperPos : 0 < upper := by omega
    have before : lower - 1 < lower := Nat.sub_one_lt_of_lt lowerPos
    simp [same, before, upperPos, Nat.ne_of_gt lowerPos]
  · have beyond : ¬index < lower := by omega
    have beyondBefore : ¬index - 1 < lower := by omega
    have notLow : index ≠ 0 := by omega
    have notLowest : index - lower ≠ 0 := by omega
    have inUpper : index - lower < upper := by omega
    have position : index - 1 - lower = index - lower - 1 := by omega
    simp [beyond, beyondBefore, notLow, notLowest, inUpper, position, inRange]

/-- The bit that is on the line after the one with the given number, counted from the
high end: after the last one the line is low. -/
def nextBit (word : BitVec width) (index : Nat) : Bool :=
  if index + 1 < width then word.getLsbD (width - 1 - (index + 1)) else false

/-- Each bit would have to equal its lower neighbour, and the lowest one is low. -/
theorem nextBit_eq_iff (word : BitVec width) :
    (∀ index, index < width → nextBit word index = word.getLsbD (width - 1 - index)) ↔
      word = 0 := by
  constructor
  · intro same
    have low : ∀ place, place < width → word.getLsbD place = false := by
      intro place
      induction place with
      | zero =>
          intro widthPos
          have last := same (width - 1) (by omega)
          rw [nextBit, if_neg (by omega), Nat.sub_self] at last
          exact last.symm
      | succ place ih =>
          intro inWord
          obtain ⟨index, parts⟩ : ∃ index, width = index + 1 + (place + 1) :=
            ⟨width - 1 - (place + 1), by omega⟩
          have here := same index (by omega)
          have lower : width - 1 - (index + 1) = place := by omega
          have upper : width - 1 - index = place + 1 := by omega
          rw [nextBit, if_pos (by omega), lower, upper] at here
          exact here.symm.trans (ih (by omega))
    apply BitVec.eq_of_getLsbD_eq
    intro place inWord
    rw [low place inWord]
    exact BitVec.getLsbD_zero.symm
  · intro isZero index inWord
    rw [isZero, nextBit]
    simp

theorem shifted_msb (load : BitVec width) (enable serial : Nat → Bool) {period : Nat}
    (kept : occurrences enable period < width) :
    (shifted load enable serial period).msb =
      load.getLsbD (width - 1 - occurrences enable period) := by
  have inside : width - 1 - occurrences enable period + occurrences enable period < width := by
    omega
  have position :
      width - 1 - occurrences enable period + occurrences enable period = width - 1 := by
    omega
  have found := shifted_loaded load enable serial inside
  rw [position] at found
  rw [BitVec.msb_eq_getLsbD_last]
  exact found

end SpiFpga.Clocked
