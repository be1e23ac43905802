/-
The port of a serial slave.

On each rising edge of the serial clock the slave puts the top bit of its data
register on its output, and on each falling edge it shifts the register.  Left
alone, the register goes out bit by bit, the top bit first, and the bit on the line
is a matter of how many edges there were.
-/

import SpiFpga.Clocked.Observer
import SpiFpga.Clocked.ShiftRegister

namespace SpiFpga.Clocked

variable {width : Nat}

/-- What the edges of the clock do to the data register and to the output. A shift
takes in the level that the line had before the edge, and a load is a write of the
register by someone else. -/
structure SlavePort (clk select serial load : Nat → Bool) (data : Nat → BitVec width)
    (out : Nat → Bool) : Prop where
  drives : ∀ period, select period = true → clk period = false → clk (period + 1) = true →
    out (period + 1) = (data period).msb
  holds : ∀ period, select period = true → ¬(clk period = false ∧ clk (period + 1) = true) →
    out (period + 1) = out period
  shifts : ∀ period, select period = true → load period = false → clk period = true →
    clk (period + 1) = false → data (period + 1) = (data period).shiftConcat (serial period)
  keeps : ∀ period, load period = false →
    ¬(select period = true ∧ clk period = true ∧ clk (period + 1) = false) →
    data (period + 1) = data period

/-- A word that was replaced while it went out, after some edges of the clock: one bit
of the old word for each rising edge, and then the new word, moved down by one place for
each falling edge that it has missed. -/
def tornWord (old new : BitVec width) (edges : Nat) : BitVec width :=
  old >>> (width - (edges + 1) / 2) <<< (width - (edges + 1) / 2) |||
    (new >>> (edges / 2)) <<< ((edges + 1) / 2) >>> ((edges + 1) / 2)

theorem tornWord_zero (old new : BitVec width) : tornWord old new 0 = new := by
  apply BitVec.eq_of_getLsbD_eq
  intro place inWord
  simp [tornWord, inWord]

theorem tornWord_getLsbD (old new : BitVec width) (edges : Nat) {index : Nat}
    (inWord : index < width) :
    (tornWord old new edges).getLsbD (width - 1 - index) =
      if 2 * index < edges then old.getLsbD (width - 1 - index)
      else new.getLsbD (width - 1 - (index - edges / 2)) := by
  have inRange : width - 1 - index < width := by omega
  rw [tornWord, BitVec.getLsbD_or, BitVec.getLsbD_shiftLeft, BitVec.getLsbD_ushiftRight,
    BitVec.getLsbD_ushiftRight, BitVec.getLsbD_shiftLeft, BitVec.getLsbD_ushiftRight]
  by_cases earlier : 2 * index < edges
  · have inOld : ¬width - 1 - index < width - (edges + 1) / 2 := by omega
    have place : width - (edges + 1) / 2 + (width - 1 - index - (width - (edges + 1) / 2)) =
        width - 1 - index := by
      omega
    have notNew : ¬(edges + 1) / 2 + (width - 1 - index) < width := by omega
    simp only [inRange, inOld, place, notNew, earlier, decide_true, decide_false, Bool.not_false,
      Bool.true_and, Bool.false_and, Bool.or_false, if_true]
  · have notOld : width - 1 - index < width - (edges + 1) / 2 := by omega
    have inNew : (edges + 1) / 2 + (width - 1 - index) < width := by omega
    have notCleared : ¬(edges + 1) / 2 + (width - 1 - index) < (edges + 1) / 2 := by omega
    have place : edges / 2 + ((edges + 1) / 2 + (width - 1 - index) - (edges + 1) / 2) =
        width - 1 - (index - edges / 2) := by
      omega
    simp only [inRange, notOld, inNew, notCleared, place, earlier, decide_true, decide_false,
      Bool.not_true, Bool.not_false, Bool.and_false, Bool.true_and, Bool.false_and,
      Bool.false_or, if_false]

namespace SlavePort

variable {clk select serial load : Nat → Bool} {data : Nat → BitVec width} {out : Nat → Bool}
  {first start last offset : Nat}

structure Serving (select load : Nat → Bool) (first last : Nat) : Prop where
  selected : ∀ period, first ≤ period → period ≤ last → select period = true
  untouched : ∀ period, first ≤ period → period < last → load period = false

def falling (clk : Nat → Bool) (first : Nat) : Nat → Bool :=
  alternate fun offset => changes clk (first + offset)

theorem occurrences_changes (clk : Nat → Bool) (first offset : Nat) :
    occurrences (fun offset => changes clk (first + offset)) offset =
      edgeCount clk first (first + offset) := by
  rw [edgeCount, Nat.add_sub_cancel_left]

theorem occurrences_falling (clk : Nat → Bool) (first offset : Nat) :
    occurrences (falling clk first) offset = edgeCount clk first (first + offset) / 2 := by
  rw [falling, occurrences_alternate, occurrences_changes]

theorem falling_iff (rest : clk first = false) (offset : Nat) :
    falling clk first offset = true ↔
      clk (first + offset) = true ∧ clk (first + offset + 1) = false := by
  have parity := level_eq_parity clk (Nat.le_add_right first offset)
  rw [rest, Bool.false_xor] at parity
  rw [falling, alternate, occurrences_changes, ← parity, changes]
  cases clk (first + offset) <;> cases clk (first + offset + 1) <;> decide

theorem data_kept (port : SlavePort clk select serial load data out) (ordered : first ≤ last)
    (unselected : ∀ period, first ≤ period → period < last → select period = false)
    (untouched : ∀ period, first ≤ period → period < last → load period = false) :
    data last = data first := by
  induction last, ordered using Nat.le_induction with
  | base => rfl
  | succ last ordered ih =>
      have low := unselected last ordered (Nat.lt_succ_self last)
      rw [port.keeps last (untouched last ordered (Nat.lt_succ_self last)) (by simp [low])]
      exact ih (fun period lower upper => unselected period lower (Nat.lt_succ_of_lt upper))
        (fun period lower upper => untouched period lower (Nat.lt_succ_of_lt upper))

/-- Left alone, the data register is a shift register enabled by the falling edges. -/
theorem data_eq (port : SlavePort clk select serial load data out) (rest : clk first = false)
    (serving : Serving select load (first + start) last) (upTo : first + start + offset ≤ last) :
    data (first + start + offset) =
      shifted (data (first + start)) (fun offset => falling clk first (start + offset))
        (fun offset => serial (first + start + offset)) offset := by
  induction offset with
  | zero => rfl
  | succ offset ih =>
      have selected := serving.selected (first + start + offset) (Nat.le_add_right _ _)
        (Nat.le_of_succ_le upTo)
      have unloaded := serving.untouched (first + start + offset) (Nat.le_add_right _ _) upTo
      have edge := falling_iff rest (start + offset)
      rw [← Nat.add_assoc] at edge
      rw [shifted_succ, ← ih (Nat.le_of_succ_le upTo)]
      cases falls : falling clk first (start + offset) with
      | true =>
          obtain ⟨high, low⟩ := edge.mp falls
          rw [if_pos rfl]
          exact port.shifts (first + start + offset) selected unloaded high low
      | false =>
          rw [if_neg Bool.false_ne_true]
          apply port.keeps (first + start + offset) unloaded
          rintro ⟨_selected, seen⟩
          rw [edge.mpr seen] at falls
          cases falls

theorem data_eq_first (port : SlavePort clk select serial load data out)
    (rest : clk first = false) (serving : Serving select load first last)
    (upTo : first + offset ≤ last) :
    data (first + offset) =
      shifted (data first) (falling clk first) (fun offset => serial (first + offset)) offset := by
  have fromStart : Serving select load (first + 0) last := serving
  have shown := port.data_eq rest fromStart upTo
  simp only [Nat.add_zero, Nat.zero_add] at shown
  exact shown

theorem shiftCount_eq (clk : Nat → Bool) (first start offset : Nat) :
    occurrences (fun offset => falling clk first (start + offset)) offset =
      edgeCount clk first (first + start + offset) / 2 -
        edgeCount clk first (first + start) / 2 := by
  have total := Nat.count_add (fun period => falling clk first period = true) start offset
  have whole := occurrences_falling clk first (start + offset)
  have before := occurrences_falling clk first start
  rw [← Nat.add_assoc] at whole
  rw [occurrences] at whole before ⊢
  omega

theorem msb_eq (port : SlavePort clk select serial load data out) (rest : clk first = false)
    (serving : Serving select load (first + start) last) (upTo : first + start + offset ≤ last)
    (inWord : edgeCount clk first (first + start + offset) / 2 -
      edgeCount clk first (first + start) / 2 < width) :
    (data (first + start + offset)).msb =
      (data (first + start)).getLsbD (width - 1 -
        (edgeCount clk first (first + start + offset) / 2 -
          edgeCount clk first (first + start) / 2)) := by
  have shifts := shiftCount_eq clk first start offset
  rw [port.data_eq rest serving upTo, shifted_msb _ _ _ (by rw [shifts]; exact inWord), shifts]

/-- After a rising edge the output shows the bit of the last one, bits numbered from
the top of the word as it was when the slave was left alone. -/
theorem out_eq (port : SlavePort clk select serial load data out) (rest : clk first = false)
    (serving : Serving select load (first + start) last)
    (upTo : first + start + offset ≤ last + 1)
    (driven : (edgeCount clk first (first + start) + 1) / 2 <
      (edgeCount clk first (first + start + offset) + 1) / 2)
    (inWord : (edgeCount clk first (first + start + offset) - 1) / 2 -
      edgeCount clk first (first + start) / 2 < width) :
    out (first + start + offset) =
      (data (first + start)).getLsbD (width - 1 -
        ((edgeCount clk first (first + start + offset) - 1) / 2 -
          edgeCount clk first (first + start) / 2)) := by
  induction offset with
  | zero => exact absurd driven (Nat.lt_irrefl _)
  | succ offset ih =>
      have within : first + start + offset ≤ last := Nat.le_of_succ_le_succ upTo
      have selected := serving.selected (first + start + offset) (Nat.le_add_right _ _) within
      have parity := level_eq_parity clk (by omega : first ≤ first + start + offset)
      have counted := edgeCount_succ clk (by omega : first ≤ first + start + offset)
      rw [rest, Bool.false_xor] at parity
      rw [← Nat.add_assoc] at driven inWord ⊢
      by_cases same : clk (first + start + offset) = clk (first + start + offset + 1)
      · rw [if_pos same, Nat.add_zero] at counted
        rw [counted] at driven inWord ⊢
        rw [port.holds (first + start + offset) selected (by rw [same]; simp)]
        exact ih (Nat.le_of_succ_le upTo) driven inWord
      · rw [if_neg same] at counted
        rw [counted] at driven inWord ⊢
        rw [Nat.add_sub_cancel] at inWord ⊢
        cases now : clk (first + start + offset) with
        | false =>
            -- A rising edge drives the top bit.
            have next : clk (first + start + offset + 1) = true := by
              rw [now] at same
              exact Bool.eq_true_of_not_eq_false (Ne.symm same)
            rw [port.drives (first + start + offset) selected now next]
            exact port.msb_eq rest serving within inWord
        | true =>
            -- A falling edge leaves the bit of the rising one before it.
            rw [now] at parity
            have odd := Nat.mod_two_of_bodd (edgeCount clk first (first + start + offset))
            rw [← parity, Bool.toNat_true] at odd
            have place : edgeCount clk first (first + start + offset) / 2 =
                (edgeCount clk first (first + start + offset) - 1) / 2 := by
              omega
            rw [port.holds (first + start + offset) selected (by rw [now]; simp), place]
            exact ih (Nat.le_of_succ_le upTo) (by omega) (by omega)

theorem out_kept (port : SlavePort clk select serial load data out) (rest : clk first = false)
    (selected : ∀ period, first + start ≤ period → period < first + start + offset →
      select period = true)
    (quiet : (edgeCount clk first (first + start + offset) + 1) / 2 =
      (edgeCount clk first (first + start) + 1) / 2) :
    out (first + start + offset) = out (first + start) := by
  induction offset with
  | zero => rfl
  | succ offset ih =>
      have ordered : first ≤ first + start + offset := by omega
      have parity := level_eq_parity clk ordered
      have counted := edgeCount_succ clk ordered
      have grown := edgeCount_add clk (by omega : first ≤ first + start)
        (by omega : first + start ≤ first + start + offset)
      rw [rest, Bool.false_xor] at parity
      rw [← Nat.add_assoc] at quiet selected ⊢
      have noRise : ¬(clk (first + start + offset) = false ∧
          clk (first + start + offset + 1) = true) := by
        rintro ⟨low, high⟩
        have even := Nat.mod_two_of_bodd (edgeCount clk first (first + start + offset))
        rw [← parity, low, Bool.toNat_false] at even
        rw [low, high, if_neg Bool.false_ne_true] at counted
        omega
      have before : edgeCount clk first (first + start + offset) ≤
          edgeCount clk first (first + start + offset + 1) := by
        rw [counted]
        exact Nat.le_add_right _ _
      rw [port.holds (first + start + offset)
        (selected _ (Nat.le_add_right _ _) (Nat.lt_succ_self _)) noRise]
      exact ih (fun period lower upper => selected period lower (Nat.lt_succ_of_lt upper))
        (by omega)

end SlavePort

/-! ### A slave that runs -/

structure SlaveState (width : Nat) where
  data : BitVec width
  out : Bool

/-- The slave from what was loaded into it, with the words written to it. A write
comes before a shift. -/
def slaveAt (clk select serial : Nat → Bool) (write : Nat → Option (BitVec width))
    (initial : SlaveState width) : Nat → SlaveState width
  | 0 => initial
  | period + 1 =>
      let state := slaveAt clk select serial write initial period
      { data :=
          match write period with
          | some word => word
          | none =>
              if select period && clk period && !clk (period + 1) then
                state.data.shiftConcat (serial period)
              else state.data
        out :=
          if select period && !clk period && clk (period + 1) then state.data.msb
          else state.out }

theorem slaveAt_port (clk select serial : Nat → Bool) (write : Nat → Option (BitVec width))
    (initial : SlaveState width) :
    SlavePort clk select serial (fun period => (write period).isSome)
      (fun period => (slaveAt clk select serial write initial period).data)
      (fun period => (slaveAt clk select serial write initial period).out) where
  drives period selected low high := by
    simp only [slaveAt, selected, low, high, Bool.not_false, Bool.and_self, if_true]
  holds period selected noRise := by
    have quiet : (select period && !clk period && clk (period + 1)) = false := by
      rw [← Bool.not_eq_true, Bool.and_eq_true, Bool.and_eq_true, Bool.not_eq_true']
      exact fun rise => noRise ⟨rise.1.2, rise.2⟩
    simp only [slaveAt, quiet, Bool.false_eq_true, if_false]
  shifts period selected unloaded high low := by
    have none : write period = none := by
      rw [← Option.not_isSome_iff_eq_none, unloaded]
      exact Bool.false_ne_true
    simp only [slaveAt, none, selected, high, low, Bool.not_false, Bool.and_self, if_true]
  keeps period unloaded noFall := by
    have none : write period = none := by
      rw [← Option.not_isSome_iff_eq_none, unloaded]
      exact Bool.false_ne_true
    have quiet : (select period && clk period && !clk (period + 1)) = false := by
      rw [← Bool.not_eq_true, Bool.and_eq_true, Bool.and_eq_true, Bool.not_eq_true']
      exact fun fall => noFall ⟨fall.1.1, fall.1.2, fall.2⟩
    simp only [slaveAt, none, quiet, Bool.false_eq_true, if_false]

end SpiFpga.Clocked
