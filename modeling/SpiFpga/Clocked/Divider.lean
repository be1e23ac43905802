/-
Gated clock dividers.

A divider counts while its gate is open, wraps when it equals the last value of
its range, and is cleared while the gate is closed.  It pulses in the periods in
which the gate is open and the count is zero.  The count and the pulses are
functions of the gate alone; for a gate that opens once they have closed forms.
-/

import Mathlib.Algebra.Order.Floor.Div
import SpiFpga.Clocked.Waveform

namespace SpiFpga.Clocked

namespace Divider

/-- The wrap is tested on equality only, so the range is an invariant of the
count and not a property of this function. -/
def next (modulus : Int) (gate : Bool) (count : Int) : Int :=
  if gate then (if count = modulus - 1 then 0 else count + 1) else 0

def pulse (gate : Bool) (count : Int) : Bool :=
  gate && decide (count = 0)

@[simp] theorem next_closed (modulus count : Int) : next modulus false count = 0 := rfl

@[simp] theorem pulse_open (count : Int) : pulse true count = decide (count = 0) := rfl

theorem gate_of_pulse {gate : Bool} {count : Int} (pulsed : pulse gate count = true) :
    gate = true := by
  simp only [pulse, Bool.and_eq_true] at pulsed
  exact pulsed.1

theorem next_ne_zero_of_pulse {modulus : Int} (two : 2 ≤ modulus) {gate : Bool} {count : Int}
    (pulsed : pulse gate count = true) : next modulus gate count ≠ 0 := by
  simp only [pulse, Bool.and_eq_true, decide_eq_true_eq] at pulsed
  rcases pulsed with ⟨isOpen, atZero⟩
  have notLast : ¬ (0 : Int) = modulus - 1 := by omega
  simp only [next, isOpen, atZero, if_true, if_neg notLast]
  omega

theorem next_range {modulus : Int} (positive : 1 ≤ modulus) (gate : Bool) {count : Int}
    (range : 0 ≤ count ∧ count < modulus) :
    0 ≤ next modulus gate count ∧ next modulus gate count < modulus := by
  unfold next
  split
  · split <;> omega
  · omega

theorem next_mod {modulus : Nat} (positive : 0 < modulus) (count : Nat) :
    next modulus true ((count % modulus : Nat) : Int) = ((count + 1) % modulus : Nat) := by
  have below := Nat.mod_lt count positive
  unfold next
  rw [if_pos rfl]
  by_cases last : count % modulus + 1 = modulus
  · have wraps : (count + 1) % modulus = 0 := by
      rw [← Nat.mod_add_mod, last, Nat.mod_self]
    rw [wraps, if_pos (by omega)]
    rfl
  · have advances : (count + 1) % modulus = count % modulus + 1 := by
      rw [← Nat.mod_add_mod]
      exact Nat.mod_eq_of_lt (by omega)
    rw [advances, if_neg (by omega)]
    push_cast
    rfl

end Divider

/-- Number of periods for which the gate has been open without interruption. -/
def elapsed (gate : Nat → Bool) : Nat → Nat
  | 0 => 0
  | period + 1 => if gate period then elapsed gate period + 1 else 0

def pulses (modulus : Nat) (gate : Nat → Bool) (period : Nat) : Bool :=
  gate period && decide (modulus ∣ elapsed gate period)

theorem elapsed_succ (gate : Nat → Bool) (period : Nat) :
    elapsed gate (period + 1) = if gate period then elapsed gate period + 1 else 0 := rfl

theorem elapsed_congr {gate gate' : Nat → Bool} {period : Nat}
    (same : ∀ earlier, earlier < period → gate earlier = gate' earlier) :
    elapsed gate period = elapsed gate' period := by
  induction period with
  | zero => rfl
  | succ period ih =>
      rw [elapsed_succ, elapsed_succ, same period (Nat.lt_succ_self period),
        ih (fun earlier before => same earlier (Nat.lt_succ_of_lt before))]

theorem pulses_congr {modulus : Nat} {gate gate' : Nat → Bool} {period : Nat}
    (same : ∀ earlier, earlier ≤ period → gate earlier = gate' earlier) :
    pulses modulus gate period = pulses modulus gate' period := by
  rw [pulses, pulses, same period (Nat.le_refl period),
    elapsed_congr (fun earlier before => same earlier (Nat.le_of_lt before))]

/-- A divider register follows the elapsed open time. While the gate is closed
its contents are indifferent: the next value and the pulse ignore them. -/
theorem Divider.next_elapsed {modulus : Nat} (positive : 0 < modulus)
    {gate : Nat → Bool} {period : Nat} {count : Int}
    (follows : gate period = true → count = (elapsed gate period % modulus : Nat)) :
    Divider.next modulus (gate period) count = (elapsed gate (period + 1) % modulus : Nat) := by
  rw [elapsed_succ]
  cases isOpen : gate period with
  | false => simp
  | true =>
      rw [follows isOpen]
      exact Divider.next_mod positive (elapsed gate period)

theorem Divider.pulse_elapsed {modulus : Nat} {gate : Nat → Bool} {period : Nat} {count : Int}
    (follows : gate period = true → count = (elapsed gate period % modulus : Nat)) :
    Divider.pulse (gate period) count = pulses modulus gate period := by
  unfold pulses
  cases isOpen : gate period with
  | false => rfl
  | true =>
      rw [follows isOpen, Divider.pulse_open, Bool.true_and, decide_eq_decide,
        Nat.dvd_iff_mod_eq_zero]
      exact Int.natCast_eq_zero

/-! ### Since the gate opened -/

/-- The gate opens in one period, or is about to, and stays open for a number of
periods. -/
structure Opened (gate : Nat → Bool) (first length : Nat) : Prop where
  fresh : elapsed gate first = 0
  isOpen : ∀ offset, offset < length → gate (first + offset) = true

theorem Opened.mono {gate : Nat → Bool} {first length length' : Nat}
    (opened : Opened gate first length) (shorter : length' ≤ length) :
    Opened gate first length' :=
  ⟨opened.fresh, fun offset before => opened.isOpen offset (Nat.lt_of_lt_of_le before shorter)⟩

theorem opened_zero {gate : Nat → Bool} {first : Nat} (fresh : elapsed gate first = 0) :
    Opened gate first 0 :=
  ⟨fresh, fun offset before => absurd before (Nat.not_lt_zero offset)⟩

theorem exists_opened (gate : Nat → Bool) (period : Nat) :
    ∃ first length, period = first + length ∧ Opened gate first length := by
  induction period with
  | zero => exact ⟨0, 0, rfl, opened_zero rfl⟩
  | succ period ih =>
      cases isOpen : gate period with
      | false =>
          refine ⟨period + 1, 0, rfl, opened_zero ?_⟩
          rw [elapsed_succ, isOpen]
          rfl
      | true =>
          obtain ⟨first, length, rfl, opened⟩ := ih
          refine ⟨first, length + 1, rfl, opened.fresh, ?_⟩
          intro offset before
          rcases Nat.lt_or_eq_of_le (Nat.le_of_lt_succ before) with inside | last
          · exact opened.isOpen offset inside
          · rw [last]
            exact isOpen

theorem elapsed_add {gate : Nat → Bool} {first length : Nat}
    (isOpen : ∀ offset, offset < length → gate (first + offset) = true) :
    elapsed gate (first + length) = elapsed gate first + length := by
  induction length with
  | zero => rfl
  | succ length ih =>
      rw [← Nat.add_assoc, elapsed_succ, isOpen length (Nat.lt_succ_self length), if_pos rfl,
        ih (fun offset before => isOpen offset (Nat.lt_succ_of_lt before)), Nat.add_assoc]

theorem Opened.elapsed_eq {gate : Nat → Bool} {first length : Nat}
    (opened : Opened gate first length) : elapsed gate (first + length) = length := by
  rw [elapsed_add opened.isOpen, opened.fresh, Nat.zero_add]

private theorem ceilDiv_succ (width modulus : Nat) (positive : 0 < modulus) :
    (width + 1) ⌈/⌉ modulus = width ⌈/⌉ modulus + if modulus ∣ width then 1 else 0 := by
  have shifted : width + 1 + modulus - 1 = (width + modulus - 1) + 1 := by omega
  have raised : width + modulus - 1 + 1 = width + modulus := by omega
  have multiple : modulus ∣ width + modulus - 1 + 1 ↔ modulus ∣ width := by
    rw [raised]
    exact Nat.dvd_add_self_right
  rw [Nat.ceilDiv_eq_add_pred_div, Nat.ceilDiv_eq_add_pred_div, shifted, Nat.succ_div]
  simp only [multiple]

/-- The pulses since the gate opened are the open time over the modulus, rounded
up. -/
theorem Opened.occurrences_pulses {modulus : Nat} (positive : 0 < modulus)
    {gate : Nat → Bool} {first length : Nat} (opened : Opened gate first length) :
    occurrences (pulses modulus gate) (first + length) =
      occurrences (pulses modulus gate) first + length ⌈/⌉ modulus := by
  induction length with
  | zero => rw [Nat.add_zero, zero_ceilDiv, Nat.add_zero]
  | succ length ih =>
      have before := opened.mono (Nat.le_succ length)
      rw [← Nat.add_assoc, occurrences_succ, ih before, ceilDiv_succ _ _ positive, pulses,
        opened.isOpen length (Nat.lt_succ_self length), before.elapsed_eq, Bool.true_and]
      simp only [decide_eq_true_eq, Nat.add_assoc]

/-! ### A gate that opens once -/

def opensAt (first : Nat) (period : Nat) : Bool := decide (first ≤ period)

theorem elapsed_opensAt (first period : Nat) :
    elapsed (opensAt first) period = period - first := by
  induction period with
  | zero => exact (Nat.zero_sub first).symm
  | succ period ih =>
      rw [elapsed_succ, ih]
      by_cases isOpen : first ≤ period
      · rw [opensAt, decide_eq_true isOpen, if_pos rfl]
        omega
      · rw [opensAt, decide_eq_false isOpen, if_neg Bool.false_ne_true]
        omega

theorem pulses_opensAt {modulus first period : Nat} :
    pulses modulus (opensAt first) period = true ↔
      ∃ index, period = first + modulus * index := by
  unfold pulses
  rw [elapsed_opensAt, opensAt, Bool.and_eq_true, decide_eq_true_eq, decide_eq_true_eq]
  constructor
  · rintro ⟨isOpen, index, multiple⟩
    exact ⟨index, by omega⟩
  · rintro ⟨index, rfl⟩
    exact ⟨Nat.le_add_right _ _, index, by omega⟩

theorem opened_opensAt (first length : Nat) : Opened (opensAt first) first length := by
  refine ⟨?_, fun offset _before => decide_eq_true (Nat.le_add_right first offset)⟩
  rw [elapsed_opensAt, Nat.sub_self]

theorem occurrences_opensAt {modulus : Nat} (positive : 0 < modulus) (first period : Nat) :
    occurrences (pulses modulus (opensAt first)) period = (period - first) ⌈/⌉ modulus := by
  have before : occurrences (pulses modulus (opensAt first)) first = 0 := by
    apply occurrences_eq_zero
    intro earlier early
    rw [pulses, opensAt, decide_eq_false (Nat.not_le_of_lt early), Bool.false_and]
  rcases Nat.lt_or_ge period first with early | reached
  · have none := occurrences_mono (pulses modulus (opensAt first)) (Nat.le_of_lt early)
    rw [before] at none
    rw [Nat.sub_eq_zero_of_le (Nat.le_of_lt early), zero_ceilDiv]
    exact Nat.le_zero.mp none
  · obtain ⟨length, rfl⟩ := Nat.exists_eq_add_of_le reached
    rw [(opened_opensAt first length).occurrences_pulses positive, before, Nat.zero_add,
      Nat.add_sub_cancel_left]

theorem occurrences_opensAt_le_iff {modulus : Nat} (positive : 0 < modulus)
    (first period bound : Nat) :
    occurrences (pulses modulus (opensAt first)) period ≤ bound ↔
      period ≤ first + modulus * bound := by
  rw [occurrences_opensAt positive, ceilDiv_le_iff_le_mul positive]
  omega

theorem occurrences_opensAt_eq {modulus : Nat} (positive : 0 < modulus)
    {first period index : Nat} (after : first + modulus * index < period)
    (upTo : period ≤ first + modulus * (index + 1)) :
    occurrences (pulses modulus (opensAt first)) period = index + 1 := by
  apply Nat.le_antisymm
  · exact (occurrences_opensAt_le_iff positive _ _ _).mpr upTo
  · by_contra fewer
    have bounded := (occurrences_opensAt_le_iff positive first period index).mp (by omega)
    omega

theorem occurrences_opensAt_zero {modulus : Nat} (positive : 0 < modulus)
    {first period : Nat} (closed : period ≤ first) :
    occurrences (pulses modulus (opensAt first)) period = 0 :=
  Nat.le_zero.mp ((occurrences_opensAt_le_iff positive _ _ _).mpr (by omega))

end SpiFpga.Clocked
