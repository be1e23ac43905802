/-
Two dividers on nested gates.

The outer divider has twice the range of the inner one, and its pulses are meant
to meet every second pulse of the inner divider.  Between two closings of the
inner gate the distance of the two counts does not change, so this is decided at
each opening: by the time for which the outer gate has been open, and by the
parity of the inner pulses so far.
-/

import Mathlib.Tactic.Ring
import SpiFpga.Clocked.Divider

namespace SpiFpga.Clocked

structure Opens (gate : Nat → Bool) (first : Nat) : Prop where
  isOpen : gate first = true
  fresh : elapsed gate first = 0

/-- The outer count stands where the parity of the inner pulses wants it. -/
def InPhase (outer inner : Nat → Bool) (modulus first : Nat) : Prop :=
  modulus * 2 ∣ elapsed outer first + modulus * (occurrences (pulses modulus inner) first + 1)

/-- The inner gate closes again before either divider has a pulse that the other
one should meet. -/
structure ClosesFirst (outer inner : Nat → Bool) (modulus first length : Nat) : Prop where
  even : (occurrences (pulses modulus inner) first).bodd = false
  short : length ≤ modulus
  closes : inner (first + length) = false
  noPulse : ∀ offset, offset < length → ¬modulus * 2 ∣ elapsed outer first + offset

/-- In one period since an opening the outer divider pulses exactly when the inner
one does with an odd number of pulses before. -/
def CountsMeet (outer inner : Nat → Bool) (modulus first length : Nat) : Prop :=
  modulus * 2 ∣ elapsed outer first + length ↔
    ∃ quotient, length = modulus * quotient ∧
      (occurrences (pulses modulus inner) first + quotient).bodd = true

variable {outer inner : Nat → Bool} {modulus first length : Nat}

/-! ### One opening of the inner gate -/

theorem ceilDiv_le_one {width : Nat} (positive : 0 < width) (short : width ≤ modulus) :
    width ⌈/⌉ modulus = 1 := by
  have modulusPos : 0 < modulus := Nat.lt_of_lt_of_le positive short
  apply Nat.le_antisymm
  · rw [ceilDiv_le_iff_le_mul modulusPos, Nat.mul_one]
    exact short
  · by_contra none
    have zero : width ≤ modulus * 0 :=
      (ceilDiv_le_iff_le_mul modulusPos).mp (Nat.le_of_lt_succ (Nat.lt_of_not_le none))
    omega

theorem mul_ceilDiv (positive : 0 < modulus) (quotient : Nat) :
    (modulus * quotient) ⌈/⌉ modulus = quotient := by
  apply Nat.le_antisymm
  · rw [ceilDiv_le_iff_le_mul positive]
  · exact Nat.le_of_mul_le_mul_left ((ceilDiv_le_iff_le_mul positive).mp (Nat.le_refl _)) positive

theorem Opened.alternate_iff (positive : 0 < modulus) (opened : Opened inner first length)
    (isOpen : inner (first + length) = true) :
    alternate (pulses modulus inner) (first + length) = true ↔
      ∃ quotient, length = modulus * quotient ∧
        (occurrences (pulses modulus inner) first + quotient).bodd = true := by
  rw [alternate, Bool.and_eq_true, pulses, isOpen, Bool.true_and, opened.elapsed_eq,
    decide_eq_true_eq, opened.occurrences_pulses positive]
  constructor
  · intro both
    obtain ⟨⟨quotient, rfl⟩, odd⟩ := both
    rw [mul_ceilDiv positive] at odd
    exact ⟨quotient, rfl, odd⟩
  · intro some
    obtain ⟨quotient, rfl, odd⟩ := some
    rw [mul_ceilDiv positive]
    exact ⟨Nat.dvd_mul_right _ _, odd⟩

theorem Opened.outer_iff (nested : ∀ period, inner period = true → outer period = true)
    (opened : Opened inner first length) (isOpen : inner (first + length) = true) :
    pulses (modulus * 2) outer (first + length) = true ↔
      modulus * 2 ∣ elapsed outer first + length := by
  have outerOpen : ∀ offset, offset < length → outer (first + offset) = true :=
    fun offset before => nested _ (opened.isOpen offset before)
  rw [pulses, nested _ isOpen, Bool.true_and, elapsed_add outerOpen, decide_eq_true_eq]

theorem Opened.meets_iff (positive : 0 < modulus)
    (nested : ∀ period, inner period = true → outer period = true)
    (opened : Opened inner first length) (isOpen : inner (first + length) = true) :
    (inner (first + length) && pulses (modulus * 2) outer (first + length)) =
        alternate (pulses modulus inner) (first + length) ↔
      CountsMeet outer inner modulus first length := by
  rw [isOpen, Bool.true_and, Bool.eq_iff_iff, opened.outer_iff nested isOpen,
    opened.alternate_iff positive isOpen]
  rfl

theorem odd_iff (number : Nat) : number.bodd = true ↔ number % 2 = 1 := by
  rw [Nat.mod_two_of_bodd]
  cases number.bodd <;> simp

theorem InPhase.countsMeet (positive : 0 < modulus) (phase : InPhase outer inner modulus first) :
    CountsMeet outer inner modulus first length := by
  unfold InPhase at phase
  unfold CountsMeet
  generalize occurrences (pulses modulus inner) first = count at phase ⊢
  generalize elapsed outer first = time at phase ⊢
  constructor
  · intro divides
    obtain ⟨double, atOpening⟩ := phase
    obtain ⟨double', atPeriod⟩ := divides
    have single : modulus ∣ length := by
      have inTime : modulus ∣ time + modulus * (count + 1) :=
        ⟨2 * double, by rw [atOpening, Nat.mul_assoc]⟩
      have inSum : modulus ∣ time + length := ⟨2 * double', by rw [atPeriod, Nat.mul_assoc]⟩
      have timeDivides := (Nat.dvd_add_left (Nat.dvd_mul_right modulus _)).mp inTime
      exact (Nat.dvd_add_right timeDivides).mp inSum
    obtain ⟨quotient, rfl⟩ := single
    refine ⟨quotient, rfl, (odd_iff _).mpr ?_⟩
    have balance : modulus * (quotient + 2 * double) = modulus * (count + 1 + 2 * double') := by
      have left : modulus * (quotient + 2 * double) =
          modulus * quotient + modulus * 2 * double := by ring
      have right : modulus * (count + 1 + 2 * double') =
          modulus * (count + 1) + modulus * 2 * double' := by ring
      omega
    have counts := Nat.eq_of_mul_eq_mul_left positive balance
    omega
  · intro some
    obtain ⟨quotient, rfl, odd⟩ := some
    rw [odd_iff] at odd
    obtain ⟨half, parity⟩ : ∃ half, quotient + (count + 1) = 2 * half :=
      ⟨(quotient + (count + 1)) / 2, by omega⟩
    have whole : modulus * 2 ∣ time + modulus * quotient + modulus * 2 * (count + 1) := by
      have regroup : time + modulus * quotient + modulus * 2 * (count + 1) =
          time + modulus * (count + 1) + modulus * (quotient + (count + 1)) := by ring
      rw [regroup, parity, ← Nat.mul_assoc]
      exact Nat.dvd_add phase (Nat.dvd_mul_right _ _)
    exact (Nat.dvd_add_left (Nat.dvd_mul_right _ _)).mp whole

theorem ClosesFirst.countsMeet {closing : Nat}
    (closes : ClosesFirst outer inner modulus first closing) (before : length < closing) :
    CountsMeet outer inner modulus first length := by
  constructor
  · intro divides
    exact absurd divides (closes.noPulse length before)
  · intro some
    obtain ⟨quotient, rfl, odd⟩ := some
    have short := closes.short
    cases quotient with
    | zero =>
        rw [Nat.add_zero, closes.even] at odd
        cases odd
    | succ quotient =>
        rw [Nat.mul_succ] at before
        omega

/-! ### All openings -/

/-- The outer pulses inside the inner gate are every second inner pulse. -/
def Meets (outer inner : Nat → Bool) (modulus last : Nat) : Prop :=
  ∀ period, period < last →
    (inner period && pulses (modulus * 2) outer period) = alternate (pulses modulus inner) period

theorem meets_of_inPhase (positive : 0 < modulus)
    (nested : ∀ period, inner period = true → outer period = true) {last : Nat}
    (phases : ∀ first, first < last → Opens inner first →
      InPhase outer inner modulus first ∨
        ∃ closing, ClosesFirst outer inner modulus first closing) :
    Meets outer inner modulus last := by
  intro period inRange
  rcases Bool.eq_false_or_eq_true (inner period) with isOpen | isClosed
  · obtain ⟨first, length, rfl, opened⟩ := exists_opened inner period
    have opensFirst : Opens inner first := by
      refine ⟨?_, opened.fresh⟩
      cases length with
      | zero => exact isOpen
      | succ length => exact opened.isOpen 0 (Nat.succ_pos length)
    apply (opened.meets_iff positive nested isOpen).mpr
    rcases phases first (by omega) opensFirst with phase | ⟨closing, closes⟩
    · exact phase.countsMeet positive
    · apply closes.countsMeet
      by_contra late
      have isClosed := closes.closes
      rcases Nat.lt_or_eq_of_le (Nat.le_of_not_lt late) with inside | now
      · rw [opened.isOpen closing inside] at isClosed
        cases isClosed
      · rw [now, isOpen] at isClosed
        cases isClosed
  · have noPulse : pulses modulus inner period = false := by
      rw [pulses, isClosed, Bool.false_and]
    rw [alternate, noPulse, isClosed, Bool.false_and, Bool.false_and]

/-- A run of inner pulses that stays open for no more than one range has one
pulse, so it cannot end on an even number of them when it started on one. -/
theorem Opened.odd_of_short (positive : 0 < length) (short : length ≤ modulus)
    (opened : Opened inner first length)
    (even : (occurrences (pulses modulus inner) first).bodd = false) :
    (occurrences (pulses modulus inner) (first + length)).bodd = true := by
  rw [opened.occurrences_pulses (Nat.lt_of_lt_of_le positive short),
    ceilDiv_le_one positive short, Nat.bodd_succ, even]
  rfl

/-- An opening on an odd number of pulses is itself a pulse that has to be met. -/
theorem inPhase_of_odd (odd : (occurrences (pulses modulus inner) first).bodd = true)
    (meet : CountsMeet outer inner modulus first 0) : InPhase outer inner modulus first := by
  have divides := meet.mpr ⟨0, rfl, odd⟩
  rw [odd_iff] at odd
  obtain ⟨half, parity⟩ : ∃ half, occurrences (pulses modulus inner) first + 1 = 2 * half :=
    ⟨(occurrences (pulses modulus inner) first + 1) / 2, by omega⟩
  rw [InPhase, parity, ← Nat.mul_assoc]
  exact Nat.dvd_add divides (Nat.dvd_mul_right _ _)

/-- After an opening on an even number the first pulse to meet is the second. -/
theorem inPhase_of_even (even : (occurrences (pulses modulus inner) first).bodd = false)
    (meet : CountsMeet outer inner modulus first modulus) : InPhase outer inner modulus first := by
  have divides := meet.mpr ⟨1, (Nat.mul_one _).symm, by rw [Nat.bodd_succ, even]; rfl⟩
  have parity : occurrences (pulses modulus inner) first % 2 = 0 := by
    rw [Nat.mod_two_of_bodd, even]
    rfl
  obtain ⟨half, double⟩ := Nat.dvd_of_mod_eq_zero parity
  have regroup : elapsed outer first + modulus * (2 * half + 1) =
      elapsed outer first + modulus + modulus * 2 * half := by ring
  rw [InPhase, double, regroup]
  exact Nat.dvd_add divides (Nat.dvd_mul_right _ _)

theorem closesFirst_of_even {closing : Nat}
    (even : (occurrences (pulses modulus inner) first).bodd = false)
    (short : closing ≤ modulus) (closes : inner (first + closing) = false)
    (meet : ∀ offset, offset < closing → CountsMeet outer inner modulus first offset) :
    ClosesFirst outer inner modulus first closing := by
  refine ⟨even, short, closes, ?_⟩
  intro offset before divides
  obtain ⟨quotient, multiple, odd⟩ := (meet offset before).mp divides
  cases quotient with
  | zero =>
      rw [Nat.add_zero, even] at odd
      cases odd
  | succ quotient =>
      rw [Nat.mul_succ] at multiple
      omega

theorem inPhase_of_meets (positive : 0 < modulus)
    (nested : ∀ period, inner period = true → outer period = true) {last : Nat}
    (total : (occurrences (pulses modulus inner) last).bodd = false)
    (meets : Meets outer inner modulus last) (before : first < last)
    (opens : Opens inner first) :
    InPhase outer inner modulus first ∨
      ∃ closing, ClosesFirst outer inner modulus first closing := by
  have meetAt : ∀ {length}, Opened inner first length → inner (first + length) = true →
      first + length < last → CountsMeet outer inner modulus first length :=
    fun opened isOpen inRange => (opened.meets_iff positive nested isOpen).mp (meets _ inRange)
  cases even : (occurrences (pulses modulus inner) first).bodd with
  | true =>
      left
      exact inPhase_of_odd even (meetAt (opened_zero opens.fresh) opens.isOpen before)
  | false =>
      -- the total is even, so the range cannot end within the first pulse
      have reaches : ∀ {length}, length ≤ modulus → Opened inner first length →
          first + length < last := by
        intro length short opened
        by_contra beyond
        have atEnd : first + (last - first) = last := by omega
        have odd := (opened.mono (by omega : last - first ≤ length)).odd_of_short
          (by omega) (by omega) even
        rw [atEnd, total] at odd
        cases odd
      by_cases closes : ∃ closing, closing ≤ modulus ∧ inner (first + closing) = false
      · right
        have found := Nat.find_spec closes
        have isOpen : ∀ offset, offset < Nat.find closes → inner (first + offset) = true := by
          intro offset earlier
          by_contra isClosed
          exact Nat.find_min closes earlier ⟨by omega, Bool.eq_false_of_not_eq_true isClosed⟩
        refine ⟨Nat.find closes, closesFirst_of_even even found.1 found.2 ?_⟩
        intro offset earlier
        have opened : Opened inner first offset :=
          ⟨opens.fresh, fun between inside => isOpen between (Nat.lt_trans inside earlier)⟩
        exact meetAt opened (isOpen offset earlier) (reaches (by omega) opened)
      · left
        have isOpen : ∀ offset, offset ≤ modulus → inner (first + offset) = true := by
          intro offset upToModulus
          by_contra isClosed
          exact closes ⟨offset, upToModulus, Bool.eq_false_of_not_eq_true isClosed⟩
        have opened : Opened inner first modulus :=
          ⟨opens.fresh, fun offset earlier => isOpen offset (Nat.le_of_lt earlier)⟩
        exact inPhase_of_even even
          (meetAt opened (isOpen modulus (Nat.le_refl _)) (reaches (Nat.le_refl _) opened))

theorem meets_iff_inPhase (positive : 0 < modulus)
    (nested : ∀ period, inner period = true → outer period = true) {last : Nat}
    (total : (occurrences (pulses modulus inner) last).bodd = false) :
    Meets outer inner modulus last ↔ ∀ first, first < last → Opens inner first →
      InPhase outer inner modulus first ∨
        ∃ closing, ClosesFirst outer inner modulus first closing := by
  constructor
  · intro meets first before opens
    exact inPhase_of_meets positive nested total meets before opens
  · intro phases
    exact meets_of_inPhase positive nested phases

end SpiFpga.Clocked
