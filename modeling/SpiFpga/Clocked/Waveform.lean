/-
Level waveforms sampled once per clock period.

Occurrences count the periods in which a signal is high.  The edges of a level
are counted in the period that shows the new value.
-/

import Mathlib.Data.Nat.Bits
import Mathlib.Data.Nat.Count

namespace SpiFpga.Clocked

def occurrences (signal : Nat → Bool) (period : Nat) : Nat :=
  Nat.count (fun earlier => signal earlier = true) period

theorem occurrences_zero (signal : Nat → Bool) : occurrences signal 0 = 0 :=
  Nat.count_zero _

theorem occurrences_succ (signal : Nat → Bool) (period : Nat) :
    occurrences signal (period + 1) =
      occurrences signal period + if signal period then 1 else 0 :=
  Nat.count_succ _ _

theorem occurrences_mono (signal : Nat → Bool) : Monotone (occurrences signal) :=
  Nat.count_monotone _

theorem occurrences_congr {signal signal' : Nat → Bool} {period : Nat}
    (same : ∀ earlier, earlier < period → signal earlier = signal' earlier) :
    occurrences signal period = occurrences signal' period := by
  induction period with
  | zero => rfl
  | succ period ih =>
      rw [occurrences_succ, occurrences_succ, same period (Nat.lt_succ_self period),
        ih (fun earlier before => same earlier (Nat.lt_succ_of_lt before))]

theorem occurrences_eq_zero {signal : Nat → Bool} {period : Nat}
    (low : ∀ earlier, earlier < period → signal earlier = false) :
    occurrences signal period = 0 := by
  induction period with
  | zero => exact occurrences_zero signal
  | succ period ih =>
      rw [occurrences_succ, low period (Nat.lt_succ_self period),
        ih (fun earlier before => low earlier (Nat.lt_succ_of_lt before))]
      rfl

theorem occurrences_le {signal signal' : Nat → Bool} {period : Nat}
    (implied : ∀ earlier, earlier < period → signal earlier = true → signal' earlier = true) :
    occurrences signal period ≤ occurrences signal' period := by
  induction period with
  | zero => exact Nat.le_refl _
  | succ period ih =>
      have before := ih (fun earlier before => implied earlier (Nat.lt_succ_of_lt before))
      have now := implied period (Nat.lt_succ_self period)
      rw [occurrences_succ, occurrences_succ]
      cases high : signal period with
      | false => exact Nat.le_trans before (Nat.le_add_right _ _)
      | true =>
          rw [now high]
          exact Nat.succ_le_succ before

theorem eq_of_occurrences_eq {signal signal' : Nat → Bool} {period : Nat}
    (implied : ∀ earlier, earlier < period → signal earlier = true → signal' earlier = true)
    (same : occurrences signal period = occurrences signal' period)
    {earlier : Nat} (before : earlier < period) : signal earlier = signal' earlier := by
  induction period with
  | zero => exact absurd before (Nat.not_lt_zero earlier)
  | succ period ih =>
      have impliedBefore : ∀ earlier, earlier < period →
          signal earlier = true → signal' earlier = true :=
        fun earlier before => implied earlier (Nat.lt_succ_of_lt before)
      have fewer := occurrences_le impliedBefore
      have now := implied period (Nat.lt_succ_self period)
      rw [occurrences_succ, occurrences_succ] at same
      have both : occurrences signal period = occurrences signal' period ∧
          signal period = signal' period := by
        cases high : signal period with
        | true =>
            rw [high, now high] at same
            exact ⟨Nat.add_right_cancel same, (now high).symm⟩
        | false =>
            rw [high] at same
            cases high' : signal' period with
            | false =>
                rw [high'] at same
                exact ⟨same, rfl⟩
            | true =>
                rw [high'] at same
                simp only [Bool.false_eq_true, if_false, if_true] at same
                omega
      rcases Nat.lt_or_eq_of_le (Nat.le_of_lt_succ before) with inside | last
      · exact ih impliedBefore both.1 inside
      · rw [last]
        exact both.2

/-- Every second occurrence: those that an odd number of others precede. -/
def alternate (signal : Nat → Bool) (period : Nat) : Bool :=
  signal period && (occurrences signal period).bodd

theorem occurrences_alternate (signal : Nat → Bool) (period : Nat) :
    occurrences (alternate signal) period = occurrences signal period / 2 := by
  induction period with
  | zero => simp only [occurrences_zero, Nat.zero_div]
  | succ period ih =>
      have parity := Nat.mod_two_of_bodd (occurrences signal period)
      rw [occurrences_succ, occurrences_succ, ih, alternate]
      cases signal period with
      | false => rfl
      | true =>
          cases odd : (occurrences signal period).bodd with
          | false =>
              rw [odd, Bool.toNat_false] at parity
              simp only [Bool.true_and, Bool.false_eq_true, if_false, if_true]
              omega
          | true =>
              rw [odd, Bool.toNat_true] at parity
              simp only [Bool.true_and, if_true]
              omega

/-- The first period, from a given one on, in which something holds. -/
structure Earliest (holds : Nat → Prop) (first period : Nat) : Prop where
  ordered : first ≤ period
  now : holds period
  notEarlier : ∀ earlier, first ≤ earlier → earlier < period → ¬holds earlier

theorem Earliest.unique {holds : Nat → Prop} {first period period' : Nat}
    (earliest : Earliest holds first period) (earliest' : Earliest holds first period') :
    period = period' := by
  rcases Nat.lt_trichotomy period period' with before | same | after
  · exact absurd earliest.now (earliest'.notEarlier period earliest.ordered before)
  · exact same
  · exact absurd earliest'.now (earliest.notEarlier period' earliest'.ordered after)

/-- A rank that falls within every gap, as long as it is not zero, reaches zero. -/
theorem exists_rank_zero (rank : Nat → Nat) (gap : Nat) {first : Nat}
    (falls : ∀ period, first ≤ period → 0 < rank period →
      ∃ later, period < later ∧ later ≤ period + gap ∧ rank later < rank period) :
    ∃ last, first ≤ last ∧ last ≤ first + rank first * gap ∧ rank last = 0 := by
  induction isLeft : rank first using Nat.strong_induction_on generalizing first with
  | _ left ih =>
      subst isLeft
      rcases Nat.eq_zero_or_pos (rank first) with none | some
      · exact ⟨first, Nat.le_refl first, Nat.le_add_right _ _, none⟩
      · obtain ⟨later, after, within, lower⟩ := falls first (Nat.le_refl first) some
        obtain ⟨last, ordered, bounded, zero⟩ := ih (rank later) lower
          (fun period upTo => falls period (by omega)) rfl
        have shorter : (rank later + 1) * gap ≤ rank first * gap :=
          Nat.mul_le_mul_right gap lower
        rw [Nat.add_mul, Nat.one_mul] at shorter
        exact ⟨last, by omega, by omega, zero⟩

theorem exists_last_high (level : Nat → Bool) (period : Nat) :
    (∀ earlier, earlier < period → level earlier = false) ∨
      ∃ last, last < period ∧ level last = true ∧
        ∀ between, last < between → between < period → level between = false := by
  induction period with
  | zero => exact Or.inl (fun earlier before => absurd before (Nat.not_lt_zero earlier))
  | succ period ih =>
      cases now : level period with
      | true =>
          refine Or.inr ⟨period, Nat.lt_succ_self period, now, ?_⟩
          intro between lower upper
          exact absurd lower (Nat.not_lt_of_le (Nat.le_of_lt_succ upper))
      | false =>
          rcases ih with none | ⟨last, before, high, since⟩
          · left
            intro earlier before
            rcases Nat.lt_or_eq_of_le (Nat.le_of_lt_succ before) with inside | same
            · exact none earlier inside
            · rw [same]
              exact now
          · refine Or.inr ⟨last, Nat.lt_succ_of_lt before, high, ?_⟩
            intro between lower upper
            rcases Nat.lt_or_eq_of_le (Nat.le_of_lt_succ upper) with inside | same
            · exact since between lower inside
            · rw [same]
              exact now

def changes (level : Nat → Bool) (period : Nat) : Bool :=
  level period != level (period + 1)

/-- Number of edges that appear after one period and no later than another. -/
def edgeCount (level : Nat → Bool) (first last : Nat) : Nat :=
  occurrences (fun offset => changes level (first + offset)) (last - first)

theorem edgeCount_self (level : Nat → Bool) (first : Nat) : edgeCount level first first = 0 := by
  rw [edgeCount, Nat.sub_self, occurrences_zero]

theorem edgeCount_succ (level : Nat → Bool) {first last : Nat} (ordered : first ≤ last) :
    edgeCount level first (last + 1) =
      edgeCount level first last + if level last = level (last + 1) then 0 else 1 := by
  have position : first + (last - first) = last := by omega
  rw [edgeCount, Nat.succ_sub ordered, occurrences_succ, position, edgeCount]
  by_cases same : level last = level (last + 1)
  · simp [changes, same]
  · simp [changes, same]

end SpiFpga.Clocked
