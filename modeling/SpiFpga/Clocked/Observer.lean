/-
A level seen from the other end of a line.

The observer shows, in each period, the level of an earlier period: never older
than a given lag, and never older than what it showed before.  Such a view may
skip periods and repeat them.  It keeps the edges of the line, one for one, as long
as no two of them are closer than what it can skip at once.
-/

import SpiFpga.Clocked.Waveform

namespace SpiFpga.Clocked

/-! ### Edges between two periods -/

variable {level : Nat → Bool} {first middle last gap : Nat}

theorem edgeCount_add (level : Nat → Bool) (lower : first ≤ middle) (upper : middle ≤ last) :
    edgeCount level first last = edgeCount level first middle + edgeCount level middle last := by
  induction last, upper using Nat.le_induction with
  | base => rw [edgeCount_self, Nat.add_zero]
  | succ last upper ih =>
      rw [edgeCount_succ level (Nat.le_trans lower upper), edgeCount_succ level upper, ih,
        Nat.add_assoc]

theorem level_eq_parity (level : Nat → Bool) (ordered : first ≤ last) :
    level last = (level first ^^ (edgeCount level first last).bodd) := by
  induction last, ordered using Nat.le_induction with
  | base => rw [edgeCount_self, Nat.bodd_zero, Bool.xor_false]
  | succ last ordered ih =>
      rw [edgeCount_succ level ordered]
      by_cases same : level last = level (last + 1)
      · rw [if_pos same, ← same, ih]
        rfl
      · rw [if_neg same, Nat.bodd_succ, Bool.xor_not, ← ih]
        exact Bool.eq_not.mpr (Ne.symm same)

/-- The edges that leave the level of the first period are every other one. -/
theorem occurrences_leading (level : Nat → Bool) (first offset : Nat) :
    occurrences (fun offset => changes level (first + offset) &&
        level (first + offset) == level first) offset =
      (edgeCount level first (first + offset) + 1) / 2 := by
  induction offset with
  | zero =>
      change 0 = (edgeCount level first first + 1) / 2
      rw [edgeCount_self]
  | succ offset ih =>
      have parity := level_eq_parity level (Nat.le_add_right first offset)
      have counted := edgeCount_succ level (Nat.le_add_right first offset)
      have remainder := Nat.mod_two_of_bodd (edgeCount level first (first + offset))
      rw [occurrences_succ, ih, ← Nat.add_assoc, counted]
      by_cases same : level (first + offset) = level (first + offset + 1)
      · simp [changes, same]
      · have changed : changes level (first + offset) = true := by
          rw [changes, bne_iff_ne]
          exact same
        rw [changed, Bool.true_and, if_neg same, parity]
        cases odd : (edgeCount level first (first + offset)).bodd with
        | false =>
            rw [odd, Bool.toNat_false] at remainder
            simp only [Bool.xor_false, BEq.rfl, if_true]
            omega
        | true =>
            rw [odd, Bool.toNat_true] at remainder
            simp only [Bool.xor_true, Bool.not_beq_self, Bool.false_eq_true, if_false]
            omega

/-- The edges between two periods are no closer than the gap. -/
def Spaced (level : Nat → Bool) (gap first last : Nat) : Prop :=
  ∀ earlier later, first ≤ earlier → earlier < later → later < last →
    changes level earlier = true → changes level later = true → earlier + gap ≤ later

theorem Spaced.mono {first' last' : Nat} (spaced : Spaced level gap first last)
    (lower : first ≤ first') (upper : last' ≤ last) : Spaced level gap first' last' := by
  intro earlier later atLeast before atMost
  exact spaced earlier later (Nat.le_trans lower atLeast) before (Nat.lt_of_lt_of_le atMost upper)

theorem Spaced.edgeCount_le_one (spaced : Spaced level gap first last) (ordered : first ≤ last)
    (short : last ≤ first + gap) : edgeCount level first last ≤ 1 := by
  induction last, ordered using Nat.le_induction with
  | base =>
      rw [edgeCount_self]
      exact Nat.zero_le 1
  | succ last ordered ih =>
      have before := ih (spaced.mono (Nat.le_refl _) (Nat.le_succ _)) (Nat.le_of_succ_le short)
      rw [edgeCount_succ level ordered]
      by_cases same : level last = level (last + 1)
      · rw [if_pos same]
        exact before
      · rw [if_neg same]
        have none : edgeCount level first last = 0 := by
          rw [edgeCount]
          apply occurrences_eq_zero
          intro offset inside
          by_contra some
          have apart := spaced (first + offset) last (Nat.le_add_right _ _) (by omega)
            (Nat.lt_succ_self last) (Bool.eq_true_of_not_eq_false some)
            (by rw [changes, bne_iff_ne]; exact same)
          omega
        omega

/-! ### The observer -/

structure Observer (lag : Nat) where
  seen : Nat → Nat
  mono : Monotone seen
  past : ∀ period, seen period ≤ period
  recent : ∀ period, period ≤ seen period + lag

namespace Observer

variable {lag : Nat} (observer : Observer lag)

def observed (level : Nat → Bool) (period : Nat) : Bool :=
  level (observer.seen period)

def direct : Observer lag where
  seen := fun period => period
  mono := fun _earlier _later ordered => ordered
  past := Nat.le_refl
  recent := fun period => Nat.le_add_right period lag

/-- A view that is taken anew whenever it is as old as the lag allows. -/
def refreshed : Observer lag where
  seen := fun period => period / (lag + 1) * (lag + 1)
  mono := fun _earlier _later ordered =>
    Nat.mul_le_mul_right (lag + 1) (Nat.div_le_div_right ordered)
  past := fun period => Nat.div_mul_le_self period (lag + 1)
  recent := fun period => by
    have parts := Nat.div_add_mod' period (lag + 1)
    have short : period % (lag + 1) < lag + 1 := Nat.mod_lt period (Nat.succ_pos lag)
    omega

variable {observer}

theorem seen_succ_le (observer : Observer lag) (period : Nat) :
    observer.seen (period + 1) ≤ observer.seen period + (lag + 1) := by
  have ahead := observer.past (period + 1)
  have behind := observer.recent period
  omega

theorem edgeCount_observed (spaced : Spaced level gap (observer.seen first) (observer.seen last))
    (wide : lag < gap) (ordered : first ≤ last) :
    edgeCount (observer.observed level) first last =
      edgeCount level (observer.seen first) (observer.seen last) := by
  induction last, ordered using Nat.le_induction with
  | base => rw [edgeCount_self, edgeCount_self]
  | succ last ordered ih =>
      have upTo := observer.mono ordered
      have next := observer.mono (Nat.le_succ last)
      have few := (spaced.mono upTo (Nat.le_refl _)).edgeCount_le_one next
        (Nat.le_trans (observer.seen_succ_le last) (Nat.add_le_add_left wide _))
      have parity := level_eq_parity level next
      rw [edgeCount_succ _ ordered, ih (spaced.mono (Nat.le_refl _) next),
        edgeCount_add level upTo next]
      congr 1
      rw [observed, observed, parity]
      obtain none | one : edgeCount level (observer.seen last) (observer.seen (last + 1)) = 0 ∨
          edgeCount level (observer.seen last) (observer.seen (last + 1)) = 1 := by
        omega
      · rw [none]
        simp
      · rw [one]
        simp

theorem exists_step (observer : Observer lag) {period bound offset : Nat}
    (before : observer.seen period < bound) (reached : bound ≤ observer.seen (period + offset)) :
    ∃ earlier, earlier < offset ∧ observer.seen (period + earlier) < bound ∧
      bound ≤ observer.seen (period + earlier + 1) := by
  induction offset with
  | zero => exact absurd before (Nat.not_lt_of_le reached)
  | succ offset ih =>
      by_cases now : observer.seen (period + offset) < bound
      · exact ⟨offset, Nat.lt_succ_self offset, now, reached⟩
      · obtain ⟨earlier, inside, crossing⟩ := ih (Nat.le_of_not_lt now)
        exact ⟨earlier, Nat.lt_succ_of_lt inside, crossing⟩

end Observer

end SpiFpga.Clocked
