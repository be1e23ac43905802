/-
Turns that go round.

The requesters stand in a circle.  A turn goes to the first one, from a given place
on, that asks for it, and the next search begins behind that one.  Each turn that
passes a requester over brings the search closer to it, so none is passed over by as
many turns as there are places.

In a word of requests the first one is found with a carry: it runs up from the given
place through the zeros and stops at the first one.
-/

import Mathlib.Algebra.Group.Nat.Defs
import SpiFpga.Clocked.Waveform

namespace SpiFpga.Bus

open Clocked

/-! ### Places in a circle -/

/-- The way from a place up to another, past the last place to the first. -/
def distance (places top index : Nat) : Nat :=
  if top ≤ index then index - top else index + places - top

def behind (places index : Nat) : Nat :=
  if index + 1 = places then 0 else index + 1

variable {places top index other : Nat}

theorem distance_lt (topInside : top < places) (inside : index < places) :
    distance places top index < places := by
  unfold distance
  split_ifs <;> omega

theorem distance_injective (topInside : top < places) (inside : index < places)
    (otherInside : other < places)
    (same : distance places top index = distance places top other) : index = other := by
  unfold distance at same
  split_ifs at same <;> omega

theorem behind_lt (inside : index < places) : behind places index < places := by
  unfold behind
  split_ifs <;> omega

theorem distance_behind (topInside : top < places) (inside : index < places)
    (otherInside : other < places)
    (further : distance places top index < distance places top other) :
    distance places (behind places index) other + distance places top index + 1 =
      distance places top other := by
  unfold distance at further ⊢
  unfold behind
  split_ifs at further ⊢ <;> omega

/-! ### The first requester -/

structure FirstFrom (asks : Nat → Prop) (places top index : Nat) : Prop where
  inside : index < places
  asking : asks index
  nearest : ∀ other, other < places → asks other →
    distance places top index ≤ distance places top other

namespace FirstFrom

variable {asks : Nat → Prop}

theorem unique (topInside : top < places) (found : FirstFrom asks places top index)
    (foundToo : FirstFrom asks places top other) : index = other :=
  distance_injective topInside found.inside foundToo.inside
    (Nat.le_antisymm (found.nearest other foundToo.inside foundToo.asking)
      (foundToo.nearest index found.inside found.asking))

theorem of_top (inside : top < places) (asking : asks top) : FirstFrom asks places top top where
  inside := inside
  asking := asking
  nearest other _inside _asking := by
    rw [distance, if_pos (Nat.le_refl top), Nat.sub_self]
    exact Nat.zero_le _

theorem closer (found : FirstFrom asks places top index) (topInside : top < places)
    (otherInside : other < places) (otherAsks : asks other) (passed : index ≠ other) :
    distance places (behind places index) other < distance places top other := by
  have further : distance places top index < distance places top other :=
    Nat.lt_of_le_of_ne (found.nearest other otherInside otherAsks)
      (fun same => passed (distance_injective topInside found.inside otherInside same))
  have moved := distance_behind topInside found.inside otherInside further
  omega

end FirstFrom

theorem exists_firstFrom {asks : Nat → Prop} (some : ∃ index, index < places ∧ asks index)
    (top : Nat) : ∃ index, FirstFrom asks places top index := by
  classical
  have reached : ∃ way, ∃ index, index < places ∧ asks index ∧ distance places top index = way := by
    obtain ⟨index, inside, asking⟩ := some
    exact ⟨_, index, inside, asking, rfl⟩
  obtain ⟨index, inside, asking, shortest⟩ := Nat.find_spec reached
  refine ⟨index, inside, asking, fun other otherInside otherAsks => ?_⟩
  rw [shortest]
  exact Nat.find_min' reached ⟨other, otherInside, otherAsks, rfl⟩

/-! ### Turns over time -/

/-- A search that goes on from turn to turn, between two periods. A period without a
turn leaves it where it is. -/
structure Circle (places : Nat) (asks : Nat → Nat → Prop) (top : Nat → Nat)
    (turn : Nat → Option Nat) (first last : Nat) : Prop where
  start : top first < places
  found : ∀ period index, first ≤ period → period < last → turn period = some index →
    FirstFrom (asks period) places (top period) index
  moves : ∀ period index, first ≤ period → period < last → turn period = some index →
    top (period + 1) = behind places index
  stays : ∀ period, first ≤ period → period < last → turn period = none →
    top (period + 1) = top period

namespace Circle

variable {asks : Nat → Nat → Prop} {tops : Nat → Nat} {turn : Nat → Option Nat} {first last : Nat}

theorem top_lt (circle : Circle places asks tops turn first last) {offset : Nat}
    (upTo : first + offset ≤ last) : tops (first + offset) < places := by
  induction offset with
  | zero => exact circle.start
  | succ offset ih =>
      rw [← Nat.add_assoc] at upTo ⊢
      have lower := Nat.le_add_right first offset
      cases acts : turn (first + offset) with
      | none =>
          rw [circle.stays _ lower upTo acts]
          exact ih (Nat.le_of_succ_le upTo)
      | some index =>
          rw [circle.moves _ index lower upTo acts]
          exact behind_lt (circle.found _ index lower upTo acts).inside

theorem passed_over (circle : Circle places asks tops turn first last) (inside : other < places)
    {offset : Nat} (upTo : first + offset ≤ last)
    (asking : ∀ period, first ≤ period → period < first + offset →
      turn period ≠ none → asks period other)
    (waiting : ∀ period, first ≤ period → period < first + offset → turn period ≠ some other) :
    occurrences (fun offset => (turn (first + offset)).isSome) offset +
      distance places (tops (first + offset)) other ≤ distance places (tops first) other := by
  induction offset with
  | zero =>
      rw [occurrences_zero, Nat.zero_add]
      exact Nat.le_refl _
  | succ offset ih =>
      rw [← Nat.add_assoc] at upTo asking waiting
      have lower := Nat.le_add_right first offset
      have before := ih (Nat.le_of_succ_le upTo)
        (fun period atLeast atMost => asking period atLeast (Nat.lt_succ_of_lt atMost))
        (fun period atLeast atMost => waiting period atLeast (Nat.lt_succ_of_lt atMost))
      rw [occurrences_succ, ← Nat.add_assoc first]
      cases acts : turn (first + offset) with
      | none =>
          rw [circle.stays _ lower upTo acts, Option.isSome_none, if_neg Bool.false_ne_true]
          exact before
      | some index =>
          have passed : index ≠ other := by
            rintro rfl
            exact waiting (first + offset) lower (Nat.lt_succ_self _) acts
          have asks' := asking (first + offset) lower (Nat.lt_succ_self _) (by rw [acts]; nofun)
          have closer := (circle.found _ index lower upTo acts).closer
            (circle.top_lt (Nat.le_of_succ_le upTo)) inside asks' passed
          rw [circle.moves _ index lower upTo acts, Option.isSome_some, if_pos rfl]
          omega

theorem turns_lt (circle : Circle places asks tops turn first last) (inside : other < places)
    {offset : Nat} (upTo : first + offset ≤ last)
    (asking : ∀ period, first ≤ period → period < first + offset →
      turn period ≠ none → asks period other)
    (waiting : ∀ period, first ≤ period → period < first + offset → turn period ≠ some other) :
    occurrences (fun offset => (turn (first + offset)).isSome) offset < places := by
  have used := circle.passed_over inside upTo asking waiting
  have near := distance_lt circle.start inside
  omega

end Circle

/-! ### The first one in a word -/

section Word

variable {width : Nat} (word : BitVec width)

/-- The carry leaves the given place and runs through zeros. -/
theorem carry_iff {place : Nat} (topInside : top < width) (inside : place ≤ width) :
    BitVec.carry place (~~~word) (BitVec.twoPow width top) false = true ↔
      top < place ∧ ∀ other, top ≤ other → other < place → word.getLsbD other = false := by
  induction place with
  | zero =>
      rw [BitVec.carry_zero]
      exact ⟨fun impossible => absurd impossible Bool.false_ne_true,
        fun before => absurd before.1 (Nat.not_lt_zero top)⟩
  | succ place ih =>
      have earlier := ih (Nat.le_of_succ_le inside)
      have added : (BitVec.twoPow width top).getLsbD place = decide (top = place) := by
        rw [BitVec.getLsbD_twoPow, decide_eq_true topInside, Bool.true_and]
      have flipped : (~~~word).getLsbD place = !word.getLsbD place := by
        rw [BitVec.getLsbD_not, decide_eq_true (Nat.lt_of_succ_le inside), Bool.true_and]
      rw [BitVec.carry_succ, added, flipped]
      rcases Nat.lt_trichotomy place top with before | atTop | after
      · have noCarry : BitVec.carry place (~~~word) (BitVec.twoPow width top) false = false := by
          rw [← Bool.not_eq_true, earlier]
          exact fun reached => absurd reached.1 (Nat.not_lt_of_lt before)
        rw [noCarry, decide_eq_false (Nat.ne_of_gt before), Bool.atLeastTwo_false_mid,
          Bool.and_false]
        exact ⟨fun impossible => absurd impossible Bool.false_ne_true, fun reached => by omega⟩
      · have noCarry : BitVec.carry place (~~~word) (BitVec.twoPow width top) false = false := by
          rw [← Bool.not_eq_true, earlier]
          exact fun reached => absurd reached.1 (Nat.not_lt_of_le (Nat.le_of_eq atTop))
        rw [noCarry, decide_eq_true atTop.symm, Bool.atLeastTwo_true_mid, Bool.or_false,
          Bool.not_eq_true']
        constructor
        · intro zero
          refine ⟨by omega, fun other lower upper => ?_⟩
          have here : other = place := by omega
          rw [here]
          exact zero
        · intro zeros
          exact zeros.2 place (Nat.le_of_eq atTop.symm) (Nat.lt_succ_self place)
      · rw [decide_eq_false (Nat.ne_of_lt after), Bool.atLeastTwo_false_mid, Bool.and_eq_true,
          earlier, Bool.not_eq_true']
        constructor
        · rintro ⟨zero, _reached, zeros⟩
          refine ⟨Nat.lt_succ_of_lt after, fun other lower upper => ?_⟩
          rcases Nat.lt_or_eq_of_le (Nat.le_of_lt_succ upper) with inside' | here
          · exact zeros other lower inside'
          · rw [here]
            exact zero
        · rintro ⟨_reached, zeros⟩
          exact ⟨zeros place (Nat.le_of_lt after) (Nat.lt_succ_self place), after,
            fun other lower upper => zeros other lower (Nat.lt_succ_of_lt upper)⟩

/-- What is left of a word when all is cleared but the first one from a place on. -/
theorem isolated_iff {place : Nat} (topInside : top < width) (inside : place < width) :
    (word &&& (~~~word + BitVec.twoPow width top)).getLsbD place = true ↔
      word.getLsbD place = true ∧ top ≤ place ∧
        ∀ other, top ≤ other → other < place → word.getLsbD other = false := by
  have carried := carry_iff word topInside (Nat.le_of_lt inside)
  rw [BitVec.getLsbD_and, BitVec.getLsbD_add inside, BitVec.getLsbD_not, decide_eq_true inside,
    BitVec.getLsbD_twoPow, decide_eq_true topInside, Bool.true_and, Bool.true_and,
    Bool.and_eq_true]
  apply and_congr_right
  intro one
  rw [one, Bool.not_true, Bool.false_xor]
  by_cases atTop : top = place
  · have noCarry : BitVec.carry place (~~~word) (BitVec.twoPow width top) false = false := by
      rw [← Bool.not_eq_true, carried]
      exact fun reached => absurd reached.1 (Nat.not_lt_of_le (Nat.le_of_eq atTop.symm))
    rw [noCarry, decide_eq_true atTop]
    exact ⟨fun _found => ⟨Nat.le_of_eq atTop, fun other lower upper => by omega⟩, fun _first => rfl⟩
  · rw [decide_eq_false atTop, Bool.false_xor, carried]
    exact and_congr_left fun _zeros => ⟨Nat.le_of_lt, fun lower => Nat.lt_of_le_of_ne lower atTop⟩

/-- In the word written twice the search passes the last place by itself. -/
theorem isolated_twice_iff {place : Nat} (topInside : top < width) (inside : place < width) :
    ((word ++ word) &&& (~~~(word ++ word) + BitVec.twoPow (width + width) top)).getLsbD place =
          true ∨
        ((word ++ word) &&& (~~~(word ++ word) + BitVec.twoPow (width + width) top)).getLsbD
          (place + width) = true ↔
      FirstFrom (fun other => word.getLsbD other = true) width top place := by
  have twice : ∀ other, (word ++ word).getLsbD other =
      if other < width then word.getLsbD other else word.getLsbD (other - width) :=
    fun _other => BitVec.getLsbD_append
  have again : place + width - width = place := Nat.add_sub_cancel place width
  rw [isolated_iff _ (by omega) (by omega), isolated_iff _ (by omega) (by omega), twice, twice,
    if_pos inside, if_neg (by omega), again]
  constructor
  · intro found
    refine ⟨inside, found.elim And.left And.left, fun other otherInside otherAsks => ?_⟩
    have noZero : ∀ later, (word ++ word).getLsbD later = false → later ≠ other ∧
        later ≠ other + width := by
      intro later zero
      constructor
      · rintro rfl
        rw [twice, if_pos otherInside, otherAsks] at zero
        cases zero
      · rintro rfl
        rw [twice, if_neg (by omega), Nat.add_sub_cancel, otherAsks] at zero
        cases zero
    unfold distance
    rcases found with ⟨_one, reached, zeros⟩ | ⟨one, _reached, zeros⟩
    · have notBefore : ¬(top ≤ other ∧ other < place) := fun between =>
        (noZero other (zeros other between.1 between.2)).1 rfl
      split_ifs <;> omega
    · have notBefore : ¬(top ≤ other) := fun lower =>
        (noZero other (zeros other lower (by omega))).1 rfl
      have notAfter : ¬(other < place) := fun upper =>
        (noZero (other + width) (zeros (other + width) (by omega) (by omega))).2 rfl
      split_ifs <;> omega
  · rintro ⟨_inside, one, nearest⟩
    have zero : ∀ other, other < width →
        distance width top other < distance width top place → word.getLsbD other = false := by
      intro other otherInside closer
      by_contra asks
      have further := nearest other otherInside (Bool.eq_true_of_not_eq_false asks)
      omega
    unfold distance at zero
    rcases Nat.lt_or_ge place top with before | after
    · refine Or.inr ⟨one, by omega, fun other lower upper => ?_⟩
      rw [twice]
      split
      next low => exact zero other low (by split_ifs <;> omega)
      next high => exact zero (other - width) (by omega) (by split_ifs <;> omega)
    · refine Or.inl ⟨one, after, fun other lower upper => ?_⟩
      rw [twice, if_pos (by omega)]
      exact zero other (by omega) (by rw [if_pos lower, if_pos after]; omega)

end Word

end SpiFpga.Bus
