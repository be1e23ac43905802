/-
Registers on one clock with an asynchronous, level-sensitive reset.

A run is sampled once per clock period: every input is a level that is held for
the whole period, and a state is what the registers show during that period.
The reset level is consulted twice on the way from one period to the next, at
the clock edge itself and again in the period that follows it.
-/

import Mathlib.Tactic.Common
import Mathlib.Data.Nat.Init

namespace SpiFpga.Clocked

structure Machine (Input State : Type*) where
  resetState : State
  reset : Input → Bool
  next : Input → State → State

namespace Machine

variable {Input State : Type*} (machine : Machine Input State)

/-- An asserted reset line overrides whatever the registers would hold. -/
def settle (input : Input) (state : State) : State :=
  if machine.reset input then machine.resetState else state

/-- The registers in each clock period, counted from power-on reset. -/
def run (inputs : Nat → Input) : Nat → State
  | 0 => machine.resetState
  | cycle + 1 =>
      machine.settle (inputs (cycle + 1))
        (machine.settle (inputs cycle)
          (machine.next (inputs cycle) (run inputs cycle)))

def Quiet (inputs : Nat → Input) (first last : Nat) : Prop :=
  ∀ cycle, first ≤ cycle → cycle ≤ last → machine.reset (inputs cycle) = false

variable {machine} {inputs : Nat → Input}

theorem Quiet.mono {first last first' last' : Nat}
    (quiet : machine.Quiet inputs first last)
    (later : first ≤ first') (earlier : last' ≤ last) :
    machine.Quiet inputs first' last' := by
  intro cycle lower upper
  exact quiet cycle (Nat.le_trans later lower) (Nat.le_trans upper earlier)

theorem Quiet.succ {first last : Nat}
    (quiet : machine.Quiet inputs first last)
    (low : machine.reset (inputs (last + 1)) = false) :
    machine.Quiet inputs first (last + 1) := by
  intro cycle lower upper
  rcases Nat.lt_or_eq_of_le upper with before | atEnd
  · exact quiet cycle lower (Nat.le_of_lt_succ before)
  · rw [atEnd]
    exact low

theorem run_of_reset (cycle : Nat) (high : machine.reset (inputs cycle) = true) :
    machine.run inputs cycle = machine.resetState := by
  cases cycle with
  | zero => rfl
  | succ cycle => simp only [run, settle, high, if_true]

theorem run_succ_of_reset (cycle : Nat) (high : machine.reset (inputs cycle) = true) :
    machine.run inputs (cycle + 1) = machine.resetState := by
  simp only [run, settle, high, if_true, ite_self]

theorem run_succ (cycle : Nat)
    (low : machine.reset (inputs cycle) = false)
    (lowAfter : machine.reset (inputs (cycle + 1)) = false) :
    machine.run inputs (cycle + 1) =
      machine.next (inputs cycle) (machine.run inputs cycle) := by
  simp only [run, settle, low, lowAfter, Bool.false_eq_true, if_false]

theorem Quiet.run_succ {first last cycle : Nat}
    (quiet : machine.Quiet inputs first last)
    (lower : first ≤ cycle) (upper : cycle < last) :
    machine.run inputs (cycle + 1) =
      machine.next (inputs cycle) (machine.run inputs cycle) :=
  Machine.run_succ cycle (quiet cycle lower (Nat.le_of_lt upper))
    (quiet (cycle + 1) (Nat.le_succ_of_le lower) upper)

theorem run_succ_cases (machine : Machine Input State) (inputs : Nat → Input) (cycle : Nat) :
    machine.run inputs (cycle + 1) = machine.resetState ∨
      machine.reset (inputs cycle) = false ∧
      machine.reset (inputs (cycle + 1)) = false ∧
      machine.run inputs (cycle + 1) =
        machine.next (inputs cycle) (machine.run inputs cycle) := by
  cases low : machine.reset (inputs cycle) with
  | true => exact Or.inl (run_succ_of_reset cycle low)
  | false =>
      cases lowAfter : machine.reset (inputs (cycle + 1)) with
      | true => exact Or.inl (run_of_reset (cycle + 1) lowAfter)
      | false => exact Or.inr ⟨rfl, rfl, Machine.run_succ cycle low lowAfter⟩

theorem run_congr {inputs' : Nat → Input} {cycle : Nat}
    (same : ∀ earlier, earlier ≤ cycle → inputs earlier = inputs' earlier) :
    machine.run inputs cycle = machine.run inputs' cycle := by
  induction cycle with
  | zero => rfl
  | succ cycle ih =>
      rw [run, run, same (cycle + 1) (Nat.le_refl _), same cycle (Nat.le_succ cycle),
        ih (fun earlier before => same earlier (Nat.le_succ_of_le before))]

/-- From a cycle that finds it reset a machine runs as from power-on. -/
theorem run_shift {first : Nat} (restarted : machine.run inputs first = machine.resetState)
    (cycle : Nat) :
    machine.run inputs (first + cycle) =
      machine.run (fun later => inputs (first + later)) cycle := by
  induction cycle with
  | zero => exact restarted
  | succ cycle ih => rw [← Nat.add_assoc, run, run, ih, Nat.add_assoc]

/-- The invariant rule. What the inputs may do is a property of each period. -/
theorem run_invariant (Admissible : Input → Prop) (Invariant : State → Prop)
    (initial : Invariant machine.resetState)
    (step : ∀ input state, Admissible input → Invariant state →
      Invariant (machine.next input state))
    (admissible : ∀ cycle, Admissible (inputs cycle)) (cycle : Nat) :
    Invariant (machine.run inputs cycle) := by
  induction cycle with
  | zero => exact initial
  | succ cycle ih =>
      rcases run_succ_cases machine inputs cycle with
        cleared | ⟨_low, _lowAfter, advanced⟩
      · rw [cleared]
        exact initial
      · rw [advanced]
        exact step _ _ (admissible cycle) ih

/-- Two machines on a common reset line stay related when a common step keeps
them related. -/
theorem run_related {Input' State' : Type*} {machine' : Machine Input' State'}
    {inputs' : Nat → Input'} (Related : State → State' → Prop)
    (initial : Related machine.resetState machine'.resetState)
    (sameReset : ∀ cycle, machine.reset (inputs cycle) = machine'.reset (inputs' cycle))
    (step : ∀ cycle state state', Related state state' →
      Related (machine.next (inputs cycle) state) (machine'.next (inputs' cycle) state'))
    (cycle : Nat) :
    Related (machine.run inputs cycle) (machine'.run inputs' cycle) := by
  induction cycle with
  | zero => exact initial
  | succ cycle ih =>
      simp only [run, settle, sameReset]
      cases machine'.reset (inputs' (cycle + 1)) with
      | true => exact initial
      | false =>
          cases machine'.reset (inputs' cycle) with
          | true => exact initial
          | false => exact step cycle _ _ ih

theorem run_related_reached {Input' State' : Type*} {machine' : Machine Input' State'}
    {inputs' : Nat → Input'} (Related : State → State' → Prop)
    (initial : Related machine.resetState machine'.resetState)
    (sameReset : ∀ cycle, machine.reset (inputs cycle) = machine'.reset (inputs' cycle))
    (step : ∀ cycle, Related (machine.run inputs cycle) (machine'.run inputs' cycle) →
      Related (machine.next (inputs cycle) (machine.run inputs cycle))
        (machine'.next (inputs' cycle) (machine'.run inputs' cycle)))
    (cycle : Nat) :
    Related (machine.run inputs cycle) (machine'.run inputs' cycle) := by
  induction cycle with
  | zero => exact initial
  | succ cycle ih =>
      have advanced := step cycle ih
      simp only [run, settle, sameReset]
      cases machine'.reset (inputs' (cycle + 1)) with
      | true => exact initial
      | false =>
          cases machine'.reset (inputs' cycle) with
          | true => exact initial
          | false => exact advanced

end Machine

end SpiFpga.Clocked
