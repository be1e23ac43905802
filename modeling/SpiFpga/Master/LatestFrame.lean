/-
The latest frame of a module.

A module that is anywhere but in idle is in the frame that began last.  Once that
frame has passed its store state the module has nothing left to do, and its
receive port shows the word of that frame until the next one stores another.
-/

import SpiFpga.Master.Duplex

namespace SpiFpga.Master

open Clocked

variable {generics : Generics} {inputs : Nat → Inputs generics} {first cycle delay : Nat}

structure LatestBegin (inputs : Nat → Inputs generics) (first cycle : Nat) : Prop where
  begins : Begins inputs first
  before : first < cycle
  latest : ∀ between, first < between → between < cycle → ¬Begins inputs between

/-- A frame occupies the module from its begin to its store state. -/
def Running (inputs : Nat → Inputs generics) (cycle : Nat) : Prop :=
  stateAt inputs cycle = .initTxState ∨ stateAt inputs cycle = .communicationState ∨
    stateAt inputs cycle = .storeRxState

theorem ne_idle_of_running (running : Running inputs cycle) : stateAt inputs cycle ≠ .idle := by
  intro atIdle
  rw [Running, atIdle] at running
  rcases running with impossible | impossible | impossible <;> cases impossible

theorem Underway.latestBegin (underway : Underway inputs first cycle) :
    LatestBegin inputs first cycle := by
  refine ⟨underway.begins, underway.before, ?_⟩
  intro between lower upper begins
  exact underway.active between lower (Nat.le_of_lt upper) begins.1

namespace LatestBegin

theorem underway (latest : LatestBegin inputs first cycle)
    (notIdle : stateAt inputs cycle ≠ .idle) : Underway inputs first cycle := by
  obtain ⟨first', underway⟩ := exists_underway notIdle
  rcases Nat.lt_trichotomy first first' with later | same | earlier
  · exact absurd underway.begins (latest.latest first' later underway.before)
  · rw [same]
    exact underway
  · exact absurd latest.begins.1 (underway.active first earlier (Nat.le_of_lt latest.before))

theorem mono (latest : LatestBegin inputs first cycle) {between : Nat} (after : first < between)
    (upTo : between ≤ cycle) : LatestBegin inputs first between :=
  ⟨latest.begins, after, fun earlier lower upper =>
    latest.latest earlier lower (Nat.lt_of_lt_of_le upper upTo)⟩

theorem not_running (positive : 1 ≤ generics.clkDiv) (latest : LatestBegin inputs first cycle)
    (held : HeldDelay inputs first delay (cycle + 1))
    (after : storeCycle generics first delay < cycle) : ¬Running inputs cycle := by
  intro running
  have underway := latest.underway (ne_idle_of_running running)
  rw [Running, underway.waits positive held after] at running
  rcases running with impossible | impossible | impossible <;> cases impossible

theorem dataRx_eq (positive : 1 ≤ generics.clkDiv) (latest : LatestBegin inputs first cycle)
    (held : HeldDelay inputs first delay (cycle + 1)) (quiet : Quiet inputs first cycle)
    (upTo : storeCycle generics first delay ≤ cycle) :
    dataRx inputs cycle = dataRx inputs (storeCycle generics first delay) := by
  have atStore := storeCycle_eq generics first delay
  have fromStore : Quiet inputs (storeCycle generics first delay) cycle :=
    quiet.mono (by omega) (Nat.le_refl _)
  apply fromStore.dataRx_kept upTo
  intro between lower upper stores
  have notIdle : stateAt inputs between ≠ .idle := by
    rw [stores]
    exact StateType.noConfusion
  have underway := (latest.mono (by omega) upper).underway notIdle
  have position := underway.eq_storeCycle positive (held.mono (Nat.succ_le_succ upper)) stores
  omega

/-- The receive port shows the word of the latest frame once that has stored. -/
theorem wordReceived (two : 2 ≤ generics.clkDiv) (phase : generics.cpha = false)
    (latest : LatestBegin inputs first cycle) (held : HeldDelay inputs first delay (cycle + 1))
    (quiet : Quiet inputs first cycle) (early : divisor generics ≤ delay)
    (upTo : storeCycle generics first delay ≤ cycle) :
    WordReceived inputs first delay (dataRx inputs cycle) := by
  rw [latest.dataRx_eq (by omega) held quiet upTo]
  have frame : SteadyFrame inputs first delay :=
    ⟨latest.begins, held.mono (Nat.le_succ_of_le upTo), quiet.mono (Nat.le_refl _) upTo⟩
  exact frame.wordReceived two phase early

end LatestBegin

end SpiFpga.Master
