/-
What the common end flag says.

The flag is high as soon as one module waits in its end state.  With the delay
held all frames take the same time, so every module whose frame began no later
has finished too, and in particular all modules of one write.  A module that was
started later may still be running.
-/

import SpiFpga.Master.LatestFrame
import SpiFpga.Top.System

namespace SpiFpga.Top

open Clocked Master

/-- The delay is held from the first communication cycle of a frame on. -/
def HeldDelaySpi (inputs : Nat → TopInputs) (delay first cycle : Nat) : Prop :=
  ∀ now, first + 2 ≤ now → now ≤ cycle → (inputs now).delaySpi.toNat = delay

theorem HeldDelaySpi.held {inputs : Nat → TopInputs} {delay first first' cycle : Nat}
    (held : HeldDelaySpi inputs delay first cycle) (index : Fin 6) (later : first ≤ first') :
    HeldDelay (moduleInputs inputs index) first' delay (cycle + 1) :=
  fun now lower upper =>
    congrArg Nat.cast (held now (by omega) (Nat.le_of_lt_succ upper))

/-- The module is past the store state of its latest frame, and its receive
register holds the word of that frame unless a reset has cleared it. -/
structure Finished (inputs : Nat → TopInputs) (delay : Nat) (index : Fin 6) (first cycle : Nat) :
    Prop where
  notRunning : ¬Running (moduleInputs inputs index) cycle
  holds : (∀ between, first ≤ between → between ≤ cycle → (inputs between).resetN = true) →
    WordReceived (moduleInputs inputs index) first delay (rxRegister inputs index cycle)

/-- One module is in its end state, and every module whose latest frame began no
later than the latest frame of such a module, and has had one delay since, is finished. -/
structure EarlierFinished (inputs : Nat → TopInputs) (delay cycle : Nat) : Prop where
  some : ∃ done, stateAt (moduleInputs inputs done) cycle = .endState
  earlier : ∀ done, stateAt (moduleInputs inputs done) cycle = .endState →
    ∃ first, LatestBegin (moduleInputs inputs done) first cycle ∧
      ∀ index first', LatestBegin (moduleInputs inputs index) first' cycle → first' ≤ first →
        HeldDelaySpi inputs delay first' cycle → Finished inputs delay index first' cycle

theorem endFlag_sound (inputs : Nat → TopInputs) (delay : Nat) (range : 3 ≤ delay) (cycle : Nat)
    (flag : endFlag inputs cycle = true) : EarlierFinished inputs delay cycle := by
  have positive : 1 ≤ moduleGenerics.clkDiv := by decide
  refine ⟨endFlag_iff.mp flag, ?_⟩
  intro done atEnd
  have notIdle : stateAt (moduleInputs inputs done) cycle ≠ .idle := by
    rw [atEnd]
    exact StateType.noConfusion
  obtain ⟨first, underway⟩ := exists_underway notIdle
  refine ⟨first, underway.latestBegin, ?_⟩
  intro index first' latest ordered held
  have passed := underway.store_before_end positive (held.held done ordered) atEnd
  have after : storeCycle moduleGenerics first' delay < cycle :=
    Nat.lt_of_le_of_lt (storeCycle_mono delay ordered) passed
  have own := held.held index (Nat.le_refl first')
  refine ⟨latest.not_running positive own after, ?_⟩
  intro noReset
  rw [rxRegister_eq]
  exact latest.wordReceived (by decide) rfl own (quiet_of_resetN noReset index) range
    (Nat.le_of_lt after)

/-- The software starts module 0 and, while its frame runs, module 1 as well. -/
def startedLater (cycle : Nat) : TopInputs :=
  { resetN := true
    startSpi := if cycle < 50 then 1 else 3
    delaySpi := 3
    spiTx := fun _index => 10
    spiDspMisoIn := fun _index => true }

theorem startedLater_frame : SteadyFrame (moduleInputs startedLater 0) 0 3 :=
  ⟨⟨rfl, rfl⟩, fun _cycle _lower _upper => rfl, fun _cycle _lower _upper => rfl⟩

theorem startedLater_flag : endFlag startedLater 102 = true := by
  have position : storeCycle moduleGenerics 0 3 + 1 = 102 := by decide
  have atEnd := startedLater_frame.ends (by decide) rfl
  rw [position] at atEnd
  exact endFlag_iff.mpr ⟨0, atEnd⟩

theorem startedLater_begins : Begins (moduleInputs startedLater 1) 50 := by
  have powerOn : stateAt (moduleInputs startedLater 1) 0 = .idle := rfl
  refine ⟨stateAt_idle_of_low powerOn (Nat.zero_le 50) (fun _cycle _lower _upper => rfl) ?_, rfl⟩
  intro cycle _lower upper
  have first : (startedLater cycle).startSpi = 1 := if_pos upper
  change (startedLater cycle).startSpi.getLsbD 1 = false
  rw [first]
  rfl

theorem endFlag_sound_startedLater : EarlierFinished startedLater 3 102 :=
  endFlag_sound startedLater 3 (Nat.le_refl 3) 102 startedLater_flag

theorem endFlag_while_running :
    ¬∀ (inputs : Nat → TopInputs) (delay : Nat), 3 ≤ delay →
      (∀ cycle, (inputs cycle).delaySpi.toNat = delay) → ∀ cycle, endFlag inputs cycle = true →
        ∀ index : Fin 6, (inputs cycle).startSpi.getLsbD index = true →
          ¬Running (moduleInputs inputs index) cycle := by
  intro claimed
  apply claimed startedLater 3 (Nat.le_refl 3) (fun _cycle => rfl) 102 startedLater_flag 1 rfl
  have frame : SteadyFrame (moduleInputs startedLater 1) 50 3 :=
    ⟨startedLater_begins, fun _cycle _lower _upper => rfl, fun _cycle _lower _upper => rfl⟩
  have inRange : 50 ≤ lastIndex moduleGenerics 3 := by decide
  have inComm := frame.communicates (by decide) inRange
  exact Or.inr (Or.inl inComm)

end SpiFpga.Top
