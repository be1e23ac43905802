/-
The polling loop of `main` ends.

The end flag is the only thing `main` waits for, and from the first start write on
it comes within a fixed number of periods and stays.  So every execution that the
processor keeps going with comes to its last stage, whatever earlier executions
have left behind; from a low start register it also reports its own frame.
-/

import SpiFpga.Top.HelloWorld

namespace SpiFpga.Top

open Clocked Master

/-- Bus operations that are still to do, a poll that fails not counted. -/
def MainStage.remaining : MainStage → Nat
  | .writeDelay => 5
  | .writeTx => 4
  | .writeStart => 3
  | .readEnd => 2
  | .readRx => 1
  | .finished => 0

/-- The processor does its next operation before a number of periods has passed. -/
def KeepsGoing (inputs : Nat → SystemInputs) (restarts : Nat → Bool) (first gap : Nat) : Prop :=
  ∀ cycle, first ≤ cycle → mainAt inputs restarts cycle ≠ .finished →
    ∃ later, cycle ≤ later ∧ later < cycle + gap ∧ (inputs later).operation ≠ none

theorem remaining_next_le (flag : Bool) (stage : MainStage) :
    (stage.next flag).remaining ≤ stage.remaining := by
  cases stage <;> cases flag <;> decide

theorem remaining_next_lt {flag : Bool} {stage : MainStage} (more : 0 < stage.remaining)
    (passes : stage = .readEnd → flag = true) :
    (stage.next flag).remaining < stage.remaining := by
  cases stage with
  | writeDelay => exact Nat.lt_succ_self 4
  | writeTx => exact Nat.lt_succ_self 3
  | writeStart => exact Nat.lt_succ_self 2
  | readEnd =>
      rw [passes rfl]
      exact Nat.lt_succ_self 1
  | readRx => exact Nat.lt_succ_self 0
  | finished => exact absurd more (Nat.lt_irrefl 0)

theorem remaining_pos_iff {stage : MainStage} : 0 < stage.remaining ↔ stage ≠ .finished := by
  cases stage <;> decide

theorem started_of_remaining {stage : MainStage} {ports : PortRegisters}
    (holds : StagePorts stage ports) (few : stage.remaining ≤ 2) : ports.startSpi = 1 := by
  cases stage with
  | readEnd => exact holds.2.2
  | readRx => exact holds.2.2
  | finished => exact holds.2.2
  | writeDelay => exact absurd few (by decide)
  | writeTx => exact absurd few (by decide)
  | writeStart => exact absurd few (by decide)

variable {inputs : Nat → SystemInputs} {restarts : Nat → Bool} {first cycle last gap : Nat}

/-! ### The stages of one execution -/

theorem remaining_succ_le (alone : restarts (cycle + 1) = false) :
    (mainAt inputs restarts (cycle + 1)).remaining ≤
      (mainAt inputs restarts cycle).remaining := by
  cases happens : (inputs cycle).operation with
  | none => rw [mainAt_stays alone happens]
  | some operation =>
      rw [mainAt_proceeds alone happens]
      exact remaining_next_le _ _

theorem remaining_antitone (inputs : Nat → SystemInputs)
    (alone : ∀ cycle, first < cycle → restarts cycle = false) (ordered : first ≤ cycle)
    (upTo : cycle ≤ last) :
    (mainAt inputs restarts last).remaining ≤ (mainAt inputs restarts cycle).remaining := by
  induction last, upTo using Nat.le_induction with
  | base => exact Nat.le_refl _
  | succ last upTo ih => exact Nat.le_trans (remaining_succ_le (alone _ (by omega))) ih

/-- An operation that is due within the gap brings the program on, unless it is a
poll that fails. -/
theorem KeepsGoing.falls (goes : KeepsGoing inputs restarts first gap)
    (alone : ∀ cycle, first < cycle → restarts cycle = false) (ordered : first ≤ cycle)
    (more : 0 < (mainAt inputs restarts cycle).remaining)
    (passes : ∀ later, cycle ≤ later → mainAt inputs restarts later = .readEnd →
      (mainAt inputs restarts later).remaining = (mainAt inputs restarts cycle).remaining →
      endFlag (driven inputs) later = true) :
    ∃ later, cycle < later ∧ later ≤ cycle + gap ∧
      (mainAt inputs restarts later).remaining < (mainAt inputs restarts cycle).remaining := by
  obtain ⟨now, lower, upper, acts⟩ := goes cycle ordered (remaining_pos_iff.mp more)
  obtain ⟨operation, happens⟩ := Option.ne_none_iff_exists'.mp acts
  refine ⟨now + 1, Nat.lt_succ_of_le lower, upper, ?_⟩
  have soFar := remaining_antitone inputs alone ordered lower
  rw [mainAt_proceeds (alone (now + 1) (by omega)) happens]
  rcases Nat.lt_or_eq_of_le soFar with already | still
  · exact Nat.lt_of_le_of_lt (remaining_next_le _ _) already
  · rw [← still]
    exact remaining_next_lt (still ▸ more) (fun polls => passes now lower polls still)

theorem MainRun.exists_read (run : MainRun inputs restarts)
    (alone : ∀ cycle, first < cycle → restarts cycle = false)
    (unfinished : mainAt inputs restarts first ≠ .finished) (ordered : first ≤ last)
    (isOver : mainAt inputs restarts last = .finished) :
    ∃ read, first ≤ read ∧ read < last ∧ (inputs read).operation = some (.readRx module0) ∧
      mainAt inputs restarts (read + 1) = .finished := by
  induction last, ordered using Nat.le_induction with
  | base => exact absurd isOver unfinished
  | succ last ordered ih =>
      by_cases before : mainAt inputs restarts last = .finished
      · obtain ⟨read, lower, upper, found⟩ := ih before
        exact ⟨read, lower, Nat.lt_succ_of_lt upper, found⟩
      · have aloneNext := alone (last + 1) (Nat.lt_succ_of_le ordered)
        cases happens : (inputs last).operation with
        | none =>
            rw [mainAt_stays aloneNext happens] at isOver
            exact absurd isOver before
        | some operation =>
            have staged := run.operation_of_stage happens
            have proceeds := isOver
            rw [mainAt_proceeds aloneNext happens] at proceeds
            have atRead : mainAt inputs restarts last = .readRx := by
              revert proceeds before
              cases mainAt inputs restarts last <;>
                cases endFlag (driven inputs) last <;> decide
            rw [atRead] at staged
            exact ⟨last, ordered, Nat.lt_succ_self last, happens.trans staged.symm, isOver⟩

/-! ### The flag -/

theorem MainRun.flag_of_started (run : MainRun inputs restarts)
    (started : (portsAt inputs first).startSpi = 1) (late : first + 159 ≤ cycle) :
    endFlag (driven inputs) cycle = true := by
  have only := run.operations
  have unstarted : (portsAt inputs 0).startSpi = 0 := rfl
  obtain ⟨write, _lower, upper, low, operation⟩ :=
    only.exists_start_write unstarted started (Nat.zero_le first)
  have atWrite : mainAt inputs restarts write = .writeStart :=
    run.stage_of_operation operation rfl
  have settings := run.stagePorts write
  rw [atWrite] at settings
  have high : (portsAt inputs (write + 1)).startSpi = 1 := by
    rw [portsAt_succ run.powered, operation]
    rfl
  have underway := only.underway low high (by omega : write + 1 < cycle)
  have stored : storeCycle moduleGenerics (write + 1) 60 = write + 159 := by
    unfold storeCycle edgeCycle
    simp [moduleGenerics, divisor]
  exact endFlag_iff.mpr ⟨module0,
    underway.waits (by decide) (only.held settings (cycle + 1)) (by omega)⟩

/-! ### Every execution comes to its end -/

theorem MainRun.reaches_poll (run : MainRun inputs restarts)
    (alone : ∀ cycle, first < cycle → restarts cycle = false)
    (goes : KeepsGoing inputs restarts first gap) :
    ∃ poll, first ≤ poll ∧ poll ≤ first + 3 * gap ∧ (portsAt inputs poll).startSpi = 1 ∧
      (mainAt inputs restarts poll).remaining ≤ 2 := by
  obtain ⟨poll, lower, upper, zero⟩ :=
    exists_rank_zero (fun cycle => (mainAt inputs restarts cycle).remaining - 2) gap (by
        intro cycle (ordered : first ≤ cycle) more
        obtain ⟨later, after, within, fewer⟩ := goes.falls alone ordered (by omega) (by
          intro later _lower polls same
          rw [polls] at same
          exact absurd same (by
            change (2 : Nat) ≠ _
            omega))
        exact ⟨later, after, within, by omega⟩)
  have atMost : ∀ stage : MainStage, stage.remaining ≤ 5 := by
    intro stage
    cases stage <;> decide
  have fewer : (mainAt inputs restarts first).remaining - 2 ≤ 3 :=
    Nat.sub_le_sub_right (atMost _) 2
  have shorter := Nat.mul_le_mul_right gap fewer
  have few : (mainAt inputs restarts poll).remaining ≤ 2 := Nat.sub_eq_zero_iff_le.mp zero
  exact ⟨poll, lower, by omega, started_of_remaining (run.stagePorts poll) few, few⟩

/-- An execution that is not interrupted reads the received word and stops, at most
159 periods later than its five operations take; one that found the start register
low reports a word of its own frame. -/
theorem main_terminates (inputs : Nat → SystemInputs) (restarts : Nat → Bool)
    (run : MainRun inputs restarts) (first gap : Nat) (begins : first = 0 ∨ restarts first = true)
    (alone : ∀ cycle, first < cycle → restarts cycle = false)
    (goes : KeepsGoing inputs restarts first gap) :
    ∃ read, first ≤ read ∧ read < first + 5 * gap + 159 ∧
      (inputs read).operation = some (.readRx module0) ∧
      (∀ later, read < later → mainAt inputs restarts later = .finished) ∧
      ((portsAt inputs first).startSpi = 0 → Fresh inputs first read) := by
  obtain ⟨poll, lower, upper, started, few⟩ := run.reaches_poll alone goes
  obtain ⟨last, ordered, bounded, zero⟩ :=
    exists_rank_zero (fun cycle => (mainAt inputs restarts cycle).remaining) gap (by
        intro cycle (late : poll + 159 ≤ cycle) more
        exact goes.falls alone (by omega) more
          (fun later after _polls _same => run.flag_of_started started (by omega)))
  have isOver : mainAt inputs restarts last = .finished := by
    by_contra more
    exact absurd zero (Nat.ne_of_gt (remaining_pos_iff.mpr more))
  have atFirst : mainAt inputs restarts first = .writeDelay := by
    cases first with
    | zero => rfl
    | succ first =>
        rw [mainAt, begins.resolve_left (Nat.succ_ne_zero first), if_pos rfl]
  obtain ⟨read, fromFirst, beforeLast, reads, finished⟩ :=
    run.exists_read alone (by rw [atFirst]; decide) (by omega) isOver
  have afterPoll := remaining_antitone inputs alone lower (Nat.le_add_right poll 159)
  have shorter : (mainAt inputs restarts (poll + 159)).remaining * gap ≤ 2 * gap :=
    Nat.mul_le_mul_right gap (by omega)
  refine ⟨read, fromFirst, by omega, reads, ?_, ?_⟩
  · intro later after
    have stays := remaining_antitone inputs alone (Nat.le_succ_of_le fromFirst) after
    rw [finished] at stays
    by_contra more
    exact absurd (remaining_pos_iff.mpr more) (Nat.not_lt_of_le stays)
  · intro low
    exact run.fresh_of_unstarted ⟨begins, fromFirst, fun cycle after _upTo => alone cycle after⟩
      reads low

theorem restartedMain_goes : KeepsGoing restartedMain secondStart 300 1 := by
  have lastRead := restartedMain_reads (by decide : 161 < 303) rfl rfl rfl
  have finished : mainAt restartedMain secondStart 305 = .finished := by
    rw [mainAt_proceeds rfl (rfl : (restartedMain 304).operation = some (.readRx module0)),
      lastRead]
    rfl
  intro cycle ordered more
  refine ⟨cycle, Nat.le_refl cycle, Nat.lt_succ_self cycle, ?_⟩
  obtain early | late : cycle < 305 ∨ 305 ≤ cycle := Nat.lt_or_ge cycle 305
  · obtain rfl | rfl | rfl | rfl | rfl :
        cycle = 300 ∨ cycle = 301 ∨ cycle = 302 ∨ cycle = 303 ∨ cycle = 304 := by omega
    all_goals exact Option.some_ne_none _
  · have waits := mainAt_waits late
      (fun between lower _upper => restartedMain_idle (Or.inr (Or.inr lower)))
      (fun between lower _upper => decide_eq_false (by omega : between ≠ 300))
    exact absurd (waits.trans finished) more

theorem main_terminates_restarted :
    ∃ read, 300 ≤ read ∧ read < 300 + 5 * 1 + 159 ∧
      (restartedMain read).operation = some (.readRx module0) ∧
      (∀ later, read < later → mainAt restartedMain secondStart later = .finished) ∧
      ((portsAt restartedMain 300).startSpi = 0 → Fresh restartedMain 300 read) :=
  main_terminates restartedMain secondStart restartedMain_run 300 1 (Or.inr rfl)
    (fun _cycle lower => decide_eq_false (Nat.ne_of_gt lower)) restartedMain_goes

end SpiFpga.Top
