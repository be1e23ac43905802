/-
The program `hello_world.c`.

`main` writes the delay, the word and the start register, polls the end flag, reads
the received word and stops there.  It can be started again at any time, and that
resets neither the parallel ports nor the modules.  The start register is never
taken back, so from the first start write on its level stays high: a later
execution finds no edge to begin a frame on, and reads what an earlier one left.
-/

import SpiFpga.Master.LatestFrame
import SpiFpga.Top.Client

namespace SpiFpga.Top

open Clocked Master

/-- The bus operation that `main` does next; at the last stage it prints and loops. -/
inductive MainStage where
  | writeDelay
  | writeTx
  | writeStart
  | readEnd
  | readRx
  | finished
  deriving DecidableEq, Repr

def MainStage.operation : MainStage → Option BusOperation
  | .writeDelay => some (.writeDelay 60)
  | .writeTx => some (.writeTx module0 10)
  | .writeStart => some (.writeStart 1)
  | .readEnd => some .readEnd
  | .readRx => some (.readRx module0)
  | .finished => none

/-- The stage after the operation of this one. The flag is what `IORD` returns. -/
def MainStage.next (flag : Bool) : MainStage → MainStage
  | .writeDelay => .writeTx
  | .writeTx => .writeStart
  | .writeStart => .readEnd
  | .readEnd => if flag then .readRx else .readEnd
  | .readRx => .finished
  | .finished => .finished

/-- The stage of `main` in each period. The processor may be started again in any
of them; it is from power-on. -/
def mainAt (inputs : Nat → SystemInputs) (restarts : Nat → Bool) : Nat → MainStage
  | 0 => .writeDelay
  | cycle + 1 =>
      if restarts (cycle + 1) then .writeDelay
      else if (inputs cycle).operation = none then mainAt inputs restarts cycle
      else (mainAt inputs restarts cycle).next (endFlag (driven inputs) cycle)

/-- A run without reset in which the processor executes `main` and nothing else. -/
structure MainRun (inputs : Nat → SystemInputs) (restarts : Nat → Bool) : Prop where
  powered : Powered inputs
  executes : ∀ cycle, (inputs cycle).operation = none ∨
    (inputs cycle).operation = (mainAt inputs restarts cycle).operation

/-- One execution of `main`, from its begin to some later period. -/
structure Execution (restarts : Nat → Bool) (first last : Nat) : Prop where
  begins : first = 0 ∨ restarts first = true
  ordered : first ≤ last
  alone : ∀ cycle, first < cycle → cycle ≤ last → restarts cycle = false

/-- The value read is the word received in a frame of module 0 that began after the
start write of the same execution, and that frame carried the word written. -/
def Fresh (inputs : Nat → SystemInputs) (first read : Nat) : Prop :=
  ∃ write frame, first ≤ write ∧ (inputs write).operation = some (.writeStart 1) ∧
    write < frame ∧ LatestBegin (lines inputs module0) frame read ∧
    FullDuplexFrame (lines inputs module0) frame 60 ∧ frameWord (lines inputs module0) frame = 10 ∧
    WordReceived (lines inputs module0) frame 60 (rxRegister (driven inputs) module0 read)

/-! ### The ports -/

def StagePorts (stage : MainStage) (ports : PortRegisters) : Prop :=
  match stage with
  | .writeDelay => True
  | .writeTx => ports.delaySpi = 60
  | .writeStart => ports.delaySpi = 60 ∧ ports.spiTx module0 = 10
  | _ => ports.delaySpi = 60 ∧ ports.spiTx module0 = 10 ∧ ports.startSpi = 1

theorem stagePorts_next {stage : MainStage} {ports : PortRegisters}
    (holds : StagePorts stage ports) (flag : Bool) :
    StagePorts (stage.next flag) (ports.next stage.operation) := by
  cases stage with
  | writeDelay => exact rfl
  | writeTx => exact ⟨holds, rfl⟩
  | writeStart => exact ⟨holds.1, holds.2, rfl⟩
  | readEnd => cases flag <;> exact holds
  | readRx => exact holds
  | finished => exact holds

theorem operation_injective {stage stage' : MainStage}
    (same : stage.operation = stage'.operation) : stage = stage' := by
  cases stage <;> cases stage' <;> first | rfl | cases same

variable {inputs : Nat → SystemInputs} {restarts : Nat → Bool} {first cycle last : Nat}

theorem mainAt_stays (alone : restarts (cycle + 1) = false)
    (waits : (inputs cycle).operation = none) :
    mainAt inputs restarts (cycle + 1) = mainAt inputs restarts cycle := by
  rw [mainAt, alone, if_neg Bool.false_ne_true, if_pos waits]

theorem mainAt_proceeds (alone : restarts (cycle + 1) = false) {operation : BusOperation}
    (happens : (inputs cycle).operation = some operation) :
    mainAt inputs restarts (cycle + 1) =
      (mainAt inputs restarts cycle).next (endFlag (driven inputs) cycle) := by
  have proceeds : (inputs cycle).operation ≠ none := by
    rw [happens]
    exact Option.some_ne_none _
  rw [mainAt, alone, if_neg Bool.false_ne_true, if_neg proceeds]

structure MainOperations (inputs : Nat → SystemInputs) : Prop where
  powered : Powered inputs
  only : ∀ cycle, ∃ stage : MainStage, (inputs cycle).operation = stage.operation

theorem MainRun.operations (run : MainRun inputs restarts) : MainOperations inputs := by
  refine ⟨run.powered, fun cycle => ?_⟩
  rcases run.executes cycle with waits | proceeds
  · exact ⟨.finished, waits⟩
  · exact ⟨_, proceeds⟩

namespace MainOperations

theorem startSpi_next (only : MainOperations inputs) (cycle : Nat) :
    (portsAt inputs (cycle + 1)).startSpi = (portsAt inputs cycle).startSpi ∨
      (portsAt inputs (cycle + 1)).startSpi = 1 ∧
        (inputs cycle).operation = some (.writeStart 1) := by
  obtain ⟨stage, operation⟩ := only.only cycle
  rw [portsAt_succ only.powered, operation]
  cases stage with
  | writeStart => exact Or.inr ⟨rfl, rfl⟩
  | writeDelay => exact Or.inl rfl
  | writeTx => exact Or.inl rfl
  | readEnd => exact Or.inl rfl
  | readRx => exact Or.inl rfl
  | finished => exact Or.inl rfl

theorem startSpi_cases (only : MainOperations inputs) (cycle : Nat) :
    (portsAt inputs cycle).startSpi = 0 ∨ (portsAt inputs cycle).startSpi = 1 := by
  induction cycle with
  | zero => exact Or.inl rfl
  | succ cycle ih =>
      rcases only.startSpi_next cycle with kept | written
      · rw [kept]
        exact ih
      · exact Or.inr written.1

theorem started_later (only : MainOperations inputs)
    (started : (portsAt inputs first).startSpi = 1) (ordered : first ≤ cycle) :
    (portsAt inputs cycle).startSpi = 1 := by
  induction cycle, ordered using Nat.le_induction with
  | base => exact started
  | succ cycle ordered ih =>
      rcases only.startSpi_next cycle with kept | written
      · rw [kept]
        exact ih
      · exact written.1

theorem unstarted_earlier (only : MainOperations inputs)
    (unstarted : (portsAt inputs last).startSpi = 0) (ordered : cycle ≤ last) :
    (portsAt inputs cycle).startSpi = 0 := by
  rcases only.startSpi_cases cycle with low | high
  · exact low
  · have late := only.started_later high ordered
    rw [unstarted] at late
    exact absurd late (by decide)

theorem settings_kept (only : MainOperations inputs)
    (settings : (portsAt inputs first).delaySpi = 60 ∧ (portsAt inputs first).spiTx module0 = 10)
    (ordered : first ≤ cycle) :
    (portsAt inputs cycle).delaySpi = 60 ∧ (portsAt inputs cycle).spiTx module0 = 10 := by
  induction cycle, ordered using Nat.le_induction with
  | base => exact settings
  | succ cycle ordered ih =>
      obtain ⟨stage, operation⟩ := only.only cycle
      rw [portsAt_succ only.powered, operation]
      cases stage with
      | writeDelay => exact ⟨rfl, ih.2⟩
      | writeTx => exact ⟨ih.1, rfl⟩
      | writeStart => exact ih
      | readEnd => exact ih
      | readRx => exact ih
      | finished => exact ih

theorem exists_start_write (only : MainOperations inputs)
    (unstarted : (portsAt inputs first).startSpi = 0)
    (started : (portsAt inputs last).startSpi = 1) (ordered : first ≤ last) :
    ∃ write, first ≤ write ∧ write < last ∧ (portsAt inputs write).startSpi = 0 ∧
      (inputs write).operation = some (.writeStart 1) := by
  induction last, ordered using Nat.le_induction with
  | base =>
      rw [unstarted] at started
      exact absurd started (by decide)
  | succ last ordered ih =>
      rcases only.startSpi_cases last with low | high
      · rcases only.startSpi_next last with kept | ⟨_high, operation⟩
        · rw [kept, low] at started
          exact absurd started (by decide)
        · exact ⟨last, ordered, Nat.lt_succ_self last, low, operation⟩
      · obtain ⟨write, lower, upper, found⟩ := ih high
        exact ⟨write, lower, Nat.lt_succ_of_lt upper, found⟩

/-! ### The modules -/

theorem quiet (only : MainOperations inputs) (index : Fin 6) (first last : Nat) :
    Quiet (lines inputs index) first last :=
  quiet_of_resetN (fun cycle _lower _upper => (only.powered cycle).1) index

theorem idle_of_low (only : MainOperations inputs) {index : Fin 6}
    (low : ∀ earlier, earlier < cycle → (lines inputs index earlier).start = false) :
    stateAt (lines inputs index) cycle = .idle := by
  have powerOn : stateAt (lines inputs index) 0 = .idle := rfl
  exact stateAt_idle_of_low powerOn (Nat.zero_le cycle) (only.quiet index 0 cycle)
    (fun earlier _lower upper => low earlier upper)

theorem others_idle (only : MainOperations inputs) {index : Fin 6} (other : index ≠ module0)
    (cycle : Nat) : stateAt (lines inputs index) cycle = .idle := by
  apply only.idle_of_low
  intro earlier _before
  change (portsAt inputs earlier).startSpi.getLsbD index = false
  rcases only.startSpi_cases earlier with low | high
  · rw [low]
    exact BitVec.getLsbD_zero
  · have unset : ∀ index : Fin 6, index ≠ module0 → (1 : BitVec 6).getLsbD index = false := by
      decide
    rw [high]
    exact unset index other

theorem start_high (only : MainOperations inputs)
    (started : (portsAt inputs first).startSpi = 1) (ordered : first ≤ cycle) :
    (lines inputs module0 cycle).start = true := by
  change (portsAt inputs cycle).startSpi.getLsbD 0 = true
  rw [only.started_later started ordered]
  rfl

theorem underway (only : MainOperations inputs) {write : Nat}
    (unstarted : (portsAt inputs write).startSpi = 0)
    (started : (portsAt inputs (write + 1)).startSpi = 1) (later : write + 1 < cycle) :
    Underway (lines inputs module0) (write + 1) cycle := by
  have atIdle : stateAt (lines inputs module0) (write + 1) = .idle := by
    apply only.idle_of_low
    intro earlier before
    change (portsAt inputs earlier).startSpi.getLsbD 0 = false
    rw [only.unstarted_earlier unstarted (Nat.le_of_lt_succ before)]
    rfl
  have begins : Begins (lines inputs module0) (write + 1) := by
    have low := (only.quiet module0 (write + 1) (write + 1)).low (write + 1) (Nat.le_refl _)
      (Nat.le_refl _)
    refine ⟨atIdle, ?_⟩
    rw [startLevel, only.start_high started (Nat.le_refl _), low]
    rfl
  exact underway_of_high begins later (only.quiet module0 _ _)
    (fun between lower _upper => only.start_high started lower)

theorem not_begins (only : MainOperations inputs)
    (started : (portsAt inputs cycle).startSpi = 1) :
    ¬Begins (lines inputs module0) (cycle + 1) := by
  intro begins
  have low := (only.quiet module0 cycle (cycle + 1)).low
  have fell := previousLevel_of_idle begins.1 (low (cycle + 1) (Nat.le_succ _) (Nat.le_refl _))
  rw [previousLevel, startLevel, only.start_high started (Nat.le_refl _),
    low cycle (Nat.le_refl _) (Nat.le_succ _)] at fell
  cases fell

/-- Module 0 alone is ever started, so the flag is its own. -/
theorem ended_of_flag (only : MainOperations inputs)
    (high : endFlag (driven inputs) cycle = true) :
    stateAt (lines inputs module0) cycle = .endState := by
  obtain ⟨index, ended⟩ := endFlag_iff.mp high
  have zero : index = module0 := by
    by_contra other
    cases (only.others_idle other cycle).symm.trans ended
  rw [← zero]
  exact ended

theorem held (only : MainOperations inputs)
    (settings : (portsAt inputs first).delaySpi = 60 ∧ (portsAt inputs first).spiTx module0 = 10)
    (last : Nat) : HeldDelay (lines inputs module0) (first + 1) 60 last := by
  intro between after _before
  change (((portsAt inputs between).delaySpi.toNat : Nat) : Int) = _
  rw [(only.settings_kept settings (by omega)).1]
  rfl

/-- After the first start write the flag shows that the frame has been stored. -/
theorem stored_before_flag (only : MainOperations inputs) {write : Nat}
    (unstarted : (portsAt inputs write).startSpi = 0)
    (started : (portsAt inputs (write + 1)).startSpi = 1)
    (settings : (portsAt inputs write).delaySpi = 60 ∧ (portsAt inputs write).spiTx module0 = 10)
    (after : write < cycle) (high : endFlag (driven inputs) cycle = true) :
    storeCycle moduleGenerics (write + 1) 60 < cycle := by
  have ended := only.ended_of_flag high
  have later : write + 1 < cycle := by
    rcases Nat.lt_or_eq_of_le (Nat.succ_le_of_lt after) with inside | same
    · exact inside
    · have atIdle := (only.underway unstarted started (Nat.lt_succ_self _)).begins.1
      rw [← same] at ended
      cases atIdle.symm.trans ended
  exact (only.underway unstarted started later).store_before_end (by decide)
    (only.held settings _) ended

end MainOperations

/-! ### The stages -/

namespace MainRun

theorem operation_of_stage (run : MainRun inputs restarts) {operation : BusOperation}
    (happens : (inputs cycle).operation = some operation) :
    (mainAt inputs restarts cycle).operation = some operation := by
  rcases run.executes cycle with waits | proceeds
  · cases waits.symm.trans happens
  · exact proceeds.symm.trans happens

theorem stagePorts (run : MainRun inputs restarts) (cycle : Nat) :
    StagePorts (mainAt inputs restarts cycle) (portsAt inputs cycle) := by
  induction cycle with
  | zero => trivial
  | succ cycle ih =>
      rw [portsAt_succ run.powered]
      cases again : restarts (cycle + 1) with
      | true =>
          rw [mainAt, again, if_pos rfl]
          trivial
      | false =>
          cases happens : (inputs cycle).operation with
          | none =>
              rw [mainAt_stays again happens]
              exact ih
          | some operation =>
              rw [mainAt_proceeds again happens, ← run.operation_of_stage happens]
              exact stagePorts_next ih _

theorem stage_of_operation (run : MainRun inputs restarts) {operation : BusOperation}
    {stage : MainStage} (happens : (inputs cycle).operation = some operation)
    (ofStage : stage.operation = some operation) : mainAt inputs restarts cycle = stage :=
  operation_injective ((run.operation_of_stage happens).trans ofStage.symm)

end MainRun

theorem Execution.polled (execution : Execution restarts first last) {write : Nat}
    (lower : first ≤ write) (atWrite : mainAt inputs restarts write = .writeStart)
    (operation : (inputs write).operation = some (.writeStart 1)) (after : write < cycle)
    (upTo : cycle ≤ last) : mainAt inputs restarts cycle = .readEnd ∨
      ∃ poll, write < poll ∧ poll < cycle ∧ endFlag (driven inputs) poll = true := by
  induction cycle, after using Nat.le_induction with
  | base =>
      have alone := execution.alone (write + 1) (Nat.lt_succ_of_le lower) upTo
      left
      rw [mainAt_proceeds alone operation, atWrite]
      rfl
  | succ cycle after ih =>
      rcases ih (Nat.le_of_succ_le upTo) with polls | ⟨poll, lowerPoll, upperPoll, high⟩
      · have alone := execution.alone (cycle + 1) (by omega) upTo
        cases happens : (inputs cycle).operation with
        | none => exact Or.inl ((mainAt_stays alone happens).trans polls)
        | some operation =>
            rw [mainAt_proceeds alone happens, polls]
            cases high : endFlag (driven inputs) cycle with
            | false => exact Or.inl rfl
            | true => exact Or.inr ⟨cycle, after, Nat.lt_succ_self cycle, high⟩
      · exact Or.inr ⟨poll, lowerPoll, Nat.lt_succ_of_lt upperPoll, high⟩

/-! ### What an execution reports -/

theorem MainRun.fresh_of_unstarted (run : MainRun inputs restarts) {read : Nat}
    (execution : Execution restarts first read)
    (reads : (inputs read).operation = some (.readRx module0))
    (unstarted : (portsAt inputs first).startSpi = 0) : Fresh inputs first read := by
  have only := run.operations
  have atRead : mainAt inputs restarts read = .readRx := run.stage_of_operation reads rfl
  have atEnd := run.stagePorts read
  rw [atRead] at atEnd
  obtain ⟨write, lower, upper, low, operation⟩ :=
    only.exists_start_write unstarted atEnd.2.2 execution.ordered
  have atWrite : mainAt inputs restarts write = .writeStart :=
    run.stage_of_operation operation rfl
  have settings := run.stagePorts write
  rw [atWrite] at settings
  have started : (portsAt inputs (write + 1)).startSpi = 1 := by
    rw [portsAt_succ run.powered, operation]
    rfl
  have held := only.held settings
  obtain ⟨poll, afterWrite, beforeRead, high⟩ :=
    (execution.polled lower atWrite operation upper (Nat.le_refl read)).resolve_left (by
      rw [atRead]
      exact MainStage.noConfusion)
  have stored := only.stored_before_flag low started settings afterWrite high
  have passed := Nat.le_of_lt (Nat.lt_trans stored beforeRead)
  have underway := only.underway low started
    (Nat.lt_of_le_of_lt (Nat.succ_le_of_lt afterWrite) beforeRead)
  have frame := underway.frame (held _) passed
  refine ⟨write, write + 1, lower, operation, Nat.lt_succ_self write, underway.latestBegin,
    frame.fullDuplex (by decide) rfl (by decide), ?_, ?_⟩
  · change (portsAt inputs (write + 2)).spiTx module0 = 10
    exact (only.settings_kept settings (by omega)).2
  · rw [rxRegister_eq]
    exact underway.latestBegin.wordReceived (by decide) rfl (held _) underway.quiet (by decide)
      passed

theorem MainOperations.unstarted_of_fresh (only : MainOperations inputs) {read : Nat}
    (fresh : Fresh inputs first read) : (portsAt inputs first).startSpi = 0 := by
  obtain ⟨write, frame, lower, _operation, after, latest, _fullDuplex, _word, _received⟩ := fresh
  rcases only.startSpi_cases first with low | high
  · exact low
  · obtain ⟨before, rfl⟩ : ∃ before, frame = before + 1 := ⟨frame - 1, by omega⟩
    have started := only.started_later high (Nat.le_trans lower (Nat.le_of_lt_succ after))
    exact absurd latest.begins (only.not_begins started)

/-- An execution reports a word of its own frame exactly if it finds the start
register low. -/
theorem report_fresh_iff (inputs : Nat → SystemInputs) (restarts : Nat → Bool)
    (run : MainRun inputs restarts) (first read : Nat)
    (execution : Execution restarts first read)
    (reads : (inputs read).operation = some (.readRx module0)) :
    Fresh inputs first read ↔ (portsAt inputs first).startSpi = 0 := by
  constructor
  · intro fresh
    exact run.operations.unstarted_of_fresh fresh
  · intro unstarted
    exact run.fresh_of_unstarted execution reads unstarted

/-! ### An execution after another -/

/-- One complete execution of `main`, and a second one after a restart of the
processor. -/
def restartedMain (cycle : Nat) : SystemInputs :=
  { resetN := true
    portResetN := true
    operation :=
      if cycle = 0 ∨ cycle = 300 then some (.writeDelay 60)
      else if cycle = 1 ∨ cycle = 301 then some (.writeTx module0 10)
      else if cycle = 2 ∨ cycle = 302 then some (.writeStart 1)
      else if cycle = 200 ∨ cycle = 303 then some .readEnd
      else if cycle = 201 ∨ cycle = 304 then some (.readRx module0)
      else none
    spiDspMisoIn := fun _index => true }

def secondStart (cycle : Nat) : Bool := decide (cycle = 300)

theorem restartedMain_operations : MainOperations restartedMain := by
  refine ⟨fun _cycle => ⟨rfl, Or.inl rfl⟩, fun cycle => ?_⟩
  unfold restartedMain
  dsimp only
  split
  next => exact ⟨.writeDelay, rfl⟩
  split
  next => exact ⟨.writeTx, rfl⟩
  split
  next => exact ⟨.writeStart, rfl⟩
  split
  next => exact ⟨.readEnd, rfl⟩
  split
  next => exact ⟨.readRx, rfl⟩
  next => exact ⟨.finished, rfl⟩

theorem restartedMain_idle {cycle : Nat}
    (idle : 3 ≤ cycle ∧ cycle < 200 ∨ 202 ≤ cycle ∧ cycle < 300 ∨ 305 ≤ cycle) :
    (restartedMain cycle).operation = none := by
  unfold restartedMain
  dsimp only
  rw [if_neg (by omega), if_neg (by omega), if_neg (by omega), if_neg (by omega),
    if_neg (by omega)]

theorem restartedMain_flag {cycle : Nat} (late : 161 < cycle) :
    endFlag (driven restartedMain) cycle = true := by
  have unstarted : (portsAt restartedMain 2).startSpi = 0 := rfl
  have settings : (portsAt restartedMain 2).delaySpi = 60 ∧
      (portsAt restartedMain 2).spiTx module0 = 10 := ⟨rfl, rfl⟩
  have underway := restartedMain_operations.underway unstarted rfl (by omega : 2 + 1 < cycle)
  have held := restartedMain_operations.held settings (cycle + 1)
  have position : storeCycle moduleGenerics (2 + 1) 60 = 161 := by decide
  exact endFlag_iff.mpr ⟨module0, underway.waits (by decide) held (by omega)⟩

theorem mainAt_waits (ordered : first ≤ cycle)
    (waits : ∀ between, first ≤ between → between < cycle → (inputs between).operation = none)
    (alone : ∀ between, first < between → between ≤ cycle → restarts between = false) :
    mainAt inputs restarts cycle = mainAt inputs restarts first := by
  induction cycle, ordered using Nat.le_induction with
  | base => rfl
  | succ cycle ordered ih =>
      rw [mainAt_stays (alone (cycle + 1) (Nat.lt_succ_of_le ordered) (Nat.le_refl _))
        (waits cycle ordered (Nat.lt_succ_self cycle))]
      exact ih (fun between lower upper => waits between lower (Nat.lt_succ_of_lt upper))
        (fun between lower upper => alone between lower (Nat.le_succ_of_le upper))

theorem restartedMain_reads {poll : Nat} (late : 161 < poll)
    (polls : mainAt restartedMain secondStart poll = .readEnd)
    (operation : (restartedMain poll).operation = some .readEnd)
    (alone : secondStart (poll + 1) = false) :
    mainAt restartedMain secondStart (poll + 1) = .readRx := by
  rw [mainAt_proceeds alone operation, polls, restartedMain_flag late]
  rfl

theorem restartedMain_run : MainRun restartedMain secondStart := by
  have firstPoll : mainAt restartedMain secondStart 200 = .readEnd :=
    mainAt_waits (by decide : 3 ≤ 200)
      (fun between lower upper => restartedMain_idle (Or.inl ⟨lower, upper⟩))
      (fun between _lower upper => decide_eq_false (by omega))
  have firstRead := restartedMain_reads (by decide) firstPoll rfl rfl
  have secondRead := restartedMain_reads (by decide : 161 < 303) rfl rfl rfl
  refine ⟨fun _cycle => ⟨rfl, Or.inl rfl⟩, fun cycle => ?_⟩
  by_cases idle : 3 ≤ cycle ∧ cycle < 200 ∨ 202 ≤ cycle ∧ cycle < 300 ∨ 305 ≤ cycle
  · exact Or.inl (restartedMain_idle idle)
  · right
    obtain early | second | rfl | rfl | rfl :
        cycle < 3 ∨ 300 ≤ cycle ∧ cycle < 304 ∨ cycle = 200 ∨ cycle = 201 ∨ cycle = 304 := by
      omega
    · obtain rfl | rfl | rfl : cycle = 0 ∨ cycle = 1 ∨ cycle = 2 := by omega
      all_goals rfl
    · obtain rfl | rfl | rfl | rfl : cycle = 300 ∨ cycle = 301 ∨ cycle = 302 ∨ cycle = 303 := by
        omega
      all_goals rfl
    · rw [firstPoll]
      rfl
    · rw [firstRead]
      rfl
    · rw [secondRead]
      rfl

theorem secondStart_execution : Execution secondStart 300 304 :=
  ⟨Or.inr rfl, by decide, fun _cycle lower _upper => decide_eq_false (Nat.ne_of_gt lower)⟩

theorem report_fresh_iff_restarted :
    Fresh restartedMain 300 304 ↔ (portsAt restartedMain 300).startSpi = 0 :=
  report_fresh_iff restartedMain secondStart restartedMain_run 300 304 secondStart_execution rfl

theorem report_stale_after_restart :
    ¬∀ (inputs : Nat → SystemInputs) (restarts : Nat → Bool), MainRun inputs restarts →
      ∀ first read, Execution restarts first read →
        (inputs read).operation = some (.readRx module0) → Fresh inputs first read := by
  intro claimed
  have fresh := claimed restartedMain secondStart restartedMain_run 300 304
    secondStart_execution rfl
  have unstarted := restartedMain_operations.unstarted_of_fresh fresh
  have early : (portsAt restartedMain 3).startSpi = 1 := rfl
  rw [restartedMain_operations.started_later early (by decide)] at unstarted
  exact absurd unstarted (by decide)

end SpiFpga.Top
