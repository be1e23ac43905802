/-
The driver protocol, end to end.

Between two transactions all modules rest, so one write of a mask begins the
frames of exactly the selected modules, in the period in which the new start
register is visible.  They run in step, so the flag rises for all of them at
once and not before; the program cannot take the start bits back earlier, and
what it reads is what the slaves sent in these frames.
-/

import SpiFpga.Master.LatestFrame
import SpiFpga.Top.Client
import SpiFpga.Top.Completion

namespace SpiFpga.Top

open Clocked Master

variable {inputs : Nat → SystemInputs} {write cycle : Nat} {mask : BitVec 6} {index : Fin 6}

/-- The delay in the register when the start register is written. -/
def delayAt (inputs : Nat → SystemInputs) (write : Nat) : Nat :=
  (portsAt inputs write).delaySpi.toNat

/-- The cycle in which the frames begun by a write store their words. -/
def storesAt (inputs : Nat → SystemInputs) (write : Nat) : Nat :=
  storeCycle moduleGenerics (write + 1) (delayAt inputs write)

def Resting (inputs : Nat → SystemInputs) (cycle : Nat) : Prop :=
  ∀ index, stateAt (lines inputs index) cycle = .idle ∨
    stateAt (lines inputs index) cycle = .endState

theorem quiet_of_powered (run : ProtocolRun inputs) (index : Fin 6) (first last : Nat) :
    Quiet (lines inputs index) first last :=
  quiet_of_resetN (fun cycle _lower _upper => (run.powered cycle).1) index

theorem write_before_storesAt (inputs : Nat → SystemInputs) (write : Nat) :
    write + 3 < storesAt inputs write := by
  rw [storesAt, storeCycle_eq]
  omega

/-! ### The modules during a transaction -/

theorem idle_of_setup (run : ProtocolRun inputs) {written : Bool}
    (setup : clientAt inputs write = some (.setup written)) (rest : Resting inputs write)
    (index : Fin 6) : stateAt (lines inputs index) (write + 1) = .idle := by
  have low : (lines inputs index write).start = false := by
    change (portsAt inputs write).startSpi.getLsbD index = false
    rw [(run.portsMatch setup).1]
    exact BitVec.getLsbD_zero
  have quiet := quiet_of_powered run index write (write + 1)
  rw [quiet.stateAt_succ write (Nat.le_refl _) (Nat.lt_succ_self _), low]
  rcases rest index with atIdle | atEnd
  · rw [atIdle]
    rfl
  · rw [atEnd]
    rfl

namespace Transaction

theorem idle_first (run : ProtocolRun inputs) (transaction : Transaction inputs write cycle mask)
    (rest : Resting inputs write) (index : Fin 6) :
    stateAt (lines inputs index) (write + 1) = .idle := by
  obtain ⟨⟨written, setup⟩, _polls⟩ := run.setup_of_start transaction.started transaction.selects
  exact idle_of_setup run setup rest index

theorem start_eq (run : ProtocolRun inputs) (transaction : Transaction inputs write cycle mask)
    {between : Nat} (after : write < between) (upTo : between ≤ cycle) :
    (lines inputs index between).start = mask.getLsbD index := by
  change (portsAt inputs between).startSpi.getLsbD index = _
  rw [(transaction.mono after upTo).ports run]

theorem begins (run : ProtocolRun inputs) (transaction : Transaction inputs write cycle mask)
    (rest : Resting inputs write) (selected : mask.getLsbD index = true) :
    Begins (lines inputs index) (write + 1) := by
  refine ⟨transaction.idle_first run rest index, ?_⟩
  have low : (lines inputs index (write + 1)).reset = false :=
    congrArg not (run.powered (write + 1)).1
  rw [startLevel, transaction.start_eq run (Nat.lt_succ_self write) transaction.before, selected,
    low]
  rfl

theorem underway (run : ProtocolRun inputs) (transaction : Transaction inputs write cycle mask)
    (rest : Resting inputs write) (selected : mask.getLsbD index = true)
    (later : write + 1 < cycle) : Underway (lines inputs index) (write + 1) cycle := by
  apply underway_of_high (transaction.begins run rest selected) later
    (quiet_of_powered run index _ _)
  intro between lower upper
  rw [transaction.start_eq run (Nat.lt_of_succ_le lower) (Nat.le_of_lt upper)]
  exact selected

theorem unselected_idle (run : ProtocolRun inputs)
    (transaction : Transaction inputs write cycle mask) (rest : Resting inputs write)
    (unselected : mask.getLsbD index = false) :
    stateAt (lines inputs index) cycle = .idle := by
  apply stateAt_idle_of_low (transaction.idle_first run rest index) transaction.before
    (quiet_of_powered run index _ _)
  intro between lower upper
  rw [transaction.start_eq run (Nat.lt_of_succ_le lower) (Nat.le_of_lt upper)]
  exact unselected

theorem held (run : ProtocolRun inputs) (transaction : Transaction inputs write cycle mask)
    (index : Fin 6) :
    HeldDelay (lines inputs index) (write + 1) (delayAt inputs write) (cycle + 1) := by
  intro between lower upper
  change ((portsAt inputs between).delaySpi.toNat : Int) = _
  rw [(transaction.mono (by omega) (Nat.le_of_lt_succ upper)).ports run]
  rfl

theorem exists_selected (transaction : Transaction inputs write cycle mask) :
    ∃ index : Fin 6, mask.getLsbD index = true := by
  by_contra none
  apply transaction.selects
  apply BitVec.eq_of_getLsbD_eq
  intro place inRange
  have low : mask.getLsbD place = false := by
    by_contra high
    exact none ⟨⟨place, inRange⟩, Bool.eq_true_of_not_eq_false high⟩
  exact low.trans BitVec.getLsbD_zero.symm

theorem selected_ended (run : ProtocolRun inputs)
    (transaction : Transaction inputs write cycle mask) (rest : Resting inputs write)
    (selected : mask.getLsbD index = true) (after : storesAt inputs write < cycle) :
    stateAt (lines inputs index) cycle = .endState := by
  have later := write_before_storesAt inputs write
  exact (transaction.underway run rest selected (by omega)).waits (by decide)
    (transaction.held run index) after

/-- The flag is high exactly after the common store cycle. -/
theorem flag_iff (run : ProtocolRun inputs) (transaction : Transaction inputs write cycle mask)
    (rest : Resting inputs write) :
    endFlag (driven inputs) cycle = true ↔ storesAt inputs write < cycle := by
  rw [endFlag_iff]
  constructor
  · intro some
    obtain ⟨index, atEnd⟩ := some
    cases selected : mask.getLsbD index with
    | false =>
        rw [transaction.unselected_idle run rest selected] at atEnd
        cases atEnd
    | true =>
        rcases Nat.lt_or_eq_of_le (Nat.succ_le_of_lt transaction.before) with later | first
        · exact (transaction.underway run rest selected later).store_before_end (by decide)
            (transaction.held run index) atEnd
        · rw [← first, transaction.idle_first run rest index] at atEnd
          cases atEnd
  · intro after
    obtain ⟨index, selected⟩ := transaction.exists_selected
    exact ⟨index, transaction.selected_ended run rest selected after⟩

theorem stored_of_reading (run : ProtocolRun inputs)
    (transaction : Transaction inputs write cycle mask) (rest : Resting inputs write)
    (reads : clientAt inputs cycle = some (.reading mask)) : storesAt inputs write < cycle := by
  rcases transaction.client run with polls | ⟨_reads, read, lower, upper, _op, high⟩
  · cases polls.symm.trans reads
  · have polled := transaction.mono lower (Nat.le_of_lt upper)
    exact Nat.lt_trans ((polled.flag_iff run rest).mp high) upper

theorem resting_after (run : ProtocolRun inputs)
    (transaction : Transaction inputs write cycle mask) (rest : Resting inputs write)
    (after : storesAt inputs write < cycle) : Resting inputs (cycle + 1) := by
  intro index
  have quiet := quiet_of_powered run index cycle (cycle + 1)
  have started : (lines inputs index cycle).start = mask.getLsbD index :=
    transaction.start_eq run transaction.before (Nat.le_refl cycle)
  rw [quiet.stateAt_succ cycle (Nat.le_refl _) (Nat.lt_succ_self _), started]
  cases selected : mask.getLsbD index with
  | false =>
      rw [transaction.unselected_idle run rest selected]
      exact Or.inl rfl
  | true =>
      rw [transaction.selected_ended run rest selected after]
      exact Or.inr rfl

end Transaction

/-! ### The modules between transactions -/

/-- The program takes the start bits back only after the flag, and the flag comes
after the store cycle. Induction on all earlier periods: a transaction that ends
here found the modules at rest when it began. -/
theorem ProtocolRun.rests (run : ProtocolRun inputs) {written : Bool}
    (setup : clientAt inputs cycle = some (.setup written)) : Resting inputs cycle := by
  induction cycle using Nat.strong_induction_on generalizing written with
  | _ cycle ih =>
      cases cycle with
      | zero => exact fun _index => Or.inl rfl
      | succ cycle =>
          obtain ⟨client, past⟩ := run.exists_client cycle
          obtain ⟨after, next, step⟩ := run.advanced past
          obtain rfl := Option.some.inj (setup.symm.trans next)
          cases client with
          | setup before =>
              have rest := ih cycle (Nat.lt_succ_self cycle) past
              exact fun index => Or.inl (idle_of_setup run past rest index)
          | polling mask =>
              rcases (next_polling step).2 with impossible | ⟨_read, _high, impossible⟩ <;>
                cases impossible
          | reading mask =>
              obtain ⟨write, transaction⟩ := run.exists_transaction (Or.inr past)
              obtain ⟨⟨before, began⟩, _polls⟩ :=
                run.setup_of_start transaction.started transaction.selects
              have rest := ih write (Nat.lt_succ_of_lt transaction.before) began
              exact transaction.resting_after run rest (transaction.stored_of_reading run rest past)

theorem Transaction.rests (run : ProtocolRun inputs)
    (transaction : Transaction inputs write cycle mask) : Resting inputs write := by
  obtain ⟨⟨written, setup⟩, _polls⟩ := run.setup_of_start transaction.started transaction.selects
  exact run.rests setup

theorem ProtocolRun.transaction_upTo (run : ProtocolRun inputs)
    (started : (inputs write).operation = some (.writeStart mask)) (selects : mask ≠ 0)
    (after : write < cycle) (upTo : cycle ≤ storesAt inputs write + 1) :
    Transaction inputs write cycle mask := by
  induction cycle, after using Nat.le_induction with
  | base => exact Transaction.first started selects
  | succ cycle after ih =>
      have transaction := ih (Nat.le_of_succ_le upTo)
      apply transaction.extend
      rcases transaction.client run with polls | ⟨reads, _seen⟩
      · exact run.noStart_of_polling polls
      · have stored := transaction.stored_of_reading run (transaction.rests run) reads
        omega

/-! ### Runs by their times -/

def cutOff (inputs : Nat → SystemInputs) (last cycle : Nat) : SystemInputs :=
  if cycle < last then inputs cycle else { inputs cycle with operation := none }

section CutOff

variable {last : Nat}

theorem cutOff_before (before : cycle < last) : cutOff inputs last cycle = inputs cycle :=
  if_pos before

theorem cutOff_after (after : last ≤ cycle) : (cutOff inputs last cycle).operation = none := by
  rw [cutOff, if_neg (Nat.not_lt_of_le after)]

theorem cutOff_powered (powered : Powered inputs) : Powered (cutOff inputs last) := by
  intro cycle
  have same : (cutOff inputs last cycle).resetN = (inputs cycle).resetN ∧
      (cutOff inputs last cycle).portResetN = (inputs cycle).portResetN := by
    unfold cutOff
    split
    next => exact ⟨rfl, rfl⟩
    next => exact ⟨rfl, rfl⟩
  rw [same.1, same.2]
  refine ⟨(powered cycle).1, (powered cycle).2.imp_right fun silent earlier upper => ?_⟩
  unfold cutOff
  split
  next => exact silent earlier upper
  next => rfl

theorem portsAt_cutOff (powered : Powered inputs) (upTo : cycle ≤ last) :
    portsAt (cutOff inputs last) cycle = portsAt inputs cycle := by
  induction cycle with
  | zero => rfl
  | succ cycle ih =>
      rw [portsAt_succ (cutOff_powered powered), portsAt_succ powered,
        ih (Nat.le_of_succ_le upTo), cutOff_before upTo]

theorem driven_cutOff (powered : Powered inputs) (upTo : cycle ≤ last) :
    driven (cutOff inputs last) cycle = driven inputs cycle := by
  have same : (cutOff inputs last cycle).resetN = (inputs cycle).resetN ∧
      (cutOff inputs last cycle).spiDspMisoIn = (inputs cycle).spiDspMisoIn := by
    unfold cutOff
    split
    next => exact ⟨rfl, rfl⟩
    next => exact ⟨rfl, rfl⟩
  rw [driven, driven, portsAt_cutOff powered upTo, same.1, same.2]

theorem endFlag_cutOff (powered : Powered inputs) (upTo : cycle ≤ last) :
    endFlag (driven (cutOff inputs last)) cycle = endFlag (driven inputs) cycle := by
  have modules : modulesAt (driven (cutOff inputs last)) cycle =
      modulesAt (driven inputs) cycle :=
    Machine.run_congr
      (fun _earlier before => driven_cutOff powered (Nat.le_trans before upTo))
  rw [endFlag, endFlag, modules, driven_cutOff powered upTo]

theorem clientAt_cutOff (powered : Powered inputs) (upTo : cycle ≤ last) :
    clientAt (cutOff inputs last) cycle = clientAt inputs cycle := by
  induction cycle with
  | zero => rfl
  | succ cycle ih =>
      rw [clientAt, clientAt, ih (Nat.le_of_succ_le upTo),
        endFlag_cutOff powered (Nat.le_of_succ_le upTo), cutOff_before upTo]

theorem clientAt_silent (ordered : last ≤ cycle)
    (silent : ∀ between, last ≤ between → (inputs between).operation = none) :
    clientAt inputs cycle = clientAt inputs last := by
  induction cycle, ordered using Nat.le_induction with
  | base => rfl
  | succ cycle ordered ih =>
      rw [clientAt, ih, silent cycle ordered]
      cases clientAt inputs last with
      | none => rfl
      | some client => cases client <;> rfl

theorem isSome_of_later (legal : (clientAt inputs last).isSome = true) (upTo : cycle ≤ last) :
    (clientAt inputs cycle).isSome = true := by
  induction last, upTo using Nat.le_induction with
  | base => exact legal
  | succ last upTo ih =>
      apply ih
      rw [clientAt] at legal
      cases before : clientAt inputs last with
      | none =>
          rw [before] at legal
          cases legal
      | some client => rfl

/-- What has kept to the protocol so far could go on without further operations. -/
theorem ProtocolRun.of_cutOff (powered : Powered inputs)
    (legal : (clientAt inputs last).isSome = true) : ProtocolRun (cutOff inputs last) := by
  refine ⟨cutOff_powered powered, fun cycle => ?_⟩
  rcases Nat.le_total cycle last with before | after
  · rw [clientAt_cutOff powered before]
    exact isSome_of_later legal before
  · rw [clientAt_silent after (fun between later => cutOff_after later),
      clientAt_cutOff powered (Nat.le_refl last)]
    exact legal

theorem Transaction.cutOff (transaction : Transaction inputs write cycle mask) :
    Transaction (cutOff inputs cycle) write cycle mask := by
  obtain ⟨started, selects, before, undisturbed⟩ := transaction
  refine ⟨?_, selects, before, ?_⟩
  · rw [cutOff_before before]
    exact started
  · intro between lower upper
    rw [cutOff_before upper]
    exact undisturbed between lower upper

theorem Transaction.flag_iff_upTo (powered : Powered inputs)
    (legal : (clientAt inputs cycle).isSome = true)
    (transaction : Transaction inputs write cycle mask) :
    (portsAt inputs cycle).delaySpi = (portsAt inputs write).delaySpi ∧
      (endFlag (driven inputs) cycle = true ↔ storesAt inputs write < cycle) := by
  have run := ProtocolRun.of_cutOff powered legal
  have same := transaction.cutOff
  have ports := same.ports run
  have flag := same.flag_iff run (same.rests run)
  rw [portsAt_cutOff powered (Nat.le_refl cycle),
    portsAt_cutOff powered (Nat.le_of_lt transaction.before)] at ports
  rw [endFlag_cutOff powered (Nat.le_refl cycle), storesAt, delayAt,
    portsAt_cutOff powered (Nat.le_of_lt transaction.before)] at flag
  exact ⟨by rw [ports], flag⟩

end CutOff

/-- The program, the delay that is set, and the period of the last start write. -/
structure Timed where
  client : Client
  delaySpi : BitVec 8
  write : Nat
  deriving DecidableEq

def Timed.flag (timed : Timed) (cycle : Nat) : Bool :=
  decide (storeCycle moduleGenerics (timed.write + 1) timed.delaySpi.toNat < cycle)

def Timed.next (cycle : Nat) (operation : Option BusOperation) (timed : Timed) : Option Timed :=
  (timed.client.next (timed.flag cycle) operation).map fun client =>
    { client := client
      delaySpi :=
        match operation with
        | some (.writeDelay value) => value
        | _ => timed.delaySpi
      write :=
        match operation with
        | some (.writeStart _) => cycle
        | _ => timed.write }

def timedAt (operations : Nat → Option BusOperation) : Nat → Option Timed
  | 0 => some { client := .setup false, delaySpi := 0, write := 0 }
  | cycle + 1 => (timedAt operations cycle).bind (Timed.next cycle (operations cycle))

/-- The times tell what the system does. -/
structure TimedMatch (inputs : Nat → SystemInputs) (cycle : Nat) (timed : Timed) : Prop where
  client : clientAt inputs cycle = some timed.client
  delaySpi : (portsAt inputs cycle).delaySpi = timed.delaySpi
  transaction : ∀ mask, timed.client = .polling mask ∨ timed.client = .reading mask →
    Transaction inputs timed.write cycle mask

namespace TimedMatch

variable {timed : Timed}

theorem flag_eq (powered : Powered inputs) (same : TimedMatch inputs cycle timed)
    (polls : timed.client = .polling mask) :
    endFlag (driven inputs) cycle = timed.flag cycle := by
  have legal : (clientAt inputs cycle).isSome = true := by
    rw [same.client]
    rfl
  obtain ⟨kept, flag⟩ :=
    (same.transaction mask (Or.inl polls)).flag_iff_upTo powered legal
  rw [storesAt, delayAt, ← kept, same.delaySpi] at flag
  rw [Bool.eq_iff_iff, flag, Timed.flag, decide_eq_true_eq]

theorem client_next (powered : Powered inputs) (same : TimedMatch inputs cycle timed) :
    clientAt inputs (cycle + 1) =
      timed.client.next (timed.flag cycle) (inputs cycle).operation := by
  rw [clientAt, same.client, Option.bind_some]
  cases stage : timed.client with
  | polling mask => rw [same.flag_eq powered stage]
  | setup written =>
      cases (inputs cycle).operation with
      | none => rfl
      | some operation => cases operation <;> rfl
  | reading mask =>
      cases (inputs cycle).operation with
      | none => rfl
      | some operation => cases operation <;> rfl

theorem transaction_next (same : TimedMatch inputs cycle timed) {after : Client}
    (advanced : timed.client.next (timed.flag cycle) (inputs cycle).operation = some after)
    (busy : after = .polling mask ∨ after = .reading mask) :
    Transaction inputs
      (match (inputs cycle).operation with
        | some (.writeStart _) => cycle
        | _ => timed.write) (cycle + 1) mask := by
  cases stage : timed.client with
  | setup written =>
      rw [stage] at advanced
      rcases next_setup advanced with ⟨mask', started, selects, rfl⟩ | ⟨_noStart, _written, rfl⟩
      · obtain rfl : mask' = mask := by simpa using busy
        rw [started]
        exact Transaction.first started selects
      · rcases busy with impossible | impossible <;> cases impossible
  | polling mask' =>
      rw [stage] at advanced
      obtain ⟨quiet, stays⟩ := next_polling advanced
      have again : mask' = mask := by
        rcases stays with rfl | ⟨_atRead, _high, rfl⟩ <;> simpa using busy
      have transaction := same.transaction mask (Or.inl (by rw [stage, again]))
      rcases quiet with none | atRead
      · rw [none]
        exact transaction.extend (fun other => by simp [none])
      · rw [atRead]
        exact transaction.extend (fun other => by simp [atRead])
  | reading mask' =>
      rw [stage] at advanced
      rcases next_reading advanced with ⟨_stops, rfl⟩ | ⟨quiet, rfl⟩
      · rcases busy with impossible | impossible <;> cases impossible
      · obtain rfl : mask' = mask := by simpa using busy
        have transaction := same.transaction mask' (Or.inr stage)
        rcases quiet with none | ⟨index, atRead⟩
        · rw [none]
          exact transaction.extend (fun other => by simp [none])
        · rw [atRead]
          exact transaction.extend (fun other => by simp [atRead])

theorem next (powered : Powered inputs) (same : TimedMatch inputs cycle timed) {after : Timed}
    (advanced : timed.next cycle (inputs cycle).operation = some after) :
    TimedMatch inputs (cycle + 1) after := by
  obtain ⟨client, proceeds, rfl⟩ := Option.map_eq_some_iff.mp advanced
  refine ⟨(same.client_next powered).trans proceeds, ?_, fun _mask busy =>
    same.transaction_next proceeds busy⟩
  rw [portsAt_succ powered, ← same.delaySpi]
  cases (inputs cycle).operation with
  | none => rfl
  | some operation => cases operation <;> rfl

end TimedMatch

theorem timedAt_match (powered : Powered inputs) {timed : Timed}
    (reached : timedAt (fun now => (inputs now).operation) cycle = some timed) :
    TimedMatch inputs cycle timed := by
  induction cycle generalizing timed with
  | zero =>
      obtain rfl := Option.some.inj reached
      refine ⟨rfl, rfl, fun mask busy => ?_⟩
      rcases busy with impossible | impossible <;> cases impossible
  | succ cycle ih =>
      rw [timedAt] at reached
      obtain ⟨before, past, advanced⟩ := Option.bind_eq_some_iff.mp reached
      exact (ih past).next powered advanced

/-- A program that has kept to the protocol up to a period, by its times, and does
nothing from then on. -/
theorem ProtocolRun.of_timed (powered : Powered inputs) {last : Nat} {timed : Timed}
    (reached : timedAt (fun now => (inputs now).operation) last = some timed)
    (silent : ∀ between, last ≤ between → (inputs between).operation = none) :
    ProtocolRun inputs := by
  have legal : (clientAt inputs last).isSome = true := by
    rw [(timedAt_match powered reached).client]
    rfl
  refine ⟨powered, fun cycle => ?_⟩
  rcases Nat.le_total cycle last with before | after
  · exact isSome_of_later legal before
  · rw [clientAt_silent after silent]
    exact legal

/-! ### What the program can rely on -/

/-- A run of the driver program: which frames it starts, what they send, and what
its reads return. -/
structure DriverProtocol (inputs : Nat → SystemInputs) : Prop where
  begins : ∀ (index : Fin 6) cycle, Begins (lines inputs index) cycle ↔
    ∃ write mask, cycle = write + 1 ∧
      (inputs write).operation = some (.writeStart mask) ∧ mask.getLsbD index = true
  frames : ∀ write mask (index : Fin 6), (inputs write).operation = some (.writeStart mask) →
    mask.getLsbD index = true →
    FullDuplexFrame (lines inputs index) (write + 1) (delayAt inputs write) ∧
      frameWord (lines inputs index) (write + 1) = (portsAt inputs write).spiTx index
  polls : ∀ cycle, (inputs cycle).operation = some .readEnd →
    ∃ write mask, Transaction inputs write cycle mask ∧
      (endFlag (driven inputs) cycle = true ↔ storesAt inputs write < cycle) ∧
      (endFlag (driven inputs) cycle = true → ∀ index : Fin 6, mask.getLsbD index = true →
        stateAt (lines inputs index) cycle = .endState)
  reads : ∀ cycle index, (inputs cycle).operation = some (.readRx index) →
    ∃ write mask, Transaction inputs write cycle mask ∧
      (mask.getLsbD index = true →
        WordReceived (lines inputs index) (write + 1) (delayAt inputs write)
          (rxRegister (driven inputs) index cycle)) ∧
      (mask.getLsbD index = false →
        rxRegister (driven inputs) index cycle = rxRegister (driven inputs) index write)

theorem ne_zero_of_selected {mask : BitVec 6} {place : Nat} (selected : mask.getLsbD place = true) :
    mask ≠ 0 := by
  intro isZero
  rw [isZero] at selected
  exact absurd (BitVec.getLsbD_zero.symm.trans selected) Bool.false_ne_true

namespace ProtocolRun

theorem begins_iff (run : ProtocolRun inputs) (index : Fin 6) (cycle : Nat) :
    Begins (lines inputs index) cycle ↔ ∃ write mask, cycle = write + 1 ∧
      (inputs write).operation = some (.writeStart mask) ∧ mask.getLsbD index = true := by
  constructor
  · intro begins
    have level := (startLevel_eq_true begins.2).1
    change (portsAt inputs cycle).startSpi.getLsbD index = true at level
    have busy : ∀ mask, PortsMatch (.polling mask) (portsAt inputs cycle) →
        clientAt inputs cycle = some (.polling mask) ∨
          clientAt inputs cycle = some (.reading mask) →
        ∃ write mask, cycle = write + 1 ∧
          (inputs write).operation = some (.writeStart mask) ∧ mask.getLsbD index = true := by
      intro mask agree stage
      obtain ⟨write, transaction⟩ := run.exists_transaction stage
      rw [agree.1] at level
      refine ⟨write, mask, ?_, transaction.started, level⟩
      by_contra notFirst
      have before := transaction.before
      have underway := transaction.underway run (transaction.rests run) level (by omega)
      exact underway.active cycle underway.before (Nat.le_refl cycle) begins.1
    obtain ⟨client, current⟩ := run.exists_client cycle
    have agree := run.portsMatch current
    cases client with
    | setup written =>
        rw [agree.1] at level
        exact absurd rfl (ne_zero_of_selected level)
    | polling mask => exact busy mask agree (Or.inl current)
    | reading mask => exact busy mask agree (Or.inr current)
  · intro some
    obtain ⟨write, mask, rfl, started, selected⟩ := some
    have transaction := Transaction.first started (ne_zero_of_selected selected)
    exact transaction.begins run (transaction.rests run) selected

theorem steadyFrame (run : ProtocolRun inputs)
    (started : (inputs write).operation = some (.writeStart mask))
    (selected : mask.getLsbD index = true) :
    SteadyFrame (lines inputs index) (write + 1) (delayAt inputs write) := by
  have later := write_before_storesAt inputs write
  have transaction := run.transaction_upTo started (ne_zero_of_selected selected)
    (by omega) (Nat.le_succ (storesAt inputs write))
  exact ⟨transaction.begins run (transaction.rests run) selected,
    (transaction.held run index).mono (Nat.le_succ _), quiet_of_powered run index _ _⟩

theorem frameWord_eq (run : ProtocolRun inputs)
    (started : (inputs write).operation = some (.writeStart mask))
    (selected : mask.getLsbD index = true) :
    frameWord (lines inputs index) (write + 1) = (portsAt inputs write).spiTx index := by
  have later := write_before_storesAt inputs write
  have transaction : Transaction inputs write (write + 2) mask :=
    run.transaction_upTo started (ne_zero_of_selected selected) (by omega) (by omega)
  change (portsAt inputs (write + 2)).spiTx index = _
  rw [transaction.ports run]

end ProtocolRun

theorem Transaction.received (run : ProtocolRun inputs)
    (transaction : Transaction inputs write cycle mask) (selected : mask.getLsbD index = true)
    (after : storesAt inputs write < cycle) :
    WordReceived (lines inputs index) (write + 1) (delayAt inputs write)
      (rxRegister (driven inputs) index cycle) := by
  have later := write_before_storesAt inputs write
  have underway := transaction.underway run (transaction.rests run) selected (by omega)
  rw [rxRegister_eq]
  exact underway.latestBegin.wordReceived (by decide) rfl (transaction.held run index)
    underway.quiet (transaction.wideDelay run) (Nat.le_of_lt after)

theorem Transaction.unchanged (run : ProtocolRun inputs)
    (transaction : Transaction inputs write cycle mask) (unselected : mask.getLsbD index = false) :
    rxRegister (driven inputs) index cycle = rxRegister (driven inputs) index write := by
  have quiet : Quiet (lines inputs index) write cycle := quiet_of_powered run index write cycle
  rw [rxRegister_eq, rxRegister_eq]
  apply quiet.dataRx_kept (Nat.le_of_lt transaction.before)
  intro between lower upper
  rw [(transaction.mono lower upper).unselected_idle run (transaction.rests run) unselected]
  exact StateType.noConfusion

theorem driver_protocol (inputs : Nat → SystemInputs) (run : ProtocolRun inputs) :
    DriverProtocol inputs where
  begins := run.begins_iff
  frames _write _mask _index started selected := by
    have transaction := Transaction.first started (ne_zero_of_selected selected)
    exact ⟨(run.steadyFrame started selected).fullDuplex (by decide) rfl
      (transaction.wideDelay run), run.frameWord_eq started selected⟩
  polls cycle operation := by
    obtain ⟨client, current⟩ := run.exists_client cycle
    obtain ⟨after, _next, step⟩ := run.advanced current
    rw [operation] at step
    cases client with
    | setup written => cases step
    | polling mask =>
        obtain ⟨write, transaction⟩ := run.exists_transaction (Or.inl current)
        have rest := transaction.rests run
        refine ⟨write, mask, transaction, transaction.flag_iff run rest, ?_⟩
        intro high index selected
        exact transaction.selected_ended run rest selected
          ((transaction.flag_iff run rest).mp high)
    | reading mask => cases step
  reads cycle index operation := by
    obtain ⟨client, current⟩ := run.exists_client cycle
    obtain ⟨after, _next, step⟩ := run.advanced current
    rw [operation] at step
    cases client with
    | setup written => cases step
    | polling mask => cases step
    | reading mask =>
        obtain ⟨write, transaction⟩ := run.exists_transaction (Or.inr current)
        refine ⟨write, mask, transaction, ?_, transaction.unchanged run⟩
        intro selected
        exact transaction.received run selected
          (transaction.stored_of_reading run (transaction.rests run) current)

/-- Two transactions. The second one sets another delay, selects one module that the
first one has selected and one that it has not, and reads both back. -/
def twoTransactions (second : BitVec 8) : List (Nat × BusOperation) :=
  [ (0, .writeDelay 60), (1, .writeTx module0 10), (2, .writeTx module1 0x8005),
    (3, .writeStart 3), (10, .readEnd), (200, .readEnd), (201, .readRx module0),
    (202, .readRx module1), (203, .writeStart 0), (204, .writeTx module1 7),
    (205, .writeTx module2 9), (206, .writeDelay second), (207, .writeStart 6), (300, .readEnd),
    (400, .readEnd), (401, .readRx module2), (402, .readRx module1), (403, .readRx module2),
    (404, .writeStart 0) ]

def scheduled (schedule : List (Nat × BusOperation)) (miso : Fin 6 → Nat → Bool) (cycle : Nat) :
    SystemInputs :=
  { resetN := true
    portResetN := true
    operation := schedule.lookup cycle
    spiDspMisoIn := fun index => miso index cycle }

theorem ProtocolRun.of_schedule {schedule : List (Nat × BusOperation)}
    (miso : Fin 6 → Nat → Bool) {last : Nat} {timed : Timed}
    (reached : timedAt (fun now => List.lookup now schedule) last = some timed)
    (early : ∀ entry ∈ schedule, entry.1 < last) : ProtocolRun (scheduled schedule miso) := by
  refine ProtocolRun.of_timed (fun _cycle => ⟨rfl, Or.inl rfl⟩) reached ?_
  intro between late
  apply List.lookup_eq_none_iff.mpr
  intro entry member
  have earlier := early entry member
  rw [bne_iff_ne]
  omega

theorem Transaction.of_schedule {schedule : List (Nat × BusOperation)}
    (miso : Fin 6 → Nat → Bool) {delaySpi : BitVec 8}
    (reached : timedAt (fun now => List.lookup now schedule) cycle =
      some { client := .reading mask, delaySpi := delaySpi, write := write }) :
    Transaction (scheduled schedule miso) write cycle mask := by
  have powered : Powered (scheduled schedule miso) := fun _cycle => ⟨rfl, Or.inl rfl⟩
  exact (timedAt_match powered reached).transaction mask (Or.inr rfl)

/-- The moments at which a schedule starts frames of a channel. -/
def startWrites (schedule : List (Nat × BusOperation)) (index : Fin 6) : List Nat :=
  schedule.filterMap fun entry =>
    match entry.2 with
    | .writeStart mask => if mask.getLsbD index then some entry.1 else none
    | _ => none

theorem mem_startWrites {schedule : List (Nat × BusOperation)} {miso : Fin 6 → Nat → Bool}
    (started : (scheduled schedule miso write).operation = some (.writeStart mask))
    (selected : mask.getLsbD index = true) : write ∈ startWrites schedule index := by
  obtain ⟨before, after, entries, _first⟩ := List.lookup_eq_some_iff.mp started
  rw [startWrites, List.mem_filterMap]
  exact ⟨(write, .writeStart mask), by simp [entries], if_pos selected⟩

theorem twoTransactions_starts {second : BitVec 8} {miso : Fin 6 → Nat → Bool}
    (started : (scheduled (twoTransactions second) miso write).operation =
      some (.writeStart mask))
    (selected : mask.getLsbD index = true) : write = 3 ∨ write = 207 := by
  have same : startWrites (twoTransactions second) index =
      startWrites (twoTransactions 0) index := rfl
  have all : ∀ index : Fin 6, ∀ write ∈ startWrites (twoTransactions 0) index,
      write = 3 ∨ write = 207 := by
    decide
  exact all index write (same ▸ mem_startWrites started selected)

theorem twoTransactions_run (miso : Fin 6 → Nat → Bool) :
    ProtocolRun (scheduled (twoTransactions 40) miso) := by
  have reached : timedAt (fun now => List.lookup now (twoTransactions 40)) 405 =
      some { client := .setup true, delaySpi := 40, write := 404 } := by
    decide +kernel
  exact ProtocolRun.of_schedule miso reached (by decide)

theorem driver_protocol_example :
    DriverProtocol (scheduled (twoTransactions 40) fun _index _cycle => true) :=
  driver_protocol _ (twoTransactions_run _)

end SpiFpga.Top
