/-
The six channels as one exchange.

What the driver program and the slaves can see of six concurrent serial frames is
simpler than they are.  In the model here a write of the start register swaps the
selected words with the slaves at once, and nothing else moves a received word.  The
system refines it: whenever the program reads a receive register, it reads what that
model holds, and the slaves have what that model gave them, over any number of
transactions.
-/

import SpiFpga.Master.Loopback
import SpiFpga.Master.SlaveFrame
import SpiFpga.Top.Driver
import SpiFpga.Top.HelloWorld

namespace SpiFpga.Top

open Clocked Master

/-- The words to send, the words received, and the words that the slaves received, one
of each for a channel. -/
structure Exchange where
  spiTx : Fin 6 → BitVec 16
  spiRx : Fin 6 → BitVec 16
  slaveRx : Fin 6 → BitVec 16

/-- The answer is the word with which the slave of each channel replies. -/
def Exchange.next (answer : Fin 6 → BitVec 16) (operation : Option BusOperation)
    (exchange : Exchange) : Exchange :=
  match operation with
  | some (.writeTx index value) =>
      { exchange with
        spiTx := fun other => if other = index then value else exchange.spiTx other }
  | some (.writeStart mask) =>
      { exchange with
        spiRx := fun index => if mask.getLsbD index then answer index else exchange.spiRx index
        slaveRx := fun index =>
          if mask.getLsbD index then exchange.spiTx index else exchange.slaveRx index }
  | _ => exchange

def exchangeAt (inputs : Nat → SystemInputs) (answer : Nat → Fin 6 → BitVec 16) :
    Nat → Exchange
  | 0 => { spiTx := fun _index => 0, spiRx := fun _index => 0, slaveRx := fun _index => 0 }
  | cycle + 1 => (exchangeAt inputs answer cycle).next (answer cycle) (inputs cycle).operation

/-- In each frame that the program starts on a channel the slave replies with its
answer, bit by bit on MISO. -/
def Answers (inputs : Nat → SystemInputs) (answer : Nat → Fin 6 → BitVec 16) (index : Fin 6) :
    Prop :=
  ∀ write mask, (inputs write).operation = some (.writeStart mask) →
    mask.getLsbD index = true →
    WordReceived (lines inputs index) (write + 1) (delayAt inputs write) (answer write index)

/-- What a slave holds that takes MOSI with the leading edges of its clock. -/
def slaveWord (inputs : Nat → SystemInputs) (index : Fin 6) : Nat → BitVec 16 :=
  collected (lines inputs index)

variable {inputs : Nat → SystemInputs} {answer : Nat → Fin 6 → BitVec 16}
  {write cycle : Nat} {mask : BitVec 6} {index : Fin 6}

/-! ### Words that move with the frames of a channel -/

/-- What the last start write of a channel was given. -/
def latest (inputs : Nat → SystemInputs) (index : Fin 6) (given : Nat → BitVec 16) :
    Nat → BitVec 16
  | 0 => 0
  | cycle + 1 =>
      match (inputs cycle).operation with
      | some (.writeStart mask) =>
          if mask.getLsbD index then given cycle else latest inputs index given cycle
      | _ => latest inputs index given cycle

theorem latest_of_noStart {given : Nat → BitVec 16}
    (noStart : ∀ mask, (inputs cycle).operation ≠ some (.writeStart mask)) :
    latest inputs index given (cycle + 1) = latest inputs index given cycle := by
  rw [latest]
  split
  next mask started => exact absurd started (noStart mask)
  next => rfl

theorem Transaction.latest_eq (transaction : Transaction inputs write cycle mask)
    (given : Nat → BitVec 16) :
    latest inputs index given cycle =
      if mask.getLsbD index then given write else latest inputs index given write := by
  obtain ⟨started, _selects, before, undisturbed⟩ := transaction
  induction cycle, before using Nat.le_induction with
  | base => rw [latest, started]
  | succ cycle before ih =>
      rw [latest_of_noStart (undisturbed cycle before (Nat.lt_succ_self cycle))]
      exact ih (fun between lower upper => undisturbed between lower (Nat.lt_succ_of_lt upper))

/-- A word of a channel that the frames of the channel move and nothing else, each to
what its start write was given. -/
structure MovedByFrames (inputs : Nat → SystemInputs) (index : Fin 6)
    (given shown : Nat → BitVec 16) : Prop where
  initial : shown 0 = 0
  kept : ∀ cycle, stateAt (lines inputs index) cycle ≠ .communicationState →
    stateAt (lines inputs index) (cycle + 1) ≠ .storeRxState → shown (cycle + 1) = shown cycle
  moved : ∀ write mask, (inputs write).operation = some (.writeStart mask) →
    mask.getLsbD index = true → shown (storesAt inputs write) = given write

theorem passive_of_rest {state : StateType} (rest : state = .idle ∨ state = .endState) :
    state ≠ .communicationState ∧ state ≠ .storeRxState := by
  rcases rest with rfl | rfl <;> exact ⟨StateType.noConfusion, StateType.noConfusion⟩

namespace MovedByFrames

variable {given shown : Nat → BitVec 16}

theorem stays (moves : MovedByFrames inputs index given shown) {first last : Nat}
    (ordered : first ≤ last)
    (passive : ∀ cycle, first ≤ cycle → cycle < last →
      stateAt (lines inputs index) cycle ≠ .communicationState ∧
        stateAt (lines inputs index) (cycle + 1) ≠ .storeRxState) :
    shown last = shown first := by
  induction last, ordered using Nat.le_induction with
  | base => rfl
  | succ last ordered ih =>
      obtain ⟨notComm, notStore⟩ := passive last ordered (Nat.lt_succ_self last)
      rw [moves.kept last notComm notStore]
      exact ih (fun cycle lower upper => passive cycle lower (Nat.lt_succ_of_lt upper))

theorem at_reading (run : ProtocolRun inputs) (moves : MovedByFrames inputs index given shown)
    (transaction : Transaction inputs write cycle mask)
    (after : storesAt inputs write < cycle)
    (before : shown write = latest inputs index given write) :
    shown cycle = latest inputs index given cycle := by
  have rest := transaction.rests run
  rw [transaction.latest_eq given]
  cases selected : mask.getLsbD index with
  | false =>
      have idles : ∀ period, write < period → period ≤ cycle →
          stateAt (lines inputs index) period = .idle :=
        fun period later inside =>
          (transaction.mono later inside).unselected_idle run rest selected
      rw [if_neg Bool.false_ne_true, ← before]
      apply moves.stays (Nat.le_of_lt transaction.before)
      intro period lower upper
      refine ⟨?_, (passive_of_rest (Or.inl (idles (period + 1) (Nat.lt_succ_of_le lower)
        upper))).2⟩
      rcases Nat.lt_or_eq_of_le lower with later | first
      · exact (passive_of_rest (Or.inl (idles period later (Nat.le_of_lt upper)))).1
      · exact (passive_of_rest (first ▸ rest index)).1
  | true =>
      have later := write_before_storesAt inputs write
      have ended : ∀ period, storesAt inputs write < period → period ≤ cycle →
          stateAt (lines inputs index) period = .endState :=
        fun period past inside =>
          (transaction.mono (by omega) inside).selected_ended run rest selected past
      rw [if_pos rfl, ← moves.moved write mask transaction.started selected]
      apply moves.stays (Nat.le_of_lt after)
      intro period lower upper
      refine ⟨?_, (passive_of_rest (Or.inr (ended (period + 1) (Nat.lt_succ_of_le lower)
        upper))).2⟩
      rcases Nat.lt_or_eq_of_le lower with past | atStore
      · exact (passive_of_rest (Or.inr (ended period past (Nat.le_of_lt upper)))).1
      · have stores := (run.steadyFrame transaction.started selected).stores (by decide)
        rw [← atStore, storesAt, stores]
        exact StateType.noConfusion

/-- Between the transactions the word is the latest. The induction is over the periods;
a transaction that is left found it so when it was entered. -/
theorem at_setup (run : ProtocolRun inputs) (moves : MovedByFrames inputs index given shown)
    {written : Bool} (setup : clientAt inputs cycle = some (.setup written)) :
    shown cycle = latest inputs index given cycle := by
  induction cycle using Nat.strong_induction_on generalizing written with
  | _ cycle ih =>
      cases cycle with
      | zero => exact moves.initial
      | succ cycle =>
          obtain ⟨client, past⟩ := run.exists_client cycle
          obtain ⟨after, next, step⟩ := run.advanced past
          obtain rfl := Option.some.inj (setup.symm.trans next)
          have rest := run.rests setup index
          have notComm : stateAt (lines inputs index) cycle ≠ .communicationState := by
            have arrow := (quiet_of_powered run index cycle (cycle + 1)).arrow cycle
              (Nat.le_refl _) (Nat.lt_succ_self _)
            intro inComm
            rw [inComm] at arrow
            rcases arrow.from_comm with stays | stores
            · exact (passive_of_rest rest).1 stays
            · exact (passive_of_rest rest).2 stores
          rw [moves.kept cycle notComm (passive_of_rest rest).2]
          cases client with
          | setup before =>
              rcases next_setup step with ⟨mask, _started, _selects, impossible⟩ | ⟨noStart, _stays⟩
              · cases impossible
              · rw [latest_of_noStart noStart]
                exact ih cycle (Nat.lt_succ_self cycle) past
          | polling mask =>
              rcases (next_polling step).2 with impossible | ⟨_read, _high, impossible⟩ <;>
                cases impossible
          | reading mask =>
              obtain ⟨write, transaction⟩ := run.exists_transaction (Or.inr past)
              obtain ⟨⟨before, began⟩, _polls⟩ :=
                run.setup_of_start transaction.started transaction.selects
              have received := moves.at_reading run transaction
                (transaction.stored_of_reading run (transaction.rests run) past)
                (ih write (Nat.lt_succ_of_lt transaction.before) began)
              rcases next_reading step with ⟨stops, _setup⟩ | ⟨_kept, impossible⟩
              · rw [latest, stops, received]
                simp
              · cases impossible

theorem at_read (run : ProtocolRun inputs) (moves : MovedByFrames inputs index given shown)
    {channel : Fin 6} (reads : (inputs cycle).operation = some (.readRx channel)) :
    shown cycle = latest inputs index given cycle := by
  obtain ⟨client, current⟩ := run.exists_client cycle
  obtain ⟨after, _next, step⟩ := run.advanced current
  rw [reads] at step
  cases client with
  | setup written => cases step
  | polling mask => cases step
  | reading mask =>
      obtain ⟨write, transaction⟩ := run.exists_transaction (Or.inr current)
      obtain ⟨⟨before, began⟩, _polls⟩ :=
        run.setup_of_start transaction.started transaction.selects
      exact moves.at_reading run transaction
        (transaction.stored_of_reading run (transaction.rests run) current)
        (moves.at_setup run began)

end MovedByFrames

/-! ### The words of the exchange -/

theorem exchangeAt_succ (cycle : Nat) :
    exchangeAt inputs answer (cycle + 1) =
      (exchangeAt inputs answer cycle).next (answer cycle) (inputs cycle).operation := rfl

theorem exchangeAt_spiRx (cycle : Nat) :
    (exchangeAt inputs answer cycle).spiRx index =
      latest inputs index (fun write => answer write index) cycle := by
  induction cycle with
  | zero => rfl
  | succ cycle ih =>
      rw [exchangeAt_succ, latest, ← ih]
      cases (inputs cycle).operation with
      | none => rfl
      | some operation => cases operation <;> rfl

theorem ProtocolRun.spiTx_eq (run : ProtocolRun inputs) (cycle : Nat) :
    (exchangeAt inputs answer cycle).spiTx = (portsAt inputs cycle).spiTx := by
  induction cycle with
  | zero => rfl
  | succ cycle ih =>
      rw [exchangeAt_succ, portsAt_succ run.powered]
      cases (inputs cycle).operation with
      | none => exact ih
      | some operation =>
          cases operation with
          | writeTx index value =>
              funext other
              simp only [Exchange.next, PortRegisters.next, ih]
          | writeDelay value => exact ih
          | writeStart mask => exact ih
          | readEnd => exact ih
          | readRx index => exact ih

theorem ProtocolRun.exchangeAt_slaveRx (run : ProtocolRun inputs) (cycle : Nat) :
    (exchangeAt inputs answer cycle).slaveRx index =
      latest inputs index (fun write => (portsAt inputs write).spiTx index) cycle := by
  induction cycle with
  | zero => rfl
  | succ cycle ih =>
      have same : (exchangeAt inputs answer cycle).spiTx = (portsAt inputs cycle).spiTx :=
        run.spiTx_eq cycle
      rw [exchangeAt_succ, latest, ← ih, ← same]
      cases (inputs cycle).operation with
      | none => rfl
      | some operation => cases operation <;> rfl

/-! ### The system refines it -/

theorem ProtocolRun.rxRegister_moves (run : ProtocolRun inputs)
    (answers : Answers inputs answer index) :
    MovedByFrames inputs index (fun write => answer write index)
      (rxRegister (driven inputs) index) where
  initial := rfl
  kept cycle _notComm notStore := by
    have quiet := quiet_of_powered run index cycle (cycle + 1)
    rw [rxRegister_eq, rxRegister_eq]
    exact dataRx_succ (quiet.low cycle (Nat.le_refl _) (Nat.le_succ _))
      (quiet.low (cycle + 1) (Nat.le_succ _) (Nat.le_refl _)) notStore
  moved write mask started selected := by
    have wide := (Transaction.first started (ne_zero_of_selected selected)).wideDelay run
    rw [rxRegister_eq]
    exact wordReceived_unique
      ((run.steadyFrame started selected).wordReceived (by decide) rfl wide)
      (answers write mask started selected)

theorem ProtocolRun.slaveWord_moves (run : ProtocolRun inputs) (index : Fin 6) :
    MovedByFrames inputs index (fun write => (portsAt inputs write).spiTx index)
      (slaveWord inputs index) where
  initial := rfl
  kept cycle notComm _notStore := by
    apply collected_kept (Nat.le_succ cycle) (quiet_of_powered run index cycle (cycle + 1))
    intro between lower upper
    rw [Nat.le_antisymm (Nat.le_of_lt_succ upper) lower]
    exact notComm
  moved write mask started selected := by
    have wide := (Transaction.first started (ne_zero_of_selected selected)).wideDelay run
    rw [← run.frameWord_eq started selected]
    exact (run.steadyFrame started selected).collected_eq (by decide) rfl wide

theorem ProtocolRun.read_eq (run : ProtocolRun inputs) (answers : Answers inputs answer index)
    (reads : (inputs cycle).operation = some (.readRx index)) :
    rxRegister (driven inputs) index cycle = (exchangeAt inputs answer cycle).spiRx index := by
  rw [exchangeAt_spiRx]
  exact (run.rxRegister_moves answers).at_read run reads

/-- The start write is the one moment at which a transaction takes effect, at both ends
of the lines. -/
theorem driver_exchange (inputs : Nat → SystemInputs) (answer : Nat → Fin 6 → BitVec 16)
    (run : ProtocolRun inputs) (cycle : Nat) (index : Fin 6)
    (answers : Answers inputs answer index)
    (reads : (inputs cycle).operation = some (.readRx index)) :
    rxRegister (driven inputs) index cycle = (exchangeAt inputs answer cycle).spiRx index ∧
      ∀ channel, slaveWord inputs channel cycle =
        (exchangeAt inputs answer cycle).slaveRx channel := by
  refine ⟨run.read_eq answers reads, fun channel => ?_⟩
  rw [run.exchangeAt_slaveRx]
  exact (run.slaveWord_moves channel).at_read run reads

/-- The slaves reply with zeros to the first transaction and with ones to the second. -/
def raisedLine (_index : Fin 6) (cycle : Nat) : Bool := decide (200 ≤ cycle)

def raisedAnswer (write : Nat) (_index : Fin 6) : BitVec 16 :=
  if write = 207 then BitVec.allOnes 16 else 0

theorem raisedLine_answers (index : Fin 6) :
    Answers (scheduled (twoTransactions 40) raisedLine) raisedAnswer index := by
  intro write mask started selected place inWord
  have inPlace : place < 16 := inWord
  change (raisedAnswer write index).getLsbD (16 - 1 - place) =
    decide (200 ≤ edgeCycle moduleGenerics (write + 1) _ (2 * place + 1) - 1)
  unfold edgeCycle
  rcases twoTransactions_starts started selected with rfl | rfl
  · have delay : delayAt (scheduled (twoTransactions 40) raisedLine) 3 = 60 := by decide +kernel
    have unit : divisor moduleGenerics = 3 := rfl
    rw [delay, unit, decide_eq_false (by omega)]
    exact BitVec.getLsbD_zero
  · rw [decide_eq_true (by omega)]
    change (BitVec.allOnes 16).getLsbD (16 - 1 - place) = true
    rw [BitVec.getLsbD_allOnes]
    exact decide_eq_true (by omega)

theorem driver_exchange_twice :
    rxRegister (driven (scheduled (twoTransactions 40) raisedLine)) module1 402 =
        (exchangeAt (scheduled (twoTransactions 40) raisedLine) raisedAnswer 402).spiRx module1 ∧
      ∀ channel, slaveWord (scheduled (twoTransactions 40) raisedLine) channel 402 =
        (exchangeAt (scheduled (twoTransactions 40) raisedLine) raisedAnswer 402).slaveRx
          channel :=
  driver_exchange _ raisedAnswer (twoTransactions_run raisedLine) 402 module1
    (raisedLine_answers module1) rfl

/-- One execution of `main`, with one level for all MISO lines. -/
def exchangeProgram (miso : Nat → Bool) (cycle : Nat) : SystemInputs :=
  { resetN := true
    portResetN := true
    operation :=
      if cycle = 0 then some (.writeDelay 60)
      else if cycle = 1 then some (.writeTx module0 10)
      else if cycle = 2 then some (.writeStart 1)
      else if cycle = 200 then some .readEnd
      else if cycle = 201 then some (.readRx module0)
      else none
    spiDspMisoIn := fun _index => miso cycle }

variable {miso : Nat → Bool}

theorem exchangeProgram_operations : MainOperations (exchangeProgram miso) := by
  refine ⟨fun _cycle => ⟨rfl, Or.inl rfl⟩, fun cycle => ?_⟩
  unfold exchangeProgram
  dsimp only
  split
  next => exact ⟨.writeDelay, rfl⟩
  split
  next => exact ⟨.writeTx, rfl⟩
  split
  next => exact ⟨.writeStart, rfl⟩
  split
  next => exact ⟨.readEnd, rfl⟩
  split
  next => exact ⟨.readRx, rfl⟩
  next => exact ⟨.finished, rfl⟩

theorem exchangeProgram_flag : endFlag (driven (exchangeProgram miso)) 200 = true := by
  have unstarted : (portsAt (exchangeProgram miso) 2).startSpi = 0 := rfl
  have settings : (portsAt (exchangeProgram miso) 2).delaySpi = 60 ∧
      (portsAt (exchangeProgram miso) 2).spiTx module0 = 10 := ⟨rfl, rfl⟩
  have underway := exchangeProgram_operations.underway unstarted rfl (by decide : 2 + 1 < 200)
  have held := exchangeProgram_operations.held settings 201
  exact endFlag_iff.mpr ⟨module0, underway.waits (by decide) held (by decide)⟩

theorem exchangeProgram_run : ProtocolRun (exchangeProgram miso) := by
  refine ⟨fun _cycle => ⟨rfl, Or.inl rfl⟩, ?_⟩
  have polls : ∀ cycle, cycle < 198 →
      clientAt (exchangeProgram miso) (cycle + 3) = some (.polling 1) := by
    intro cycle before
    induction cycle with
    | zero => rfl
    | succ cycle ih =>
        have waits : (exchangeProgram miso (cycle + 3)).operation = none := by
          unfold exchangeProgram
          dsimp only
          rw [if_neg (by omega), if_neg (by omega), if_neg (by omega), if_neg (by omega),
            if_neg (by omega)]
        rw [clientAt, ih (by omega), waits]
        rfl
  have reads : ∀ cycle,
      clientAt (exchangeProgram miso) (cycle + 201) = some (.reading 1) := by
    intro cycle
    induction cycle with
    | zero =>
        rw [clientAt, polls 197 (by decide), exchangeProgram_flag]
        rfl
    | succ cycle ih =>
        rw [clientAt, ih]
        cases cycle <;> rfl
  intro cycle
  obtain early | middle | late : cycle < 3 ∨ 3 ≤ cycle ∧ cycle < 201 ∨ 201 ≤ cycle := by omega
  · obtain rfl | rfl | rfl : cycle = 0 ∨ cycle = 1 ∨ cycle = 2 := by omega
    all_goals rfl
  · obtain ⟨later, rfl⟩ := Nat.exists_eq_add_of_le' middle.1
    rw [polls later (by omega)]
    rfl
  · obtain ⟨later, rfl⟩ := Nat.exists_eq_add_of_le' late
    rw [reads later]
    rfl

def highLine (_cycle : Nat) : Bool := true

/-! ### A channel whose MISO is wired to its own MOSI -/

theorem ProtocolRun.answers_of_looped (run : ProtocolRun inputs)
    (looped : ∀ cycle, (inputs cycle).spiDspMisoIn index = mosi (lines inputs index) cycle) :
    Answers inputs (fun write index => (portsAt inputs write).spiTx index) index := by
  intro write mask started selected
  have transaction := Transaction.first started (ne_zero_of_selected selected)
  have frame := run.steadyFrame started selected
  have wide := transaction.wideDelay run
  have received := frame.wordReceived (by decide) rfl wide
  rw [frame.echoes (by decide) (Or.inr wide) (fun cycle _lower _upper => looped cycle),
    run.frameWord_eq started selected] at received
  exact received

/-- In the loop a channel is a memory: the start write copies its transmit register
to its receive register. -/
theorem driver_echo (inputs : Nat → SystemInputs) (run : ProtocolRun inputs) (cycle : Nat)
    (index : Fin 6)
    (looped : ∀ cycle, (inputs cycle).spiDspMisoIn index = mosi (lines inputs index) cycle)
    (reads : (inputs cycle).operation = some (.readRx index)) :
    rxRegister (driven inputs) index cycle =
      (exchangeAt inputs (fun write index => (portsAt inputs write).spiTx index) cycle).spiRx
        index :=
  run.read_eq (run.answers_of_looped looped) reads

def echoRegisters : Nat → Registers moduleGenerics
  | 0 => resetRegisters moduleGenerics
  | cycle + 1 =>
      nextRegisters
        { lines (exchangeProgram highLine) module0 cycle with
          spiMisoIn := spiMosiOut (echoRegisters cycle) }
        (echoRegisters cycle)

def echoProgram : Nat → SystemInputs :=
  exchangeProgram (fun cycle => spiMosiOut (echoRegisters cycle))

theorem portsAt_exchangeProgram (cycle : Nat) :
    portsAt (exchangeProgram miso) cycle = portsAt (exchangeProgram highLine) cycle := by
  induction cycle with
  | zero => rfl
  | succ cycle ih =>
      rw [portsAt_succ exchangeProgram_operations.powered,
        portsAt_succ exchangeProgram_operations.powered, ih]
      rfl

theorem echoProgram_registers (cycle : Nat) :
    registersAt (lines echoProgram module0) cycle = echoRegisters cycle := by
  induction cycle with
  | zero => rfl
  | succ cycle ih =>
      have sees : lines echoProgram module0 cycle =
          { lines (exchangeProgram highLine) module0 cycle with
            spiMisoIn := spiMosiOut (echoRegisters cycle) } := by
        simp only [lines, moduleInputs, portMap, driven, echoProgram, portsAt_exchangeProgram,
          exchangeProgram, rst, delaySpiInt]
      rw [registersAt_succ rfl rfl, ih, sees]
      rfl

theorem driver_echo_program :
    rxRegister (driven echoProgram) module0 201 =
      (exchangeAt echoProgram (fun write index => (portsAt echoProgram write).spiTx index)
        201).spiRx module0 :=
  driver_echo echoProgram exchangeProgram_run 201 module0
    (fun cycle => congrArg spiMosiOut (echoProgram_registers cycle).symm) rfl

end SpiFpga.Top
