/-
The processor side: parallel ports and the program that drives them.

An output port is a register that a bus write loads at one clock edge; an input
port shows its lines to a bus read.  The ports have a reset of their own, which the
reset controller makes of the reset of the board.  The program runs one transaction after the
other: it sets up delay and words, writes the start register, polls the end flag,
reads received words and takes the start bits back.  Any number of periods may
pass between two bus operations.
-/

import SpiFpga.Top.System

namespace SpiFpga.Top

open Clocked Master

inductive BusOperation where
  | writeDelay (value : BitVec 8)
  | writeTx (index : Fin 6) (value : BitVec 16)
  | writeStart (mask : BitVec 6)
  | readEnd
  | readRx (index : Fin 6)
  deriving DecidableEq

/-- One period of the whole system: the reset of the board, the reset of the ports
(`rst_controller_reset_out_reset_ports_inv`) and at most one bus operation. -/
structure SystemInputs where
  resetN : Bool
  portResetN : Bool
  operation : Option BusOperation
  spiDspMisoIn : Fin 6 → Bool

/-- `data_out` of the output ports. -/
structure PortRegisters where
  startSpi : BitVec 6
  delaySpi : BitVec 8
  spiTx : Fin 6 → BitVec 16

def PortRegisters.next (operation : Option BusOperation) (ports : PortRegisters) :
    PortRegisters :=
  match operation with
  | some (.writeDelay value) => { ports with delaySpi := value }
  | some (.writeTx index value) =>
      { ports with spiTx := fun other => if other = index then value else ports.spiTx other }
  | some (.writeStart mask) => { ports with startSpi := mask }
  | _ => ports

def outputPorts : Machine SystemInputs PortRegisters :=
  { resetState := { startSpi := 0, delaySpi := 0, spiTx := fun _index => 0 }
    reset := fun input => !input.portResetN
    next := fun input ports => ports.next input.operation }

def portsAt (inputs : Nat → SystemInputs) (cycle : Nat) : PortRegisters :=
  outputPorts.run inputs cycle

def driven (inputs : Nat → SystemInputs) (cycle : Nat) : TopInputs :=
  { resetN := (inputs cycle).resetN
    startSpi := (portsAt inputs cycle).startSpi
    delaySpi := (portsAt inputs cycle).delaySpi
    spiTx := (portsAt inputs cycle).spiTx
    spiDspMisoIn := (inputs cycle).spiDspMisoIn }

abbrev lines (inputs : Nat → SystemInputs) (index : Fin 6) : Nat → Inputs moduleGenerics :=
  moduleInputs (driven inputs) index

/-! ### The program -/

/-- What the program may do next. -/
inductive Client where
  | setup (delayWritten : Bool)
  | polling (mask : BitVec 6)
  | reading (mask : BitVec 6)
  deriving DecidableEq

/-- The next stage of the program, or none for an operation out of order. The
flag is what a read of the end register returns in this period. -/
def Client.next (flag : Bool) (operation : Option BusOperation) (client : Client) :
    Option Client :=
  match client, operation with
  | client, none => some client
  | .setup _, some (.writeDelay value) => if 3 ≤ value.toNat then some (.setup true) else none
  | .setup delayWritten, some (.writeTx _ _) => some (.setup delayWritten)
  | .setup delayWritten, some (.writeStart mask) =>
      if delayWritten && decide (mask ≠ 0) then some (.polling mask) else none
  | .polling mask, some .readEnd => some (if flag then .reading mask else .polling mask)
  | .reading mask, some (.readRx _) => some (.reading mask)
  | .reading _, some (.writeStart mask) => if mask = 0 then some (.setup true) else none
  | _, some _ => none

def clientAt (inputs : Nat → SystemInputs) : Nat → Option Client
  | 0 => some (.setup false)
  | cycle + 1 =>
      (clientAt inputs cycle).bind
        (Client.next (endFlag (driven inputs) cycle) (inputs cycle).operation)

/-- A run without reset. The reset of the ports that the controller gives at power-on
holds the processor too. -/
def Powered (inputs : Nat → SystemInputs) : Prop :=
  ∀ cycle, (inputs cycle).resetN = true ∧
    ((inputs cycle).portResetN = true ∨
      ∀ earlier, earlier ≤ cycle → (inputs earlier).operation = none)

/-- The program never leaves its protocol. -/
structure ProtocolRun (inputs : Nat → SystemInputs) : Prop where
  powered : Powered inputs
  legal : ∀ cycle, (clientAt inputs cycle).isSome = true

structure Transaction (inputs : Nat → SystemInputs) (write cycle : Nat) (mask : BitVec 6) :
    Prop where
  started : (inputs write).operation = some (.writeStart mask)
  selects : mask ≠ 0
  before : write < cycle
  undisturbed : ∀ between, write < between → between < cycle → ∀ other,
    (inputs between).operation ≠ some (.writeStart other)

/-! ### One step of the program -/

section Step

variable {flag : Bool} {operation : Option BusOperation} {after : Client}

theorem next_setup {written : Bool}
    (advanced : (Client.setup written).next flag operation = some after) :
    (∃ mask, operation = some (.writeStart mask) ∧ mask ≠ 0 ∧ after = .polling mask) ∨
      (∀ mask, operation ≠ some (.writeStart mask)) ∧ ∃ written', after = .setup written' := by
  cases operation with
  | none =>
      simp only [Client.next, Option.some.injEq] at advanced
      exact Or.inr ⟨fun _mask => nofun, written, advanced.symm⟩
  | some operation =>
      cases operation with
      | writeDelay value =>
          simp only [Client.next] at advanced
          split at advanced
          next => exact Or.inr ⟨fun _mask => nofun, true, (Option.some.inj advanced).symm⟩
          next => cases advanced
      | writeTx index value =>
          simp only [Client.next, Option.some.injEq] at advanced
          exact Or.inr ⟨fun _mask => nofun, written, advanced.symm⟩
      | writeStart mask =>
          simp only [Client.next] at advanced
          split at advanced
          next allowed =>
            simp only [Bool.and_eq_true, decide_eq_true_eq] at allowed
            exact Or.inl ⟨mask, rfl, allowed.2, (Option.some.inj advanced).symm⟩
          next => cases advanced
      | readEnd => cases advanced
      | readRx index => cases advanced

theorem next_polling {mask : BitVec 6}
    (advanced : (Client.polling mask).next flag operation = some after) :
    (operation = none ∨ operation = some .readEnd) ∧
      (after = .polling mask ∨
        operation = some .readEnd ∧ flag = true ∧ after = .reading mask) := by
  cases operation with
  | none =>
      simp only [Client.next, Option.some.injEq] at advanced
      exact ⟨Or.inl rfl, Or.inl advanced.symm⟩
  | some operation =>
      cases operation with
      | readEnd =>
          simp only [Client.next, Option.some.injEq] at advanced
          refine ⟨Or.inr rfl, ?_⟩
          cases flag with
          | false => exact Or.inl advanced.symm
          | true => exact Or.inr ⟨rfl, rfl, advanced.symm⟩
      | writeDelay value => cases advanced
      | writeTx index value => cases advanced
      | writeStart mask' => cases advanced
      | readRx index => cases advanced

theorem next_reading {mask : BitVec 6}
    (advanced : (Client.reading mask).next flag operation = some after) :
    operation = some (.writeStart 0) ∧ after = .setup true ∨
      (operation = none ∨ ∃ index, operation = some (.readRx index)) ∧ after = .reading mask := by
  cases operation with
  | none =>
      simp only [Client.next, Option.some.injEq] at advanced
      exact Or.inr ⟨Or.inl rfl, advanced.symm⟩
  | some operation =>
      cases operation with
      | readRx index =>
          simp only [Client.next, Option.some.injEq] at advanced
          exact Or.inr ⟨Or.inr ⟨index, rfl⟩, advanced.symm⟩
      | writeStart stop =>
          simp only [Client.next] at advanced
          split at advanced
          next isZero => exact Or.inl ⟨by rw [isZero], (Option.some.inj advanced).symm⟩
          next => cases advanced
      | writeDelay value => cases advanced
      | writeTx index value => cases advanced
      | readEnd => cases advanced

end Step

/-- The start register holds what the stage of the program says, and the delay
covers the divider range from its first write on. -/
def PortsMatch (client : Client) (ports : PortRegisters) : Prop :=
  match client with
  | .setup written => ports.startSpi = 0 ∧ (written = true → 3 ≤ ports.delaySpi.toNat)
  | .polling mask => ports.startSpi = mask ∧ 3 ≤ ports.delaySpi.toNat
  | .reading mask => ports.startSpi = mask ∧ 3 ≤ ports.delaySpi.toNat

theorem next_portsMatch {flag : Bool} {operation : Option BusOperation}
    {client after : Client} {ports : PortRegisters} (same : PortsMatch client ports)
    (advanced : client.next flag operation = some after) :
    PortsMatch after (ports.next operation) := by
  cases client with
  | setup written =>
      cases operation with
      | none =>
          obtain rfl := Option.some.inj advanced
          exact same
      | some operation =>
          cases operation with
          | writeDelay value =>
              simp only [Client.next] at advanced
              split at advanced
              next wide =>
                obtain rfl := Option.some.inj advanced
                exact ⟨same.1, fun _written => wide⟩
              next => cases advanced
          | writeTx index value =>
              obtain rfl := Option.some.inj advanced
              exact same
          | writeStart mask =>
              simp only [Client.next] at advanced
              split at advanced
              next allowed =>
                simp only [Bool.and_eq_true, decide_eq_true_eq] at allowed
                obtain rfl := Option.some.inj advanced
                exact ⟨rfl, same.2 allowed.1⟩
              next => cases advanced
          | readEnd => cases advanced
          | readRx index => cases advanced
  | polling mask =>
      obtain ⟨kept, rfl | ⟨_read, _high, rfl⟩⟩ := next_polling advanced
      · rcases kept with rfl | rfl <;> exact same
      · rcases kept with rfl | rfl <;> exact same
  | reading mask =>
      rcases next_reading advanced with ⟨rfl, rfl⟩ | ⟨rfl | ⟨index, rfl⟩, rfl⟩
      · exact ⟨rfl, fun _written => same.2⟩
      · exact same
      · exact same

/-! ### Runs of the program -/

variable {inputs : Nat → SystemInputs} {write cycle : Nat} {mask : BitVec 6}

/-- Before the first operation a reset of the ports changes nothing. -/
theorem portsAt_silent
    (silent : ∀ earlier, earlier < cycle → (inputs earlier).operation = none) :
    portsAt inputs cycle = outputPorts.resetState := by
  induction cycle with
  | zero => rfl
  | succ cycle ih =>
      rcases Machine.run_succ_cases outputPorts inputs cycle with
        cleared | ⟨_low, _lowAfter, advanced⟩
      · exact cleared
      · have before := ih (fun earlier upper => silent earlier (Nat.lt_succ_of_lt upper))
        rw [portsAt] at before ⊢
        rw [advanced, before]
        change outputPorts.resetState.next (inputs cycle).operation = outputPorts.resetState
        rw [silent cycle (Nat.lt_succ_self cycle)]
        rfl

theorem portsAt_succ (powered : Powered inputs) (cycle : Nat) :
    portsAt inputs (cycle + 1) = (portsAt inputs cycle).next (inputs cycle).operation := by
  have unused : (∀ earlier, earlier ≤ cycle → (inputs earlier).operation = none) →
      portsAt inputs (cycle + 1) = (portsAt inputs cycle).next (inputs cycle).operation := by
    intro silent
    rw [portsAt_silent (fun earlier upper => silent earlier (Nat.le_of_lt_succ upper)),
      portsAt_silent (fun earlier upper => silent earlier (Nat.le_of_lt upper)),
      silent cycle (Nat.le_refl cycle)]
    rfl
  rcases (powered cycle).2 with released | silent
  · rcases (powered (cycle + 1)).2 with releasedAfter | silent
    · exact Machine.run_succ cycle (congrArg not released) (congrArg not releasedAfter)
    · exact unused (fun earlier upper => silent earlier (Nat.le_succ_of_le upper))
  · exact unused silent

namespace ProtocolRun

theorem exists_client (run : ProtocolRun inputs) (cycle : Nat) :
    ∃ client, clientAt inputs cycle = some client :=
  Option.isSome_iff_exists.mp (run.legal cycle)

theorem advanced (run : ProtocolRun inputs) {client : Client}
    (current : clientAt inputs cycle = some client) :
    ∃ after, clientAt inputs (cycle + 1) = some after ∧
      client.next (endFlag (driven inputs) cycle) (inputs cycle).operation = some after := by
  obtain ⟨after, next⟩ := run.exists_client (cycle + 1)
  refine ⟨after, next, ?_⟩
  rw [clientAt, current] at next
  exact next

theorem portsMatch (run : ProtocolRun inputs) {client : Client}
    (current : clientAt inputs cycle = some client) :
    PortsMatch client (portsAt inputs cycle) := by
  induction cycle generalizing client with
  | zero =>
      obtain rfl := Option.some.inj current
      exact ⟨rfl, fun impossible => absurd impossible Bool.false_ne_true⟩
  | succ cycle ih =>
      obtain ⟨before, past⟩ := run.exists_client cycle
      obtain ⟨after, next, step⟩ := run.advanced past
      obtain rfl := Option.some.inj (current.symm.trans next)
      rw [portsAt_succ run.powered]
      exact next_portsMatch (ih past) step

theorem noStart_of_polling (run : ProtocolRun inputs)
    (polls : clientAt inputs cycle = some (.polling mask)) (other : BitVec 6) :
    (inputs cycle).operation ≠ some (.writeStart other) := by
  intro started
  obtain ⟨_after, _next, step⟩ := run.advanced polls
  rw [started] at step
  rcases (next_polling step).1 with impossible | impossible <;> cases impossible

theorem setup_of_start (run : ProtocolRun inputs)
    (started : (inputs write).operation = some (.writeStart mask)) (selects : mask ≠ 0) :
    (∃ written, clientAt inputs write = some (.setup written)) ∧
      clientAt inputs (write + 1) = some (.polling mask) := by
  obtain ⟨client, current⟩ := run.exists_client write
  obtain ⟨after, next, step⟩ := run.advanced current
  rw [started] at step
  cases client with
  | setup written =>
      rcases next_setup step with ⟨mask', same, _selects, rfl⟩ | ⟨noStart, _stays⟩
      · obtain rfl : mask = mask' := by simpa using same
        exact ⟨⟨written, current⟩, next⟩
      · exact absurd rfl (noStart mask)
  | polling mask' => exact absurd started (run.noStart_of_polling current mask)
  | reading mask' =>
      rcases next_reading step with ⟨same, _stops⟩ | ⟨impossible | ⟨index, impossible⟩, _stays⟩
      · obtain rfl : mask = 0 := by simpa using same
        exact absurd rfl selects
      · cases impossible
      · cases impossible

end ProtocolRun

namespace Transaction

theorem first (started : (inputs write).operation = some (.writeStart mask))
    (selects : mask ≠ 0) : Transaction inputs write (write + 1) mask :=
  ⟨started, selects, Nat.lt_succ_self write, fun _between lower upper =>
    absurd (Nat.le_of_lt_succ upper) (Nat.not_le_of_lt lower)⟩

theorem extend (transaction : Transaction inputs write cycle mask)
    (noStart : ∀ other, (inputs cycle).operation ≠ some (.writeStart other)) :
    Transaction inputs write (cycle + 1) mask := by
  refine ⟨transaction.started, transaction.selects, Nat.lt_succ_of_lt transaction.before, ?_⟩
  intro between lower upper
  rcases Nat.lt_or_eq_of_le (Nat.le_of_lt_succ upper) with inside | last
  · exact transaction.undisturbed between lower inside
  · rw [last]
    exact noStart

theorem mono (transaction : Transaction inputs write cycle mask) {between : Nat}
    (after : write < between) (upTo : between ≤ cycle) : Transaction inputs write between mask :=
  ⟨transaction.started, transaction.selects, after, fun earlier lower upper =>
    transaction.undisturbed earlier lower (Nat.lt_of_lt_of_le upper upTo)⟩

theorem client (run : ProtocolRun inputs) (transaction : Transaction inputs write cycle mask) :
    clientAt inputs cycle = some (.polling mask) ∨
      clientAt inputs cycle = some (.reading mask) ∧
        ∃ read, write < read ∧ read < cycle ∧ (inputs read).operation = some .readEnd ∧
          endFlag (driven inputs) read = true := by
  obtain ⟨started, selects, before, undisturbed⟩ := transaction
  induction cycle, before using Nat.le_induction with
  | base => exact Or.inl (run.setup_of_start started selects).2
  | succ cycle before ih =>
      have quiet := undisturbed cycle before (Nat.lt_succ_self cycle)
      rcases ih (fun between lower upper =>
        undisturbed between lower (Nat.lt_succ_of_lt upper)) with polls | ⟨reads, read, seen⟩
      · obtain ⟨after, next, step⟩ := run.advanced polls
        obtain ⟨_kept, rfl | ⟨atRead, high, rfl⟩⟩ := next_polling step
        · exact Or.inl next
        · exact Or.inr ⟨next, cycle, before, Nat.lt_succ_self cycle, atRead, high⟩
      · obtain ⟨after, next, step⟩ := run.advanced reads
        rcases next_reading step with ⟨stops, _setup⟩ | ⟨_kept, rfl⟩
        · exact absurd stops (quiet 0)
        · obtain ⟨lower, upper, atRead, high⟩ := seen
          exact Or.inr ⟨next, read, lower, Nat.lt_succ_of_lt upper, atRead, high⟩

theorem ports (run : ProtocolRun inputs) (transaction : Transaction inputs write cycle mask) :
    portsAt inputs cycle = { portsAt inputs write with startSpi := mask } := by
  obtain ⟨started, selects, before, undisturbed⟩ := transaction
  induction cycle, before using Nat.le_induction with
  | base =>
      rw [portsAt_succ run.powered, started]
      rfl
  | succ cycle before ih =>
      have earlier : Transaction inputs write cycle mask :=
        ⟨started, selects, before, fun between lower upper =>
          undisturbed between lower (Nat.lt_succ_of_lt upper)⟩
      have kept : (portsAt inputs cycle).next (inputs cycle).operation = portsAt inputs cycle := by
        rcases earlier.client run with polls | ⟨reads, _seen⟩
        · obtain ⟨after, _next, step⟩ := run.advanced polls
          rcases (next_polling step).1 with idle | atRead
          · rw [idle]
            rfl
          · rw [atRead]
            rfl
        · obtain ⟨after, _next, step⟩ := run.advanced reads
          rcases next_reading step with ⟨stops, _setup⟩ | ⟨idle | ⟨index, atRead⟩, _stays⟩
          · exact absurd stops (undisturbed cycle before (Nat.lt_succ_self cycle) 0)
          · rw [idle]
            rfl
          · rw [atRead]
            rfl
      rw [portsAt_succ run.powered, kept]
      exact ih earlier.undisturbed

theorem wideDelay (run : ProtocolRun inputs) (transaction : Transaction inputs write cycle mask) :
    3 ≤ (portsAt inputs write).delaySpi.toNat := by
  have ports := transaction.ports run
  have wide : 3 ≤ (portsAt inputs cycle).delaySpi.toNat := by
    rcases transaction.client run with polls | ⟨reads, _seen⟩
    · exact (run.portsMatch polls).2
    · exact (run.portsMatch reads).2
  rw [ports] at wide
  exact wide

end Transaction

theorem ProtocolRun.exists_transaction (run : ProtocolRun inputs)
    (busy : clientAt inputs cycle = some (.polling mask) ∨
      clientAt inputs cycle = some (.reading mask)) :
    ∃ write, Transaction inputs write cycle mask := by
  induction cycle with
  | zero => rcases busy with impossible | impossible <;> cases impossible
  | succ cycle ih =>
      obtain ⟨client, past⟩ := run.exists_client cycle
      obtain ⟨after, next, step⟩ := run.advanced past
      rw [next] at busy
      cases client with
      | setup written =>
          rcases next_setup step with ⟨mask', started, selects, rfl⟩ | ⟨_noStart, written', rfl⟩
          · rcases busy with same | impossible
            · obtain rfl : mask' = mask := by simpa using same
              exact ⟨cycle, Transaction.first started selects⟩
            · cases impossible
          · rcases busy with impossible | impossible <;> cases impossible
      | polling mask' =>
          have same : mask' = mask := by
            rcases (next_polling step).2 with rfl | ⟨_atRead, _high, rfl⟩ <;> simpa using busy
          obtain ⟨write, transaction⟩ := ih (Or.inl (by rw [← same]; exact past))
          exact ⟨write, transaction.extend (run.noStart_of_polling past)⟩
      | reading mask' =>
          rcases next_reading step with ⟨_stops, rfl⟩ | ⟨kept, rfl⟩
          · rcases busy with impossible | impossible <;> cases impossible
          · have same : mask' = mask := by simpa using busy
            obtain ⟨write, transaction⟩ := ih (Or.inr (by rw [← same]; exact past))
            refine ⟨write, transaction.extend ?_⟩
            intro other started
            rw [started] at kept
            rcases kept with impossible | ⟨index, impossible⟩ <;> cases impossible

end SpiFpga.Top
