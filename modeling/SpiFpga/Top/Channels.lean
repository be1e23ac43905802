/-
One channel among the six.

The modules share a bus, a start register and a delay register.  What a channel
does is nevertheless a function of its own traffic: erase from a run every
operation for another channel, every read, and every start write that leaves this
channel's bit alone, and its module runs exactly as before.  The resets of modules and
ports may come at any time, each on its own.
-/

import SpiFpga.Top.Client

namespace SpiFpga.Top

open Clocked Master

def channelMask (index : Fin 6) (bit : Bool) : BitVec 6 :=
  if bit then 1 <<< index.val else 0

/-- What is left of an operation for one channel, with the level that its start bit
has at the time. -/
def BusOperation.ownPart (index : Fin 6) (level : Bool) : BusOperation → Option BusOperation
  | .writeDelay value => some (.writeDelay value)
  | .writeTx other value => if other = index then some (.writeTx index value) else none
  | .writeStart mask =>
      if mask.getLsbD index = level then none
      else some (.writeStart (channelMask index (mask.getLsbD index)))
  | .readEnd => none
  | .readRx _ => none

/-- The run without the traffic of the other channels. -/
def ownTraffic (inputs : Nat → SystemInputs) (index : Fin 6) (cycle : Nat) : SystemInputs :=
  { resetN := (inputs cycle).resetN
    portResetN := (inputs cycle).portResetN
    operation := (inputs cycle).operation.bind
      (BusOperation.ownPart index ((portsAt inputs cycle).startSpi.getLsbD index))
    spiDspMisoIn := fun other =>
      if other = index then (inputs cycle).spiDspMisoIn index else false }

structure SameChannel (index : Fin 6) (ports ports' : PortRegisters) : Prop where
  start : ports'.startSpi.getLsbD index = ports.startSpi.getLsbD index
  delay : ports'.delaySpi = ports.delaySpi
  tx : ports'.spiTx index = ports.spiTx index

theorem channelMask_own (index : Fin 6) (bit : Bool) :
    (channelMask index bit).getLsbD index = bit := by
  revert index bit
  decide

theorem next_sameChannel {index : Fin 6} {ports ports' : PortRegisters}
    (same : SameChannel index ports ports') (operation : Option BusOperation) :
    SameChannel index (ports.next operation)
      (ports'.next
        (operation.bind (BusOperation.ownPart index (ports.startSpi.getLsbD index)))) := by
  cases operation with
  | none => exact same
  | some operation =>
      rw [Option.bind_some]
      cases operation with
      | writeDelay value => exact ⟨same.start, rfl, same.tx⟩
      | writeTx other value =>
          rw [BusOperation.ownPart]
          by_cases own : other = index
          · rw [if_pos own, own]
            exact ⟨same.start, same.delay, (if_pos rfl).trans (if_pos rfl).symm⟩
          · rw [if_neg own]
            exact ⟨same.start, same.delay, same.tx.trans (if_neg (Ne.symm own)).symm⟩
      | writeStart mask =>
          rw [BusOperation.ownPart]
          by_cases kept : mask.getLsbD index = ports.startSpi.getLsbD index
          · rw [if_pos kept]
            exact ⟨same.start.trans kept.symm, same.delay, same.tx⟩
          · rw [if_neg kept]
            exact ⟨channelMask_own index _, same.delay, same.tx⟩
      | readEnd => exact same
      | readRx other => exact same

theorem portsAt_sameChannel (inputs : Nat → SystemInputs) (index : Fin 6) (cycle : Nat) :
    SameChannel index (portsAt inputs cycle) (portsAt (ownTraffic inputs index) cycle) := by
  have powerOn : SameChannel index outputPorts.resetState outputPorts.resetState :=
    ⟨rfl, rfl, rfl⟩
  have sameReset : ∀ now, outputPorts.reset (inputs now) =
      outputPorts.reset (ownTraffic inputs index now) := fun _now => rfl
  refine Machine.run_related_reached (SameChannel index) powerOn sameReset ?_ cycle
  intro now same
  exact next_sameChannel same (inputs now).operation

theorem lines_ownTraffic (inputs : Nat → SystemInputs) (index : Fin 6) :
    lines (ownTraffic inputs index) index = lines inputs index := by
  funext cycle
  obtain ⟨start, delay, tx⟩ := portsAt_sameChannel inputs index cycle
  simp only [lines, moduleInputs, portMap, driven, rst, delaySpiInt, start, delay, tx, ownTraffic,
    if_true]

/-- A channel does in every run what it does in the run of its own traffic. -/
theorem channel_isolated (inputs : Nat → SystemInputs) (index : Fin 6) (cycle : Nat) :
    chipSelect (lines (ownTraffic inputs index) index) cycle =
        chipSelect (lines inputs index) cycle ∧
      sclk (lines (ownTraffic inputs index) index) cycle = sclk (lines inputs index) cycle ∧
      mosi (lines (ownTraffic inputs index) index) cycle = mosi (lines inputs index) cycle ∧
      rxRegister (driven (ownTraffic inputs index)) index cycle =
        rxRegister (driven inputs) index cycle := by
  have same := lines_ownTraffic inputs index
  refine ⟨?_, ?_, ?_, ?_⟩
  · rw [same]
  · rw [same]
  · rw [same]
  · rw [rxRegister_eq, rxRegister_eq]
    exact congrArg (fun line => dataRx line cycle) same

end SpiFpga.Top
