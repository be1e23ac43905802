/-
The channels together.

One start write selects any number of channels.  Their DSPs sample within the lag of
the lines of each other, and the program may fetch the samples one after the other,
in any order, with reads of its own: they still belong to the one write.
-/

import SpiFpga.Top.AddressMap
import SpiFpga.Top.Sampling

namespace SpiFpga.Top

open Clocked Master Dsp

/-- Every word that a program reads of a channel, after it has seen the flag, is the
sample of that channel for the last start write, and all of these were taken in the
same few cycles. -/
theorem sampled_together (inputs : Nat → BusInputs) (run : ProtocolRun (performed inputs))
    {lag : Nat} (near : lag < 3) (observer : Fin 6 → Observer lag)
    (sample : Fin 6 → Nat → BitVec 16) (convert respond : Nat) (trace : Fin 6 → Trace)
    {mask : BitVec 6} {write : Nat}
    (channel : ∀ index : Fin 6, mask.getLsbD index = true →
      SamplingChannel (performed inputs) index (observer index) (sample index) convert respond
        (trace index))
    (inTime : ∀ index : Fin 6, mask.getLsbD index = true →
      InTime (performed inputs) index (lag + (convert + respond)) 0) :
    ∃ trigger : Fin 6 → Nat,
      (∀ index, write + 3 ≤ trigger index ∧ trigger index ≤ write + 3 + lag) ∧
      ∀ cycle, Transaction (performed inputs) write cycle mask →
        ∀ index : Fin 6, mask.getLsbD index = true →
          (inputs cycle).access = some (.iord (Slave.spiRxRegister index).base 0) →
            Rises (spisteb (performed inputs) index (observer index)) (trigger index) ∧
              responseAt inputs cycle =
                some ((sample index (trigger index)).setWidth 32) := by
  choose trigger selects using fun index => exists_trigger (observer index) write
  refine ⟨trigger, fun index => (selects index).bounds, ?_⟩
  intro cycle transaction index selected asked
  have reads : (performed inputs cycle).operation = some (.readRx index) := by
    rw [performed, asked, Option.bind_some]
    exact operation_toAccess (.readRx index)
  obtain ⟨rises, sampled⟩ := (channel index selected).read_eq_sample run near
    (inTime index selected) transaction selected (selects index) reads
  refine ⟨rises, ?_⟩
  rw [responseAt_readRx reads, sampled]

/-! ### Two channels that see their lines differently -/

def twoViews (index : Fin 6) : Observer 2 :=
  if index = module1 then Observer.direct else thirdPeriod

def togetherProgram : Nat → SystemInputs :=
  wired (twoTransactions 40) twoViews numbered

def togetherAccesses (cycle : Nat) : BusInputs :=
  { resetN := (togetherProgram cycle).resetN
    portResetN := (togetherProgram cycle).portResetN
    access := (togetherProgram cycle).operation.map BusOperation.toAccess
    spiDspMisoIn := (togetherProgram cycle).spiDspMisoIn }

theorem togetherProgram_run : ProtocolRun togetherProgram :=
  twoTransactions_run _

theorem togetherProgram_trigger {index : Fin 6} {trigger trigger' : Nat}
    (rises : Rises (spisteb togetherProgram index (twoViews index)) trigger)
    (late : 207 + 3 ≤ trigger) (selects : Selects (twoViews index) 207 trigger') :
    trigger = trigger' := by
  obtain ⟨write, mask, started, selected, selects''⟩ :=
    (togetherProgram_run.rises_iff (by decide) trigger).mp rises
  have bounds := selects''.bounds
  rcases twoTransactions_starts started selected with rfl | rfl
  · omega
  · exact selects''.unique selects

/-- The second transaction reads channel 2, channel 1 and channel 2 again. The samples
are those of the periods 212 and 210. -/
theorem sampled_together_prompt :
    responseAt togetherAccesses 401 = some 0x80d4 ∧
      responseAt togetherAccesses 402 = some 0x80d2 ∧
      responseAt togetherAccesses 403 = some 0x80d4 := by
  have same : performed togetherAccesses = togetherProgram := performed_toAccess togetherProgram
  have run : ProtocolRun (performed togetherAccesses) := same ▸ togetherProgram_run
  have enough : ∀ index : Fin 6, ∀ write ∈ startWrites (twoTransactions 40) index,
      2 + (1 + 2) ≤ delayAt (unwired (twoTransactions 40)) write + 0 := by
    decide +kernel
  obtain ⟨trigger, bounds, sampled⟩ :=
    @sampled_together togetherAccesses run 2 (by decide) twoViews numbered 1 2
      (channelTrace (twoTransactions 40) twoViews numbered) 6 207
      (fun index _selected => by
        rw [same]
        exact wired_channel (twoTransactions 40) twoViews numbered index)
      (fun index _selected => by
        rw [same]
        exact wired_inTime (twoTransactions 40) twoViews numbered (enough index))
  have response : ∀ cycle (index : Fin 6) (trigger' : Nat),
      (6 : BitVec 6).getLsbD index = true → Selects (twoViews index) 207 trigger' →
      timedAt (fun now => List.lookup now (twoTransactions 40)) cycle =
        some { client := .reading 6, delaySpi := 40, write := 207 } →
      (togetherAccesses cycle).access = some (.iord (Slave.spiRxRegister index).base 0) →
      responseAt togetherAccesses cycle = some ((numbered index trigger').setWidth 32) := by
    intro cycle index trigger' selected selects reached asked
    have transaction : Transaction (performed togetherAccesses) 207 cycle 6 :=
      same ▸ Transaction.of_schedule _ reached
    obtain ⟨rises, read⟩ := sampled cycle transaction index selected asked
    rw [same] at rises
    rw [read, togetherProgram_trigger rises (bounds index).1 selects]
  refine ⟨?_, ?_, ?_⟩
  · exact response 401 2 212 (by decide) ⟨by decide, by decide⟩ (by decide +kernel) rfl
  · exact response 402 1 210 (by decide) ⟨by decide, by decide⟩ (by decide +kernel) rfl
  · exact response 403 2 212 (by decide) ⟨by decide, by decide⟩ (by decide +kernel) rfl

end SpiFpga.Top
