/-
Sampling through a channel.

The DSP on a channel samples when the frame selects it, and its routine has to put
the sample in the serial port before the first clock edge comes through.  What the
program reads is then the sample that its own start write has asked for, as long as
the delay covers the way of the chip select, the conversion and the routine.
-/

import SpiFpga.Dsp.Sampler
import SpiFpga.Master.SlaveFrame
import SpiFpga.Top.Exchange

namespace SpiFpga.Top

open Clocked Master Dsp

section Channel

variable (inputs : Nat → SystemInputs) (index : Fin 6) {lag : Nat} (observer : Observer lag)

/-- Chip select and clock of a channel as they arrive at the DSP. -/
def spisteb : Nat → Bool := observer.observed (chipSelect (lines inputs index))

def spiclkb : Nat → Bool := observer.observed (sclk (lines inputs index))

/-- A DSP on the lines of a channel, with its chip select at the trigger of the
converter (`INPUT5SELECT = 23`). Time is that of the processor system; the lag is the
way there and back. -/
structure SamplingChannel (sample : Nat → BitVec 16) (convert respond : Nat) (trace : Trace) :
    Prop where
  converter : Converter (spisteb inputs index observer) sample convert trace
  interrupts : Interrupts respond trace
  initial : Armed trace 0
  port : SlavePort (spiclkb inputs index observer) (spisteb inputs index observer)
    (observer.observed (mosi (lines inputs index))) trace.isr
    (fun period => (trace.registers period).spiDat) trace.somi
  -- a write that meets a shift is left open
  stores : ∀ served, trace.isr served = true →
    ¬(spiclkb inputs index observer served = true ∧
      spiclkb inputs index observer (served + 1) = false) →
    (trace.registers (served + 1)).spiDat = (adca1Isr (trace.registers served)).spiDat
  wired : ∀ cycle, (inputs cycle).spiDspMisoIn index = trace.somi cycle

end Channel

variable {inputs : Nat → SystemInputs} {index : Fin 6} {lag write trigger : Nat}
  {observer : Observer lag} {mask : BitVec 6}

/-! ### The requests are the frames -/

/-- The view passes the cycle in which the frame of a start write selects. -/
def Selects (observer : Observer lag) (write trigger : Nat) : Prop :=
  observer.seen trigger < write + 4 ∧ write + 4 ≤ observer.seen (trigger + 1)

theorem Selects.bounds (selects : Selects observer write trigger) :
    write + 3 ≤ trigger ∧ trigger ≤ write + 3 + lag := by
  obtain ⟨before, reached⟩ := selects
  have past := observer.past (trigger + 1)
  have recent := observer.recent trigger
  omega

theorem Selects.unique {trigger' : Nat} (selects : Selects observer write trigger)
    (selects' : Selects observer write trigger') : trigger = trigger' := by
  rcases Nat.lt_trichotomy trigger trigger' with before | same | after
  · have ordered := observer.mono (Nat.succ_le_of_lt before)
    exact absurd (Nat.le_trans selects.2 ordered) (Nat.not_le_of_lt selects'.1)
  · exact same
  · have ordered := observer.mono (Nat.succ_le_of_lt after)
    exact absurd (Nat.le_trans selects'.2 ordered) (Nat.not_le_of_lt selects.1)

theorem exists_trigger (observer : Observer lag) (write : Nat) :
    ∃ trigger, Selects observer write trigger := by
  have start : observer.seen 0 < write + 4 := by
    have past := observer.past 0
    omega
  have reached : write + 4 ≤ observer.seen (0 + (write + 4 + lag)) := by
    have recent := observer.recent (0 + (write + 4 + lag))
    omega
  obtain ⟨trigger, _inside, before, passed⟩ := observer.exists_step start reached
  rw [Nat.zero_add] at before passed
  exact ⟨trigger, before, passed⟩

theorem ProtocolRun.chipSelect_eq (run : ProtocolRun inputs)
    (started : (inputs write).operation = some (.writeStart mask))
    (selected : mask.getLsbD index = true) {cycle : Nat} (lower : write + 1 ≤ cycle)
    (upper : cycle ≤ storesAt inputs write) :
    chipSelect (lines inputs index) cycle = decide (write + 3 < cycle) :=
  (run.steadyFrame started selected).chipSelect_eq (by decide) lower upper

theorem ProtocolRun.exists_write_of_selected (run : ProtocolRun inputs) {cycle : Nat}
    (high : chipSelect (lines inputs index) cycle = true) :
    ∃ write mask, (inputs write).operation = some (.writeStart mask) ∧
      mask.getLsbD index = true ∧ write + 4 ≤ cycle ∧ cycle ≤ storesAt inputs write := by
  have active : stateAt (lines inputs index) cycle = .communicationState ∨
      stateAt (lines inputs index) cycle = .storeRxState := by
    by_contra neither
    rw [not_or] at neither
    rw [chipSelect_low neither.1 neither.2] at high
    cases high
  have notIdle : stateAt (lines inputs index) cycle ≠ .idle := by
    rcases active with inComm | inStore
    · rw [inComm]
      exact StateType.noConfusion
    · rw [inStore]
      exact StateType.noConfusion
  obtain ⟨first, underway⟩ := exists_underway notIdle
  obtain ⟨write, mask, rfl, started, selected⟩ := (run.begins_iff index first).mp underway.begins
  have frame := run.steadyFrame started selected
  have upper : cycle ≤ storesAt inputs write := by
    by_contra after
    have ended := frame.ends (by decide) (congrArg not (run.powered _).1)
    have later := write_before_storesAt inputs write
    have waits : stateAt (lines inputs index) cycle = .endState := by
      rcases Nat.lt_or_eq_of_le (Nat.succ_le_of_lt (Nat.lt_of_not_le after)) with beyond | next
      · exact (underway.previousLevel_of_ended (Nat.lt_succ_of_lt (by omega)) beyond ended).1
      · rw [← next]
        exact ended
    rw [waits] at active
    rcases active with impossible | impossible <;> cases impossible
  have lower := underway.before
  rw [run.chipSelect_eq started selected (by omega) upper, decide_eq_true_eq] at high
  exact ⟨write, mask, started, selected, high, upper⟩

theorem ProtocolRun.storesAt_lt_write (run : ProtocolRun inputs) {write' : Nat}
    {mask' : BitVec 6} (started : (inputs write).operation = some (.writeStart mask))
    (selects : mask ≠ 0) (started' : (inputs write').operation = some (.writeStart mask'))
    (later : write < write') : storesAt inputs write < write' := by
  by_contra early
  have transaction := run.transaction_upTo started selects (Nat.lt_succ_of_lt later)
    (Nat.succ_le_succ (Nat.le_of_not_lt early))
  exact transaction.undisturbed write' later (Nat.lt_succ_self write') mask' started'

theorem storesAt_eq (inputs : Nat → SystemInputs) (write : Nat) :
    storesAt inputs write = write + delayAt inputs write + 99 := by
  have divides : divisor moduleGenerics = 3 := rfl
  rw [storesAt, storeCycle, edgeCycle, divides]
  change write + 1 + delayAt inputs write + 4 + 31 * 3 + 1 = _
  omega

/-- With a lag below the divider range the DSP sees a rising chip select for each
frame, and sees no other. -/
theorem ProtocolRun.rises_iff (run : ProtocolRun inputs) (near : lag < 3) (trigger : Nat) :
    Rises (spisteb inputs index observer) trigger ↔
      ∃ write mask, (inputs write).operation = some (.writeStart mask) ∧
        mask.getLsbD index = true ∧ Selects observer write trigger := by
  constructor
  · rintro ⟨low, high⟩
    obtain ⟨write, mask, started, selected, reached, upper⟩ := run.exists_write_of_selected high
    refine ⟨write, mask, started, selected, ?_, reached⟩
    by_contra passed
    have ordered := observer.mono (Nat.le_succ trigger)
    have stillHigh : chipSelect (lines inputs index) (observer.seen trigger) = true := by
      rw [run.chipSelect_eq started selected (by omega) (Nat.le_trans ordered upper)]
      exact decide_eq_true (by omega)
    cases low.symm.trans stillHigh
  · rintro ⟨write, mask, started, selected, before, reached⟩
    have step := observer.seen_succ_le trigger
    have long := storesAt_eq inputs write
    constructor
    · refine (run.chipSelect_eq started selected (by omega) (by omega)).trans ?_
      exact decide_eq_false (by omega)
    · refine (run.chipSelect_eq started selected (by omega) (by omega)).trans ?_
      exact decide_eq_true (by omega)

/-- What the DSP needs goes into the delay of each frame and a spare time. -/
def InTime (inputs : Nat → SystemInputs) (index : Fin 6) (time spare : Nat) : Prop :=
  ∀ write mask, (inputs write).operation = some (.writeStart mask) →
    mask.getLsbD index = true → time ≤ delayAt inputs write + spare

theorem ProtocolRun.separated (run : ProtocolRun inputs) (near : lag < 3) {time : Nat}
    (inTime : InTime inputs index (lag + time) 99) :
    Separated (spisteb inputs index observer) time := by
  intro earlier later rises rises' ordered
  obtain ⟨write, mask, started, selected, selects⟩ := (run.rises_iff near earlier).mp rises
  obtain ⟨write', mask', started', selected', selects'⟩ := (run.rises_iff near later).mp rises'
  have bounds := selects.bounds
  have bounds' := selects'.bounds
  rcases Nat.lt_trichotomy write write' with before | same | after
  · have room := inTime write mask started selected
    have apart := run.storesAt_lt_write started (ne_zero_of_selected selected) started' before
    have long := storesAt_eq inputs write
    omega
  · rw [← same] at selects'
    have equal := selects.unique selects'
    omega
  · have apart := run.storesAt_lt_write started' (ne_zero_of_selected selected') started after
    have long := storesAt_eq inputs write'
    omega

/-! ### From the request to the read -/

section Sampled

variable {sample : Nat → BitVec 16} {convert respond : Nat} {trace : Trace}

/-- A frame and what the DSP does in it: the trigger, and the period in which the
routine has put the sample in the port. -/
structure SampledFrame (inputs : Nat → SystemInputs) (index : Fin 6) {lag : Nat}
    (observer : Observer lag) (sample : Nat → BitVec 16) (time : Nat) (trace : Trace)
    (write trigger served : Nat) : Prop where
  selects : Selects observer write trigger
  rises : Rises (spisteb inputs index observer) trigger
  answered : Answered (spisteb inputs index observer) sample time trace trigger served

theorem SamplingChannel.exists_frame (run : ProtocolRun inputs) (near : lag < 3)
    (channel : SamplingChannel inputs index observer sample convert respond trace)
    (inTime : InTime inputs index (lag + (convert + respond)) 99)
    (started : (inputs write).operation = some (.writeStart mask))
    (selected : mask.getLsbD index = true) (selects : Selects observer write trigger) :
    ∃ served, SampledFrame inputs index observer sample (convert + respond) trace write
      trigger served := by
  have rises : Rises (spisteb inputs index observer) trigger :=
    (run.rises_iff near trigger).mpr ⟨write, mask, started, selected, selects⟩
  obtain ⟨served, answered⟩ := answer_of_request channel.converter channel.interrupts
    channel.initial (run.separated near inTime) rises
  exact ⟨served, selects, rises, answered⟩

namespace SampledFrame

variable {time served : Nat}

theorem once (run : ProtocolRun inputs) (near : lag < 3)
    (frame : SampledFrame inputs index observer sample time trace write trigger served)
    (started : (inputs write).operation = some (.writeStart mask))
    (selected : mask.getLsbD index = true) {period : Nat} (after : trigger < period)
    (unfinished : observer.seen period ≤ storesAt inputs write)
    (ran : trace.isr period = true) : period = served := by
  apply frame.answered.once period after ran
  intro other afterTrigger before rises
  obtain ⟨write', mask', started', selected', selects'⟩ := (run.rises_iff near other).mp rises
  have ordered := observer.mono (Nat.succ_le_of_lt before)
  have bounds := frame.selects.bounds
  have bounds' := selects'.bounds
  have reached := selects'.2
  rcases Nat.lt_trichotomy write write' with next | equal | previous
  · have apart := run.storesAt_lt_write started (ne_zero_of_selected selected) started' next
    rw [Nat.succ_eq_add_one] at ordered
    omega
  · have selects := frame.selects
    rw [equal] at selects
    have sameTrigger := selects.unique selects'
    omega
  · have apart := run.storesAt_lt_write started' (ne_zero_of_selected selected') started previous
    have long := storesAt_eq inputs write'
    omega

theorem attached (run : ProtocolRun inputs) (near : lag < 3)
    (channel : SamplingChannel inputs index observer sample convert respond trace)
    (frame : SampledFrame inputs index observer sample time trace write trigger served)
    (started : (inputs write).operation = some (.writeStart mask))
    (selected : mask.getLsbD index = true) :
    SlaveAttached (lines inputs index) (write + 1) (delayAt inputs write) observer trace.isr
      (fun period => (trace.registers period).spiDat) trace.somi (trigger + 1) := by
  have wide : 3 ≤ delayAt inputs write :=
    (Transaction.first started (ne_zero_of_selected selected)).wideDelay run
  have bounds := frame.selects.bounds
  have past := observer.past (trigger + 1)
  refine ⟨channel.port, frame.selects.2, ?_⟩
  unfold edgeCycle
  omega

/-- What the frame delivers, by the number of clock edges that the DSP has seen when the
routine has written. -/
theorem received (run : ProtocolRun inputs) (near : lag < 3)
    (channel : SamplingChannel inputs index observer sample convert respond trace)
    (separated : Separated (spisteb inputs index observer) time)
    (frame : SampledFrame inputs index observer sample time trace write trigger served)
    (started : (inputs write).operation = some (.writeStart mask))
    (selected : mask.getLsbD index = true)
    (clean : ¬(spiclkb inputs index observer served = true ∧
      spiclkb inputs index observer (served + 1) = false)) :
    dataRx (lines inputs index) (storesAt inputs write) =
      tornWord (trace.registers (trigger + 1)).spiDat (sample trigger)
        (edgeCount (spiclkb inputs index observer) (trigger + 1) (served + 1)) := by
  have answered := frame.answered
  have stored : (trace.registers (served + 1)).spiDat = sample trigger :=
    (channel.stores served answered.ran clean).trans answered.sampled
  have steady := run.steadyFrame started selected
  have wide : 3 ≤ delayAt inputs write :=
    (Transaction.first started (ne_zero_of_selected selected)).wideDelay run
  have lastEdge : edgeCycle moduleGenerics (write + 1) (delayAt inputs write)
      (2 * moduleGenerics.word - 1) < storesAt inputs write :=
    edge_within (by decide) (by decide)
  have attached := frame.attached run near channel started selected
  have before : ∀ period, trigger + 1 ≤ period → period < served →
      trace.isr period = false := by
    intro period lower upper
    by_contra ran
    have same := answered.once period lower (Bool.eq_true_of_not_eq_false ran)
      (fun other after inside rises => by
        have apart := separated trigger other frame.rises rises after
        have within := answered.within
        omega)
    omega
  have untouched : Untouched moduleGenerics (write + 1) (delayAt inputs write) observer
      trace.isr (served + 1) := by
    intro period lower unfinished
    by_contra ran
    have after := answered.after
    have same := frame.once run near started selected (by omega : trigger < period) (by omega)
      (Bool.eq_true_of_not_eq_false ran)
    omega
  have torn := attached.torn (by decide) rfl rfl steady wide near answered.after before untouched
    channel.wired
  have clock : spiclkb inputs index observer = observer.observed (sclk (lines inputs index)) := rfl
  rw [clock, storesAt, ← stored]
  exact torn

theorem early (inTime : lag + time ≤ delayAt inputs write)
    (frame : SampledFrame inputs index observer sample time trace write trigger served) :
    observer.seen (served + 1) <
      edgeCycle moduleGenerics (write + 1) (delayAt inputs write) 0 := by
  have bounds := frame.selects.bounds
  have within := frame.answered.within
  have past := observer.past (served + 1)
  unfold edgeCycle
  omega

theorem received_sample (run : ProtocolRun inputs) (near : lag < 3)
    (channel : SamplingChannel inputs index observer sample convert respond trace)
    (separated : Separated (spisteb inputs index observer) time)
    (inTime : lag + time ≤ delayAt inputs write)
    (frame : SampledFrame inputs index observer sample time trace write trigger served)
    (started : (inputs write).operation = some (.writeStart mask))
    (selected : mask.getLsbD index = true) :
    dataRx (lines inputs index) (storesAt inputs write) = sample trigger := by
  have steady := run.steadyFrame started selected
  have attached := frame.attached run near channel started selected
  have early := frame.early inTime
  have after := frame.answered.after
  have reached := frame.selects.2
  have sinceTrigger := observer.mono (Nat.succ_le_of_lt after)
  have sinceServed := observer.mono (Nat.le_succ served)
  rw [Nat.succ_eq_add_one] at sinceTrigger sinceServed
  have low : spiclkb inputs index observer served = false :=
    steady.sclk_early (by decide) (by omega) (by omega)
  have inFrame : edgeCycle moduleGenerics (write + 1) (delayAt inputs write) 0 <
      storeCycle moduleGenerics (write + 1) (delayAt inputs write) :=
    edge_within (by decide) (by decide)
  have none : edgeCount (spiclkb inputs index observer) (trigger + 1) (served + 1) = 0 := by
    have afterTrigger : trigger + 1 ≤ served + 1 := Nat.succ_le_succ (Nat.le_of_lt after)
    have seenFirst : write + 1 ≤ observer.seen (served + 1) := by omega
    rw [spiclkb, attached.edgeCount_eq (by decide) steady near afterTrigger (by omega)]
    exact steady.edgeCount_early (by decide) seenFirst early
  have clean : ¬(spiclkb inputs index observer served = true ∧
      spiclkb inputs index observer (served + 1) = false) := by
    rintro ⟨high, _low⟩
    cases low.symm.trans high
  rw [frame.received run near channel separated started selected clean, none, tornWord_zero]

end SampledFrame

theorem ProtocolRun.read_eq_stored (run : ProtocolRun inputs) {cycle : Nat}
    (transaction : Transaction inputs write cycle mask) (selected : mask.getLsbD index = true)
    (reads : (inputs cycle).operation = some (.readRx index)) :
    rxRegister (driven inputs) index cycle =
      dataRx (lines inputs index) (storesAt inputs write) := by
  have after : storesAt inputs write < cycle := by
    rcases transaction.client run with polls | ⟨reading, _seen⟩
    · obtain ⟨_after, _next, step⟩ := run.advanced polls
      rw [reads] at step
      rcases (next_polling step).1 with impossible | impossible <;> cases impossible
    · exact transaction.stored_of_reading run (transaction.rests run) reading
  exact wordReceived_unique (transaction.received run selected after)
    ((run.steadyFrame transaction.started selected).wordReceived (by decide) rfl
      (transaction.wideDelay run))

theorem SamplingChannel.read_eq_sample (run : ProtocolRun inputs) (near : lag < 3)
    (channel : SamplingChannel inputs index observer sample convert respond trace)
    (inTime : InTime inputs index (lag + (convert + respond)) 0) {cycle : Nat}
    (transaction : Transaction inputs write cycle mask) (selected : mask.getLsbD index = true)
    (selects : Selects observer write trigger)
    (reads : (inputs cycle).operation = some (.readRx index)) :
    Rises (spisteb inputs index observer) trigger ∧
      rxRegister (driven inputs) index cycle = sample trigger := by
  have spared : InTime inputs index (lag + (convert + respond)) 99 :=
    fun other mask started selected =>
      Nat.le_add_right_of_le (inTime other mask started selected)
  obtain ⟨served, frame⟩ :=
    channel.exists_frame run near spared transaction.started selected selects
  refine ⟨frame.rises, ?_⟩
  rw [run.read_eq_stored transaction selected reads]
  exact frame.received_sample run near channel (run.separated near spared)
    (inTime write mask transaction.started selected) transaction.started selected

end Sampled

/-- What a program reads after it has seen the flag is the sample of its own
transaction, taken when the chip select came through. -/
theorem sample_delivered (inputs : Nat → SystemInputs) (run : ProtocolRun inputs)
    (index : Fin 6) {lag : Nat} (near : lag < 3) (observer : Observer lag)
    (sample : Nat → BitVec 16) (convert respond : Nat) (trace : Trace)
    (channel : SamplingChannel inputs index observer sample convert respond trace)
    (inTime : InTime inputs index (lag + (convert + respond)) 0) {write cycle : Nat}
    {mask : BitVec 6} (transaction : Transaction inputs write cycle mask)
    (selected : mask.getLsbD index = true)
    (reads : (inputs cycle).operation = some (.readRx index)) :
    ∃ trigger, Rises (spisteb inputs index observer) trigger ∧ write + 3 ≤ trigger ∧
      trigger ≤ write + 3 + lag ∧ rxRegister (driven inputs) index cycle = sample trigger := by
  obtain ⟨trigger, selects⟩ := exists_trigger observer write
  obtain ⟨rises, sampled⟩ :=
    channel.read_eq_sample run near inTime transaction selected selects reads
  exact ⟨trigger, rises, selects.bounds.1, selects.bounds.2, sampled⟩

/-- Without the time the read shows where the routine came in: the word that was left
in the port, torn off at the sample. -/
theorem late_sample_torn (inputs : Nat → SystemInputs) (run : ProtocolRun inputs)
    (index : Fin 6) {lag : Nat} (near : lag < 3) (observer : Observer lag)
    (sample : Nat → BitVec 16) (convert respond : Nat) (trace : Trace)
    (channel : SamplingChannel inputs index observer sample convert respond trace)
    (inTime : InTime inputs index (lag + (convert + respond)) 99) {write cycle : Nat}
    {mask : BitVec 6} (transaction : Transaction inputs write cycle mask)
    (selected : mask.getLsbD index = true)
    (reads : (inputs cycle).operation = some (.readRx index)) :
    ∃ trigger served,
      SampledFrame inputs index observer sample (convert + respond) trace write trigger
        served ∧
      (¬(spiclkb inputs index observer served = true ∧
          spiclkb inputs index observer (served + 1) = false) →
        rxRegister (driven inputs) index cycle =
          tornWord (trace.registers (trigger + 1)).spiDat (sample trigger)
            (edgeCount (spiclkb inputs index observer) (trigger + 1) (served + 1))) := by
  obtain ⟨trigger, selects⟩ := exists_trigger observer write
  obtain ⟨served, frame⟩ :=
    channel.exists_frame run near inTime transaction.started selected selects
  refine ⟨trigger, served, frame, ?_⟩
  intro clean
  rw [run.read_eq_stored transaction selected reads]
  exact frame.received run near channel (run.separated near inTime) transaction.started
    selected clean

/-! ### Programs with prompt DSPs -/

section Wired

variable (schedule : List (Nat × BusOperation)) (observer : Fin 6 → Observer lag)
  (sample : Fin 6 → Nat → BitVec 16)

def unwired : Nat → SystemInputs :=
  scheduled schedule fun _index _cycle => false

def channelTrace (index : Fin 6) : Trace :=
  promptTrace (spisteb (unwired schedule) index (observer index))
    (spiclkb (unwired schedule) index (observer index))
    ((observer index).observed (mosi (lines (unwired schedule) index))) (sample index)

def wired : Nat → SystemInputs :=
  scheduled schedule fun index => (channelTrace schedule observer sample index).somi

theorem portsAt_scheduled (miso : Fin 6 → Nat → Bool) (cycle : Nat) :
    portsAt (scheduled schedule miso) cycle = portsAt (unwired schedule) cycle := by
  induction cycle with
  | zero => rfl
  | succ cycle ih =>
      rw [portsAt_succ fun _cycle => ⟨rfl, Or.inl rfl⟩, ih]
      rw [portsAt_succ fun _cycle => ⟨rfl, Or.inl rfl⟩]
      rfl

theorem wired_lines (index : Fin 6) :
    lines (wired schedule observer sample) index =
      withMiso (lines (unwired schedule) index)
        (channelTrace schedule observer sample index).somi := by
  funext cycle
  have same : portsAt (wired schedule observer sample) cycle =
      portsAt (unwired schedule) cycle := portsAt_scheduled schedule _ cycle
  simp only [lines, moduleInputs, portMap, driven, same, withMiso]
  rfl

theorem wired_channel (index : Fin 6) :
    SamplingChannel (wired schedule observer sample) index (observer index) (sample index) 1 2
      (channelTrace schedule observer sample index) := by
  obtain ⟨clk, select, serial⟩ := lines_of_miso (lines (unwired schedule) index)
    (channelTrace schedule observer sample index).somi
  rw [← wired_lines] at clk select serial
  refine
    { converter := ?_
      interrupts := promptTrace_interrupts _ _ _ _
      initial := ⟨rfl, rfl, rfl⟩
      port := ?_
      stores := fun _served ran _clean => promptTrace_stores _ _ _ _ ran
      wired := fun _cycle => rfl }
  · rw [spisteb, select]
    exact promptTrace_converter _ _ _ _
  · rw [spisteb, spiclkb, clk, select, serial]
    exact promptTrace_port _ _ _ _

theorem wired_served {trigger served : Nat}
    (separated : Separated (spisteb (wired schedule observer sample) index (observer index))
      (1 + 2))
    (frame : SampledFrame (wired schedule observer sample) index (observer index) (sample index)
      (1 + 2) (channelTrace schedule observer sample index) write trigger served) :
    served = trigger + 3 := by
  have select := (lines_of_miso (lines (unwired schedule) index)
    (channelTrace schedule observer sample index).somi).2.1
  rw [← wired_lines] at select
  have rises := frame.rises
  have answered := frame.answered
  rw [spisteb, select] at separated rises answered
  exact promptTrace_served separated rises answered

theorem wired_inTime {time spare : Nat}
    (enough : ∀ write ∈ startWrites schedule index,
      time ≤ delayAt (unwired schedule) write + spare) :
    InTime (wired schedule observer sample) index time spare := by
  intro write mask started selected
  have same : delayAt (wired schedule observer sample) write = delayAt (unwired schedule) write :=
    congrArg (fun ports => ports.delaySpi.toNat) (portsAt_scheduled schedule _ write)
  rw [same]
  exact enough write (mem_startWrites started selected)

end Wired

def numbered (_index : Fin 6) (period : Nat) : BitVec 16 :=
  0x8000 + BitVec.ofNat 16 period

/-- Two transactions with DSPs that look at their lines every third period. -/
def sampledProgram (second : BitVec 8) : Nat → SystemInputs :=
  wired (twoTransactions second) (fun _index => thirdPeriod) numbered

def sampledTrace (second : BitVec 8) : Fin 6 → Trace :=
  channelTrace (twoTransactions second) (fun _index => thirdPeriod) numbered

theorem sample_delivered_prompt :
    ∃ trigger, Rises (spisteb (sampledProgram 40) 1 thirdPeriod) trigger ∧
      207 + 3 ≤ trigger ∧ trigger ≤ 207 + 3 + 2 ∧
      rxRegister (driven (sampledProgram 40)) 1 402 = numbered 1 trigger := by
  have reached : timedAt (fun now => List.lookup now (twoTransactions 40)) 402 =
      some { client := .reading 6, delaySpi := 40, write := 207 } := by
    decide +kernel
  exact sample_delivered (sampledProgram 40) (twoTransactions_run _) 1 (by decide) thirdPeriod
    (numbered 1) 1 2 (sampledTrace 40 1) (wired_channel (twoTransactions 40) _ numbered 1)
    (wired_inTime (twoTransactions 40) _ numbered (by decide +kernel))
    (Transaction.of_schedule _ reached) (by decide) rfl

/-! ### A routine that comes late -/

theorem lateProgram_run : ProtocolRun (sampledProgram 3) := by
  have reached : timedAt (fun now => List.lookup now (twoTransactions 3)) 405 =
      some { client := .setup true, delaySpi := 3, write := 404 } := by
    decide +kernel
  exact ProtocolRun.of_schedule _ reached (by decide)

theorem lateProgram_channel :
    SamplingChannel (sampledProgram 3) 2 thirdPeriod (numbered 2) 1 2 (sampledTrace 3 2) :=
  wired_channel (twoTransactions 3) _ numbered 2

theorem lateProgram_inTime : InTime (sampledProgram 3) 2 (2 + (1 + 2)) 99 :=
  wired_inTime (twoTransactions 3) _ numbered (by decide +kernel)

theorem lateProgram_write {write : Nat} {mask : BitVec 6}
    (started : (sampledProgram 3 write).operation = some (.writeStart mask))
    (selected : mask.getLsbD ((2 : Fin 6) : Nat) = true) : write = 207 := by
  have member := mem_startWrites started selected
  have only : startWrites (twoTransactions 3) 2 = [207] := by decide
  rw [only, List.mem_singleton] at member
  exact member

theorem lateProgram_trigger {trigger : Nat}
    (rises : Rises (spisteb (sampledProgram 3) 2 thirdPeriod) trigger) : trigger = 212 := by
  obtain ⟨write, mask, started, selected, selects⟩ :=
    (lateProgram_run.rises_iff (by decide) trigger).mp rises
  rw [lateProgram_write started selected] at selects
  exact selects.unique ⟨by decide, by decide⟩

theorem lateProgram_port : ((sampledTrace 3 2).registers 213).spiDat = 0 := by
  refine lateProgram_channel.port.data_kept (Nat.zero_le 213) ?_ ?_
  · intro period _lower before
    by_contra high
    obtain ⟨write, mask, started, selected, reached, _upper⟩ :=
      lateProgram_run.exists_write_of_selected (Bool.eq_true_of_not_eq_false high)
    rw [lateProgram_write started selected] at reached
    have latest := thirdPeriod.mono (Nat.le_of_lt_succ before)
    have seen : thirdPeriod.seen 212 = 210 := rfl
    omega
  · intro period _lower before
    by_contra ran
    obtain ⟨done, due⟩ := due_of_isr lateProgram_channel.converter lateProgram_channel.interrupts
      (lateProgram_run.separated (by decide) lateProgram_inTime) lateProgram_channel.initial
      (Bool.eq_true_of_not_eq_false ran)
    obtain ⟨trigger, rises, earlier, _within⟩ :=
      lateProgram_channel.converter.ends done due.ended
    have atTrigger := lateProgram_trigger rises
    have later := due.before
    omega

/-- With a delay of 3 the routine of channel 2 writes in the period in which the first
edge is seen, and the top bit is the one that was in the port. -/
theorem late_sample_torn_prompt :
    rxRegister (driven (sampledProgram 3)) 2 401 = tornWord 0 (numbered 2 212) 1 ∧
      tornWord 0 (numbered 2 212) 1 ≠ numbered 2 212 := by
  have reached : timedAt (fun now => List.lookup now (twoTransactions 3)) 401 =
      some { client := .reading 6, delaySpi := 3, write := 207 } := by
    decide +kernel
  have transaction : Transaction (sampledProgram 3) 207 401 6 :=
    Transaction.of_schedule _ reached
  have selected : (6 : BitVec 6).getLsbD ((2 : Fin 6) : Nat) = true := by decide
  obtain ⟨trigger, served, frame, torn⟩ := late_sample_torn (sampledProgram 3) lateProgram_run 2
    (by decide) thirdPeriod (numbered 2) 1 2 (sampledTrace 3 2) lateProgram_channel
    lateProgram_inTime transaction selected rfl
  obtain rfl := lateProgram_trigger frame.rises
  obtain rfl : served = 215 :=
    wired_served (twoTransactions 3) _ numbered
      (lateProgram_run.separated (by decide) lateProgram_inTime) frame
  have steady := lateProgram_run.steadyFrame transaction.started selected
  have attached := frame.attached lateProgram_run (by decide) lateProgram_channel
    transaction.started selected
  have delay : delayAt (sampledProgram 3) 207 = 3 := by decide +kernel
  rw [delay] at steady attached
  have low : spiclkb (sampledProgram 3) 2 thirdPeriod 215 = false :=
    steady.sclk_early (by decide) (by decide) (by decide)
  have one : edgeCount (spiclkb (sampledProgram 3) 2 thirdPeriod) 213 216 = 1 := by
    rw [spiclkb, attached.edgeCount_eq (by decide) steady (by decide) (by decide) (by decide)]
    exact steady.edgeCount_between (by decide) (by decide) (by decide) (by decide)
  rw [torn (fun falls => Bool.false_ne_true (low.symm.trans falls.1)), one, lateProgram_port]
  exact ⟨rfl, by decide⟩

end SpiFpga.Top
