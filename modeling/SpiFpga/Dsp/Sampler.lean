/-
The sampling side of the DSP.

A rising chip select starts a conversion, the end of the conversion raises the
interrupt of the converter, and the interrupt routine moves the result to the data
register of the serial port.  The routine also takes back what would keep the next
interrupt from coming: the flag of the converter and the acknowledge bit of the
interrupt group.  Converter and interrupt controller are on the chip.  They enter as
assumptions, for the settings that the program makes, with the time that each may
take.
-/

import SpiFpga.Clocked.SlavePort

namespace SpiFpga.Dsp

open Clocked

/-- The variable and the registers of the interrupt routine, and the request bit of its
interrupt. The acknowledge bit of a group is set while the group waits for a routine to
acknowledge. -/
structure DspRegisters where
  vbus : BitVec 16
  adcResult0 : BitVec 16
  spiDat : BitVec 16
  adcInt1 : Bool
  pieIfr1 : Bool
  pieAck1 : Bool

def adca1Isr (registers : DspRegisters) : DspRegisters :=
  let vbus := registers.adcResult0
  { registers with
    vbus := vbus
    spiDat := vbus
    adcInt1 := false
    pieAck1 := false }

/-- A run of the chip: its registers in each period, the periods in which a conversion
ends and those in which the routine runs, and the level that the port drives. -/
structure Trace where
  registers : Nat → DspRegisters
  eoc : Nat → Bool
  isr : Nat → Bool
  somi : Nat → Bool

def Rises (line : Nat → Bool) (period : Nat) : Prop :=
  line period = false ∧ line (period + 1) = true

/-- The converter, triggered by a rising edge of the line (`TRIGSEL = 4`). -/
structure Converter (line : Nat → Bool) (sample : Nat → BitVec 16) (convert : Nat)
    (trace : Trace) : Prop where
  starts : ∀ trigger, Rises line trigger →
    (∀ earlier, earlier < trigger → trigger ≤ earlier + convert → ¬Rises line earlier) →
    ∃ done, trigger < done ∧ done ≤ trigger + convert ∧ trace.eoc done = true
  ends : ∀ done, trace.eoc done = true →
    ∃ trigger, Rises line trigger ∧ trigger < done ∧ done ≤ trigger + convert ∧
      (∀ between, trigger < between → between < done → trace.eoc between = false) ∧
      (trace.registers (done + 1)).adcResult0 = sample trigger
  keeps : ∀ period, trace.eoc period = false →
    (trace.registers (period + 1)).adcResult0 = (trace.registers period).adcResult0

def executed (trace : Trace) (period : Nat) : DspRegisters :=
  if trace.isr period then adca1Isr (trace.registers period) else trace.registers period

/-- The interrupt controller lets the request through to the processor. -/
def passes (trace : Trace) (period : Nat) : Bool :=
  (trace.registers period).pieIfr1 && !(trace.registers period).pieAck1

/-- The interrupt of the converter (`INT1SEL = 0`, `INT1E = 1`) through group 1 of the
interrupt controller. The end of a conversion sets the flag, and it makes a request only
if the flag was clear. A request that is let through blocks its group. Flag and block
stay until the program takes them back, and the request until its routine runs. What
comes of a bit that is set and taken back in one period is left open. -/
structure Interrupts (respond : Nat) (trace : Trace) : Prop where
  flag : ∀ period, trace.isr period = false ∨ trace.eoc period = false →
    (trace.registers (period + 1)).adcInt1 =
      ((executed trace period).adcInt1 || trace.eoc period)
  request : ∀ period, trace.isr period = false ∨ trace.eoc period = false →
    (trace.registers (period + 1)).pieIfr1 =
      ((trace.registers period).pieIfr1 && !trace.isr period ||
        trace.eoc period && !(executed trace period).adcInt1)
  block : ∀ period, trace.isr period = false ∨ passes trace period = false →
    (trace.registers (period + 1)).pieAck1 =
      ((executed trace period).pieAck1 || passes trace period)
  keeps : ∀ period, (trace.registers (period + 1)).vbus = (executed trace period).vbus
  serves : ∀ passed, passes trace passed = true →
    ∃ served, passed < served ∧ served < passed + respond ∧ trace.isr served = true
  caused : ∀ served, trace.isr served = true →
    ∃ passed, passed < served ∧ passes trace passed = true ∧
      ∀ between, passed < between → between < served → trace.isr between = false

structure Armed (trace : Trace) (period : Nat) : Prop where
  flag : (trace.registers period).adcInt1 = false
  request : (trace.registers period).pieIfr1 = false
  block : (trace.registers period).pieAck1 = false

/-- The requests leave time for a conversion and its routine. -/
def Separated (line : Nat → Bool) (time : Nat) : Prop :=
  ∀ earlier later, Rises line earlier → Rises line later → earlier < later →
    earlier + time < later

section Sampling

variable {line : Nat → Bool} {sample : Nat → BitVec 16} {convert respond : Nat} {trace : Trace}

theorem Converter.apart (converter : Converter line sample convert trace)
    (separated : Separated line (convert + respond)) {done later : Nat} (before : done < later)
    (ended : trace.eoc done = true) (endedLater : trace.eoc later = true) :
    done + respond < later := by
  obtain ⟨trigger, rises, _after, within, _alone, _result⟩ := converter.ends done ended
  obtain ⟨trigger', rises', after', _within', alone', _result'⟩ := converter.ends later endedLater
  have ordered : trigger < trigger' := by
    by_contra notBefore
    rw [alone' done (by omega) before] at ended
    cases ended
  have apart := separated trigger trigger' rises rises' ordered
  omega

theorem executed_of_quiet {period : Nat} (quiet : trace.isr period = false) :
    executed trace period = trace.registers period := by
  rw [executed, quiet, if_neg Bool.false_ne_true]

theorem executed_of_ran {period : Nat} (ran : trace.isr period = true) :
    executed trace period = adca1Isr (trace.registers period) := by
  rw [executed, ran, if_pos rfl]

/-! ### Between two conversions -/

def Served (trace : Trace) (passed period : Nat) : Prop :=
  ∃ served, passed < served ∧ served < period ∧ trace.isr served = true

theorem Served.succ {passed period : Nat} (isServed : Served trace passed period) :
    Served trace passed (period + 1) := by
  obtain ⟨served, after, before, ran⟩ := isServed
  exact ⟨served, after, Nat.lt_succ_of_lt before, ran⟩

def Unserved (trace : Trace) (done period : Nat) : Prop :=
  ∀ between, done < between → between < period → trace.isr between = false

theorem Unserved.succ {done period : Nat} (unserved : Unserved trace done period)
    (quiet : trace.isr period = false) : Unserved trace done (period + 1) := by
  intro between after upTo
  rcases Nat.lt_or_eq_of_le (Nat.le_of_lt_succ upTo) with inside | last
  · exact unserved between after inside
  · rw [last]
    exact quiet

structure Idle (trace : Trace) (period : Nat) : Prop where
  armed : Armed trace period
  served : ∀ passed, passed < period → passes trace passed = true → Served trace passed period

/-- The routine is due for the end of a conversion: the request is let through in the
next period, and it is the only one without its routine. -/
structure Due (trace : Trace) (done period : Nat) : Prop where
  before : done < period
  ended : trace.eoc done = true
  flag : (trace.registers period).adcInt1 = true
  request : (trace.registers period).pieIfr1 = true
  block : (trace.registers period).pieAck1 = decide (done + 1 < period)
  passed : done + 1 < period → passes trace (done + 1) = true
  unserved : Unserved trace done period
  served : ∀ passed, passed < period → passes trace passed = true →
    passed = done + 1 ∨ Served trace passed period

theorem isr_eq_false (interrupts : Interrupts respond trace) {period : Nat}
    (served : ∀ passed, passed < period → passes trace passed = true →
      Served trace passed period) : trace.isr period = false := by
  by_contra ran
  obtain ⟨passed, before, isPassed, alone⟩ :=
    interrupts.caused period (Bool.eq_true_of_not_eq_false ran)
  obtain ⟨served, after, earlier, ranEarlier⟩ := served passed before isPassed
  rw [alone served after earlier] at ranEarlier
  cases ranEarlier

theorem Idle.succ (interrupts : Interrupts respond trace) {period : Nat}
    (idle : Idle trace period) :
    Idle trace (period + 1) ∨ Due trace period (period + 1) := by
  have quiet := isr_eq_false interrupts idle.served
  have blocked : passes trace period = false := by
    rw [passes, idle.armed.request, Bool.false_and]
  have flag := interrupts.flag period (Or.inl quiet)
  have request := interrupts.request period (Or.inl quiet)
  have block := interrupts.block period (Or.inl quiet)
  rw [executed_of_quiet quiet, idle.armed.flag, Bool.false_or] at flag
  rw [executed_of_quiet quiet, idle.armed.flag, idle.armed.request, Bool.false_and,
    Bool.false_or, Bool.not_false, Bool.and_true] at request
  rw [executed_of_quiet quiet, idle.armed.block, blocked, Bool.or_self] at block
  have served : ∀ passed, passed < period + 1 → passes trace passed = true →
      Served trace passed (period + 1) := by
    intro passed upTo isPassed
    rcases Nat.lt_or_eq_of_le (Nat.le_of_lt_succ upTo) with before | now
    · exact (idle.served passed before isPassed).succ
    · rw [now, blocked] at isPassed
      cases isPassed
  cases ends : trace.eoc period with
  | false =>
      rw [ends] at flag request
      exact Or.inl ⟨⟨flag, request, block⟩, served⟩
  | true =>
      rw [ends] at flag request
      exact Or.inr
        { before := Nat.lt_succ_self period
          ended := ends
          flag := flag
          request := request
          block := block.trans (decide_eq_false (Nat.lt_irrefl _)).symm
          passed := fun later => absurd later (Nat.lt_irrefl _)
          unserved := fun between after before => absurd before (Nat.not_lt_of_le after)
          served := fun passed upTo isPassed => Or.inr (served passed upTo isPassed) }

theorem Due.passes_eq {done period : Nat} (due : Due trace done period) :
    passes trace period = !decide (done + 1 < period) := by
  rw [passes, due.request, due.block, Bool.true_and]

theorem Due.exists_isr (interrupts : Interrupts respond trace) {done period : Nat}
    (due : Due trace done period) :
    ∃ served, period ≤ served ∧ served ≤ done + respond ∧ trace.isr served = true := by
  have atMost : done + 1 ≤ period := Nat.succ_le_of_lt due.before
  have isPassed : passes trace (done + 1) = true := by
    rcases Nat.lt_or_eq_of_le atMost with later | first
    · exact due.passed later
    · rw [first, due.passes_eq, first, decide_eq_false (Nat.lt_irrefl _)]
      rfl
  obtain ⟨served, after, within, ran⟩ := interrupts.serves (done + 1) isPassed
  refine ⟨served, ?_, by omega, ran⟩
  by_contra early
  rw [due.unserved served (by omega) (Nat.lt_of_not_le early)] at ran
  cases ran

/-- No conversion ends before the routine has come. -/
theorem Due.eoc_eq_false (converter : Converter line sample convert trace)
    (interrupts : Interrupts respond trace) (separated : Separated line (convert + respond))
    {done period : Nat} (due : Due trace done period) : trace.eoc period = false := by
  by_contra ends
  obtain ⟨served, upTo, within, _ran⟩ := due.exists_isr interrupts
  have apart := converter.apart separated due.before due.ended
    (Bool.eq_true_of_not_eq_false ends)
  omega

theorem Due.later_of_isr (interrupts : Interrupts respond trace) {done period : Nat}
    (due : Due trace done period) (ran : trace.isr period = true) : done + 1 < period := by
  by_contra first
  have before := due.before
  have quiet := isr_eq_false interrupts (fun passed earlier isPassed =>
    (due.served passed earlier isPassed).resolve_left (by omega))
  cases quiet.symm.trans ran

/-- The routine clears flag and block, and the request is gone. -/
theorem Due.idle (converter : Converter line sample convert trace)
    (interrupts : Interrupts respond trace) (separated : Separated line (convert + respond))
    {done period : Nat} (due : Due trace done period) (ran : trace.isr period = true) :
    Idle trace (period + 1) := by
  have noEnd := due.eoc_eq_false converter interrupts separated
  have blocked : passes trace period = false := by
    rw [due.passes_eq, decide_eq_true (due.later_of_isr interrupts ran)]
    rfl
  have flag := interrupts.flag period (Or.inr noEnd)
  have request := interrupts.request period (Or.inr noEnd)
  have block := interrupts.block period (Or.inr blocked)
  rw [noEnd, Bool.or_false, executed_of_ran ran] at flag
  rw [noEnd, Bool.false_and, Bool.or_false, ran, Bool.not_true, Bool.and_false] at request
  rw [blocked, Bool.or_false, executed_of_ran ran] at block
  refine ⟨⟨flag, request, block⟩, ?_⟩
  intro passed upTo isPassed
  rcases Nat.lt_or_eq_of_le (Nat.le_of_lt_succ upTo) with before | now
  · rcases due.served passed before isPassed with rfl | isServed
    · exact ⟨period, before, Nat.lt_succ_self period, ran⟩
    · exact isServed.succ
  · rw [now, blocked] at isPassed
    cases isPassed

theorem Due.succ (converter : Converter line sample convert trace)
    (interrupts : Interrupts respond trace) (separated : Separated line (convert + respond))
    {done period : Nat} (due : Due trace done period) (quiet : trace.isr period = false) :
    Due trace done (period + 1) := by
  have noEnd := due.eoc_eq_false converter interrupts separated
  have atMost : done + 1 ≤ period := Nat.succ_le_of_lt due.before
  have flag := interrupts.flag period (Or.inr noEnd)
  have request := interrupts.request period (Or.inr noEnd)
  have block := interrupts.block period (Or.inl quiet)
  rw [noEnd, Bool.or_false, executed_of_quiet quiet, due.flag] at flag
  rw [noEnd, Bool.false_and, Bool.or_false, due.request, quiet] at request
  rw [executed_of_quiet quiet, due.block, due.passes_eq, Bool.or_not_self] at block
  refine
    { before := Nat.lt_succ_of_lt due.before
      ended := due.ended
      flag := flag
      request := request
      block := block.trans (decide_eq_true (Nat.lt_succ_of_le atMost)).symm
      passed := ?_
      unserved := due.unserved.succ quiet
      served := ?_ }
  · intro _later
    rcases Nat.lt_or_eq_of_le atMost with later | first
    · exact due.passed later
    · rw [first, due.passes_eq, first, decide_eq_false (Nat.lt_irrefl _)]
      rfl
  · intro passed upTo isPassed
    rcases Nat.lt_or_eq_of_le (Nat.le_of_lt_succ upTo) with before | now
    · exact (due.served passed before isPassed).imp_right Served.succ
    · left
      rw [now, due.passes_eq, Bool.not_eq_true', decide_eq_false_iff_not] at isPassed
      omega

theorem idle_or_due (converter : Converter line sample convert trace)
    (interrupts : Interrupts respond trace) (separated : Separated line (convert + respond))
    (initial : Armed trace 0) (period : Nat) :
    Idle trace period ∨ ∃ done, Due trace done period := by
  induction period with
  | zero => exact Or.inl ⟨initial, fun passed before => absurd before (Nat.not_lt_zero passed)⟩
  | succ period ih =>
      rcases ih with idle | ⟨done, due⟩
      · exact (idle.succ interrupts).imp_right fun due => ⟨period, due⟩
      · cases ran : trace.isr period with
        | true => exact Or.inl (due.idle converter interrupts separated ran)
        | false => exact Or.inr ⟨done, due.succ converter interrupts separated ran⟩

/-- The end of a conversion finds the chip idle, because the routine has cleared what
the last one set. -/
theorem due_of_eoc (converter : Converter line sample convert trace)
    (interrupts : Interrupts respond trace) (separated : Separated line (convert + respond))
    (initial : Armed trace 0) {done : Nat} (ended : trace.eoc done = true) :
    Due trace done (done + 1) := by
  rcases idle_or_due converter interrupts separated initial done with idle | ⟨earlier, due⟩
  · rcases idle.succ interrupts with stays | due
    · have flag := interrupts.flag done (Or.inl (isr_eq_false interrupts idle.served))
      rw [stays.armed.flag, ended, Bool.or_true] at flag
      cases flag
    · exact due
  · have noEnd := due.eoc_eq_false converter interrupts separated
    cases noEnd.symm.trans ended

theorem due_of_isr (converter : Converter line sample convert trace)
    (interrupts : Interrupts respond trace) (separated : Separated line (convert + respond))
    (initial : Armed trace 0) {served : Nat} (ran : trace.isr served = true) :
    ∃ done, Due trace done served := by
  rcases idle_or_due converter interrupts separated initial served with idle | due
  · rw [isr_eq_false interrupts idle.served] at ran
    cases ran
  · exact due

theorem Due.within (interrupts : Interrupts respond trace) {done served : Nat}
    (due : Due trace done served) : served ≤ done + respond := by
  obtain ⟨later, upTo, within, _ran⟩ := due.exists_isr interrupts
  omega

theorem result_kept (converter : Converter line sample convert trace)
    (separated : Separated line (convert + respond)) {done period : Nat}
    (ended : trace.eoc done = true) (after : done < period) (upTo : period ≤ done + respond + 1) :
    (trace.registers period).adcResult0 = (trace.registers (done + 1)).adcResult0 := by
  induction period, after using Nat.le_induction with
  | base => rfl
  | succ period after ih =>
      rw [← ih (Nat.le_of_succ_le upTo)]
      apply converter.keeps
      by_contra endedToo
      have apart := converter.apart separated after ended
        (Bool.eq_true_of_not_eq_false endedToo)
      omega

theorem converted (converter : Converter line sample convert trace)
    (separated : Separated line (convert + respond)) {trigger : Nat}
    (rises : Rises line trigger) :
    ∃ done, trigger < done ∧ done ≤ trigger + convert ∧ trace.eoc done = true ∧
      (∀ between, trigger < between → between < done → trace.eoc between = false) ∧
      (trace.registers (done + 1)).adcResult0 = sample trigger := by
  have free : ∀ earlier, earlier < trigger → trigger ≤ earlier + convert →
      ¬Rises line earlier := by
    intro earlier before near risesEarlier
    have apart := separated earlier trigger risesEarlier rises before
    omega
  obtain ⟨done, after, within, ended⟩ := converter.starts trigger rises free
  obtain ⟨trigger', rises', after', within', alone, result⟩ := converter.ends done ended
  have same : trigger' = trigger := by
    rcases Nat.lt_trichotomy trigger' trigger with before | same | later
    · have apart := separated trigger' trigger rises' rises before
      omega
    · exact same
    · have apart := separated trigger trigger' rises rises' later
      omega
  rw [same] at alone result
  exact ⟨done, after, within, ended, alone, result⟩

/-- What a request leads to: one run of the routine, which takes the sample that the
request has triggered and leaves the interrupt ready for the next. -/
structure Answered (line : Nat → Bool) (sample : Nat → BitVec 16) (time : Nat) (trace : Trace)
    (trigger served : Nat) : Prop where
  after : trigger < served
  within : served ≤ trigger + time
  ran : trace.isr served = true
  sampled : (adca1Isr (trace.registers served)).spiDat = sample trigger
  stored : (trace.registers (served + 1)).vbus = sample trigger
  rearmed : Armed trace (served + 1)
  once : ∀ other, trigger < other → trace.isr other = true →
    (∀ later, trigger < later → later < other → ¬Rises line later) → other = served

theorem answer_of_request (converter : Converter line sample convert trace)
    (interrupts : Interrupts respond trace) (initial : Armed trace 0)
    (separated : Separated line (convert + respond)) {trigger : Nat}
    (rises : Rises line trigger) :
    ∃ served, Answered line sample (convert + respond) trace trigger served := by
  obtain ⟨done, after, within, ended, first, result⟩ := converted converter separated rises
  have due := due_of_eoc converter interrupts separated initial ended
  obtain ⟨served, afterDone, soon, ran⟩ := due.exists_isr interrupts
  have held : (trace.registers served).adcResult0 = sample trigger := by
    rw [result_kept converter separated ended afterDone (Nat.le_succ_of_le soon), result]
  obtain ⟨done', due'⟩ := due_of_isr converter interrupts separated initial ran
  have stored := interrupts.keeps served
  rw [executed_of_ran ran] at stored
  refine
    ⟨served,
      { after := by omega
        within := by omega
        ran := ran
        sampled := held
        stored := stored.trans held
        rearmed := (due'.idle converter interrupts separated ran).armed
        once := ?_ }⟩
  have unserved : Unserved trace done served := by
    have same : done' = done := by
      have soon' := due'.within interrupts
      rcases Nat.lt_trichotomy done' done with before | same | later
      · have apart := converter.apart separated before due'.ended ended
        omega
      · exact same
      · have apart := converter.apart separated later ended due'.ended
        have before' := due'.before
        omega
    rw [← same]
    exact due'.unserved
  intro other afterTrigger ranOther noLater
  obtain ⟨done'', due''⟩ := due_of_isr converter interrupts separated initial ranOther
  have before'' := due''.before
  have ended'' := due''.ended
  have same : done'' = done := by
    obtain ⟨trigger', rises', after', near', first', _result⟩ := converter.ends done'' ended''
    have equal : trigger' = trigger := by
      rcases Nat.lt_trichotomy trigger' trigger with before | equal | later
      · have apart := separated trigger' trigger rises' rises before
        have within'' := due''.within interrupts
        omega
      · exact equal
      · exact absurd rises' (noLater trigger' later (by omega))
    rcases Nat.lt_trichotomy done'' done with before | same | later
    · rw [first done'' (by omega) before] at ended''
      cases ended''
    · exact same
    · rw [first' done (by omega) later] at ended
      cases ended
  subst same
  rcases Nat.lt_trichotomy other served with before | equal | later
  · rw [unserved other before'' before] at ranOther
    cases ranOther
  · exact equal
  · rw [due''.unserved served afterDone later] at ran
    cases ran

end Sampling

/-- No request is lost and none is answered twice, however many there are. -/
theorem request_answered (line : Nat → Bool) (sample : Nat → BitVec 16) (convert respond : Nat)
    (trace : Trace) (converter : Converter line sample convert trace)
    (interrupts : Interrupts respond trace) (initial : Armed trace 0)
    (separated : Separated line (convert + respond)) {trigger : Nat}
    (rises : Rises line trigger) :
    ∃ served, Answered line sample (convert + respond) trace trigger served :=
  answer_of_request converter interrupts initial separated rises

/-! ### A prompt chip -/

def promptEoc (line : Nat → Bool) : Nat → Bool
  | 0 => false
  | period + 1 => !line period && line (period + 1)

/-- It converts within one period, lets a request through at once, and runs the routine
in the period after. The second part says whether the routine runs. -/
def promptAt (line : Nat → Bool) (sample : Nat → BitVec 16) : Nat → DspRegisters × Bool
  | 0 =>
      ({ vbus := 0
         adcResult0 := 0
         spiDat := 0
         adcInt1 := false
         pieIfr1 := false
         pieAck1 := false }, false)
  | period + 1 =>
      let registers := (promptAt line sample period).1
      let isr := (promptAt line sample period).2
      let after := if isr then adca1Isr registers else registers
      let passes := registers.pieIfr1 && !registers.pieAck1
      ({ after with
          adcResult0 := if promptEoc line period then sample (period - 1) else after.adcResult0
          adcInt1 := after.adcInt1 || promptEoc line period
          pieIfr1 := registers.pieIfr1 && !isr || promptEoc line period && !after.adcInt1
          pieAck1 := after.pieAck1 || passes }, passes)

def promptIsr (line : Nat → Bool) (sample : Nat → BitVec 16) (period : Nat) : Bool :=
  (promptAt line sample period).2

def promptWrite (line : Nat → Bool) (sample : Nat → BitVec 16) (period : Nat) :
    Option (BitVec 16) :=
  if promptIsr line sample period then some (promptAt line sample period).1.adcResult0 else none

def promptPort (line clk simo : Nat → Bool) (sample : Nat → BitVec 16) :
    Nat → SlaveState 16 :=
  slaveAt clk line simo (promptWrite line sample) { data := 0, out := false }

def promptTrace (line clk simo : Nat → Bool) (sample : Nat → BitVec 16) : Trace :=
  { registers := fun period =>
      { (promptAt line sample period).1 with
        spiDat := (promptPort line clk simo sample period).data }
    eoc := promptEoc line
    isr := promptIsr line sample
    somi := fun period => (promptPort line clk simo sample period).out }

section Prompt

variable (line clk simo : Nat → Bool) (sample : Nat → BitVec 16)

theorem promptEoc_succ_iff (period : Nat) :
    promptEoc line (period + 1) = true ↔ Rises line period := by
  rw [promptEoc, Bool.and_eq_true, Bool.not_eq_true', Rises]

theorem promptResult_succ (period : Nat) :
    (promptAt line sample (period + 1)).1.adcResult0 =
      if promptEoc line period then sample (period - 1)
      else (promptAt line sample period).1.adcResult0 := by
  rw [promptAt]
  cases (promptAt line sample period).2 <;> rfl

theorem promptTrace_converter :
    Converter line sample 1 (promptTrace line clk simo sample) where
  starts trigger rises _free :=
    ⟨trigger + 1, Nat.lt_succ_self trigger, Nat.le_refl _,
      (promptEoc_succ_iff line trigger).mpr rises⟩
  ends done ended := by
    cases done with
    | zero => cases ended
    | succ trigger =>
        refine ⟨trigger, (promptEoc_succ_iff line trigger).mp ended, Nat.lt_succ_self trigger,
          Nat.le_refl _, ?_, ?_⟩
        · intro between after before
          omega
        · exact (promptResult_succ line sample (trigger + 1)).trans (if_pos ended)
  keeps period quiet := by
    have noEnd : ¬promptEoc line period = true := Bool.not_eq_true _ ▸ quiet
    exact (promptResult_succ line sample period).trans (if_neg noEnd)

theorem promptTrace_executed (period : Nat) :
    executed (promptTrace line clk simo sample) period =
      { (if promptIsr line sample period then adca1Isr (promptAt line sample period).1
          else (promptAt line sample period).1) with
        spiDat := (executed (promptTrace line clk simo sample) period).spiDat } := by
  cases ran : promptIsr line sample period with
  | true =>
      have runs : (promptTrace line clk simo sample).isr period = true := ran
      rw [executed_of_ran runs, if_pos rfl]
      rfl
  | false =>
      have waits : (promptTrace line clk simo sample).isr period = false := ran
      rw [executed_of_quiet waits, if_neg Bool.false_ne_true]
      rfl

theorem promptTrace_interrupts : Interrupts 2 (promptTrace line clk simo sample) where
  flag period _apart := by
    rw [promptTrace_executed]
    rfl
  request period _apart := by
    rw [promptTrace_executed]
    rfl
  block period _apart := by
    rw [promptTrace_executed]
    rfl
  keeps period := by
    rw [promptTrace_executed]
    rfl
  serves passed isPassed :=
    ⟨passed + 1, Nat.lt_succ_self passed, Nat.lt_succ_self (passed + 1), isPassed⟩
  caused served ran := by
    cases served with
    | zero => cases ran
    | succ passed =>
        refine ⟨passed, Nat.lt_succ_self passed, ran, ?_⟩
        intro between after before
        omega

theorem promptTrace_port :
    SlavePort clk line simo (promptTrace line clk simo sample).isr
      (fun period => ((promptTrace line clk simo sample).registers period).spiDat)
      (promptTrace line clk simo sample).somi := by
  have port := slaveAt_port clk line simo (promptWrite line sample)
    { data := (0 : BitVec 16), out := false }
  have writes : (fun period => (promptWrite line sample period).isSome) =
      promptIsr line sample := by
    funext period
    rw [promptWrite]
    cases promptIsr line sample period <;> rfl
  rw [writes] at port
  exact port

theorem promptTrace_stores {served : Nat}
    (ran : (promptTrace line clk simo sample).isr served = true) :
    ((promptTrace line clk simo sample).registers (served + 1)).spiDat =
      (adca1Isr ((promptTrace line clk simo sample).registers served)).spiDat := by
  have executes : promptIsr line sample served = true := ran
  change (promptPort line clk simo sample (served + 1)).data =
    (promptAt line sample served).1.adcResult0
  rw [promptPort, slaveAt, promptWrite, executes, if_pos rfl]

theorem promptTrace_served {line clk simo : Nat → Bool} {sample : Nat → BitVec 16}
    (separated : Separated line (1 + 2)) {trigger served : Nat} (rises : Rises line trigger)
    (answered : Answered line sample (1 + 2) (promptTrace line clk simo sample) trigger served) :
    served = trigger + 3 := by
  have ended : (promptTrace line clk simo sample).eoc (trigger + 1) = true :=
    (promptEoc_succ_iff line trigger).mpr rises
  have due := due_of_eoc (promptTrace_converter line clk simo sample)
    (promptTrace_interrupts line clk simo sample) separated ⟨rfl, rfl, rfl⟩ ended
  have isPassed : passes (promptTrace line clk simo sample) (trigger + 2) = true := by
    rw [due.passes_eq, decide_eq_false (Nat.lt_irrefl _)]
    rfl
  refine (answered.once (trigger + 3) (by omega) isPassed ?_).symm
  intro later after before risesLater
  have apart := separated trigger later rises risesLater after
  omega

end Prompt

def tenthPeriod (period : Nat) : Bool :=
  decide (2 ≤ period % 10)

theorem request_answered_once :
    ∃ served, Answered tenthPeriod (BitVec.ofNat 16) (1 + 2)
      (promptTrace tenthPeriod (fun _period => false) (fun _period => false)
        (BitVec.ofNat 16)) 21 served := by
  refine request_answered _ _ 1 2 _ (promptTrace_converter _ _ _ _)
    (promptTrace_interrupts _ _ _ _) ⟨rfl, rfl, rfl⟩ ?_ ⟨rfl, rfl⟩
  rintro earlier later ⟨lowEarlier, highEarlier⟩ ⟨lowLater, highLater⟩ before
  rw [tenthPeriod, decide_eq_true_eq] at highEarlier highLater
  rw [tenthPeriod, decide_eq_false_iff_not] at lowEarlier lowLater
  omega

end SpiFpga.Dsp
