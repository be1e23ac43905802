/-
The command multiplexer in front of a port, `nios_mm_interconnect_0_cmd_mux_001`.

Both masters of the processor reach every port, the data master with the accesses of
the program and the other one with its fetches.  The multiplexer passes one packet at
a time and keeps its grant until the packet is over.  A master that waits lets at
most one packet of the other one pass.
-/

import SpiFpga.Top.Arbitrator

namespace SpiFpga.Top

open Bus Clocked

/-- What comes with `valid` on a sink. -/
structure Beat where
  channel : BitVec 18
  data : BitVec 99
  startofpacket : Bool
  endofpacket : Bool
  deriving DecidableEq

namespace Beat

/-- `PKT_TRANS_LOCK`. -/
def lock (beat : Beat) : Bool := beat.data.getLsbD 59

/-- The beat ends its packet and does not lock the port. -/
def final (beat : Beat) : Bool := beat.endofpacket && !beat.lock

def gated (grant : Bool) (beat : Beat) : Beat :=
  { channel := beat.channel &&& BitVec.fill 18 grant
    data := beat.data &&& BitVec.fill 99 grant
    startofpacket := beat.startofpacket && grant
    endofpacket := beat.endofpacket && grant }

def merged (left right : Beat) : Beat :=
  { channel := left.channel ||| right.channel
    data := left.data ||| right.data
    startofpacket := left.startofpacket || right.startofpacket
    endofpacket := left.endofpacket || right.endofpacket }

theorem merged_left (left right : Beat) :
    (left.gated true).merged (right.gated false) = left := by
  simp only [gated, merged, BitVec.fill_true, BitVec.fill_false, BitVec.and_allOnes,
    BitVec.and_zero, BitVec.or_zero, Bool.and_true, Bool.and_false, Bool.or_false]

theorem merged_right (left right : Beat) :
    (left.gated false).merged (right.gated true) = right := by
  simp only [gated, merged, BitVec.fill_true, BitVec.fill_false, BitVec.and_allOnes,
    BitVec.and_zero, BitVec.zero_or, Bool.and_true, Bool.and_false, Bool.false_or]

end Beat

structure MuxInputs where
  reset : Bool
  valid : BitVec 2
  sink0 : Beat
  sink1 : Beat
  srcReady : Bool

structure MuxRegisters where
  locked : BitVec 2
  packetInProgress : Bool
  shareCount : BitVec 1
  shareCountZeroFlag : Bool
  savedGrant : BitVec 2
  topPriorityReg : BitVec 2

namespace MuxInputs

variable (input : MuxInputs)

def sink (index : Nat) : Beat := if index = 0 then input.sink0 else input.sink1

def lock : BitVec 2 := BitVec.ofBool input.sink1.lock ++ BitVec.ofBool input.sink0.lock

theorem lock_of_granted {index : Nat} (inside : index < 2) :
    (input.lock &&& BitVec.twoPow 2 index == 0#2) = !(input.sink index).lock := by
  obtain rfl | rfl : index = 0 ∨ index = 1 := by omega
  · rw [lock, sink, if_pos rfl]
    cases input.sink0.lock <;> cases input.sink1.lock <;> rfl
  · rw [lock, sink, if_neg Nat.one_ne_zero]
    cases input.sink0.lock <;> cases input.sink1.lock <;> rfl

end MuxInputs

namespace MuxRegisters

variable (input : MuxInputs) (registers : MuxRegisters)

def request : BitVec 2 := input.valid ||| registers.locked

def nextGrant : BitVec 2 := grant twoMasters (request input registers) registers.topPriorityReg

def srcValid : Bool := registers.savedGrant &&& input.valid != 0#2

def srcPayload : Beat :=
  (input.sink0.gated (registers.savedGrant.getLsbD 0)).merged
    (input.sink1.gated (registers.savedGrant.getLsbD 1))

def sinkReady (index : Nat) : Bool := input.srcReady && registers.savedGrant.getLsbD index

def lastCycle : Bool :=
  srcValid input registers && input.srcReady && (srcPayload input registers).endofpacket &&
    input.lock &&& registers.savedGrant == 0#2

/-- Each master has one share. -/
def nextGrantShare : BitVec 1 :=
  0#1 &&& BitVec.fill 1 ((nextGrant input registers).getLsbD 0) |||
    0#1 &&& BitVec.fill 1 ((nextGrant input registers).getLsbD 1)

def p1ShareCount : BitVec 1 :=
  if registers.shareCountZeroFlag then 0#1 else registers.shareCount - 1#1

def updateGrant : Bool :=
  !registers.packetInProgress && !srcValid input registers ||
    lastCycle input registers && registers.shareCountZeroFlag

def arbitration : ArbitratorInputs twoMasters :=
  { reset := input.reset
    request := request input registers
    incrementTopPriority := updateGrant input registers
    saveTopPriority := srcValid input registers }

def next : MuxRegisters :=
  { locked := nextGrant input registers &&& input.lock
    packetInProgress :=
      if lastCycle input registers then false
      else if srcValid input registers then true
      else registers.packetInProgress
    shareCount :=
      if updateGrant input registers then nextGrantShare input registers
      else if lastCycle input registers then p1ShareCount registers
      else registers.shareCount
    shareCountZeroFlag :=
      if updateGrant input registers then nextGrantShare input registers == 0#1
      else if lastCycle input registers then p1ShareCount registers == 0#1
      else registers.shareCountZeroFlag
    savedGrant :=
      if updateGrant input registers then nextGrant input registers else registers.savedGrant
    topPriorityReg :=
      topPriorityNext twoMasters (arbitration input registers) registers.topPriorityReg }

end MuxRegisters

def commandMux : Machine MuxInputs MuxRegisters :=
  { resetState :=
      { locked := 0#2, packetInProgress := false, shareCount := 0#1, shareCountZeroFlag := true
        savedGrant := 0#2, topPriorityReg := 1#2 }
    reset := fun input => input.reset
    next := MuxRegisters.next }

/-! ### One period -/

/-- The grant goes to one master or to none, and the other master is the next one in
turn. -/
structure Granting (registers : MuxRegisters) : Prop where
  oneShare : registers.shareCount = 0#1 ∧ registers.shareCountZeroFlag = true
  turn : ∃ top, top < 2 ∧ registers.topPriorityReg = BitVec.twoPow 2 top
  granted : registers.savedGrant = 0#2 ∨ ∃ index, index < 2 ∧
    registers.savedGrant = BitVec.twoPow 2 index ∧
    registers.topPriorityReg = BitVec.twoPow 2 (behind 2 index)
  underway : registers.packetInProgress = true → registers.savedGrant ≠ 0#2

section Period

variable {input : MuxInputs} {registers : MuxRegisters} {index : Nat}

open MuxRegisters

theorem Granting.initial : Granting commandMux.resetState where
  oneShare := ⟨rfl, rfl⟩
  turn := ⟨0, by decide, rfl⟩
  granted := Or.inl rfl
  underway := fun impossible => absurd impossible Bool.false_ne_true

theorem granted_of_srcValid (valid : srcValid input registers = true) :
    registers.savedGrant ≠ 0#2 := by
  intro none
  rw [srcValid, none, BitVec.zero_and] at valid
  cases valid

theorem srcValid_of_granted (inside : index < 2)
    (granted : registers.savedGrant = BitVec.twoPow 2 index) :
    srcValid input registers = input.valid.getLsbD index := by
  rw [srcValid, granted, BitVec.twoPow_and]
  cases valid : input.valid.getLsbD index with
  | true =>
      have set : BitVec.twoPow 2 index ≠ 0#2 := by
        intro zero
        have bit := congrArg (fun word => word.getLsbD index) zero
        simp [inside] at bit
      simpa using set
  | false => simp

theorem nextGrantShare_eq : nextGrantShare input registers = 0#1 := by
  rw [nextGrantShare, BitVec.zero_and, BitVec.zero_and, BitVec.zero_or]

theorem next_of_hold (granting : Granting registers)
    (holds : updateGrant input registers = false) :
    lastCycle input registers = false ∧
      (registers.packetInProgress = true ∨ srcValid input registers = true) ∧
      next input registers =
        { registers with
          locked := nextGrant input registers &&& input.lock
          packetInProgress := true } := by
  obtain ⟨count, flag⟩ := granting.oneShare
  have held := holds
  rw [updateGrant, flag, Bool.and_true, Bool.or_eq_false_iff, Bool.and_eq_false_iff,
    Bool.not_eq_false', Bool.not_eq_false'] at holds
  obtain ⟨busy, notLast⟩ := holds
  refine ⟨notLast, busy, ?_⟩
  have priority : topPriorityNext twoMasters (arbitration input registers)
      registers.topPriorityReg = registers.topPriorityReg :=
    topPriorityNext_of_idle twoMasters_takesTurns held
  have progress : (if srcValid input registers then true else registers.packetInProgress) =
      true := by
    rcases busy with started | valid
    · rw [started, ite_self]
    · rw [valid, if_pos rfl]
  rw [next, held, notLast, priority]
  simp only [Bool.false_eq_true, if_false, progress]

theorem next_of_update (granting : Granting registers)
    (updates : updateGrant input registers = true) :
    (next input registers).packetInProgress = false ∧
      (next input registers).shareCount = 0#1 ∧
      (next input registers).shareCountZeroFlag = true ∧
      (next input registers).savedGrant = nextGrant input registers := by
  obtain ⟨count, flag⟩ := granting.oneShare
  refine ⟨?_, ?_, ?_, if_pos updates⟩
  · rw [updateGrant, flag, Bool.and_true, Bool.or_eq_true, Bool.and_eq_true, Bool.not_eq_true',
      Bool.not_eq_true'] at updates
    rw [next]
    rcases updates with ⟨rests, invalid⟩ | last
    · rw [rests, invalid, if_neg Bool.false_ne_true, ite_self]
    · rw [last, if_pos rfl]
  · rw [next, updates, if_pos rfl, nextGrantShare_eq]
  · rw [next, updates, if_pos rfl, nextGrantShare_eq]
    rfl

/-- An update turns to the first master that asks, and without one to none. -/
theorem update_turn {top : Nat} (granting : Granting registers) (inside : top < 2)
    (priority : registers.topPriorityReg = BitVec.twoPow 2 top)
    (updates : updateGrant input registers = true) :
    (∃ index,
        FirstFrom (fun other => (request input registers).getLsbD other = true) 2 top index ∧
          (next input registers).savedGrant = BitVec.twoPow 2 index ∧
          (next input registers).topPriorityReg = BitVec.twoPow 2 (behind 2 index)) ∨
      request input registers = 0#2 ∧ (next input registers).savedGrant = 0#2 ∧
        (next input registers).topPriorityReg = BitVec.twoPow 2 top := by
  obtain ⟨_rests, _count, _flag, saved⟩ := next_of_update granting updates
  have moved : (next input registers).topPriorityReg =
      topPriorityNext twoMasters (arbitration input registers) (BitVec.twoPow 2 top) := by
    rw [← priority]
    rfl
  rw [saved, moved, nextGrant, priority]
  rcases topPriorityNext_eq twoMasters_takesTurns inside (arbitration input registers) with
    ⟨_updates, index, found, turned⟩ | ⟨quiet, kept⟩
  · exact Or.inl ⟨index, found, grant_eq twoMasters_takesTurns inside found, turned⟩
  · have none : request input registers = 0#2 := quiet updates
    rw [none]
    exact Or.inr ⟨rfl, grant_of_quiet twoMasters_takesTurns inside, kept⟩

theorem Granting.next (granting : Granting registers) :
    Granting (next input registers) := by
  cases updates : updateGrant input registers with
  | false =>
      obtain ⟨_notLast, busy, held⟩ := next_of_hold granting updates
      rw [held]
      refine ⟨granting.oneShare, granting.turn, granting.granted, fun _progress => ?_⟩
      rcases busy with started | valid
      · exact granting.underway started
      · exact granted_of_srcValid valid
  | true =>
      obtain ⟨top, inside, priority⟩ := granting.turn
      obtain ⟨rests, count, flag, _saved⟩ := next_of_update granting updates
      have idle : (MuxRegisters.next input registers).packetInProgress = true →
          (MuxRegisters.next input registers).savedGrant ≠ 0#2 := by
        intro progress
        rw [rests] at progress
        cases progress
      rcases update_turn granting inside priority updates with
        ⟨index, found, saved, turned⟩ | ⟨_quiet, saved, kept⟩
      · exact ⟨⟨count, flag⟩, ⟨behind 2 index, behind_lt found.inside, turned⟩,
          Or.inr ⟨index, found.inside, saved, turned⟩, idle⟩
      · exact ⟨⟨count, flag⟩, ⟨top, inside, kept⟩, Or.inl saved, idle⟩

end Period

/-! ### Runs -/

section Run

open MuxRegisters

variable (inputs : Nat → MuxInputs)

def muxAt (cycle : Nat) : MuxRegisters := commandMux.run inputs cycle

def accepted (cycle index : Nat) : Bool :=
  (inputs cycle).valid.getLsbD index && sinkReady (inputs cycle) (muxAt inputs cycle) index

def delivered (cycle : Nat) : Option Beat :=
  if srcValid (inputs cycle) (muxAt inputs cycle) && (inputs cycle).srcReady then
    some (srcPayload (inputs cycle) (muxAt inputs cycle))
  else none

def packetEnds (cycle : Nat) : Bool := lastCycle (inputs cycle) (muxAt inputs cycle)

/-- A packet is on its way or on offer. -/
def muxBusy (cycle : Nat) : Bool :=
  (muxAt inputs cycle).packetInProgress || srcValid (inputs cycle) (muxAt inputs cycle)

variable {inputs} {cycle first last index other : Nat}

theorem granting (inputs : Nat → MuxInputs) (cycle : Nat) : Granting (muxAt inputs cycle) :=
  Machine.run_invariant (fun _input => True) Granting Granting.initial
    (fun _input _registers _admissible granting => granting.next) (fun _cycle => trivial) cycle

theorem granted_of_accepted (taken : accepted inputs cycle index = true) :
    (muxAt inputs cycle).savedGrant = BitVec.twoPow 2 index := by
  rw [accepted, sinkReady, Bool.and_eq_true, Bool.and_eq_true] at taken
  obtain ⟨_valid, _ready, bit⟩ := taken
  rcases (granting inputs cycle).granted with none | ⟨holder, holderInside, saved, _turn⟩
  · rw [none, BitVec.getLsbD_zero] at bit
    cases bit
  · rw [saved, BitVec.getLsbD_twoPow, Bool.and_eq_true, decide_eq_true_eq,
      decide_eq_true_eq] at bit
    rw [saved, bit.2]

theorem accepted_of_granted (inside : index < 2)
    (saved : (muxAt inputs cycle).savedGrant = BitVec.twoPow 2 index)
    (valid : srcValid (inputs cycle) (muxAt inputs cycle) = true)
    (ready : (inputs cycle).srcReady = true) : accepted inputs cycle index = true := by
  rw [srcValid_of_granted inside saved] at valid
  rw [accepted, sinkReady, valid, ready, saved, BitVec.getLsbD_twoPow, decide_eq_true inside,
    decide_eq_true rfl]
  rfl

theorem accepted_of_packetEnds (inside : index < 2)
    (saved : (muxAt inputs cycle).savedGrant = BitVec.twoPow 2 index)
    (ended : packetEnds inputs cycle = true) : accepted inputs cycle index = true := by
  rw [packetEnds, lastCycle, Bool.and_eq_true, Bool.and_eq_true, Bool.and_eq_true] at ended
  obtain ⟨⟨⟨valid, ready⟩, _eop⟩, _unlocked⟩ := ended
  exact accepted_of_granted inside saved valid ready

theorem accepted_unique (inside : index < 2)
    (taken : accepted inputs cycle index = true)
    (takenToo : accepted inputs cycle other = true) : index = other := by
  have saved := granted_of_accepted taken
  rw [granted_of_accepted takenToo] at saved
  exact twoPow_injective inside saved.symm

theorem srcValid_of_accepted (inside : index < 2) (taken : accepted inputs cycle index = true) :
    srcValid (inputs cycle) (muxAt inputs cycle) = true := by
  rw [srcValid_of_granted inside (granted_of_accepted taken)]
  rw [accepted, Bool.and_eq_true] at taken
  exact taken.1

/-- Of the sum of products only the granted sink is left. -/
theorem srcPayload_of_granted {input : MuxInputs} {registers : MuxRegisters} (inside : index < 2)
    (saved : registers.savedGrant = BitVec.twoPow 2 index) :
    srcPayload input registers = input.sink index := by
  rw [srcPayload, saved]
  obtain rfl | rfl : index = 0 ∨ index = 1 := by omega
  · exact Beat.merged_left input.sink0 input.sink1
  · exact Beat.merged_right input.sink0 input.sink1

theorem packetEnds_of_accepted (inside : index < 2)
    (taken : accepted inputs cycle index = true) :
    packetEnds inputs cycle = ((inputs cycle).sink index).final := by
  have saved := granted_of_accepted taken
  have valid := srcValid_of_accepted inside taken
  have unlocked := (inputs cycle).lock_of_granted inside
  rw [accepted, sinkReady, Bool.and_eq_true, Bool.and_eq_true] at taken
  rw [packetEnds, lastCycle, valid, taken.2.1, srcPayload_of_granted inside saved, saved, unlocked]
  rfl

theorem delivered_of_accepted (inside : index < 2) (taken : accepted inputs cycle index = true) :
    delivered inputs cycle = some ((inputs cycle).sink index) := by
  have saved := granted_of_accepted taken
  have valid := srcValid_of_accepted inside taken
  rw [accepted, sinkReady, Bool.and_eq_true, Bool.and_eq_true] at taken
  rw [delivered, valid, taken.2.1, srcPayload_of_granted inside saved]
  rfl

theorem accepted_of_delivered {beat : Beat} (leaves : delivered inputs cycle = some beat) :
    ∃ index, index < 2 ∧ accepted inputs cycle index = true := by
  rw [delivered] at leaves
  split at leaves
  next offered =>
    rw [Bool.and_eq_true] at offered
    rcases (granting inputs cycle).granted with none | ⟨index, inside, saved, _turn⟩
    · exact absurd none (granted_of_srcValid offered.1)
    · exact ⟨index, inside, accepted_of_granted inside saved offered.1 offered.2⟩
  next => cases leaves

/-! ### A packet is not interrupted -/

theorem muxAt_succ (quiet : commandMux.Quiet inputs first last) (lower : first ≤ cycle)
    (upper : cycle < last) :
    muxAt inputs (cycle + 1) = MuxRegisters.next (inputs cycle) (muxAt inputs cycle) :=
  quiet.run_succ lower upper

theorem updateGrant_of_packetEnds (ended : packetEnds inputs cycle = true) :
    updateGrant (inputs cycle) (muxAt inputs cycle) = true := by
  have last : lastCycle (inputs cycle) (muxAt inputs cycle) = true := ended
  rw [updateGrant, last, (granting inputs cycle).oneShare.2, Bool.and_self, Bool.or_true]

theorem updateGrant_of_busy (busy : muxBusy inputs cycle = true)
    (goesOn : packetEnds inputs cycle = false) :
    updateGrant (inputs cycle) (muxAt inputs cycle) = false := by
  have notLast : lastCycle (inputs cycle) (muxAt inputs cycle) = false := goesOn
  rw [muxBusy, Bool.or_eq_true] at busy
  rw [updateGrant, notLast, Bool.false_and, Bool.or_false]
  rcases busy with started | valid
  · rw [started]
    rfl
  · rw [valid, Bool.not_true, Bool.and_false]

theorem held_while_open (quiet : commandMux.Quiet inputs first last) (inside : index < 2)
    (taken : accepted inputs first index = true) (goesOn : packetEnds inputs first = false)
    {offset : Nat} (upTo : first + 1 + offset ≤ last)
    (unfinished : ∀ between, first < between → between < first + 1 + offset →
      packetEnds inputs between = false) :
    (muxAt inputs (first + 1 + offset)).savedGrant = BitVec.twoPow 2 index ∧
      muxBusy inputs (first + 1 + offset) = true := by
  induction offset with
  | zero =>
      have busy : muxBusy inputs first = true := by
        rw [muxBusy, srcValid_of_accepted inside taken, Bool.or_true]
      obtain ⟨_notLast, _busy, held⟩ :=
        next_of_hold (granting inputs first) (updateGrant_of_busy busy goesOn)
      rw [Nat.add_zero, muxBusy, muxAt_succ quiet (Nat.le_refl first) upTo, held]
      exact ⟨granted_of_accepted taken, Bool.true_or _⟩
  | succ offset ih =>
      rw [← Nat.add_assoc] at upTo unfinished ⊢
      have lower : first < first + 1 + offset := by omega
      obtain ⟨saved, busy⟩ := ih (Nat.le_of_succ_le upTo)
        (fun between after before => unfinished between after (Nat.lt_succ_of_lt before))
      obtain ⟨_notLast, _busy, held⟩ :=
        next_of_hold (granting inputs (first + 1 + offset))
          (updateGrant_of_busy busy (unfinished _ lower (Nat.lt_succ_self _)))
      rw [muxBusy, muxAt_succ quiet (Nat.le_of_lt lower) upTo, held]
      exact ⟨saved, Bool.true_or _⟩

theorem ends_between (quiet : commandMux.Quiet inputs first last) (inside : index < 2)
    (taken : accepted inputs first index = true) (goesOn : packetEnds inputs first = false)
    (after : first < last) (takenToo : accepted inputs last other = true)
    (different : index ≠ other) :
    ∃ between, first < between ∧ between < last ∧ accepted inputs between index = true ∧
      packetEnds inputs between = true := by
  by_contra never
  have unfinished : ∀ between, first < between → between < last →
      packetEnds inputs between = false := by
    intro between
    induction between using Nat.strong_induction_on with
    | _ between ih =>
        intro lower upper
        by_contra ends
        obtain ⟨offset, rfl⟩ := Nat.exists_eq_add_of_le (Nat.succ_le_of_lt lower)
        obtain ⟨saved, _busy⟩ := held_while_open quiet inside taken goesOn (Nat.le_of_lt upper)
          (fun earlier afterFirst before =>
            ih earlier before afterFirst (Nat.lt_trans before upper))
        have ended := Bool.eq_true_of_not_eq_false ends
        exact never ⟨_, lower, upper, accepted_of_packetEnds inside saved ended, ended⟩
  obtain ⟨offset, rfl⟩ := Nat.exists_eq_add_of_le (Nat.succ_le_of_lt after)
  obtain ⟨saved, _busy⟩ := held_while_open quiet inside taken goesOn (Nat.le_refl _) unfinished
  have savedToo := granted_of_accepted takenToo
  rw [Nat.succ_eq_add_one, saved] at savedToo
  exact different (twoPow_injective inside savedToo)

/-! ### A master that waits -/

theorem first_update {bound : Nat}
    (updates : ∃ offset, offset ≤ bound ∧
      updateGrant (inputs (first + offset)) (muxAt inputs (first + offset)) = true) :
    ∃ offset, offset ≤ bound ∧
      updateGrant (inputs (first + offset)) (muxAt inputs (first + offset)) = true ∧
      ∀ earlier, earlier < offset →
        updateGrant (inputs (first + earlier)) (muxAt inputs (first + earlier)) = false := by
  have some : ∃ offset,
      updateGrant (inputs (first + offset)) (muxAt inputs (first + offset)) = true := by
    obtain ⟨offset, _within, updates⟩ := updates
    exact ⟨offset, updates⟩
  obtain ⟨offset, within, updates⟩ := updates
  refine ⟨Nat.find some, Nat.le_trans (Nat.find_min' some updates) within, Nat.find_spec some, ?_⟩
  intro earlier before
  exact Bool.eq_false_of_not_eq_true (Nat.find_min some before)

theorem held_without_update (quiet : commandMux.Quiet inputs first last) {offset : Nat}
    (upTo : first + offset ≤ last)
    (held : ∀ earlier, earlier < offset →
      updateGrant (inputs (first + earlier)) (muxAt inputs (first + earlier)) = false) :
    (muxAt inputs (first + offset)).savedGrant = (muxAt inputs first).savedGrant ∧
      (muxAt inputs (first + offset)).topPriorityReg = (muxAt inputs first).topPriorityReg := by
  induction offset with
  | zero => exact ⟨rfl, rfl⟩
  | succ offset ih =>
      rw [← Nat.add_assoc] at upTo ⊢
      have before := ih (Nat.le_of_succ_le upTo)
        (fun earlier inside => held earlier (Nat.lt_succ_of_lt inside))
      obtain ⟨_notLast, _busy, same⟩ := next_of_hold (granting inputs (first + offset))
        (held offset (Nat.lt_succ_self offset))
      rw [muxAt_succ quiet (Nat.le_add_right _ _) upTo, same]
      exact before

theorem updateGrant_of_rest (rests : muxBusy inputs cycle = false) :
    updateGrant (inputs cycle) (muxAt inputs cycle) = true := by
  rw [muxBusy, Bool.or_eq_false_iff] at rests
  rw [updateGrant, rests.1, rests.2]
  rfl

theorem granted_in_turn (quiet : commandMux.Quiet inputs first last) (lower : first ≤ cycle)
    (upper : cycle < last) (inside : index < 2)
    (offers : (inputs cycle).valid.getLsbD index = true)
    (turn : (muxAt inputs cycle).topPriorityReg = BitVec.twoPow 2 index)
    (updates : updateGrant (inputs cycle) (muxAt inputs cycle) = true) :
    (muxAt inputs (cycle + 1)).savedGrant = BitVec.twoPow 2 index := by
  have asks : (request (inputs cycle) (muxAt inputs cycle)).getLsbD index = true := by
    rw [request, BitVec.getLsbD_or, offers, Bool.true_or]
  rw [muxAt_succ quiet lower upper]
  rcases update_turn (granting inputs cycle) inside turn updates with
    ⟨holder, found, saved, _turned⟩ | ⟨none, _saved, _kept⟩
  · rw [saved, found.unique inside (FirstFrom.of_top inside asks)]
  · rw [none, BitVec.getLsbD_zero] at asks
    cases asks

/-- A packet that is on its way, or on offer, ends within some time. -/
def Finishes (inputs : Nat → MuxInputs) (time first last : Nat) : Prop :=
  ∀ cycle, first ≤ cycle → cycle ≤ last → muxBusy inputs cycle = true →
    ∃ wait, wait ≤ time ∧ packetEnds inputs (cycle + wait) = true

variable {time : Nat}

theorem Finishes.exists_update (finishes : Finishes inputs time first last) (lower : first ≤ cycle)
    (upper : cycle ≤ last) :
    ∃ offset, offset ≤ time ∧
      updateGrant (inputs (cycle + offset)) (muxAt inputs (cycle + offset)) = true ∧
      ∀ earlier, earlier < offset →
        updateGrant (inputs (cycle + earlier)) (muxAt inputs (cycle + earlier)) = false := by
  apply first_update
  cases busy : muxBusy inputs cycle with
  | true =>
      obtain ⟨wait, within, ended⟩ := finishes cycle lower upper busy
      exact ⟨wait, within, updateGrant_of_packetEnds ended⟩
  | false => exact ⟨0, Nat.zero_le time, updateGrant_of_rest busy⟩

theorem granted_after_other (quiet : commandMux.Quiet inputs first (first + time + 1))
    (finishes : Finishes inputs time first first) (inside : index < 2) (otherInside : other < 2)
    (different : other ≠ index)
    (saved : (muxAt inputs first).savedGrant = BitVec.twoPow 2 other)
    (offers : ∀ cycle, first ≤ cycle → cycle ≤ first + time →
      (inputs cycle).valid.getLsbD index = true) :
    ∃ granted, first < granted ∧ granted ≤ first + time + 1 ∧
      (muxAt inputs granted).savedGrant = BitVec.twoPow 2 index ∧
      ∀ earlier, first ≤ earlier → earlier < granted → packetEnds inputs earlier = true →
        earlier + 1 = granted := by
  have turn : (muxAt inputs first).topPriorityReg = BitVec.twoPow 2 index := by
    rcases (granting inputs first).granted with none | ⟨holder, holderInside, savedToo, turn⟩
    · rw [none] at saved
      have bit := congrArg (fun word => word.getLsbD other) saved
      simp [otherInside] at bit
    · rw [saved] at savedToo
      have same := twoPow_injective otherInside savedToo
      have next : behind 2 holder = index := by
        unfold behind
        split_ifs <;> omega
      rw [turn, next]
  obtain ⟨offset, within, updates, held⟩ := finishes.exists_update (Nat.le_refl first)
    (Nat.le_refl first)
  obtain ⟨_saved, sameTurn⟩ := held_without_update quiet (by omega) held
  refine ⟨first + offset + 1, by omega, by omega, ?_, ?_⟩
  · exact granted_in_turn quiet (Nat.le_add_right _ _) (by omega) inside
      (offers _ (Nat.le_add_right _ _) (by omega)) (sameTurn.trans turn) updates
  · intro earlier lower upper ended
    obtain ⟨before, rfl⟩ := Nat.exists_eq_add_of_le lower
    have updated := updateGrant_of_packetEnds ended
    by_contra notLast
    rw [held before (by omega)] at updated
    cases updated

theorem exists_granted (quiet : commandMux.Quiet inputs first (first + time + 2))
    (finishes : Finishes inputs time first (first + 1)) (inside : index < 2)
    (offers : ∀ cycle, first ≤ cycle → cycle ≤ first + time + 1 →
      (inputs cycle).valid.getLsbD index = true) :
    ∃ granted, first ≤ granted ∧ granted ≤ first + time + 2 ∧
      (muxAt inputs granted).savedGrant = BitVec.twoPow 2 index ∧
      ∀ earlier, first ≤ earlier → earlier < granted → packetEnds inputs earlier = true →
        earlier + 1 = granted := by
  rcases (granting inputs first).granted with none | ⟨holder, holderInside, saved, _turn⟩
  · -- Nobody has the grant, and the next period gives it to the one or the other.
    have invalid : srcValid (inputs first) (muxAt inputs first) = false :=
      Bool.eq_false_of_not_eq_true fun valid => granted_of_srcValid valid none
    have idle : (muxAt inputs first).packetInProgress = false :=
      Bool.eq_false_of_not_eq_true fun progress => (granting inputs first).underway progress none
    have rests : muxBusy inputs first = false := by
      rw [muxBusy, invalid, idle, Bool.or_false]
    have noEnd : packetEnds inputs first = false := by
      rw [packetEnds, lastCycle, invalid, Bool.false_and, Bool.false_and, Bool.false_and]
    have asks : (request (inputs first) (muxAt inputs first)).getLsbD index = true := by
      rw [request, BitVec.getLsbD_or, offers first (Nat.le_refl _) (by omega), Bool.true_or]
    obtain ⟨top, topInside, priority⟩ := (granting inputs first).turn
    have next := muxAt_succ quiet (Nat.le_refl first) (by omega)
    rcases update_turn (granting inputs first) topInside priority (updateGrant_of_rest rests) with
      ⟨holder, found, saved, _turned⟩ | ⟨quietNow, _saved, _kept⟩
    · rw [← next] at saved
      by_cases own : holder = index
      · rw [own] at saved
        refine ⟨first + 1, Nat.le_succ first, by omega, saved, ?_⟩
        intro earlier lower upper _ended
        omega
      · obtain ⟨granted, after, within, savedLater, ends⟩ :=
          granted_after_other (quiet.mono (Nat.le_succ first) (by omega))
            (fun cycle lower upper => finishes cycle (by omega) upper) inside found.inside own saved
            (fun cycle lower upper => offers cycle (by omega) (by omega))
        refine ⟨granted, by omega, by omega, savedLater, ?_⟩
        intro earlier lower upper ended
        rcases Nat.lt_or_eq_of_le lower with later | same
        · exact ends earlier later upper ended
        · rw [← same, noEnd] at ended
          cases ended
    · rw [quietNow, BitVec.getLsbD_zero] at asks
      cases asks
  · by_cases own : holder = index
    · rw [own] at saved
      refine ⟨first, Nat.le_refl first, by omega, saved, ?_⟩
      intro earlier lower upper _ended
      omega
    · obtain ⟨granted, after, within, savedLater, ends⟩ :=
        granted_after_other (quiet.mono (Nat.le_refl first) (by omega))
          (fun cycle lower upper => finishes cycle lower (by omega)) inside holderInside own saved
          (fun cycle lower upper => offers cycle lower (by omega))
      exact ⟨granted, by omega, by omega, savedLater, ends⟩

theorem ends_of_granted (quiet : commandMux.Quiet inputs first (first + time))
    (finishes : Finishes inputs time first first) (inside : index < 2)
    (saved : (muxAt inputs first).savedGrant = BitVec.twoPow 2 index)
    (offers : ∀ cycle, first ≤ cycle → cycle ≤ first + time →
      (inputs cycle).valid.getLsbD index = true) :
    ∃ offset, offset ≤ time ∧ accepted inputs (first + offset) index = true ∧
      packetEnds inputs (first + offset) = true ∧
      ∀ earlier, earlier ≤ offset →
        (muxAt inputs (first + earlier)).savedGrant = BitVec.twoPow 2 index := by
  obtain ⟨offset, within, updates, held⟩ := finishes.exists_update (Nat.le_refl first)
    (Nat.le_refl first)
  have keeps : ∀ earlier, earlier ≤ offset →
      (muxAt inputs (first + earlier)).savedGrant = BitVec.twoPow 2 index := by
    intro earlier upTo
    rw [← saved]
    exact (held_without_update quiet (by omega)
      (fun before inside => held before (Nat.lt_of_lt_of_le inside upTo))).1
  have sameGrant := keeps offset (Nat.le_refl offset)
  have valid : srcValid (inputs (first + offset)) (muxAt inputs (first + offset)) = true := by
    rw [srcValid_of_granted inside sameGrant]
    exact offers _ (Nat.le_add_right _ _) (by omega)
  have ended : packetEnds inputs (first + offset) = true := by
    by_contra goesOn
    have busy : muxBusy inputs (first + offset) = true := by rw [muxBusy, valid, Bool.or_true]
    rw [updateGrant_of_busy busy (Bool.eq_false_of_not_eq_true goesOn)] at updates
    cases updates
  exact ⟨offset, within, accepted_of_packetEnds inside sameGrant ended, ended, keeps⟩

end Run

/-- What leaves the multiplexer is what it takes from one of the sinks at the same
time, and between a beat and the end of its packet it takes nothing from the other. -/
theorem packets_merged (inputs : Nat → MuxInputs) :
    (∀ cycle beat, delivered inputs cycle = some beat ↔
      ∃! index, index < 2 ∧ accepted inputs cycle index = true ∧
        (inputs cycle).sink index = beat) ∧
    ∀ first last index other, commandMux.Quiet inputs first last → index < 2 → first < last →
      accepted inputs first index = true → ((inputs first).sink index).final = false →
      accepted inputs last other = true → index ≠ other →
      ∃ between, first < between ∧ between < last ∧ accepted inputs between index = true ∧
        ((inputs between).sink index).final = true := by
  constructor
  · intro cycle beat
    constructor
    · intro leaves
      obtain ⟨index, inside, taken⟩ := accepted_of_delivered leaves
      have same := delivered_of_accepted inside taken
      rw [leaves, Option.some_inj] at same
      refine ⟨index, ⟨inside, taken, same.symm⟩, ?_⟩
      rintro other ⟨otherInside, takenToo, _sameBeat⟩
      exact accepted_unique otherInside takenToo taken
    · rintro ⟨index, ⟨inside, taken, rfl⟩, _only⟩
      exact delivered_of_accepted inside taken
  · intro first last index other quiet inside after taken goesOn takenToo different
    rw [← packetEnds_of_accepted inside taken] at goesOn
    obtain ⟨between, lower, upper, takenBetween, ended⟩ :=
      ends_between quiet inside taken goesOn after takenToo different
    rw [packetEnds_of_accepted inside takenBetween] at ended
    exact ⟨between, lower, upper, takenBetween, ended⟩

/-- The first master sends two beats, and the other one has to wait for both. -/
def twoBeats (cycle : Nat) : MuxInputs :=
  { reset := false
    valid := BitVec.allOnes 2
    sink0 :=
      { channel := 1, data := 0, startofpacket := cycle == 1, endofpacket := cycle == 2 }
    sink1 := { channel := 1, data := 1, startofpacket := true, endofpacket := true }
    srcReady := true }

theorem packets_merged_twoBeats :
    ∃ between, 1 < between ∧ between < 3 ∧ accepted twoBeats between 0 = true ∧
      ((twoBeats between).sink 0).final = true :=
  (packets_merged twoBeats).2 1 3 0 1 (fun _cycle _lower _upper => rfl) Nat.two_pos (by decide)
    (by decide +kernel) (by decide) (by decide +kernel) (by decide)

/-- What a master that waits gets: the grant after at most one packet of the other
one, and with it the end of a packet of its own. -/
structure Served (inputs : Nat → MuxInputs) (time first index granted done : Nat) : Prop where
  after : first ≤ granted
  soon : granted ≤ first + time + 2
  onePacket : ∀ earlier, first ≤ earlier → earlier < granted →
    packetEnds inputs earlier = true → earlier + 1 = granted
  last : granted ≤ done
  within : done ≤ granted + time
  ended : accepted inputs done index = true ∧ packetEnds inputs done = true
  alone : ∀ between other, granted ≤ between → between ≤ done →
    accepted inputs between other = true → other = index

theorem packet_served (inputs : Nat → MuxInputs) (time first index : Nat)
    (quiet : commandMux.Quiet inputs first (first + 2 * time + 2))
    (finishes : Finishes inputs time first (first + time + 2)) (inside : index < 2)
    (offers : ∀ cycle, first ≤ cycle → cycle ≤ first + 2 * time + 2 →
      (inputs cycle).valid.getLsbD index = true) :
    ∃ granted done, Served inputs time first index granted done := by
  obtain ⟨granted, after, soon, saved, onePacket⟩ :=
    exists_granted (quiet.mono (Nat.le_refl first) (by omega))
      (fun cycle lower upper => finishes cycle lower (by omega)) inside
      (fun cycle lower upper => offers cycle lower (by omega))
  obtain ⟨offset, within, taken, ended, keeps⟩ :=
    ends_of_granted (quiet.mono after (by omega))
      (fun cycle lower upper => finishes cycle (by omega) (by omega)) inside saved
      (fun cycle lower upper => offers cycle (by omega) (by omega))
  refine
    ⟨granted, granted + offset,
      { after := after
        soon := soon
        onePacket := onePacket
        last := Nat.le_add_right _ _
        within := Nat.add_le_add_left within granted
        ended := ⟨taken, ended⟩
        alone := ?_ }⟩
  intro between other lower upper takenToo
  obtain ⟨earlier, rfl⟩ := Nat.exists_eq_add_of_le lower
  have held := keeps earlier (Nat.le_of_add_le_add_left upper)
  rw [granted_of_accepted takenToo] at held
  exact (twoPow_injective inside held.symm).symm

/-! ### Accesses of one beat -/

section OneBeat

variable {inputs : Nat → MuxInputs}

theorem ends_of_srcValid (oneBeat : ∀ cycle index, ((inputs cycle).sink index).final = true)
    (ready : ∀ cycle, (inputs cycle).srcReady = true) {cycle : Nat}
    (valid : MuxRegisters.srcValid (inputs cycle) (muxAt inputs cycle) = true) :
    packetEnds inputs cycle = true := by
  rcases (granting inputs cycle).granted with none | ⟨index, inside, saved, _turn⟩
  · exact absurd none (granted_of_srcValid valid)
  · rw [packetEnds_of_accepted inside (accepted_of_granted inside saved valid (ready cycle))]
    exact oneBeat cycle index

/-- Where every packet is one beat and the port takes it at once, no packet is ever
open. -/
theorem finishes_of_oneBeat (oneBeat : ∀ cycle index, ((inputs cycle).sink index).final = true)
    (ready : ∀ cycle, (inputs cycle).srcReady = true) (first last : Nat) :
    Finishes inputs 0 first last := by
  have neverOpen : ∀ cycle, (muxAt inputs cycle).packetInProgress = false := by
    intro cycle
    induction cycle with
    | zero => rfl
    | succ cycle ih =>
        rcases Machine.run_succ_cases commandMux inputs cycle with
          cleared | ⟨_low, _lowAfter, advanced⟩
        · rw [muxAt, cleared]
          rfl
        · rw [muxAt, advanced]
          change (MuxRegisters.next (inputs cycle) (muxAt inputs cycle)).packetInProgress = false
          rw [MuxRegisters.next, ih]
          cases valid : MuxRegisters.srcValid (inputs cycle) (muxAt inputs cycle) with
          | true => exact if_pos (ends_of_srcValid oneBeat ready valid)
          | false => rw [if_neg Bool.false_ne_true, ite_self]
  intro cycle _lower _upper busy
  rw [muxBusy, neverOpen cycle, Bool.false_or] at busy
  exact ⟨0, Nat.le_refl 0, ends_of_srcValid oneBeat ready busy⟩

end OneBeat

def fetch : Beat :=
  { channel := 1, data := 0, startofpacket := true, endofpacket := true }

def bothOffer (_cycle : Nat) : MuxInputs :=
  { reset := false, valid := BitVec.allOnes 2, sink0 := fetch, sink1 := fetch, srcReady := true }

theorem packet_served_both : ∃ granted done, Served bothOffer 0 5 1 granted done := by
  have final : fetch.final = true := by decide
  have oneBeat : ∀ cycle index, ((bothOffer cycle).sink index).final = true := by
    intro _cycle index
    rw [MuxInputs.sink]
    split <;> exact final
  have offers : (BitVec.allOnes 2).getLsbD 1 = true := by decide
  exact packet_served bothOffer 0 5 1 (fun _cycle _lower _upper => rfl)
    (finishes_of_oneBeat oneBeat (fun _cycle => rfl) 5 _) (Nat.lt_add_one 1)
    (fun _cycle _lower _upper => offers)

end SpiFpga.Top
