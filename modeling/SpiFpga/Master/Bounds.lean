/-
Bounds on the counters, and on the length of a frame.

A delay that is raised while a frame runs closes the clock gate and clears the
divider, so the bit counter need not move for a while.  But the delay counter
goes on counting, no delay can close the gate once it has passed the largest one,
and a divider that is not at zero has already paid for a toggle.  What the delay
counter shows is thus bounded by the toggles so far and the divider.
-/

import SpiFpga.Master.History

namespace SpiFpga.Master

open Clocked

variable {generics : Generics} {most : Int}

/-- The open time of the clock gate that the toggles and the divider stand for. -/
def accounted (generics : Generics) (bits divCount : Int) : Int :=
  if divCount = 0 then generics.clkDiv * bits else generics.clkDiv * (bits - 1) + divCount

def frameBound (generics : Generics) (most : Int) : Int :=
  most + 3 + (2 * generics.word - 1) * generics.clkDiv

/-! ### The open time -/

theorem accounted_nonneg (positive : 1 ≤ generics.clkDiv) {bits divCount : Int}
    (bitsNonneg : 0 ≤ bits) (divNonneg : 0 ≤ divCount) (paid : divCount ≠ 0 → 1 ≤ bits) :
    0 ≤ accounted generics bits divCount := by
  unfold accounted
  split
  next => exact Int.mul_nonneg (by omega) bitsNonneg
  next running =>
    have toggled := paid running
    have product : 0 ≤ generics.clkDiv * (bits - 1) := Int.mul_nonneg (by omega) (by omega)
    omega

theorem accounted_le {bits divCount limit : Int} (range : 0 ≤ divCount ∧ divCount < generics.clkDiv)
    (upTo : bits ≤ limit) : accounted generics bits divCount ≤ generics.clkDiv * limit := by
  have product := Int.mul_le_mul_of_nonneg_left upTo (by omega : 0 ≤ generics.clkDiv)
  unfold accounted
  split
  next => exact product
  next =>
    rw [Int.mul_sub, Int.mul_one]
    omega

theorem accounted_open (bits : Int) {divCount : Int} (nonneg : 0 ≤ divCount) :
    accounted generics (bits + if Divider.pulse true divCount then 1 else 0)
        (Divider.next generics.clkDiv true divCount) =
      accounted generics bits divCount + 1 := by
  unfold accounted Divider.next
  rw [Divider.pulse_open, if_pos rfl]
  by_cases atZero : divCount = 0
  · rw [atZero, decide_eq_true rfl, if_pos rfl, if_pos rfl]
    by_cases unit : (0 : Int) = generics.clkDiv - 1
    · have one : generics.clkDiv = 1 := by omega
      rw [if_pos unit, if_pos rfl, one]
      omega
    · rw [if_neg unit, if_neg (by omega), Int.add_sub_cancel]
      omega
  · rw [decide_eq_false atZero, if_neg Bool.false_ne_true, Int.add_zero, if_neg atZero]
    by_cases last : divCount = generics.clkDiv - 1
    · rw [if_pos last, if_pos rfl, last, Int.mul_sub, Int.mul_one]
      omega
    · rw [if_neg last, if_neg (by omega)]
      omega

/-! ### The counters in every state -/

structure CountersBounded (most : Int) (registers : Registers generics) : Prop where
  div : 0 ≤ registers.divCounterReg ∧ registers.divCounterReg < generics.clkDiv
  div2 : 0 ≤ registers.divCounter2Reg ∧ registers.divCounter2Reg < generics.clkDiv * 2
  nonneg : 0 ≤ registers.delayCounterReg ∧ 0 ≤ registers.bitsCounterReg
  paid : registers.stateReg = .communicationState → registers.divCounterReg ≠ 0 →
    1 ≤ registers.bitsCounterReg
  covered : registers.stateReg = .communicationState → registers.delayCounterReg ≤
    most + 1 + accounted generics registers.bitsCounterReg registers.divCounterReg
  running : registers.stateReg = .communicationState →
    registers.bitsCounterReg ≤ 2 * generics.word ∧
      registers.delayCounterReg < frameBound generics most
  stored : registers.stateReg = .storeRxState →
    registers.bitsCounterReg ≤ 2 * generics.word + 1 ∧
      registers.delayCounterReg ≤ frameBound generics most
  cleared : registers.stateReg ≠ .communicationState → registers.stateReg ≠ .storeRxState →
    registers.bitsCounterReg = 0 ∧ registers.delayCounterReg = 0

theorem frameBound_gt (positive : 1 ≤ generics.clkDiv) :
    most + 3 < frameBound generics most := by
  have wordPos := generics.wordPos
  have product : 0 < (2 * (generics.word : Int) - 1) * generics.clkDiv :=
    Int.mul_pos (by omega) (by omega)
  unfold frameBound
  omega

theorem resetRegisters_countersBounded (positive : 1 ≤ generics.clkDiv) :
    CountersBounded most (resetRegisters generics) where
  div := ⟨Int.le_refl 0, positive⟩
  div2 := ⟨Int.le_refl 0, by
    change 0 < generics.clkDiv * 2
    omega⟩
  nonneg := ⟨Int.le_refl 0, Int.le_refl 0⟩
  paid impossible := nomatch impossible
  covered impossible := nomatch impossible
  running impossible := nomatch impossible
  stored impossible := nomatch impossible
  cleared _notComm _notStore := ⟨rfl, rfl⟩

namespace CountersBounded

variable {input : Inputs generics} {registers : Registers generics}

theorem dividers (positive : 1 ≤ generics.clkDiv) (bounded : CountersBounded most registers) :
    (0 ≤ (nextRegisters input registers).divCounterReg ∧
        (nextRegisters input registers).divCounterReg < generics.clkDiv) ∧
      0 ≤ (nextRegisters input registers).divCounter2Reg ∧
        (nextRegisters input registers).divCounter2Reg < generics.clkDiv * 2 :=
  ⟨Divider.next_range positive _ bounded.div, Divider.next_range (by omega) _ bounded.div2⟩

theorem nonneg_next (bounded : CountersBounded most registers) :
    0 ≤ (nextRegisters input registers).delayCounterReg ∧
      0 ≤ (nextRegisters input registers).bitsCounterReg := by
  by_cases inComm : registers.stateReg = .communicationState
  · obtain ⟨_clkNext, bitsNext, delayNext, _csNext⟩ := nextRegisters_of_comm input inComm
    have nonneg := bounded.nonneg
    rw [bitsNext, delayNext]
    constructor
    · omega
    · split <;> omega
  · obtain ⟨_clkNext, bitsNext, delayNext, _csNext⟩ := nextRegisters_of_ne_comm input inComm
    rw [bitsNext, delayNext]
    exact ⟨Int.le_refl 0, Int.le_refl 0⟩

theorem advances (positive : 1 ≤ generics.clkDiv) (bounded : CountersBounded most registers)
    (upTo : input.delayConstant ≤ most)
    (inComm : registers.stateReg = .communicationState) :
    ((nextRegisters input registers).divCounterReg ≠ 0 →
        1 ≤ (nextRegisters input registers).bitsCounterReg) ∧
      (nextRegisters input registers).delayCounterReg ≤ most + 1 +
        accounted generics (nextRegisters input registers).bitsCounterReg
          (nextRegisters input registers).divCounterReg := by
  obtain ⟨_clkNext, bitsNext, delayNext, _csNext⟩ := nextRegisters_of_comm input inComm
  have divNext : (nextRegisters input registers).divCounterReg =
      Divider.next generics.clkDiv (delayCounterEnd input registers) registers.divCounterReg := rfl
  have covered := bounded.covered inComm
  have paid := bounded.paid inComm
  have bitsNonneg := bounded.nonneg.2
  rw [startSclk_eq (by omega), divClkPulse, enDivCounter] at bitsNext
  rw [bitsNext, divNext, delayNext]
  cases gate : delayCounterEnd input registers with
  | false =>
      have waiting : registers.delayCounterReg ≤ input.delayConstant := by
        rw [delayCounterEnd, decide_eq_false_iff_not] at gate
        omega
      rw [Divider.next_closed]
      refine ⟨fun running => absurd rfl running, ?_⟩
      have none := accounted_nonneg positive bitsNonneg (Int.le_refl 0)
        (fun running => absurd rfl running)
      change _ ≤ most + 1 + accounted generics (registers.bitsCounterReg + 0) 0
      rw [Int.add_zero]
      omega
  | true =>
      constructor
      · intro running
        by_cases atZero : registers.divCounterReg = 0
        · rw [atZero, Divider.pulse_open, decide_eq_true rfl, if_pos rfl]
          omega
        · have toggled := paid atZero
          split <;> omega
      · rw [accounted_open _ bounded.div.1]
        omega

theorem stay (positive : 1 ≤ generics.clkDiv) (bounded : CountersBounded most registers)
    (upTo : input.delayConstant ≤ most)
    (inComm : registers.stateReg = .communicationState)
    (unfinished : registers.bitsCounterReg < 2 * generics.word) :
    CountersBounded most (nextRegisters input registers) := by
  obtain ⟨_clkNext, bitsNext, delayNext, _csNext⟩ := nextRegisters_of_comm input inComm
  obtain ⟨paidNext, coveredNext⟩ := bounded.advances positive upTo inComm
  have stays : (nextRegisters input registers).stateReg = .communicationState := by
    rw [nextRegisters_stateReg, inComm]
    exact if_pos (by omega)
  have openTime := accounted_le bounded.div (Int.le_sub_one_of_lt unfinished)
  have covered := bounded.covered inComm
  refine
    { div := (bounded.dividers positive).1
      div2 := (bounded.dividers positive).2
      nonneg := bounded.nonneg_next
      paid := fun _inComm => paidNext
      covered := fun _inComm => coveredNext
      running := fun _inComm => ?_
      stored := fun inStore => ?_
      cleared := fun notComm => absurd stays notComm }
  · rw [bitsNext, delayNext, frameBound]
    constructor
    · split <;> omega
    · rw [Int.mul_comm] at openTime
      omega
  · cases stays.symm.trans inStore

theorem finish (positive : 1 ≤ generics.clkDiv) (bounded : CountersBounded most registers)
    (inComm : registers.stateReg = .communicationState)
    (complete : ¬registers.bitsCounterReg < 2 * generics.word) :
    CountersBounded most (nextRegisters input registers) := by
  obtain ⟨_clkNext, bitsNext, delayNext, _csNext⟩ := nextRegisters_of_comm input inComm
  have stores : (nextRegisters input registers).stateReg = .storeRxState := by
    rw [nextRegisters_stateReg, inComm]
    exact if_neg (by omega)
  have left : (nextRegisters input registers).stateReg ≠ .communicationState := by
    rw [stores]
    exact StateType.noConfusion
  obtain ⟨atMost, within⟩ := bounded.running inComm
  refine
    { div := (bounded.dividers positive).1
      div2 := (bounded.dividers positive).2
      nonneg := bounded.nonneg_next
      paid := fun inComm' => absurd inComm' left
      covered := fun inComm' => absurd inComm' left
      running := fun inComm' => absurd inComm' left
      stored := fun _inStore => ?_
      cleared := fun _notComm notStore => absurd stores notStore }
  · rw [bitsNext, delayNext]
    constructor
    · split <;> omega
    · omega

theorem outside (positive : 1 ≤ generics.clkDiv) (bounded : CountersBounded most registers)
    (range : 0 ≤ input.delayConstant ∧ input.delayConstant ≤ most)
    (notComm : registers.stateReg ≠ .communicationState) :
    CountersBounded most (nextRegisters input registers) := by
  obtain ⟨_clkNext, bitsNext, delayNext, _csNext⟩ := nextRegisters_of_ne_comm input notComm
  have wordPos := generics.wordPos
  have roomy : most + 3 < frameBound generics most := frameBound_gt positive
  have divZero : (nextRegisters input registers).stateReg = .communicationState →
      (nextRegisters input registers).divCounterReg = 0 := by
    intro entered
    have arrow := nextRegisters_arrow input registers
    rw [entered] at arrow
    have atInit := arrow.to_comm.resolve_right notComm
    have waiting := (bounded.cleared notComm (by rw [atInit]; exact StateType.noConfusion)).2
    exact divCounterNext_of_waiting input range.1 waiting
  refine
    { div := (bounded.dividers positive).1
      div2 := (bounded.dividers positive).2
      nonneg := bounded.nonneg_next
      paid := fun inComm running => absurd (divZero inComm) running
      covered := fun inComm => ?_
      running := fun _inComm => ?_
      stored := fun _inStore => ?_
      cleared := fun _notComm _notStore => ⟨bitsNext, delayNext⟩ }
  · rw [bitsNext, delayNext, divZero inComm, accounted, if_pos rfl, Int.mul_zero]
    omega
  · rw [bitsNext, delayNext]
    omega
  · rw [bitsNext, delayNext]
    omega

end CountersBounded

theorem countersBounded_run (positive : 1 ≤ generics.clkDiv) {inputs : Nat → Inputs generics}
    (delays : ∀ cycle, 0 ≤ (inputs cycle).delayConstant ∧ (inputs cycle).delayConstant ≤ most)
    (cycle : Nat) : CountersBounded most (registersAt inputs cycle) := by
  refine Machine.run_invariant
    (fun input => 0 ≤ input.delayConstant ∧ input.delayConstant ≤ most) (CountersBounded most)
    (resetRegisters_countersBounded positive) ?_ delays cycle
  intro input registers range bounded
  by_cases inComm : registers.stateReg = .communicationState
  · by_cases unfinished : registers.bitsCounterReg < 2 * generics.word
    · exact bounded.stay positive range.2 inComm unfinished
    · exact bounded.finish positive inComm unfinished
  · exact bounded.outside positive range inComm

/-! ### The length of a frame -/

structure LeavesAfter (inputs : Nat → Inputs generics) (first count : Nat) : Prop where
  communicates : ∀ index, index < count → Quiet inputs first (first + 2 + index) →
    stateAt inputs (first + 2 + index) = .communicationState
  stores : Quiet inputs first (first + 2 + count) →
    stateAt inputs (first + 2 + count) = .storeRxState

variable {inputs : Nat → Inputs generics} {first index : Nat}

theorem communicates_until_store (begins : Begins inputs first)
    (quiet : Quiet inputs first (first + 2 + index))
    (notStore : ∀ earlier, earlier ≤ index →
      stateAt inputs (first + 2 + earlier) ≠ .storeRxState) :
    stateAt inputs (first + 2 + index) = .communicationState := by
  induction index with
  | zero => exact (begins_enters begins quiet).2
  | succ index ih =>
      have inComm := ih (quiet.mono (Nat.le_refl _) (by omega))
        (fun earlier upTo => notStore earlier (Nat.le_succ_of_le upTo))
      have arrow := quiet.arrow (first + 2 + index) (by omega) (by omega)
      rw [inComm] at arrow
      exact arrow.from_comm.resolve_right (notStore (index + 1) (Nat.le_refl _))

theorem delayCounter_eq_index (begins : Begins inputs first)
    (quiet : Quiet inputs first (first + 2 + index))
    (inComm : ∀ earlier, earlier < index →
      stateAt inputs (first + 2 + earlier) = .communicationState) :
    (registersAt inputs (first + 2 + index)).delayCounterReg = index := by
  induction index with
  | zero =>
      have notComm : stateAt inputs (first + 1) ≠ .communicationState := by
        rw [(begins_enters begins quiet).1]
        exact StateType.noConfusion
      rw [Nat.add_zero, quiet.registersAt_succ (first + 1) (by omega) (by omega)]
      exact (nextRegisters_of_ne_comm _ notComm).2.2.1
  | succ index ih =>
      have before := ih (quiet.mono (Nat.le_refl _) (by omega))
        (fun earlier lower => inComm earlier (Nat.lt_succ_of_lt lower))
      rw [← Nat.add_assoc, quiet.registersAt_succ (first + 2 + index) (by omega) (by omega),
        (nextRegisters_of_comm _ (inComm index (Nat.lt_succ_self index))).2.2.1, before]
      rfl

theorem index_lt_frameBound (positive : 1 ≤ generics.clkDiv) (begins : Begins inputs first)
    (delays : ∀ cycle, 0 ≤ (inputs cycle).delayConstant ∧ (inputs cycle).delayConstant ≤ most)
    (quiet : Quiet inputs first (first + 2 + index))
    (inComm : ∀ earlier, earlier ≤ index →
      stateAt inputs (first + 2 + earlier) = .communicationState) :
    (index : Int) < frameBound generics most := by
  have counted := delayCounter_eq_index begins quiet
    (fun earlier before => inComm earlier (Nat.le_of_lt before))
  have bounded := (countersBounded_run positive delays (first + 2 + index)).running
    (inComm index (Nat.le_refl index))
  rw [counted] at bounded
  exact bounded.2

theorem exists_leavesAfter (positive : 1 ≤ generics.clkDiv) (begins : Begins inputs first)
    (delays : ∀ cycle, 0 ≤ (inputs cycle).delayConstant ∧ (inputs cycle).delayConstant ≤ most) :
    ∃ count : Nat, 0 < count ∧ count ≤ frameBound generics most ∧
      LeavesAfter inputs first count := by
  classical
  by_cases some : ∃ count, Quiet inputs first (first + 2 + count) ∧
      stateAt inputs (first + 2 + count) = .storeRxState
  · -- the first store state that no reset precedes
    obtain ⟨quiet, stores⟩ := Nat.find_spec some
    have inComm : ∀ index, index < Nat.find some →
        stateAt inputs (first + 2 + index) = .communicationState := by
      intro index before
      apply communicates_until_store begins (quiet.mono (Nat.le_refl _) (by omega))
      intro earlier upTo atStore
      exact Nat.find_min some (Nat.lt_of_le_of_lt upTo before)
        ⟨quiet.mono (Nat.le_refl _) (by omega), atStore⟩
    have atEntry := (begins_enters begins (quiet.mono (Nat.le_refl _) (by omega))).2
    obtain ⟨last, position⟩ : ∃ last, Nat.find some = last + 1 := by
      apply Nat.exists_eq_succ_of_ne_zero
      intro none
      rw [none] at stores
      cases atEntry.symm.trans stores
    rw [position] at quiet stores inComm
    have short := index_lt_frameBound positive begins delays
      (quiet.mono (Nat.le_refl _) (Nat.add_le_add_left (Nat.le_succ last) _))
      (fun earlier upTo => inComm earlier (Nat.lt_succ_of_le upTo))
    exact ⟨last + 1, Nat.succ_pos last, by omega,
      fun index before _quiet => inComm index before, fun _quiet => stores⟩
  · -- a reset comes before the bound
    have inComm : ∀ index, Quiet inputs first (first + 2 + index) →
        stateAt inputs (first + 2 + index) = .communicationState := by
      intro index quiet
      apply communicates_until_store begins quiet
      intro earlier upTo atStore
      exact some ⟨earlier, quiet.mono (Nat.le_refl _) (by omega), atStore⟩
    have mostNonneg := Int.le_trans (delays 0).1 (delays 0).2
    have roomy : most + 3 < frameBound generics most := frameBound_gt positive
    have cast : ((frameBound generics most).toNat : Int) = frameBound generics most :=
      Int.toNat_of_nonneg (by omega)
    refine ⟨(frameBound generics most).toNat, by omega, Int.le_of_eq cast,
      fun index _before quiet => inComm index quiet, fun quiet => ?_⟩
    have short := index_lt_frameBound positive begins delays quiet (fun earlier upTo =>
      inComm earlier (quiet.mono (Nat.le_refl _) (Nat.add_le_add_left upTo _)))
    omega

/-! ### Integers of 32 bits -/

/-- The values of the predefined integer type. -/
def Fits (value : Int) : Prop := -2 ^ 31 ≤ value ∧ value < 2 ^ 31

def evaluated (condition : Bool) (values : List Int) : List Int :=
  if condition then values else []

@[simp] theorem mem_evaluated {condition : Bool} {values : List Int} {value : Int} :
    value ∈ evaluated condition values ↔ condition = true ∧ value ∈ values := by
  cases condition <;> simp [evaluated]

/-- The integer signals of a period, those of the second divider apart, and the
expressions that the processes evaluate, each where a branch reaches it. -/
def integers (input : Inputs generics) (registers : Registers generics) : List Int :=
  [ registers.delayCounterReg, registers.divCounterReg, registers.bitsCounterReg,
    input.delayConstant, shift generics, input.delayConstant + shift generics ] ++
  evaluated (startDelay input registers)
    [registers.delayCounterReg + 1, (generics.word : Int) * 2] ++
  evaluated (startDelay input registers && startSclk input registers)
    [registers.bitsCounterReg + 1] ++
  -- the count is advanced before the wrap is tested
  evaluated (enDivCounter input registers)
    [registers.divCounterReg + 1, generics.clkDiv - 1]

/-- The same for the second divider, whose limit is evaluated anew each time. -/
def secondDividerIntegers (input : Inputs generics) (registers : Registers generics) :
    List Int :=
  [registers.divCounter2Reg] ++
  evaluated (enDivCounterShift input registers)
    [registers.divCounter2Reg + 1, generics.clkDiv * 2, generics.clkDiv * 2 - 1]

/-- The second divider counts through twice the range, which a frame of one bit
can be too short to cover. -/
structure BoundedRun (inputs : Nat → Inputs generics) (most : Int) : Prop where
  leaves : ∀ first, Begins inputs first → ∃ count : Nat, 0 < count ∧
    count ≤ most + 3 + (2 * generics.word - 1) * generics.clkDiv ∧ LeavesAfter inputs first count
  div : ∀ cycle, 0 ≤ (registersAt inputs cycle).divCounterReg ∧
    (registersAt inputs cycle).divCounterReg < generics.clkDiv
  div2 : ∀ cycle, 0 ≤ (registersAt inputs cycle).divCounter2Reg ∧
    (registersAt inputs cycle).divCounter2Reg < 2 * generics.clkDiv
  bits : ∀ cycle, 0 ≤ (registersAt inputs cycle).bitsCounterReg ∧
    (registersAt inputs cycle).bitsCounterReg ≤ 2 * generics.word + 1
  delay : ∀ cycle, 0 ≤ (registersAt inputs cycle).delayCounterReg ∧
    (registersAt inputs cycle).delayCounterReg ≤
      most + 3 + (2 * generics.word - 1) * generics.clkDiv
  fits : most + 3 + (2 * generics.word - 1) * generics.clkDiv < 2 ^ 31 → ∀ cycle,
    (∀ value ∈ integers (inputs cycle) (registersAt inputs cycle), Fits value) ∧
      (2 ≤ generics.word ∨ 2 * generics.clkDiv < 2 ^ 31 →
        ∀ value ∈ secondDividerIntegers (inputs cycle) (registersAt inputs cycle), Fits value)

theorem bitsCounter_range (positive : 1 ≤ generics.clkDiv)
    (delays : ∀ cycle, 0 ≤ (inputs cycle).delayConstant ∧ (inputs cycle).delayConstant ≤ most)
    (cycle : Nat) : 0 ≤ (registersAt inputs cycle).bitsCounterReg ∧
      (registersAt inputs cycle).bitsCounterReg ≤ 2 * generics.word + 1 := by
  have bounded := countersBounded_run positive delays cycle
  refine ⟨bounded.nonneg.2, ?_⟩
  by_cases inComm : (registersAt inputs cycle).stateReg = .communicationState
  · have atMost := (bounded.running inComm).1
    omega
  · by_cases inStore : (registersAt inputs cycle).stateReg = .storeRxState
    · exact (bounded.stored inStore).1
    · have none := (bounded.cleared inComm inStore).1
      omega

theorem delayCounter_range (positive : 1 ≤ generics.clkDiv)
    (delays : ∀ cycle, 0 ≤ (inputs cycle).delayConstant ∧ (inputs cycle).delayConstant ≤ most)
    (cycle : Nat) : 0 ≤ (registersAt inputs cycle).delayCounterReg ∧
      (registersAt inputs cycle).delayCounterReg ≤ frameBound generics most := by
  have bounded := countersBounded_run positive delays cycle
  refine ⟨bounded.nonneg.1, ?_⟩
  by_cases inComm : (registersAt inputs cycle).stateReg = .communicationState
  · exact Int.le_of_lt (bounded.running inComm).2
  · by_cases inStore : (registersAt inputs cycle).stateReg = .storeRxState
    · exact (bounded.stored inStore).2
    · have none := (bounded.cleared inComm inStore).2
      have mostNonneg := Int.le_trans (delays 0).1 (delays 0).2
      have roomy : most + 3 < frameBound generics most := frameBound_gt positive
      omega

theorem ranges_le_frameBound (positive : 1 ≤ generics.clkDiv) (nonneg : 0 ≤ most) :
    generics.clkDiv ≤ frameBound generics most ∧
      2 * generics.word + 1 ≤ frameBound generics most ∧
      (2 ≤ generics.word → 2 * generics.clkDiv ≤ frameBound generics most) := by
  have wordPos := generics.wordPos
  unfold frameBound
  refine ⟨?_, ?_, ?_⟩
  · have product := Int.mul_le_mul_of_nonneg_right
      (by omega : 1 ≤ 2 * (generics.word : Int) - 1) (by omega : 0 ≤ generics.clkDiv)
    omega
  · have product := Int.mul_le_mul_of_nonneg_left positive
      (by omega : 0 ≤ 2 * (generics.word : Int) - 1)
    omega
  · intro twoBits
    have product := Int.mul_le_mul_of_nonneg_right
      (by omega : 2 ≤ 2 * (generics.word : Int) - 1) (by omega : 0 ≤ generics.clkDiv)
    omega

theorem integers_fit (positive : 1 ≤ generics.clkDiv) {input : Inputs generics}
    {registers : Registers generics} (bounded : CountersBounded most registers)
    (range : 0 ≤ input.delayConstant ∧ input.delayConstant ≤ most)
    (bits : 0 ≤ registers.bitsCounterReg ∧ registers.bitsCounterReg ≤ 2 * generics.word + 1)
    (delay : 0 ≤ registers.delayCounterReg ∧
      registers.delayCounterReg ≤ frameBound generics most)
    (small : frameBound generics most < 2 ^ 31) :
    ∀ value ∈ integers input registers, Fits value := by
  obtain ⟨divRange, bitsRange, _div2Range⟩ :=
    ranges_le_frameBound positive (Int.le_trans range.1 range.2)
  have roomy : most + 3 < frameBound generics most := frameBound_gt positive
  have div := bounded.div
  have shifted : shift generics = -generics.clkDiv ∨ shift generics = 0 := by
    unfold shift
    split
    next => exact Or.inl rfl
    next => exact Or.inr rfl
  intro value member
  simp only [integers, List.mem_append, List.mem_cons, List.not_mem_nil, or_false, mem_evaluated,
    startDelay_eq, Bool.and_eq_true, decide_eq_true_eq] at member
  unfold Fits
  rcases member with ((signal | ⟨inComm, counted⟩) | ⟨⟨inComm, _starts⟩, rfl⟩) | ⟨_isOpen, divided⟩
  · rcases signal with rfl | rfl | rfl | rfl | rfl | rfl <;> omega
  · have running := (bounded.running inComm).2
    rcases counted with rfl | rfl <;> omega
  · have running := (bounded.running inComm).1
    omega
  · rcases divided with rfl | rfl <;> omega

theorem secondDividerIntegers_fit {input : Inputs generics} {registers : Registers generics}
    (bounded : CountersBounded most registers) (small : 2 * generics.clkDiv < 2 ^ 31) :
    ∀ value ∈ secondDividerIntegers input registers, Fits value := by
  have div2 := bounded.div2
  intro value member
  simp only [secondDividerIntegers, List.mem_append, List.mem_cons, List.not_mem_nil, or_false,
    mem_evaluated] at member
  unfold Fits
  rcases member with rfl | ⟨_isOpen, rfl | rfl | rfl⟩ <;> omega

theorem run_bounded (positive : 1 ≤ generics.clkDiv) (inputs : Nat → Inputs generics) (most : Int)
    (delays : ∀ cycle, 0 ≤ (inputs cycle).delayConstant ∧ (inputs cycle).delayConstant ≤ most) :
    BoundedRun inputs most := by
  have bounded := countersBounded_run positive delays
  have bits := bitsCounter_range positive delays
  have delay := delayCounter_range positive delays
  have mostNonneg := Int.le_trans (delays 0).1 (delays 0).2
  refine
    { leaves := fun first begins => exists_leavesAfter positive begins delays
      div := fun cycle => (bounded cycle).div
      div2 := fun cycle => by
        rw [Int.mul_comm]
        exact (bounded cycle).div2
      bits := bits
      delay := delay
      fits := fun small cycle => ⟨?_, fun covered => ?_⟩ }
  · exact integers_fit positive (bounded cycle) (delays cycle) (bits cycle) (delay cycle) small
  · have range : 2 * generics.clkDiv < 2 ^ 31 := by
      rcases covered with twoBits | inside
      · obtain ⟨_divRange, _bitsRange, div2Range⟩ := ranges_le_frameBound positive mostNonneg
        exact Int.lt_of_le_of_lt (div2Range twoBits) small
      · exact inside
    exact secondDividerIntegers_fit (bounded cycle) range

def varyingDelay (cycle : Nat) : Inputs { clkDiv := 2, word := 1, wordPos := Nat.one_pos } :=
  { reset := false
    start := true
    dataTxIn := 1
    delayConstant := (cycle % 5 : Nat)
    spiMisoIn := true }

theorem run_bounded_varying : BoundedRun varyingDelay 4 :=
  run_bounded (by decide) varyingDelay 4 (fun cycle => by
    change 0 ≤ ((cycle % 5 : Nat) : Int) ∧ ((cycle % 5 : Nat) : Int) ≤ 4
    omega)

/-- A quarter of the integers as the divider range, with one bit a frame. -/
def wideRange : Generics := { clkDiv := 2 ^ 30, word := 1, wordPos := Nat.one_pos }

/-- The gate of the second divider is open from power-on, and in the first period its
limit is out of range. -/
theorem div2_overflows :
    ¬∀ (generics : Generics) (inputs : Nat → Inputs generics) (most : Int),
      1 ≤ generics.clkDiv →
      (∀ cycle, 0 ≤ (inputs cycle).delayConstant ∧ (inputs cycle).delayConstant ≤ most) →
      most + 3 + (2 * generics.word - 1) * generics.clkDiv < 2 ^ 31 →
      ∀ cycle, ∀ value ∈ secondDividerIntegers (inputs cycle) (registersAt inputs cycle),
        Fits value := by
  intro claimed
  have fits := claimed wideRange
    (steadyInputs wideRange (fun _cycle => false) 0 0 (fun _cycle => false)) 0 (by decide)
    (fun _cycle => ⟨Int.le_refl 0, Int.le_refl 0⟩) (by decide) 0 (2 ^ 30 * 2) (by decide)
  exact absurd fits.2 (by decide)

end SpiFpga.Master
