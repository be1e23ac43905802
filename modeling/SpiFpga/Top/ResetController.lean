/-
The reset controller of the processor system, `altera_reset_controller` as the
system instantiates it.

The board reset goes to the SPI modules as it is.  The processor and its ports
get it through this controller, which passes it on some periods later and for a
least time, and announces it to the processor one period ahead.  Its registers
are chains, so its two outputs are functions of the last periods of the board
reset, whatever the registers held at power-on.
-/

import SpiFpga.Clocked.ShiftRegister

namespace SpiFpga.Top

open Clocked

/-- `{bit, chain[width:1]}`. -/
def shiftIn {width : Nat} (bit : Bool) (chain : BitVec (width + 1)) : BitVec (width + 1) :=
  BitVec.cons bit (chain.extractLsb' 1 width)

theorem shiftIn_getLsbD {width : Nat} (bit : Bool) (chain : BitVec (width + 1)) (place : Nat) :
    (shiftIn bit chain).getLsbD place =
      if place = width then bit else chain.getLsbD (place + 1) := by
  rw [shiftIn, BitVec.getLsbD_cons]
  by_cases top : place = width
  · rw [if_pos top, if_pos top]
  · rw [if_neg top, if_neg top, BitVec.getLsbD_extractLsb', Nat.add_comm 1 place]
    by_cases inside : place < width
    · rw [decide_eq_true inside, Bool.true_and]
    · rw [decide_eq_false inside, Bool.false_and]
      exact (BitVec.getLsbD_of_ge chain (place + 1) (by omega)).symm

/-- The registers: both synchronizers, the metastability chain, the assertion chain
and the two output registers. -/
structure ResetController where
  syncChain : BitVec 2
  resetOutPre : Bool
  reqChain : BitVec 2
  resetReqPre : Bool
  intChain : BitVec 5
  syncRstChain : BitVec 4
  syncRst : Bool
  earlyRst : Bool
  deriving DecidableEq

namespace ResetController

/-- `alt_rst_sync_uq1` is set asynchronously; every other register has a clock only. -/
def settle (resetIn : Bool) (controller : ResetController) : ResetController :=
  if resetIn then { controller with syncChain := BitVec.allOnes 2, resetOutPre := true }
  else controller

/-- One edge of the clock. No reset request is connected. -/
def next (controller : ResetController) : ResetController :=
  { syncChain := shiftIn false controller.syncChain
    resetOutPre := controller.syncChain.getLsbD 0
    reqChain := shiftIn false controller.reqChain
    resetReqPre := controller.reqChain.getLsbD 0
    intChain := controller.intChain.shiftConcat controller.resetOutPre
    syncRstChain :=
      if controller.intChain.getLsbD 2 then BitVec.allOnes 4
      else shiftIn false controller.syncRstChain
    syncRst :=
      match controller.intChain.getLsbD 4, controller.syncRstChain.getLsbD 1,
          controller.syncRst with
      | false, false, false => false
      | false, false, true => false
      | false, true, false => false
      | false, true, true => true
      | true, _, _ => true
    earlyRst :=
      match controller.syncRstChain.getLsbD 1,
          controller.syncRstChain.getLsbD 2 || controller.resetReqPre with
      | false, false => false
      | false, true => true
      | true, false => false
      | true, true => true }

end ResetController

def controllerAt (initial : ResetController) (resetIn : Nat → Bool) : Nat → ResetController
  | 0 => initial.settle (resetIn 0)
  | cycle + 1 =>
      (((controllerAt initial resetIn cycle).next).settle (resetIn cycle)).settle
        (resetIn (cycle + 1))

def resetOut (initial : ResetController) (resetIn : Nat → Bool) (cycle : Nat) : Bool :=
  (controllerAt initial resetIn cycle).syncRst

def resetReq (initial : ResetController) (resetIn : Nat → Bool) (cycle : Nat) : Bool :=
  (controllerAt initial resetIn cycle).earlyRst

/-! ### One edge, register by register -/

section Edge

variable (initial : ResetController) (resetIn : Nat → Bool) (cycle : Nat)

theorem settle_syncChain (controller : ResetController) (level : Bool) {place : Nat}
    (inChain : place < 2) :
    (controller.settle level).syncChain.getLsbD place =
      (level || controller.syncChain.getLsbD place) := by
  cases level with
  | false => rfl
  | true => exact (BitVec.getLsbD_allOnes).trans (decide_eq_true inChain)

theorem settle_resetOutPre (controller : ResetController) (level : Bool) :
    (controller.settle level).resetOutPre = (level || controller.resetOutPre) := by
  cases level <;> rfl

@[simp] theorem settle_reqChain (controller : ResetController) (level : Bool) :
    (controller.settle level).reqChain = controller.reqChain := by
  cases level <;> rfl

@[simp] theorem settle_resetReqPre (controller : ResetController) (level : Bool) :
    (controller.settle level).resetReqPre = controller.resetReqPre := by
  cases level <;> rfl

@[simp] theorem settle_intChain (controller : ResetController) (level : Bool) :
    (controller.settle level).intChain = controller.intChain := by
  cases level <;> rfl

@[simp] theorem settle_syncRstChain (controller : ResetController) (level : Bool) :
    (controller.settle level).syncRstChain = controller.syncRstChain := by
  cases level <;> rfl

@[simp] theorem settle_syncRst (controller : ResetController) (level : Bool) :
    (controller.settle level).syncRst = controller.syncRst := by
  cases level <;> rfl

@[simp] theorem settle_earlyRst (controller : ResetController) (level : Bool) :
    (controller.settle level).earlyRst = controller.earlyRst := by
  cases level <;> rfl

theorem resetOutPre_succ :
    (controllerAt initial resetIn (cycle + 1)).resetOutPre =
      (resetIn (cycle + 1) ||
        (resetIn cycle || (controllerAt initial resetIn cycle).syncChain.getLsbD 0)) := by
  rw [controllerAt, settle_resetOutPre, settle_resetOutPre]
  rfl

theorem syncChain_low_succ :
    (controllerAt initial resetIn (cycle + 1)).syncChain.getLsbD 0 =
      (resetIn (cycle + 1) ||
        (resetIn cycle || (controllerAt initial resetIn cycle).syncChain.getLsbD 1)) := by
  rw [controllerAt, settle_syncChain _ _ Nat.two_pos, settle_syncChain _ _ Nat.two_pos,
    ResetController.next, shiftIn_getLsbD, if_neg Nat.zero_ne_one]

theorem syncChain_high_succ :
    (controllerAt initial resetIn (cycle + 1)).syncChain.getLsbD 1 =
      (resetIn (cycle + 1) || resetIn cycle) := by
  rw [controllerAt, settle_syncChain _ _ Nat.one_lt_two, settle_syncChain _ _ Nat.one_lt_two,
    ResetController.next, shiftIn_getLsbD, if_pos rfl, Bool.or_false]

theorem intChain_succ (place : Nat) (inChain : place < 4) :
    (controllerAt initial resetIn (cycle + 1)).intChain.getLsbD (place + 1) =
      (controllerAt initial resetIn cycle).intChain.getLsbD place := by
  rw [controllerAt, settle_intChain, settle_intChain, ResetController.next,
    BitVec.getLsbD_shiftConcat, if_neg (Nat.succ_ne_zero place),
    decide_eq_true (Nat.succ_lt_succ inChain), Bool.true_and, Nat.add_sub_cancel]

theorem intChain_low_succ :
    (controllerAt initial resetIn (cycle + 1)).intChain.getLsbD 0 =
      (controllerAt initial resetIn cycle).resetOutPre := by
  rw [controllerAt, settle_intChain, settle_intChain, ResetController.next,
    BitVec.getLsbD_shiftConcat, if_pos rfl]
  rfl

theorem syncRstChain_succ (place : Nat) (inChain : place < 3) :
    (controllerAt initial resetIn (cycle + 1)).syncRstChain.getLsbD place =
      ((controllerAt initial resetIn cycle).intChain.getLsbD 2 ||
        (controllerAt initial resetIn cycle).syncRstChain.getLsbD (place + 1)) := by
  rw [controllerAt, settle_syncRstChain, settle_syncRstChain, ResetController.next]
  cases (controllerAt initial resetIn cycle).intChain.getLsbD 2 with
  | true => exact (BitVec.getLsbD_allOnes).trans (decide_eq_true (Nat.lt_succ_of_lt inChain))
  | false =>
      rw [if_neg Bool.false_ne_true, shiftIn_getLsbD, if_neg (Nat.ne_of_lt inChain),
        Bool.false_or]

theorem syncRstChain_top_succ :
    (controllerAt initial resetIn (cycle + 1)).syncRstChain.getLsbD 3 =
      (controllerAt initial resetIn cycle).intChain.getLsbD 2 := by
  rw [controllerAt, settle_syncRstChain, settle_syncRstChain, ResetController.next]
  cases (controllerAt initial resetIn cycle).intChain.getLsbD 2 with
  | true => exact (BitVec.getLsbD_allOnes).trans (decide_eq_true (Nat.lt_succ_self 3))
  | false => rw [if_neg Bool.false_ne_true, shiftIn_getLsbD, if_pos rfl]

theorem resetOut_succ :
    resetOut initial resetIn (cycle + 1) =
      ((controllerAt initial resetIn cycle).intChain.getLsbD 4 ||
        ((controllerAt initial resetIn cycle).syncRstChain.getLsbD 1 &&
          resetOut initial resetIn cycle)) := by
  rw [resetOut, resetOut, controllerAt, settle_syncRst, settle_syncRst, ResetController.next]
  cases (controllerAt initial resetIn cycle).intChain.getLsbD 4 <;>
    cases (controllerAt initial resetIn cycle).syncRstChain.getLsbD 1 <;>
    cases (controllerAt initial resetIn cycle).syncRst <;> rfl

theorem resetReq_succ :
    resetReq initial resetIn (cycle + 1) =
      ((controllerAt initial resetIn cycle).syncRstChain.getLsbD 2 ||
        (controllerAt initial resetIn cycle).resetReqPre) := by
  rw [resetReq, controllerAt, settle_earlyRst, settle_earlyRst, ResetController.next]
  cases (controllerAt initial resetIn cycle).syncRstChain.getLsbD 1 <;>
    cases ((controllerAt initial resetIn cycle).syncRstChain.getLsbD 2 ||
      (controllerAt initial resetIn cycle).resetReqPre) <;> rfl

/-- No reset request comes in, so what the synchronizer held at power-on leaves it. -/
theorem resetReqPre_low :
    (controllerAt initial resetIn (cycle + 3)).resetReqPre = false := by
  simp only [controllerAt, settle_resetReqPre, settle_reqChain, ResetController.next,
    shiftIn_getLsbD, Nat.zero_ne_one, if_false, if_true]

end Edge

/-! ### The last periods -/

section History

variable (initial : ResetController) (resetIn : Nat → Bool) (cycle : Nat)

theorem resetOutPre_eq :
    (controllerAt initial resetIn (cycle + 3)).resetOutPre =
      (resetIn cycle || resetIn (cycle + 1) || resetIn (cycle + 2) || resetIn (cycle + 3)) := by
  rw [resetOutPre_succ, syncChain_low_succ, syncChain_high_succ]
  cases resetIn (cycle + 3) <;> cases resetIn (cycle + 2) <;> cases resetIn (cycle + 1) <;>
    cases resetIn cycle <;> rfl

theorem intChain_eq (place : Nat) (inChain : place < 5) :
    (controllerAt initial resetIn (cycle + place + 1)).intChain.getLsbD place =
      (controllerAt initial resetIn cycle).resetOutPre := by
  induction place with
  | zero => exact intChain_low_succ initial resetIn cycle
  | succ place ih =>
      rw [← Nat.add_assoc, intChain_succ _ _ _ place (Nat.lt_of_succ_lt_succ inChain)]
      exact ih (Nat.lt_of_succ_lt inChain)

theorem syncRstChain_two_eq :
    (controllerAt initial resetIn (cycle + 5)).syncRstChain.getLsbD 2 =
      ((controllerAt initial resetIn (cycle + 1)).resetOutPre ||
        (controllerAt initial resetIn cycle).resetOutPre) := by
  have latest : (controllerAt initial resetIn (cycle + 4)).intChain.getLsbD 2 =
      (controllerAt initial resetIn (cycle + 1)).resetOutPre :=
    intChain_eq initial resetIn (cycle + 1) 2 (by decide)
  have oldest : (controllerAt initial resetIn (cycle + 3)).intChain.getLsbD 2 =
      (controllerAt initial resetIn cycle).resetOutPre :=
    intChain_eq initial resetIn cycle 2 (by decide)
  rw [syncRstChain_succ _ _ _ 2 (by decide), syncRstChain_top_succ, latest, oldest]

theorem syncRstChain_one_eq :
    (controllerAt initial resetIn (cycle + 6)).syncRstChain.getLsbD 1 =
      ((controllerAt initial resetIn (cycle + 2)).resetOutPre ||
        ((controllerAt initial resetIn (cycle + 1)).resetOutPre ||
          (controllerAt initial resetIn cycle).resetOutPre)) := by
  have latest : (controllerAt initial resetIn (cycle + 5)).intChain.getLsbD 2 =
      (controllerAt initial resetIn (cycle + 2)).resetOutPre :=
    intChain_eq initial resetIn (cycle + 2) 2 (by decide)
  rw [syncRstChain_succ _ _ _ 1 (by decide), latest]
  exact congrArg _ (syncRstChain_two_eq initial resetIn cycle)

/-- An input reset comes out six periods later, and once more. -/
theorem resetOut_of_pre (high : (controllerAt initial resetIn cycle).resetOutPre = true) :
    resetOut initial resetIn (cycle + 6) = true ∧
      resetOut initial resetIn (cycle + 7) = true := by
  have passed : resetOut initial resetIn (cycle + 6) = true := by
    have arrives : (controllerAt initial resetIn (cycle + 5)).intChain.getLsbD 4 =
        (controllerAt initial resetIn cycle).resetOutPre :=
      intChain_eq initial resetIn cycle 4 (by decide)
    rw [resetOut_succ, arrives, high, Bool.true_or]
  refine ⟨passed, ?_⟩
  rw [resetOut_succ, passed, syncRstChain_one_eq, high]
  simp

theorem resetOut_of_resetIn (high : resetIn cycle = true) {later : Nat}
    (lower : cycle + 6 ≤ later) (upper : later ≤ cycle + 10) :
    resetOut initial resetIn later = true := by
  have atOnce : (controllerAt initial resetIn cycle).resetOutPre = true := by
    cases cycle with
    | zero => rw [controllerAt, settle_resetOutPre, high, Bool.true_or]
    | succ cycle => rw [resetOutPre_succ, high, Bool.true_or]
  have held : (controllerAt initial resetIn (cycle + 3)).resetOutPre = true := by
    rw [resetOutPre_eq, high, Bool.true_or, Bool.true_or, Bool.true_or]
  have between : (controllerAt initial resetIn (cycle + 1)).resetOutPre = true := by
    rw [resetOutPre_succ, high, Bool.true_or, Bool.or_true]
  obtain ⟨first, second⟩ := resetOut_of_pre initial resetIn cycle atOnce
  obtain ⟨_second, third⟩ := resetOut_of_pre initial resetIn (cycle + 1) between
  obtain ⟨fourth, fifth⟩ := resetOut_of_pre initial resetIn (cycle + 3) held
  obtain rfl | rfl | rfl | rfl | rfl : later = cycle + 6 ∨ later = cycle + 7 ∨
      later = cycle + 8 ∨ later = cycle + 9 ∨ later = cycle + 10 := by omega
  · exact first
  · exact second
  · exact third
  · exact fourth
  · exact fifth

/-- Between its bounds the output repeats the synchronized reset, with gaps of two
periods filled in. -/
theorem resetOut_eq_pre :
    resetOut initial resetIn (cycle + 8) =
      ((controllerAt initial resetIn (cycle + 2)).resetOutPre ||
        (controllerAt initial resetIn (cycle + 1)).resetOutPre ||
        ((controllerAt initial resetIn cycle).resetOutPre &&
          (controllerAt initial resetIn (cycle + 3)).resetOutPre)) := by
  have latest : (controllerAt initial resetIn (cycle + 7)).intChain.getLsbD 4 =
      (controllerAt initial resetIn (cycle + 2)).resetOutPre :=
    intChain_eq initial resetIn (cycle + 2) 4 (by decide)
  have middle : (controllerAt initial resetIn (cycle + 6)).intChain.getLsbD 4 =
      (controllerAt initial resetIn (cycle + 1)).resetOutPre :=
    intChain_eq initial resetIn (cycle + 1) 4 (by decide)
  have held : (controllerAt initial resetIn (cycle + 7)).syncRstChain.getLsbD 1 =
      ((controllerAt initial resetIn (cycle + 3)).resetOutPre ||
        ((controllerAt initial resetIn (cycle + 2)).resetOutPre ||
          (controllerAt initial resetIn (cycle + 1)).resetOutPre)) :=
    syncRstChain_one_eq initial resetIn (cycle + 1)
  rw [resetOut_succ, latest, held, resetOut_succ, middle, syncRstChain_one_eq]
  have oldest := resetOut_of_pre initial resetIn cycle
  revert oldest
  cases (controllerAt initial resetIn cycle).resetOutPre with
  | true =>
      intro oldest
      rw [(oldest rfl).1]
      cases (controllerAt initial resetIn (cycle + 1)).resetOutPre <;>
        cases (controllerAt initial resetIn (cycle + 2)).resetOutPre <;>
        cases (controllerAt initial resetIn (cycle + 3)).resetOutPre <;> rfl
  | false =>
      intro _oldest
      cases (controllerAt initial resetIn (cycle + 1)).resetOutPre <;>
        cases (controllerAt initial resetIn (cycle + 2)).resetOutPre <;> simp

/-! ### The outputs as functions of the board reset -/

theorem resetOut_eq :
    resetOut initial resetIn (cycle + 11) =
      ((resetIn (cycle + 1) || resetIn (cycle + 2) || resetIn (cycle + 3) ||
          resetIn (cycle + 4) || resetIn (cycle + 5)) ||
        (resetIn cycle && resetIn (cycle + 6))) := by
  have synchronized : resetOut initial resetIn (cycle + 11) =
      ((controllerAt initial resetIn (cycle + 2 + 3)).resetOutPre ||
        (controllerAt initial resetIn (cycle + 1 + 3)).resetOutPre ||
        ((controllerAt initial resetIn (cycle + 3)).resetOutPre &&
          (controllerAt initial resetIn (cycle + 3 + 3)).resetOutPre)) :=
    resetOut_eq_pre initial resetIn (cycle + 3)
  rw [synchronized, resetOutPre_eq _ _ (cycle + 2), resetOutPre_eq _ _ (cycle + 1),
    resetOutPre_eq _ _ cycle, resetOutPre_eq _ _ (cycle + 3)]
  simp only [Nat.add_assoc, Nat.reduceAdd]
  cases resetIn cycle <;> cases resetIn (cycle + 1) <;> cases resetIn (cycle + 2) <;>
    cases resetIn (cycle + 3) <;> cases resetIn (cycle + 4) <;> cases resetIn (cycle + 5) <;>
    cases resetIn (cycle + 6) <;> rfl

theorem resetReq_eq :
    resetReq initial resetIn (cycle + 11) =
      (resetIn (cycle + 2) || resetIn (cycle + 3) || resetIn (cycle + 4) ||
        resetIn (cycle + 5) || resetIn (cycle + 6)) := by
  have announced : (controllerAt initial resetIn (cycle + 10)).syncRstChain.getLsbD 2 =
      ((controllerAt initial resetIn (cycle + 3 + 3)).resetOutPre ||
        (controllerAt initial resetIn (cycle + 2 + 3)).resetOutPre) :=
    syncRstChain_two_eq initial resetIn (cycle + 5)
  rw [resetReq_succ, announced, resetReqPre_low _ _ (cycle + 7), resetOutPre_eq _ _ (cycle + 3),
    resetOutPre_eq _ _ (cycle + 2)]
  simp only [Nat.add_assoc, Nat.reduceAdd]
  cases resetIn (cycle + 2) <;> cases resetIn (cycle + 3) <;> cases resetIn (cycle + 4) <;>
    cases resetIn (cycle + 5) <;> cases resetIn (cycle + 6) <;> rfl

end History

theorem exists_of_five (level : Nat → Bool) (first : Nat) :
    (level first || level (first + 1) || level (first + 2) || level (first + 3) ||
        level (first + 4)) = true ↔
      ∃ cycle, first ≤ cycle ∧ cycle ≤ first + 4 ∧ level cycle = true := by
  simp only [Bool.or_eq_true]
  constructor
  · rintro ((((high | high) | high) | high) | high)
    · exact ⟨first, by omega, by omega, high⟩
    · exact ⟨first + 1, by omega, by omega, high⟩
    · exact ⟨first + 2, by omega, by omega, high⟩
    · exact ⟨first + 3, by omega, by omega, high⟩
    · exact ⟨first + 4, by omega, by omega, high⟩
  · rintro ⟨cycle, lower, upper, high⟩
    obtain rfl | rfl | rfl | rfl | rfl : cycle = first ∨ cycle = first + 1 ∨
        cycle = first + 2 ∨ cycle = first + 3 ∨ cycle = first + 4 := by omega
    all_goals simp [high]

theorem resetOut_iff (initial : ResetController) (resetIn : Nat → Bool) (cycle : Nat) :
    resetOut initial resetIn (cycle + 11) = true ↔
      (∃ earlier, cycle + 1 ≤ earlier ∧ earlier ≤ cycle + 5 ∧ resetIn earlier = true) ∨
        resetIn cycle = true ∧ resetIn (cycle + 6) = true := by
  rw [resetOut_eq, Bool.or_eq_true, Bool.and_eq_true, exists_of_five resetIn (cycle + 1)]

/-- Eleven periods after it was last pressed nothing of a reset is left. -/
theorem resetOut_low (initial : ResetController) (resetIn : Nat → Bool) {first cycle : Nat}
    (released : ∀ now, first < now → now + 5 ≤ cycle → resetIn now = false)
    (late : first + 11 ≤ cycle) : resetOut initial resetIn cycle = false := by
  obtain ⟨before, rfl⟩ : ∃ before, cycle = before + 11 := ⟨cycle - 11, by omega⟩
  by_contra high
  rcases (resetOut_iff initial resetIn before).mp (Bool.eq_true_of_not_eq_false high) with
    ⟨earlier, lower, upper, pressed⟩ | ⟨_old, pressed⟩
  · rw [released earlier (by omega) (by omega)] at pressed
    cases pressed
  · rw [released (before + 6) (by omega) (by omega)] at pressed
    cases pressed

/-- The processor is reset from the sixth to the tenth period after each period of a
board reset, and between two that are six apart; the request comes a period ahead of
that and goes a period ahead. -/
theorem reset_outputs (initial : ResetController) (resetIn : Nat → Bool) (cycle : Nat) :
    (resetOut initial resetIn (cycle + 11) = true ↔
      (∃ earlier, cycle + 1 ≤ earlier ∧ earlier ≤ cycle + 5 ∧ resetIn earlier = true) ∨
        resetIn cycle = true ∧ resetIn (cycle + 6) = true) ∧
      (resetReq initial resetIn (cycle + 11) = true ↔
        ∃ earlier, cycle + 2 ≤ earlier ∧ earlier ≤ cycle + 6 ∧ resetIn earlier = true) := by
  refine ⟨resetOut_iff initial resetIn cycle, ?_⟩
  rw [resetReq_eq, exists_of_five resetIn (cycle + 2)]

/-- The `initial` blocks of the controller. -/
def powerOn : ResetController :=
  { syncChain := 0
    resetOutPre := false
    reqChain := 0
    resetReqPre := false
    intChain := 15
    syncRstChain := 15
    syncRst := false
    earlyRst := false }

end SpiFpga.Top
