/-
The board reset in front of the whole system.

The modules are cleared by the board reset at once, the ports of the processor
only by what the reset controller makes of it, six periods later.  A reset of six
periods or more clears both, and the system then starts as from power-on.  A
shorter one leaves the ports as they are for a while: a start bit that is set finds
its module in idle again and begins a frame that no write has asked for.
-/

import SpiFpga.Top.Client
import SpiFpga.Top.ResetController

namespace SpiFpga.Top

open Clocked Master

structure BoardInputs where
  resetN : Bool
  operation : Option BusOperation
  spiDspMisoIn : Fin 6 → Bool

section Model

variable (initial : ResetController) (inputs : Nat → BoardInputs)

/-- `reset_reset_n_ports_inv`. -/
def boardReset (cycle : Nat) : Bool := !(inputs cycle).resetN

/-- `rst_controller_reset_out_reset`, the reset of the ports and the processor. -/
def systemReset (cycle : Nat) : Bool := resetOut initial (boardReset inputs) cycle

def onBoard (cycle : Nat) : SystemInputs :=
  { resetN := (inputs cycle).resetN
    portResetN := !systemReset initial inputs cycle
    operation := (inputs cycle).operation
    spiDspMisoIn := (inputs cycle).spiDspMisoIn }

def boardPorts (cycle : Nat) : PortRegisters := portsAt (onBoard initial inputs) cycle

abbrev boardLines (index : Fin 6) : Nat → Inputs moduleGenerics :=
  lines (onBoard initial inputs) index

end Model

variable {initial : ResetController} {inputs : Nat → BoardInputs} {first last cycle : Nat}
  {index : Fin 6}

/-! ### The ports -/

theorem boardPorts_of_reset (high : systemReset initial inputs cycle = true) :
    boardPorts initial inputs cycle = outputPorts.resetState := by
  have cleared : outputPorts.reset (onBoard initial inputs cycle) = true :=
    (Bool.not_not _).trans high
  exact Machine.run_of_reset cycle cleared

theorem boardPorts_succ_of_reset (high : systemReset initial inputs cycle = true) :
    boardPorts initial inputs (cycle + 1) = outputPorts.resetState := by
  have cleared : outputPorts.reset (onBoard initial inputs cycle) = true :=
    (Bool.not_not _).trans high
  exact Machine.run_succ_of_reset cycle cleared

theorem boardPorts_succ (low : systemReset initial inputs cycle = false)
    (lowAfter : systemReset initial inputs (cycle + 1) = false) :
    boardPorts initial inputs (cycle + 1) =
      (boardPorts initial inputs cycle).next (inputs cycle).operation := by
  have clocked : outputPorts.reset (onBoard initial inputs cycle) = false :=
    (Bool.not_not _).trans low
  have clockedAfter : outputPorts.reset (onBoard initial inputs (cycle + 1)) = false :=
    (Bool.not_not _).trans lowAfter
  exact Machine.run_succ cycle clocked clockedAfter

theorem exists_start_since (clear : (boardPorts initial inputs first).startSpi = 0)
    (ordered : first ≤ last)
    (high : (boardPorts initial inputs last).startSpi.getLsbD index = true) :
    ∃ write mask, first ≤ write ∧ write < last ∧
      (inputs write).operation = some (.writeStart mask) ∧ mask.getLsbD index = true := by
  have noBit : (0 : BitVec 6).getLsbD index ≠ true := by
    have low : (0 : BitVec 6).getLsbD index = false := BitVec.getLsbD_zero
    rw [low]
    exact Bool.false_ne_true
  induction last, ordered using Nat.le_induction with
  | base =>
      rw [clear] at high
      exact absurd high noBit
  | succ last ordered ih =>
      cases low : systemReset initial inputs last with
      | true =>
          rw [boardPorts_succ_of_reset low] at high
          exact absurd high noBit
      | false =>
          cases lowAfter : systemReset initial inputs (last + 1) with
          | true =>
              rw [boardPorts_of_reset lowAfter] at high
              exact absurd high noBit
          | false =>
              rw [boardPorts_succ low lowAfter] at high
              have earlier (kept : (boardPorts initial inputs last).startSpi.getLsbD index = true) :
                  ∃ write mask, first ≤ write ∧ write < last + 1 ∧
                    (inputs write).operation = some (.writeStart mask) ∧
                    mask.getLsbD index = true := by
                obtain ⟨write, mask, lower, upper, written⟩ := ih kept
                exact ⟨write, mask, lower, Nat.lt_succ_of_lt upper, written⟩
              cases happens : (inputs last).operation with
              | none =>
                  rw [happens] at high
                  exact earlier high
              | some operation =>
                  rw [happens] at high
                  cases operation with
                  | writeStart mask =>
                      exact ⟨last, mask, ordered, Nat.lt_succ_self last, happens, high⟩
                  | writeDelay value => exact earlier high
                  | writeTx other value => exact earlier high
                  | readEnd => exact earlier high
                  | readRx other => exact earlier high

/-! ### Long resets -/

/-- The board reset is held for six periods. -/
def LongReset (inputs : Nat → BoardInputs) (first : Nat) : Prop :=
  ∀ cycle, first ≤ cycle → cycle ≤ first + 5 → boardReset inputs cycle = true

theorem LongReset.systemReset_high (long : LongReset inputs first) (lower : first + 6 ≤ cycle)
    (upper : cycle ≤ first + 15) : systemReset initial inputs cycle = true := by
  by_cases early : cycle ≤ first + 10
  · exact resetOut_of_resetIn _ _ first (long first (Nat.le_refl _) (Nat.le_add_right _ _)) lower
      early
  · exact resetOut_of_resetIn _ _ (first + 5)
      (long (first + 5) (Nat.le_add_right _ _) (Nat.le_refl _)) (by omega) upper

theorem systemReset_low (released : ∀ now, first < now → now + 5 ≤ cycle →
    boardReset inputs now = false) (late : first + 11 ≤ cycle) :
    systemReset initial inputs cycle = false :=
  resetOut_low initial (boardReset inputs) released late

/-- The system from its power-on, on a bus that is silent while the processor is in
reset. -/
def freshRun (inputs : Nat → BoardInputs) (start later : Nat) : SystemInputs :=
  { resetN := true
    portResetN := true
    operation := if later < 10 then none else (inputs (start + later)).operation
    spiDspMisoIn := (inputs (start + later)).spiDspMisoIn }

theorem LongReset.boardPorts_eq (initial : ResetController) (long : LongReset inputs first)
    (released : ∀ now, first + 5 < now → now ≤ last → boardReset inputs now = false)
    {later : Nat} (upTo : first + 6 + later ≤ last) :
    boardPorts initial inputs (first + 6 + later) =
      portsAt (freshRun inputs (first + 6)) later := by
  induction later with
  | zero => exact boardPorts_of_reset (long.systemReset_high (Nat.le_refl _) (by omega))
  | succ later ih =>
      have same := ih (by omega)
      rw [← Nat.add_assoc, portsAt_succ (fun _now => ⟨rfl, Or.inl rfl⟩)]
      by_cases early : later < 10
      · have high : systemReset initial inputs (first + 6 + later) = true :=
          long.systemReset_high (by omega) (by omega)
        have silent : (freshRun inputs (first + 6) later).operation = none := if_pos early
        rw [boardPorts_succ_of_reset high, silent, ← same, boardPorts_of_reset high]
        rfl
      · have low : ∀ now, first + 16 ≤ now → now ≤ last →
            systemReset initial inputs now = false := fun now late within =>
          systemReset_low (fun between after before => released between after (by omega)) late
        have acts : (freshRun inputs (first + 6) later).operation =
            (inputs (first + 6 + later)).operation := if_neg early
        rw [boardPorts_succ (low _ (by omega) (by omega)) (low _ (by omega) (by omega)), acts, same]

/-- After a long reset, and until the next one, the board runs as the system does
from power-on. -/
theorem board_fresh (initial : ResetController) (inputs : Nat → BoardInputs)
    (first last : Nat) (long : LongReset inputs first)
    (released : ∀ now, first + 5 < now → now ≤ last → boardReset inputs now = false)
    (index : Fin 6) (later : Nat) (upTo : first + 6 + later ≤ last) :
    boardPorts initial inputs (first + 6 + later) =
        portsAt (freshRun inputs (first + 6)) later ∧
      registersAt (boardLines initial inputs index) (first + 6 + later) =
        registersAt (lines (freshRun inputs (first + 6)) index) later := by
  refine ⟨long.boardPorts_eq initial released upTo, ?_⟩
  have pressed : (boardLines initial inputs index (first + 5)).reset = true :=
    long (first + 5) (Nat.le_add_right _ _) (Nat.le_refl _)
  have restarted : registersAt (boardLines initial inputs index) (first + 6) =
      resetRegisters moduleGenerics := registersAt_succ_of_reset pressed
  rw [registersAt, Machine.run_shift restarted]
  apply Machine.run_congr
  intro earlier before
  have ports : portsAt (onBoard initial inputs) (first + 6 + earlier) =
      portsAt (freshRun inputs (first + 6)) earlier :=
    long.boardPorts_eq initial released (by omega)
  have low : (inputs (first + 6 + earlier)).resetN = true :=
    (Bool.not_eq_false' _).mp (released _ (by omega) (by omega))
  simp only [boardLines, lines, moduleInputs, portMap, driven, ports, onBoard, rst, delaySpiInt,
    low, freshRun]

def pressedOnce (first length cycle : Nat) : BoardInputs :=
  { resetN := !decide (first ≤ cycle ∧ cycle < first + length)
    operation := if cycle = 20 then some (.writeStart 1) else none
    spiDspMisoIn := fun _index => false }

theorem boardReset_pressedOnce (first length cycle : Nat) :
    boardReset (pressedOnce first length) cycle =
      decide (first ≤ cycle ∧ cycle < first + length) :=
  Bool.not_not _

theorem board_fresh_pressedOnce :
    boardPorts powerOn (pressedOnce 0 6) (0 + 6 + 30) =
        portsAt (freshRun (pressedOnce 0 6) (0 + 6)) 30 ∧
      registersAt (boardLines powerOn (pressedOnce 0 6) module0) (0 + 6 + 30) =
        registersAt (lines (freshRun (pressedOnce 0 6) (0 + 6)) module0) 30 :=
  board_fresh powerOn (pressedOnce 0 6) 0 36
    (fun cycle lower upper =>
      (boardReset_pressedOnce 0 6 cycle).trans (decide_eq_true ⟨lower, by omega⟩))
    (fun now after _upTo =>
      (boardReset_pressedOnce 0 6 now).trans (decide_eq_false (by omega)))
    module0 30 (Nat.le_refl 36)

/-! ### Short resets -/

theorem boardPorts_kept (ordered : first ≤ last)
    (low : ∀ now, first ≤ now → now ≤ last → systemReset initial inputs now = false)
    (silent : ∀ now, first ≤ now → now < last → (inputs now).operation = none) :
    boardPorts initial inputs last = boardPorts initial inputs first := by
  induction last, ordered using Nat.le_induction with
  | base => rfl
  | succ last ordered ih =>
      rw [boardPorts_succ (low last ordered (Nat.le_succ last))
        (low (last + 1) (Nat.le_succ_of_le ordered) (Nat.le_refl _)),
        silent last ordered (Nat.lt_succ_self last)]
      exact ih (fun now lower upper => low now lower (Nat.le_succ_of_le upper))
        (fun now lower upper => silent now lower (Nat.lt_succ_of_lt upper))

theorem startLevel_onBoard :
    startLevel (boardLines initial inputs index) cycle =
      ((boardPorts initial inputs cycle).startSpi.getLsbD index &&
        !boardReset inputs cycle) := rfl

/-- A reset that is over within five periods begins a frame on each channel whose
start bit it finds set; a longer one does not. -/
theorem restart_frame_iff (initial : ResetController) (inputs : Nat → BoardInputs)
    (first length : Nat) (index : Fin 6) (positive : 0 < length)
    (pressed : ∀ now, first ≤ now → now < first + length → boardReset inputs now = true)
    (released : boardReset inputs (first + length) = false) (late : 11 ≤ first)
    (before : ∀ now, first ≤ now + 11 → now < first → boardReset inputs now = false)
    (silent : ∀ now, first ≤ now → now < first + length → (inputs now).operation = none)
    (started : (boardPorts initial inputs first).startSpi.getLsbD index = true) :
    Begins (boardLines initial inputs index) (first + length) ↔ length ≤ 5 := by
  constructor
  · intro begins
    by_contra longer
    have high : systemReset initial inputs (first + length) = true :=
      resetOut_of_resetIn _ _ (first + length - 6) (pressed _ (by omega) (by omega)) (by omega)
        (by omega)
    have level := begins.2
    rw [startLevel_onBoard, boardPorts_of_reset high] at level
    have low : (outputPorts.resetState.startSpi).getLsbD index = false := BitVec.getLsbD_zero
    rw [low] at level
    cases level
  · intro short
    have low : ∀ now, first ≤ now → now ≤ first + length →
        systemReset initial inputs now = false := by
      intro now lower upper
      obtain ⟨old, rfl⟩ : ∃ old, now = old + 11 := ⟨now - 11, by omega⟩
      by_contra high
      rcases (resetOut_iff initial (boardReset inputs) old).mp
        (Bool.eq_true_of_not_eq_false high) with ⟨earlier, after, upTo, was⟩ | ⟨was, _again⟩
      · rw [before earlier (by omega) (by omega)] at was
        cases was
      · rw [before old (by omega) (by omega)] at was
        cases was
    refine ⟨?_, ?_⟩
    · have cleared : (boardLines initial inputs index (first + length - 1)).reset = true :=
        pressed (first + length - 1) (by omega) (by omega)
      have position : first + length - 1 + 1 = first + length := by omega
      have reset := registersAt_succ_of_reset cleared
      rw [position] at reset
      exact congrArg Registers.stateReg reset
    · rw [startLevel_onBoard, released, boardPorts_kept (Nat.le_add_right _ _) low silent, started]
      rfl

theorem pressedOnce_started :
    (boardPorts powerOn (pressedOnce 40 3) 40).startSpi.getLsbD module0 = true := by
  have low : ∀ now, 20 ≤ now → now ≤ 40 → systemReset powerOn (pressedOnce 40 3) now = false :=
    fun now lower upTo => systemReset_low
      (fun between (_after : 0 < between) before =>
        (boardReset_pressedOnce 40 3 between).trans (decide_eq_false (by omega))) (by omega)
  have kept : boardPorts powerOn (pressedOnce 40 3) 40 = boardPorts powerOn (pressedOnce 40 3) 21 :=
    boardPorts_kept (by decide) (fun now lower upTo => low now (by omega) upTo)
      (fun now lower _upper => if_neg (by omega))
  rw [kept, boardPorts_succ (low 20 (by decide) (by decide)) (low 21 (by decide) (by decide))]
  rfl

theorem restart_frame_pressedOnce :
    Begins (boardLines powerOn (pressedOnce 40 3) module0) (40 + 3) ↔ 3 ≤ 5 :=
  restart_frame_iff powerOn (pressedOnce 40 3) 40 3 module0 (by decide)
    (fun now lower upper => (boardReset_pressedOnce 40 3 now).trans (decide_eq_true ⟨lower, upper⟩))
    ((boardReset_pressedOnce 40 3 43).trans (by decide)) (by decide)
    (fun now _lower upper => (boardReset_pressedOnce 40 3 now).trans (decide_eq_false (by omega)))
    (fun now lower _upper => if_neg (by omega)) pressedOnce_started

/-! ### Frames that were asked for -/

/-- Where every reset is long, a frame begins only on a start write that came after
the last reset. -/
theorem frames_asked_for (initial : ResetController) (inputs : Nat → BoardInputs)
    (long : ∀ release, boardReset inputs release = true →
      boardReset inputs (release + 1) = false →
      ∃ first, first + 5 = release ∧ LongReset inputs first)
    (index : Fin 6) (cycle : Nat) (begins : Begins (boardLines initial inputs index) cycle) :
    ∃ write mask, write < cycle ∧ (inputs write).operation = some (.writeStart mask) ∧
      mask.getLsbD index = true ∧
      ∀ between, write ≤ between → between ≤ cycle → boardReset inputs between = false := by
  have level := begins.2
  rw [startLevel_onBoard, Bool.and_eq_true, Bool.not_eq_true'] at level
  obtain ⟨high, low⟩ := level
  rcases exists_last_high (boardReset inputs) cycle with none | ⟨last, earlier, was, since⟩
  · have clear : (boardPorts initial inputs 0).startSpi = 0 := rfl
    obtain ⟨write, mask, _lower, upper, written, selected⟩ :=
      exists_start_since clear (Nat.zero_le cycle) high
    refine ⟨write, mask, upper, written, selected, ?_⟩
    intro between _lower upTo
    rcases Nat.lt_or_eq_of_le upTo with inside | same
    · exact none between inside
    · rw [same]
      exact low
  · have lowSince : ∀ between, last < between → between ≤ cycle →
        boardReset inputs between = false := by
      intro between lower upTo
      rcases Nat.lt_or_eq_of_le upTo with inside | same
      · exact since between lower inside
      · rw [same]
        exact low
    obtain ⟨first, rfl, pressed⟩ :=
      long last was (lowSince (last + 1) (Nat.lt_succ_self last) earlier)
    have clear : (boardPorts initial inputs (first + 6)).startSpi = 0 := by
      rw [boardPorts_of_reset (pressed.systemReset_high (Nat.le_refl _) (by omega))]
      rfl
    obtain ⟨write, mask, lower, upper, written, selected⟩ :=
      exists_start_since clear earlier high
    exact ⟨write, mask, upper, written, selected,
      fun between after upTo => lowSince between (by omega) upTo⟩

theorem pressedOnce_begins : Begins (boardLines powerOn (pressedOnce 0 6) module0) 21 := by
  have released : ∀ now, 6 ≤ now → boardReset (pressedOnce 0 6) now = false := fun now lower =>
    (boardReset_pressedOnce 0 6 now).trans (decide_eq_false (by omega))
  have unstarted : ∀ now, now ≤ 20 →
      (boardPorts powerOn (pressedOnce 0 6) now).startSpi.getLsbD module0 = false := by
    intro now upTo
    by_contra high
    have clear : (boardPorts powerOn (pressedOnce 0 6) 0).startSpi = 0 := rfl
    obtain ⟨write, mask, _lower, upper, written, _selected⟩ :=
      exists_start_since clear (Nat.zero_le now) (Bool.eq_true_of_not_eq_false high)
    have noOperation : (pressedOnce 0 6 write).operation = none := if_neg (by omega)
    cases noOperation.symm.trans written
  have low : ∀ now, 17 ≤ now → systemReset powerOn (pressedOnce 0 6) now = false := fun now lower =>
    systemReset_low (fun between (after : 5 < between) _before => released between after)
      (by omega)
  have atRelease : stateAt (boardLines powerOn (pressedOnce 0 6) module0) 6 = .idle :=
    congrArg Registers.stateReg (registersAt_succ_of_reset rfl)
  refine ⟨stateAt_idle_of_low atRelease (by decide) (fun now lower _upTo => released now lower)
    (fun now _lower upper => unstarted now (by omega)), ?_⟩
  rw [startLevel_onBoard, released 21 (by decide),
    boardPorts_succ (low 20 (by decide)) (low 21 (by decide))]
  rfl

theorem frames_asked_for_pressedOnce :
    ∃ write mask, write < 21 ∧
      (pressedOnce 0 6 write).operation = some (.writeStart mask) ∧
      mask.getLsbD module0 = true ∧
      ∀ between, write ≤ between → between ≤ 21 →
        boardReset (pressedOnce 0 6) between = false := by
  refine frames_asked_for powerOn (pressedOnce 0 6) ?_ module0 21 pressedOnce_begins
  intro release was after
  rw [boardReset_pressedOnce, decide_eq_true_eq] at was
  rw [boardReset_pressedOnce, decide_eq_false_iff_not] at after
  refine ⟨0, by omega, fun cycle lower upper => ?_⟩
  rw [boardReset_pressedOnce]
  exact decide_eq_true (by omega)

end SpiFpga.Top
