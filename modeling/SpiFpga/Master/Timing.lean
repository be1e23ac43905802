/-
When a frame moves its lines.

The length of a frame is stored nowhere.  It is the sum of the two cycles that
lead into the communication state, the delay with the two cycles that its
counter adds, the divider ranges between the edges, and the store cycle.  The gap
that the port comment of the delay describes is one cycle longer than the delay,
because the counter has to exceed the delay before the divider starts.
-/

import SpiFpga.Master.Duplex

namespace SpiFpga.Master

open Clocked

variable {generics : Generics}

namespace SteadyFrame

variable {inputs : Nat → Inputs generics} {first delay offset : Nat}

theorem chipSelect_offset (positive : 1 ≤ generics.clkDiv)
    (frame : SteadyFrame inputs first delay)
    (lowAfter : (inputs (storeCycle generics first delay + 1)).reset = false)
    (upTo : first + offset ≤ storeCycle generics first delay + 1) :
    chipSelect inputs (first + offset) =
      decide (2 < offset ∧ offset < lastIndex generics delay + 4) := by
  have position := storeCycle_eq generics first delay
  rcases Nat.lt_or_eq_of_le upTo with inside | atEnd
  · rw [frame.chipSelect_eq positive (Nat.le_add_right _ _) (Nat.le_of_lt_succ inside),
      decide_eq_decide]
    omega
  · have ends := frame.ends positive lowAfter
    rw [atEnd, chipSelect_low (by rw [ends]; exact StateType.noConfusion)
      (by rw [ends]; exact StateType.noConfusion), decide_eq_false (by omega)]

/-- From the store state the ASM passes its end state and idle before it can enter
the communication state again. -/
theorem notComm_afterStore (positive : 1 ≤ generics.clkDiv)
    (frame : SteadyFrame inputs first delay) {later : Nat} (near : later ≤ 3)
    (quiet : Quiet inputs first (storeCycle generics first delay + later)) :
    stateAt inputs (storeCycle generics first delay + later) ≠ .communicationState := by
  have position := storeCycle_eq generics first delay
  have atStore := frame.stores positive
  cases later with
  | zero =>
      rw [Nat.add_zero, atStore]
      exact StateType.noConfusion
  | succ later =>
      have atEnd := frame.ends positive (quiet.low _ (by omega) (by omega))
      cases later with
      | zero =>
          rw [atEnd]
          exact StateType.noConfusion
      | succ later =>
          have arrow := quiet.arrow (storeCycle generics first delay + 1) (by omega) (by omega)
          rw [atEnd] at arrow
          have second : stateAt inputs (storeCycle generics first delay + 2) ≠ .initTxState ∧
              stateAt inputs (storeCycle generics first delay + 2) ≠ .communicationState := by
            rcases arrow.from_end with ⟨_started, stillEnd⟩ | ⟨_stopped, atIdle⟩
            · rw [stillEnd]
              exact ⟨StateType.noConfusion, StateType.noConfusion⟩
            · rw [atIdle]
              exact ⟨StateType.noConfusion, StateType.noConfusion⟩
          obtain rfl | rfl : later = 0 ∨ later = 1 := by omega
          · exact second.2
          · have arrowNext := quiet.arrow (storeCycle generics first delay + 2) (by omega)
              (by omega)
            intro inComm
            rw [inComm] at arrowNext
            rcases arrowNext.to_comm with atInit | stayed
            · exact second.1 atInit
            · exact second.2 stayed

theorem selected_again (positive : 1 ≤ generics.clkDiv) (frame : SteadyFrame inputs first delay)
    {cycle : Nat} (after : storeCycle generics first delay < cycle)
    (quiet : Quiet inputs first cycle) (isSelected : chipSelect inputs cycle = true) :
    storeCycle generics first delay + 5 ≤ cycle := by
  have position := storeCycle_eq generics first delay
  by_contra near
  obtain ⟨later, rfl⟩ := Nat.exists_eq_add_of_lt after
  have notComm := frame.notComm_afterStore positive (by omega)
    (quiet.mono (Nat.le_refl _) (Nat.le_succ _))
  have released := (nextRegisters_of_ne_comm
    (inputs (storeCycle generics first delay + later)) notComm).2.2.2
  rw [chipSelect, spiCsOut, quiet.registersAt_succ (storeCycle generics first delay + later)
    (by omega) (Nat.lt_succ_self _), released] at isSelected
  cases isSelected

end SteadyFrame

/-! ### The timing of a frame -/

/-- A frame that begins in one cycle and has chip select asserted up to another. -/
structure FrameTiming (inputs : Nat → Inputs generics) (first last : Nat) : Prop where
  selects : ∀ cycle, first ≤ cycle → cycle ≤ last + 1 →
    (chipSelect inputs cycle = true ↔ first + 3 ≤ cycle ∧ cycle ≤ last)
  keeps : ∀ cycle, first ≤ cycle → cycle < last → dataRx inputs cycle = dataRx inputs first
  takes : dataRx inputs last = (registersAt inputs last).rxBufferReg
  runs : ∀ cycle, first ≤ cycle → cycle ≤ last → ended inputs cycle = false
  ends : ended inputs (last + 1) = true
  -- four cycles at least before the next frame asserts chip select
  rests : ∀ cycle, last < cycle → Quiet inputs first cycle → chipSelect inputs cycle = true →
    last + 5 ≤ cycle

theorem storeCycle_closed (generics : Generics) (first delay : Nat) :
    storeCycle generics first delay =
      first + delay + 5 + (2 * generics.word - 1) * divisor generics := by
  unfold storeCycle edgeCycle
  omega

theorem ended_eq (inputs : Nat → Inputs generics) (cycle : Nat) :
    ended inputs cycle = decide (stateAt inputs cycle = .endState) :=
  endSignal_eq _ _

theorem frame_timing (positive : 1 ≤ generics.clkDiv) (inputs : Nat → Inputs generics)
    (first delay : Nat) (frame : SteadyFrame inputs first delay)
    (lowAfter : (inputs (storeCycle generics first delay + 1)).reset = false) :
    FrameTiming inputs first
      (first + delay + 5 + (2 * generics.word - 1) * divisor generics) := by
  have position := storeCycle_eq generics first delay
  rw [← storeCycle_closed]
  refine
    { selects := ?_
      keeps := ?_
      takes := frame.dataRx_store positive
      runs := ?_
      ends := ?_
      rests := fun _cycle after quiet isSelected =>
        frame.selected_again positive after quiet isSelected }
  · intro cycle lower upper
    obtain ⟨offset, rfl⟩ := Nat.exists_eq_add_of_le lower
    rw [frame.chipSelect_offset positive lowAfter upper, decide_eq_true_eq]
    omega
  · intro cycle lower upper
    have quiet : Quiet inputs first cycle := frame.quiet.mono (Nat.le_refl _) (Nat.le_of_lt upper)
    apply quiet.dataRx_kept lower
    intro between after upTo atStore
    rcases frame.before_store positive after (Nat.lt_of_le_of_lt upTo upper) with
      atInit | inComm
    · cases atInit.symm.trans atStore
    · cases inComm.symm.trans atStore
  · intro cycle lower upper
    rw [ended_eq]
    exact decide_eq_false (frame.notEnded positive lower upper)
  · rw [ended_eq, frame.ends positive lowAfter]
    rfl

theorem frame_timing_default :
    FrameTiming (steadyInputs {} (fun _cycle => true) 5 12 (fun _cycle => true)) 0 206 :=
  frame_timing (by decide) _ 0 12 (steadyInputs_frame {} _ 5 12 _ rfl) rfl

/-! ### The delay between chip select and the clock -/

def FirstSelected (inputs : Nat → Inputs generics) : Nat → Nat → Prop :=
  Earliest (fun cycle => chipSelect inputs cycle = true)

def FirstEdge (inputs : Nat → Inputs generics) (first : Nat) : Nat → Prop :=
  Earliest (fun cycle => sclk inputs cycle ≠ sclk inputs first) first

/-- Number of clock periods from the assertion of chip select to the first edge. -/
def SelectToEdge (inputs : Nat → Inputs generics) (first gap : Nat) : Prop :=
  ∃ selected edge, FirstSelected inputs first selected ∧ FirstEdge inputs first edge ∧
    edge = selected + gap

namespace SteadyFrame

variable {inputs : Nat → Inputs generics} {first delay : Nat}

theorem firstEdge (positive : 1 ≤ generics.clkDiv) (frame : SteadyFrame inputs first delay) :
    FirstEdge inputs first (edgeCycle generics first delay 0) := by
  have wordPos := generics.wordPos
  have within : edgeCycle generics first delay 0 < storeCycle generics first delay :=
    edge_within positive (by omega)
  refine ⟨by
    unfold edgeCycle
    omega, ?_, ?_⟩
  · rw [frame.sclk_edge positive (Nat.le_of_lt within)]
    cases sclk inputs first <;> decide
  · intro between lower upper
    apply not_not.mpr
    induction between, lower using Nat.le_induction with
    | base => rfl
    | succ between lower ih =>
        rw [← ih (Nat.lt_of_succ_lt upper)]
        by_contra changed
        obtain ⟨index, atEdge⟩ := (frame.sclk_changes_iff positive lower (by omega)).mp changed
        have later := (edgeCycle_strictMono positive first delay).monotone (Nat.zero_le index)
        omega

theorem firstSelected (positive : 1 ≤ generics.clkDiv) (frame : SteadyFrame inputs first delay) :
    FirstSelected inputs first (first + 3) := by
  have position := storeCycle_eq generics first delay
  refine ⟨Nat.le_add_right _ _, ?_, ?_⟩
  · rw [frame.chipSelect_eq positive (Nat.le_add_right _ _) (by omega)]
    exact decide_eq_true (Nat.lt_succ_self _)
  · intro between lower upper
    rw [frame.chipSelect_eq positive lower (by omega), decide_eq_true_eq]
    exact Nat.not_lt_of_le (Nat.le_of_lt_succ upper)

theorem selectToEdge_iff (positive : 1 ≤ generics.clkDiv)
    (frame : SteadyFrame inputs first delay) (gap : Nat) :
    SelectToEdge inputs first gap ↔ gap = delay + 1 := by
  have selectedAt := frame.firstSelected positive
  have edgeAt := frame.firstEdge positive
  constructor
  · intro some
    obtain ⟨selected, edge, isSelected, isEdge, distance⟩ := some
    rw [Earliest.unique isSelected selectedAt, Earliest.unique isEdge edgeAt,
      edgeCycle] at distance
    omega
  · intro exceeds
    refine ⟨first + 3, edgeCycle generics first delay 0, selectedAt, edgeAt, ?_⟩
    rw [exceeds, edgeCycle]
    omega

end SteadyFrame

/-- The gap is the delay and one period more, never the delay itself. -/
theorem delay_exceeded (positive : 1 ≤ generics.clkDiv) (inputs : Nat → Inputs generics)
    (first delay : Nat) (frame : SteadyFrame inputs first delay) :
    SelectToEdge inputs first (delay + 1) ∧ ¬SelectToEdge inputs first delay := by
  rw [frame.selectToEdge_iff positive, frame.selectToEdge_iff positive]
  exact ⟨rfl, Nat.ne_of_lt (Nat.lt_succ_self delay)⟩

theorem delay_exceeded_default :
    SelectToEdge (steadyInputs {} (fun _cycle => true) 5 12 (fun _cycle => true)) 0 13 ∧
      ¬SelectToEdge (steadyInputs {} (fun _cycle => true) 5 12 (fun _cycle => true)) 0 12 :=
  delay_exceeded (by decide) _ 0 12 (steadyInputs_frame {} _ 5 12 _ rfl)

theorem delay_not_documented :
    ¬∀ (generics : Generics) (inputs : Nat → Inputs generics) (first delay : Nat),
      1 ≤ generics.clkDiv → SteadyFrame inputs first delay → SelectToEdge inputs first delay := by
  intro claimed
  have frame := steadyInputs_frame {} (fun _cycle => true) 5 12 (fun _cycle => true) rfl
  have documented := claimed {} _ 0 12 (by decide) frame
  have exceeds := (frame.selectToEdge_iff (by decide) 12).mp documented
  omega

end SpiFpga.Master
