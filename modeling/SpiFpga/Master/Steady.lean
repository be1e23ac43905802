/-
Frames under a delay that is held.

A held delay opens each gate once, so the schedule of the frame has a closed
form: the edges are one divider range apart and the bit counter completes with
the last of them.  With a divider range of one the end test comes a period too
late and lets one more edge through.
-/

import SpiFpga.Master.Frame

namespace SpiFpga.Master

open Clocked

variable {generics : Generics}

/-- The cycle in which an SCLK edge of a frame appears, edges numbered from zero. -/
def edgeCycle (generics : Generics) (first delay index : Nat) : Nat :=
  first + delay + 4 + index * divisor generics

def storeCycle (generics : Generics) (first delay : Nat) : Nat :=
  edgeCycle generics first delay (2 * generics.word - 1) + 1

def lastIndex (generics : Generics) (delay : Nat) : Nat :=
  delay + 2 + (2 * generics.word - 1) * divisor generics

/-- The delay is held from the first communication cycle on. -/
def HeldDelay (inputs : Nat → Inputs generics) (first delay last : Nat) : Prop :=
  ∀ cycle, first + 2 ≤ cycle → cycle < last → (inputs cycle).delayConstant = delay

structure SteadyFrame (inputs : Nat → Inputs generics) (first delay : Nat) : Prop where
  begins : Begins inputs first
  held : HeldDelay inputs first delay (storeCycle generics first delay)
  quiet : Quiet inputs first (storeCycle generics first delay)

theorem storeCycle_eq (generics : Generics) (first delay : Nat) :
    storeCycle generics first delay = first + 2 + (lastIndex generics delay + 1) := by
  unfold storeCycle edgeCycle lastIndex
  omega

theorem edgeCycle_succ (first delay index : Nat) :
    edgeCycle generics first delay (index + 1) =
      edgeCycle generics first delay index + divisor generics := by
  unfold edgeCycle
  rw [Nat.add_mul, Nat.one_mul]
  omega

theorem edgeCycle_strictMono (positive : 1 ≤ generics.clkDiv) (first delay : Nat) :
    StrictMono (edgeCycle generics first delay) := by
  apply strictMono_nat_of_lt_succ
  intro index
  rw [edgeCycle_succ]
  exact Nat.lt_add_of_pos_right (divisor_pos positive)

theorem edge_within (positive : 1 ≤ generics.clkDiv) {first delay index : Nat}
    (inFrame : index < 2 * generics.word) :
    edgeCycle generics first delay index < storeCycle generics first delay :=
  Nat.lt_succ_of_le ((edgeCycle_strictMono positive first delay).monotone
    (Nat.le_sub_one_of_lt inFrame))

theorem edge_inFrame (two : 2 ≤ generics.clkDiv) {first delay index : Nat}
    (upTo : edgeCycle generics first delay index ≤ storeCycle generics first delay) :
    index < 2 * generics.word := by
  by_contra tooMany
  have wordPos := generics.wordPos
  have beyond : 2 * generics.word - 1 + 1 ≤ index := by omega
  have positive : 1 ≤ generics.clkDiv := by omega
  have far := (edgeCycle_strictMono positive first delay).monotone beyond
  have apart : 2 ≤ divisor generics := by
    unfold divisor
    omega
  rw [edgeCycle_succ] at far
  unfold storeCycle at upTo
  omega

theorem storeCycle_mono (delay : Nat) {first first' : Nat} (ordered : first ≤ first') :
    storeCycle generics first delay ≤ storeCycle generics first' delay := by
  rw [storeCycle_eq, storeCycle_eq]
  omega

/-- The communication cycles of a frame are the cycles before its store state. -/
theorem beforeStore {first delay index : Nat} (inRange : index ≤ lastIndex generics delay) :
    first + 2 + index < storeCycle generics first delay := by
  rw [storeCycle_eq]
  omega

theorem upToStore {first delay index : Nat} (inRange : index ≤ lastIndex generics delay + 1) :
    first + 2 + index ≤ storeCycle generics first delay := by
  rw [storeCycle_eq]
  omega

namespace HeldDelay

variable {inputs : Nat → Inputs generics} {first delay last index : Nat}

theorem mono {last' : Nat} (held : HeldDelay inputs first delay last) (earlier : last' ≤ last) :
    HeldDelay inputs first delay last' :=
  fun cycle lower upper => held cycle lower (Nat.lt_of_lt_of_le upper earlier)

theorem frameDelay_eq (held : HeldDelay inputs first delay last)
    (within : first + 2 + index < last) : frameDelay inputs first index = delay :=
  held (first + 2 + index) (Nat.le_add_right _ _) within

theorem expired_eq (held : HeldDelay inputs first delay last)
    (within : first + 2 + index < last) :
    expired (frameDelay inputs first) index = opensAt (delay + 1) index := by
  rw [expired, opensAt, held.frameDelay_eq within, decide_eq_decide]
  omega

theorem toggles_eq (held : HeldDelay inputs first delay last)
    (within : first + 2 + index < last) :
    toggles generics (frameDelay inputs first) index =
      pulses (divisor generics) (opensAt (delay + 1)) index :=
  pulses_congr (fun _earlier before => held.expired_eq (by omega))

theorem toggleCount_eq (held : HeldDelay inputs first delay last)
    (within : first + 2 + index ≤ last) :
    occurrences (toggles generics (frameDelay inputs first)) index =
      occurrences (pulses (divisor generics) (opensAt (delay + 1))) index :=
  occurrences_congr (fun _earlier before => held.toggles_eq (by omega))

theorem toggleCount_edge (positive : 1 ≤ generics.clkDiv)
    (held : HeldDelay inputs first delay last) {edge : Nat}
    (within : first + 2 + (delay + 2 + edge * divisor generics) ≤ last) :
    occurrences (toggles generics (frameDelay inputs first))
      (delay + 2 + edge * divisor generics) = edge + 1 := by
  have pos := divisor_pos positive
  rw [held.toggleCount_eq within]
  apply occurrences_opensAt_eq pos
  · rw [Nat.mul_comm (divisor generics)]
    omega
  · rw [Nat.mul_comm edge, Nat.mul_succ]
    omega

theorem unfinished (positive : 1 ≤ generics.clkDiv) (held : HeldDelay inputs first delay last)
    (within : first + 2 + index ≤ last) (inRange : index ≤ lastIndex generics delay) :
    Unfinished generics (frameDelay inputs first) index := by
  intro earlier before
  have wordPos := generics.wordPos
  have bounded := (occurrences_opensAt_le_iff (divisor_pos positive) (delay + 1) earlier
    (2 * generics.word - 1)).mpr (by
      unfold lastIndex at inRange
      rw [Nat.mul_comm (divisor generics)]
      omega)
  rw [held.toggleCount_eq (by omega)]
  omega

theorem communicates (positive : 1 ≤ generics.clkDiv)
    (held : HeldDelay inputs first delay last) (begins : Begins inputs first)
    (within : first + 2 + index < last) (inRange : index ≤ lastIndex generics delay)
    (quiet : Quiet inputs first (first + 2 + index)) :
    stateAt inputs (first + 2 + index) = .communicationState ∧
      ClockTrace inputs first index := by
  have nonneg : 0 ≤ frameDelay inputs first 0 := by
    rw [held.frameDelay_eq (by omega)]
    exact Int.natCast_nonneg delay
  exact clockTrace positive begins nonneg
    (held.unfinished positive (Nat.le_of_lt within) inRange) quiet

end HeldDelay

/-! ### The states of the frame -/

namespace SteadyFrame

variable {inputs : Nat → Inputs generics} {first delay index : Nat}

theorem quiet_upTo (frame : SteadyFrame inputs first delay)
    (inRange : index ≤ lastIndex generics delay + 1) :
    Quiet inputs first (first + 2 + index) := by
  exact frame.quiet.mono (Nat.le_refl first) (upToStore inRange)

theorem complete (positive : 1 ≤ generics.clkDiv) (frame : SteadyFrame inputs first delay) :
    occurrences (toggles generics (frameDelay inputs first)) (lastIndex generics delay) =
      generics.word * 2 := by
  have wordPos := generics.wordPos
  have counted := frame.held.toggleCount_edge positive (upToStore (Nat.le_succ _))
  rw [lastIndex, counted]
  omega

theorem communicates (positive : 1 ≤ generics.clkDiv) (frame : SteadyFrame inputs first delay)
    (inRange : index ≤ lastIndex generics delay) :
    stateAt inputs (first + 2 + index) = .communicationState :=
  (frame.held.communicates positive frame.begins (beforeStore inRange) inRange
    (frame.quiet_upTo (Nat.le_succ_of_le inRange))).1

theorem clock (positive : 1 ≤ generics.clkDiv) (frame : SteadyFrame inputs first delay)
    (inRange : index ≤ lastIndex generics delay + 1) : ClockTrace inputs first index := by
  have tracedTo : ∀ index, index ≤ lastIndex generics delay → ClockTrace inputs first index :=
    fun index inRange =>
      (frame.held.communicates positive frame.begins (beforeStore inRange) inRange
        (frame.quiet_upTo (Nat.le_succ_of_le inRange))).2
  rcases Nat.lt_or_eq_of_le inRange with before | afterLast
  · exact tracedTo index (Nat.le_of_lt_succ before)
  · rw [afterLast]
    exact (tracedTo _ (Nat.le_refl _)).succ positive
      (frame.communicates positive (Nat.le_refl _)) (frame.quiet_upTo (Nat.le_refl _))

theorem stores (positive : 1 ≤ generics.clkDiv) (frame : SteadyFrame inputs first delay) :
    stateAt inputs (storeCycle generics first delay) = .storeRxState := by
  rw [storeCycle_eq]
  exact stores_of_complete (frame.communicates positive (Nat.le_refl _))
    (frame.clock positive (Nat.le_succ _)) (Nat.le_of_eq (frame.complete positive).symm)
    (frame.quiet_upTo (Nat.le_refl _))

theorem ends (positive : 1 ≤ generics.clkDiv) (frame : SteadyFrame inputs first delay)
    (lowAfter : (inputs (storeCycle generics first delay + 1)).reset = false) :
    stateAt inputs (storeCycle generics first delay + 1) = .endState := by
  have low := frame.quiet (storeCycle generics first delay) (by
    rw [storeCycle_eq]
    omega) (Nat.le_refl _)
  rw [stateAt_succ low lowAfter, frame.stores positive]

theorem before_store (positive : 1 ≤ generics.clkDiv) (frame : SteadyFrame inputs first delay)
    {cycle : Nat} (lower : first < cycle) (upper : cycle < storeCycle generics first delay) :
    stateAt inputs cycle = .initTxState ∨ stateAt inputs cycle = .communicationState := by
  rw [storeCycle_eq] at upper
  rcases Nat.lt_or_eq_of_le (Nat.succ_le_of_lt lower) with later | next
  · obtain ⟨index, rfl⟩ := Nat.exists_eq_add_of_le later
    exact Or.inr (frame.communicates positive (by omega))
  · rw [← next]
    exact Or.inl (begins_enters frame.begins (frame.quiet_upTo (Nat.zero_le _))).1

theorem notEnded (positive : 1 ≤ generics.clkDiv) (frame : SteadyFrame inputs first delay)
    {cycle : Nat} (lower : first ≤ cycle) (upper : cycle ≤ storeCycle generics first delay) :
    stateAt inputs cycle ≠ .endState := by
  intro atEnd
  rcases Nat.lt_or_eq_of_le lower with after | atFirst
  · rcases Nat.lt_or_eq_of_le upper with before | atStore
    · rcases frame.before_store positive after before with atInit | inComm
      · cases atInit.symm.trans atEnd
      · cases inComm.symm.trans atEnd
    · rw [atStore, frame.stores positive] at atEnd
      cases atEnd
  · rw [← atFirst, frame.begins.1] at atEnd
    cases atEnd

/-! ### The edges of the frame -/

theorem sclk_step (positive : 1 ≤ generics.clkDiv) (frame : SteadyFrame inputs first delay)
    (inRange : index ≤ lastIndex generics delay) :
    sclk inputs (first + 2 + index + 1) =
      (sclk inputs (first + 2 + index) ^^
        pulses (divisor generics) (opensAt (delay + 1)) index) := by
  have clkNow := (frame.clock positive (Nat.le_succ_of_le inRange)).spiClk
  have clkNext := (frame.clock positive (Nat.succ_le_succ inRange)).spiClk
  rw [← frame.held.toggles_eq (beforeStore inRange), Nat.add_assoc (first + 2), clkNext,
    clkNow, occurrences_succ]
  cases toggles generics (frameDelay inputs first) index <;> simp

theorem sclk_before_first (positive : 1 ≤ generics.clkDiv)
    (frame : SteadyFrame inputs first delay) :
    sclk inputs (first + 1) = sclk inputs first ∧ sclk inputs (first + 2) = sclk inputs first := by
  constructor
  · have notComm : stateAt inputs first ≠ .communicationState := by
      rw [frame.begins.1]
      exact StateType.noConfusion
    have quiet := frame.quiet_upTo (Nat.zero_le _)
    unfold sclk
    rw [quiet.registersAt_succ first (by omega) (by omega)]
    exact (nextRegisters_of_ne_comm (inputs first) notComm).1
  · have clkNow := (frame.clock positive (Nat.zero_le _)).spiClk
    rw [occurrences_zero, Nat.bodd_zero, Bool.xor_false] at clkNow
    exact clkNow

/-- Edges appear in the edge cycles and in no other cycle of the frame. -/
theorem sclk_changes_iff (positive : 1 ≤ generics.clkDiv)
    (frame : SteadyFrame inputs first delay) {cycle : Nat} (lower : first ≤ cycle)
    (upper : cycle < storeCycle generics first delay) :
    sclk inputs (cycle + 1) ≠ sclk inputs cycle ↔
      ∃ index, cycle + 1 = edgeCycle generics first delay index := by
  rw [storeCycle_eq] at upper
  by_cases early : cycle < first + 2
  · obtain ⟨atFirst, atSecond⟩ := frame.sclk_before_first positive
    have still : sclk inputs (cycle + 1) = sclk inputs cycle := by
      obtain rfl | rfl : cycle = first ∨ cycle = first + 1 := by omega
      · exact atFirst
      · exact atSecond.trans atFirst.symm
    constructor
    · intro changed
      exact absurd still changed
    · rintro ⟨index, position⟩
      unfold edgeCycle at position
      omega
  · obtain ⟨index, rfl⟩ := Nat.exists_eq_add_of_le (Nat.le_of_not_lt early)
    have changes : sclk inputs (first + 2 + index + 1) ≠ sclk inputs (first + 2 + index) ↔
        pulses (divisor generics) (opensAt (delay + 1)) index = true := by
      rw [frame.sclk_step positive (by omega)]
      cases sclk inputs (first + 2 + index) <;>
        cases pulses (divisor generics) (opensAt (delay + 1)) index <;> simp
    rw [changes, pulses_opensAt]
    unfold edgeCycle
    constructor
    · rintro ⟨edge, rfl⟩
      exact ⟨edge, by rw [Nat.mul_comm (divisor generics)]; omega⟩
    · rintro ⟨edge, position⟩
      exact ⟨edge, by rw [Nat.mul_comm (divisor generics)]; omega⟩

theorem sclk_edge (positive : 1 ≤ generics.clkDiv) (frame : SteadyFrame inputs first delay)
    (inRange : edgeCycle generics first delay index ≤ storeCycle generics first delay) :
    sclk inputs (edgeCycle generics first delay index) =
      (sclk inputs first ^^ (index + 1).bodd) := by
  have position : edgeCycle generics first delay index =
      first + 2 + (delay + 2 + index * divisor generics) := by
    unfold edgeCycle
    omega
  have atStore := storeCycle_eq generics first delay
  rw [position] at inRange
  have within : delay + 2 + index * divisor generics ≤ lastIndex generics delay + 1 := by omega
  rw [position, (frame.clock positive within).spiClk, frame.held.toggleCount_edge positive inRange]

theorem sclk_first (two : 2 ≤ generics.clkDiv) (frame : SteadyFrame inputs first delay) :
    sclk inputs first = generics.cpol := by
  apply (busInvariant_run two inputs first).rest
  intro inComm
  cases frame.begins.1.symm.trans inComm

theorem changes_iff_edge (two : 2 ≤ generics.clkDiv) (frame : SteadyFrame inputs first delay)
    {cycle : Nat} (lower : first ≤ cycle) (upper : cycle < storeCycle generics first delay) :
    sclk inputs (cycle + 1) ≠ sclk inputs cycle ↔
      ∃ index, index < 2 * generics.word ∧
        cycle + 1 = edgeCycle generics first delay index := by
  rw [frame.sclk_changes_iff (by omega) lower upper]
  constructor
  · intro appears
    obtain ⟨index, atEdge⟩ := appears
    exact ⟨index, edge_inFrame two (Nat.le_trans (Nat.le_of_eq atEdge.symm) upper), atEdge⟩
  · intro appears
    obtain ⟨index, _inWord, atEdge⟩ := appears
    exact ⟨index, atEdge⟩

end SteadyFrame

/-! ### Where a frame is -/

namespace Underway

variable {inputs : Nat → Inputs generics} {first cycle delay : Nat}

theorem initTx (underway : Underway inputs first cycle) (next : cycle = first + 1) :
    stateAt inputs cycle = .initTxState := by
  subst next
  obtain ⟨atIdle, level⟩ := underway.begins
  rw [underway.quiet.stateAt_succ first (Nat.le_refl _) (Nat.lt_succ_self _), atIdle,
    (startLevel_eq_true level).1]
  rfl

theorem communicates (positive : 1 ≤ generics.clkDiv) (underway : Underway inputs first cycle)
    (held : HeldDelay inputs first delay (cycle + 1)) (lower : first + 2 ≤ cycle)
    (upper : cycle < storeCycle generics first delay) :
    stateAt inputs cycle = .communicationState := by
  rw [storeCycle_eq] at upper
  obtain ⟨index, rfl⟩ := Nat.exists_eq_add_of_le lower
  exact (held.communicates positive underway.begins (Nat.lt_succ_self _) (by omega)
    underway.quiet).1

theorem frame (underway : Underway inputs first cycle)
    (held : HeldDelay inputs first delay (cycle + 1))
    (upTo : storeCycle generics first delay ≤ cycle) : SteadyFrame inputs first delay :=
  ⟨underway.begins, held.mono (Nat.le_succ_of_le upTo), underway.quiet.mono (Nat.le_refl _) upTo⟩

theorem waits (positive : 1 ≤ generics.clkDiv) (underway : Underway inputs first cycle)
    (held : HeldDelay inputs first delay (cycle + 1))
    (after : storeCycle generics first delay < cycle) :
    stateAt inputs cycle = .endState := by
  have atStore := storeCycle_eq generics first delay
  have frame := underway.frame held (Nat.le_of_lt after)
  have ended := frame.ends positive (underway.quiet _ (by omega) after)
  rcases Nat.lt_or_eq_of_le (Nat.succ_le_of_lt after) with later | now
  · exact (underway.previousLevel_of_ended (by omega) later ended).1
  · rw [← now]
    exact ended

theorem before_store (positive : 1 ≤ generics.clkDiv) (underway : Underway inputs first cycle)
    (held : HeldDelay inputs first delay (cycle + 1))
    (upper : cycle < storeCycle generics first delay) :
    stateAt inputs cycle = .initTxState ∨ stateAt inputs cycle = .communicationState := by
  rcases Nat.lt_or_eq_of_le (Nat.succ_le_of_lt underway.before) with later | next
  · exact Or.inr (underway.communicates positive held later upper)
  · exact Or.inl (underway.initTx next.symm)

theorem eq_storeCycle (positive : 1 ≤ generics.clkDiv) (underway : Underway inputs first cycle)
    (held : HeldDelay inputs first delay (cycle + 1))
    (atStore : stateAt inputs cycle = .storeRxState) :
    cycle = storeCycle generics first delay := by
  rcases Nat.lt_trichotomy cycle (storeCycle generics first delay) with before | same | after
  · rcases underway.before_store positive held before with atInit | inComm
    · cases atInit.symm.trans atStore
    · cases inComm.symm.trans atStore
  · exact same
  · rw [underway.waits positive held after] at atStore
    cases atStore

theorem store_before_end (positive : 1 ≤ generics.clkDiv)
    (underway : Underway inputs first cycle)
    (held : HeldDelay inputs first delay (cycle + 1))
    (atEnd : stateAt inputs cycle = .endState) : storeCycle generics first delay < cycle := by
  by_contra notAfter
  rcases Nat.lt_or_eq_of_le (Nat.le_of_not_lt notAfter) with before | now
  · rcases underway.before_store positive held before with atInit | inComm
    · cases atInit.symm.trans atEnd
    · cases inComm.symm.trans atEnd
  · have frame := underway.frame held (Nat.le_of_eq now.symm)
    rw [now, frame.stores positive] at atEnd
    cases atEnd

end Underway

/-! ### The prescaler over its whole range -/

structure FrameSpan (inputs : Nat → Inputs generics) (first last : Nat) : Prop where
  begins : Begins inputs first
  before : first < last
  ended : stateAt inputs last = .endState
  notEarlier : ∀ between, first < between → between < last →
    stateAt inputs between ≠ .endState

/-- The frame issues twice `WORD` edges, one divider range apart and all of them
before it is over, between two rests at `cpol`. -/
structure ExactClock (inputs : Nat → Inputs generics) (first last : Nat) : Prop where
  edges : ∃ start,
    (∀ index, index < 2 * generics.word → first < start + index * divisor generics ∧
      start + index * divisor generics ≤ last) ∧
    ∀ cycle, first ≤ cycle → cycle < last →
      (sclk inputs (cycle + 1) ≠ sclk inputs cycle ↔
        ∃ index, index < 2 * generics.word ∧ cycle + 1 = start + index * divisor generics)
  restsBefore : sclk inputs first = generics.cpol
  restsAfter : sclk inputs last = generics.cpol

theorem FrameSpan.earliest {inputs : Nat → Inputs generics} {first last : Nat}
    (span : FrameSpan inputs first last) :
    Earliest (fun cycle => stateAt inputs cycle = .endState) (first + 1) last :=
  ⟨span.before, span.ended, span.notEarlier⟩

theorem SteadyFrame.span {inputs : Nat → Inputs generics} {first delay : Nat}
    (positive : 1 ≤ generics.clkDiv) (frame : SteadyFrame inputs first delay)
    (lowAfter : (inputs (storeCycle generics first delay + 1)).reset = false) :
    FrameSpan inputs first (storeCycle generics first delay + 1) := by
  have upper := storeCycle_eq generics first delay
  refine ⟨frame.begins, by omega, frame.ends positive lowAfter, ?_⟩
  intro between lower before
  exact frame.notEnded positive (Nat.le_of_lt lower) (Nat.le_of_lt_succ before)

theorem SteadyFrame.sclk_last {inputs : Nat → Inputs generics} {first delay : Nat}
    (positive : 1 ≤ generics.clkDiv) (frame : SteadyFrame inputs first delay)
    (lowAfter : (inputs (storeCycle generics first delay + 1)).reset = false) :
    sclk inputs (storeCycle generics first delay + 1) =
      sclk inputs (storeCycle generics first delay) := by
  have upper := storeCycle_eq generics first delay
  have low := frame.quiet (storeCycle generics first delay) (by omega) (Nat.le_refl _)
  have notComm : stateAt inputs (storeCycle generics first delay) ≠ .communicationState := by
    rw [frame.stores positive]
    exact StateType.noConfusion
  unfold sclk
  rw [registersAt_succ low lowAfter]
  exact (nextRegisters_of_ne_comm _ notComm).1

theorem SteadyFrame.exactClock {inputs : Nat → Inputs generics} {first delay : Nat}
    (two : 2 ≤ generics.clkDiv) (frame : SteadyFrame inputs first delay)
    (lowAfter : (inputs (storeCycle generics first delay + 1)).reset = false) :
    ExactClock inputs first (storeCycle generics first delay + 1) := by
  have positive : 1 ≤ generics.clkDiv := by omega
  have position : ∀ index, edgeCycle generics first delay 0 + index * divisor generics =
      edgeCycle generics first delay index := by
    intro index
    unfold edgeCycle
    omega
  refine ⟨⟨edgeCycle generics first delay 0, ?_, ?_⟩, ?_, ?_⟩
  · intro index inFrame
    have within : edgeCycle generics first delay index < storeCycle generics first delay :=
      edge_within positive inFrame
    rw [position]
    refine ⟨?_, Nat.le_succ_of_le (Nat.le_of_lt within)⟩
    unfold edgeCycle
    omega
  · intro cycle lower upper
    simp only [position]
    rcases Nat.lt_or_eq_of_le (Nat.le_of_lt_succ upper) with inside | atStore
    · exact frame.changes_iff_edge two lower inside
    · rw [atStore]
      constructor
      · intro changed
        exact absurd (frame.sclk_last positive lowAfter) changed
      · intro appears
        obtain ⟨index, inFrame, atEdge⟩ := appears
        have near : edgeCycle generics first delay index < storeCycle generics first delay :=
          edge_within positive inFrame
        omega
  · exact frame.sclk_first two
  · apply (busInvariant_run two inputs _).rest
    intro inComm
    cases (frame.ends positive lowAfter).symm.trans inComm

/-- With a divider range of one the period that meets the end test pulses too. -/
theorem SteadyFrame.sclk_inverted {inputs : Nat → Inputs generics} {first delay : Nat}
    (one : generics.clkDiv = 1) (frame : SteadyFrame inputs first delay)
    (lowAfter : (inputs (storeCycle generics first delay + 1)).reset = false) :
    sclk inputs (storeCycle generics first delay + 1) = !sclk inputs first := by
  have positive : 1 ≤ generics.clkDiv := by omega
  have wordPos := generics.wordPos
  have unit : divisor generics = 1 := by
    unfold divisor
    omega
  have extra : storeCycle generics first delay =
      edgeCycle generics first delay (2 * generics.word) := by
    unfold storeCycle edgeCycle
    rw [unit]
    omega
  have level := frame.sclk_edge positive (Nat.le_of_eq extra.symm)
  rw [frame.sclk_last positive lowAfter, extra, level, Nat.bodd_succ, Nat.bodd_mul]
  simp

theorem prescaler_exact_iff (positive : 1 ≤ generics.clkDiv) (inputs : Nat → Inputs generics)
    (delay : Nat) (noReset : ∀ cycle, (inputs cycle).reset = false)
    (held : ∀ cycle, (inputs cycle).delayConstant = delay) (first last : Nat)
    (span : FrameSpan inputs first last) :
    ExactClock inputs first last ↔ 2 ≤ generics.clkDiv := by
  have frame : SteadyFrame inputs first delay :=
    ⟨span.begins, fun cycle _lower _upper => held cycle, fun cycle _lower _upper => noReset cycle⟩
  have atEnd := span.earliest.unique (frame.span positive (noReset _)).earliest
  subst atEnd
  constructor
  · intro exact
    by_contra small
    have inverted := frame.sclk_inverted (by omega) (noReset _)
    rw [exact.restsAfter, exact.restsBefore] at inverted
    simp at inverted
  · intro two
    exact frame.exactClock two (noReset _)

theorem steadyInputs_frame (generics : Generics) (start : Nat → Bool)
    (word : BitVec generics.word) (delay : Nat) (miso : Nat → Bool) (started : start 0 = true) :
    SteadyFrame (steadyInputs generics start word delay miso) 0 delay := by
  refine ⟨⟨rfl, ?_⟩, fun _cycle _lower _upper => rfl, fun _cycle _lower _upper => rfl⟩
  simp only [startLevel, steadyInputs, started, Bool.not_false, Bool.and_self]

theorem prescaler_exact_default :
    ExactClock (steadyInputs {} (fun _cycle => true) 0 12 (fun _cycle => false)) 0
        (storeCycle {} 0 12 + 1) ↔ 2 ≤ ({} : Generics).clkDiv :=
  prescaler_exact_iff (by decide) _ 12 (fun _cycle => rfl) (fun _cycle => rfl) _ _
    ((steadyInputs_frame {} _ 0 12 _ rfl).span (by decide) rfl)

/-- The fastest clock, one bit a frame. -/
def fastest : Generics := { clkDiv := 1, word := 1, wordPos := Nat.one_pos }

theorem prescaler_one_inverts :
    ¬∀ (generics : Generics) (inputs : Nat → Inputs generics) (delay first last : Nat),
      1 ≤ generics.clkDiv → (∀ cycle, (inputs cycle).reset = false) →
      (∀ cycle, (inputs cycle).delayConstant = delay) → FrameSpan inputs first last →
      ExactClock inputs first last := by
  intro claimed
  have exact := claimed fastest
    (steadyInputs fastest (fun _cycle => true) 1 0 (fun _cycle => false)) 0 0 7 (by decide)
    (fun _cycle => rfl) (fun _cycle => rfl)
    ((steadyInputs_frame fastest _ 1 0 _ rfl).span (by decide) rfl)
  have inverted :
      sclk (steadyInputs fastest (fun _cycle => true) 1 0 (fun _cycle => false)) 7 = true := by
    decide
  rw [exact.restsAfter] at inverted
  cases inverted

end SpiFpga.Master
