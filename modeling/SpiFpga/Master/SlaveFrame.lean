/-
A frame with a slave at the other end.

The slave sees clock and chip select late, and by a lag that may vary.  As long as
the lag is shorter than the time between two clock edges it cannot miss one, and its
answer is on MISO before the master takes it.  A frame then swaps the word of the
master with what stands in the slave's data register at the first edge.
-/

import SpiFpga.Clocked.SlavePort
import SpiFpga.Master.Timing

namespace SpiFpga.Master

open Clocked

variable {generics : Generics}

namespace SteadyFrame

variable {inputs : Nat → Inputs generics} {first delay cycle index : Nat}

/-! ### The edges up to a cycle -/

theorem changes_sclk_iff (positive : 1 ≤ generics.clkDiv) (frame : SteadyFrame inputs first delay)
    (lower : first ≤ cycle) (upper : cycle < storeCycle generics first delay) :
    changes (sclk inputs) cycle = true ↔
      ∃ index, cycle + 1 = edgeCycle generics first delay index := by
  rw [← frame.sclk_changes_iff positive lower upper, changes, bne_iff_ne]
  exact ⟨Ne.symm, Ne.symm⟩

theorem edgeCount_sclk (positive : 1 ≤ generics.clkDiv) (frame : SteadyFrame inputs first delay)
    (lower : first ≤ cycle) (upper : cycle ≤ storeCycle generics first delay) :
    cycle < edgeCycle generics first delay 0 ∧ edgeCount (sclk inputs) first cycle = 0 ∨
      ∃ index, edgeCycle generics first delay index ≤ cycle ∧
        cycle < edgeCycle generics first delay (index + 1) ∧
        edgeCount (sclk inputs) first cycle = index + 1 := by
  have increasing := edgeCycle_strictMono positive first delay
  induction cycle, lower using Nat.le_induction with
  | base =>
      left
      rw [edgeCount_self, edgeCycle]
      exact ⟨by omega, rfl⟩
  | succ cycle lower ih =>
      have changed := frame.changes_sclk_iff positive lower upper
      rw [changes, bne_iff_ne] at changed
      rw [edgeCount_succ _ lower]
      rcases ih (Nat.le_of_succ_le upper) with ⟨before, none⟩ | ⟨index, reached, open', counted⟩
      · by_cases atEdge : cycle + 1 = edgeCycle generics first delay 0
        · rw [if_neg (changed.mpr ⟨0, atEdge⟩), none]
          have next := increasing (Nat.lt_add_one 0)
          exact Or.inr ⟨0, by omega, by omega, rfl⟩
        · have same : sclk inputs cycle = sclk inputs (cycle + 1) := by
            by_contra different
            obtain ⟨edge, position⟩ := changed.mp different
            have later := increasing.monotone (Nat.zero_le edge)
            omega
          rw [if_pos same, none]
          exact Or.inl ⟨by omega, rfl⟩
      · by_cases atEdge : cycle + 1 = edgeCycle generics first delay (index + 1)
        · rw [if_neg (changed.mpr ⟨index + 1, atEdge⟩), counted]
          have next := increasing (Nat.lt_add_one (index + 1))
          exact Or.inr ⟨index + 1, by omega, by omega, rfl⟩
        · have same : sclk inputs cycle = sclk inputs (cycle + 1) := by
            by_contra different
            obtain ⟨edge, position⟩ := changed.mp different
            have after : index < edge := increasing.lt_iff_lt.mp (by omega)
            have before : edge < index + 1 := increasing.lt_iff_lt.mp (by omega)
            omega
          rw [if_pos same, counted]
          exact Or.inr ⟨index, by omega, by omega, rfl⟩

theorem edgeCount_early (positive : 1 ≤ generics.clkDiv) (frame : SteadyFrame inputs first delay)
    (lower : first ≤ cycle) (early : cycle < edgeCycle generics first delay 0) :
    edgeCount (sclk inputs) first cycle = 0 := by
  have wordPos := generics.wordPos
  have inFrame : edgeCycle generics first delay 0 < storeCycle generics first delay :=
    edge_within positive (by omega)
  rcases frame.edgeCount_sclk positive lower (by omega) with ⟨_early, none⟩ | ⟨edge, reached, _⟩
  · exact none
  · have later := (edgeCycle_strictMono positive first delay).monotone (Nat.zero_le edge)
    omega

theorem edgeCount_between (positive : 1 ≤ generics.clkDiv)
    (frame : SteadyFrame inputs first delay)
    (lower : edgeCycle generics first delay index ≤ cycle)
    (upper : cycle < edgeCycle generics first delay (index + 1))
    (inFrame : cycle ≤ storeCycle generics first delay) :
    edgeCount (sclk inputs) first cycle = index + 1 := by
  have increasing := edgeCycle_strictMono positive first delay
  have start : first ≤ edgeCycle generics first delay 0 := by
    unfold edgeCycle
    omega
  have later := increasing.monotone (Nat.zero_le index)
  rcases frame.edgeCount_sclk positive (by omega) inFrame with
    ⟨early, _none⟩ | ⟨edge, reached, before, counted⟩
  · omega
  · have atMost : edge < index + 1 := increasing.lt_iff_lt.mp (by omega)
    have atLeast : index < edge + 1 := increasing.lt_iff_lt.mp (by omega)
    rw [counted]
    omega

theorem sclk_early (two : 2 ≤ generics.clkDiv) (frame : SteadyFrame inputs first delay)
    (lower : first ≤ cycle) (early : cycle < edgeCycle generics first delay 0) :
    sclk inputs cycle = generics.cpol := by
  rw [level_eq_parity (sclk inputs) lower, frame.edgeCount_early (by omega) lower early,
    frame.sclk_first two, Nat.bodd_zero, Bool.xor_false]

theorem spaced_sclk (positive : 1 ≤ generics.clkDiv) (frame : SteadyFrame inputs first delay) :
    Spaced (sclk inputs) (divisor generics) first (storeCycle generics first delay) := by
  intro earlier later atLeast before atMost changed changedLater
  obtain ⟨edge, position⟩ := (frame.changes_sclk_iff positive atLeast (by omega)).mp changed
  obtain ⟨edge', position'⟩ :=
    (frame.changes_sclk_iff positive (by omega) atMost).mp changedLater
  have increasing := edgeCycle_strictMono positive first delay
  have ordered : edge < edge' := increasing.lt_iff_lt.mp (by omega)
  have apart := increasing.monotone (Nat.succ_le_of_lt ordered)
  rw [Nat.succ_eq_add_one, edgeCycle_succ] at apart
  omega

end SteadyFrame

/-! ### The clock after a frame -/

theorem sclk_rests {inputs : Nat → Inputs generics} {cycle : Nat}
    (rest : sclk inputs cycle = generics.cpol)
    (waits : stateAt inputs cycle = .communicationState →
      (registersAt inputs cycle).delayCounterReg ≤ (inputs cycle).delayConstant) :
    sclk inputs (cycle + 1) = generics.cpol ∧
      ((registersAt inputs (cycle + 1)).delayCounterReg = 0 ∨
        stateAt inputs cycle = .communicationState ∧
          (registersAt inputs (cycle + 1)).delayCounterReg =
            (registersAt inputs cycle).delayCounterReg + 1) := by
  rcases Machine.run_succ_cases (regProcess generics) inputs cycle with
    cleared | ⟨low, lowAfter, _advanced⟩
  · have atReset : registersAt inputs (cycle + 1) = resetRegisters generics := cleared
    rw [sclk, atReset]
    exact ⟨rfl, Or.inl rfl⟩
  · rw [sclk, registersAt_succ low lowAfter]
    by_cases inComm : stateAt inputs cycle = .communicationState
    · obtain ⟨clkNext, _bitsNext, delayNext, _csNext⟩ :=
        nextRegisters_of_comm (inputs cycle) inComm
      have closed : startSclk (inputs cycle) (registersAt inputs cycle) = false := by
        have waiting := waits inComm
        rw [startSclk, divClkPulse, enDivCounter, delayCounterEnd,
          decide_eq_false (by omega), Divider.pulse, Bool.false_and, Bool.and_false]
      refine ⟨?_, Or.inr ⟨inComm, delayNext⟩⟩
      rw [spiClkOut, clkNext, closed, Bool.xor_false]
      exact rest
    · obtain ⟨clkNext, _bitsNext, delayNext, _csNext⟩ :=
        nextRegisters_of_ne_comm (inputs cycle) inComm
      exact ⟨clkNext.trans rest, Or.inl delayNext⟩

/-- A delay of a divider range keeps the clock at rest for that long after the store
cycle, whatever the module does next. -/
theorem SteadyFrame.sclk_after {inputs : Nat → Inputs generics} {first delay last : Nat}
    (two : 2 ≤ generics.clkDiv) (frame : SteadyFrame inputs first delay)
    (stays : ∀ cycle, storeCycle generics first delay < cycle → cycle < last →
      generics.clkDiv ≤ (inputs cycle).delayConstant)
    (near : last ≤ storeCycle generics first delay + divisor generics) {cycle : Nat}
    (lower : storeCycle generics first delay ≤ cycle) (upper : cycle ≤ last) :
    sclk inputs cycle = generics.cpol := by
  have width : ((divisor generics : Nat) : Int) = generics.clkDiv := divisor_cast (by omega)
  have notComm : stateAt inputs (storeCycle generics first delay) ≠ .communicationState := by
    rw [frame.stores (by omega)]
    exact StateType.noConfusion
  have atStore : sclk inputs (storeCycle generics first delay) = generics.cpol :=
    (busInvariant_run two inputs _).rest notComm
  rcases Nat.lt_or_eq_of_le lower with after | now
  · -- The delay counter starts again from zero.
    suffices rests : sclk inputs cycle = generics.cpol ∧
        (registersAt inputs cycle).delayCounterReg + storeCycle generics first delay < cycle from
      rests.1
    induction cycle, after using Nat.le_induction with
    | base =>
        obtain ⟨rest, zero | ⟨inComm, _counted⟩⟩ :=
          sclk_rests atStore (fun inComm => absurd inComm notComm)
        · refine ⟨rest, ?_⟩
          rw [zero]
          omega
        · exact absurd inComm notComm
    | succ cycle after ih =>
        obtain ⟨restBefore, counter⟩ := ih (Nat.le_of_succ_le after) (Nat.le_of_succ_le upper)
        have wide := stays cycle after upper
        obtain ⟨rest, counted⟩ := sclk_rests restBefore (fun _inComm => by omega)
        refine ⟨rest, ?_⟩
        rcases counted with zero | ⟨_inComm, next⟩ <;> omega
  · rw [← now]
    exact atStore

/-- No delay shorter than a divider range comes in for some periods after the frame. -/
def StaysWide (inputs : Nat → Inputs generics) (first delay lag : Nat) : Prop :=
  ∀ cycle, storeCycle generics first delay < cycle →
    cycle + 1 < storeCycle generics first delay + lag →
    generics.clkDiv ≤ (inputs cycle).delayConstant

theorem SteadyFrame.sclk_trailed {inputs : Nat → Inputs generics}
    {first delay lag cycle index : Nat} (two : 2 ≤ generics.clkDiv)
    (frame : SteadyFrame inputs first delay) (near : lag < divisor generics)
    (stays : StaysWide inputs first delay lag) (inWord : index < generics.word)
    (lower : edgeCycle generics first delay (2 * index + 1) ≤ cycle)
    (upper : cycle ≤ edgeCycle generics first delay (2 * index + 1) + lag) :
    sclk inputs cycle = generics.cpol := by
  have positive : 1 ≤ generics.clkDiv := by omega
  have increasing := edgeCycle_strictMono positive first delay
  have upToLast := increasing.monotone (by omega : 2 * index + 1 ≤ 2 * generics.word - 1)
  have position : storeCycle generics first delay =
      edgeCycle generics first delay (2 * generics.word - 1) + 1 := rfl
  rcases Nat.le_total cycle (storeCycle generics first delay) with inFrame | after
  · have start : first ≤ edgeCycle generics first delay (2 * index + 1) := by
      unfold edgeCycle
      omega
    have next : edgeCycle generics first delay (2 * index + 1 + 1) =
        edgeCycle generics first delay (2 * index + 1) + divisor generics := edgeCycle_succ _ _ _
    rw [level_eq_parity (sclk inputs) (Nat.le_trans start lower), frame.sclk_first two,
      frame.edgeCount_between positive lower (by omega) inFrame]
    simp
  · exact frame.sclk_after two (fun later afterStore before => stays later afterStore (by omega))
      (by omega : edgeCycle generics first delay (2 * index + 1) + lag ≤ _) after upper

/-! ### The word on MOSI -/

def leads (inputs : Nat → Inputs generics) (cycle : Nat) : Bool :=
  changes (sclk inputs) cycle && sclk inputs cycle == generics.cpol

/-- The last bits of MOSI, one for each leading edge of the clock. -/
def collected (inputs : Nat → Inputs generics) : Nat → BitVec generics.word :=
  shifted 0 (leads inputs) (mosi inputs)

theorem collected_kept {inputs : Nat → Inputs generics} {first last : Nat}
    (ordered : first ≤ last) (quiet : Quiet inputs first last)
    (outside : ∀ cycle, first ≤ cycle → cycle < last →
      stateAt inputs cycle ≠ .communicationState) :
    collected inputs last = collected inputs first := by
  apply shifted_kept ordered
  intro cycle lower upper
  have kept : sclk inputs (cycle + 1) = sclk inputs cycle := by
    unfold sclk
    rw [quiet.registersAt_succ cycle lower upper]
    exact (nextRegisters_of_ne_comm _ (outside cycle lower upper)).1
  rw [leads, changes, kept, bne_self_eq_false, Bool.false_and]

namespace SteadyFrame

variable {inputs : Nat → Inputs generics} {first delay index : Nat}

theorem occurrences_leads (two : 2 ≤ generics.clkDiv) (frame : SteadyFrame inputs first delay)
    (offset : Nat) :
    occurrences (fun offset => leads inputs (first + offset)) offset =
      (edgeCount (sclk inputs) first (first + offset) + 1) / 2 := by
  rw [← occurrences_leading (sclk inputs) first offset, frame.sclk_first two]
  rfl

/-- On the leading edges of a frame MOSI shows its word. -/
theorem collected_eq (two : 2 ≤ generics.clkDiv) (phase : generics.cpha = false)
    (frame : SteadyFrame inputs first delay) (early : divisor generics ≤ delay) :
    collected inputs (storeCycle generics first delay) = frameWord inputs first := by
  have positive : 1 ≤ generics.clkDiv := by omega
  have pos := divisor_pos positive
  have wordPos := generics.wordPos
  have increasing := edgeCycle_strictMono positive first delay
  have start : first < edgeCycle generics first delay 0 := by
    unfold edgeCycle
    omega
  obtain ⟨length, isStore⟩ : ∃ length, storeCycle generics first delay = first + length :=
    Nat.exists_eq_add_of_le (by rw [storeCycle_eq]; omega)
  have total : occurrences (fun offset => leads inputs (first + offset)) length =
      generics.word := by
    have apart : 2 ≤ divisor generics := by
      unfold divisor
      omega
    have next : edgeCycle generics first delay (2 * generics.word - 1 + 1) =
        edgeCycle generics first delay (2 * generics.word - 1) + divisor generics :=
      edgeCycle_succ _ _ _
    have afterLast : storeCycle generics first delay =
        edgeCycle generics first delay (2 * generics.word - 1) + 1 := rfl
    have counted : edgeCount (sclk inputs) first (storeCycle generics first delay) =
        2 * generics.word - 1 + 1 :=
      frame.edgeCount_between positive (by omega) (by omega) (Nat.le_refl _)
    rw [frame.occurrences_leads two, ← isStore, counted]
    omega
  rw [isStore, collected, shifted_add]
  apply BitVec.eq_of_getLsbD_eq
  intro place inWord
  obtain ⟨index, position⟩ : ∃ index, generics.word = place + 1 + index :=
    Nat.exists_eq_add_of_le inWord
  have inFrame : edgeCycle generics first delay (2 * index) < storeCycle generics first delay :=
    edge_within positive (by omega)
  have fromFirst := increasing.monotone (Nat.zero_le (2 * index))
  obtain ⟨captured, atEdge⟩ : ∃ captured,
      edgeCycle generics first delay (2 * index) = first + captured + 1 :=
    ⟨edgeCycle generics first delay (2 * index) - first - 1, by omega⟩
  have after : edgeCount (sclk inputs) first (first + captured + 1) = 2 * index + 1 := by
    rw [← atEdge]
    exact frame.edgeCount_between positive (Nat.le_refl _) (increasing (Nat.lt_succ_self _))
      (Nat.le_of_lt inFrame)
  have changed : changes (sclk inputs) (first + captured) = true :=
    (frame.changes_sclk_iff positive (Nat.le_add_right _ _) (by omega)).mpr
      ⟨2 * index, atEdge.symm⟩
  have before : edgeCount (sclk inputs) first (first + captured) = 2 * index := by
    have counted := edgeCount_succ (sclk inputs) (Nat.le_add_right first captured)
    rw [changes, bne_iff_ne] at changed
    rw [if_neg changed, after] at counted
    omega
  have enabled : leads inputs (first + captured) = true := by
    rw [leads, changed, level_eq_parity (sclk inputs) (Nat.le_add_right first captured), before,
      frame.sclk_first two, Nat.bodd_mul]
    simp
  have moved : occurrences (fun offset => leads inputs (first + offset)) (captured + 1) =
      index + 1 := by
    rw [frame.occurrences_leads two, ← Nat.add_assoc, after]
    omega
  have sent : mosi inputs (first + captured) =
      (frameWord inputs first).getLsbD (generics.word - 1 - index) :=
    frame.sends positive phase early (by omega) (by omega) (by omega)
  have distance : generics.word - (index + 1) = place := by omega
  have place' : generics.word - 1 - index = place := by omega
  have kept := shifted_captured (collected inputs first)
    (fun offset => leads inputs (first + offset)) (fun offset => mosi inputs (first + offset))
    (by omega : captured < length) enabled (by rw [total, moved]; omega)
  rw [total, moved, distance, sent, place'] at kept
  exact kept

end SteadyFrame

/-! ### What the slave sees -/

/-- A slave on the lines of the module, in a period in which it is selected and has
not seen an edge. -/
structure SlaveAttached (inputs : Nat → Inputs generics) (first delay : Nat) {lag : Nat}
    (observer : Observer lag) (load : Nat → Bool) (data : Nat → BitVec generics.word)
    (out : Nat → Bool) (loaded : Nat) : Prop where
  port : SlavePort (observer.observed (sclk inputs)) (observer.observed (chipSelect inputs))
    (observer.observed (mosi inputs)) load data out
  selected : first + 3 ≤ observer.seen loaded
  early : observer.seen loaded < edgeCycle generics first delay 0

/-- No writes to the slave from a period on, until it has seen the last edge. -/
def Untouched (generics : Generics) (first delay : Nat) {lag : Nat} (observer : Observer lag)
    (load : Nat → Bool) (loaded : Nat) : Prop :=
  ∀ period, loaded ≤ period →
    observer.seen period < edgeCycle generics first delay (2 * generics.word - 1) →
    load period = false

namespace SlaveAttached

variable {inputs : Nat → Inputs generics} {first delay lag loaded written period index : Nat}
  {observer : Observer lag} {load : Nat → Bool} {data : Nat → BitVec generics.word}
  {out : Nat → Bool}

theorem rest (two : 2 ≤ generics.clkDiv) (polarity : generics.cpol = false)
    (frame : SteadyFrame inputs first delay)
    (attached : SlaveAttached inputs first delay observer load data out loaded) :
    observer.observed (sclk inputs) loaded = false := by
  rw [Observer.observed,
    frame.sclk_early two (Nat.le_of_add_right_le attached.selected) attached.early, polarity]

theorem selects (positive : 1 ≤ generics.clkDiv) (frame : SteadyFrame inputs first delay)
    (attached : SlaveAttached inputs first delay observer load data out loaded)
    (after : loaded ≤ period) (inFrame : observer.seen period ≤ storeCycle generics first delay) :
    observer.observed (chipSelect inputs) period = true := by
  have later := Nat.le_trans attached.selected (observer.mono after)
  rw [Observer.observed, frame.chipSelect_eq positive (by omega) inFrame]
  exact decide_eq_true (by omega)

theorem edgeCount_eq (positive : 1 ≤ generics.clkDiv) (frame : SteadyFrame inputs first delay)
    (near : lag < divisor generics)
    (attached : SlaveAttached inputs first delay observer load data out loaded)
    (after : loaded ≤ period) (inFrame : observer.seen period ≤ storeCycle generics first delay) :
    edgeCount (observer.observed (sclk inputs)) loaded period =
      edgeCount (sclk inputs) first (observer.seen period) := by
  have lower : first ≤ observer.seen loaded := Nat.le_of_add_right_le attached.selected
  have ordered := observer.mono after
  rw [Observer.edgeCount_observed ((frame.spaced_sclk positive).mono lower inFrame) near after,
    edgeCount_add (sclk inputs) lower ordered,
    frame.edgeCount_early positive lower attached.early, Nat.zero_add]

structure Takes (inputs : Nat → Inputs generics) (first delay : Nat) {lag : Nat}
    (observer : Observer lag) (loaded index taken : Nat) : Prop where
  position : edgeCycle generics first delay (2 * index + 1) - 1 = taken
  after : loaded ≤ taken
  unfinished : taken < edgeCycle generics first delay (2 * generics.word - 1)
  inFrame : taken ≤ storeCycle generics first delay
  counted : edgeCount (observer.observed (sclk inputs)) loaded taken = 2 * index + 1

theorem takes (positive : 1 ≤ generics.clkDiv) (frame : SteadyFrame inputs first delay)
    (near : lag < divisor generics)
    (attached : SlaveAttached inputs first delay observer load data out loaded)
    (inWord : index < generics.word) :
    ∃ taken, Takes inputs first delay observer loaded index taken := by
  have increasing := edgeCycle_strictMono positive first delay
  have spacing : edgeCycle generics first delay (2 * index + 1) =
      edgeCycle generics first delay (2 * index) + divisor generics := edgeCycle_succ _ _ _
  have fromFirst := increasing.monotone (Nat.zero_le (2 * index))
  have upToLast : edgeCycle generics first delay (2 * index + 1) ≤
      edgeCycle generics first delay (2 * generics.word - 1) :=
    increasing.monotone (by omega)
  have inFrame : edgeCycle generics first delay (2 * generics.word - 1) <
      storeCycle generics first delay := edge_within positive (by omega)
  obtain ⟨taken, atTaken⟩ : ∃ taken, taken + 1 = edgeCycle generics first delay (2 * index + 1) :=
    ⟨edgeCycle generics first delay (2 * index + 1) - 1, by omega⟩
  have past := observer.past taken
  have recent := observer.recent taken
  have seenEdge : edgeCycle generics first delay (2 * index) ≤ observer.seen taken := by omega
  have after : loaded ≤ taken := by
    by_contra before
    have ordered := observer.mono (Nat.le_of_lt (Nat.lt_of_not_le before))
    have early := attached.early
    omega
  refine ⟨taken, by omega, after, by omega, by omega, ?_⟩
  rw [attached.edgeCount_eq positive frame near after (by omega)]
  exact frame.edgeCount_between positive seenEdge (by omega) (by omega)

theorem serving (positive : 1 ≤ generics.clkDiv) (frame : SteadyFrame inputs first delay)
    (attached : SlaveAttached inputs first delay observer load data out loaded)
    {start last : Nat} (inFrame : observer.seen last ≤ storeCycle generics first delay)
    (untouched : ∀ period, loaded + start ≤ period → period < last → load period = false) :
    SlavePort.Serving (observer.observed (chipSelect inputs)) load (loaded + start) last where
  selected _period after upTo :=
    attached.selects positive frame (Nat.le_of_add_right_le after)
      (Nat.le_trans (observer.mono upTo) inFrame)
  untouched := untouched

/-- A bit whose leading edge comes after the last write is a bit of the word written,
further up by the shifts that the write has missed. -/
theorem out_written (two : 2 ≤ generics.clkDiv) (polarity : generics.cpol = false)
    (frame : SteadyFrame inputs first delay) (near : lag < divisor generics)
    (attached : SlaveAttached inputs first delay observer load data out loaded) {start : Nat}
    (untouched : Untouched generics first delay observer load (loaded + start))
    (inWord : index < generics.word)
    (later : edgeCount (observer.observed (sclk inputs)) loaded (loaded + start) ≤ 2 * index) :
    out (edgeCycle generics first delay (2 * index + 1) - 1) =
      (data (loaded + start)).getLsbD (generics.word - 1 -
        (index - edgeCount (observer.observed (sclk inputs)) loaded (loaded + start) / 2)) := by
  have positive : 1 ≤ generics.clkDiv := by omega
  obtain ⟨taken, position, after, unfinished, inFrame, counted⟩ :=
    attached.takes positive frame near inWord
  have reached : loaded + start ≤ taken := by
    by_contra before
    have grown := edgeCount_add (observer.observed (sclk inputs)) after
      (Nat.le_of_lt (Nat.lt_of_not_le before))
    omega
  obtain ⟨offset, rfl⟩ := Nat.exists_eq_add_of_le reached
  have past := observer.past (loaded + start + offset)
  have serving := attached.serving positive frame (Nat.le_trans past inFrame)
    (fun period lower upper => untouched period lower (by
      have pastPeriod := observer.past period
      omega))
  have shown := attached.port.out_eq (attached.rest two polarity frame) serving
    (Nat.le_succ _) (by omega) (by omega)
  have place : (2 * index + 1 - 1) / 2 = index := by omega
  rw [counted, place] at shown
  rw [position, shown]

theorem out_unwritten (two : 2 ≤ generics.clkDiv) (polarity : generics.cpol = false)
    (frame : SteadyFrame inputs first delay) (near : lag < divisor generics)
    (attached : SlaveAttached inputs first delay observer load data out loaded)
    (after : loaded ≤ written)
    (untouched : ∀ period, loaded ≤ period → period < written → load period = false)
    (inWord : index < generics.word)
    (earlier : 2 * index < edgeCount (observer.observed (sclk inputs)) loaded (written + 1)) :
    out (edgeCycle generics first delay (2 * index + 1) - 1) =
      (data loaded).getLsbD (generics.word - 1 - index) := by
  have positive : 1 ≤ generics.clkDiv := by omega
  have rest := attached.rest two polarity frame
  obtain ⟨taken, position, afterTaken, _unfinished, inFrame, counted⟩ :=
    attached.takes positive frame near inWord
  have none := edgeCount_self (observer.observed (sclk inputs)) loaded
  have place : (2 * index + 1 - 1) / 2 = index := by omega
  -- What the output shows up to the write.
  have shows : ∀ offset last, loaded + offset ≤ last + 1 → last ≤ written → last ≤ taken →
      edgeCount (observer.observed (sclk inputs)) loaded (loaded + offset) = 2 * index + 1 →
      out (loaded + offset) = (data loaded).getLsbD (generics.word - 1 - index) := by
    intro offset last upTo beforeWrite beforeTaken count
    have past := observer.past last
    have serving : SlavePort.Serving (observer.observed (chipSelect inputs)) load (loaded + 0)
        last :=
      attached.serving positive frame (by omega)
        (fun period lower upper => untouched period lower (by omega))
    have shown := attached.port.out_eq rest serving upTo
    simp only [Nat.add_zero] at shown
    rw [none, count, place, Nat.zero_div, Nat.sub_zero] at shown
    exact shown (by omega) inWord
  rw [position]
  by_cases inTime : taken ≤ written + 1
  · have moved : loaded ≠ taken := by
      rintro rfl
      omega
    obtain ⟨offset, rfl⟩ := Nat.exists_eq_add_of_le afterTaken
    exact shows offset (loaded + offset - 1) (by omega) (by omega) (by omega) counted
  · -- The write came in the middle of the bit.
    obtain ⟨offset, isWrite⟩ := Nat.exists_eq_add_of_le (Nat.le_succ_of_le after)
    rw [Nat.succ_eq_add_one] at isWrite
    obtain ⟨later, rfl⟩ : ∃ later, taken = loaded + offset + later :=
      Nat.exists_eq_add_of_le (by omega)
    have grown := edgeCount_add (observer.observed (sclk inputs))
      (Nat.le_add_right loaded offset) (Nat.le_add_right (loaded + offset) later)
    rw [isWrite] at earlier
    have kept : out (loaded + offset + later) = out (loaded + offset) :=
      attached.port.out_kept rest
        (fun period lower upper => attached.selects positive frame (by omega) (by
          have past := observer.past period
          omega)) (by omega)
    rw [kept]
    exact shows offset written (by omega) (Nat.le_refl _) (by omega) (by omega)

theorem shift_eq (two : 2 ≤ generics.clkDiv) (polarity : generics.cpol = false)
    (phase : generics.cpha = false) (frame : SteadyFrame inputs first delay)
    (early : divisor generics ≤ delay) (near : lag < divisor generics)
    (attached : SlaveAttached inputs first delay observer load data out loaded)
    (stays : StaysWide inputs first delay lag) (inWord : index < generics.word) {offset : Nat}
    (before : observer.seen (loaded + offset) < edgeCycle generics first delay (2 * index + 1))
    (reached : edgeCycle generics first delay (2 * index + 1) ≤
      observer.seen (loaded + offset + 1)) :
    SlavePort.falling (observer.observed (sclk inputs)) loaded offset = true ∧
      occurrences (SlavePort.falling (observer.observed (sclk inputs)) loaded) (offset + 1) =
        index + 1 ∧
      observer.observed (mosi inputs) (loaded + offset) =
        (frameWord inputs first).getLsbD (generics.word - 1 - index) := by
  have positive : 1 ≤ generics.clkDiv := by omega
  have spacing : edgeCycle generics first delay (2 * index + 1) =
      edgeCycle generics first delay (2 * index) + divisor generics := edgeCycle_succ _ _ _
  have inFrame : edgeCycle generics first delay (2 * index + 1) <
      storeCycle generics first delay := edge_within positive (by omega)
  have step := observer.seen_succ_le (loaded + offset)
  have ordered := observer.mono (Nat.le_succ (loaded + offset))
  have after : loaded ≤ loaded + offset := Nat.le_add_right _ _
  have rest := attached.rest two polarity frame
  have countNow : edgeCount (observer.observed (sclk inputs)) loaded (loaded + offset) =
      2 * index + 1 := by
    rw [attached.edgeCount_eq positive frame near after (by omega)]
    exact frame.edgeCount_between positive (by omega) before (by omega)
  have high : observer.observed (sclk inputs) (loaded + offset) = true := by
    rw [level_eq_parity (observer.observed (sclk inputs)) after, rest, countNow]
    simp
  have low : observer.observed (sclk inputs) (loaded + offset + 1) = false := by
    rw [Observer.observed, frame.sclk_trailed two near stays inWord reached (by omega), polarity]
  have falls := (SlavePort.falling_iff rest offset).mpr ⟨high, low⟩
  refine ⟨falls, ?_, frame.sends positive phase early inWord (by omega) (by omega)⟩
  rw [occurrences_succ, if_pos falls, SlavePort.occurrences_falling, countNow]
  omega

theorem data_eq_word (two : 2 ≤ generics.clkDiv) (polarity : generics.cpol = false)
    (phase : generics.cpha = false) (frame : SteadyFrame inputs first delay)
    (early : divisor generics ≤ delay) (near : lag < divisor generics)
    (attached : SlaveAttached inputs first delay observer load data out loaded)
    (untouched : Untouched generics first delay observer load loaded)
    (stays : StaysWide inputs first delay lag) {last : Nat}
    (before : observer.seen last < edgeCycle generics first delay (2 * generics.word - 1))
    (reached : edgeCycle generics first delay (2 * generics.word - 1) ≤
      observer.seen (last + 1)) :
    data (last + 1) = frameWord inputs first := by
  have positive : 1 ≤ generics.clkDiv := by omega
  have wordPos := generics.wordPos
  have increasing := edgeCycle_strictMono positive first delay
  have firstEdge := increasing.monotone (Nat.zero_le (2 * generics.word - 1))
  have inFrame : edgeCycle generics first delay (2 * generics.word - 1) <
      storeCycle generics first delay := edge_within positive (by omega)
  have after : loaded ≤ last := by
    by_contra earlier
    have ordered := observer.mono (Nat.lt_of_not_le earlier)
    have notYet := attached.early
    rw [Nat.succ_eq_add_one] at ordered
    omega
  obtain ⟨offset, rfl⟩ := Nat.exists_eq_add_of_le after
  have rest := attached.rest two polarity frame
  have serving : SlavePort.Serving (observer.observed (chipSelect inputs)) load (loaded + 0)
      (loaded + offset) :=
    attached.serving positive frame (by omega)
      (fun period lower upTo => untouched period lower
        (Nat.lt_of_le_of_lt (observer.mono (Nat.le_of_lt upTo)) before))
  have lastBit : 2 * (generics.word - 1) + 1 = 2 * generics.word - 1 := by omega
  rw [← lastBit] at before reached
  obtain ⟨lastFalls, total, _sent⟩ := attached.shift_eq two polarity phase frame early near
    stays (by omega) before reached
  have whole : data (loaded + offset + 1) =
      shifted (data loaded) (SlavePort.falling (observer.observed (sclk inputs)) loaded)
        (fun offset => observer.observed (mosi inputs) (loaded + offset)) (offset + 1) := by
    obtain ⟨high, low⟩ := (SlavePort.falling_iff rest offset).mp lastFalls
    rw [shifted_succ, if_pos lastFalls, ← attached.port.data_eq_first rest serving (Nat.le_refl _)]
    exact attached.port.shifts (loaded + offset)
      (serving.selected _ (Nat.le_add_right _ _) (Nat.le_refl _))
      (untouched _ (Nat.le_add_right _ _) (lastBit ▸ before)) high low
  rw [whole]
  apply BitVec.eq_of_getLsbD_eq
  intro place inWord
  obtain ⟨index, position⟩ : ∃ index, generics.word = place + 1 + index :=
    Nat.exists_eq_add_of_le inWord
  have upToLast := increasing.monotone (by omega : 2 * index + 1 ≤ 2 * (generics.word - 1) + 1)
  have fromFirst := increasing.monotone (Nat.zero_le (2 * index + 1))
  have passed : edgeCycle generics first delay (2 * index + 1) ≤
      observer.seen (loaded + (offset + 1)) := Nat.le_trans upToLast reached
  obtain ⟨captured, inside, notYet, crossed⟩ := observer.exists_step
    (Nat.lt_of_lt_of_le attached.early fromFirst) passed
  obtain ⟨falls, moved, sent⟩ := attached.shift_eq two polarity phase frame early near stays
    (by omega) notYet crossed
  have distance : generics.word - 1 + 1 - (index + 1) = place := by omega
  have place' : generics.word - 1 - index = place := by omega
  have kept := shifted_captured (data loaded) (SlavePort.falling _ loaded)
    (fun offset => observer.observed (mosi inputs) (loaded + offset)) inside falls (by omega)
  rw [total, moved, distance, sent, place'] at kept
  exact kept

theorem wordReceived (two : 2 ≤ generics.clkDiv) (polarity : generics.cpol = false)
    (frame : SteadyFrame inputs first delay) (near : lag < divisor generics)
    (attached : SlaveAttached inputs first delay observer load data out loaded)
    (untouched : Untouched generics first delay observer load loaded)
    (wired : ∀ cycle, (inputs cycle).spiMisoIn = out cycle) :
    WordReceived inputs first delay (data loaded) := by
  intro index inWord
  have none := edgeCount_self (observer.observed (sclk inputs)) loaded
  have fromStart : Untouched generics first delay observer load (loaded + 0) := untouched
  have shown := attached.out_written two polarity frame near fromStart inWord
  simp only [Nat.add_zero] at shown
  rw [none, Nat.zero_div, Nat.sub_zero] at shown
  rw [wired, shown (Nat.zero_le _)]

theorem torn (two : 2 ≤ generics.clkDiv) (polarity : generics.cpol = false)
    (phase : generics.cpha = false) (frame : SteadyFrame inputs first delay)
    (early : divisor generics ≤ delay) (near : lag < divisor generics)
    (attached : SlaveAttached inputs first delay observer load data out loaded)
    (after : loaded ≤ written)
    (before : ∀ period, loaded ≤ period → period < written → load period = false)
    (untouched : Untouched generics first delay observer load (written + 1))
    (wired : ∀ cycle, (inputs cycle).spiMisoIn = out cycle) :
    dataRx inputs (storeCycle generics first delay) =
      tornWord (data loaded) (data (written + 1))
        (edgeCount (observer.observed (sclk inputs)) loaded (written + 1)) := by
  apply wordReceived_unique (frame.wordReceived two phase early)
  intro index inWord
  rw [tornWord_getLsbD _ _ _ inWord, wired]
  symm
  split
  next earlier =>
    exact attached.out_unwritten two polarity frame near after before inWord earlier
  next later =>
    obtain ⟨start, position⟩ := Nat.exists_eq_add_of_le (Nat.le_succ_of_le after)
    rw [Nat.succ_eq_add_one] at position
    rw [position] at later untouched ⊢
    exact attached.out_written two polarity frame near untouched inWord (by omega)

end SlaveAttached

/-- One frame swaps the two words: the master ends up with what was in the slave, and
the slave with what was in the master. -/
theorem slave_exchange (two : 2 ≤ generics.clkDiv) (polarity : generics.cpol = false)
    (phase : generics.cpha = false) (inputs : Nat → Inputs generics) (first delay : Nat)
    (frame : SteadyFrame inputs first delay) (early : divisor generics ≤ delay) {lag : Nat}
    (near : lag < divisor generics) (observer : Observer lag) (load : Nat → Bool)
    (data : Nat → BitVec generics.word) (out : Nat → Bool) (loaded : Nat)
    (attached : SlaveAttached inputs first delay observer load data out loaded)
    (untouched : Untouched generics first delay observer load loaded)
    (stays : StaysWide inputs first delay lag)
    (wired : ∀ cycle, (inputs cycle).spiMisoIn = out cycle) :
    dataRx inputs (storeCycle generics first delay) = data loaded ∧
      ∀ last, observer.seen last < edgeCycle generics first delay (2 * generics.word - 1) →
        edgeCycle generics first delay (2 * generics.word - 1) ≤ observer.seen (last + 1) →
        data (last + 1) = frameWord inputs first := by
  refine ⟨?_, fun last =>
    attached.data_eq_word two polarity phase frame early near untouched stays⟩
  exact wordReceived_unique (frame.wordReceived two phase early)
    (attached.wordReceived two polarity frame near untouched wired)

/-! ### MISO moves nothing that the module drives -/

/-- Two registers that differ in what they have received. -/
def SameDriven (left right : Registers generics) : Prop :=
  { left with rxBufferReg := 0, rxDataReg := 0 } =
    { right with rxBufferReg := 0, rxDataReg := 0 }

theorem nextRegisters_sameDriven {input : Inputs generics} {left right : Registers generics}
    (same : SameDriven left right) (miso : Bool) :
    SameDriven (nextRegisters input left)
      (nextRegisters { input with spiMisoIn := miso } right) := by
  obtain ⟨state, tx, rx, delayCount, div, cs, clk, bits, div2, rxData⟩ := left
  obtain ⟨state', tx', rx', delayCount', div', cs', clk', bits', div2', rxData'⟩ := right
  simp only [SameDriven, Registers.mk.injEq, true_and, and_true] at same
  obtain ⟨rfl, rfl, rfl, rfl, rfl, rfl, rfl, rfl⟩ := same
  cases state <;> rfl

def withMiso (inputs : Nat → Inputs generics) (miso : Nat → Bool) (cycle : Nat) :
    Inputs generics :=
  { inputs cycle with spiMisoIn := miso cycle }

theorem registersAt_sameDriven (inputs : Nat → Inputs generics) (miso : Nat → Bool)
    (cycle : Nat) :
    SameDriven (registersAt inputs cycle) (registersAt (withMiso inputs miso) cycle) := by
  have initial : SameDriven (regProcess generics).resetState (regProcess generics).resetState :=
    rfl
  have sameReset : ∀ cycle, (regProcess generics).reset (inputs cycle) =
      (regProcess generics).reset (withMiso inputs miso cycle) := fun _cycle => rfl
  refine Machine.run_related SameDriven initial sameReset ?_ cycle
  intro now left right same
  exact nextRegisters_sameDriven same (miso now)

theorem lines_of_miso (inputs : Nat → Inputs generics) (miso : Nat → Bool) :
    sclk (withMiso inputs miso) = sclk inputs ∧
      chipSelect (withMiso inputs miso) = chipSelect inputs ∧
      mosi (withMiso inputs miso) = mosi inputs := by
  refine ⟨?_, ?_, ?_⟩
  · funext cycle
    exact (congrArg Registers.spiClkReg (registersAt_sameDriven inputs miso cycle)).symm
  · funext cycle
    exact (congrArg Registers.spiCsReg (registersAt_sameDriven inputs miso cycle)).symm
  · funext cycle
    exact (congrArg (fun registers => registers.txBufferReg.msb)
      (registersAt_sameDriven inputs miso cycle)).symm

/-! ### A module and a slave that run together -/

def trailingShift : Generics := { clkDiv := 3, word := 2, wordPos := Nat.two_pos }

def masterLines : Nat → Inputs trailingShift :=
  steadyInputs trailingShift (fun _cycle => true) 2 3 (fun _cycle => false)

/-- The slave looks at its lines every third period. -/
def thirdPeriod : Observer 2 := Observer.refreshed

def slaveStates : Nat → SlaveState 2 :=
  slaveAt (thirdPeriod.observed (sclk masterLines)) (thirdPeriod.observed (chipSelect masterLines))
    (thirdPeriod.observed (mosi masterLines)) (fun _period => none) { data := 1, out := false }

def joinedLines : Nat → Inputs trailingShift :=
  withMiso masterLines fun cycle => (slaveStates cycle).out

theorem slave_exchange_joined :
    dataRx joinedLines (storeCycle trailingShift 0 3) = (slaveStates 3).data ∧
      ∀ last, thirdPeriod.seen last < edgeCycle trailingShift 0 3 3 →
        edgeCycle trailingShift 0 3 3 ≤ thirdPeriod.seen (last + 1) →
        (slaveStates (last + 1)).data = frameWord joinedLines 0 := by
  have frame : SteadyFrame joinedLines 0 3 :=
    ⟨⟨rfl, rfl⟩, fun _cycle _lower _upper => rfl, fun _cycle _lower _upper => rfl⟩
  have port : SlavePort (thirdPeriod.observed (sclk joinedLines))
      (thirdPeriod.observed (chipSelect joinedLines)) (thirdPeriod.observed (mosi joinedLines))
      (fun _period => false) (fun period => (slaveStates period).data)
      (fun period => (slaveStates period).out) := by
    obtain ⟨clk, select, serial⟩ :=
      lines_of_miso masterLines (fun cycle => (slaveStates cycle).out)
    rw [joinedLines, clk, select, serial]
    exact slaveAt_port (thirdPeriod.observed (sclk masterLines))
      (thirdPeriod.observed (chipSelect masterLines)) (thirdPeriod.observed (mosi masterLines))
      (fun _period => none) { data := 1, out := false }
  have wide : StaysWide joinedLines 0 3 2 := fun _cycle _after _near => Int.le_refl 3
  exact slave_exchange (by decide) rfl rfl joinedLines 0 3 frame (by decide) (by decide)
    thirdPeriod (fun _period => false) (fun period => (slaveStates period).data)
    (fun period => (slaveStates period).out) 3
    ⟨port, by decide, by decide⟩ (fun _period _after _unfinished => rfl) wide (fun _cycle => rfl)

end SpiFpga.Master
