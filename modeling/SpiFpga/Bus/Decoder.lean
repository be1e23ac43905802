/-
Address decoding by windows.

A decoder compares an address, with its low bits cleared, against the base of each
window in turn, and the last window that agrees wins.  In a map whose windows are
aligned to their size and do not overlap, the order of the comparisons is of no
consequence: an address goes to the one window that covers it.
-/

import Mathlib.Tactic.Common
import Mathlib.Data.List.Pairwise
import Mathlib.Algebra.Group.Nat.Defs
import Mathlib.Data.Nat.Init

namespace SpiFpga.Bus

structure Window (width : Nat) where
  base : BitVec width
  /-- The number of low address bits that the comparison clears. -/
  pad : Nat
  readOnly : Bool
  channel : Nat
  deriving DecidableEq

namespace Window

variable {width : Nat} (window : Window width) (read : Bool) (address : BitVec width)

def hit : Bool :=
  (address >>> window.pad) <<< window.pad == window.base && (!window.readOnly || read)

/-- The addresses from the base to the end of the window, in the directions that
the window admits. -/
def Accepts : Prop :=
  window.base.toNat ≤ address.toNat ∧ address.toNat < window.base.toNat + 2 ^ window.pad ∧
    (window.readOnly = true → read = true)

variable {window read address}

theorem toNat_cleared (pad : Nat) :
    ((address >>> pad) <<< pad).toNat = address.toNat / 2 ^ pad * 2 ^ pad := by
  have below : address.toNat / 2 ^ pad * 2 ^ pad < 2 ^ width :=
    Nat.lt_of_le_of_lt (Nat.div_mul_le_self _ _) address.isLt
  rw [BitVec.toNat_shiftLeft, BitVec.toNat_ushiftRight, Nat.shiftRight_eq_div_pow,
    Nat.shiftLeft_eq, Nat.mod_eq_of_lt below]

theorem hit_iff (aligned : 2 ^ window.pad ∣ window.base.toNat) :
    window.hit read address = true ↔ window.Accepts read address := by
  obtain ⟨block, exact⟩ := aligned
  have size : 0 < 2 ^ window.pad := Nat.two_pow_pos _
  have compared : (address >>> window.pad) <<< window.pad = window.base ↔
      window.base.toNat ≤ address.toNat ∧
        address.toNat < window.base.toNat + 2 ^ window.pad := by
    rw [← BitVec.toNat_inj, toNat_cleared, exact, Nat.mul_comm (2 ^ window.pad) block,
      Nat.mul_left_inj (Nat.ne_of_gt size), Nat.div_eq_iff size]
    omega
  rw [hit, Bool.and_eq_true, beq_iff_eq, compared, Accepts, and_assoc]
  cases window.readOnly <;> cases read <;> simp

end Window

structure AddressMap (width : Nat) where
  windows : List (Window width)
  fallback : Nat
  aligned : ∀ window ∈ windows, 2 ^ window.pad ∣ window.base.toNat
  ordered : windows.Pairwise fun low high => low.base.toNat + 2 ^ low.pad ≤ high.base.toNat

/-- The windows in turn, each of them replacing what was chosen before. -/
def choose {width : Nat} (windows : List (Window width)) (fallback : Nat) (read : Bool)
    (address : BitVec width) : Nat :=
  windows.foldl
    (fun chosen window => if window.hit read address then window.channel else chosen) fallback

section Choose

variable {width : Nat} {windows : List (Window width)} {read : Bool} {address : BitVec width}

theorem choose_of_miss (miss : ∀ window ∈ windows, window.hit read address = false)
    (fallback : Nat) : choose windows fallback read address = fallback := by
  induction windows with
  | nil => rfl
  | cons head tail ih =>
      have tailMiss := ih (fun window member => miss window (List.mem_cons_of_mem head member))
      rw [choose] at tailMiss
      rw [choose, List.foldl_cons, miss head List.mem_cons_self, if_neg Bool.false_ne_true,
        tailMiss]

theorem choose_of_hit
    (alone : windows.Pairwise fun low high =>
      low.hit read address = true → high.hit read address = false)
    {window : Window width} (member : window ∈ windows)
    (hit : window.hit read address = true) (fallback : Nat) :
    choose windows fallback read address = window.channel := by
  induction windows generalizing fallback with
  | nil => cases member
  | cons head tail ih =>
      obtain ⟨headAlone, tailAlone⟩ := List.pairwise_cons.mp alone
      rw [choose, List.foldl_cons]
      rcases List.mem_cons.mp member with rfl | inTail
      · rw [if_pos hit]
        exact choose_of_miss (fun later inTail => headAlone later inTail hit) window.channel
      · exact ih tailAlone inTail _

end Choose

namespace AddressMap

variable {width : Nat} (map : AddressMap width)

def decode (read : Bool) (address : BitVec width) : Nat :=
  choose map.windows map.fallback read address

variable {map} {read : Bool} {address : BitVec width}

theorem alone (map : AddressMap width) (read : Bool) (address : BitVec width) :
    map.windows.Pairwise fun low high =>
      low.hit read address = true → high.hit read address = false := by
  refine map.ordered.imp_of_mem ?_
  intro low high lowMember highMember apart lowHit
  rw [← Bool.not_eq_true, Window.hit_iff (map.aligned high highMember)]
  intro highAccepts
  have lowAccepts := (Window.hit_iff (map.aligned low lowMember)).mp lowHit
  obtain ⟨_lowBase, lowEnd, _lowRead⟩ := lowAccepts
  have highBase := highAccepts.1
  omega

theorem decode_of_accepts {window : Window width} (member : window ∈ map.windows)
    (accepts : window.Accepts read address) : map.decode read address = window.channel :=
  choose_of_hit (map.alone read address) member
    ((Window.hit_iff (map.aligned window member)).mpr accepts) map.fallback

theorem decode_of_rejected
    (rejected : ∀ window ∈ map.windows, ¬window.Accepts read address) :
    map.decode read address = map.fallback := by
  refine choose_of_miss ?_ map.fallback
  intro window member
  rw [← Bool.not_eq_true, Window.hit_iff (map.aligned window member)]
  exact rejected window member

/-- Where the windows have channels of their own, a channel is chosen by its window
alone, or as the one to fall back on. -/
theorem decode_eq_iff {window : Window width} (member : window ∈ map.windows)
    (own : ∀ other ∈ map.windows, other.channel = window.channel → other = window) :
    map.decode read address = window.channel ↔
      window.Accepts read address ∨ map.fallback = window.channel ∧
        ∀ other ∈ map.windows, ¬other.Accepts read address := by
  constructor
  · intro chosen
    by_cases rejected : ∀ other ∈ map.windows, ¬other.Accepts read address
    · rw [decode_of_rejected rejected] at chosen
      exact Or.inr ⟨chosen, rejected⟩
    · simp only [not_forall, not_not] at rejected
      obtain ⟨other, otherMember, accepts⟩ := rejected
      rw [decode_of_accepts otherMember accepts] at chosen
      rw [own other otherMember chosen] at accepts
      exact Or.inl accepts
  · intro reasons
    rcases reasons with accepts | ⟨isFallback, rejected⟩
    · exact decode_of_accepts member accepts
    · rw [decode_of_rejected rejected, isFallback]

end AddressMap

end SpiFpga.Bus
