/-
The processor's address map.

A load or store of the program is a word access of the data master.  The router
compares its address against one window per slave, the selected port sees two bits
of it, and its register answers to the first of four words.  So each port register
has one word of the address space, and what the accesses of a run do to the ports
can be told from these words alone.
-/

import SpiFpga.Bus.Decoder
import SpiFpga.Top.Client
import SpiFpga.Top.ResetController

namespace SpiFpga.Top

open Bus Clocked Master

inductive Slave where
  | jtagUart
  | debugMem
  | onchipMemory
  | startSpiRegister
  | endSpi
  | delaySpi
  | spiTxRegister (index : Fin 6)
  | spiRxRegister (index : Fin 6)
  deriving DecidableEq

def Slave.channel : Slave → Nat
  | .jtagUart => 0
  | .debugMem => 1
  | .onchipMemory => 2
  | .startSpiRegister => 3
  | .endSpi => 4
  | .delaySpi => 5
  | .spiTxRegister index => if index.val = 0 then 6 else 7 + index.val
  | .spiRxRegister index => if index.val = 0 then 7 else 12 + index.val

def spiTxRegisterBase (index : Fin 6) : BitVec 19 :=
  match index.val with
  | 0 => 0x411a0
  | 1 => 0x41180
  | 2 => 0x41170
  | 3 => 0x41160
  | 4 => 0x41150
  | _ => 0x41140

def spiRxRegisterBase (index : Fin 6) : BitVec 19 :=
  match index.val with
  | 0 => 0x41190
  | 1 => 0x41130
  | 2 => 0x41120
  | 3 => 0x41110
  | 4 => 0x41100
  | _ => 0x410f0

/-- The bases that `system.h` hands to the program. -/
def Slave.base : Slave → BitVec 19
  | .jtagUart => 0x411e0
  | .debugMem => 0x40800
  | .onchipMemory => 0x20000
  | .startSpiRegister => 0x411d0
  | .endSpi => 0x411c0
  | .delaySpi => 0x411b0
  | .spiTxRegister index => spiTxRegisterBase index
  | .spiRxRegister index => spiRxRegisterBase index

def Slave.pad : Slave → Nat
  | .jtagUart => 3
  | .debugMem => 11
  | .onchipMemory => 17
  | _ => 4

def Slave.readOnly : Slave → Bool
  | .endSpi => true
  | .spiRxRegister _ => true
  | _ => false

def slaves : List Slave :=
  [.jtagUart, .debugMem, .onchipMemory, .startSpiRegister, .endSpi, .delaySpi] ++
    (List.finRange 6).map .spiTxRegister ++ (List.finRange 6).map .spiRxRegister

theorem mem_slaves (slave : Slave) : slave ∈ slaves := by
  cases slave with
  | spiTxRegister index =>
      revert index
      decide
  | spiRxRegister index =>
      revert index
      decide
  | _ => decide

def Slave.window (slave : Slave) : Window 19 :=
  { base := slave.base, pad := slave.pad, readOnly := slave.readOnly, channel := slave.channel }

def routerWindows : List (Window 19) :=
  [ { base := 0x20000, pad := 17, readOnly := false, channel := 2 },
    { base := 0x40800, pad := 11, readOnly := false, channel := 1 },
    { base := 0x410f0, pad := 4, readOnly := true, channel := 17 },
    { base := 0x41100, pad := 4, readOnly := true, channel := 16 },
    { base := 0x41110, pad := 4, readOnly := true, channel := 15 },
    { base := 0x41120, pad := 4, readOnly := true, channel := 14 },
    { base := 0x41130, pad := 4, readOnly := true, channel := 13 },
    { base := 0x41140, pad := 4, readOnly := false, channel := 12 },
    { base := 0x41150, pad := 4, readOnly := false, channel := 11 },
    { base := 0x41160, pad := 4, readOnly := false, channel := 10 },
    { base := 0x41170, pad := 4, readOnly := false, channel := 9 },
    { base := 0x41180, pad := 4, readOnly := false, channel := 8 },
    { base := 0x41190, pad := 4, readOnly := true, channel := 7 },
    { base := 0x411a0, pad := 4, readOnly := false, channel := 6 },
    { base := 0x411b0, pad := 4, readOnly := false, channel := 5 },
    { base := 0x411c0, pad := 4, readOnly := true, channel := 4 },
    { base := 0x411d0, pad := 4, readOnly := false, channel := 3 },
    { base := 0x411e0, pad := 3, readOnly := false, channel := 0 } ]

theorem routerWindows_aligned :
    ∀ window ∈ routerWindows, 2 ^ window.pad ∣ window.base.toNat := by
  decide

theorem routerWindows_ordered :
    routerWindows.Pairwise fun low high => low.base.toNat + 2 ^ low.pad ≤ high.base.toNat := by
  decide

/-- `DEFAULT_CHANNEL` is the channel of the on-chip memory. -/
def router : AddressMap 19 :=
  { windows := routerWindows
    fallback := 2
    aligned := routerWindows_aligned
    ordered := routerWindows_ordered }

/-! ### The router and `system.h` -/

theorem exists_slave :
    ∀ window ∈ router.windows, ∃ slave ∈ slaves, slave.window = window := by
  decide

theorem window_mem : ∀ slave ∈ slaves, slave.window ∈ router.windows := by
  decide

theorem channel_injective :
    ∀ slave ∈ slaves, ∀ other ∈ slaves, slave.channel = other.channel → slave = other := by
  decide

/-! ### Word accesses -/

/-- A word access of the data master: `IOWR_32DIRECT` or `IORD_32DIRECT`. -/
structure Access where
  write : Bool
  address : BitVec 19
  writeData : BitVec 32

namespace Access

/-- `IOWR(base, regnum, data)`. -/
def iowr (base : BitVec 19) (regnum : Nat) (data : BitVec 32) : Access :=
  { write := true, address := base + BitVec.ofNat 19 (regnum * 4), writeData := data }

/-- `IORD(base, regnum)`. -/
def iord (base : BitVec 19) (regnum : Nat) : Access :=
  { write := false, address := base + BitVec.ofNat 19 (regnum * 4), writeData := 0 }

def selects (access : Access) (slave : Slave) : Bool :=
  router.decode (!access.write) access.address == slave.channel

/-- The address lines of a port: `uav_address[3:2]`. -/
def register (access : Access) : BitVec 2 :=
  access.address.extractLsb' 2 2

def word (access : Access) : BitVec 19 :=
  (access.address >>> 2) <<< 2

end Access

/-- `data_out` of an output port after one clock edge. -/
def pioNext {width : Nat} (chipselect write : Bool) (address : BitVec 2)
    (writedata : BitVec 32) (dataOut : BitVec width) : BitVec width :=
  if chipselect && write && address == 0 then writedata.setWidth width else dataOut

def pioRead {width : Nat} (address : BitVec 2) (data : BitVec width) : BitVec 32 :=
  (if address = 0 then data else 0).setWidth 32

def PortRegisters.busNext (access : Option Access) (ports : PortRegisters) : PortRegisters :=
  match access with
  | none => ports
  | some access =>
      { startSpi := pioNext (access.selects .startSpiRegister) access.write access.register
          access.writeData ports.startSpi
        delaySpi := pioNext (access.selects .delaySpi) access.write access.register
          access.writeData ports.delaySpi
        spiTx := fun index => pioNext (access.selects (.spiTxRegister index)) access.write
          access.register access.writeData (ports.spiTx index) }

def Access.operation (access : Access) : Option BusOperation :=
  if access.write then
    if access.word = Slave.delaySpi.base then
      some (.writeDelay (access.writeData.setWidth 8))
    else if access.word = Slave.startSpiRegister.base then
      some (.writeStart (access.writeData.setWidth 6))
    else
      ((List.finRange 6).find? fun index => access.word == spiTxRegisterBase index).map
        fun index => .writeTx index (access.writeData.setWidth 16)
  else if access.word = Slave.endSpi.base then
    some .readEnd
  else
    ((List.finRange 6).find? fun index => access.word == spiRxRegisterBase index).map .readRx

/-! ### Which slave sees an access -/

section Access

variable {access : Access} {slave : Slave}

def Slave.Accepts (slave : Slave) (access : Access) : Prop :=
  slave.window.Accepts (!access.write) access.address

theorem accepts_iff : slave.Accepts access ↔
    slave.base.toNat ≤ access.address.toNat ∧
      access.address.toNat < slave.base.toNat + 2 ^ slave.pad ∧
      (slave.readOnly = true → access.write = false) := by
  rw [Slave.Accepts, Window.Accepts, Bool.not_eq_true']
  rfl

theorem selects_iff (access : Access) (slave : Slave) :
    access.selects slave = true ↔
      slave.Accepts access ∨
        slave = .onchipMemory ∧ ∀ other : Slave, ¬other.Accepts access := by
  have own : ∀ other ∈ router.windows, other.channel = slave.window.channel →
      other = slave.window := by
    intro other member same
    obtain ⟨owner, listed, rfl⟩ := exists_slave other member
    rw [channel_injective owner listed slave (mem_slaves slave) same]
  have fallback : router.fallback = slave.window.channel ↔ slave = .onchipMemory := by
    constructor
    · intro same
      exact channel_injective slave (mem_slaves slave) .onchipMemory (mem_slaves _) same.symm
    · rintro rfl
      rfl
  have rejected : (∀ other ∈ router.windows, ¬other.Accepts (!access.write) access.address) ↔
      ∀ other : Slave, ¬other.Accepts access := by
    constructor
    · intro none other
      exact none other.window (window_mem other (mem_slaves other))
    · intro none window member
      obtain ⟨owner, _listed, rfl⟩ := exists_slave window member
      exact none owner
  rw [Access.selects, beq_iff_eq,
    show slave.channel = slave.window.channel from rfl,
    AddressMap.decode_eq_iff (window_mem slave (mem_slaves slave)) own, fallback, rejected,
    Slave.Accepts]

theorem exists_selects (access : Access) : ∃ slave : Slave, access.selects slave = true := by
  by_cases accepted : ∃ slave : Slave, slave.Accepts access
  · obtain ⟨slave, accepts⟩ := accepted
    exact ⟨slave, (selects_iff access slave).mpr (Or.inl accepts)⟩
  · have rejected := not_exists.mp accepted
    exact ⟨.onchipMemory, (selects_iff access .onchipMemory).mpr (Or.inr ⟨rfl, rejected⟩)⟩

theorem selects_unique {other : Slave} (seen : access.selects slave = true)
    (seenToo : access.selects other = true) : slave = other := by
  rw [Access.selects, beq_iff_eq] at seen seenToo
  exact channel_injective slave (mem_slaves slave) other (mem_slaves other)
    (seen.symm.trans seenToo)

/-! ### The word of a port -/

theorem base_injective :
    ∀ slave ∈ slaves, ∀ other ∈ slaves, slave.base = other.base → slave = other := by
  decide

theorem base_ne {other : Slave} (different : slave ≠ other) : slave.base ≠ other.base :=
  fun same => different (base_injective slave (mem_slaves slave) other (mem_slaves other) same)

theorem selects_register_iff (port : slave.pad = 4) :
    access.selects slave = true ∧ access.register = 0 ↔
      access.word = slave.base ∧ (slave.readOnly = true → access.write = false) := by
  have notMemory : slave ≠ .onchipMemory := by
    rintro rfl
    cases port
  have aligned := router.aligned slave.window (window_mem slave (mem_slaves slave))
  have firstWord : access.register = 0 ↔ access.address.toNat / 4 % 4 = 0 := by
    rw [← BitVec.toNat_inj, Access.register, BitVec.extractLsb'_toNat,
      Nat.shiftRight_eq_div_pow]
    rfl
  have word : access.word.toNat = access.address.toNat / 4 * 4 :=
    Window.toNat_cleared 2
  have sameWord : access.word = slave.base ↔ access.address.toNat / 4 * 4 = slave.base.toNat := by
    rw [← BitVec.toNat_inj, word]
  have inWindow : (slave.base.toNat ≤ access.address.toNat ∧
      access.address.toNat < slave.base.toNat + 16) ∧ access.address.toNat / 4 % 4 = 0 ↔
        access.address.toNat / 4 * 4 = slave.base.toNat := by
    simp only [Slave.window, port] at aligned
    omega
  have accepts : slave.Accepts access ↔
      (slave.base.toNat ≤ access.address.toNat ∧
        access.address.toNat < slave.base.toNat + 16) ∧
          (slave.readOnly = true → access.write = false) := by
    rw [accepts_iff, port, and_assoc]
    rfl
  rw [selects_iff, or_iff_left (fun memory => notMemory memory.1), accepts, and_right_comm,
    firstWord, inWindow, sameWord]

theorem pioNext_port {width : Nat} (slave : Slave) (port : slave.pad = 4)
    (writable : slave.readOnly = false) (access : Access) (dataOut : BitVec width) :
    pioNext (access.selects slave) access.write access.register access.writeData dataOut =
      if access.write = true ∧ access.word = slave.base then access.writeData.setWidth width
      else dataOut := by
  have reached : access.selects slave = true ∧ access.register = 0 ↔
      access.word = slave.base ∧ (slave.readOnly = true → access.write = false) :=
    selects_register_iff port
  rw [writable] at reached
  have condition : (access.selects slave && access.write && access.register == 0) = true ↔
      access.write = true ∧ access.word = slave.base := by
    rw [Bool.and_eq_true, Bool.and_eq_true, beq_iff_eq, and_right_comm, reached]
    simp only [Bool.false_eq_true, false_implies, and_true]
    exact and_comm
  rw [pioNext]
  exact if_congr condition rfl rfl

theorem find_base {bases : Fin 6 → BitVec 19} {index : Fin 6}
    (apart : ∀ other, bases other = bases index → other = index) :
    (List.finRange 6).find? (fun other => bases index == bases other) = some index := by
  cases found : (List.finRange 6).find? fun other => bases index == bases other with
  | none =>
      have missed := List.find?_eq_none.mp found index (List.mem_finRange index)
      exact absurd (beq_self_eq_true (bases index)) missed
  | some other =>
      have passed := List.find?_some found
      rw [apart other (eq_of_beq passed).symm]

theorem find_base_none {bases : Fin 6 → BitVec 19} {word : BitVec 19}
    (apart : ∀ other, word ≠ bases other) :
    (List.finRange 6).find? (fun other => word == bases other) = none := by
  rw [List.find?_eq_none]
  intro other _member same
  exact apart other (eq_of_beq same)

theorem spiTxRegisterBase_injective {index other : Fin 6}
    (same : spiTxRegisterBase other = spiTxRegisterBase index) : other = index :=
  Slave.spiTxRegister.inj (base_injective _ (mem_slaves (.spiTxRegister other)) _
    (mem_slaves (.spiTxRegister index)) same)

theorem spiRxRegisterBase_injective {index other : Fin 6}
    (same : spiRxRegisterBase other = spiRxRegisterBase index) : other = index :=
  Slave.spiRxRegister.inj (base_injective _ (mem_slaves (.spiRxRegister other)) _
    (mem_slaves (.spiRxRegister index)) same)

/-! ### What an access means -/

theorem operation_delay (write : access.write = true)
    (there : access.word = Slave.delaySpi.base) :
    access.operation = some (.writeDelay (access.writeData.setWidth 8)) := by
  rw [Access.operation, if_pos write, if_pos there]

theorem operation_start (write : access.write = true)
    (there : access.word = Slave.startSpiRegister.base) :
    access.operation = some (.writeStart (access.writeData.setWidth 6)) := by
  have notDelay : access.word ≠ Slave.delaySpi.base := by
    rw [there]
    exact base_ne nofun
  rw [Access.operation, if_pos write, if_neg notDelay, if_pos there]

theorem operation_tx {index : Fin 6} (write : access.write = true)
    (there : access.word = (Slave.spiTxRegister index).base) :
    access.operation = some (.writeTx index (access.writeData.setWidth 16)) := by
  have notDelay : access.word ≠ Slave.delaySpi.base := by
    rw [there]
    exact base_ne nofun
  have notStart : access.word ≠ Slave.startSpiRegister.base := by
    rw [there]
    exact base_ne nofun
  rw [Access.operation, if_pos write, if_neg notDelay, if_neg notStart, there, Slave.base,
    find_base (fun _other => spiTxRegisterBase_injective), Option.map_some]

theorem operation_end (read : access.write = false) (there : access.word = Slave.endSpi.base) :
    access.operation = some .readEnd := by
  rw [Access.operation, read, if_neg Bool.false_ne_true, if_pos there]

theorem operation_rx {index : Fin 6} (read : access.write = false)
    (there : access.word = (Slave.spiRxRegister index).base) :
    access.operation = some (.readRx index) := by
  have notEnd : access.word ≠ Slave.endSpi.base := by
    rw [there]
    exact base_ne nofun
  rw [Access.operation, read, if_neg Bool.false_ne_true, if_neg notEnd, there, Slave.base,
    find_base (fun _other => spiRxRegisterBase_injective), Option.map_some]

theorem next_of_read (read : access.write = false) (ports : PortRegisters) :
    ports.next access.operation = ports := by
  rw [Access.operation, read, if_neg Bool.false_ne_true]
  split
  next => rfl
  next =>
    cases (List.finRange 6).find? fun index => access.word == spiRxRegisterBase index with
    | none => rfl
    | some index => rfl

theorem next_of_stray (write : access.write = true)
    (notDelay : access.word ≠ Slave.delaySpi.base)
    (notStart : access.word ≠ Slave.startSpiRegister.base)
    (notTx : ∀ index, access.word ≠ spiTxRegisterBase index) (ports : PortRegisters) :
    ports.next access.operation = ports := by
  rw [Access.operation, if_pos write, if_neg notDelay, if_neg notStart, find_base_none notTx]
  rfl

theorem pioNext_extended {width : Nat} (slave : Slave) (port : slave.pad = 4)
    (writable : slave.readOnly = false) (access : Access) (dataOut : BitVec width) :
    (pioNext (access.selects slave) access.write access.register access.writeData
        dataOut).setWidth 32 =
      if access.write = true ∧ access.word = slave.base then
        (access.writeData.setWidth width).setWidth 32
      else dataOut.setWidth 32 := by
  rw [pioNext_port slave port writable]
  exact apply_ite (BitVec.setWidth 32) _ _ _

theorem busNext_operation (access : Access) (ports : PortRegisters) :
    ports.busNext (some access) = ports.next access.operation := by
  have startNext := pioNext_port .startSpiRegister rfl rfl access ports.startSpi
  have delayNext := pioNext_port .delaySpi rfl rfl access ports.delaySpi
  have txNext := fun index =>
    pioNext_port (.spiTxRegister index) rfl rfl access (ports.spiTx index)
  rw [PortRegisters.busNext, startNext, delayNext]
  simp only [txNext]
  cases write : access.write with
  | false =>
      rw [next_of_read write]
      simp only [Bool.false_eq_true, false_and, if_false]
  | true =>
      simp only [true_and]
      by_cases toDelay : access.word = Slave.delaySpi.base
      · have notStart : access.word ≠ Slave.startSpiRegister.base := by
          rw [toDelay]
          exact base_ne nofun
        have notTx : ∀ index, access.word ≠ (Slave.spiTxRegister index).base := by
          intro index
          rw [toDelay]
          exact base_ne nofun
        rw [operation_delay write toDelay, if_neg notStart, if_pos toDelay]
        simp only [if_neg (notTx _), PortRegisters.next]
      · rw [if_neg toDelay]
        by_cases toStart : access.word = Slave.startSpiRegister.base
        · have notTx : ∀ index, access.word ≠ (Slave.spiTxRegister index).base := by
            intro index
            rw [toStart]
            exact base_ne nofun
          rw [operation_start write toStart, if_pos toStart]
          simp only [if_neg (notTx _), PortRegisters.next]
        · rw [if_neg toStart]
          by_cases toTx : ∃ index, access.word = (Slave.spiTxRegister index).base
          · obtain ⟨index, atIndex⟩ := toTx
            have own : ∀ other, access.word = (Slave.spiTxRegister other).base ↔
                other = index := by
              intro other
              rw [atIndex]
              exact ⟨fun same => (spiTxRegisterBase_injective same).symm,
                fun same => by rw [same]⟩
            rw [operation_tx write atIndex]
            simp only [own, PortRegisters.next]
          · have notTx := not_exists.mp toTx
            rw [next_of_stray write toDelay toStart notTx]
            simp only [if_neg (notTx _)]

end Access

/-! ### The macros of the program -/

/-- The access that the program makes for a port operation. -/
def BusOperation.toAccess : BusOperation → Access
  | .writeDelay value => .iowr Slave.delaySpi.base 0 (value.setWidth 32)
  | .writeTx index value => .iowr (Slave.spiTxRegister index).base 0 (value.setWidth 32)
  | .writeStart mask => .iowr Slave.startSpiRegister.base 0 (mask.setWidth 32)
  | .readEnd => .iord Slave.endSpi.base 0
  | .readRx index => .iord (Slave.spiRxRegister index).base 0

theorem word_aligned : ∀ slave ∈ slaves, (slave.base >>> 2) <<< 2 = slave.base := by
  decide

theorem iowr_word (slave : Slave) (data : BitVec 32) :
    (Access.iowr slave.base 0 data).word = slave.base := by
  rw [Access.word, Access.iowr, Nat.zero_mul, BitVec.add_zero]
  exact word_aligned slave (mem_slaves slave)

theorem iord_word (slave : Slave) : (Access.iord slave.base 0).word = slave.base := by
  rw [Access.word, Access.iord, Nat.zero_mul, BitVec.add_zero]
  exact word_aligned slave (mem_slaves slave)

theorem operation_toAccess (operation : BusOperation) :
    operation.toAccess.operation = some operation := by
  cases operation with
  | writeDelay value =>
      rw [BusOperation.toAccess, operation_delay rfl (iowr_word .delaySpi _), Access.iowr,
        BitVec.setWidth_setWidth_of_le value (by omega), BitVec.setWidth_eq]
  | writeTx index value =>
      rw [BusOperation.toAccess, operation_tx rfl (iowr_word (.spiTxRegister index) _),
        Access.iowr, BitVec.setWidth_setWidth_of_le value (by omega), BitVec.setWidth_eq]
  | writeStart mask =>
      rw [BusOperation.toAccess, operation_start rfl (iowr_word .startSpiRegister _),
        Access.iowr, BitVec.setWidth_setWidth_of_le mask (by omega), BitVec.setWidth_eq]
  | readEnd => exact operation_end rfl (iord_word .endSpi)
  | readRx index => exact operation_rx rfl (iord_word (.spiRxRegister index))

/-! ### Runs of the bus -/

structure BusInputs where
  resetN : Bool
  portResetN : Bool
  access : Option Access
  spiDspMisoIn : Fin 6 → Bool

def busPorts : Machine BusInputs PortRegisters :=
  { resetState := outputPorts.resetState
    reset := fun input => !input.portResetN
    next := fun input ports => ports.busNext input.access }

def busPortsAt (inputs : Nat → BusInputs) (cycle : Nat) : PortRegisters :=
  busPorts.run inputs cycle

def performed (inputs : Nat → BusInputs) (cycle : Nat) : SystemInputs :=
  { resetN := (inputs cycle).resetN
    portResetN := (inputs cycle).portResetN
    operation := (inputs cycle).access.bind Access.operation
    spiDspMisoIn := (inputs cycle).spiDspMisoIn }

/-- `readdata` of the ports. An input port takes its lines over at the clock edge
that ends the period, and the master collects them in the wait period of the read. -/
def Slave.readData (ports : PortRegisters) (flag : Bool) (rx : Fin 6 → BitVec 16)
    (register : BitVec 2) : Slave → Option (BitVec 32)
  | .startSpiRegister => some (pioRead register ports.startSpi)
  | .delaySpi => some (pioRead register ports.delaySpi)
  | .spiTxRegister index => some (pioRead register (ports.spiTx index))
  | .endSpi => some (pioRead register (BitVec.ofBool flag))
  | .spiRxRegister index => some (pioRead register (rx index))
  | .jtagUart => none
  | .debugMem => none
  | .onchipMemory => none

def responseAt (inputs : Nat → BusInputs) (cycle : Nat) : Option (BitVec 32) :=
  (inputs cycle).access.bind fun access =>
    if access.write then none
    else
      (slaves.find? access.selects).bind <| Slave.readData (busPortsAt inputs cycle)
        (endFlag (driven (performed inputs)) cycle)
        (fun index => rxRegister (driven (performed inputs)) index cycle) access.register

theorem busPortsAt_eq (inputs : Nat → BusInputs) (cycle : Nat) :
    busPortsAt inputs cycle = portsAt (performed inputs) cycle := by
  change busPorts.run inputs cycle = outputPorts.run (performed inputs) cycle
  have initial : busPorts.resetState = outputPorts.resetState := rfl
  have sameReset : ∀ now, busPorts.reset (inputs now) =
      outputPorts.reset (performed inputs now) := fun _now => rfl
  refine Machine.run_related (fun ports ports' => ports = ports') initial sameReset ?_ cycle
  rintro now ports _ rfl
  change ports.busNext (inputs now).access =
    ports.next ((inputs now).access.bind Access.operation)
  cases (inputs now).access with
  | none => rfl
  | some access => exact busNext_operation access ports

variable {inputs : Nat → BusInputs} {cycle : Nat} {access : Access} {slave : Slave}

theorem find_selects (seen : access.selects slave = true) :
    slaves.find? access.selects = some slave := by
  cases found : slaves.find? access.selects with
  | none => exact absurd seen (List.find?_eq_none.mp found slave (mem_slaves slave))
  | some other =>
      have passed := List.find?_some found
      rw [selects_unique passed seen]

theorem responseAt_read (asked : (inputs cycle).access = some access)
    (read : access.write = false) (port : slave.pad = 4) (there : access.word = slave.base) :
    responseAt inputs cycle =
      slave.readData (busPortsAt inputs cycle) (endFlag (driven (performed inputs)) cycle)
        (fun index => rxRegister (driven (performed inputs)) index cycle) 0 := by
  obtain ⟨seen, first⟩ := (selects_register_iff port).mpr ⟨there, fun _readOnly => read⟩
  rw [responseAt, asked, Option.bind_some, read, if_neg Bool.false_ne_true, find_selects seen,
    Option.bind_some, first]

theorem operation_of_write (write : access.write = true) {operation : BusOperation}
    (meant : access.operation = some operation) :
    operation ≠ .readEnd ∧ ∀ index, operation ≠ .readRx index := by
  rw [Access.operation, if_pos write] at meant
  split at meant
  next =>
    obtain rfl := Option.some.inj meant
    exact ⟨nofun, fun _index => nofun⟩
  next =>
    split at meant
    next =>
      obtain rfl := Option.some.inj meant
      exact ⟨nofun, fun _index => nofun⟩
    next =>
      obtain ⟨other, _found, rfl⟩ := Option.map_eq_some_iff.mp meant
      exact ⟨nofun, fun _index => nofun⟩

theorem operation_eq_readEnd (meant : access.operation = some .readEnd) :
    access.write = false ∧ access.word = Slave.endSpi.base := by
  cases direction : access.write with
  | true => exact absurd rfl (operation_of_write direction meant).1
  | false =>
      rw [Access.operation, direction, if_neg Bool.false_ne_true] at meant
      split at meant
      next there => exact ⟨rfl, there⟩
      next =>
        obtain ⟨index, _found, impossible⟩ := Option.map_eq_some_iff.mp meant
        cases impossible

theorem operation_eq_readRx {index : Fin 6} (meant : access.operation = some (.readRx index)) :
    access.write = false ∧ access.word = (Slave.spiRxRegister index).base := by
  cases direction : access.write with
  | true => exact absurd rfl ((operation_of_write direction meant).2 index)
  | false =>
      rw [Access.operation, direction, if_neg Bool.false_ne_true] at meant
      split at meant
      next => cases meant
      next =>
        obtain ⟨other, found, same⟩ := Option.map_eq_some_iff.mp meant
        have passed := List.find?_some found
        rw [← BusOperation.readRx.inj same]
        exact ⟨rfl, eq_of_beq passed⟩

theorem responseAt_readRx {index : Fin 6}
    (meant : (performed inputs cycle).operation = some (.readRx index)) :
    responseAt inputs cycle =
      some ((rxRegister (driven (performed inputs)) index cycle).setWidth 32) := by
  obtain ⟨access, asked, operation⟩ := Option.bind_eq_some_iff.mp meant
  obtain ⟨read, there⟩ := operation_eq_readRx operation
  rw [responseAt_read asked read rfl there]
  rfl

theorem performed_toAccess (inputs : Nat → SystemInputs) :
    performed (fun cycle =>
      { resetN := (inputs cycle).resetN
        portResetN := (inputs cycle).portResetN
        access := (inputs cycle).operation.map BusOperation.toAccess
        spiDspMisoIn := (inputs cycle).spiDspMisoIn }) = inputs := by
  funext cycle
  have meaning : ((inputs cycle).operation.map BusOperation.toAccess).bind Access.operation =
      (inputs cycle).operation := by
    cases (inputs cycle).operation with
    | none => rfl
    | some operation => exact operation_toAccess operation
  rw [performed, meaning]

/-! ### What holds of every run of accesses -/

/-- Of the slaves exactly one sees an access: the one in whose window the address
lies, unless it is an input port and the access a write.  What no window admits goes
to the on-chip memory. -/
theorem access_seen_by_one (access : Access) :
    (∃! slave : Slave, access.selects slave = true) ∧
      ∀ slave : Slave, access.selects slave = true ↔
        (slave.base.toNat ≤ access.address.toNat ∧
            access.address.toNat < slave.base.toNat + 2 ^ slave.pad ∧
            (slave.readOnly = true → access.write = false)) ∨
          slave = .onchipMemory ∧ ∀ other : Slave,
            other.base.toNat ≤ access.address.toNat →
              access.address.toNat < other.base.toNat + 2 ^ other.pad →
                other.readOnly = true ∧ access.write = true := by
  constructor
  · obtain ⟨slave, seen⟩ := exists_selects access
    exact ⟨slave, seen, fun other seenToo => selects_unique seenToo seen⟩
  · intro slave
    rw [selects_iff, accepts_iff]
    refine or_congr_right (and_congr_right fun _isMemory => forall_congr' fun other => ?_)
    rw [accepts_iff]
    cases other.readOnly <;> cases access.write <;> simp

/-- At the level of word accesses the ports do what the operations do that the
accesses mean, and a read that means an operation returns what the operation reads. -/
theorem bus_refines_ports (inputs : Nat → BusInputs) (cycle : Nat) :
    busPortsAt inputs cycle = portsAt (performed inputs) cycle ∧
      ((performed inputs cycle).operation = some .readEnd →
        responseAt inputs cycle =
          some ((BitVec.ofBool (endFlag (driven (performed inputs)) cycle)).setWidth 32)) ∧
      ∀ index, (performed inputs cycle).operation = some (.readRx index) →
        responseAt inputs cycle =
          some ((rxRegister (driven (performed inputs)) index cycle).setWidth 32) := by
  refine ⟨busPortsAt_eq inputs cycle, ?_, fun index => responseAt_readRx⟩
  intro meant
  obtain ⟨access, asked, operation⟩ := Option.bind_eq_some_iff.mp meant
  obtain ⟨read, there⟩ := operation_eq_readEnd operation
  rw [responseAt_read asked read rfl there]
  rfl

/-! ### Reading an output port back -/

def Slave.outputWidth : Slave → Nat
  | .startSpiRegister => 6
  | .delaySpi => 8
  | .spiTxRegister _ => 16
  | _ => 0

def Slave.outPort (ports : PortRegisters) : Slave → BitVec 32
  | .startSpiRegister => ports.startSpi.setWidth 32
  | .delaySpi => ports.delaySpi.setWidth 32
  | .spiTxRegister index => (ports.spiTx index).setWidth 32
  | _ => 0

theorem outPort_busNext (slave : Slave) (access : Access) (ports : PortRegisters)
    (output : 0 < slave.outputWidth) :
    slave.outPort (ports.busNext (some access)) =
      if access.write = true ∧ access.word = slave.base then
        (access.writeData.setWidth slave.outputWidth).setWidth 32
      else slave.outPort ports := by
  cases slave with
  | startSpiRegister => exact pioNext_extended .startSpiRegister rfl rfl access ports.startSpi
  | delaySpi => exact pioNext_extended .delaySpi rfl rfl access ports.delaySpi
  | spiTxRegister index =>
      exact pioNext_extended (.spiTxRegister index) rfl rfl access (ports.spiTx index)
  | _ => cases output

theorem readData_output (slave : Slave) (output : 0 < slave.outputWidth)
    (ports : PortRegisters) (flag : Bool) (rx : Fin 6 → BitVec 16) :
    slave.readData ports flag rx 0 = some (slave.outPort ports) := by
  cases slave with
  | startSpiRegister => rfl
  | delaySpi => rfl
  | spiTxRegister index => rfl
  | _ => cases output

theorem pad_of_output (slave : Slave) (output : 0 < slave.outputWidth) : slave.pad = 4 := by
  cases slave with
  | startSpiRegister => rfl
  | delaySpi => rfl
  | spiTxRegister index => rfl
  | _ => cases output

/-- The reset of the ports is what the controller makes of the reset of the board. -/
def Controlled (initial : ResetController) (inputs : Nat → BusInputs) : Prop :=
  ∀ cycle, (inputs cycle).portResetN =
    !resetOut initial (fun now => !(inputs now).resetN) cycle

theorem busPortsAt_succ {first last : Nat}
    (released : ∀ cycle, first ≤ cycle → cycle ≤ last → (inputs cycle).portResetN = true)
    (lower : first ≤ cycle) (upper : cycle < last) :
    busPortsAt inputs (cycle + 1) = (busPortsAt inputs cycle).busNext (inputs cycle).access :=
  Machine.run_succ cycle
    (congrArg not (released cycle lower (Nat.le_of_lt upper)))
    (congrArg not (released (cycle + 1) (Nat.le_succ_of_le lower) upper))

/-- What was written last to an output port is what a read of it returns, cut to the
width of the port, whatever else went on on the bus in between. The last of a board
reset reaches the ports ten periods after it. -/
theorem read_back (initial : ResetController) (inputs : Nat → BusInputs)
    (controlled : Controlled initial inputs) {slave : Slave} (output : 0 < slave.outputWidth)
    {write read : Nat} {store load : Access} (late : 11 ≤ write) (before : write < read)
    (powered : ∀ cycle, write ≤ cycle + 10 → cycle ≤ read → (inputs cycle).resetN = true)
    (stored : (inputs write).access = some store) (stores : store.write = true)
    (toPort : store.word = slave.base)
    (kept : ∀ between, write < between → between < read → ∀ access,
      (inputs between).access = some access → access.write = true → access.word ≠ slave.base)
    (loaded : (inputs read).access = some load) (loads : load.write = false)
    (fromPort : load.word = slave.base) :
    responseAt inputs read =
      some ((store.writeData.setWidth slave.outputWidth).setWidth 32) := by
  have released : ∀ cycle, write ≤ cycle → cycle ≤ read →
      (inputs cycle).portResetN = true := by
    intro cycle lower upper
    have low : resetOut initial (fun now => !(inputs now).resetN) cycle = false :=
      resetOut_low initial _ (fun now (after : write - 11 < now) upTo =>
        congrArg not (powered now (by omega) (by omega))) (by omega)
    rw [controlled, low]
    rfl
  -- From the store on the port holds its data until the load.
  have holds : ∀ cycle, write + 1 ≤ cycle → cycle ≤ read →
      slave.outPort (busPortsAt inputs cycle) =
        (store.writeData.setWidth slave.outputWidth).setWidth 32 := by
    intro cycle lower
    induction cycle, lower using Nat.le_induction with
    | base =>
        intro _upper
        rw [busPortsAt_succ released (Nat.le_refl _) before, stored,
          outPort_busNext slave store _ output, if_pos ⟨stores, toPort⟩]
    | succ cycle lower ih =>
        intro upper
        rw [busPortsAt_succ released (Nat.le_of_succ_le lower) upper]
        have same := ih (Nat.le_of_succ_le upper)
        cases asked : (inputs cycle).access with
        | none => exact same
        | some access =>
            have elsewhere : ¬(access.write = true ∧ access.word = slave.base) := by
              rintro ⟨writes, there⟩
              exact kept cycle lower upper access asked writes there
            rw [outPort_busNext slave access _ output, if_neg elsewhere, same]
  rw [responseAt_read loaded loads (pad_of_output slave output) fromPort,
    readData_output slave output, holds read before (Nat.le_refl _)]

/-- A board reset of six periods, a delay of 0x1ff written through `system.h`, a stray
write to the end flag and a write to the next word of the port. -/
def delayAccesses (cycle : Nat) : BusInputs :=
  { resetN := !decide (cycle < 6)
    portResetN := !resetOut powerOn (fun now => decide (now < 6)) cycle
    access :=
      if cycle = 20 then some (.iowr Slave.delaySpi.base 0 0x1ff)
      else if cycle = 21 then some (.iowr Slave.endSpi.base 0 1)
      else if cycle = 22 then some (.iowr Slave.delaySpi.base 1 7)
      else some (.iord Slave.delaySpi.base 0)
    spiDspMisoIn := fun _index => false }

theorem delayAccesses_controlled : Controlled powerOn delayAccesses := by
  intro cycle
  simp only [delayAccesses, Bool.not_not]

theorem read_back_delay : responseAt delayAccesses 23 = some 0xff := by
  have output : 0 < Slave.delaySpi.outputWidth := by decide
  refine read_back powerOn delayAccesses delayAccesses_controlled output
    (by decide : 11 ≤ 20) (by decide)
    (fun cycle lower _upper => congrArg not (decide_eq_false (by omega))) rfl rfl
    (iowr_word .delaySpi 0x1ff) ?_ rfl rfl (iord_word .delaySpi)
  intro between lower upper access asked _writes
  obtain rfl | rfl : between = 21 ∨ between = 22 := by omega
  · obtain rfl := Option.some.inj asked
    decide
  · obtain rfl := Option.some.inj asked
    decide

end SpiFpga.Top
