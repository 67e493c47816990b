/-
# The state of a hart

One hart with the caches of its `mmu_t`, the memory of the machine and the devices
on the bus.  `Hart` gathers `state_t` and the fields of `processor_t` that its
functions read; `Machine` adds what lies behind the memory port.

What the repository leaves to its environment is a parameter: the devices on the
bus are a state type `β` with the functions of a `Platform`.
-/

import SpikeSim.Riscv.Fields
import SpikeSim.Decode.Lookup
import SpikeSim.MemTracer

namespace SpikeSim.Riscv

/-! ## Architectural state -/

/-- `dcsr.cause`. -/
inductive DebugCause
  | none | swbp | hwbp | debugint | step | halt
  deriving DecidableEq, Repr

/-- `dcsr_t`. -/
structure Dcsr where
  prv : Prv
  step : Bool
  ebreakm : Bool
  ebreakh : Bool
  ebreaks : Bool
  ebreaku : Bool
  halt : Bool
  cause : DebugCause
  deriving DecidableEq, Repr

/-- `mcontrol_t`.  The two enumerations keep the raw value of their field. -/
structure Mcontrol where
  type : Reg
  dmode : Bool
  maskmax : Reg
  select : Bool
  timing : Bool
  action : Reg
  chain : Bool
  matchKind : Reg
  m : Bool
  h : Bool
  s : Bool
  u : Bool
  execute : Bool
  store : Bool
  load : Bool
  deriving DecidableEq, Repr

inductive SingleStep
  | none | stepping | stepped
  deriving DecidableEq, Repr

/-- `state_t`, with the width and the extensions of the processor. -/
structure Hart where
  pc : Reg
  xpr : Fin 32 → Reg
  fpr : Fin 32 → Reg
  prv : Prv
  mstatus : Reg
  mepc : Reg
  mbadaddr : Reg
  mscratch : Reg
  mtvec : Reg
  mcause : Reg
  minstret : Reg
  mie : Reg
  mip : Reg
  medeleg : Reg
  mideleg : Reg
  mucounteren : BitVec 32
  mscounteren : BitVec 32
  sepc : Reg
  sbadaddr : Reg
  sscratch : Reg
  stvec : Reg
  sptbr : Reg
  scause : Reg
  dpc : Reg
  dscratch : Reg
  dcsr : Dcsr
  tselect : Fin 4
  mcontrol : Fin 4 → Mcontrol
  tdata2 : Fin 4 → Reg
  fflags : BitVec 32
  frm : BitVec 32
  serialized : Bool
  singleStep : SingleStep
  loadReservation : Reg
  maxXlen : Xlen
  xlen : Xlen
  isa : Reg
  maxIsa : Reg
  /-- An extension is registered. -/
  ext : Bool
  /-- Every instruction is printed, on the slow path. -/
  debug : Bool

namespace Hart

/-- `supports_extension`, for a capital letter. -/
def supportsExtension (h : Hart) (ext : Char) : Bool :=
  (h.isa >>> (ext.toNat - 'A'.toNat)) &&& 1 != 0

/-- In debug mode. -/
def inDebugMode (h : Hart) : Bool := h.dcsr.cause != .none

end Hart

/-! ## Exceptions -/

/-- `trap_t` and `mem_trap_t`. -/
structure Trap where
  cause : Reg
  badaddr : Option Reg
  deriving DecidableEq, Repr

namespace Trap

def instructionAddressMisaligned (addr : Reg) : Trap := ⟨0, some addr⟩
def instructionAccessFault (addr : Reg) : Trap := ⟨1, some addr⟩
def illegalInstruction : Trap := ⟨2, none⟩
def breakpoint : Trap := ⟨3, none⟩
def loadAddressMisaligned (addr : Reg) : Trap := ⟨4, some addr⟩
def loadAccessFault (addr : Reg) : Trap := ⟨5, some addr⟩
def storeAddressMisaligned (addr : Reg) : Trap := ⟨6, some addr⟩
def storeAccessFault (addr : Reg) : Trap := ⟨7, some addr⟩
def userEcall : Trap := ⟨8, none⟩
def supervisorEcall : Trap := ⟨9, none⟩
def hypervisorEcall : Trap := ⟨10, none⟩
def machineEcall : Trap := ⟨11, none⟩

end Trap

inductive TriggerOperation
  | execute | store | load
  deriving DecidableEq, Repr

/-- `trigger_matched_t`. -/
structure TriggerMatched where
  index : Fin 4
  operation : TriggerOperation
  address : Reg
  data : Reg
  deriving DecidableEq, Repr

/-- What may be thrown.  `abort` ends the simulator. -/
inductive Exn
  | trap (t : Trap)
  | trigger (t : TriggerMatched)
  | abort
  deriving DecidableEq, Repr

/-! ## The memory port -/

/-- `icache_entry_t`. -/
structure IcacheEntry where
  tag : Reg
  func : Decode.InsnFunc
  insn : Insn

/-- The fields of `mmu_t`.  The TLB data are host pointers. -/
structure Mmu where
  tlbData : Fin 256 → Reg
  tlbInsnTag : Fin 256 → Reg
  tlbLoadTag : Fin 256 → Reg
  tlbStoreTag : Fin 256 → Reg
  icache : Fin 1024 → IcacheEntry
  checkTriggersFetch : Bool
  checkTriggersLoad : Bool
  checkTriggersStore : Bool
  matchedTrigger : Option TriggerMatched

/-- An access reported to the tracers. -/
structure Traced where
  addr : Reg
  bytes : Nat
  type : AccessType
  deriving DecidableEq, Repr

/-- What happens in a run, in order. -/
inductive Event
  | retired (pc : Reg) (bits : InsnBits)
  | trapTaken (cause epc : Reg)
  /-- `enter_debug_mode` was called while `dcsr.cause` was `prior`. -/
  | debugEntered (prior : DebugCause)
  deriving DecidableEq, Repr

/-- A hart, its memory port, the memory and the devices.  `dram` is the host
memory that holds the memory of the machine; `trace` and `events` record a run and
are read by no function. -/
structure Machine (β : Type) where
  hart : Hart
  mmu : Mmu
  decoder : Decode.Decoder
  dram : Reg → BitVec 8
  dev : β
  trace : List Traced
  events : List Event

/-- The memory of the machine and its environment: the host address and the size
of the memory, the bus, and the tracers. -/
structure Platform (β : Type) where
  mem : Reg
  memsz : Reg
  id : Reg
  /-- `bus.load`: the bytes read, as a number, and the devices afterwards. -/
  busLoad : (addr : Reg) → (len : Nat) → β → Option Reg × β
  /-- `bus.store`.  An inter-processor interrupt reaches `mip` of the hart itself. -/
  busStore : (addr : Reg) → (len : Nat) → (data : Reg) → β → (mip : Reg) → Bool × β × Reg
  /-- `debug_module.get_interrupt`. -/
  debugInterrupt : β → Bool
  /-- `tracer.interested_in_range`. -/
  interested : AccessType → Bool
  /-- The host address of `fetch_temp`. -/
  fetchTemp : Reg
  /-- The memory is a number of MiB and lies within both address spaces. -/
  memsz_dvd : 2 ^ 20 ∣ memsz.toNat
  memsz_le : dramBase.toNat + memsz.toNat ≤ 2 ^ 64
  mem_le : mem.toNat + memsz.toNat ≤ 2 ^ 64

/-- Code that may throw; what it did before stays done. -/
abbrev M (β : Type) := EStateM Exn (Machine β)

section Access

variable {β : Type}

def throwTrap {α : Type} (t : Trap) : M β α := throw (.trap t)

def getHart : M β Hart := do return (← get).hart

def modifyHart (f : Hart → Hart) : M β Unit := modify fun m => { m with hart := f m.hart }

def modifyMmu (f : Mmu → Mmu) : M β Unit := modify fun m => { m with mmu := f m.mmu }

def record (e : Event) : M β Unit := modify fun m => { m with events := m.events ++ [e] }

@[simp]
theorem run_throwTrap {α : Type} (t : Trap) (m : Machine β) :
    (throwTrap t : M β α) m = .error (.trap t) m := rfl

@[simp]
theorem run_getHart (m : Machine β) : getHart m = .ok m.hart m := rfl

@[simp]
theorem run_modifyHart (f : Hart → Hart) (m : Machine β) :
    modifyHart f m = .ok () { m with hart := f m.hart } := rfl

@[simp]
theorem run_modifyMmu (f : Mmu → Mmu) (m : Machine β) :
    modifyMmu f m = .ok () { m with mmu := f m.mmu } := rfl

@[simp]
theorem run_record (e : Event) (m : Machine β) :
    record e m = .ok () { m with events := m.events ++ [e] } := rfl

end Access

/-! ## Host memory -/

/-- The `n` bytes at a host pointer, as a little-endian number. -/
def readLE (dram : Reg → BitVec 8) (ptr : Reg) : Nat → Reg
  | 0 => 0
  | n + 1 => (dram ptr).setWidth 64 ||| (readLE dram (ptr + 1) n <<< 8)

def writeLE (dram : Reg → BitVec 8) (ptr : Reg) : Nat → Reg → Reg → BitVec 8
  | 0, _ => dram
  | n + 1, v => writeLE (Function.update dram ptr (v.setWidth 8)) (ptr + 1) n (v >>> 8)

namespace Platform

variable {β : Type} (P : Platform β)

def addrIsMem (addr : Reg) : Bool := dramBase ≤ addr && addr < dramBase + P.memsz

def addrToMem (addr : Reg) : Reg := P.mem + addr - dramBase

def memToAddr (ptr : Reg) : Reg := ptr - P.mem + dramBase

def mmioLoad (addr : Reg) (len : Nat) (dev : β) : Option Reg × β :=
  if addr + BitVec.ofNat 64 len < addr then (none, dev) else P.busLoad addr len dev

def mmioStore (addr : Reg) (len : Nat) (data : Reg) (dev : β) (mip : Reg) : Bool × β × Reg :=
  if addr + BitVec.ofNat 64 len < addr then (false, dev, mip) else P.busStore addr len data dev mip

end Platform

end SpikeSim.Riscv
