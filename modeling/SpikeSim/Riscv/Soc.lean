/-
# The harts and the devices of the simulated system

`sim_t` owns the harts, the memory and a bus with four kinds of devices: the debug
module, the boot ROM, the real-time clock and, for inter-processor interrupts, the
harts themselves.  One hart runs at a time.  The state that the harts share goes with
the one that runs; the rest of the others is parked.

A store to a device may reach `mip` of any hart, so the devices hold `mip` of the
harts that do not run.
-/

import SpikeSim.Riscv.Run

namespace SpikeSim.Riscv

/-! ## Devices -/

-- Membership in the lists of harts is decided by this.
instance lawfulBEqHartId : LawfulBEq (BitVec 32) := instLawfulBEq

/-- `debug_module_t`. -/
structure DebugModule where
  ram : Reg → BitVec 8
  interrupt : List (BitVec 32)
  haltNotification : List (BitVec 32)

/-- The devices, and `mip` of the harts that do not run.  The registers of the clock are
`mtime` and one `mtimecmp` for each hart; `increments` records the calls of
`rtc_t::increment` and is read by no function. -/
structure Soc (N : Nat) where
  rtc : Fin (N + 1) → Reg
  mip : Fin N → Reg
  debugModule : DebugModule
  increments : List Reg

/-- What is fixed when the simulator starts. -/
structure Board where
  mem : Reg
  memsz : Reg
  interested : AccessType → Bool
  fetchTemp : Reg
  /-- `debug_rom_raw`. -/
  debugRom : List (BitVec 8)
  /-- The reset vector and the configuration string. -/
  bootRom : List (BitVec 8)
  memsz_dvd : 2 ^ 20 ∣ memsz.toNat
  memsz_le : dramBase.toNat + memsz.toNat ≤ 2 ^ 64
  mem_le : mem.toNat + memsz.toNat ≤ 2 ^ 64

namespace Soc

variable {N : Nat}

def mtime (s : Soc N) : Reg := s.rtc 0

def mtimecmp (s : Soc N) (i : Fin N) : Reg := s.rtc i.succ

/-- `mip` after the clock was compared with the register of the hart. -/
def timed (s : Soc N) (i : Fin N) (mip : Reg) : Reg :=
  if s.mtimecmp i ≤ s.mtime then mip &&& ~~~mipMtip ||| mipMtip else mip &&& ~~~mipMtip

/-- The clock after `regs[0] += inc`. -/
def tick (inc : Reg) (s : Soc N) : Soc N :=
  { s with
    rtc := Function.update s.rtc 0 (s.rtc 0 + inc)
    increments := s.increments ++ [inc] }

/-- `rtc_t::increment`, and `mip` of the hart that runs. -/
def increment (running : Fin N) (inc : Reg) (s : Soc N) (mip : Reg) : Soc N × Reg :=
  let s := s.tick inc
  ({ s with mip := fun i => s.timed i (s.mip i) }, s.timed running mip)

/-- `rtc_t::size`. -/
def rtcSize (N : Nat) : Reg := BitVec.ofNat 64 (8 * (N + 1))

/-- Byte `k` of a number. -/
def byteOf (v : Reg) (k : Nat) : BitVec 8 := (v >>> (8 * k)).setWidth 8

/-- Byte `k` of the registers of the clock. -/
def rtcByte (rtc : Fin (N + 1) → Reg) (k : Nat) : BitVec 8 :=
  if h : k / 8 < N + 1 then byteOf (rtc ⟨k / 8, h⟩) (k % 8) else 0

/-- The `memcpy` of `rtc_t::store`.  What it writes outside of the registers is lost. -/
def rtcCopy (rtc : Fin (N + 1) → Reg) (addr : Reg) (len : Nat) (data : Reg) :
    Fin (N + 1) → Reg := fun i =>
  readLE (fun b =>
    let k := 8 * i.val + b.toNat
    if addr.toNat ≤ k ∧ k < addr.toNat + len then byteOf data (k - addr.toNat)
    else byteOf (rtc i) b.toNat) 0 8

/-- `rtc_t::load`. -/
def rtcLoad (addr : Reg) (len : Nat) (s : Soc N) : Option Reg :=
  if rtcSize N < addr + BitVec.ofNat 64 len then none
  else some (readLE (fun k => rtcByte s.rtc k.toNat) addr len)

/-- `rtc_t::store`. -/
def rtcStore (running : Fin N) (addr : Reg) (len : Nat) (data : Reg) (s : Soc N) (mip : Reg) :
    Bool × Soc N × Reg :=
  if rtcSize N < addr + BitVec.ofNat 64 len ∨ addr < 8 then (false, s, mip)
  else (true, increment running 0 { s with rtc := rtcCopy s.rtc addr len data } mip)

/-- `processor_t::store`: an inter-processor interrupt. -/
def hartStore (running target : Fin N) (addr : Reg) (data : Reg) (s : Soc N) (mip : Reg) :
    Bool × Soc N × Reg :=
  let interrupt (mip : Reg) : Reg :=
    if data &&& 1 ≠ 0 then mip &&& ~~~mipMsip ||| mipMsip else mip &&& ~~~mipMsip
  if addr ≠ 0 then (false, s, mip)
  else if target = running then (true, s, interrupt mip)
  else (true, { s with mip := Function.update s.mip target (interrupt (s.mip target)) }, mip)

/-! ## The debug module and the boot ROM -/

def debugStart : Reg := 0x100
def debugRamStart : Reg := 0x400
def debugRamEnd : Reg := 0x440
def debugCleardebint : Reg := 0x100
def debugSethaltnot : Reg := 0x10c

/-- The bytes of a ROM as a number. -/
def romRead (rom : List (BitVec 8)) (addr : Reg) (len : Nat) : Reg :=
  readLE (fun k => rom.getD k.toNat 0) addr len

/-- `debug_module_t::load`. -/
def debugLoad (B : Board) (addr : Reg) (len : Nat) (d : DebugModule) : Option Reg :=
  let addr := debugStart + addr
  let last := addr + BitVec.ofNat 64 len
  if debugRamStart ≤ addr ∧ last ≤ debugRamEnd then
    some (readLE d.ram (addr - debugRamStart) len)
  else if debugRomStart ≤ addr ∧ last ≤ debugRomStart + BitVec.ofNat 64 B.debugRom.length then
    some (romRead B.debugRom (addr - debugRomStart) len)
  else none

/-- `debug_module_t::store`. -/
def debugStore (addr : Reg) (len : Nat) (data : Reg) (d : DebugModule) : Bool × DebugModule :=
  let addr := debugStart + addr
  if addr &&& (BitVec.ofNat 64 len - 1) ≠ 0 then (false, d)
  else if debugRamStart ≤ addr ∧ addr + BitVec.ofNat 64 len ≤ debugRamEnd then
    (true, { d with ram := writeLE d.ram (addr - debugRamStart) len data })
  else if len = 4 ∧ addr = debugCleardebint then
    (true, { d with interrupt := d.interrupt.filter (· ≠ data.setWidth 32) })
  else if len = 4 ∧ addr = debugSethaltnot then
    (true, { d with haltNotification := data.setWidth 32 :: d.haltNotification })
  else (false, d)

/-- `rom_device_t::load`. -/
def romLoad (rom : List (BitVec 8)) (addr : Reg) (len : Nat) : Option Reg :=
  if BitVec.ofNat 64 rom.length < addr + BitVec.ofNat 64 len then none
  else some (romRead rom addr len)

/-! ## The bus -/

inductive Device (N : Nat)
  | debugModule
  | rtc
  | hart (i : Fin N)
  | bootRom
  deriving DecidableEq

/-- `bus_t::add_device`: the map is keyed by the negated address. -/
def addDevice {δ : Type} (devices : List (Reg × δ)) (addr : Reg) (dev : δ) : List (Reg × δ) :=
  (-addr, dev) :: devices.filter fun d => d.1 ≠ -addr

/-- `std::map::lower_bound`. -/
def lowerBound {δ : Type} (key : Reg) (devices : List (Reg × δ)) : Option (Reg × δ) :=
  devices.foldl
    (fun best d => if key ≤ d.1 ∧ best.all fun b => d.1 < b.1 then some d else best) none

def extIoBase : Reg := 0x40000000

/-- The address of the registers of a hart. -/
def hartAddr (i : Fin N) : Reg :=
  extIoBase + BitVec.ofNat 64 (((8 * (N + 1) - 1) / 0x1000 + 1) * 0x1000) +
    BitVec.ofNat 64 (0x1000 * i.val)

/-- The devices that the constructor of `sim_t` and `make_config_string` add. -/
def devices (N : Nat) : List (Reg × Device N) :=
  let start := addDevice (addDevice [] debugStart .debugModule) extIoBase .rtc
  let harts := (List.finRange N).foldl (fun ds i => addDevice ds (hartAddr i) (.hart i)) start
  addDevice harts defaultRstvec .bootRom

/-- `bus_t::load`. -/
def busLoad (B : Board) (addr : Reg) (len : Nat) (s : Soc N) : Option Reg :=
  match lowerBound (-addr) (devices N) with
  | none => none
  | some (key, dev) =>
    let addr := addr - -key
    match dev with
    | .debugModule => debugLoad B addr len s.debugModule
    | .rtc => rtcLoad addr len s
    | .hart _ => none
    | .bootRom => romLoad B.bootRom addr len

/-- `bus_t::store`. -/
def busStore (running : Fin N) (addr : Reg) (len : Nat) (data : Reg) (s : Soc N) (mip : Reg) :
    Bool × Soc N × Reg :=
  match lowerBound (-addr) (devices N) with
  | none => (false, s, mip)
  | some (key, dev) =>
    let addr := addr - -key
    match dev with
    | .debugModule =>
      let (ok, d) := debugStore addr len data s.debugModule
      (ok, { s with debugModule := d }, mip)
    | .rtc => rtcStore running addr len data s mip
    | .hart target => hartStore running target addr data s mip
    | .bootRom => (false, s, mip)

end Soc

/-- The system as one of its harts sees it. -/
def Board.platform {N : Nat} (B : Board) (i : Fin N) : Platform (Soc N) where
  mem := B.mem
  memsz := B.memsz
  id := BitVec.ofNat 64 i.val
  busLoad addr len s := (Soc.busLoad B addr len s, s)
  busStore := Soc.busStore i
  debugInterrupt s := BitVec.ofNat 32 i.val ∈ s.debugModule.interrupt
  interested := B.interested
  fetchTemp := B.fetchTemp
  memsz_dvd := B.memsz_dvd
  memsz_le := B.memsz_le
  mem_le := B.mem_le

/-! ## The system -/

/-- What a hart that does not run keeps for itself. -/
structure Core where
  hart : Hart
  mmu : Mmu
  decoder : Decode.Decoder
  trace : List Traced
  events : List Event

/-- The system: where the hart that runs is in its call of `step`, with the shared state,
and the other harts. -/
structure System (N : Nat) where
  current : Fin N
  point : Point (Soc N)
  parked : Fin N → Core

namespace System

variable {N : Nat}

def soc (s : System N) : Soc N := s.point.machine.dev

/-- `state.mip` of a hart. -/
def mip (s : System N) (i : Fin N) : Reg :=
  if i = s.current then s.point.machine.hart.mip else s.soc.mip i

/-- The machine in which hart `i` runs next. -/
def resume (parked : Fin N → Core) (i : Fin N) (dram : Reg → BitVec 8) (soc : Soc N) :
    Machine (Soc N) :=
  let core := parked i
  { hart := { core.hart with mip := soc.mip i }
    mmu := core.mmu
    decoder := core.decoder
    dram := dram
    dev := soc
    trace := core.trace
    events := core.events }

/-- The turn passes from the hart that runs in `m` to hart `i`, as in `sim_t::step`. -/
def pass (s : System N) (m : Machine (Soc N)) (i : Fin N) : System N :=
  let hart := { m.hart with loadReservation := -1 }
  let parked := Function.update s.parked s.current ⟨hart, m.mmu, m.decoder, m.trace, m.events⟩
  let soc := { m.dev with mip := Function.update m.dev.mip s.current m.hart.mip }
  ⟨i, .idle (resume parked i m.dram soc), parked⟩

/-- The clock advances between two turns. -/
def incrementClock (s : System N) (m : Machine (Soc N)) (inc : Reg) : System N :=
  let (soc, mip) := m.dev.increment s.current inc m.hart.mip
  { s with point := .idle { m with dev := soc, hart := { m.hart with mip := mip } } }

/-- The host stores to a device by way of `debug_mmu`. -/
def hostStore (B : Board) (s : System N) (m : Machine (Soc N)) (addr : Reg) (len : Nat)
    (data : Reg) : System N :=
  let (_, soc, mip) := (B.platform s.current).mmioStore addr len data m.dev m.hart.mip
  { s with point := .idle { m with dev := soc, hart := { m.hart with mip := mip } } }

end System

/-- What the host may do without going over the bus: it writes the memory, commands the debug
module and sets `debug` of a hart. -/
structure HostActs {N : Nat} (m m' : Machine (Soc N)) : Prop where
  hart : ∃ debug, m'.hart = { m.hart with debug := debug }
  mmu : m'.mmu = m.mmu
  decoder : m'.decoder = m.decoder
  dev : ∃ d, m'.dev = { m.dev with debugModule := d }
  trace : m'.trace = m.trace
  events : m'.events = m.events

/-- The steps of the system.  The order of the turns and the moments at which the clock
advances are left open. -/
inductive SystemStep {N : Nat} (B : Board) (F : SoftFloat) : System N → System N → Prop
  /-- The hart that runs is called. -/
  | call (s : System N) {m m' : Machine (Soc N)} (n : Nat) {left : Nat} (hpoint : s.point = .idle m)
      (h : stepPrologue (B.platform s.current) n m = .ok left m') :
      SystemStep B F s { s with point := .head left m' }
  /-- It goes on with its call. -/
  | inside (s : System N) (hcall : ∀ m, s.point ≠ .idle m) :
      SystemStep B F s { s with point := s.point.next (B.platform s.current) F }
  /-- The turn passes to hart `i`. -/
  | pass (s : System N) {m : Machine (Soc N)} (hpoint : s.point = .idle m) (i : Fin N) :
      SystemStep B F s (s.pass m i)
  | increment (s : System N) {m : Machine (Soc N)} (hpoint : s.point = .idle m) (inc : Reg) :
      SystemStep B F s (s.incrementClock m inc)
  | hostStore (s : System N) {m : Machine (Soc N)} (hpoint : s.point = .idle m) (addr : Reg)
      (len : Nat) (data : Reg) : SystemStep B F s (s.hostStore B m addr len data)
  | host (s : System N) {m m' : Machine (Soc N)} (hpoint : s.point = .idle m)
      (h : HostActs m m') : SystemStep B F s { s with point := .idle m' }

end SpikeSim.Riscv
