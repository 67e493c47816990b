/-
# Control and status registers

`set_csr` and `get_csr`, with the privilege changes and the trigger updates that
go with them.  A CSR number is looked up once; the code that a register runs is
selected by the enumeration `Csr`.
-/

import SpikeSim.Riscv.Mmu

namespace SpikeSim.Riscv

variable {β : Type}

/-! ## Numbers -/

/-- The registers that `set_csr` or `get_csr` handle by name. -/
inductive Csr
  | fflags | frm | fcsr | cycle | instret
  | sstatus | sie | stvec | sscratch | sepc | scause | sbadaddr | sip | sptbr
  | mstatus | misa | medeleg | mideleg | mie | mtvec | mucounteren | mscounteren
  | mscratch | mepc | mcause | mbadaddr | mip
  | tselect | tdata1 | tdata2 | tdata3 | dcsr | dpc | dscratch
  | mcycle | minstret | mcycleh | minstreth
  | mvendorid | marchid | mimpid | mhartid
  deriving DecidableEq, Repr

def Csr.num : Csr → Reg
  | .fflags => 0x001 | .frm => 0x002 | .fcsr => 0x003 | .cycle => 0xc00 | .instret => 0xc02
  | .sstatus => 0x100 | .sie => 0x104 | .stvec => 0x105 | .sscratch => 0x140 | .sepc => 0x141
  | .scause => 0x142 | .sbadaddr => 0x143 | .sip => 0x144 | .sptbr => 0x180
  | .mstatus => 0x300 | .misa => 0x301 | .medeleg => 0x302 | .mideleg => 0x303 | .mie => 0x304
  | .mtvec => 0x305 | .mucounteren => 0x320 | .mscounteren => 0x321 | .mscratch => 0x340
  | .mepc => 0x341 | .mcause => 0x342 | .mbadaddr => 0x343 | .mip => 0x344
  | .tselect => 0x7a0 | .tdata1 => 0x7a1 | .tdata2 => 0x7a2 | .tdata3 => 0x7a3
  | .dcsr => 0x7b0 | .dpc => 0x7b1 | .dscratch => 0x7b2
  | .mcycle => 0xb00 | .minstret => 0xb02 | .mcycleh => 0xb80 | .minstreth => 0xb82
  | .mvendorid => 0xf11 | .marchid => 0xf12 | .mimpid => 0xf13 | .mhartid => 0xf14

def allCsrs : List Csr :=
  [.fflags, .frm, .fcsr, .cycle, .instret, .sstatus, .sie, .stvec, .sscratch, .sepc, .scause,
   .sbadaddr, .sip, .sptbr, .mstatus, .misa, .medeleg, .mideleg, .mie, .mtvec, .mucounteren,
   .mscounteren, .mscratch, .mepc, .mcause, .mbadaddr, .mip, .tselect, .tdata1, .tdata2, .tdata3,
   .dcsr, .dpc, .dscratch, .mcycle, .minstret, .mcycleh, .minstreth, .mvendorid, .marchid,
   .mimpid, .mhartid]

def Csr.ofNum (which : Reg) : Option Csr := allCsrs.find? fun c => c.num == which

/-! ## Privilege and triggers -/

/-- `set_privilege`.  The levels that the callers pass come from two-bit fields,
so the assertion on them holds. -/
def setPrivilege (prv : Prv) : M β Unit := do
  flushTlb
  modifyHart fun h => { h with prv := if prv = prvH then prvU else prv }

def enterDebugMode (cause : DebugCause) : M β Unit := do
  record (.debugEntered (← getHart).dcsr.cause)
  modifyHart fun h => { h with dcsr := { h.dcsr with cause := cause, prv := h.prv } }
  setPrivilege prvM
  modifyHart fun h => { h with dpc := h.pc, pc := debugRomStart }

def triggerUpdated : M β Unit := do
  flushTlb
  let h ← getHart
  let any (f : Mcontrol → Bool) : Bool := [(0 : Fin 4), 1, 2, 3].any fun i => f (h.mcontrol i)
  modifyMmu fun u => { u with
    checkTriggersFetch := any Mcontrol.execute
    checkTriggersLoad := any Mcontrol.load
    checkTriggersStore := any Mcontrol.store }

/-! ## Writing -/

/-- `dirty_fp_state`, at the width of the code that uses it. -/
def dirtyFpState (xlen : Xlen) (h : Hart) : Hart :=
  { h with mstatus := h.mstatus ||| (mstatusFs ||| if xlen = .rv64 then mstatus64Sd else mstatus32Sd) }

def validateVm (maxXlen : Xlen) (vm : Reg) : Bool :=
  (maxXlen == .rv64 && (vm == vmSv39 || vm == vmSv48)) || (maxXlen == .rv32 && vm == vmSv32) ||
    vm == vmMbare

/-- The bits of `mstatus` that a write changes. -/
def mstatusWriteMask (h : Hart) (val : Reg) : Reg :=
  let mask := mstatusSie ||| mstatusSpie ||| mstatusMie ||| mstatusMpie ||| mstatusSpp |||
    mstatusFs ||| mstatusMprv ||| mstatusPum ||| mstatusMpp ||| mstatusMxr |||
    (if h.ext then mstatusXs else 0)
  if validateVm h.maxXlen (getField val mstatusVm) then mask ||| mstatusVm else mask

/-- The bits of `mstatus` that translation depends on. -/
def mstatusVmBits : Reg :=
  mstatusVm ||| mstatusMpp ||| mstatusMprv ||| mstatusPum ||| mstatusMxr

/-- The new `mstatus`, with `SD` recomputed. -/
def newMstatus (h : Hart) (val : Reg) : Reg :=
  let mask := mstatusWriteMask h val
  let status := (h.mstatus &&& ~~~mask) ||| (val &&& mask)
  let dirty := status &&& mstatusFs == mstatusFs || status &&& mstatusXs == mstatusXs
  setField status (if h.maxXlen = .rv32 then mstatus32Sd else mstatus64Sd) (boolReg dirty)

def setMstatus (val : Reg) : M β Unit := do
  let h ← getHart
  let val := zextXlen h.xlen val
  if (val ^^^ h.mstatus) &&& mstatusVmBits ≠ 0 then flushTlb
  modifyHart fun h => { h with mstatus := newMstatus h val, xlen := h.maxXlen }

def setMip (h : Hart) (val : Reg) : Hart :=
  let val := zextXlen h.xlen val
  let mask := mipSsip ||| mipStip
  { h with mip := (h.mip &&& ~~~mask) ||| (val &&& mask) }

def setMie (h : Hart) (val : Reg) : Hart :=
  let val := zextXlen h.xlen val
  { h with mie := (h.mie &&& ~~~allInts) ||| (val &&& allInts) }

/-- The extensions that `misa` can switch: M, A, F, D and C. -/
def misaMask (h : Hart) : Reg :=
  ((1 <<< 12) ||| (1 <<< 0) ||| (1 <<< 5) ||| (1 <<< 3) ||| (1 <<< 2)) &&& h.maxIsa

def setMisa (h : Hart) (val : Reg) : Hart :=
  let val := if val &&& (1 <<< 5) = 0 then val &&& ~~~(1 <<< 3 : Reg) else val
  { h with isa := (val &&& misaMask h) ||| (h.isa &&& ~~~misaMask h) }

/-- The `mcontrol` fields of a `tdata1` write.  An execute trigger has no
`timing`. -/
def setMcontrol (xlen : Xlen) (val : Reg) (mc : Mcontrol) : Mcontrol :=
  { mc with
    dmode := hasField val (1 <<< (xlen.bits - 5))
    select := hasField val (1 <<< 19)
    timing := hasField val (1 <<< 18) && !hasField val (1 <<< 2)
    action := getField val (0x3f <<< 12)
    chain := hasField val (1 <<< 11)
    matchKind := getField val (0xf <<< 7)
    m := hasField val (1 <<< 6)
    h := hasField val (1 <<< 5)
    s := hasField val (1 <<< 4)
    u := hasField val (1 <<< 3)
    execute := hasField val (1 <<< 2)
    store := hasField val (1 <<< 1)
    load := hasField val (1 <<< 0) }

def setDcsr (h : Hart) (val : Reg) : Hart :=
  { h with dcsr := { h.dcsr with
    prv := Prv.ofReg (getField val 3)
    step := hasField val (1 <<< 2)
    ebreakm := hasField val (1 <<< 15)
    ebreakh := hasField val (1 <<< 14)
    ebreaks := hasField val (1 <<< 13)
    ebreaku := hasField val (1 <<< 12)
    halt := hasField val (1 <<< 3) } }

/-- The causes that `medeleg` can delegate: those that `encoding.h` declares. -/
def medelegMask : Reg := 0xfff

/-- `set_csr` on a register that it knows. -/
def writeCsr (csr : Csr) (val : Reg) : M β Unit := do
  let h ← getHart
  let val := zextXlen h.xlen val
  match csr with
  | .fflags => modifyHart fun h => { dirtyFpState h.xlen h with fflags := (val &&& 0x1f).setWidth 32 }
  | .frm => modifyHart fun h => { dirtyFpState h.xlen h with frm := (val &&& 0x7).setWidth 32 }
  | .fcsr => modifyHart fun h => { dirtyFpState h.xlen h with
      fflags := (val &&& 0x1f).setWidth 32
      frm := ((val &&& 0xe0) >>> 5).setWidth 32 }
  | .mstatus => setMstatus val
  | .mip => modifyHart fun h => setMip h val
  | .mie => modifyHart fun h => setMie h val
  | .mideleg => modifyHart fun h => { h with
      mideleg := (h.mideleg &&& ~~~delegableInts) ||| (val &&& delegableInts) }
  | .medeleg => modifyHart fun h => { h with
      medeleg := (h.medeleg &&& ~~~medelegMask) ||| (val &&& medelegMask) }
  | .minstret | .mcycle => modifyHart fun h => { h with
      minstret := if h.xlen = .rv32 then
          ((h.minstret >>> 32) <<< 32) ||| (val &&& 0xffffffff)
        else val }
  | .minstreth | .mcycleh => modifyHart fun h => { h with
      minstret := (val <<< 32) ||| ((h.minstret <<< 32) >>> 32) }
  | .mucounteren => modifyHart fun h => { h with mucounteren := val.setWidth 32 }
  | .mscounteren => modifyHart fun h => { h with mscounteren := val.setWidth 32 }
  | .sstatus => setMstatus ((h.mstatus &&& ~~~sstatusMask) ||| (val &&& sstatusMask))
  | .sip =>
    let mask := mipSsip &&& h.mideleg
    modifyHart fun h => setMip h ((h.mip &&& ~~~mask) ||| (val &&& mask))
  | .sie => modifyHart fun h => setMie h ((h.mie &&& ~~~h.mideleg) ||| (val &&& h.mideleg))
  | .sptbr =>
    -- `paddr_bits` asserts that the hart runs at its full width.
    if h.xlen ≠ h.maxXlen then throw .abort
    let paddrBits := if h.maxXlen = .rv64 then 50 else 34
    modifyHart fun h => { h with sptbr := val &&& ((1 <<< (paddrBits - pgshift)) - 1) }
  | .sepc => modifyHart fun h => { h with sepc := val }
  | .stvec => modifyHart fun h => { h with stvec := (val >>> 2) <<< 2 }
  | .sscratch => modifyHart fun h => { h with sscratch := val }
  | .scause => modifyHart fun h => { h with scause := val }
  | .sbadaddr => modifyHart fun h => { h with sbadaddr := val }
  | .mepc => modifyHart fun h => { h with mepc := val }
  | .mtvec => modifyHart fun h => { h with mtvec := (val >>> 2) <<< 2 }
  | .mscratch => modifyHart fun h => { h with mscratch := val }
  | .mcause => modifyHart fun h => { h with mcause := val }
  | .mbadaddr => modifyHart fun h => { h with mbadaddr := val }
  | .misa => modifyHart fun h => setMisa h val
  | .tselect =>
    if val < 4 then modifyHart fun h => { h with tselect := Fin.ofNat 4 val.toNat }
  | .tdata1 =>
    if (h.mcontrol h.tselect).dmode && !h.inDebugMode then pure ()
    else
      modifyHart fun h => { h with
        mcontrol := Function.update h.mcontrol h.tselect
          (setMcontrol h.xlen val (h.mcontrol h.tselect)) }
      triggerUpdated
  | .tdata2 =>
    if (h.mcontrol h.tselect).dmode && !h.inDebugMode then pure ()
    else modifyHart fun h => { h with tdata2 := Function.update h.tdata2 h.tselect val }
  | .dcsr => modifyHart fun h => setDcsr h val
  | .dpc => modifyHart fun h => { h with dpc := val }
  | .dscratch => modifyHart fun h => { h with dscratch := val }
  | .cycle | .instret | .tdata3 | .mvendorid | .marchid | .mimpid | .mhartid => pure ()

def setCsr (which val : Reg) : M β Unit :=
  match Csr.ofNum which with
  | none => pure ()
  | some csr => writeCsr csr val

/-! ## Reading -/

/-- `require_fp`, and the test for F that only `break`s out of the switch; both
end in an illegal instruction. -/
def fpCsrReadable (h : Hart) : Bool := h.mstatus &&& mstatusFs != 0 && h.supportsExtension 'F'

/-- `tdata1` as it is read. -/
def readMcontrol (xlen : Xlen) (mc : Mcontrol) : Reg :=
  let v := setField 0 (0xf <<< (xlen.bits - 4)) mc.type
  let v := setField v (1 <<< (xlen.bits - 5)) (boolReg mc.dmode)
  let v := setField v (0x3f <<< (xlen.bits - 11)) mc.maskmax
  let v := setField v (1 <<< 19) (boolReg mc.select)
  let v := setField v (1 <<< 18) (boolReg mc.timing)
  let v := setField v (0x3f <<< 12) mc.action
  let v := setField v (1 <<< 11) (boolReg mc.chain)
  let v := setField v (0xf <<< 7) mc.matchKind
  let v := setField v (1 <<< 6) (boolReg mc.m)
  let v := setField v (1 <<< 5) (boolReg mc.h)
  let v := setField v (1 <<< 4) (boolReg mc.s)
  let v := setField v (1 <<< 3) (boolReg mc.u)
  let v := setField v (1 <<< 2) (boolReg mc.execute)
  let v := setField v (1 <<< 1) (boolReg mc.store)
  setField v (1 <<< 0) (boolReg mc.load)

def DebugCause.toReg : DebugCause → Reg
  | .none => 0 | .swbp => 1 | .hwbp => 2 | .debugint => 3 | .step => 4 | .halt => 5

/-- `dcsr` as it is read. -/
def readDcsr (dcsr : Dcsr) (debugInterrupt : Bool) : Reg :=
  let v := setField 0 (3 <<< 30) 1
  let v := setField v 3 dcsr.prv.toReg
  let v := setField v (1 <<< 2) (boolReg dcsr.step)
  let v := setField v (1 <<< 5) (boolReg debugInterrupt)
  let v := setField v (1 <<< 15) (boolReg dcsr.ebreakm)
  let v := setField v (1 <<< 14) (boolReg dcsr.ebreakh)
  let v := setField v (1 <<< 13) (boolReg dcsr.ebreaks)
  let v := setField v (1 <<< 12) (boolReg dcsr.ebreaku)
  let v := setField v (1 <<< 3) (boolReg dcsr.halt)
  setField v (7 <<< 6) dcsr.cause.toReg

/-- The counters that the current privilege level may read. -/
def ctrOk (h : Hart) (which : Reg) : Bool :=
  let ctrEn : Reg :=
    if h.prv = prvU then h.mucounteren.setWidth 64
    else if h.prv = prvS then h.mscounteren.setWidth 64
    else 0xffffffff
  (ctrEn >>> (which &&& 31).toNat) &&& 1 != 0

/-- The counters and event selectors that read as zero. -/
def readsZero (h : Hart) (which : Reg) : Bool :=
  (ctrOk h which && ((0xc03 ≤ which && which ≤ 0xc1f) ||
    (h.xlen == .rv32 && 0xc83 ≤ which && which ≤ 0xc9f))) ||
  (0xb03 ≤ which && which ≤ 0xb1f) || (0x323 ≤ which && which ≤ 0x33f)

/-- `get_csr` on a register that it knows; `none` is an illegal instruction. -/
def readCsr (id : Reg) (debugInterrupt : Bool) (h : Hart) : Csr → Option Reg
  | .fflags => if fpCsrReadable h then some (h.fflags.setWidth 64) else none
  | .frm => if fpCsrReadable h then some (h.frm.setWidth 64) else none
  | .fcsr =>
    if fpCsrReadable h then some ((h.fflags ||| (h.frm <<< 5)).setWidth 64) else none
  | .instret => if ctrOk h Csr.instret.num then some h.minstret else none
  | .cycle => if ctrOk h Csr.cycle.num then some h.minstret else none
  | .minstret | .mcycle => some h.minstret
  | .minstreth | .mcycleh => if h.xlen = .rv32 then some (h.minstret >>> 32) else none
  | .mucounteren => some (h.mucounteren.setWidth 64)
  | .mscounteren => some (h.mscounteren.setWidth 64)
  | .sstatus =>
    let sstatus := h.mstatus &&& sstatusMask
    if sstatus &&& mstatusFs = mstatusFs ∨ sstatus &&& mstatusXs = mstatusXs then
      some (sstatus ||| if h.xlen = .rv32 then mstatus32Sd else mstatus64Sd)
    else some sstatus
  | .sip => some (h.mip &&& h.mideleg)
  | .sie => some (h.mie &&& h.mideleg)
  | .sepc => some h.sepc
  | .sbadaddr => some h.sbadaddr
  | .stvec => some h.stvec
  | .scause =>
    if h.xlen.bits < h.maxXlen.bits then
      some (h.scause ||| ((h.scause >>> (h.maxXlen.bits - 1)) <<< (h.xlen.bits - 1)))
    else some h.scause
  | .sptbr => some h.sptbr
  | .sscratch => some h.sscratch
  | .mstatus => some h.mstatus
  | .mip => some h.mip
  | .mie => some h.mie
  | .mepc => some h.mepc
  | .mscratch => some h.mscratch
  | .mcause => some h.mcause
  | .mbadaddr => some h.mbadaddr
  | .misa => some h.isa
  | .marchid | .mimpid | .mvendorid => some 0
  | .mhartid => some id
  | .mtvec => some h.mtvec
  | .medeleg => some h.medeleg
  | .mideleg => some h.mideleg
  | .tselect => some (BitVec.ofNat 64 h.tselect.val)
  | .tdata1 => some (readMcontrol h.xlen (h.mcontrol h.tselect))
  | .tdata2 => some (h.tdata2 h.tselect)
  | .tdata3 => some 0
  | .dcsr => some (readDcsr h.dcsr debugInterrupt)
  | .dpc => some h.dpc
  | .dscratch => some h.dscratch

def getCsr (P : Platform β) (which : Reg) : M β Reg := do
  let m ← get
  if readsZero m.hart which then return 0
  match (Csr.ofNum which).bind (readCsr P.id (P.debugInterrupt m.dev) m.hart) with
  | none => throwTrap .illegalInstruction
  | some v => return v

/-! ## Traps -/

/-- The mode and the cause of `ebreak` that send the hart to debug mode. -/
def ebreakEnters (h : Hart) : Bool :=
  (h.prv == prvM && h.dcsr.ebreakm) || (h.prv == prvH && h.dcsr.ebreakh) ||
    (h.prv == prvS && h.dcsr.ebreaks) || (h.prv == prvU && h.dcsr.ebreaku)

/-- The trap is delegated to S-mode. -/
def delegated (h : Hart) (cause : Reg) : Bool :=
  let top : Reg := 1 <<< (h.maxXlen.bits - 1)
  let interrupt := cause &&& top != 0
  let deleg := if interrupt then h.mideleg else h.medeleg
  let bit := if interrupt then cause &&& ~~~top else cause
  h.prv ≤ prvS && bit < BitVec.ofNat 64 h.maxXlen.bits && ((deleg >>> bit.toNat) &&& 1 != 0)

def yieldLoadReservation : M β Unit := modifyHart fun h => { h with loadReservation := -1 }

def takeTrap (t : Trap) (epc : Reg) : M β Unit := do
  let h ← getHart
  record (.trapTaken t.cause epc)
  if t.cause = 3 ∧ ebreakEnters h then enterDebugMode .swbp
  else if h.inDebugMode then modifyHart fun h => { h with pc := debugRomException }
  else
    let enabled := getField h.mstatus (mstatusUie <<< h.prv.val)
    if delegated h t.cause then
      modifyHart fun h => { h with
        pc := h.stvec
        scause := t.cause
        sepc := epc
        sbadaddr := t.badaddr.getD h.sbadaddr }
      let s := setField h.mstatus mstatusSpie enabled
      let s := setField s mstatusSpp h.prv.toReg
      setMstatus (setField s mstatusSie 0)
      setPrivilege prvS
    else
      modifyHart fun h => { h with
        pc := h.mtvec
        mepc := epc
        mcause := t.cause
        mbadaddr := t.badaddr.getD h.mbadaddr }
      let s := setField h.mstatus mstatusMpie enabled
      let s := setField s mstatusMpp h.prv.toReg
      setMstatus (setField s mstatusMie 0)
      setPrivilege prvM
    yieldLoadReservation

/-! ## Interrupts -/

/-- `ctz`, used on a value that is not zero. -/
def ctz (val : Reg) : Nat → Nat
  | 0 => 0
  | n + 1 => if val &&& 1 = 0 then ctz (val >>> 1) n + 1 else 0

def enabledInterrupts (h : Hart) : Reg :=
  let pending := h.mip &&& h.mie
  let mEnabled := h.prv < prvM || (h.prv == prvM && hasField h.mstatus mstatusMie)
  let sEnabled := h.prv < prvS || (h.prv == prvS && hasField h.mstatus mstatusSie)
  (pending &&& ~~~h.mideleg &&& -boolReg mEnabled) ||| (pending &&& h.mideleg &&& -boolReg sEnabled)

def takeInterrupt : M β Unit := do
  let h ← getHart
  let enabled := enabledInterrupts h
  if enabled ≠ 0 then
    throwTrap ⟨(1 <<< (h.maxXlen.bits - 1)) ||| BitVec.ofNat 64 (ctz enabled 64), none⟩

/-! ## Reset -/

def defaultRstvec : Reg := 0x1000
def defaultMtvec : Reg := 0x1010

/-- A trigger after reset: all of its fields are zero but the type. -/
def Mcontrol.reset : Mcontrol where
  type := 2
  dmode := false
  maskmax := 0
  select := false
  timing := false
  action := 0
  chain := false
  matchKind := 0
  m := false
  h := false
  s := false
  u := false
  execute := false
  store := false
  load := false

/-- The hart after `processor_t::reset`, without extension.  The write of `mstatus`
there gives it its full width. -/
def Hart.reset (maxXlen : Xlen) (isa : Reg) (halt : Bool) : Hart where
  pc := defaultRstvec
  xpr := fun _ => 0
  fpr := fun _ => 0
  prv := prvM
  mstatus := 0
  mepc := 0
  mbadaddr := 0
  mscratch := 0
  mtvec := defaultMtvec
  mcause := 0
  minstret := 0
  mie := 0
  mip := 0
  medeleg := 0
  mideleg := 0
  mucounteren := 0
  mscounteren := 0
  sepc := 0
  sbadaddr := 0
  sscratch := 0
  stvec := 0
  sptbr := 0
  scause := 0
  dpc := 0
  dscratch := 0
  dcsr := ⟨0, false, false, false, false, false, halt, .none⟩
  tselect := 0
  mcontrol := fun _ => .reset
  tdata2 := fun _ => 0
  fflags := 0
  frm := 0
  serialized := false
  singleStep := .none
  loadReservation := -1
  maxXlen := maxXlen
  xlen := maxXlen
  isa := isa
  maxIsa := isa
  ext := false
  debug := false

/-- The memory port after its constructor; what an unused entry holds does not
matter. -/
def Mmu.reset : Mmu where
  tlbData := fun _ => 0
  tlbInsnTag := fun _ => -1
  tlbLoadTag := fun _ => -1
  tlbStoreTag := fun _ => -1
  icache := fun _ => ⟨-1, .illegalInstruction, ⟨0⟩⟩
  checkTriggersFetch := false
  checkTriggersLoad := false
  checkTriggersStore := false
  matchedTrigger := none

/-- The machine after reset, with the given memory and devices. -/
def Machine.reset (maxXlen : Xlen) (isa : Reg) (halt : Bool) (decoder : Decode.Decoder)
    (dram : Reg → BitVec 8) (dev : β) : Machine β where
  hart := .reset maxXlen isa halt
  mmu := .reset
  decoder := decoder
  dram := dram
  dev := dev
  trace := []
  events := []

/-- A megabyte of memory and no device: the bus refuses every access. -/
def Platform.bare : Platform Unit where
  mem := 0
  memsz := 0x100000
  id := 0
  busLoad := fun _ _ dev => (none, dev)
  busStore := fun _ _ _ dev mip => (false, dev, mip)
  debugInterrupt := fun _ => false
  interested := fun _ => false
  fetchTemp := 0
  memsz_dvd := by decide
  memsz_le := by decide
  mem_le := by decide

/-- The bytes of a ROM that starts at the reset vector; elsewhere there are `nop`s. -/
def romByte (words : List Reg) (addr : Reg) : BitVec 8 :=
  let word := words.getD ((addr - 0x1000) >>> 2).toNat 0x13
  (word >>> ((addr &&& 3) <<< 3)).setWidth 8

/-- A megabyte of memory, a ROM, and the line of the debug interrupt. -/
def Platform.rom (words : List Reg) : Platform Bool where
  mem := 0
  memsz := 0x100000
  id := 0
  busLoad := fun addr len line => (some (readLE (romByte words) addr len), line)
  busStore := fun _ _ _ line mip => (false, line, mip)
  debugInterrupt := fun line => line
  interested := fun _ => false
  fetchTemp := 0
  memsz_dvd := by decide
  memsz_le := by decide
  mem_le := by decide

end SpikeSim.Riscv
