/-
# The memory port

A shallow embedding of `mmu_t` and of the trigger unit it consults: address
translation, the TLB with its inline fast paths, the slow paths, and the fetch of
instructions.  Functions that may throw are in `M`; a page-table walk is split
into the search for the leaf entry, which only reads, and the update of its
accessed and dirty bits.
-/

import SpikeSim.Riscv.State

namespace SpikeSim.Riscv

variable {β : Type}

/-! ## Triggers -/

/-- `cto`: the number of contiguous ones from the lowest bit. -/
def cto (val : Reg) : Nat → Nat
  | 0 => 0
  | n + 1 => if val &&& 1 = 1 then cto (val >>> 1) n + 1 else 0

/-- The comparison that a trigger makes with its `tdata2`. -/
def triggerCompare (xlen : Xlen) (matchKind value tdata2 : Reg) : Bool :=
  let high := tdata2 >>> (xlen.bits / 2)
  if matchKind = 0 then value == tdata2
  else if matchKind = 1 then
    -- The mask is computed in `int` and sign-extended.
    let mask : Reg := (~~~((1#32 <<< (cto tdata2 64 % 32)) - 1)).signExtend 64
    value &&& mask == tdata2 &&& mask
  else if matchKind = 2 then tdata2 ≤ value
  else if matchKind = 3 then value < tdata2
  else if matchKind = 4 then value &&& high == tdata2 &&& high
  else if matchKind = 5 then (value >>> (xlen.bits / 2)) &&& high == tdata2 &&& high
  else true

/-- Whether a trigger looks at this operation at this privilege level. -/
def triggerEnabled (h : Hart) (operation : TriggerOperation) (mc : Mcontrol) : Bool :=
  !((operation == .execute && !mc.execute) || (operation == .store && !mc.store) ||
    (operation == .load && !mc.load) || (h.prv == prvM && !mc.m) || (h.prv == prvH && !mc.h) ||
    (h.prv == prvS && !mc.s) || (h.prv == prvU && !mc.u))

/-- The loop of `trigger_match` over the triggers that are left. -/
def triggerMatchFrom (h : Hart) (operation : TriggerOperation) (address data : Reg) :
    (chainOk : Bool) → List (Fin 4) → Option (Fin 4)
  | _, [] => none
  | chainOk, i :: rest =>
    let mc := h.mcontrol i
    if !chainOk then triggerMatchFrom h operation address data (chainOk || !mc.chain) rest
    else if !triggerEnabled h operation mc then
      triggerMatchFrom h operation address data chainOk rest
    else
      let value := if mc.select then data else address
      let value := if h.xlen = .rv32 then value &&& 0xffffffff else value
      if !triggerCompare h.xlen mc.matchKind value (h.tdata2 i) then
        triggerMatchFrom h operation address data chainOk rest
      else if !mc.chain then some i
      else triggerMatchFrom h operation address data true rest

/-- `trigger_match`: the trigger that matches, if any. -/
def triggerMatch (h : Hart) (operation : TriggerOperation) (address data : Reg) :
    Option (Fin 4) :=
  if h.inDebugMode then none
  else triggerMatchFrom h operation address data true [0, 1, 2, 3]

/-- The trigger check of a load or a store.  A trigger with `timing` 0 is thrown
at once; one with `timing` 1 is remembered as well, so that the restarted
instruction does not match again. -/
def checkTrigger (operation : TriggerOperation) (address data : Reg) : M β Unit := do
  let m ← get
  if m.mmu.matchedTrigger.isNone then
    match triggerMatch m.hart operation address data with
    | none => pure ()
    | some i =>
      let matched : TriggerMatched := ⟨i, operation, address, data⟩
      if (m.hart.mcontrol i).timing then
        modifyMmu fun u => { u with matchedTrigger := some matched }
      throw (.trigger matched)

/-! ## Flushing -/

def flushIcache : M β Unit :=
  modifyMmu fun u => { u with icache := fun i => { u.icache i with tag := -1 } }

def flushTlb : M β Unit := do
  modifyMmu fun u => { u with
    tlbInsnTag := fun _ => -1
    tlbLoadTag := fun _ => -1
    tlbStoreTag := fun _ => -1 }
  flushIcache

/-! ## Translation -/

def pgshift : Nat := 12

def pageOffset (addr : Reg) : Reg := addr &&& 0xfff

/-- The shape of a page table: levels, index bits and the size of an entry. -/
structure VmShape where
  levels : Nat
  ptidxbits : Nat
  ptesize : Nat
  deriving DecidableEq, Repr

/-- The modes that `walk` knows; any other one is `abort()`. -/
def vmShape (mstatus : Reg) : Option VmShape :=
  let vm := getField mstatus mstatusVm
  if vm = vmSv32 then some ⟨2, 10, 4⟩
  else if vm = vmSv39 then some ⟨3, 9, 8⟩
  else if vm = vmSv48 then some ⟨4, 9, 8⟩
  else none

def pteTable (pte : Reg) : Bool := pte &&& (pteV ||| pteR ||| pteW ||| pteX) == pteV

/-- The reasons for which `walk` stops at a leaf entry. -/
def pteDenied (type : AccessType) (supervisor pum mxr : Bool) (pte : Reg) : Bool :=
  (if pte &&& pteU != 0 then supervisor && pum else !supervisor) ||
  (pte &&& pteV == 0 || (pte &&& pteR == 0 && pte &&& pteW != 0)) ||
  match type with
  | .fetch => pte &&& pteX == 0
  | .load => pte &&& pteR == 0 && !(mxr && pte &&& pteX != 0)
  | .store => !(pte &&& pteR != 0 && pte &&& pteW != 0)

variable (P : Platform β)

/-- The levels of the walk that are left: the host address of the leaf entry and
the physical page.  `shift` is `ptshift` of the next level. -/
def walkLevels (dram : Reg → BitVec 8) (shape : VmShape) (type : AccessType)
    (supervisor pum mxr : Bool) (addr : Reg) : (levels : Nat) → (base : Reg) → Option (Reg × Reg)
  | 0, _ => none
  | level + 1, base =>
    let ptshift := level * shape.ptidxbits
    let idx := (addr >>> (pgshift + ptshift)) &&& ((1 <<< shape.ptidxbits) - 1)
    let pteAddr := base + idx * BitVec.ofNat 64 shape.ptesize
    if !P.addrIsMem pteAddr then none
    else
      let ppte := P.addrToMem pteAddr
      let pte := readLE dram ppte shape.ptesize
      let ppn := pte >>> 10
      if pteTable pte then
        walkLevels dram shape type supervisor pum mxr addr level (ppn <<< pgshift)
      else if pteDenied type supervisor pum mxr pte then none
      else
        let vpn := addr >>> pgshift
        some (ppte, (ppn ||| (vpn &&& ((1 <<< ptshift) - 1))) <<< pgshift)

/-- The leaf entry that `walk` finds. -/
def walkLeaf (h : Hart) (dram : Reg → BitVec 8) (shape : VmShape) (addr : Reg)
    (type : AccessType) (mode : Prv) : Option (Reg × Reg) :=
  let vaBits := pgshift + shape.levels * shape.ptidxbits
  let mask : Reg := (1 <<< (h.xlen.bits - (vaBits - 1))) - 1
  let maskedMsbs := (addr >>> (vaBits - 1)) &&& mask
  if maskedMsbs ≠ 0 ∧ maskedMsbs ≠ mask then none
  else walkLevels P dram shape type (mode == prvS) (hasField h.mstatus mstatusPum)
    (hasField h.mstatus mstatusMxr) addr shape.levels (h.sptbr <<< pgshift)

/-- The accessed bit, and the dirty bit of a store. -/
def pteAccessBits (type : AccessType) : Reg := if type = .store then pteA ||| pteD else pteA

def markAccessed (dram : Reg → BitVec 8) (ppte : Reg) (type : AccessType) : Reg → BitVec 8 :=
  writeLE dram ppte 4 (readLE dram ppte 4 ||| pteAccessBits type)

def walk (addr : Reg) (type : AccessType) (mode : Prv) : M β Reg := do
  let m ← get
  match vmShape m.hart.mstatus with
  | none => throw .abort
  | some shape =>
    match walkLeaf P m.hart m.dram shape addr type mode with
    | none => return -1
    | some (ppte, value) =>
      modify fun m => { m with dram := markAccessed m.dram ppte type }
      return value

/-- The mode in which an access is translated. -/
def translationMode (h : Hart) (type : AccessType) : Prv :=
  let mode :=
    if type ≠ .fetch ∧ !h.inDebugMode ∧ hasField h.mstatus mstatusMprv then
      Prv.ofReg (getField h.mstatus mstatusMpp)
    else h.prv
  if getField h.mstatus mstatusVm = vmMbare then prvM else mode

/-- The low `xlen` bits. -/
def xlenMask (xlen : Xlen) : Reg := ((2 : Reg) <<< (xlen.bits - 1)) - 1

def translate (addr : Reg) (type : AccessType) : M β Reg := do
  let h ← getHart
  let mode := translationMode h type
  if mode = prvM then
    return addr &&& xlenMask h.xlen
  else
    return (← walk P addr type mode) ||| pageOffset addr

/-! ## The TLB -/

/-- The flag of a tag whose accesses have to check for triggers. -/
def tlbCheckTriggers : Reg := 1 <<< 63

def tlbIndex (vpn : Reg) : Fin 256 := Fin.ofNat 256 vpn.toNat

def Mmu.tlbTag (u : Mmu) : AccessType → Fin 256 → Reg
  | .fetch => u.tlbInsnTag
  | .load => u.tlbLoadTag
  | .store => u.tlbStoreTag

def Mmu.checkTriggers (u : Mmu) : AccessType → Bool
  | .fetch => u.checkTriggersFetch
  | .load => u.checkTriggersLoad
  | .store => u.checkTriggersStore

/-- The tags of one kind after a refill of page `vpn`: a tag of another page in
the slot is dropped, and the kind that is refilled gets the new tag. -/
def refillTag (u : Mmu) (vpn : Reg) (type kind : AccessType) : Fin 256 → Reg :=
  let idx := tlbIndex vpn
  let old := u.tlbTag kind idx
  let kept := if old &&& ~~~tlbCheckTriggers ≠ vpn then -1 else old
  let fresh := if u.checkTriggers type then vpn ||| tlbCheckTriggers else vpn
  Function.update (u.tlbTag kind) idx (if kind = type then fresh else kept)

def refillTlb (vaddr paddr : Reg) (type : AccessType) : M β Unit :=
  let vpn := vaddr >>> pgshift
  modifyMmu fun u => { u with
    tlbInsnTag := refillTag u vpn type .fetch
    tlbLoadTag := refillTag u vpn type .load
    tlbStoreTag := refillTag u vpn type .store
    tlbData := Function.update u.tlbData (tlbIndex vpn) (P.addrToMem paddr - vaddr) }

/-! ## Loads and stores -/

/-- The C++ types that are loaded: a number of bytes and a sign. -/
structure MemType where
  bytes : Nat
  signed : Bool
  deriving DecidableEq, Repr

def uint8 : MemType := ⟨1, false⟩
def uint16 : MemType := ⟨2, false⟩
def uint32 : MemType := ⟨4, false⟩
def uint64 : MemType := ⟨8, false⟩
def int8 : MemType := ⟨1, true⟩
def int16 : MemType := ⟨2, true⟩
def int32 : MemType := ⟨4, true⟩
def int64 : MemType := ⟨8, true⟩

/-- The conversion of a value of the type to `reg_t`. -/
def MemType.toReg (ty : MemType) (v : Reg) : Reg :=
  let unused := 64 - 8 * ty.bytes
  if ty.signed then (v <<< unused).sshiftRight unused else (v <<< unused) >>> unused

def misaligned (addr : Reg) (bytes : Nat) : Bool := addr &&& BitVec.ofNat 64 (bytes - 1) != 0

def traceAccess (addr : Reg) (bytes : Nat) (type : AccessType) : M β Unit :=
  modify fun m => { m with trace := m.trace ++ [⟨addr, bytes, type⟩] }

def loadSlowPath (addr : Reg) (len : Nat) : M β Reg := do
  let paddr ← translate P addr .load
  let m ← get
  let data ← (do
    if P.addrIsMem paddr then
      if P.interested .load then traceAccess paddr len .load
      else refillTlb P addr paddr .load
      return readLE m.dram (P.addrToMem paddr) len
    else
      let (data, dev) := P.mmioLoad paddr len m.dev
      modify fun m => { m with dev := dev }
      match data with
      | none => throwTrap (.loadAccessFault addr)
      | some data => return data)
  checkTrigger .load addr data
  return data

/-- `load_func`. -/
def load (ty : MemType) (addr : Reg) : M β Reg := do
  if misaligned addr ty.bytes then throwTrap (.loadAddressMisaligned addr)
  let vpn := addr >>> pgshift
  let m ← get
  let tag := m.mmu.tlbLoadTag (tlbIndex vpn)
  let data := ty.toReg (readLE m.dram (m.mmu.tlbData (tlbIndex vpn) + addr) ty.bytes)
  if tag = vpn then return data
  else if tag = vpn ||| tlbCheckTriggers then
    checkTrigger .load addr data
    return data
  else return ty.toReg (← loadSlowPath P addr ty.bytes)

def storeSlowPath (addr : Reg) (len : Nat) (data : Reg) : M β Unit := do
  let paddr ← translate P addr .store
  checkTrigger .store addr data
  let m ← get
  if P.addrIsMem paddr then
    modify fun m => { m with dram := writeLE m.dram (P.addrToMem paddr) len data }
    if P.interested .store then traceAccess paddr len .store
    else refillTlb P addr paddr .store
  else
    let (ok, dev, mip) := P.mmioStore paddr len data m.dev m.hart.mip
    modify fun m => { m with dev := dev, hart := { m.hart with mip := mip } }
    if !ok then throwTrap (.storeAccessFault addr)

/-- `store_func`; `val` is converted to the type first. -/
def store (ty : MemType) (addr val : Reg) : M β Unit := do
  if misaligned addr ty.bytes then throwTrap (.storeAddressMisaligned addr)
  let val := ty.toReg val
  let vpn := addr >>> pgshift
  let m ← get
  let tag := m.mmu.tlbStoreTag (tlbIndex vpn)
  let write := modify fun (m : Machine β) => { m with
    dram := writeLE m.dram (m.mmu.tlbData (tlbIndex vpn) + addr) ty.bytes val }
  if tag = vpn then write
  else if tag = vpn ||| tlbCheckTriggers then
    checkTrigger .store addr val
    write
  else storeSlowPath P addr ty.bytes val

/-- `amo_func`: a load access fault is reported as a store fault. -/
def amo (ty : MemType) (addr : Reg) (f : Reg → Reg) : M β Reg := do
  if misaligned addr ty.bytes then throwTrap (.storeAddressMisaligned addr)
  tryCatch
    (do
      let lhs ← load P ty addr
      store P ty addr (f lhs)
      pure lhs)
    fun
      | .trap t => if t.cause = 5 then throwTrap ⟨7, t.badaddr⟩ else throwTrap t
      | e => throw e

/-! ## Instruction fetch -/

/-- A halfword of code and the host address it was read from. -/
structure Halfword where
  value : Reg
  ptr : Reg

/-- What is left of a value in a `uint16_t`, such as `fetch_temp`. -/
def zext16 (v : Reg) : Reg := (v.setWidth 16).setWidth 64

def fetchSlowPath (vaddr : Reg) : M β Halfword := do
  let paddr ← translate P vaddr .fetch
  if paddr = -1 ∧ vaddr ≠ -1 then throwTrap (.instructionAccessFault vaddr)
  let m ← get
  if P.addrIsMem paddr then
    refillTlb P vaddr paddr .fetch
    return ⟨readLE m.dram (P.addrToMem paddr) 2, P.addrToMem paddr⟩
  else
    let (data, dev) := P.mmioLoad paddr 2 m.dev
    modify fun m => { m with dev := dev }
    match data with
    | none => throwTrap (.instructionAccessFault vaddr)
    | some data => return ⟨zext16 data, P.fetchTemp⟩

/-- `translate_insn_addr`, with the halfword that the caller reads. -/
def translateInsnAddr (addr : Reg) : M β Halfword := do
  let vpn := addr >>> pgshift
  let m ← get
  let tag := m.mmu.tlbInsnTag (tlbIndex vpn)
  let ptr := m.mmu.tlbData (tlbIndex vpn) + addr
  let value := readLE m.dram ptr 2
  if tag = vpn then return ⟨value, ptr⟩
  else if tag = vpn ||| tlbCheckTriggers then
    match triggerMatch m.hart .execute addr value with
    | some i => throw (.trigger ⟨i, .execute, addr, value⟩)
    | none => return ⟨value, ptr⟩
  else fetchSlowPath P addr

/-- A halfword read as `int16_t`. -/
def sext16 (v : Reg) : Reg := (v.setWidth 16).signExtend 64

/-- The instruction word at an address; its last halfword is sign-extended. -/
def fetchBits (addr : Reg) : M β (Insn × Nat × Reg) := do
  let first ← translateInsnAddr P addr
  let length := insnLength first.value
  if length = 4 then
    let h1 ← translateInsnAddr P (addr + 2)
    return (⟨first.value ||| (sext16 h1.value <<< 16)⟩, length, first.ptr)
  else if length = 2 then
    return (⟨sext16 first.value⟩, length, first.ptr)
  else if length = 6 then
    let h2 ← translateInsnAddr P (addr + 4)
    let h1 ← translateInsnAddr P (addr + 2)
    return (⟨first.value ||| (sext16 h2.value <<< 32) ||| (h1.value <<< 16)⟩, length, first.ptr)
  else
    let h3 ← translateInsnAddr P (addr + 6)
    let h2 ← translateInsnAddr P (addr + 4)
    let h1 ← translateInsnAddr P (addr + 2)
    return (⟨first.value ||| (sext16 h3.value <<< 48) ||| (h2.value <<< 32) |||
      (h1.value <<< 16)⟩, length, first.ptr)

/-- `decode_insn` at the width of the hart. -/
def decodeInsn (insn : Insn) : M β Decode.InsnFunc := do
  let m ← get
  match Decode.decodeInsn m.hart.xlen insn.bits m.decoder with
  | none => throw .abort
  | some (func, decoder) =>
    modify fun m => { m with decoder := decoder }
    return func

/-- `refill_icache`: the entry it fills.  A traced fetch leaves no tag behind. -/
def refillEntry (addr : Reg) : M β IcacheEntry := do
  let (insn, length, ptr) ← fetchBits P addr
  let func ← decodeInsn insn
  if P.interested .fetch then
    traceAccess (P.memToAddr ptr) length .fetch
    return ⟨-1, func, insn⟩
  else return ⟨addr, func, insn⟩

def icacheIndex (addr : Reg) : Fin 1024 := Fin.ofNat 1024 (addr.toNat / 2)

def refillIcache (addr : Reg) (i : Fin 1024) : M β Unit := do
  let entry ← refillEntry P addr
  modifyMmu fun u => { u with icache := Function.update u.icache i entry }

/-- `access_icache`: afterwards the entry at the index of the address is the
instruction to execute. -/
def accessIcache (addr : Reg) : M β Unit := do
  if ((← get).mmu.icache (icacheIndex addr)).tag ≠ addr then
    refillIcache P addr (icacheIndex addr)

def loadInsn (addr : Reg) : M β (Decode.InsnFunc × Insn) := do
  let entry ← refillEntry P addr
  return (entry.func, entry.insn)

end SpikeSim.Riscv
