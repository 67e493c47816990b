/-
# Atomic memory operations

An `amo` instruction loads a word, combines it with a register and stores the result, over
the two TLB paths of a load and of a store.  The operations are given here on words of their
own width (`AmoOp.apply`), and the place of a word is that of the TLB or of the page table
(`Machine.place`).
-/

import SpikeSim.Lib.NarrowArith
import SpikeSim.Riscv.DataTrace
import SpikeSim.Riscv.Legal
import SpikeSim.Riscv.TlbAccess
import SpikeSim.Riscv.Walk

namespace SpikeSim.Riscv

open Handler Relation

variable {β : Type}

/-! ## The operations -/

inductive AmoOp
  | swap | add | xor | and | or | min | max | minu | maxu
  deriving DecidableEq, Repr

/-- The result of an operation on words of `n` bits. -/
def AmoOp.apply {n : Nat} : AmoOp → (old operand : BitVec n) → BitVec n
  | .swap, _, operand => operand
  | .add, old, operand => old + operand
  | .xor, old, operand => old ^^^ operand
  | .and, old, operand => old &&& operand
  | .or, old, operand => old ||| operand
  | .min, old, operand => if old.toInt ≤ operand.toInt then old else operand
  | .max, old, operand => if operand.toInt ≤ old.toInt then old else operand
  | .minu, old, operand => if old.toNat ≤ operand.toNat then old else operand
  | .maxu, old, operand => if operand.toNat ≤ old.toNat then old else operand

/-- The suffixes `.w` and `.d`. -/
inductive AmoWidth
  | w | d
  deriving DecidableEq, Repr

namespace AmoWidth

def bytes : AmoWidth → Nat
  | .w => 4
  | .d => 8

def bits : AmoWidth → Nat
  | .w => 32
  | .d => 64

def type : AmoWidth → MemType
  | .w => uint32
  | .d => uint64

/-- What the handlers require. -/
def needs : AmoWidth → List Need
  | .w => [.extension 'A']
  | .d => [.extension 'A', .rv64]

/-- What the handlers make of the old value. -/
def result : AmoWidth → Reg → Reg
  | .w => sext32
  | .d => id

theorem type_bytes (width : AmoWidth) : width.type.bytes = width.bytes := by
  cases width <;> rfl

theorem bytes_pos (width : AmoWidth) : 0 < width.bytes := by
  cases width <;> decide

theorem bytes_le (width : AmoWidth) : width.bytes ≤ 8 := by
  cases width <;> decide

theorem bits_le (width : AmoWidth) : width.bits ≤ 64 := by
  cases width <;> decide

/-- A value in memory is converted to its low bits. -/
theorem type_toReg (width : AmoWidth) (v : Reg) :
    width.type.toReg v = (v.setWidth width.bits).setWidth 64 := by
  cases width with
  | w =>
      change (v <<< 32) >>> 32 = (v.setWidth 32).setWidth 64
      apply BitVec.eq_of_getLsbD_eq
      intro i hi
      simp only [BitVec.getLsbD_ushiftRight, BitVec.getLsbD_shiftLeft, BitVec.getLsbD_setWidth]
      by_cases hlow : i < 32
      · simp [hlow, hi, show 32 + i < 64 by omega]
      · simp [hlow, show ¬32 + i < 64 by omega]
  | d => simp [type, uint64, MemType.toReg, bits]

theorem result_setWidth (width : AmoWidth) (x : BitVec width.bits) :
    width.result (x.setWidth 64) = x.signExtend 64 := by
  cases width with
  | w =>
      exact congrArg (BitVec.signExtend 64) (setWidth_setWidth_self (by decide) x)
  | d =>
      exact (BitVec.setWidth_eq x).trans (BitVec.signExtend_eq x).symm

end AmoWidth

/-- The instruction of an operation at a width. -/
def AmoOp.insnName : AmoOp → AmoWidth → InsnName
  | .swap, .w => .amoswapW
  | .swap, .d => .amoswapD
  | .add, .w => .amoaddW
  | .add, .d => .amoaddD
  | .xor, .w => .amoxorW
  | .xor, .d => .amoxorD
  | .and, .w => .amoandW
  | .and, .d => .amoandD
  | .or, .w => .amoorW
  | .or, .d => .amoorD
  | .min, .w => .amominW
  | .min, .d => .amominD
  | .max, .w => .amomaxW
  | .max, .d => .amomaxD
  | .minu, .w => .amominuW
  | .minu, .d => .amominuD
  | .maxu, .w => .amomaxuW
  | .maxu, .d => .amomaxuD

/-- A function of registers computes an operation on their low bits, given the old value
without a sign. -/
def Computes (op : AmoOp) (n : Nat) (f : Reg → Reg → Reg) : Prop :=
  ∀ (old : BitVec n) (operand : Reg),
    (f (old.setWidth 64) operand).setWidth n = op.apply old (operand.setWidth n)

section Computes

theorem computes_swap {n : Nat} : Computes .swap n fun _ b => b := fun _ _ => rfl

variable {n : Nat} (hn : n ≤ 64)

include hn

theorem computes_add : Computes .add n fun lhs b => lhs + b := by
  intro old operand
  rw [BitVec.setWidth_add _ _ hn, setWidth_setWidth_self hn]
  rfl

theorem computes_xor : Computes .xor n fun lhs b => lhs ^^^ b := by
  intro old operand
  rw [BitVec.setWidth_xor, setWidth_setWidth_self hn]
  rfl

theorem computes_and : Computes .and n fun lhs b => lhs &&& b := by
  intro old operand
  rw [BitVec.setWidth_and, setWidth_setWidth_self hn]
  rfl

theorem computes_or : Computes .or n fun lhs b => lhs ||| b := by
  intro old operand
  rw [BitVec.setWidth_or, setWidth_setWidth_self hn]
  rfl

/-- The signed operations see both operands with their sign. -/
theorem computes_min : Computes .min n fun lhs b =>
    Insns.minS ((lhs.setWidth n).signExtend 64) ((b.setWidth n).signExtend 64) := by
  intro old operand
  simp only [setWidth_setWidth_self hn, Insns.minS, AmoOp.apply, BitVec.slt_eq_decide,
    BitVec.toInt_signExtend_of_le hn, decide_eq_true_eq]
  by_cases hle : old.toInt ≤ (operand.setWidth n).toInt
  · rw [if_neg (by omega), if_pos hle, setWidth_signExtend_self hn]
  · rw [if_pos (by omega), if_neg hle, setWidth_signExtend_self hn]

theorem computes_max : Computes .max n fun lhs b =>
    Insns.maxS ((lhs.setWidth n).signExtend 64) ((b.setWidth n).signExtend 64) := by
  intro old operand
  simp only [setWidth_setWidth_self hn, Insns.maxS, AmoOp.apply, BitVec.slt_eq_decide,
    BitVec.toInt_signExtend_of_le hn, decide_eq_true_eq]
  by_cases hle : (operand.setWidth n).toInt ≤ old.toInt
  · rw [if_neg (by omega), if_pos hle, setWidth_signExtend_self hn]
  · rw [if_pos (by omega), if_neg hle, setWidth_signExtend_self hn]

theorem toNat_setWidth_of_le (x : BitVec n) : (x.setWidth 64).toNat = x.toNat := by
  rw [BitVec.toNat_setWidth, Nat.mod_eq_of_lt]
  exact x.isLt.trans_le (Nat.pow_le_pow_right (by decide) hn)

theorem computes_minu : Computes .minu n fun lhs b =>
    Insns.minU lhs ((b.setWidth n).setWidth 64) := by
  intro old operand
  simp only [Insns.minU, AmoOp.apply, BitVec.lt_def, toNat_setWidth_of_le hn]
  by_cases hle : old.toNat ≤ (operand.setWidth n).toNat
  · rw [if_neg (by omega), if_pos hle, setWidth_setWidth_self hn]
  · rw [if_pos (by omega), if_neg hle, setWidth_setWidth_self hn]

theorem computes_maxu : Computes .maxu n fun lhs b =>
    Insns.maxU lhs ((b.setWidth n).setWidth 64) := by
  intro old operand
  simp only [Insns.maxU, AmoOp.apply, BitVec.lt_def, toNat_setWidth_of_le hn]
  by_cases hle : (operand.setWidth n).toNat ≤ old.toNat
  · rw [if_neg (by omega), if_pos hle, setWidth_setWidth_self hn]
  · rw [if_pos (by omega), if_neg hle, setWidth_setWidth_self hn]

end Computes

/-- A function that extends its arguments to 64 bits from 64 bits takes them as they are. -/
theorem Computes.of_eq {op : AmoOp} {n : Nat} {f g : Reg → Reg → Reg} (h : Computes op n f)
    (hfg : ∀ a b, f a b = g a b) : Computes op n g := by
  intro old operand
  rw [← hfg]
  exact h old operand

/-- **The handlers.**  Each of them is an AMO whose function computes its operation. -/
theorem handler_amo (F : SoftFloat) (op : AmoOp) (width : AmoWidth) (c : Ctx) :
    ∃ f, handler F (op.insnName width) c = amoOp width.needs width.type f width.result c ∧
      Computes op width.bits f := by
  have hsext (x : Reg) : (x.setWidth 64).signExtend 64 = x := by simp
  have hzext (x : Reg) : (x.setWidth 64).setWidth 64 = x := by simp
  cases width with
  | w =>
      have hle : 32 ≤ 64 := by decide
      cases op with
      | swap => exact ⟨_, rfl, computes_swap⟩
      | add => exact ⟨_, rfl, computes_add hle⟩
      | xor => exact ⟨_, rfl, computes_xor hle⟩
      | and => exact ⟨_, rfl, computes_and hle⟩
      | or => exact ⟨_, rfl, computes_or hle⟩
      | min => exact ⟨_, rfl, computes_min hle⟩
      | max => exact ⟨_, rfl, computes_max hle⟩
      | minu => exact ⟨_, rfl, computes_minu hle⟩
      | maxu => exact ⟨_, rfl, computes_maxu hle⟩
  | d =>
      have hle : 64 ≤ 64 := le_rfl
      cases op with
      | swap => exact ⟨_, rfl, computes_swap⟩
      | add => exact ⟨_, rfl, computes_add hle⟩
      | xor => exact ⟨_, rfl, computes_xor hle⟩
      | and => exact ⟨_, rfl, computes_and hle⟩
      | or => exact ⟨_, rfl, computes_or hle⟩
      | min => exact ⟨_, rfl, (computes_min hle).of_eq fun a b => by rw [hsext, hsext]⟩
      | max => exact ⟨_, rfl, (computes_max hle).of_eq fun a b => by rw [hsext, hsext]⟩
      | minu => exact ⟨_, rfl, (computes_minu hle).of_eq fun a b => by rw [hzext]⟩
      | maxu => exact ⟨_, rfl, (computes_maxu hle).of_eq fun a b => by rw [hzext]⟩

/-! ## Places -/

/-- Where the word of an access lies: in the host memory, or at a device. -/
inductive Place
  | memory (ptr : Reg)
  | device (paddr : Reg)
  deriving DecidableEq

section Places

variable (P : Platform β)

/-- The place of a physical address. -/
def Platform.placeOf (paddr : Reg) : Place :=
  if P.addrIsMem paddr then .memory (P.addrToMem paddr) else .device paddr

/-- The place to which an access goes: that of the TLB if it hits, else that of the page table.
There is none if the translation aborts. -/
def Machine.place (m : Machine β) (type : AccessType) (addr : Reg) : Option Place :=
  if TlbHit m.mmu type addr then
    some (.memory (m.mmu.tlbData (tlbIndex (addr >>> pgshift)) + addr))
  else (translation P m.hart m.dram addr type).map fun found => P.placeOf found.1

/-- A load of `len` bytes finds `data` at a place.  Nothing is written but the marks of its
walk. -/
inductive Place.Loads (len : Nat) (m m' : Machine β) : Place → (data : Reg) → Prop
  | memory (ptr : Reg) {data : Reg} (hread : ReadOnly P m m') (hdev : m'.dev = m.dev)
      (hdata : data = readLE m'.dram ptr len) : Loads len m m' (.memory ptr) data
  | device (paddr : Reg) {data : Reg} (hread : ReadOnly P m m')
      (hload : P.mmioLoad paddr len m.dev = (some data, m'.dev)) :
      Loads len m m' (.device paddr) data

/-- A store of `len` bytes puts `data` at a place.  In the memory nothing else is written but the
marks of its walk; a device may raise an interrupt. -/
inductive Place.Stores (len : Nat) (data : Reg) (m m' : Machine β) : Place → Prop
  | memory (ptr : Reg) {dram : Reg → BitVec 8} (hhart : m'.hart = m.hart) (hdev : m'.dev = m.dev)
      (hwalk : ReflTransGen (WalkUpdate P m.hart) m.dram dram)
      (hdram : m'.dram = writeLE dram ptr len data) : Stores len data m m' (.memory ptr)
  | device (paddr : Reg) {mip : Reg}
      (hstore : P.mmioStore paddr len data m.dev m.hart.mip = (true, m'.dev, mip))
      (hhart : m'.hart = { m.hart with mip := mip })
      (hwalk : ReflTransGen (WalkUpdate P m.hart) m.dram m'.dram) :
      Stores len data m m' (.device paddr)

end Places

/-! ## Accesses without triggers -/

section Untriggered

variable {P : Platform β} {m : Machine β}

/-- What an access to the memory leaves behind: it is traced, or refills the TLB. -/
def Machine.accessed (P : Platform β) (m : Machine β) (addr paddr : Reg) (len : Nat)
    (type : AccessType) : Machine β :=
  if P.interested type then { m with trace := m.trace ++ [⟨paddr, len, type⟩] }
  else { m with mmu := m.mmu.refilled P addr paddr type }

theorem Machine.accessed_hart (addr paddr : Reg) (len : Nat) (type : AccessType) :
    (m.accessed P addr paddr len type).hart = m.hart := by
  unfold Machine.accessed
  split <;> rfl

theorem Machine.accessed_dram (addr paddr : Reg) (len : Nat) (type : AccessType) :
    (m.accessed P addr paddr len type).dram = m.dram := by
  unfold Machine.accessed
  split <;> rfl

theorem Machine.accessed_dev (addr paddr : Reg) (len : Nat) (type : AccessType) :
    (m.accessed P addr paddr len type).dev = m.dev := by
  unfold Machine.accessed
  split <;> rfl

theorem run_loadSlowPath (huntriggered : m.hart.Untriggered) {addr paddr : Reg} {leaf : Option Reg}
    (htr : translation P m.hart m.dram addr .load = some (paddr, leaf)) (len : Nat) :
    loadSlowPath P addr len m =
      let mid : Machine β := { m with dram := markLeaf m.dram .load leaf }
      if P.addrIsMem paddr then
        .ok (readLE mid.dram (P.addrToMem paddr) len) (mid.accessed P addr paddr len .load)
      else
        match (P.mmioLoad paddr len m.dev).1 with
        | none => .error (.trap (.loadAccessFault addr)) (deviceLoad P paddr len mid)
        | some data => .ok data (deviceLoad P paddr len mid) := by
  have hchecked (data : Reg) (m' : Machine β) (hhart : m'.hart = m.hart) :
      (checkTrigger .load addr data >>= fun _ => pure data) m' = .ok data m' :=
    bind_eq_of_ok (run_checkTrigger_untriggered (hhart ▸ huntriggered) ..)
  rw [loadSlowPath_eq]
  simp only [run_bind, translate_eq, htr, loadAt, run_get]
  by_cases hmem : P.addrIsMem paddr = true
  · simp only [hmem, if_true, Machine.accessed]
    by_cases htraced : P.interested .load = true
    · simp only [htraced, if_true]
      exact hchecked _ _ (by rfl)
    · simp only [htraced]
      exact hchecked _ _ (by rfl)
  · simp only [hmem, Bool.false_eq_true, if_false, loadDevice, run_bind, run_get, run_modify]
    cases (P.mmioLoad paddr len m.dev).1 with
    | none => rfl
    | some data => exact hchecked _ _ (by rfl)

theorem run_storeSlowPath (huntriggered : m.hart.Untriggered) {addr paddr : Reg} {leaf : Option Reg}
    (htr : translation P m.hart m.dram addr .store = some (paddr, leaf)) (len : Nat)
    (data : Reg) :
    storeSlowPath P addr len data m =
      let mid : Machine β := { m with dram := markLeaf m.dram .store leaf }
      if P.addrIsMem paddr then
        .ok () (({ mid with dram := writeLE mid.dram (P.addrToMem paddr) len data } :
          Machine β).accessed P addr paddr len .store)
      else if (P.mmioStore paddr len data m.dev m.hart.mip).1 then
        .ok () (deviceStore P paddr len data mid)
      else .error (.trap (.storeAccessFault addr)) (deviceStore P paddr len data mid) := by
  rw [storeSlowPath_eq]
  simp only [run_bind, translate_eq, htr]
  rw [run_checkTrigger_untriggered (by exact huntriggered)]
  simp only [storeAt, run_bind, run_get]
  by_cases hmem : P.addrIsMem paddr = true
  · simp only [hmem, if_true, Machine.accessed]
    by_cases htraced : P.interested .store = true
    · simp only [htraced, if_true]
      rfl
    · simp only [htraced]
      rfl
  · simp only [hmem, Bool.false_eq_true, if_false, run_bind, run_modify]
    cases (P.mmioStore paddr len data m.dev m.hart.mip).1 with
    | true => rfl
    | false => rfl

theorem run_load_hit (huntriggered : m.hart.Untriggered) {ty : MemType} {addr : Reg}
    (halign : misaligned addr ty.bytes = false) (hhit : TlbHit m.mmu .load addr) :
    load P ty addr m =
      .ok (ty.toReg (readLE m.dram (m.mmu.tlbData (tlbIndex (addr >>> pgshift)) + addr)
        ty.bytes)) m := by
  unfold load
  simp only [halign, Bool.false_eq_true, if_false, run_bind, run_get]
  by_cases hplain : m.mmu.tlbLoadTag (tlbIndex (addr >>> pgshift)) = addr >>> pgshift
  · simp only [hplain, if_true]
    rfl
  · have hchecked := hhit.resolve_left hplain
    change m.mmu.tlbLoadTag _ = _ at hchecked
    rw [if_neg hplain, if_pos hchecked]
    exact bind_eq_of_ok (run_checkTrigger_untriggered huntriggered ..)

theorem run_store_hit (huntriggered : m.hart.Untriggered) {ty : MemType} {addr : Reg}
    (halign : misaligned addr ty.bytes = false) (hhit : TlbHit m.mmu .store addr) (val : Reg) :
    store P ty addr val m =
      .ok () { m with
        dram := writeLE m.dram (m.mmu.tlbData (tlbIndex (addr >>> pgshift)) + addr) ty.bytes
          (ty.toReg val) } := by
  unfold store
  simp only [halign, Bool.false_eq_true, if_false, run_bind, run_get]
  by_cases hplain : m.mmu.tlbStoreTag (tlbIndex (addr >>> pgshift)) = addr >>> pgshift
  · simp only [hplain, if_true]
    rfl
  · have hchecked := hhit.resolve_left hplain
    change m.mmu.tlbStoreTag _ = _ at hchecked
    rw [if_neg hplain, if_pos hchecked]
    exact bind_eq_of_ok (run_checkTrigger_untriggered huntriggered ..)

/-- The marks of one walk. -/
theorem walkUpdate_markLeaf {addr paddr : Reg} {type : AccessType} {leaf : Option Reg}
    (htr : translation P m.hart m.dram addr type = some (paddr, leaf)) :
    ReflTransGen (WalkUpdate P m.hart) m.dram (markLeaf m.dram type leaf) := by
  cases leaf with
  | none => exact .refl
  | some ppte => exact .single ⟨addr, type, paddr, ppte, htr, rfl⟩

/-- **A load** finds a word at its place, or faults. -/
theorem load_at_place (hl : Legal m.hart) (huntriggered : m.hart.Untriggered) {ty : MemType}
    {addr : Reg}
    (halign : misaligned addr ty.bytes = false) :
    (∃ p data m', load P ty addr m = .ok (ty.toReg data) m' ∧ m.place P .load addr = some p ∧
      p.Loads P ty.bytes m m' data) ∨
    ∃ m', load P ty addr m = .error (.trap (.loadAccessFault addr)) m' := by
  by_cases hhit : TlbHit m.mmu .load addr
  · exact .inl ⟨_, _, m, run_load_hit huntriggered halign hhit, if_pos hhit,
      .memory _ (Std.Refl.refl m) rfl rfl⟩
  obtain ⟨paddr, leaf, htr⟩ := translation_of_legal P (m := m) hl addr .load
  have hrun : load P ty addr m =
      (loadSlowPath P addr ty.bytes >>= fun data => pure (ty.toReg data) : M β Reg) m := by
    rw [run_load_miss hhit, halign]
    rfl
  have hplace : m.place P .load addr = some (P.placeOf paddr) := by
    rw [Machine.place, if_neg hhit, htr]
    rfl
  rw [hrun, run_bind, run_loadSlowPath huntriggered htr]
  by_cases hmem : P.addrIsMem paddr = true
  · simp only [hmem, if_true]
    refine .inl ⟨_, _, _, rfl, hplace, ?_⟩
    rw [Platform.placeOf, if_pos hmem]
    refine .memory _ ?_ (Machine.accessed_dev ..) (by rw [Machine.accessed_dram])
    have hwalk := walkUpdate_markLeaf htr
    unfold Machine.accessed
    split
    · exact ⟨rfl, rfl, rfl, hwalk⟩
    · exact ⟨rfl, rfl, rfl, hwalk⟩
  · simp only [hmem, Bool.false_eq_true, if_false]
    cases hload : (P.mmioLoad paddr ty.bytes m.dev).1 with
    | none => exact .inr ⟨_, rfl⟩
    | some data =>
        refine .inl ⟨_, _, _, rfl, hplace, ?_⟩
        rw [Platform.placeOf, if_neg hmem]
        exact .device _ ⟨rfl, rfl, rfl, walkUpdate_markLeaf htr⟩ (Prod.ext hload rfl)

/-- **A store** puts a word at its place, or faults. -/
theorem store_at_place (hl : Legal m.hart) (huntriggered : m.hart.Untriggered) {ty : MemType}
    {addr : Reg}
    (halign : misaligned addr ty.bytes = false) (val : Reg) :
    (∃ p m', store P ty addr val m = .ok () m' ∧ m.place P .store addr = some p ∧
      p.Stores P ty.bytes (ty.toReg val) m m') ∨
    ∃ m', store P ty addr val m = .error (.trap (.storeAccessFault addr)) m' := by
  by_cases hhit : TlbHit m.mmu .store addr
  · exact .inl ⟨_, _, run_store_hit huntriggered halign hhit val, if_pos hhit,
      .memory _ rfl rfl .refl rfl⟩
  obtain ⟨paddr, leaf, htr⟩ := translation_of_legal P (m := m) hl addr .store
  have hplace : m.place P .store addr = some (P.placeOf paddr) := by
    rw [Machine.place, if_neg hhit, htr]
    rfl
  rw [run_store_miss hhit, halign]
  simp only [Bool.false_eq_true, if_false, run_storeSlowPath huntriggered htr]
  by_cases hmem : P.addrIsMem paddr = true
  · simp only [hmem, if_true]
    refine .inl ⟨_, _, rfl, hplace, ?_⟩
    rw [Platform.placeOf, if_pos hmem]
    exact .memory _ (Machine.accessed_hart ..) (Machine.accessed_dev ..) (walkUpdate_markLeaf htr)
      (Machine.accessed_dram ..)
  · simp only [hmem, Bool.false_eq_true, if_false]
    cases hstore : (P.mmioStore paddr ty.bytes (ty.toReg val) m.dev m.hart.mip).1 with
    | false => exact .inr ⟨_, rfl⟩
    | true =>
        refine .inl ⟨_, _, rfl, hplace, ?_⟩
        rw [Platform.placeOf, if_neg hmem]
        exact .device _ (Prod.ext hstore rfl) rfl (walkUpdate_markLeaf htr)

end Untriggered

/-! ## Both accesses go to one place -/

section SamePlace

variable {P : Platform β} {m m₁ m₂ : Machine β} {len : Nat} {data addr paddr : Reg}

/-- A failed walk leads to no word. -/
theorem Place.Loads.ne_fault (hpos : 0 < len) (hlen : len ≤ 8)
    (h : (P.placeOf paddr).Loads P len m m₁ data) : paddr ≠ -1 := by
  rintro rfl
  rw [Platform.placeOf, addrIsMem_fault] at h
  obtain _ | ⟨_, _, hload⟩ := h
  rw [Platform.mmioLoad, if_pos (fault_wraps hpos hlen)] at hload
  cases hload

theorem Place.Stores.ne_fault (hpos : 0 < len) (hlen : len ≤ 8)
    (h : (P.placeOf paddr).Stores P len data m m₁) : paddr ≠ -1 := by
  rintro rfl
  rw [Platform.placeOf, addrIsMem_fault] at h
  obtain _ | ⟨_, hstore⟩ := h
  rw [Platform.mmioStore, if_pos (fault_wraps hpos hlen)] at hstore
  cases hstore

theorem translationMode_store (h : Hart) : translationMode h .store = translationMode h .load := by
  simp [translationMode]

/-- Where the TLB is coherent, the place of an access is that of the page table. -/
theorem Coherent.place (hcoherent : Coherent P m) {type : AccessType} {p : Place}
    (hplace : m.place P type addr = some p) :
    ∃ paddr leaf, translation P m.hart m.dram addr type = some (paddr, leaf) ∧
      p = P.placeOf paddr := by
  unfold Machine.place at hplace
  by_cases hhit : TlbHit m.mmu type addr
  · rw [if_pos hhit] at hplace
    cases hplace
    obtain ⟨paddr, leaf, htr, hmem, hptr⟩ := hcoherent type addr hhit
    refine ⟨paddr, leaf, htr, ?_⟩
    rw [Platform.placeOf, if_pos hmem, hptr]
  · rw [if_neg hhit] at hplace
    obtain ⟨⟨paddr, leaf⟩, htr, rfl⟩ := Option.map_eq_some_iff.mp hplace
    exact ⟨paddr, leaf, htr, rfl⟩

/-- A load keeps what a translation depends on. -/
theorem AccessStep.load_keeps (hstep : AccessStep P .load addr (fun dram _ => dram) m m₁) :
    SameView m.hart m₁.hart ∧ SameTables P m.hart m.dram m₁.dram := by
  cases hstep with
  | idle hview _ hdram => exact ⟨hview, hdram ▸ SameTables.refl _ _⟩
  | hit hview _ _ hdram => exact ⟨hview, hdram ▸ SameTables.refl _ _⟩
  | walked hview htr _ hdram => exact ⟨hview, hdram ▸ sameTables_markLeaf htr⟩
  | memory hview _ htr _ _ hdram => exact ⟨hview, hdram ▸ sameTables_markLeaf htr⟩

/-- A store that hits after a load goes where the page table leads it, or to the place of the
load, which has refilled the slot. -/
theorem AccessStep.hit_store (hstep : AccessStep P .load addr (fun dram _ => dram) m m₁)
    (hcoherent : Coherent P m) {leaf : Option Reg}
    (htr : translation P m.hart m.dram addr .load = some (paddr, leaf))
    (hhit : TlbHit m₁.mmu .store addr) :
    let slot := m₁.mmu.tlbData (tlbIndex (addr >>> pgshift)) + addr
    Resolves P m .store addr slot ∨ Place.memory slot = P.placeOf paddr := by
  have hsame (htlb : SameTlb m.mmu m₁.mmu) :
      Resolves P m .store addr (m₁.mmu.tlbData (tlbIndex (addr >>> pgshift)) + addr) := by
    rw [htlb.data]
    apply hcoherent
    unfold TlbHit at hhit ⊢
    rwa [htlb.tags] at hhit
  cases hstep with
  | idle _ htlb _ => exact .inl (hsame htlb)
  | hit _ _ htlb _ => exact .inl (hsame htlb)
  | walked _ _ htlb _ => exact .inl (hsame htlb)
  | memory _ _ htr' hmem htlb _ =>
      rcases htlb with htlb | htlb
      · exact .inl (hsame htlb)
      · right
        rw [htr] at htr'
        cases htr'
        have hslot : m₁.mmu.tlbData (tlbIndex (addr >>> pgshift)) = P.addrToMem paddr - addr := by
          rw [htlb.data]
          exact Function.update_self ..
        rw [hslot, Platform.placeOf, if_pos hmem, BitVec.sub_add_cancel]

/-- **One place.**  Where the TLB is coherent, the load and the store of an AMO go to the same
place. -/
theorem place_store_eq (hcoherent : Coherent P m) (hpos : 0 < len) (hlen : len ≤ 8)
    {source target : Place} {old new : Reg}
    (hstep : AccessStep P .load addr (fun dram _ => dram) m m₁)
    (hsource : m.place P .load addr = some source) (hload : source.Loads P len m m₁ old)
    (htarget : m₁.place P .store addr = some target) (hstore : target.Stores P len new m₁ m₂) :
    target = source := by
  obtain ⟨paddr, leaf, htr, rfl⟩ := hcoherent.place hsource
  have hok := hload.ne_fault hpos hlen
  obtain ⟨hview, htables⟩ := hstep.load_keeps
  have hunique {paddr' : Reg} {leaf' : Option Reg}
      (htr' : translation P m.hart m.dram addr .store = some (paddr', leaf'))
      (hok' : paddr' ≠ -1) : paddr' = paddr :=
    translation_unique (by rw [translationMode_store]) htr hok htr' hok'
  unfold Machine.place at htarget
  by_cases hhit : TlbHit m₁.mmu .store addr
  · rw [if_pos hhit] at htarget
    cases htarget
    rcases hstep.hit_store hcoherent htr hhit with ⟨paddr', leaf', htr', hmem, hptr⟩ | hplace
    · obtain rfl := hunique htr' (addrIsMem_ne_fault hmem)
      rw [hptr, Platform.placeOf, if_pos hmem]
    · exact hplace
  · rw [if_neg hhit, translation_congr hview htables] at htarget
    obtain ⟨⟨paddr', leaf'⟩, htr', rfl⟩ := Option.map_eq_some_iff.mp htarget
    rw [hunique htr' (hstore.ne_fault hpos hlen)]

end SamePlace

/-! ## The instructions -/

/-- The trap of an AMO that does not complete. -/
def amoTrap (width : AmoWidth) (addr : Reg) : Trap :=
  if misaligned addr width.bytes then .storeAddressMisaligned addr else .storeAccessFault addr

/-- An AMO that completes: the word `old` is found at one place and `new` is put at another, which
is the same one where the TLB is coherent. -/
structure Replaces (P : Platform β) (width : AmoWidth) (addr : Reg)
    (new : BitVec width.bits → BitVec width.bits) (m : Machine β) (old : BitVec width.bits)
    (m' : Machine β) : Prop where
  aligned : misaligned addr width.bytes = false
  places : ∃ source target mid data, old = data.setWidth width.bits ∧
    m.place P .load addr = some source ∧ source.Loads P width.bytes m mid data ∧
    mid.place P .store addr = some target ∧
    target.Stores P width.bytes ((new old).setWidth 64) mid m' ∧
    (Coherent P m → target = source)

section Instructions

variable {P : Platform β} {m : Machine β}

section Paths

variable {ty : MemType} {addr lhs : Reg} {f : Reg → Reg} {mid m' : Machine β}
  (halign : misaligned addr ty.bytes = false)

include halign

theorem run_amo_ok (hload : load P ty addr m = .ok lhs mid)
    (hstore : store P ty addr (f lhs) mid = .ok () m') : amo P ty addr f m = .ok lhs m' := by
  simp only [amo, halign, Bool.false_eq_true, if_false, run_tryCatch, run_bind, hload, hstore,
    run_pure]

theorem run_amo_store_fault (hload : load P ty addr m = .ok lhs mid)
    (hstore : store P ty addr (f lhs) mid = .error (.trap (.storeAccessFault addr)) m') :
    amo P ty addr f m = .error (.trap (.storeAccessFault addr)) m' := by
  simp only [amo, halign, Bool.false_eq_true, if_false, run_tryCatch, run_bind, hload, hstore]
  rfl

theorem run_amo_load_fault
    (hload : load P ty addr m = .error (.trap (.loadAccessFault addr)) m') :
    amo P ty addr f m = .error (.trap (.storeAccessFault addr)) m' := by
  simp only [amo, halign, Bool.false_eq_true, if_false, run_tryCatch, run_bind, hload]
  rfl

end Paths

/-- What `amo_uint32` and `amo_uint64` do. -/
theorem run_amo (hbus : P.RefusalsKeepMip) (hl : Legal m.hart) (hunarmed : m.hart.Unarmed)
    (width : AmoWidth) (addr : Reg) {f : Reg → Reg} {new : BitVec width.bits → BitVec width.bits}
    (hf : ∀ old, (f (old.setWidth 64)).setWidth width.bits = new old) :
    (∃ m', amo P width.type addr f m = .error (.trap (amoTrap width addr)) m' ∧
      ReadOnly P m m') ∨
    ∃ old m', amo P width.type addr f m = .ok (old.setWidth 64) m' ∧
      Replaces P width addr new m old m' := by
  cases halign : misaligned addr width.bytes with
  | true =>
      refine .inl ⟨m, ?_, Std.Refl.refl m⟩
      rw [amo, width.type_bytes, amoTrap, halign]
      rfl
  | false =>
      have halign' : misaligned addr width.type.bytes = false := by rwa [width.type_bytes]
      have hfault {m' : Machine β} (h : amo P width.type addr f m =
          .error (.trap (.storeAccessFault addr)) m') :
          ∃ m', amo P width.type addr f m = .error (.trap (amoTrap width addr)) m' ∧
            ReadOnly P m m' := by
        refine ⟨m', ?_, (amo_throws hbus ..).error h⟩
        rw [h, amoTrap, halign]
        rfl
      rcases load_at_place (P := P) hl hunarmed.untriggered halign' with
        ⟨source, data, mid, hload, hsource, hfound⟩ | ⟨mid, hload⟩
      · have hmid : mid.hart = m.hart := ((load_readOnly P ..).ok hload).hart
        rcases store_at_place (P := P) (hmid ▸ hl) (hmid ▸ hunarmed).untriggered halign'
          (f (width.type.toReg data)) with ⟨target, m', hstore, htarget, hput⟩ | ⟨m', hstore⟩
        · right
          have hrun := run_amo_ok halign' hload hstore
          rw [width.type_bytes] at hfound hput
          rw [width.type_toReg] at hrun
          rw [width.type_toReg, width.type_toReg, hf] at hput
          refine ⟨_, m', hrun, halign, source, target, mid, data, rfl, hsource, hfound, htarget,
            hput, fun hcoherent => ?_⟩
          exact place_store_eq hcoherent width.bytes_pos width.bytes_le
            (load_step (.inl ⟨_, hload⟩)) hsource hfound htarget hput
        · exact .inl (hfault (run_amo_store_fault halign' hload hstore))
      · exact .inl (hfault (run_amo_load_fault halign' hload))

/-- The handlers run at all: A is on, and the doublewords are those of RV64. -/
def AmoWidth.Provided (width : AmoWidth) (xlen : Xlen) (h : Hart) : Prop :=
  h.supportsExtension 'A' = true ∧ (width = .d → xlen = .rv64)

theorem AmoWidth.provided_iff (width : AmoWidth) (c : Ctx) (h : Hart) :
    width.Provided c.xlen h ↔ ∀ need ∈ width.needs, need.holds c h = true := by
  cases width with
  | w => simp [Provided, needs, Need.holds]
  | d => simp [Provided, needs, Need.holds]

/-- If one of the checks fails then the instruction is illegal, and nothing changes. -/
theorem run_requireAll_bind_of_not {α : Type} {c : Ctx} {needs : List Need}
    (k : Unit → Handler α) (h : ¬∀ need ∈ needs, need.holds c m.hart = true) :
    (requireAll c needs >>= k).run (Act.exec P) m = .error (.trap .illegalInstruction) m := by
  induction needs with
  | nil => exact absurd (by simp) h
  | cons need rest ih =>
      rw [requireAll, Program.bind_assoc, run_readHart_bind]
      cases hholds : need.holds c m.hart with
      | false => rfl
      | true =>
          apply ih
          intro hrest
          apply h
          intro other hother
          rcases List.mem_cons.mp hother with rfl | hother
          · exact hholds
          · exact hrest other hother

/-- The call of a handler, where `f` is the function of the operation. -/
theorem run_amoOp {width : AmoWidth} {c : Ctx} (hprovided : width.Provided c.xlen m.hart)
    (f : Reg → Reg → Reg) :
    (amoOp width.needs width.type f width.result c).run (Act.exec P) m =
      (do
        let old ← amo P width.type (m.hart.xpr c.insn.rs1) fun lhs => f lhs (m.hart.xpr c.insn.rs2)
        modifyHart fun h => h.writeXpr c.insn.rd (width.result old)
        return c.npc : M β Reg) m := by
  rw [amoOp, run_requireAll_bind_of_holds _ ((width.provided_iff c m.hart).mp hprovided),
    run_readHart_bind]
  rfl

theorem insnLength_amo (op : AmoOp) (width : AmoWidth) :
    insnLength (op.insnName width).encoding.1 = 4 := by
  cases op <;> cases width <;> rfl

/-- **AMO semantics.**  In every reachable state without armed triggers, for every operation,
width and address: where the instruction is not provided it is illegal and changes nothing.  Else
it replaces the word at `rs1` by the result of the operation on words of its width, and `rd`
receives the old word with its sign; or it raises a store fault at `rs1`, with the registers as
before and the memory too but for the marks of page-table entries. -/
theorem amo_semantics (hbus : P.RefusalsKeepMip) {F : SoftFloat}
    {findExtension : List Char → Bool} {str : List Char} {cfg : IsaConfig}
    (hisa : parseIsaString findExtension str = some cfg) (halt : Bool) (dram : Reg → BitVec 8)
    (dev : β) {r : ℕ → Point β} {len : ℕ} (hrun : IsRun (HartStep P F) r len)
    (hinit : r 0 = .idle (cfg.machine halt dram dev)) {k : ℕ} (hk : k ≤ len)
    (hunarmed : (r k).machine.hart.Unarmed) (op : AmoOp) (width : AmoWidth) (xlen : Xlen)
    (insn : Insn) (pc : Reg) :
    let m := (r k).machine
    let addr := m.hart.xpr insn.rs1
    let operand := (m.hart.xpr insn.rs2).setWidth width.bits
    let outcome := (insnProgram F (op.insnName width) xlen insn pc).run (Act.exec P) m
    (¬width.Provided xlen m.hart → outcome = .error (.trap .illegalInstruction) m) ∧
    (width.Provided xlen m.hart →
      (∃ m', outcome = .error (.trap (amoTrap width addr)) m' ∧ ReadOnly P m m') ∨
      ∃ old m', Replaces P width addr (fun old => op.apply old operand) m old m' ∧
        outcome = .ok (sextXlen xlen (pc + 4))
          { m' with hart := m'.hart.writeXpr insn.rd (old.signExtend 64) }) := by
  have hl : Legal (r k).machine.hart :=
    ((hartRules_legal P F cfg.maxXlen).reachable ⟨legal_reset hisa halt dram dev, rfl⟩ hrun hinit
      k hk).1
  generalize (r k).machine = m at hl hunarmed
  intro m addr operand outcome
  let c : Ctx := ⟨xlen, insn, pc, sextXlen xlen (pc + 4)⟩
  have hprogram : insnProgram F (op.insnName width) xlen insn pc =
      handler F (op.insnName width) c := by
    rw [insnProgram, insnLength_amo]
    rfl
  obtain ⟨f, hhandler, hcomputes⟩ := handler_amo F op width c
  constructor
  · intro hnot
    change (insnProgram F (op.insnName width) xlen insn pc).run (Act.exec P) m = _
    rw [hprogram, hhandler, amoOp]
    apply run_requireAll_bind_of_not
    rwa [← width.provided_iff c m.hart]
  · intro hprovided
    have houtcome : outcome = _ :=
      (congrArg (fun p => p.run (Act.exec P) m) (hprogram.trans hhandler)).trans
        (run_amoOp (c := c) hprovided f)
    let g : Reg → Reg := fun lhs => f lhs (m.hart.xpr insn.rs2)
    have hg (old : BitVec width.bits) : (g (old.setWidth 64)).setWidth width.bits =
        (fun old => op.apply old operand) old := hcomputes old (m.hart.xpr insn.rs2)
    rcases run_amo hbus hl hunarmed width addr hg with ⟨m', hamo, hread⟩ | ⟨old, m', hamo, hdone⟩
    · exact .inl ⟨m', houtcome.trans (bind_eq_of_error hamo), hread⟩
    · refine .inr ⟨old, m', hdone, houtcome.trans ((bind_eq_of_ok hamo).trans ?_)⟩
      rw [width.result_setWidth]
      rfl

end Instructions

/-- An `rv32ima` hart after `lui x12, 0x80000`. -/
def amoPoint : Point Bool :=
  (Point.next (.rom [0x80000637]) .zeros)^[3]
    (.head 1 (IsaConfig.machine ⟨.rv32, 0x40141101, false⟩ false (fun _ => 0) false))

/-- `amoadd.w x10, x11, (x12)` there. -/
theorem amoadd_after_lui :
    let P := Platform.rom [0x80000637]
    let insn : Insn := ⟨0x00b6252f⟩
    let m := amoPoint.machine
    let addr := m.hart.xpr insn.rs1
    let operand := (m.hart.xpr insn.rs2).setWidth AmoWidth.w.bits
    addr = 0xffffffff80000000 ∧
      ∃ old m', Replaces P .w addr (fun old => AmoOp.apply .add old operand) m old m' ∧
        (insnProgram .zeros (AmoOp.insnName .add .w) .rv32 insn 0x1004).run (Act.exec P) m =
          .ok (sextXlen .rv32 (0x1004 + 4))
            { m' with hart := m'.hart.writeXpr insn.rd (old.signExtend 64) } := by
  have hisa : parseIsaString (fun _ => false) ['r', 'v', '3', '2', 'i', 'm', 'a'] =
      some ⟨.rv32, 0x40141101, false⟩ := by decide +kernel
  obtain ⟨haddr, hunarmed, hext, hok⟩ :
      amoPoint.machine.hart.xpr (⟨0x00b6252f⟩ : Insn).rs1 = 0xffffffff80000000 ∧
      amoPoint.machine.hart.Unarmed ∧ amoPoint.machine.hart.supportsExtension 'A' = true ∧
      Succeeds ((insnProgram .zeros (AmoOp.insnName .add .w) .rv32 ⟨0x00b6252f⟩ 0x1004).run
        (Act.exec (.rom [0x80000637])) amoPoint.machine) = true := by decide +kernel
  have hreach : Reaches (.rom [0x80000637]) .zeros
      (.idle (IsaConfig.machine ⟨.rv32, 0x40141101, false⟩ false (fun _ => 0) false)) amoPoint :=
    .head (.call 1 rfl) (reaches_iterate _ .zeros _ 3)
  generalize amoPoint = p at *
  obtain ⟨r, len, hnext, hinit, rfl⟩ := IsRun.of_path hreach
  have hrun : IsRun (HartStep (.rom [0x80000637]) .zeros) r len := fun k hk => .next (hnext k hk)
  refine ⟨haddr, ?_⟩
  rcases (amo_semantics (fun _ _ _ _ _ _ => rfl) hisa false (fun _ => 0) false hrun hinit le_rfl
    hunarmed .add .w .rv32 ⟨0x00b6252f⟩ 0x1004).2 ⟨hext, by decide⟩ with ⟨m', htrap, -⟩ | hdone
  · rw [htrap] at hok
    cases hok
  · exact hdone

/-- A hart in S-mode with A, whose `x12` points into an aligned gigapage. -/
def amoPaged : Machine Unit :=
  { gigapage 0x2000000f with
    hart := { Hart.sv39 with isa := 1, xpr := Function.update (fun _ => 0) 12 0x80002000 } }

/-- `amoadd.w x10, x11, (x12)` on an `rv64i` hart raises neither kind of store fault.  In S-mode,
where its word is at `0x2000`, it changes the first byte of the page-table entry at `0x1010`. -/
theorem amo_illegal_and_marks :
    (∃ m : Machine Unit, m = IsaConfig.machine ⟨.rv64, 0x8000000000140100, false⟩ false
        (fun _ => 0) () ∧ m.hart.Unarmed ∧
      (insnProgram .zeros .amoaddW .rv64 ⟨0x00b6252f⟩ 0x1000).run (Act.exec .bare) m =
        .error (.trap .illegalInstruction) m) ∧
    amoPaged.hart.Unarmed ∧ amoPaged.hart.xpr 12 = 0x80002000 ∧
      amoPaged.place .bare .load 0x80002000 = some (.memory 0x2000) ∧
      amoPaged.dram 0x1010 = 0x0f ∧
      ∃ npc m', (insnProgram .zeros .amoaddW .rv64 ⟨0x00b6252f⟩ 0x1000).run (Act.exec .bare)
        amoPaged = .ok npc m' ∧ m'.dram 0x1010 = 0xcf := by
  refine ⟨⟨_, rfl, by decide, rfl⟩, by decide, by decide, by decide +kernel, by decide +kernel, ?_⟩
  have hbyte : (match (insnProgram .zeros .amoaddW .rv64 ⟨0x00b6252f⟩ 0x1000).run
      (Act.exec .bare) amoPaged with
    | .ok _ m' => some (m'.dram 0x1010)
    | .error _ _ => none) = some 0xcf := by decide +kernel
  cases hrun : (insnProgram .zeros .amoaddW .rv64 ⟨0x00b6252f⟩ 0x1000).run (Act.exec .bare)
      amoPaged with
  | ok npc m' =>
      rw [hrun] at hbyte
      exact ⟨npc, m', rfl, Option.some.inj hbyte⟩
  | error e m' =>
      rw [hrun] at hbyte
      cases hbyte

end SpikeSim.Riscv
