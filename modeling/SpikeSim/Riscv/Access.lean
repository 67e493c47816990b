/-
# What an access changes

A load, a fetch or a trigger check changes the caches of the memory port, the
devices and the marks of page-table entries, and nothing else (`ReadOnly`).  A
store changes in addition the memory it writes, or `mip` by way of a device; one
that throws has done neither.
-/

import SpikeSim.Riscv.Csr
import SpikeSim.Riscv.Translation

namespace SpikeSim.Riscv

open Relation

variable {β : Type} (P : Platform β)

/-! ## Accesses that only read -/

/-- The state after a device was read. -/
def deviceLoad (paddr : Reg) (len : Nat) (m : Machine β) : Machine β :=
  { m with dev := (P.mmioLoad paddr len m.dev).2 }

/-- What a device answers; without an answer the access faults. -/
def loadDevice (fault : Trap) (paddr : Reg) (len : Nat) : M β Reg := do
  let m ← get
  modify (deviceLoad P paddr len)
  match (P.mmioLoad paddr len m.dev).1 with
  | none => throwTrap fault
  | some data => return data

theorem run_loadDevice_none {paddr : Reg} {len : Nat} {m : Machine β}
    (h : (P.mmioLoad paddr len m.dev).1 = none) (fault : Trap) :
    loadDevice P fault paddr len m = .error (.trap fault) (deviceLoad P paddr len m) := by
  simp only [loadDevice, run_bind, run_get, run_modify, h]
  rfl

theorem run_loadDevice_some {paddr data : Reg} {len : Nat} {m : Machine β}
    (h : (P.mmioLoad paddr len m.dev).1 = some data) (fault : Trap) :
    loadDevice P fault paddr len m = .ok data (deviceLoad P paddr len m) := by
  simp only [loadDevice, run_bind, run_get, run_modify, h]
  rfl

/-- What a load that has been translated does. -/
def loadAt (addr paddr : Reg) (len : Nat) : M β Reg := do
  let m ← get
  if P.addrIsMem paddr then
    if P.interested .load then traceAccess paddr len .load
    else refillTlb P addr paddr .load
    return readLE m.dram (P.addrToMem paddr) len
  else loadDevice P (.loadAccessFault addr) paddr len

theorem loadSlowPath_eq (addr : Reg) (len : Nat) :
    loadSlowPath P addr len = (do
      let paddr ← translate P addr .load
      let data ← loadAt P addr paddr len
      checkTrigger .load addr data
      return data) := by
  unfold loadSlowPath loadAt
  congr 1
  funext paddr m
  simp only [run_bind, run_get]
  by_cases hmem : P.addrIsMem paddr = true
  · simp only [hmem, if_true]
  · simp only [hmem]
    rfl

/-- What a fetch that has been translated does. -/
def fetchAt (vaddr paddr : Reg) : M β Halfword := do
  let m ← get
  if P.addrIsMem paddr then
    refillTlb P vaddr paddr .fetch
    return ⟨readLE m.dram (P.addrToMem paddr) 2, P.addrToMem paddr⟩
  else
    let data ← loadDevice P (.instructionAccessFault vaddr) paddr 2
    return ⟨zext16 data, P.fetchTemp⟩

theorem fetchSlowPath_eq (vaddr : Reg) :
    fetchSlowPath P vaddr = (do
      let paddr ← translate P vaddr .fetch
      if paddr = -1 ∧ vaddr ≠ -1 then throwTrap (.instructionAccessFault vaddr)
      fetchAt P vaddr paddr) := by
  unfold fetchSlowPath fetchAt
  congr 1
  funext paddr m
  by_cases hfault : paddr = -1 ∧ vaddr ≠ -1
  · simp only [if_pos hfault]
    rfl
  · simp only [if_neg hfault, loadDevice, run_bind, run_get]
    by_cases hmem : P.addrIsMem paddr = true
    · simp only [hmem, if_true]
    · simp only [hmem, Bool.false_eq_true, if_false, run_bind, run_get, run_modify]
      cases (P.mmioLoad paddr 2 m.dev).1 with
      | none => rfl
      | some data => rfl

/-- A relation that holds across whatever the fetch of a halfword does: it marks entries of the
page table, refills the TLB and moves devices. -/
structure FetchKeeps (R : Machine β → Machine β → Prop) : Prop where
  walk : ∀ m {addr paddr ppte},
    translation P m.hart m.dram addr .fetch = some (paddr, some ppte) →
      R m { m with dram := markAccessed m.dram ppte .fetch }
  refill : ∀ m vaddr paddr, R m { m with mmu := m.mmu.refilled P vaddr paddr .fetch }
  device : ∀ m paddr len, R m (deviceLoad P paddr len m)

section Rules

variable {P} {R : Machine β → Machine β → Prop} [Std.Refl R] [IsTrans (Machine β) R]

omit [IsTrans (Machine β) R] in
theorem keeps_translate {addr : Reg} {type : AccessType}
    (hwalk : ∀ m {paddr ppte}, translation P m.hart m.dram addr type = some (paddr, some ppte) →
      R m { m with dram := markAccessed m.dram ppte type }) :
    Keeps R (translate P addr type) where
  ok := by
    intro m paddr m' h
    obtain ⟨leaf, htr, rfl⟩ := translate_ok P h
    cases leaf with
    | none => exact Std.Refl.refl _
    | some ppte => exact hwalk m htr
  error := by
    intro m e m' h
    obtain ⟨-, -, rfl⟩ := translate_error P h
    exact Std.Refl.refl _

theorem keeps_loadDevice {paddr : Reg} {len : Nat} (hdevice : ∀ m, R m (deviceLoad P paddr len m))
    (fault : Trap) : Keeps R (loadDevice P fault paddr len) := by
  refine .bind .get fun m => .bind (.modify hdevice) fun _ => ?_
  split
  · exact .throw _
  · exact .pure _

namespace FetchKeeps

variable (hR : FetchKeeps P R)

include hR

theorem fetchAt (vaddr paddr : Reg) : Keeps R (fetchAt P vaddr paddr) := by
  refine .bind .get fun m => .ite ?_ ?_
  · exact .bind (.modify fun m => hR.refill m vaddr paddr) fun _ => .pure _
  · exact .bind (keeps_loadDevice (fun m => hR.device m paddr 2) _) fun _ => .pure _

theorem fetchSlowPath (vaddr : Reg) : Keeps R (fetchSlowPath P vaddr) := by
  rw [fetchSlowPath_eq]
  refine .bind (keeps_translate fun m _ _ htr => hR.walk m htr) fun paddr => ?_
  exact .ite (.bind (.throw _) fun _ => hR.fetchAt ..) (hR.fetchAt ..)

theorem translateInsnAddr (addr : Reg) : Keeps R (translateInsnAddr P addr) := by
  refine .bind .get fun m => .ite (.pure _) (.ite ?_ (hR.fetchSlowPath addr))
  split
  · exact .throw _
  · exact .pure _

theorem fetchBits (addr : Reg) : Keeps R (fetchBits P addr) := by
  have hread := hR.translateInsnAddr
  refine .bind (hread _) fun first => .ite ?_ (.ite (.pure _) (.ite ?_ ?_))
  · exact .bind (hread _) fun _ => .pure _
  · exact .bind (hread _) fun _ => .bind (hread _) fun _ => .pure _
  · exact .bind (hread _) fun _ => .bind (hread _) fun _ => .bind (hread _) fun _ => .pure _

end FetchKeeps

end Rules

/-- A relation that holds across whatever the fetch of an instruction does: beyond reading its
halfwords it decodes it, reports it to the tracers and enters it in the instruction cache. -/
structure RefillKeeps (R : Machine β → Machine β → Prop) : Prop extends FetchKeeps P R where
  decoder : ∀ m d, R m { m with decoder := d }
  traced : ∀ m addr bytes, R m { m with trace := m.trace ++ [⟨addr, bytes, .fetch⟩] }
  icache : ∀ m i entry, R m { m with mmu := { m.mmu with
    icache := Function.update m.mmu.icache i entry } }

namespace RefillKeeps

variable {P} {R : Machine β → Machine β → Prop} [Std.Refl R] [IsTrans (Machine β) R]
  (hR : RefillKeeps P R)

include hR

theorem decodeInsn (insn : Insn) : Keeps R (decodeInsn insn : M β Decode.InsnFunc) := by
  apply Keeps.bind .get
  intro m
  split
  · exact .throw _
  · exact .bind (.modify fun m => hR.decoder m _) fun _ => .pure _

theorem refillEntry (addr : Reg) : Keeps R (refillEntry P addr) := by
  apply Keeps.bind (hR.fetchBits addr)
  intro fetched
  apply Keeps.bind (hR.decodeInsn _)
  intro func
  exact .ite (.bind (.modify fun m => hR.traced m _ _) fun _ => .pure _) (.pure _)

theorem refillIcache (addr : Reg) (i : Fin 1024) : Keeps R (refillIcache P addr i) :=
  .bind (hR.refillEntry addr) fun entry => .modify fun m => hR.icache m i entry

theorem accessIcache (addr : Reg) : Keeps R (accessIcache P addr) :=
  .bind .get fun _ => .ite (hR.refillIcache addr _) (.pure _)

theorem loadInsn (addr : Reg) : Keeps R (loadInsn P addr) :=
  .bind (hR.refillEntry addr) fun _ => .pure _

end RefillKeeps

/-- A relation that holds across whatever an access does which only reads: it marks entries
of the page table, refills the TLB, notes the trigger that was matched, and moves devices and
tracers. -/
structure ReadKeeps (R : Machine β → Machine β → Prop) : Prop where
  walk : ∀ m {addr type paddr ppte},
    translation P m.hart m.dram addr type = some (paddr, some ppte) →
      R m { m with dram := markAccessed m.dram ppte type }
  refill : ∀ m vaddr paddr {type}, type = .fetch ∨ P.interested type = false →
    R m { m with mmu := m.mmu.refilled P vaddr paddr type }
  matched : ∀ m t, R m { m with mmu := { m.mmu with matchedTrigger := t } }
  device : ∀ m paddr len, R m (deviceLoad P paddr len m)
  tracers : ∀ m trace, R m { m with trace := trace }

namespace ReadKeeps

variable {P} {R : Machine β → Machine β → Prop} [Std.Refl R] [IsTrans (Machine β) R]
  (hR : ReadKeeps P R)

include hR

omit [Std.Refl R] [IsTrans (Machine β) R] in
theorem fetch : FetchKeeps P R where
  walk m _ _ _ htr := hR.walk m htr
  refill m vaddr paddr := hR.refill m vaddr paddr (.inl rfl)
  device := hR.device

omit [IsTrans (Machine β) R] in
theorem translate (addr : Reg) (type : AccessType) : Keeps R (translate P addr type) :=
  keeps_translate fun m _ _ htr => hR.walk m htr

omit [Std.Refl R] [IsTrans (Machine β) R] in
theorem traceAccess (addr : Reg) (bytes : Nat) (type : AccessType) :
    Keeps R (traceAccess addr bytes type : M β Unit) :=
  .modify fun m => hR.tracers m _

omit [Std.Refl R] [IsTrans (Machine β) R] in
theorem refillTlb (vaddr paddr : Reg) {type : AccessType}
    (htype : type = .fetch ∨ P.interested type = false) :
    Keeps R (refillTlb P vaddr paddr type) :=
  .modify fun m => hR.refill m vaddr paddr htype

theorem checkTrigger (operation : TriggerOperation) (address data : Reg) :
    Keeps R (checkTrigger operation address data : M β Unit) := by
  refine .bind .get fun m => ?_
  split
  · split
    · exact .pure _
    · refine .ite ?_ (.throw _)
      exact .bind (.modify fun m => hR.matched m _) fun _ => .throw _
  · exact .pure _

theorem loadAt (addr paddr : Reg) (len : Nat) : Keeps R (loadAt P addr paddr len) := by
  refine .bind .get fun m => .ite ?_ (keeps_loadDevice (fun m => hR.device m paddr len) _)
  cases hinterested : P.interested .load with
  | true => exact .bind (hR.traceAccess ..) fun _ => .pure _
  | false => exact .bind (hR.refillTlb _ _ (.inr hinterested)) fun _ => .pure _

theorem loadSlowPath (addr : Reg) (len : Nat) : Keeps R (loadSlowPath P addr len) := by
  rw [loadSlowPath_eq]
  refine .bind (hR.translate addr .load) fun paddr => .bind (hR.loadAt ..) fun data => ?_
  exact .bind (hR.checkTrigger ..) fun _ => .pure _

theorem load (ty : MemType) (addr : Reg) : Keeps R (load P ty addr) := by
  refine .ite (.bind (.throw _) fun _ => ?_) ?_
  all_goals
    refine .bind .get fun m => .ite (.pure _) (.ite ?_ ?_)
    · exact .bind (hR.checkTrigger ..) fun _ => .pure _
    · exact .bind (hR.loadSlowPath ..) fun _ => .pure _

omit hR in
theorem getCsr (which : Reg) : Keeps R (getCsr P which) := by
  refine .bind .get fun m => .ite (.pure _) ?_
  split
  · exact .throw _
  · exact .pure _

end ReadKeeps

/-- One entry is marked by a walk that the hart makes in this memory. -/
def WalkUpdate (h : Hart) (dram dram' : Reg → BitVec 8) : Prop :=
  ∃ addr type paddr ppte, translation P h dram addr type = some (paddr, some ppte) ∧
    dram' = markAccessed dram ppte type

/-- The hart is as before, and so is the memory but for the marks of its walks. -/
structure ReadOnly (m m' : Machine β) : Prop where
  hart : m'.hart = m.hart
  decoder : m'.decoder = m.decoder
  events : m'.events = m.events
  dram : ReflTransGen (WalkUpdate P m.hart) m.dram m'.dram

instance : Std.Refl (ReadOnly P) where
  refl _ := ⟨rfl, rfl, rfl, .refl⟩

instance : IsTrans (Machine β) (ReadOnly P) where
  trans _ _ _ hab hbc :=
    ⟨hbc.hart.trans hab.hart, hbc.decoder.trans hab.decoder, hbc.events.trans hab.events,
      hab.dram.trans (hab.hart ▸ hbc.dram)⟩

theorem readKeeps_readOnly : ReadKeeps P (ReadOnly P) where
  walk _ {addr type paddr ppte} htr := ⟨rfl, rfl, rfl, .single ⟨addr, type, paddr, ppte, htr, rfl⟩⟩
  refill _ _ _ _ _ := ⟨rfl, rfl, rfl, .refl⟩
  matched _ _ := ⟨rfl, rfl, rfl, .refl⟩
  device _ _ _ := ⟨rfl, rfl, rfl, .refl⟩
  tracers _ _ := ⟨rfl, rfl, rfl, .refl⟩

theorem load_readOnly (ty : MemType) (addr : Reg) : Keeps (ReadOnly P) (load P ty addr) :=
  (readKeeps_readOnly P).load ty addr

theorem getCsr_readOnly (which : Reg) : Keeps (ReadOnly P) (getCsr P which) :=
  ReadKeeps.getCsr which

theorem flushIcache_readOnly : Keeps (ReadOnly P) (flushIcache : M β Unit) :=
  .modify fun _ => ⟨rfl, rfl, rfl, .refl⟩

theorem flushTlb_readOnly : Keeps (ReadOnly P) (flushTlb : M β Unit) :=
  .bind (.modify fun _ => ⟨rfl, rfl, rfl, .refl⟩) fun _ => flushIcache_readOnly P

/-! ## Stores -/

/-- The state after a device took or refused a store. -/
def deviceStore (paddr : Reg) (len : Nat) (data : Reg) (m : Machine β) : Machine β :=
  { m with
    dev := (P.mmioStore paddr len data m.dev m.hart.mip).2.1
    hart := { m.hart with mip := (P.mmioStore paddr len data m.dev m.hart.mip).2.2 } }

/-- What a store that has been translated does. -/
def storeAt (addr paddr : Reg) (len : Nat) (data : Reg) : M β Unit := do
  let m ← get
  if P.addrIsMem paddr then
    modify fun m => { m with dram := writeLE m.dram (P.addrToMem paddr) len data }
    if P.interested .store then traceAccess paddr len .store
    else refillTlb P addr paddr .store
  else
    modify (deviceStore P paddr len data)
    if !(P.mmioStore paddr len data m.dev m.hart.mip).1 then throwTrap (.storeAccessFault addr)

theorem storeSlowPath_eq (addr : Reg) (len : Nat) (data : Reg) :
    storeSlowPath P addr len data = (do
      let paddr ← translate P addr .store
      checkTrigger .store addr data
      storeAt P addr paddr len data) := by
  unfold storeSlowPath storeAt
  congr 1
  funext paddr
  congr 1
  funext _ m
  simp only [run_bind, run_get]
  split
  · rfl
  · rfl

/-- A relation that holds across whatever a store does. -/
structure StoreKeeps (R : Machine β → Machine β → Prop) : Prop where
  read : ReadKeeps P R
  write : ∀ m dram, R m { m with dram := dram }
  device : ∀ m paddr len data, R m (deviceStore P paddr len data m)

section StoreRules

variable {P} {R : Machine β → Machine β → Prop} [Std.Refl R] [IsTrans (Machine β) R]

theorem StoreKeeps.storeAt (hR : StoreKeeps P R) (addr paddr : Reg) (len : Nat) (data : Reg) :
    Keeps R (storeAt P addr paddr len data) := by
  refine .bind .get fun m => .ite ?_ ?_
  · refine .bind (.modify fun m => hR.write m _) fun _ => ?_
    cases hinterested : P.interested .store with
    | true => exact hR.read.traceAccess ..
    | false => exact hR.read.refillTlb _ _ (.inr hinterested)
  · refine .bind (.modify fun m => hR.device m ..) fun _ => ?_
    exact .ite (.throw _) (.pure _)

theorem StoreKeeps.storeSlowPath (hR : StoreKeeps P R) (addr : Reg) (len : Nat) (data : Reg) :
    Keeps R (storeSlowPath P addr len data) := by
  rw [storeSlowPath_eq]
  refine .bind (hR.read.translate addr .store) fun paddr => ?_
  exact .bind (hR.read.checkTrigger ..) fun _ => hR.storeAt ..

theorem StoreKeeps.store (hR : StoreKeeps P R) (ty : MemType) (addr val : Reg) :
    Keeps R (store P ty addr val) := by
  refine .ite (.bind (.throw _) fun _ => ?_) ?_
  all_goals
    refine .bind .get fun m => .ite (.modify fun m => hR.write m _) (.ite ?_ ?_)
    · refine .bind (hR.read.checkTrigger ..) fun _ => ?_
      exact .modify fun m => hR.write m _
    · exact hR.storeSlowPath ..

theorem StoreKeeps.amo (hR : StoreKeeps P R) (ty : MemType) (addr : Reg) (f : Reg → Reg) :
    Keeps R (amo P ty addr f) := by
  refine .ite (.bind (.throw _) fun _ => ?_) ?_
  all_goals
    refine .tryCatch ?_ ?_
    · refine .bind (hR.read.load ..) fun lhs => ?_
      exact .bind (hR.store ..) fun _ => .pure _
    · intro e
      split
      · exact .ite (.throw _) (.throw _)
      · exact .throw _

end StoreRules

/-! ## Stores that throw -/

/-- A device that refuses a store does not raise an interrupt either. -/
def Platform.RefusalsKeepMip : Prop :=
  ∀ addr len data dev mip, (P.busStore addr len data dev mip).1 = false →
    (P.busStore addr len data dev mip).2.2 = mip

section Throws

variable {P} (hbus : P.RefusalsKeepMip)
include hbus

theorem mmioStore_refused {paddr : Reg} {len : Nat} {data : Reg} {dev : β} {mip : Reg}
    (h : (P.mmioStore paddr len data dev mip).1 = false) :
    (P.mmioStore paddr len data dev mip).2.2 = mip := by
  unfold Platform.mmioStore at h ⊢
  split at h
  · rename_i hwrap
    rw [if_pos hwrap]
  · rename_i hwrap
    rw [if_neg hwrap]
    exact hbus _ _ _ _ _ h

theorem storeAt_throws (addr paddr : Reg) (len : Nat) (data : Reg) :
    KeepsOnThrow (ReadOnly P) (storeAt P addr paddr len data) := by
  constructor
  intro m e m' h
  simp only [storeAt, run_bind, run_get] at h
  split at h
  · -- After a write to memory nothing throws.
    simp only [run_bind, run_modify] at h
    split at h <;> cases h
  · simp only [run_bind, run_modify] at h
    split at h
    · rename_i hrefused
      cases h
      have hmip := mmioStore_refused hbus (by simpa using hrefused)
      exact ⟨by simp only [deviceStore, hmip], rfl, rfl, .refl⟩
    · cases h

theorem store_throws (ty : MemType) (addr val : Reg) :
    KeepsOnThrow (ReadOnly P) (store P ty addr val) := by
  refine .ite (.bind (.throw _) fun _ => ?_) ?_
  all_goals
    refine .bind .get fun m => .ite .modify (.ite ?_ ?_)
    · exact .bind ((readKeeps_readOnly P).checkTrigger ..) fun _ => .modify
    · rw [storeSlowPath_eq]
      refine .bind ((readKeeps_readOnly P).translate ..) fun paddr => ?_
      exact .bind ((readKeeps_readOnly P).checkTrigger ..) fun _ => storeAt_throws hbus ..

theorem amo_throws (ty : MemType) (addr : Reg) (f : Reg → Reg) :
    KeepsOnThrow (ReadOnly P) (amo P ty addr f) := by
  refine .ite (.bind (.throw _) fun _ => ?_) ?_
  all_goals
    refine .tryCatch ?_ fun e => ?_
    · refine .bind (load_readOnly P ..) fun lhs => ?_
      constructor
      intro m e m' h
      rcases bind_error h with hstore | ⟨_, _, _, hret⟩
      · exact (store_throws hbus ..).error hstore
      · cases hret
    · split
      · exact .ite (Keeps.throw _).onThrow (Keeps.throw _).onThrow
      · exact (Keeps.throw _).onThrow

end Throws

/-! ## Without triggers -/

/-- No trigger is armed. -/
def Hart.Unarmed (h : Hart) : Prop :=
  ∀ i, (h.mcontrol i).load = false ∧ (h.mcontrol i).store = false ∧ (h.mcontrol i).execute = false

instance (h : Hart) : Decidable h.Unarmed := inferInstanceAs (Decidable (∀ _, _))

theorem triggerMatchFrom_unarmed {h : Hart} (hunarmed : h.Unarmed) (operation : TriggerOperation)
    (address data : Reg) (chainOk : Bool) (rest : List (Fin 4)) :
    triggerMatchFrom h operation address data chainOk rest = none := by
  induction rest generalizing chainOk with
  | nil => rfl
  | cons i rest ih =>
      have hoff : triggerEnabled h operation (h.mcontrol i) = false := by
        obtain ⟨hload, hstore, hexecute⟩ := hunarmed i
        cases operation with
        | execute => simp [triggerEnabled, hexecute]
        | store => simp [triggerEnabled, hstore]
        | load => simp [triggerEnabled, hload]
      rw [triggerMatchFrom, hoff]
      simp only [ih, Bool.not_false, if_true, ite_self]

/-- No access of the hart matches a trigger. -/
def Hart.Untriggered (h : Hart) : Prop :=
  ∀ operation address data, triggerMatch h operation address data = none

theorem Hart.Unarmed.untriggered {h : Hart} (hunarmed : h.Unarmed) : h.Untriggered := by
  intro operation address data
  rw [triggerMatch, triggerMatchFrom_unarmed hunarmed, ite_self]

/-- In debug mode triggers do not match. -/
theorem Hart.untriggered_of_debug {h : Hart} (hdebug : h.inDebugMode = true) : h.Untriggered :=
  fun _ _ _ => if_pos hdebug

theorem run_checkTrigger_untriggered {m : Machine β} (huntriggered : m.hart.Untriggered)
    (operation : TriggerOperation) (address data : Reg) :
    checkTrigger operation address data m = .ok () m := by
  simp only [checkTrigger, run_bind, run_get, huntriggered operation address data]
  split <;> rfl

theorem run_checkTrigger_unarmed {m : Machine β} (hunarmed : m.hart.Unarmed)
    (operation : TriggerOperation) (address data : Reg) :
    checkTrigger operation address data m = .ok () m :=
  run_checkTrigger_untriggered hunarmed.untriggered operation address data

end SpikeSim.Riscv
