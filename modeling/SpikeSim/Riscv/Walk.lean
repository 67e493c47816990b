/-
# Page walks

What a page table says about an address, stated without the walk: the table entries
that are followed, the leaf they lead to, and what its bits admit.  `mmu_t::walk`
succeeds just where the table admits the access, and marks the leaf; where it does not
succeed the access faults.

The physical address is put together with an OR.  Inside of a superpage it is the
offset that is expected only if the entry points to the start of one.
-/

import SpikeSim.Riscv.Access
import SpikeSim.Riscv.Operands
import SpikeSim.Riscv.Paging

namespace SpikeSim.Riscv

variable {β : Type} (P : Platform β)

/-! ## The specification -/

/-- The bits of an address that select an entry of a table at a level. -/
def VmShape.index (shape : VmShape) (addr : Reg) (level : Nat) : Reg :=
  (addr >>> (pgshift + level * shape.ptidxbits)) &&& ((1 <<< shape.ptidxbits) - 1)

/-- The physical address of the entry for `addr` in the table at `base`. -/
def VmShape.entryAddr (shape : VmShape) (addr : Reg) (level : Nat) (base : Reg) : Reg :=
  base + shape.index addr level * BitVec.ofNat 64 shape.ptesize

/-- The entry at a physical address. -/
def pteAt (dram : Reg → BitVec 8) (shape : VmShape) (entry : Reg) : Reg :=
  readLE dram (P.addrToMem entry) shape.ptesize

/-- V=1 and R=W=X=0. -/
def IsPointer (pte : Reg) : Prop :=
  pte.getLsbD 0 = true ∧ pte.getLsbD 1 = false ∧ pte.getLsbD 2 = false ∧ pte.getLsbD 3 = false

/-- Pointer entries, all of them in memory, lead from the table at `base` to the leaf entry at
the physical address `entry`, with at most `levels` tables on the way; `level` tables are left
over. -/
inductive LeadsTo (dram : Reg → BitVec 8) (shape : VmShape) (addr : Reg) :
    (levels : Nat) → (base : Reg) → (level : Nat) → (entry : Reg) → Prop
  | leaf {level : Nat} {base : Reg} (hmem : P.addrIsMem (shape.entryAddr addr level base) = true)
      (hleaf : ¬IsPointer (pteAt P dram shape (shape.entryAddr addr level base))) :
      LeadsTo dram shape addr (level + 1) base level (shape.entryAddr addr level base)
  | pointer {levels level : Nat} {base entry : Reg}
      (hmem : P.addrIsMem (shape.entryAddr addr levels base) = true)
      (hpointer : IsPointer (pteAt P dram shape (shape.entryAddr addr levels base)))
      (hrest : LeadsTo dram shape addr levels
        ((pteAt P dram shape (shape.entryAddr addr levels base) >>> 10) <<< pgshift) level entry) :
      LeadsTo dram shape addr (levels + 1) base level entry

/-- The bits of a leaf entry admit the access. -/
structure Admits (type : AccessType) (mode : Prv) (pum mxr : Bool) (pte : Reg) : Prop where
  valid : pte.getLsbD 0 = true
  /-- Not writable without being readable. -/
  readable : pte.getLsbD 2 = true → pte.getLsbD 1 = true
  /-- Pages of U-mode are for S-mode only without PUM, the others for S-mode only. -/
  privilege : if pte.getLsbD 4 then mode = prvS → pum = false else mode = prvS
  access : match type with
    | .fetch => pte.getLsbD 3 = true
    | .load => pte.getLsbD 1 = true ∨ mxr = true ∧ pte.getLsbD 3 = true
    | .store => pte.getLsbD 1 = true ∧ pte.getLsbD 2 = true

/-- The number of bits of a virtual address. -/
def VmShape.vaBits (shape : VmShape) : Nat := pgshift + shape.levels * shape.ptidxbits

/-- The bits above the virtual address are copies of its top bit. -/
def VmShape.Canonical (shape : VmShape) (xlen : Xlen) (addr : Reg) : Prop :=
  ∀ i, shape.vaBits - 1 ≤ i → i < xlen.bits → addr.getLsbD i = addr.getLsbD (shape.vaBits - 1)

/-- The page table of the hart admits the access, by the leaf at `entry`. -/
structure TableAdmits (h : Hart) (dram : Reg → BitVec 8) (shape : VmShape) (addr : Reg)
    (type : AccessType) (mode : Prv) (level : Nat) (entry : Reg) : Prop where
  canonical : shape.Canonical h.xlen addr
  leads : LeadsTo P dram shape addr shape.levels (h.sptbr <<< pgshift) level entry
  admits : Admits type mode (hasField h.mstatus mstatusPum) (hasField h.mstatus mstatusMxr)
    (pteAt P dram shape entry)

/-! ## Bits of an entry -/

theorem and_twoPow_eq_zero (x : Reg) {i : Nat} (hi : i < 64) :
    (x &&& BitVec.twoPow 64 i == 0) = !x.getLsbD i := by
  rw [BitVec.and_twoPow]
  cases x.getLsbD i with
  | false => rfl
  | true =>
      have hne : BitVec.twoPow 64 i ≠ 0 := by
        intro h
        have hbit := congrArg (fun v => v.getLsbD i) h
        simp [hi] at hbit
      simpa using hne

theorem pteTable_iff (pte : Reg) : pteTable pte = true ↔ IsPointer pte := by
  have hmask : pteV ||| pteR ||| pteW ||| pteX = BitVec.ofNat 64 15 := by decide
  rw [pteTable, hmask, beq_iff_eq, IsPointer]
  constructor
  · intro h
    have hbit (i : Nat) (hi : i < 4) : pte.getLsbD i = pteV.getLsbD i := by
      have hand := congrArg (fun v => v.getLsbD i) h
      have hall : ∀ j < 4, (15#64).getLsbD j = true := by decide
      simpa [hall i hi] using hand
    exact ⟨hbit 0 (by omega), hbit 1 (by omega), hbit 2 (by omega), hbit 3 (by omega)⟩
  · rintro ⟨hv, hr, hw, hx⟩
    apply BitVec.eq_of_getLsbD_eq
    intro i hi
    rw [BitVec.getLsbD_and]
    by_cases hlow : i < 4
    · have hall : ∀ j < 4, (15#64).getLsbD j = true := by decide
      rw [hall i hlow, Bool.and_true]
      obtain rfl | rfl | rfl | rfl : i = 0 ∨ i = 1 ∨ i = 2 ∨ i = 3 := by omega
      · exact hv
      · exact hr
      · exact hw
      · exact hx
    · have hall : ∀ j < 64, ¬j < 4 → (15#64).getLsbD j = false ∧ pteV.getLsbD j = false := by decide
      rw [(hall i hi hlow).1, (hall i hi hlow).2, Bool.and_false]

theorem admits_iff (type : AccessType) (mode : Prv) (pum mxr : Bool) (pte : Reg) :
    Admits type mode pum mxr pte ↔ pte.getLsbD 0 = true ∧
      (pte.getLsbD 2 = true → pte.getLsbD 1 = true) ∧
      (if pte.getLsbD 4 then mode = prvS → pum = false else mode = prvS) ∧
      match type with
      | .fetch => pte.getLsbD 3 = true
      | .load => pte.getLsbD 1 = true ∨ mxr = true ∧ pte.getLsbD 3 = true
      | .store => pte.getLsbD 1 = true ∧ pte.getLsbD 2 = true :=
  ⟨fun h => ⟨h.valid, h.readable, h.privilege, h.access⟩, fun ⟨hv, hr, hp, ha⟩ => ⟨hv, hr, hp, ha⟩⟩

theorem pteDenied_eq_false_iff (type : AccessType) (mode : Prv) (pum mxr : Bool) (pte : Reg) :
    pteDenied type (mode == prvS) pum mxr pte = false ↔ Admits type mode pum mxr pte := by
  have hV : pteV = BitVec.twoPow 64 0 := by decide
  have hR : pteR = BitVec.twoPow 64 1 := by decide
  have hW : pteW = BitVec.twoPow 64 2 := by decide
  have hX : pteX = BitVec.twoPow 64 3 := by decide
  have hU : pteU = BitVec.twoPow 64 4 := by decide
  have hzero {i : Nat} (hi : i < 64) := and_twoPow_eq_zero pte hi
  simp only [admits_iff, pteDenied, hV, hR, hW, hX, hU, bne, hzero (show 0 < 64 by decide),
    hzero (show 1 < 64 by decide), hzero (show 2 < 64 by decide), hzero (show 3 < 64 by decide),
    hzero (show 4 < 64 by decide)]
  generalize pte.getLsbD 0 = v, pte.getLsbD 1 = r, pte.getLsbD 2 = w, pte.getLsbD 3 = x,
    pte.getLsbD 4 = u
  by_cases hmode : mode = prvS
  · simp only [hmode, beq_self_eq_true, forall_const]
    cases type <;> cases u <;> cases r <;> cases w <;> cases v <;> simp
  · simp only [beq_eq_false_iff_ne.mpr hmode, hmode, false_implies]
    cases type <;> cases u <;> cases r <;> cases w <;> cases v <;> simp

/-! ## The walk follows the table -/

variable {P}

/-- The page that a leaf maps an address to. -/
def VmShape.leafPage (shape : VmShape) (addr : Reg) (level : Nat) (pte : Reg) : Reg :=
  (pte >>> 10 ||| (addr >>> pgshift &&& ((1 <<< (level * shape.ptidxbits)) - 1))) <<< pgshift

section Levels

variable {dram : Reg → BitVec 8} {shape : VmShape} {type : AccessType} {mode : Prv}
  {pum mxr : Bool} {addr : Reg}

theorem walkLevels_succ (level : Nat) (base : Reg) :
    walkLevels P dram shape type (mode == prvS) pum mxr addr (level + 1) base =
      if !P.addrIsMem (shape.entryAddr addr level base) then none
      else
        let pte := pteAt P dram shape (shape.entryAddr addr level base)
        if pteTable pte then
          walkLevels P dram shape type (mode == prvS) pum mxr addr level ((pte >>> 10) <<< pgshift)
        else if pteDenied type (mode == prvS) pum mxr pte then none
        else some (P.addrToMem (shape.entryAddr addr level base), shape.leafPage addr level pte) :=
  rfl

theorem walkLevels_of_leadsTo {levels level : Nat} {base entry : Reg}
    (h : LeadsTo P dram shape addr levels base level entry)
    (hadmits : Admits type mode pum mxr (pteAt P dram shape entry)) :
    walkLevels P dram shape type (mode == prvS) pum mxr addr levels base =
      some (P.addrToMem entry, shape.leafPage addr level (pteAt P dram shape entry)) := by
  induction h with
  | leaf hmem hleaf =>
      have hdenied := (pteDenied_eq_false_iff ..).mpr hadmits
      have htable := mt (pteTable_iff _).mp hleaf
      rw [walkLevels_succ, hmem]
      simp only [htable, hdenied, Bool.not_true, Bool.false_eq_true, if_false]
  | pointer hmem hpointer hrest ih =>
      have htable := (pteTable_iff _).mpr hpointer
      rw [walkLevels_succ, hmem]
      simp only [htable, Bool.not_true, Bool.false_eq_true, if_false, if_true]
      exact ih hadmits

theorem leadsTo_of_walkLevels {levels : Nat} {base : Reg} {r : Reg × Reg}
    (h : walkLevels P dram shape type (mode == prvS) pum mxr addr levels base = some r) :
    ∃ level entry, LeadsTo P dram shape addr levels base level entry ∧
      Admits type mode pum mxr (pteAt P dram shape entry) := by
  induction levels generalizing base with
  | zero => cases h
  | succ levels ih =>
      rw [walkLevels_succ] at h
      dsimp only at h
      split_ifs at h with hmem htable hdenied
      · obtain ⟨level, entry, hleads, hadmits⟩ := ih h
        rw [Bool.not_eq_true, Bool.not_eq_false'] at hmem
        exact ⟨level, entry, .pointer hmem ((pteTable_iff _).mp htable) hleads, hadmits⟩
      · rw [Bool.not_eq_true, Bool.not_eq_false'] at hmem
        rw [Bool.not_eq_true, pteDenied_eq_false_iff] at hdenied
        exact ⟨levels, _, .leaf hmem (mt (pteTable_iff _).mpr htable), hdenied⟩

/-- A table leads to one leaf at most. -/
theorem LeadsTo.unique {levels level level' : Nat} {base entry entry' : Reg}
    (h : LeadsTo P dram shape addr levels base level entry)
    (h' : LeadsTo P dram shape addr levels base level' entry') :
    level' = level ∧ entry' = entry := by
  induction h with
  | leaf hmem hleaf =>
      cases h' with
      | leaf => exact ⟨rfl, rfl⟩
      | pointer _ hpointer _ => exact absurd hpointer hleaf
  | pointer hmem hpointer _ ih =>
      cases h' with
      | leaf _ hleaf => exact absurd hpointer hleaf
      | pointer _ _ hrest => exact ih hrest

theorem LeadsTo.level_lt {levels level : Nat} {base entry : Reg}
    (h : LeadsTo P dram shape addr levels base level entry) : level < levels := by
  induction h with
  | leaf => exact Nat.lt_succ_self _
  | pointer _ _ _ ih => exact Nat.lt_succ_of_lt ih

end Levels

/-- The mask for the bits above a virtual address and for its top bit. -/
def VmShape.highMask (shape : VmShape) (xlen : Xlen) : Reg :=
  (1 <<< (xlen.bits - (shape.vaBits - 1))) - 1

/-- The test of the high bits that `walk` makes. -/
theorem canonical_iff_masked {shape : VmShape} {xlen : Xlen} (hfits : shape.vaBits ≤ xlen.bits)
    (addr : Reg) :
    (addr >>> (shape.vaBits - 1) &&& shape.highMask xlen = 0 ∨
      addr >>> (shape.vaBits - 1) &&& shape.highMask xlen = shape.highMask xlen) ↔
        shape.Canonical xlen addr := by
  have hpage : 12 ≤ shape.vaBits := Nat.le_add_right ..
  have hxlen : xlen.bits ≤ 64 := by cases xlen <;> decide
  have hmask (i : Nat) : (shape.highMask xlen).getLsbD i =
      decide (i < xlen.bits - (shape.vaBits - 1)) := getLsbD_mask _ i (by omega)
  unfold VmShape.Canonical
  generalize shape.highMask xlen = mask at *
  generalize htop : shape.vaBits - 1 = top at *
  generalize hwidth : xlen.bits - top = width at *
  have hmasked (i : Nat) : (addr >>> top &&& mask).getLsbD i =
      (addr.getLsbD (top + i) && decide (i < width)) := by
    rw [BitVec.getLsbD_and, BitVec.getLsbD_ushiftRight, hmask]
  constructor
  · intro h i hi hlt
    have hbit (j : Nat) (hj : j < width) : addr.getLsbD (top + j) =
        (addr >>> top &&& mask).getLsbD j := by
      rw [hmasked, decide_eq_true hj, Bool.and_true]
    have hfirst := hbit 0 (by omega)
    have hother := hbit (i - top) (by omega)
    rw [Nat.add_zero] at hfirst
    rw [Nat.add_sub_cancel' hi] at hother
    rw [hfirst, hother]
    rcases h with h | h
    · simp [h]
    · rw [h, hmask, hmask, decide_eq_true (show i - top < width by omega),
        decide_eq_true (show 0 < width by omega)]
  · intro h
    have hall (i : Nat) (hi : i < width) : addr.getLsbD (top + i) = addr.getLsbD top :=
      h (top + i) (by omega) (by omega)
    cases hbit : addr.getLsbD top with
    | false =>
        left
        apply BitVec.eq_of_getLsbD_eq
        intro i _
        by_cases hi : i < width
        · simp [hmasked, hall i hi, hbit]
        · simp [hmasked, hi]
    | true =>
        right
        apply BitVec.eq_of_getLsbD_eq
        intro i _
        rw [hmasked, hmask]
        by_cases hi : i < width
        · rw [hall i hi, hbit, Bool.true_and]
        · rw [decide_eq_false hi, Bool.and_false]

section Walk

variable {h : Hart} {dram : Reg → BitVec 8} {shape : VmShape} {addr : Reg} {type : AccessType}
  {mode : Prv}

theorem walkLeaf_eq (hfits : shape.vaBits ≤ h.xlen.bits) [Decidable (shape.Canonical h.xlen addr)] :
    walkLeaf P h dram shape addr type mode =
      if shape.Canonical h.xlen addr then
        walkLevels P dram shape type (mode == prvS) (hasField h.mstatus mstatusPum)
          (hasField h.mstatus mstatusMxr) addr shape.levels (h.sptbr <<< pgshift)
      else none := by
  have hiff := canonical_iff_masked hfits addr
  by_cases hcanonical : shape.Canonical h.xlen addr
  · rw [if_pos hcanonical]
    exact if_neg (by rw [← not_or, not_not]; exact hiff.mpr hcanonical)
  · rw [if_neg hcanonical]
    exact if_pos (by rw [← not_or]; exact mt hiff.mp hcanonical)

/-- The leaf that the walk finds. -/
theorem TableAdmits.walkLeaf (hfits : shape.vaBits ≤ h.xlen.bits) {level : Nat} {entry : Reg}
    (htable : TableAdmits P h dram shape addr type mode level entry) :
    Riscv.walkLeaf P h dram shape addr type mode =
      some (P.addrToMem entry, shape.leafPage addr level (pteAt P dram shape entry)) := by
  classical
  rw [walkLeaf_eq hfits, if_pos htable.canonical]
  exact walkLevels_of_leadsTo htable.leads htable.admits

theorem walkLeaf_eq_none_iff (hfits : shape.vaBits ≤ h.xlen.bits) :
    walkLeaf P h dram shape addr type mode = none ↔
      ¬∃ level entry, TableAdmits P h dram shape addr type mode level entry := by
  classical
  constructor
  · rintro hnone ⟨level, entry, htable⟩
    rw [htable.walkLeaf hfits] at hnone
    cases hnone
  · intro htable
    rw [walkLeaf_eq hfits]
    split
    · rename_i hcanonical
      rw [Option.eq_none_iff_forall_ne_some]
      intro r hwalk
      obtain ⟨level, entry, hleads, hadmits⟩ := leadsTo_of_walkLevels hwalk
      exact htable ⟨level, entry, hcanonical, hleads, hadmits⟩
    · rfl

end Walk

/-! ## Faults -/

/-- The access fault of the kind of the access. -/
def accessFault (addr : Reg) : AccessType → Trap
  | .load => .loadAccessFault addr
  | .store => .storeAccessFault addr
  | .fetch => .instructionAccessFault addr

/-- The slow path of an access. -/
def slowPathOf (P : Platform β) (addr : Reg) (len : Nat) (data : Reg) : AccessType → M β Unit
  | .load => do let _ ← loadSlowPath P addr len
  | .store => storeSlowPath P addr len data
  | .fetch => do let _ ← fetchSlowPath P addr

/-- The address of a failed walk wraps around, whatever is read or written there. -/
theorem fault_wraps {len : Nat} (hpos : 0 < len) (hlen : len ≤ 8) :
    (-1 : Reg) + BitVec.ofNat 64 len < -1 := by
  obtain rfl | rfl | rfl | rfl | rfl | rfl | rfl | rfl : len = 1 ∨ len = 2 ∨ len = 3 ∨ len = 4 ∨
      len = 5 ∨ len = 6 ∨ len = 7 ∨ len = 8 := by omega
  all_goals decide

theorem addrIsMem_fault : P.addrIsMem (-1) = false := by
  cases hmem : P.addrIsMem (-1) with
  | false => rfl
  | true => exact absurd rfl (addrIsMem_ne_fault hmem)

theorem run_loadDevice_fault (fault : Trap) {len : Nat} (hpos : 0 < len) (hlen : len ≤ 8)
    (m : Machine β) : loadDevice P fault (-1) len m = .error (.trap fault) m := by
  have hload : P.mmioLoad (-1) len m.dev = (none, m.dev) := if_pos (fault_wraps hpos hlen)
  simp only [loadDevice, run_bind, run_get, run_modify, deviceLoad, hload, run_throwTrap]

/-- An access whose walk fails raises the access fault of its kind and changes nothing. -/
theorem slowPathOf_fault {m : Machine β} {addr : Reg} {type : AccessType}
    (htr : translation P m.hart m.dram addr type = some (-1, none)) (hunarmed : m.hart.Unarmed)
    {len : Nat} (hpos : 0 < len) (hlen : len ≤ 8) (data : Reg) :
    slowPathOf P addr len data type m = .error (.trap (accessFault addr type)) m := by
  have htranslate : translate P addr type m = .ok (-1) m := by
    rw [translate_eq, htr]
    rfl
  cases type with
  | load =>
      rw [slowPathOf, loadSlowPath_eq]
      simp only [run_bind, htranslate, loadAt, run_get, addrIsMem_fault, Bool.false_eq_true,
        if_false, run_loadDevice_fault _ hpos hlen]
      rfl
  | store =>
      have hstore : P.mmioStore (-1) len data m.dev m.hart.mip = (false, m.dev, m.hart.mip) :=
        if_pos (fault_wraps hpos hlen)
      rw [slowPathOf, storeSlowPath_eq]
      simp only [run_bind, htranslate, run_checkTrigger_unarmed hunarmed, storeAt, run_get,
        addrIsMem_fault, Bool.false_eq_true, if_false, run_modify, deviceStore, hstore,
        Bool.not_false, if_true, run_throwTrap]
      rfl
  | fetch =>
      rw [slowPathOf, fetchSlowPath_eq]
      by_cases hvaddr : addr = -1
      · subst hvaddr
        simp only [run_bind, htranslate, ne_eq, not_true_eq_false, and_false, if_false,
          fetchAt, run_get, addrIsMem_fault, Bool.false_eq_true,
          run_loadDevice_fault _ (show 0 < 2 by decide) (show 2 ≤ 8 by decide)]
        rfl
      · simp only [run_bind, htranslate, ne_eq, hvaddr, not_false_eq_true, and_self, if_true,
          run_throwTrap]
        rfl

/-! ## Permission and frame -/

theorem leafPage_ne_fault (shape : VmShape) (addr : Reg) (level : Nat) (pte : Reg) :
    shape.leafPage addr level pte ≠ -1 := by
  intro h
  have hbit := congrArg (fun v => v.getLsbD 0) h
  simp [VmShape.leafPage, pgshift] at hbit

/-- The entry after it has been marked. -/
theorem pteAt_marked {dram : Reg → BitVec 8} {shape : VmShape}
    (hsize : shape.ptesize = 4 ∨ shape.ptesize = 8) (entry : Reg) (type : AccessType) :
    pteAt P (markAccessed dram (P.addrToMem entry) type) shape entry =
      pteAt P dram shape entry ||| pteAccessBits type := by
  obtain ⟨n, hlt, hn⟩ : ∃ n < 2 ^ 64, shape.ptesize = n + 1 := by
    rcases hsize with hsize | hsize
    · exact ⟨3, by decide, hsize⟩
    · exact ⟨7, by decide, hsize⟩
  have hbits : (accessByte type).setWidth 64 = pteAccessBits type := by
    cases type <;> decide
  rw [pteAt, pteAt, markAccessed_eq, hn, readLE_update_or _ _ hlt, hbits]

/-- **Permission and frame.**  A walk succeeds just if the table admits the access.  It then
sets the accessed bit of the leaf, and the dirty bit for a store, and changes no other byte; if
it fails, it changes nothing, and the access raises the fault of its kind at its address. -/
theorem walk_permission_frame (m : Machine β) {shape : VmShape}
    (hshape : vmShape m.hart.mstatus = some shape) (hfits : shape.vaBits ≤ m.hart.xlen.bits)
    (addr : Reg) (type : AccessType) {mode : Prv} (hmode : mode = prvU ∨ mode = prvS) :
    ((∃ page m', walk P addr type mode m = .ok page m' ∧ page ≠ -1) ↔
      ∃ level entry, TableAdmits P m.hart m.dram shape addr type mode level entry) ∧
    (∀ level entry, TableAdmits P m.hart m.dram shape addr type mode level entry →
      ∃ page dram', walk P addr type mode m = .ok page { m with dram := dram' } ∧
        pteAt P dram' shape entry = pteAt P m.dram shape entry ||| pteAccessBits type ∧
        ∀ ptr ≠ P.addrToMem entry, dram' ptr = m.dram ptr) ∧
    ((¬∃ level entry, TableAdmits P m.hart m.dram shape addr type mode level entry) →
      walk P addr type mode m = .ok (-1) m ∧
      (translationMode m.hart type = mode → m.hart.Unarmed →
        ∀ len data, 0 < len → len ≤ 8 →
          slowPathOf P addr len data type m = .error (.trap (accessFault addr type)) m)) := by
  have hfound {level : Nat} {entry : Reg}
      (htable : TableAdmits P m.hart m.dram shape addr type mode level entry) :
      walk P addr type mode m =
        .ok (shape.leafPage addr level (pteAt P m.dram shape entry))
          { m with dram := markAccessed m.dram (P.addrToMem entry) type } := by
    simp only [walk, run_bind, run_get, hshape, htable.walkLeaf hfits, run_modify, run_pure]
  have hnone (htable : ¬∃ level entry,
      TableAdmits P m.hart m.dram shape addr type mode level entry) :
      walk P addr type mode m = .ok (-1) m := by
    simp only [walk, run_bind, run_get, hshape, (walkLeaf_eq_none_iff hfits).mpr htable, run_pure]
  refine ⟨⟨?_, ?_⟩, ?_, ?_⟩
  · rintro ⟨page, m', hwalk, hpage⟩
    by_contra htable
    rw [hnone htable] at hwalk
    cases hwalk
    exact hpage rfl
  · rintro ⟨level, entry, htable⟩
    exact ⟨_, _, hfound htable, leafPage_ne_fault _ _ _ _⟩
  · intro level entry htable
    refine ⟨_, _, hfound htable, pteAt_marked (vmShape_ptesize hshape) entry type, ?_⟩
    intro ptr hptr
    rw [markAccessed_eq, Function.update_of_ne hptr]
  · intro htable
    refine ⟨hnone htable, ?_⟩
    intro htype hunarmed len data hpos hlen
    apply slowPathOf_fault _ hunarmed hpos hlen
    have hmachine : mode ≠ prvM := by rcases hmode with rfl | rfl <;> decide
    simp only [translation, htype, if_neg hmachine, hshape,
      (walkLeaf_eq_none_iff hfits).mpr htable]

/-- A hart in S-mode under Sv39 whose table is at `0x80001000`. -/
def Hart.sv39 : Hart :=
  { Hart.reset .rv64 0 false with prv := prvS, sptbr := 0x80001, mstatus := 0x09000000 }

/-- Such a hart, with a leaf for the gigapage at `0x80000000`. -/
def gigapage (pte : Reg) : Machine Unit :=
  { Machine.reset .rv64 0 false (Decode.freshDecoder false) (writeLE (fun _ => 0) 0x1010 8 pte) ()
    with hart := .sv39 }

/-- A store to an aligned gigapage. -/
theorem gigapage_admits_store :
    ∃ level entry, TableAdmits .bare (gigapage 0x2000000f).hart (gigapage 0x2000000f).dram
      ⟨3, 9, 8⟩ 0x80002000 .store prvS level entry := by
  have hleaf : walkLeaf .bare (gigapage 0x2000000f).hart (gigapage 0x2000000f).dram ⟨3, 9, 8⟩
      0x80002000 .store prvS = some (0x1010, 0x80002000) := by decide +kernel
  have hwalk : ∃ page m', walk .bare 0x80002000 .store prvS (gigapage 0x2000000f) = .ok page m' ∧
      page ≠ -1 := by
    refine ⟨0x80002000, { gigapage 0x2000000f with
      dram := markAccessed (gigapage 0x2000000f).dram 0x1010 .store }, ?_, by decide⟩
    simp only [walk, run_bind, run_get, show vmShape (gigapage 0x2000000f).hart.mstatus =
      some ⟨3, 9, 8⟩ from rfl, hleaf, run_modify, run_pure]
  exact (walk_permission_frame (gigapage 0x2000000f) rfl (by decide) 0x80002000 .store
    (.inr rfl)).1.mp hwalk

/-! ## Offsets -/

/-- The addresses lie in one page of the size that a leaf at the level maps. -/
def VmShape.SameSuperpage (shape : VmShape) (level : Nat) (addr addr' : Reg) : Prop :=
  addr' >>> (pgshift + level * shape.ptidxbits) = addr >>> (pgshift + level * shape.ptidxbits)

section Offsets

variable {dram : Reg → BitVec 8} {shape : VmShape} {addr addr' : Reg} {level : Nat}

theorem VmShape.SameSuperpage.getLsbD (h : shape.SameSuperpage level addr addr') {i : Nat}
    (hi : pgshift + level * shape.ptidxbits ≤ i) : addr'.getLsbD i = addr.getLsbD i := by
  have hbit := congrArg (fun v => v.getLsbD (i - (pgshift + level * shape.ptidxbits))) h
  simp only [BitVec.getLsbD_ushiftRight] at hbit
  rwa [Nat.add_sub_cancel' hi] at hbit

theorem VmShape.SameSuperpage.entryAddr (h : shape.SameSuperpage level addr addr') {levels : Nat}
    (hle : level ≤ levels) (base : Reg) :
    shape.entryAddr addr' levels base = shape.entryAddr addr levels base := by
  have hshift : addr' >>> (pgshift + levels * shape.ptidxbits) =
      addr >>> (pgshift + levels * shape.ptidxbits) := by
    apply BitVec.eq_of_getLsbD_eq
    intro i _
    rw [BitVec.getLsbD_ushiftRight, BitVec.getLsbD_ushiftRight, h.getLsbD]
    have hmul := Nat.mul_le_mul_right shape.ptidxbits hle
    omega
  rw [VmShape.entryAddr, VmShape.index, hshift]
  rfl

/-- The addresses of a superpage share its leaf. -/
theorem LeadsTo.sameSuperpage (h : shape.SameSuperpage level addr addr') {levels : Nat}
    {base entry : Reg} (hleads : LeadsTo P dram shape addr levels base level entry) :
    LeadsTo P dram shape addr' levels base level entry := by
  induction hleads with
  | leaf hmem hleaf =>
      rw [← h.entryAddr le_rfl] at hmem hleaf ⊢
      exact .leaf hmem hleaf
  | pointer hmem hpointer hrest ih =>
      rw [← h.entryAddr hrest.level_lt.le] at hmem hpointer ih
      exact .pointer hmem hpointer (ih h)

theorem TableAdmits.sameSuperpage {hart : Hart} (h : shape.SameSuperpage level addr addr')
    (hbits : 0 < shape.ptidxbits) {type : AccessType} {mode : Prv} {entry : Reg}
    (htable : TableAdmits P hart dram shape addr type mode level entry) :
    TableAdmits P hart dram shape addr' type mode level entry where
  canonical i hi hlt := by
    have hlevel := htable.leads.level_lt
    have htop : pgshift + level * shape.ptidxbits ≤ shape.vaBits - 1 := by
      have hmul := Nat.mul_le_mul_right shape.ptidxbits (Nat.succ_le_of_lt hlevel)
      rw [Nat.succ_mul] at hmul
      unfold VmShape.vaBits
      omega
    rw [h.getLsbD (htop.trans hi), h.getLsbD htop]
    exact htable.canonical i hi hlt
  leads := htable.leads.sameSuperpage h
  admits := htable.admits

/-- The bits of the physical address: the offset in the page, then the entry or the address,
then the entry. -/
theorem getLsbD_leafPage_or (hshift : level * shape.ptidxbits < 64) (addr pte : Reg) {i : Nat}
    (hi : i < 64) :
    (shape.leafPage addr level pte ||| pageOffset addr).getLsbD i =
      if i < 12 then addr.getLsbD i
      else if i < 12 + level * shape.ptidxbits then pte.getLsbD (i - 2) || addr.getLsbD i
      else pte.getLsbD (i - 2) := by
  rw [BitVec.getLsbD_or, getLsbD_pageOffset, VmShape.leafPage, BitVec.getLsbD_shiftLeft,
    BitVec.getLsbD_or, BitVec.getLsbD_and, BitVec.getLsbD_ushiftRight, BitVec.getLsbD_ushiftRight,
    getLsbD_mask _ _ hshift, pgshift]
  by_cases hoffset : i < 12
  · simp [hoffset]
  · rw [show 10 + (i - 12) = i - 2 by omega, show 12 + (i - 12) = i by omega]
    by_cases hpage : i < 12 + level * shape.ptidxbits
    · simp [hi, hoffset, hpage, show i - 12 < level * shape.ptidxbits by omega]
    · simp [hi, hoffset, hpage, show ¬i - 12 < level * shape.ptidxbits by omega]

theorem translate_of_tableAdmits {m : Machine β} (hshape : vmShape m.hart.mstatus = some shape)
    (hfits : shape.vaBits ≤ m.hart.xlen.bits) {type : AccessType}
    (hmode : translationMode m.hart type ≠ prvM) {entry : Reg}
    (htable : TableAdmits P m.hart m.dram shape addr type (translationMode m.hart type) level entry) :
    translate P addr type m =
      .ok (shape.leafPage addr level (pteAt P m.dram shape entry) ||| pageOffset addr)
        { m with dram := markAccessed m.dram (P.addrToMem entry) type } := by
  rw [translate_eq]
  simp only [translation, if_neg hmode, hshape, htable.walkLeaf hfits, markLeaf]

/-- The levels above a leaf take few bits. -/
theorem vmShape_shift {mstatus : Reg} (hshape : vmShape mstatus = some shape)
    (hlevel : level < shape.levels) :
    0 < shape.ptidxbits ∧ 12 + level * shape.ptidxbits < 64 := by
  simp only [vmShape] at hshape
  split_ifs at hshape
  all_goals
    cases hshape
    dsimp only at hlevel ⊢
    omega

end Offsets

/-- A leaf maps the addresses of its page to distinct and contiguous physical addresses: each
keeps its offset in the page, and the bits above are those of the entry. -/
structure KeepsOffsets (P : Platform β) (m : Machine β) (shape : VmShape) (addr : Reg)
    (type : AccessType) (level : Nat) (pte : Reg) : Prop where
  bits : ∀ addr' paddr m', shape.SameSuperpage level addr addr' →
    translate P addr' type m = .ok paddr m' →
      (∀ i < 12 + level * shape.ptidxbits, paddr.getLsbD i = addr'.getLsbD i) ∧
      ∀ i < 64, 12 + level * shape.ptidxbits ≤ i → paddr.getLsbD i = (pte >>> 10).getLsbD (i - 12)
  contiguous : ∀ a b pa pb ma mb, shape.SameSuperpage level addr a →
    shape.SameSuperpage level addr b → translate P a type m = .ok pa ma →
      translate P b type m = .ok pb mb → pb - pa = b - a

theorem mod_eq_of_getLsbD {a b : Reg} {n : Nat} (h : ∀ i < n, b.getLsbD i = a.getLsbD i) :
    b.toNat % 2 ^ n = a.toNat % 2 ^ n := by
  apply Nat.eq_of_testBit_eq
  intro i
  rw [Nat.testBit_mod_two_pow, Nat.testBit_mod_two_pow, BitVec.testBit_toNat, BitVec.testBit_toNat]
  by_cases hi : i < n
  · rw [h i hi]
  · rw [decide_eq_false hi, Bool.false_and, Bool.false_and]

theorem div_eq_of_getLsbD {a b : Reg} {n : Nat} (h : ∀ i, n ≤ i → b.getLsbD i = a.getLsbD i) :
    b.toNat / 2 ^ n = a.toNat / 2 ^ n := by
  apply Nat.eq_of_testBit_eq
  intro i
  rw [Nat.testBit_div_two_pow, Nat.testBit_div_two_pow, BitVec.testBit_toNat, BitVec.testBit_toNat]
  exact h _ (by omega)

/-- Two numbers with the same high bits are as far apart as two others with the same high bits
and the same low bits as these. -/
theorem sub_eq_sub_of_getLsbD {a b c d : Reg} {n : Nat}
    (hab : ∀ i, n ≤ i → b.getLsbD i = a.getLsbD i) (hcd : ∀ i, n ≤ i → d.getLsbD i = c.getLsbD i)
    (hac : ∀ i < n, c.getLsbD i = a.getLsbD i) (hbd : ∀ i < n, d.getLsbD i = b.getLsbD i) :
    d - c = b - a := by
  have hsplit (x : Reg) := Nat.div_add_mod x.toNat (2 ^ n)
  have ha := hsplit a
  have hb := hsplit b
  have hc := hsplit c
  have hd := hsplit d
  rw [div_eq_of_getLsbD hab] at hb
  rw [div_eq_of_getLsbD hcd, mod_eq_of_getLsbD hbd] at hd
  rw [mod_eq_of_getLsbD hac] at hc
  apply BitVec.eq_of_toNat_eq
  rw [BitVec.toNat_sub, BitVec.toNat_sub]
  have ha' := a.isLt
  have hb' := b.isLt
  have hc' := c.isLt
  have hd' := d.isLt
  omega

/-- **Offsets in superpages.**  Where a walk succeeds on a leaf, the addresses of its page keep
their offsets if and only if the low bits of the page number in the entry are clear. -/
theorem superpage_offsets_iff {m : Machine β} {shape : VmShape}
    (hshape : vmShape m.hart.mstatus = some shape) (hfits : shape.vaBits ≤ m.hart.xlen.bits)
    {addr : Reg} {type : AccessType} (hmode : translationMode m.hart type ≠ prvM) {level : Nat}
    {entry : Reg}
    (htable : TableAdmits P m.hart m.dram shape addr type (translationMode m.hart type) level entry) :
    KeepsOffsets P m shape addr type level (pteAt P m.dram shape entry) ↔
      ∀ i < level * shape.ptidxbits, (pteAt P m.dram shape entry >>> 10).getLsbD i = false := by
  obtain ⟨hbits, hshift⟩ := vmShape_shift hshape htable.leads.level_lt
  have hrun {addr' : Reg} (hsame : shape.SameSuperpage level addr addr') :=
    translate_of_tableAdmits hshape hfits hmode (htable.sameSuperpage hsame hbits)
  generalize hpte : pteAt P m.dram shape entry = pte at hrun ⊢
  have hbit (addr' : Reg) {i : Nat} (hi : i < 64) :=
    getLsbD_leafPage_or (show level * shape.ptidxbits < 64 by omega) addr' pte hi
  have hppn (i : Nat) : (pte >>> 10).getLsbD i = pte.getLsbD (i + 12 - 2) := by
    rw [BitVec.getLsbD_ushiftRight, show 10 + i = i + 12 - 2 by omega]
  constructor
  · intro hkeeps i hi
    -- The first address of the page shows the bits of the entry.
    let first := (addr >>> (12 + level * shape.ptidxbits)) <<< (12 + level * shape.ptidxbits)
    have hfirst : shape.SameSuperpage level addr first := by
      apply BitVec.eq_of_getLsbD_eq
      intro j hj
      rw [BitVec.getLsbD_ushiftRight, BitVec.getLsbD_ushiftRight, BitVec.getLsbD_shiftLeft,
        BitVec.getLsbD_ushiftRight, pgshift]
      by_cases hlt : 12 + level * shape.ptidxbits + j < 64
      · simp [hlt]
      · simp [hlt, BitVec.getLsbD_of_ge addr _ (Nat.le_of_not_lt hlt)]
    have hlow := (hkeeps.bits first _ _ hfirst (hrun hfirst)).1 (i + 12) (by omega)
    have hclear : first.getLsbD (i + 12) = false := by
      rw [BitVec.getLsbD_shiftLeft, decide_eq_true (show i + 12 < 12 + level * shape.ptidxbits by omega)]
      simp
    rw [hbit first (by omega), if_neg (by omega), if_pos (by omega), hclear, Bool.or_false] at hlow
    rw [hppn, hlow]
  · intro hclear
    have haddr {addr' paddr : Reg} {m' : Machine β} (hsame : shape.SameSuperpage level addr addr')
        (htranslate : translate P addr' type m = .ok paddr m') :
        (∀ i < 12 + level * shape.ptidxbits, paddr.getLsbD i = addr'.getLsbD i) ∧
        ∀ i < 64, 12 + level * shape.ptidxbits ≤ i →
          paddr.getLsbD i = (pte >>> 10).getLsbD (i - 12) := by
      rw [hrun hsame] at htranslate
      cases htranslate
      constructor
      · intro i hi
        rw [hbit addr' (by omega)]
        by_cases hoffset : i < 12
        · rw [if_pos hoffset]
        · have hzero := hclear (i - 12) (by omega)
          rw [hppn, show i - 12 + 12 - 2 = i - 2 by omega] at hzero
          rw [if_neg hoffset, if_pos hi, hzero, Bool.false_or]
      · intro i hi hhigh
        rw [hbit addr' hi, if_neg (by omega), if_neg (by omega), hppn,
          show i - 12 + 12 - 2 = i - 2 by omega]
    refine ⟨fun addr' paddr m' hsame htranslate => haddr hsame htranslate, ?_⟩
    intro a b pa pb ma mb ha hb hpa hpb
    obtain ⟨hlowa, hhigha⟩ := haddr ha hpa
    obtain ⟨hlowb, hhighb⟩ := haddr hb hpb
    apply sub_eq_sub_of_getLsbD _ _ hlowa hlowb
    · intro i hi
      exact (hb.getLsbD hi).trans (ha.getLsbD hi).symm
    · intro i hi
      by_cases hlt : i < 64
      · rw [hhighb i hlt hi, hhigha i hlt hi]
      · rw [BitVec.getLsbD_of_ge _ _ (by omega), BitVec.getLsbD_of_ge _ _ (by omega)]

/-- An aligned gigapage. -/
theorem aligned_gigapage_offsets :
    ∃ level entry, KeepsOffsets .bare (gigapage 0x2000000f) ⟨3, 9, 8⟩ 0x80002000 .store level
      (pteAt .bare (gigapage 0x2000000f).dram ⟨3, 9, 8⟩ entry) := by
  have htable : TableAdmits .bare (gigapage 0x2000000f).hart (gigapage 0x2000000f).dram ⟨3, 9, 8⟩
      0x80002000 .store prvS 2 0x80001010 := by
    refine ⟨?_, ?_, ?_⟩
    · unfold VmShape.Canonical
      decide
    · exact .leaf (by decide) (by unfold IsPointer; decide +kernel)
    · rw [← pteDenied_eq_false_iff]
      decide +kernel
  refine ⟨2, 0x80001010, (superpage_offsets_iff rfl (by decide) (by decide) htable).mpr ?_⟩
  decide +kernel

/-- A leaf in the middle of a gigapage: the first address of the gigapage and the one a page
later have the same physical address. -/
theorem misaligned_gigapage_merges :
    ¬∀ (m : Machine Unit) (shape : VmShape) (addr : Reg) (level : Nat) (entry : Reg),
      vmShape m.hart.mstatus = some shape → shape.vaBits ≤ m.hart.xlen.bits →
        TableAdmits .bare m.hart m.dram shape addr .load prvS level entry →
          translationMode m.hart .load = prvS →
            KeepsOffsets .bare m shape addr .load level (pteAt .bare m.dram shape entry) := by
  intro hall
  have htable : TableAdmits .bare (gigapage 0x2000040f).hart (gigapage 0x2000040f).dram ⟨3, 9, 8⟩
      0x80000000 .load prvS 2 0x80001010 := by
    refine ⟨?_, ?_, ?_⟩
    · unfold VmShape.Canonical
      decide
    · exact .leaf (by decide) (by unfold IsPointer; decide +kernel)
    · rw [← pteDenied_eq_false_iff]
      decide +kernel
  have hkeeps := hall (gigapage 0x2000040f) ⟨3, 9, 8⟩ 0x80000000 2 0x80001010 rfl (by decide)
    htable rfl
  have hlater : VmShape.SameSuperpage ⟨3, 9, 8⟩ 2 0x80000000 0x80001000 := by
    unfold VmShape.SameSuperpage
    decide
  have hdistance := hkeeps.contiguous 0x80000000 0x80001000 _ _ _ _ rfl hlater
    (translate_of_tableAdmits rfl (by decide) (by decide) htable)
    (translate_of_tableAdmits rfl (by decide) (by decide)
      (htable.sameSuperpage hlater (by decide)))
  revert hdistance
  decide +kernel

end SpikeSim.Riscv
