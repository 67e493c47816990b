/-
# The debugger's translation and the hart's

`mmu_t::translate` and `gdbserver_t::translate` walk the same page tables, the one in memory,
the other through the entries that it collected.  Both find the same leaf.  In bare mode the
hart keeps the low `xlen` bits of an address; the server leaves that to the slot of the debug
RAM into which the address goes.
-/

import SpikeSim.Gdb.Collect
import SpikeSim.Riscv.FieldLaws
import SpikeSim.Riscv.Walk

namespace SpikeSim.Gdb

open Riscv (Platform Machine Hart VmShape pgshift pteTable pteAt LeadsTo vmShape
  translationMode xlenMask pageOffset)

variable {β : Type} {P : Platform β} {s : GdbServer} {vaddr : Reg}

/-! ## The walk -/

/-- The cache holds the entries in memory that the walk for an address meets. -/
def HoldsWalk (P : Platform β) (dram : Reg → BitVec 8) (shape : VmShape) (c : Reg → Option Reg)
    (vaddr : Reg) : (levels : Nat) → (base : Reg) → Prop
  | 0, _ => True
  | level + 1, base =>
      let entry := shape.entryAddr vaddr level base
      P.addrIsMem entry = true →
        c entry = some (pteAt P dram shape entry) ∧
          (pteTable (pteAt P dram shape entry) = true →
            HoldsWalk P dram shape c vaddr level ((pteAt P dram shape entry >>> 10) <<< pgshift))

/-- Both walks find the same leaf. -/
theorem walkCache_eq_leaf {dram : Reg → BitVec 8} {shape : VmShape} {c : Reg → Option Reg}
    {levels level : Nat} {base entry : Reg}
    (h : LeadsTo P dram shape vaddr levels base level entry)
    (hc : HoldsWalk P dram shape c vaddr levels base) :
    walkCache c shape.ptidxbits shape.ptesize vaddr levels base =
      .leaf (pteAt P dram shape entry) (level * shape.ptidxbits) := by
  induction h with
  | leaf hmem hleaf =>
      obtain ⟨hentry, -⟩ := hc hmem
      have htable := mt (Riscv.pteTable_iff _).mp hleaf
      have hentry' : c (entryAddr shape.ptidxbits shape.ptesize vaddr _ _) = _ := hentry
      rw [walkCache_succ, hentry']
      exact if_neg htable
  | pointer hmem hpointer hrest ih =>
      obtain ⟨hentry, hnext⟩ := hc hmem
      have htable := (Riscv.pteTable_iff _).mpr hpointer
      have hentry' : c (entryAddr shape.ptidxbits shape.ptesize vaddr _ _) = _ := hentry
      rw [walkCache_succ, hentry']
      exact (if_pos htable).trans (ih (hnext htable))

/-- The address that a leaf gives is the same. -/
theorem leafAddr_eq (shape : VmShape) (vaddr pte : Reg) (level : Nat) :
    leafAddr vaddr pte (level * shape.ptidxbits) =
      shape.leafPage vaddr level pte ||| pageOffset vaddr := by
  rw [VmShape.leafPage, Riscv.page_or_offset]
  rfl

/-! ## The mode -/

/-- The copies of the server are those of the program that was halted. -/
structure Mirrors (s : GdbServer) (h : Hart) : Prop where
  xlen : s.xlen = h.xlen.bits
  mstatus : s.mstatus = h.mstatus
  prv : getField s.dcsr 3 = h.prv.toReg
  running : h.inDebugMode = false

theorem getField_mpp_lt (v : Reg) : (getField v mstatusMpp).toNat < 4 := by
  have hand : (v &&& mstatusMpp).toNat ≤ mstatusMpp.toNat := by
    rw [BitVec.toNat_and]
    exact Nat.and_le_right
  have hlow : (mstatusMpp &&& ~~~(mstatusMpp <<< 1)).toNat = 0x800 := by decide
  have hmask : mstatusMpp.toNat = 0x1800 := by decide
  rw [getField, BitVec.toNat_udiv, hlow]
  omega

theorem toReg_ofReg {v : Reg} (h : v.toNat < 4) : (Prv.ofReg v).toReg = v := by
  apply BitVec.eq_of_toNat_eq
  simp only [Prv.toReg, Prv.ofReg, Fin.val_ofNat, BitVec.toNat_ofNat]
  omega

theorem toReg_eq_toReg_iff : ∀ {prv prv' : Prv}, prv.toReg = prv'.toReg ↔ prv = prv' := by
  decide

/-- The mode of the server is that of an access of the program. -/
theorem Mirrors.privilegeMode {h : Hart} (hm : Mirrors s h) {type : AccessType}
    (htype : type ≠ .fetch) (hvm : getField h.mstatus mstatusVm ≠ vmMbare) :
    s.privilegeMode = (translationMode h type).toReg := by
  rw [GdbServer.privilegeMode, translationMode, hm.mstatus, hm.prv, if_neg hvm]
  by_cases hmprv : hasField h.mstatus mstatusMprv = true
  · rw [if_pos hmprv, if_pos ⟨htype, by rw [hm.running]; rfl, hmprv⟩,
      toReg_ofReg (getField_mpp_lt _)]
  · rw [if_neg hmprv, if_neg fun hc => hmprv hc.2.2]

theorem Mirrors.virtualMemory {h : Hart} (hm : Mirrors s h) {type : AccessType}
    (htype : type ≠ .fetch) :
    s.virtualMemory =
      if translationMode h type = prvM then vmMbare else getField h.mstatus mstatusVm := by
  by_cases hvm : getField h.mstatus mstatusVm = vmMbare
  · have hmode : translationMode h type = prvM := if_pos hvm
    rw [if_pos hmode, GdbServer.virtualMemory, hm.mstatus, hvm, ite_self]
  · rw [GdbServer.virtualMemory, hm.privilegeMode htype hvm, hm.mstatus]
    simp only [toReg_eq_toReg_iff]

/-- The tables that `walk` knows are those that the server knows. -/
theorem tableShape_of_vmShape {mstatus : Reg} {shape : VmShape}
    (h : vmShape mstatus = some shape) :
    tableShape (getField mstatus mstatusVm) = some (some shape) := by
  have hbare : getField mstatus mstatusVm ≠ vmMbare := by
    intro hzero
    have hnone : vmShape mstatus = none := by
      simp only [vmShape, hzero]
      decide
    rw [hnone] at h
    cases h
  rw [tableShape, if_neg hbare]
  simp only [vmShape] at h
  split_ifs at h ⊢
  · exact congrArg some h
  · exact congrArg some h
  · exact congrArg some h

/-! ## The two translations -/

/-- What a successful walk found. -/
theorem leadsTo_of_walkLeaf {h : Hart} {dram : Reg → BitVec 8} {shape : VmShape}
    {type : AccessType} {mode : Prv} {ppte page : Reg}
    (hleaf : Riscv.walkLeaf P h dram shape vaddr type mode = some (ppte, page)) :
    ∃ level entry, LeadsTo P dram shape vaddr shape.levels (h.sptbr <<< pgshift) level entry ∧
      page = shape.leafPage vaddr level (pteAt P dram shape entry) := by
  rw [Riscv.walkLeaf] at hleaf
  split_ifs at hleaf
  obtain ⟨level, entry, hleads, hadmits⟩ := Riscv.leadsTo_of_walkLevels hleaf
  rw [Riscv.walkLevels_of_leadsTo hleads hadmits] at hleaf
  cases hleaf
  exact ⟨level, entry, hleads, rfl⟩

/-- **Through the tables both translations give the same address.** -/
theorem translate_of_walk {m m' : Machine β} {type : AccessType} {p : Reg} (hm : Mirrors s m.hart)
    (htype : type ≠ .fetch) (hmode : translationMode m.hart type ≠ prvM)
    (hsptbr : s.sptbr = m.hart.sptbr)
    (hc : ∀ shape, vmShape m.hart.mstatus = some shape →
      HoldsWalk P m.dram shape s.pteCache vaddr shape.levels (m.hart.sptbr <<< pgshift))
    (hrun : Riscv.translate P vaddr type m = .ok p m') (hp : p ≠ -1) :
    translate vaddr s = .ok p s := by
  obtain ⟨leaf, htranslation, -⟩ := Riscv.translate_ok P hrun
  rw [Riscv.translation] at htranslation
  simp only [if_neg hmode] at htranslation
  split at htranslation
  · cases htranslation
  · next shape hshape =>
      split at htranslation
      · cases htranslation
        exact absurd rfl hp
      · next ppte page hleaf =>
          cases htranslation
          obtain ⟨level, entry, hleads, hpage⟩ := leadsTo_of_walkLeaf hleaf
          have hwalk := walkCache_eq_leaf hleads (hc shape hshape)
          rw [← hsptbr] at hwalk
          have htables : tableShape s.virtualMemory = some (some shape) := by
            rw [hm.virtualMemory htype, if_neg hmode]
            exact tableShape_of_vmShape hshape
          simp only [translate, run_bind, run_currentTables htables, run_get, hwalk, run_pure,
            leafAddr_eq, hpage]

theorem and_xlenMask_of_lt {xlen : Xlen} (h : vaddr.toNat < 2 ^ xlen.bits) :
    vaddr &&& xlenMask xlen = vaddr := by
  apply BitVec.eq_of_toNat_eq
  have hmask : (xlenMask xlen).toNat = 2 ^ xlen.bits - 1 := by
    cases xlen with
    | rv32 => decide
    | rv64 => decide
  rw [BitVec.toNat_and, hmask, Nat.and_two_pow_sub_one_eq_mod, Nat.mod_eq_of_lt h]

theorem translate_of_bare {m m' : Machine β} {type : AccessType} {p : Reg}
    (hm : Mirrors s m.hart) (htype : type ≠ .fetch) (hmode : translationMode m.hart type = prvM)
    (hrun : Riscv.translate P vaddr type m = .ok p m') :
    translate vaddr s = .ok vaddr s ∧ p = vaddr &&& xlenMask m.hart.xlen := by
  obtain ⟨leaf, htranslation, -⟩ := Riscv.translate_ok P hrun
  rw [Riscv.translation] at htranslation
  simp only [if_pos hmode, Option.some.injEq, Prod.mk.injEq] at htranslation
  have htables : tableShape s.virtualMemory = some none := by
    rw [hm.virtualMemory htype, if_pos hmode]
    decide
  refine ⟨?_, htranslation.1.symm⟩
  simp only [translate, run_bind, run_currentTables htables, run_pure]

/-- **The debugger's translation is the hart's.**  The operation that collects the entries ends
after at most two steps more than there are levels, and then `translate` returns.  Where the
hart translates an address, the server gives the same one; in bare mode, where the hart keeps
the low `xlen` bits only, up to these. -/
theorem gdbserver_translate_eq_hart (P : Platform β) (m : Machine β) (s : GdbServer) (vaddr : Reg)
    (hm : Mirrors s m.hart) (hcap : s.sendBuf.capacity = 65536) (htables : TablesKnown s) :
    (s.operationQueue = [(newCollectTranslationInfo vaddr, 0)] →
      CompletesIn (fun s' => Translates s' vaddr) (collectSteps s) s) ∧
    (s.sptbr = m.hart.sptbr →
      (∀ shape, vmShape m.hart.mstatus = some shape →
        HoldsWalk P m.dram shape s.pteCache vaddr shape.levels (m.hart.sptbr <<< pgshift)) →
      ∀ type ≠ AccessType.fetch, ∀ p m', Riscv.translate P vaddr type m = .ok p m' →
        (p = -1 → s.virtualMemory = vmMbare) →
        ∃ p', translate vaddr s = .ok p' s ∧
          (s.virtualMemory ≠ vmMbare ∨ vaddr.toNat < 2 ^ s.xlen → p' = p) ∧
          (s.virtualMemory = vmMbare → p' &&& xlenMask m.hart.xlen = p)) := by
  constructor
  · intro hq
    have hwide : Wide s := by
      rw [Wide, hm.xlen]
      cases m.hart.xlen with
      | rv32 => exact .inl rfl
      | rv64 => exact .inr rfl
    have hcollect := completes_collect (P := fun s' => Translates s' vaddr) (n := 0) hwide hcap
      htables hq fun s' _ htranslates hq' => .done hq' htranslates
    rwa [Nat.zero_add] at hcollect
  · intro hsptbr hc type htype p m' hrun hp
    by_cases hmode : translationMode m.hart type = prvM
    · obtain ⟨hserver, rfl⟩ := translate_of_bare hm htype hmode hrun
      have hbare : s.virtualMemory = vmMbare := by
        rw [hm.virtualMemory htype, if_pos hmode]
      refine ⟨vaddr, hserver, fun h => ?_, fun _ => rfl⟩
      have hlt := h.resolve_left (not_not.mpr hbare)
      rw [hm.xlen] at hlt
      rw [and_xlenMask_of_lt hlt]
    · have hvm : s.virtualMemory ≠ vmMbare := by
        rw [hm.virtualMemory htype, if_neg hmode]
        exact fun hzero => hmode (if_pos hzero)
      have hserver := translate_of_walk hm htype hmode hsptbr hc hrun fun h => hvm (hp h)
      exact ⟨p, hserver, fun _ => rfl, fun h => absurd h hvm⟩

/-- A server for the hart under Sv39 that has read the leaf of the gigapage. -/
def sv39Server : GdbServer :=
  { haltedServer with
    xlen := 64
    dcsr := 1
    mstatus := Hart.sv39.mstatus
    sptbr := Hart.sv39.sptbr
    pteCache := fun a => if a = 0x80001010 then some 0x2000000f else none }

theorem mirrors_sv39Server : Mirrors sv39Server (Riscv.gigapage 0x2000000f).hart :=
  ⟨rfl, rfl, by decide, rfl⟩

theorem holdsWalk_sv39Server :
    HoldsWalk .bare (Riscv.gigapage 0x2000000f).dram ⟨3, 9, 8⟩ sv39Server.pteCache 0x80002123 3
      (Hart.sv39.sptbr <<< pgshift) := by
  have hentry : VmShape.entryAddr ⟨3, 9, 8⟩ 0x80002123 2 (Hart.sv39.sptbr <<< pgshift) =
      0x80001010 := by decide
  have hpte : pteAt .bare (Riscv.gigapage 0x2000000f).dram ⟨3, 9, 8⟩ 0x80001010 = 0x2000000f := by
    decide +kernel
  simp only [HoldsWalk, hentry, hpte]
  intro _
  exact ⟨rfl, fun htable => absurd htable (by decide)⟩

theorem gdbserver_translates_gigapage :
    Mirrors sv39Server (Riscv.gigapage 0x2000000f).hart ∧ TablesKnown sv39Server ∧
      (∃ m', Riscv.translate .bare 0x80002123 .store (Riscv.gigapage 0x2000000f) =
        .ok 0x80002123 m') ∧
      translate 0x80002123 sv39Server = .ok 0x80002123 sv39Server := by
  have htables : TablesKnown sv39Server :=
    ⟨some ⟨3, 9, 8⟩, by decide, fun shape _ => .inr (by decide)⟩
  have hshape : vmShape (Riscv.gigapage 0x2000000f).hart.mstatus = some ⟨3, 9, 8⟩ := by decide
  have htranslation : Riscv.translation .bare (Riscv.gigapage 0x2000000f).hart
      (Riscv.gigapage 0x2000000f).dram 0x80002123 .store = some (0x80002123, some 0x1010) := by
    decide +kernel
  have hrun : ∃ m', Riscv.translate .bare 0x80002123 .store (Riscv.gigapage 0x2000000f) =
      .ok 0x80002123 m' := ⟨_, by rw [Riscv.translate_eq, htranslation]⟩
  obtain ⟨m', hok⟩ := hrun
  have hmain := gdbserver_translate_eq_hart .bare (Riscv.gigapage 0x2000000f) sv39Server 0x80002123
    mirrors_sv39Server rfl htables
  obtain ⟨p', hserver, heq, -⟩ := hmain.2 rfl (fun shape h => by
    rw [hshape] at h
    cases h
    exact holdsWalk_sv39Server) .store (by decide) _ m' hok (fun h => absurd h (by decide))
  obtain rfl : p' = 0x80002123 := heq (.inl (by decide))
  exact ⟨mirrors_sv39Server, htables, ⟨m', hok⟩, hserver⟩

/-- On RV32 the hart drops the upper half of an address, and the server does not. -/
theorem bare_translation_differs :
    ¬∀ (m : Machine Unit) (s : GdbServer) (vaddr : Reg), Mirrors s m.hart → TablesKnown s →
      s.sptbr = m.hart.sptbr →
      (∀ shape, vmShape m.hart.mstatus = some shape →
        HoldsWalk .bare m.dram shape s.pteCache vaddr shape.levels (m.hart.sptbr <<< pgshift)) →
      ∀ type ≠ AccessType.fetch, ∀ p m', Riscv.translate .bare vaddr type m = .ok p m' →
        (p = -1 → s.virtualMemory = vmMbare) → translate vaddr s = .ok p s := by
  intro h
  let m : Machine Unit :=
    Machine.reset .rv32 0 false (Decode.freshDecoder false) (fun _ => 0) ()
  have hm : Mirrors haltedServer m.hart := ⟨rfl, rfl, by decide, rfl⟩
  have htables : TablesKnown haltedServer := ⟨none, by decide, fun _ h => by cases h⟩
  have hmode : translationMode m.hart .load = prvM := by decide
  have hshape : vmShape m.hart.mstatus = none := by decide
  have htranslation : Riscv.translation .bare m.hart m.dram 0xffffffff80000000 .load =
      some (0x80000000, none) := by
    rw [Riscv.translation]
    simp only [hmode, if_true]
    exact congrArg (fun p : Reg => some (p, none))
      (show 0xffffffff80000000 &&& xlenMask .rv32 = 0x80000000 by decide)
  have hrun : ∃ m', Riscv.translate .bare 0xffffffff80000000 .load m = .ok 0x80000000 m' :=
    ⟨_, by rw [Riscv.translate_eq, htranslation]⟩
  obtain ⟨m', hrun⟩ := hrun
  have hsame := h m haltedServer 0xffffffff80000000 hm htables rfl (fun shape hs => by
    rw [hshape] at hs
    cases hs) .load (by decide) _ m' hrun fun hp => absurd hp (by decide)
  have hserver := (translate_of_bare hm (by decide) hmode hrun).1
  rw [hserver] at hsame
  cases hsame

end SpikeSim.Gdb
