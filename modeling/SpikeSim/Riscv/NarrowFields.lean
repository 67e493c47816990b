/-
# Fields that stay narrow

Some registers are kept in words that are wider than what is read and written of them:
the accrued exceptions and the rounding mode, and the two enumerations of a trigger.
They stay within their fields in every reachable state, as long as the floating-point
library raises the five flags it declares and no others.
-/

import SpikeSim.Riscv.Legal

namespace SpikeSim.Riscv

open Handler

variable {β : Type}

/-- Only the five flags of the standard. -/
def NarrowFlags (flags : BitVec 32) : Prop := SubMask flags 0x1f

/-- The library raises the flags that `softfloat.h` declares. -/
structure SoftFloat.Narrow (F : SoftFloat) : Prop where
  add : ∀ fmt rm a b, NarrowFlags (F.add fmt rm a b).2
  sub : ∀ fmt rm a b, NarrowFlags (F.sub fmt rm a b).2
  mul : ∀ fmt rm a b, NarrowFlags (F.mul fmt rm a b).2
  div : ∀ fmt rm a b, NarrowFlags (F.div fmt rm a b).2
  sqrt : ∀ fmt rm a, NarrowFlags (F.sqrt fmt rm a).2
  mulAdd : ∀ fmt rm a b c, NarrowFlags (F.mulAdd fmt rm a b c).2
  eq : ∀ fmt a b, NarrowFlags (F.eq fmt a b).2
  le : ∀ fmt a b, NarrowFlags (F.le fmt a b).2
  lt : ∀ fmt a b, NarrowFlags (F.lt fmt a b).2
  leQuiet : ∀ fmt a b, NarrowFlags (F.leQuiet fmt a b).2
  ltQuiet : ∀ fmt a b, NarrowFlags (F.ltQuiet fmt a b).2
  toI32 : ∀ fmt rm a, NarrowFlags (F.toI32 fmt rm a).2
  toUi32 : ∀ fmt rm a, NarrowFlags (F.toUi32 fmt rm a).2
  toI64 : ∀ fmt rm a, NarrowFlags (F.toI64 fmt rm a).2
  toUi64 : ∀ fmt rm a, NarrowFlags (F.toUi64 fmt rm a).2
  ofI32 : ∀ fmt rm a, NarrowFlags (F.ofI32 fmt rm a).2
  ofUi32 : ∀ fmt rm a, NarrowFlags (F.ofUi32 fmt rm a).2
  ofI64 : ∀ fmt rm a, NarrowFlags (F.ofI64 fmt rm a).2
  ofUi64 : ∀ fmt rm a, NarrowFlags (F.ofUi64 fmt rm a).2
  f32ToF64 : ∀ rm a, NarrowFlags (F.f32ToF64 rm a).2
  f64ToF32 : ∀ rm a, NarrowFlags (F.f64ToF32 rm a).2

instance (flags : BitVec 32) : Decidable (NarrowFlags flags) := inferInstanceAs (Decidable (SubMask ..))

theorem narrowFlags_zero : NarrowFlags 0 := by
  decide

theorem softFloat_zeros_narrow : SoftFloat.zeros.Narrow := by
  constructor <;> intros <;> exact narrowFlags_zero

/-! ## The flags that handlers raise -/

/-- The act raises no flags but the five. -/
def Act.Narrow : Act → Prop
  | .setFpExceptions _ flags => NarrowFlags flags
  | _ => True

section Handlers

variable {c : Ctx}

theorem narrow_writeDest (value : Reg) (dest : Dest) : (writeDest c value dest).Uses Act.Narrow := by
  cases dest with
  | x reg => exact ⟨trivial, fun _ => trivial⟩
  | f reg => exact ⟨trivial, fun _ => trivial⟩

theorem narrow_roundingMode : (roundingMode c).Uses Act.Narrow := by
  refine ⟨trivial, fun s => ?_⟩
  change (if 4 < _ then illegal else pure _ : Handler Reg).Uses _
  split_ifs
  all_goals trivial

theorem narrow_fpRounded {needs : List Need} {dest : Ctx → Dest} {f : Ctx → Reg → Hart → FpResult}
    (hf : ∀ rm h, NarrowFlags (f c rm h).flags) : (fpRounded needs dest f c).Uses Act.Narrow := by
  refine (uses_requireAll trivial needs).bind fun _ => narrow_roundingMode.bind fun rm => ?_
  refine ⟨trivial, fun s => (narrow_writeDest ..).bind fun _ => ?_⟩
  exact ⟨hf rm s, fun _ => trivial⟩

theorem narrow_fpExact {needs : List Need} {dest : Ctx → Dest} {f : Ctx → Hart → FpResult}
    (hf : ∀ h, NarrowFlags (f c h).flags) : (fpExact needs dest f c).Uses Act.Narrow := by
  refine (uses_requireAll trivial needs).bind fun _ => ⟨trivial, fun s => ?_⟩
  exact (narrow_writeDest ..).bind fun _ => ⟨hf s, fun _ => trivial⟩

theorem narrow_select {fmt : Fmt} {f : Ctx → Hart → Bool × BitVec 32}
    (hf : ∀ h, NarrowFlags (f c h).2) : (Insns.fpSelect fmt f c).Uses Act.Narrow := by
  apply narrow_fpExact
  intro h
  split
  · exact narrowFlags_zero
  · exact hf h

/-! The forms that raise no flags. -/

theorem narrow_compute {needs : List Need} {dest : Ctx → Fin 32} {f : Ctx → Hart → Reg} :
    (compute needs dest f c).Uses Act.Narrow :=
  (uses_requireAll trivial needs).bind fun _ => ⟨trivial, fun _ => ⟨trivial, fun _ => trivial⟩⟩

theorem narrow_computeFp {needs : List Need} {f : Ctx → Hart → Reg} :
    (computeFp needs f c).Uses Act.Narrow :=
  (uses_requireAll trivial needs).bind fun _ => ⟨trivial, fun _ => ⟨trivial, fun _ => trivial⟩⟩

theorem narrow_loadTo {needs : List Need} {ty : MemType} {addr : Ctx → Hart → Reg}
    {dest : Ctx → Dest} : (loadTo needs ty addr dest c).Uses Act.Narrow := by
  refine (uses_requireAll trivial needs).bind fun _ => ⟨trivial, fun s => ⟨trivial, fun value => ?_⟩⟩
  exact (narrow_writeDest ..).bind fun _ => trivial

theorem narrow_storeFrom {needs : List Need} {ty : MemType} {addr value : Ctx → Hart → Reg} :
    (storeFrom needs ty addr value c).Uses Act.Narrow :=
  (uses_requireAll trivial needs).bind fun _ => ⟨trivial, fun _ => ⟨trivial, fun _ => trivial⟩⟩

theorem narrow_amoOp {needs : List Need} {ty : MemType} {f : Reg → Reg → Reg}
    {result : Reg → Reg} : (amoOp needs ty f result c).Uses Act.Narrow := by
  refine (uses_requireAll trivial needs).bind fun _ => ⟨trivial, fun _ => ⟨trivial, fun _ => ?_⟩⟩
  exact ⟨trivial, fun _ => trivial⟩

theorem narrow_branch {needs : List Need} {taken : Ctx → Hart → Bool} {target : Ctx → Reg} :
    (branch needs taken target c).Uses Act.Narrow := by
  refine (uses_requireAll trivial needs).bind fun _ => ⟨trivial, fun s => ?_⟩
  change (if _ then _ else _ : Handler Reg).Uses _
  split
  · exact uses_setPc trivial _
  · trivial

theorem narrow_jump {needs : List Need} {target : Ctx → Hart → Reg}
    {link : Ctx → Option (Fin 32)} : (jump needs target link c).Uses Act.Narrow := by
  refine (uses_requireAll trivial needs).bind fun _ => ⟨trivial, fun s => ?_⟩
  refine (uses_setPc trivial _).bind fun npc => ?_
  cases link c with
  | none => trivial
  | some reg => exact ⟨trivial, fun _ => trivial⟩

theorem narrow_reserved {ty : MemType} {needs : List Need} :
    (loadReserved needs ty c).Uses Act.Narrow ∧ (storeConditional needs ty c).Uses Act.Narrow := by
  constructor
  · refine (uses_requireAll trivial _).bind fun _ => ⟨trivial, fun _ => ⟨trivial, fun _ => ?_⟩⟩
    exact ⟨trivial, fun _ => ⟨trivial, fun _ => trivial⟩⟩
  · refine (uses_requireAll trivial _).bind fun _ => ⟨trivial, fun s => ?_⟩
    change (if _ then _ else _ : Handler Reg).Uses _
    split
    · exact ⟨trivial, fun _ => ⟨trivial, fun _ => trivial⟩⟩
    · exact ⟨trivial, fun _ => trivial⟩

theorem narrow_csrOp {write : Ctx → Bool} {new : Ctx → Hart → Reg → Reg} :
    (csrOp write new c).Uses Act.Narrow := by
  refine ⟨trivial, fun h => ?_⟩
  change (if _ then _ else _ : Handler Reg).Uses _
  split
  · trivial
  · refine ⟨trivial, fun _ => ?_⟩
    change (if _ then _ else _ : Handler Reg).Uses _
    split
    · trivial
    · refine ⟨trivial, fun old => ?_⟩
      change (if _ then _ else _ : Handler Reg).Uses _
      split
      · exact ⟨trivial, fun _ => ⟨trivial, fun _ => trivial⟩⟩
      · exact ⟨trivial, fun _ => trivial⟩

theorem narrow_setPcAndSerialize (target : Reg) :
    (setPcAndSerialize c target).Uses Act.Narrow :=
  (uses_setPc trivial target).bind fun _ => ⟨trivial, fun _ => trivial⟩

theorem narrow_trapReturn {prv : Prv} {epc : Hart → Reg} {ppMask pieMask : Reg} :
    (trapReturn prv epc ppMask pieMask c).Uses Act.Narrow := by
  refine (uses_requireAll trivial _).bind fun _ => ⟨trivial, fun h => ?_⟩
  apply (narrow_setPcAndSerialize _).bind
  exact fun npc => ⟨trivial, fun _ => ⟨trivial, fun _ => trivial⟩⟩

theorem narrow_dret : (Insns.dret c).Uses Act.Narrow := by
  refine (uses_requireAll trivial _).bind fun _ => ⟨trivial, fun h => ?_⟩
  apply (narrow_setPcAndSerialize _).bind
  exact fun npc => ⟨trivial, fun _ => ⟨trivial, fun _ => trivial⟩⟩

theorem narrow_amo (f : Reg → Reg → Reg) :
    (Insns.amoW f c).Uses Act.Narrow ∧ (Insns.amoD f c).Uses Act.Narrow :=
  ⟨narrow_amoOp, narrow_amoOp⟩

theorem narrow_fpSign {fmt : Fmt} {f : Reg → Reg → Reg} : (Insns.fpSign fmt f c).Uses Act.Narrow :=
  narrow_computeFp

/-- **No handler raises other flags than the library.** -/
theorem narrow_handler {F : SoftFloat} (hF : F.Narrow) (name : InsnName) (c : Ctx) :
    (handler F name c).Uses Act.Narrow := by
  cases name
  all_goals simp only [handler]
  case fcvtDL | fcvtSL =>
    all_goals
      apply narrow_fpRounded
      exact fun _ _ => hF.ofI64 ..
  case fcvtDLu | fcvtSLu =>
    all_goals
      apply narrow_fpRounded
      exact fun _ _ => hF.ofUi64 ..
  case fcvtDS =>
    apply narrow_fpRounded
    exact fun _ _ => hF.f32ToF64 ..
  case fcvtSD =>
    apply narrow_fpRounded
    exact fun _ _ => hF.f64ToF32 ..
  case fcvtDW | fcvtSW =>
    all_goals
      apply narrow_fpRounded
      exact fun _ _ => hF.ofI32 ..
  case fcvtDWu | fcvtSWu =>
    all_goals
      apply narrow_fpRounded
      exact fun _ _ => hF.ofUi32 ..
  case fcvtLD | fcvtLS =>
    all_goals
      apply narrow_fpRounded
      exact fun _ _ => hF.toI64 ..
  case fcvtLuD | fcvtLuS =>
    all_goals
      apply narrow_fpRounded
      exact fun _ _ => hF.toUi64 ..
  case fcvtWD | fcvtWS =>
    all_goals
      apply narrow_fpRounded
      exact fun _ _ => hF.toI32 ..
  case fcvtWuD | fcvtWuS =>
    all_goals
      apply narrow_fpRounded
      exact fun _ _ => hF.toUi32 ..
  case fsqrtD | fsqrtS =>
    all_goals
      apply narrow_fpRounded
      exact fun _ _ => hF.sqrt ..
  case faddD | faddS =>
    all_goals
      apply narrow_fpRounded
      exact fun _ _ => hF.add ..
  case fdivD | fdivS =>
    all_goals
      apply narrow_fpRounded
      exact fun _ _ => hF.div ..
  case fmulD | fmulS =>
    all_goals
      apply narrow_fpRounded
      exact fun _ _ => hF.mul ..
  case fsubD | fsubS =>
    all_goals
      apply narrow_fpRounded
      exact fun _ _ => hF.sub ..
  case fmaddD | fmaddS | fmsubD | fmsubS | fnmaddD | fnmaddS | fnmsubD | fnmsubS =>
    all_goals
      apply narrow_fpRounded
      exact fun _ _ => hF.mulAdd ..
  case feqD | feqS =>
    all_goals
      apply narrow_fpExact
      exact fun _ => hF.eq ..
  case fleD | fleS =>
    all_goals
      apply narrow_fpExact
      exact fun _ => hF.le ..
  case fltD | fltS =>
    all_goals
      apply narrow_fpExact
      exact fun _ => hF.lt ..
  case fmaxD | fmaxS =>
    all_goals
      apply narrow_select
      exact fun _ => hF.leQuiet ..
  case fminD | fminS =>
    all_goals
      apply narrow_select
      exact fun _ => hF.ltQuiet ..
  case cFld | cFldsp | cLw | cLwsp | fld | flw | lb | lbu | ld | lh | lhu | lw | lwu =>
    all_goals exact narrow_loadTo
  case cFsd | cFsdsp | cSw | cSwsp | fsd | fsw | sb | sd | sh | sw =>
    all_goals exact narrow_storeFrom
  case amoaddW | amoandW | amomaxuW | amomaxW | amominuW | amominW | amoorW | amoswapW | amoxorW
        =>
    all_goals exact (narrow_amo _).1
  case amoaddD | amoandD | amomaxD | amomaxuD | amominD | amominuD | amoorD | amoswapD | amoxorD
        =>
    all_goals exact (narrow_amo _).2
  case lrD | lrW => all_goals exact narrow_reserved.1
  case scD | scW => all_goals exact narrow_reserved.2
  case beq | bge | bgeu | blt | bltu | bne | cBeqz | cBnez => all_goals exact narrow_branch
  case cJ | jal | cJalr | cJr | jalr => all_goals exact narrow_jump
  case fmvDX | fmvSX => all_goals exact narrow_computeFp
  case fsgnjD | fsgnjnD | fsgnjnS | fsgnjS | fsgnjxD | fsgnjxS => all_goals exact narrow_fpSign
  case csrrc | csrrci | csrrs | csrrsi | csrrw | csrrwi => all_goals exact narrow_csrOp
  case mret | sret => all_goals exact narrow_trapReturn
  case dret => exact narrow_dret
  case cFlw | cFlwsp =>
    all_goals
      simp only [Insns.cFlw, Insns.cFlwsp]
      split
      · exact narrow_loadTo
      · exact narrow_loadTo
  case cFsw | cFswsp =>
    all_goals
      simp only [Insns.cFsw, Insns.cFswsp]
      split
      · exact narrow_storeFrom
      · exact narrow_storeFrom
  case cJal =>
    unfold Insns.cJal
    split
    · exact narrow_jump
    · exact narrow_compute
  case cLui =>
    unfold Insns.cLui
    split
    · exact narrow_compute
    · exact narrow_compute
  case ebreak | fence | wfi => all_goals trivial
  case ecall | fenceI => all_goals exact ⟨trivial, fun _ => trivial⟩
  case cEbreak => exact (uses_requireAll trivial _).bind fun _ => trivial
  case sfenceVm => exact (uses_requireAll trivial _).bind fun _ => ⟨trivial, fun _ => trivial⟩
  all_goals exact narrow_compute

end Handlers

/-! ## The invariant -/

/-- The registers are within their fields. -/
structure NarrowFields (h : Hart) : Prop where
  fflags : NarrowFlags h.fflags
  frm : SubMask h.frm 0x7
  action : ∀ i, SubMask (h.mcontrol i).action 0x3f
  matchKind : ∀ i, SubMask (h.mcontrol i).matchKind 0xf

abbrev KeepsNarrow {α : Type} (x : M β α) : Prop := Keeps (Stable fun m => NarrowFields m.hart) x

theorem modifyHart_narrow {f : Hart → Hart} (hf : ∀ h, NarrowFields h → NarrowFields (f h)) :
    KeepsNarrow (modifyHart f : M β Unit) :=
  .modify fun m hn => hf m.hart hn

theorem flushTlb_narrow : KeepsNarrow (flushTlb : M β Unit) :=
  .bind (.modify fun _ hn => hn) fun _ => .modify fun _ hn => hn

theorem setPrivilege_narrow (prv : Prv) : KeepsNarrow (setPrivilege prv : M β Unit) :=
  .bind flushTlb_narrow fun _ => modifyHart_narrow fun _ hn => { hn with }

theorem enterDebugMode_narrow (cause : DebugCause) :
    KeepsNarrow (enterDebugMode cause : M β Unit) := by
  refine .bind keeps_getHart fun h => .bind (.modify fun _ hn => hn) fun _ => ?_
  refine .bind (modifyHart_narrow fun _ hn => { hn with }) fun _ => ?_
  exact .bind (setPrivilege_narrow _) fun _ => modifyHart_narrow fun _ hn => { hn with }

theorem setMstatus_narrow (val : Reg) : KeepsNarrow (setMstatus val : M β Unit) := by
  refine .bind keeps_getHart fun h => .ite (.bind flushTlb_narrow fun _ => ?_) ?_
  all_goals exact modifyHart_narrow fun _ hn => { hn with }

/-- A field that is read has no bits beyond its width. -/
theorem getField_narrow {mask low : Reg} {lo : Nat} (hfield : FieldAt mask lo)
    (hlow : ∀ i < 64, mask.getLsbD (lo + i) = true → low.getLsbD i = true) (reg : Reg) :
    SubMask (getField reg mask) low := by
  refine subMask_iff.mpr fun i hi hbit => hlow i hi ?_
  rw [getLsbD_getField hfield, Bool.and_eq_true] at hbit
  exact hbit.2

theorem setMcontrol_narrow (xlen : Xlen) (val : Reg) (mc : Mcontrol) :
    SubMask (setMcontrol xlen val mc).action 0x3f ∧
      SubMask (setMcontrol xlen val mc).matchKind 0xf := by
  constructor
  · exact getField_narrow (show FieldAt (0x3f <<< 12) 12 by decide) (by decide) val
  · exact getField_narrow (show FieldAt (0xf <<< 7) 7 by decide) (by decide) val

/-- The low bits of a value that is masked first. -/
theorem setWidth_and_narrow {v mask : Reg} : SubMask ((v &&& mask).setWidth 32) (mask.setWidth 32) := by
  refine subMask_iff.mpr fun i hi hbit => ?_
  rw [BitVec.getLsbD_setWidth, BitVec.getLsbD_and] at hbit
  rw [BitVec.getLsbD_setWidth]
  simp only [Bool.and_eq_true] at hbit ⊢
  exact ⟨hbit.1, hbit.2.2⟩

theorem frm_narrow (v : Reg) : SubMask (((v &&& 0xe0) >>> 5).setWidth 32) 0x7 := by
  have hmask : ∀ i < 32, (0xe0 : Reg).getLsbD (5 + i) = true → (0x7 : BitVec 32).getLsbD i = true := by
    decide
  refine subMask_iff.mpr fun i hi hbit => hmask i hi ?_
  rw [BitVec.getLsbD_setWidth, BitVec.getLsbD_ushiftRight, BitVec.getLsbD_and] at hbit
  simp only [Bool.and_eq_true] at hbit
  exact hbit.2.2

/-- The triggers after one of them was written. -/
theorem update_narrow {h : Hart} (hn : NarrowFields h) (val : Reg) (i j : Fin 4) :
    let mc := Function.update h.mcontrol i (setMcontrol h.xlen val (h.mcontrol i)) j
    SubMask mc.action 0x3f ∧ SubMask mc.matchKind 0xf := by
  by_cases hj : j = i
  · subst hj
    rw [Function.update_self]
    exact setMcontrol_narrow ..
  · rw [Function.update_of_ne hj]
    exact ⟨hn.action j, hn.matchKind j⟩

theorem writeCsr_narrow (csr : Csr) (val : Reg) : KeepsNarrow (writeCsr csr val : M β Unit) := by
  refine .bind keeps_getHart fun h => ?_
  cases csr
  case fflags =>
    exact modifyHart_narrow fun h hn => { hn with fflags := setWidth_and_narrow }
  case frm => exact modifyHart_narrow fun h hn => { hn with frm := setWidth_and_narrow }
  case fcsr =>
    exact modifyHart_narrow fun h hn =>
      { hn with fflags := setWidth_and_narrow, frm := frm_narrow _ }
  case mstatus | sstatus => all_goals exact setMstatus_narrow _
  case sptbr =>
    refine .ite (.bind (.throw _) fun _ => ?_) ?_
    all_goals exact modifyHart_narrow fun _ hn => { hn with }
  case tselect => exact .ite (modifyHart_narrow fun _ hn => { hn with }) (.pure _)
  case tdata1 =>
    refine .ite (.pure _) (.bind (modifyHart_narrow fun h hn => ?_) fun _ => ?_)
    · exact { hn with
        action := fun i => (update_narrow hn _ _ i).1
        matchKind := fun i => (update_narrow hn _ _ i).2 }
    · exact .bind flushTlb_narrow fun _ => .bind keeps_getHart fun _ => .modify fun _ hn => hn
  case tdata2 => exact .ite (.pure _) (modifyHart_narrow fun _ hn => { hn with })
  case cycle | instret | tdata3 | mvendorid | marchid | mimpid | mhartid =>
    all_goals exact .pure _
  all_goals exact modifyHart_narrow fun _ hn => { hn with }

theorem setCsr_narrow (which val : Reg) : KeepsNarrow (setCsr which val : M β Unit) := by
  unfold setCsr
  split
  · exact .pure _
  · exact writeCsr_narrow ..

theorem takeTrap_narrow (t : Trap) (epc : Reg) : KeepsNarrow (takeTrap t epc : M β Unit) := by
  refine .bind keeps_getHart fun h => .bind (.modify fun _ hn => hn) fun _ => ?_
  refine .ite (enterDebugMode_narrow _) (.ite (modifyHart_narrow fun _ hn => { hn with }) (.ite ?_ ?_))
  all_goals
    refine .bind (modifyHart_narrow fun _ hn => { hn with }) fun _ => ?_
    refine .bind (setMstatus_narrow _) fun _ => .bind (setPrivilege_narrow _) fun _ => ?_
    exact modifyHart_narrow fun _ hn => { hn with }

theorem onHart_narrow {a : Act} {f : Hart → Hart} (ha : a.Narrow) (hf : a.onHart = some f) {h : Hart}
    (hn : NarrowFields h) : NarrowFields (f h) := by
  cases a with
  | writeXpr reg value =>
      cases hf
      unfold Hart.writeXpr
      split
      · exact hn
      · exact { hn with }
  | setFpExceptions xlen flags =>
      cases hf
      unfold Hart.setFpExceptions
      split
      · exact hn
      · exact { hn with fflags := SubMask.or hn.fflags ha }
  | writeFpr | setSerialized | setLoadReservation | setStatePc | leaveDebugMode =>
      all_goals
        cases hf
        exact { hn with }
  | hart | setPrivilege | load | store | amo | getCsr | setCsr | flushTlb | flushIcache =>
      all_goals cases hf

theorem actKeeps_narrow (P : Platform β) :
    ActKeeps P Act.Narrow (Stable fun m => NarrowFields m.hart) where
  store := {
    read := ⟨fun _ _ _ _ _ _ hn => hn, fun _ _ _ _ _ hn => hn, fun _ _ hn => hn, fun _ _ _ hn => hn,
      fun _ _ hn => hn⟩
    write := fun _ _ hn => hn
    device := fun _ _ _ _ hn => { hn with } }
  hart ha hf _ hn := onHart_narrow ha hf hn
  setPrivilege prv _ := setPrivilege_narrow prv
  setCsr which value _ := setCsr_narrow which value
  flushTlb := flushTlb_narrow
  flushIcache := .modify fun _ hn => hn

theorem executeInsn_narrow (P : Platform β) {F : SoftFloat} (hF : F.Narrow) (pc : Reg)
    (fetch : Decode.InsnFunc × Insn) : KeepsNarrow (executeInsn P F pc fetch) := by
  have hrun (name : InsnName) (xlen : Xlen) (insn : Insn) :
      KeepsNarrow ((insnProgram F name xlen insn pc).run (Act.exec P)) :=
    Program.keeps_run (fun _ ha => (actKeeps_narrow P).exec ha) (narrow_handler hF name _)
  refine .bind ?_ fun npc => .ite (.bind (.modify fun _ hn => hn) fun _ => .pure _) (.pure _)
  obtain ⟨func, insn⟩ := fetch
  cases func with
  | rv32 name => exact hrun name .rv32 insn
  | rv64 name => exact hrun name .rv64 insn
  | custom n => exact .throw _
  | illegalInstruction => exact .throw _

theorem hartRules_narrow (P : Platform β) {F : SoftFloat} (hF : F.Narrow) (xlen : Xlen) :
    HartRules P F xlen NarrowFields where
  interfere _ _ _ hn := { hn with }
  bookkeeping _ _ _ _ hn := { hn with }
  execute pc _ _ := executeInsn_narrow P hF pc _
  enterDebugMode := enterDebugMode_narrow
  takeTrap := takeTrap_narrow
  setCsr := setCsr_narrow

theorem narrow_reset (cfg : IsaConfig) (halt : Bool) (dram : Reg → BitVec 8) (dev : β) :
    NarrowFields (cfg.machine halt dram dev).hart where
  fflags := narrowFlags_zero
  frm := by
    change SubMask 0 _
    decide
  action _ := by
    change SubMask 0 _
    decide
  matchKind _ := by
    change SubMask 0 _
    decide

end SpikeSim.Riscv
