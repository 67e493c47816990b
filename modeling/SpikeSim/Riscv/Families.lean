/-
# The forms of a handler

Almost two hundred handlers take some twenty forms.  `Family` lists the forms and
`handler_family` says that these are all, so that a fact about every handler is a
case analysis over the forms.
-/

import SpikeSim.Riscv.Access
import SpikeSim.Riscv.CsrEffect
import SpikeSim.Riscv.Insns
import SpikeSim.Riscv.Operands

namespace SpikeSim.Riscv

open Handler

/-- The CSR instructions. -/
def isCsrOp (name : InsnName) : Bool :=
  name ∈ [InsnName.csrrc, .csrrci, .csrrs, .csrrsi, .csrrw, .csrrwi]

def isLoadReserved (name : InsnName) : Bool := name ∈ [InsnName.lrD, .lrW]

/-- From an even pc the instruction jumps to an even address. -/
def EvenTarget (c : Ctx) (target : Reg) : Prop := IsEven c.pc → IsEven target

/-- The forms that the handlers of the base instructions take; the rarer ones say for which
instructions. -/
inductive Family (c : Ctx) : InsnName → Handler Reg → Prop
  | compute {name : InsnName} (needs : List Need) (dest : Ctx → Fin 32) (f : Ctx → Hart → Reg) :
      Family c name (compute needs dest f c)
  | computeFp {name : InsnName} (needs : List Need) (f : Ctx → Hart → Reg) :
      Family c name (computeFp needs f c)
  | fpRounded {name : InsnName} (needs : List Need) (dest : Ctx → Dest)
      (f : Ctx → Reg → Hart → FpResult) : Family c name (fpRounded needs dest f c)
  | fpExact {name : InsnName} (needs : List Need) (dest : Ctx → Dest) (f : Ctx → Hart → FpResult) :
      Family c name (fpExact needs dest f c)
  | loadTo {name : InsnName} (needs : List Need) (ty : MemType) (addr : Ctx → Hart → Reg)
      (dest : Ctx → Dest) : Family c name (loadTo needs ty addr dest c)
  | storeFrom {name : InsnName} (needs : List Need) (ty : MemType)
      (addr value : Ctx → Hart → Reg) : Family c name (storeFrom needs ty addr value c)
  | amoOp {name : InsnName} (needs : List Need) (ty : MemType) (f : Reg → Reg → Reg)
      (result : Reg → Reg) : Family c name (amoOp needs ty f result c)
  | lrD : Family c .lrD (Insns.lrD c)
  | lrW : Family c .lrW (Insns.lrW c)
  | scD : Family c .scD (Insns.scD c)
  | scW : Family c .scW (Insns.scW c)
  | branch {name : InsnName} (needs : List Need) (taken : Ctx → Hart → Bool) (target : Ctx → Reg)
      (heven : EvenTarget c (target c)) : Family c name (branch needs taken target c)
  | jump {name : InsnName} (needs : List Need) (target : Ctx → Hart → Reg)
      (link : Ctx → Option (Fin 32)) (heven : ∀ h, EvenTarget c (target c h)) :
      Family c name (jump needs target link c)
  | csrOp {name : InsnName} (write : Ctx → Bool) (new : Ctx → Hart → (old : Reg) → Reg)
      (hname : isCsrOp name = true) : Family c name (csrOp write new c)
  | mret : Family c .mret (Insns.mret c)
  | sret : Family c .sret (Insns.sret c)
  | dret : Family c .dret (Insns.dret c)
  | ebreak : Family c .ebreak (Insns.ebreak c)
  | cEbreak : Family c .cEbreak (Insns.cEbreak c)
  | ecall : Family c .ecall (Insns.ecall c)
  | fence : Family c .fence (Insns.fence c)
  | wfi : Family c .wfi (Insns.wfi c)
  | fenceI : Family c .fenceI (Insns.fenceI c)
  | sfenceVm : Family c .sfenceVm (Insns.sfenceVm c)

/-! ## Shorthands of the instruction definitions -/

section Shorthands

variable {c : Ctx} {name : InsnName}

theorem Family.amoW (f : Reg → Reg → Reg) : Family c name (Insns.amoW f c) := .amoOp ..

theorem Family.amoD (f : Reg → Reg → Reg) : Family c name (Insns.amoD f c) := .amoOp ..

theorem Family.fpBinary (fmt : Fmt) (f : Reg → BitVec fmt.bits → BitVec fmt.bits →
    BitVec fmt.bits × BitVec 32) : Family c name (Insns.fpBinary fmt f c) := .fpRounded ..

theorem Family.fpFused (F : SoftFloat) (fmt : Fmt) (neg1 neg3 : Bool) :
    Family c name (Insns.fpFused F fmt neg1 neg3 c) := .fpRounded ..

theorem Family.fpCompare (fmt : Fmt) (f : BitVec fmt.bits → BitVec fmt.bits →
    Bool × BitVec 32) : Family c name (Insns.fpCompare fmt f c) := .fpExact ..

theorem Family.fpSelect (fmt : Fmt) (f : Ctx → Hart → Bool × BitVec 32) :
    Family c name (Insns.fpSelect fmt f c) := .fpExact ..

theorem Family.fpSign (fmt : Fmt) (f : Reg → Reg → Reg) :
    Family c name (Insns.fpSign fmt f c) := .computeFp ..

end Shorthands

/-- **The forms are all there are.** -/
theorem handler_family (F : SoftFloat) (name : InsnName) (c : Ctx) :
    Family c name (handler F name c) := by
  cases name
  all_goals simp only [handler]
  case add | addi | addiw | addw | and | andi | auipc | cAdd | cAddi4spn | cAddi | cAddw | cAnd |
        cAndi | cLi | cMv | cOr | cSlli | cSrai | cSrli | cSub | cSubw | cXor | div | divu | divuw
        | divw | fclassD | fclassS | fmvXD | fmvXS | lui | mul | mulh | mulhsu | mulhu | mulw | or
        | ori | rem | remu | remuw | remw | sll | slli | slliw | sllw | slt | slti | sltiu | sltu
        | sra | srai | sraiw | sraw | srl | srli | srliw | srlw | sub | subw | xor | xori =>
    all_goals exact .compute ..
  case fmvDX | fmvSX =>
    all_goals exact .computeFp ..
  case fcvtDL | fcvtDLu | fcvtDS | fcvtDW | fcvtDWu | fcvtLD | fcvtLS | fcvtLuD | fcvtLuS | fcvtSD
        | fcvtSL | fcvtSLu | fcvtSW | fcvtSWu | fcvtWD | fcvtWS | fcvtWuD | fcvtWuS | fsqrtD |
        fsqrtS =>
    all_goals exact .fpRounded ..
  case faddD | faddS | fdivD | fdivS | fmulD | fmulS | fsubD | fsubS =>
    all_goals exact .fpBinary ..
  case fmaddD | fmaddS | fmsubD | fmsubS | fnmaddD | fnmaddS | fnmsubD | fnmsubS =>
    all_goals exact .fpFused ..
  case feqD | feqS | fleD | fleS | fltD | fltS =>
    all_goals exact .fpCompare ..
  case fmaxD | fmaxS | fminD | fminS =>
    all_goals exact .fpSelect ..
  case fsgnjD | fsgnjnD | fsgnjnS | fsgnjS | fsgnjxD | fsgnjxS =>
    all_goals exact .fpSign ..
  case cFld | cFldsp | cLw | cLwsp | fld | flw | lb | lbu | ld | lh | lhu | lw | lwu =>
    all_goals exact .loadTo ..
  case cFsd | cFsdsp | cSw | cSwsp | fsd | fsw | sb | sd | sh | sw =>
    all_goals exact .storeFrom ..
  case amoaddW | amoandW | amomaxuW | amomaxW | amominuW | amominW | amoorW | amoswapW | amoxorW
        =>
    all_goals exact .amoW ..
  case amoaddD | amoandD | amomaxD | amomaxuD | amominD | amominuD | amoorD | amoswapD | amoxorD
        =>
    all_goals exact .amoD ..
  case lrD => exact .lrD
  case lrW => exact .lrW
  case scD => exact .scD
  case scW => exact .scW
  case beq | bge | bgeu | blt | bltu | bne =>
    all_goals exact .branch _ _ _ fun hpc => hpc.add c.insn.isEven_sbImm
  case cBeqz | cBnez =>
    all_goals exact .branch _ _ _ fun hpc => hpc.add c.insn.isEven_rvcBImm
  case cJ => exact .jump _ _ _ fun _ hpc => hpc.add c.insn.isEven_rvcJImm
  case jal => exact .jump _ _ _ fun _ hpc => hpc.add c.insn.isEven_ujImm
  case cJalr | cJr | jalr =>
    all_goals exact .jump _ _ _ fun _ _ => isEven_and_not_one _
  case csrrc | csrrci | csrrs | csrrsi | csrrw | csrrwi =>
    all_goals exact .csrOp _ _ rfl
  case cFlw | cFlwsp =>
    all_goals
      simp only [Insns.cFlw, Insns.cFlwsp]
      split
      · exact .loadTo ..
      · exact .loadTo ..
  case cFsw | cFswsp =>
    all_goals
      simp only [Insns.cFsw, Insns.cFswsp]
      split
      · exact .storeFrom ..
      · exact .storeFrom ..
  case cJal =>
    unfold Insns.cJal
    split
    · exact .jump _ _ _ fun _ hpc => hpc.add c.insn.isEven_rvcJImm
    · exact .compute ..
  case cLui =>
    unfold Insns.cLui
    split
    · exact .compute ..
    · exact .compute ..
  case mret => exact .mret
  case sret => exact .sret
  case dret => exact .dret
  case ebreak => exact .ebreak
  case cEbreak => exact .cEbreak
  case ecall => exact .ecall
  case fence => exact .fence
  case wfi => exact .wfi
  case fenceI => exact .fenceI
  case sfenceVm => exact .sfenceVm

/-- Acts that every mode may perform, in a handler of this width. -/
def Act.Ordinary (xlen : Xlen) : Act → Prop
  | .writeFpr width _ _ | .setFpExceptions width _ => width = xlen
  | .setPrivilege _ | .leaveDebugMode | .setCsr .. => False
  | _ => True

/-- Ordinary acts of a handler of this name: only the load-reserved make a reservation, and the
flag for serialization is left to the CSR instructions. -/
def Act.OrdinaryOf (name : InsnName) (xlen : Xlen) : Act → Prop
  | .setLoadReservation _ => isLoadReserved name = true
  | .setSerialized _ => False
  | a => a.Ordinary xlen

/-- Acts that mark the FP state as dirty do so at the width of the handler they are in. -/
def Act.Fits (xlen : Xlen) : Act → Prop
  | .writeFpr width _ _ | .setFpExceptions width _ => width = xlen
  | _ => True

theorem Act.OrdinaryOf.ordinary {name : InsnName} {xlen : Xlen} {a : Act}
    (h : a.OrdinaryOf name xlen) : a.Ordinary xlen := by
  cases a with
  | setLoadReservation | setSerialized => all_goals trivial
  | _ => exact h

theorem Act.Ordinary.fits {xlen : Xlen} {a : Act} (h : a.Ordinary xlen) : a.Fits xlen := by
  cases a with
  | writeFpr | setFpExceptions => exact h
  | _ => trivial

/-! ## Handlers made of ordinary acts -/

section Uses

variable {c : Ctx}

theorem uses_requireAll {K : Act → Prop} (hread : K .hart) (needs : List Need) :
    (requireAll c needs).Uses K := by
  induction needs with
  | nil => trivial
  | cons need rest ih =>
      refine ⟨hread, fun s => ?_⟩
      refine Program.Uses.bind (p := require (need.holds c s)) ?_ fun _ => ih
      unfold require
      split
      · trivial
      · trivial

theorem uses_setPc {K : Act → Prop} (hread : K .hart) (target : Reg) :
    (setPc c target).Uses K := by
  refine ⟨hread, fun s => ?_⟩
  change (if _ then _ else _ : Handler Reg).Uses _
  split
  · trivial
  · trivial

theorem uses_roundingMode {name : InsnName} :
    (roundingMode c).Uses (Act.OrdinaryOf name c.xlen) := by
  refine ⟨trivial, fun s => ?_⟩
  change (if 4 < _ then illegal else pure _ : Handler Reg).Uses _
  split_ifs
  all_goals trivial

theorem uses_writeDest {name : InsnName} (value : Reg) (dest : Dest) :
    (writeDest c value dest).Uses (Act.OrdinaryOf name c.xlen) := by
  cases dest with
  | x reg => exact ⟨trivial, fun _ => trivial⟩
  | f reg => exact ⟨rfl, fun _ => trivial⟩

/-- All handlers but the CSR instructions and the returns from a trap. -/
theorem uses_family {name : InsnName} {p : Handler Reg} (h : Family c name p) :
    p.Uses (Act.OrdinaryOf name c.xlen) ∨ (∃ write new, isCsrOp name = true ∧ p = csrOp write new c) ∨
      p = Insns.mret c ∨ p = Insns.sret c ∨ p = Insns.dret c := by
  cases h with
  | compute needs dest f =>
      left
      exact (uses_requireAll trivial needs).bind fun _ => ⟨trivial, fun _ => ⟨trivial, fun _ => trivial⟩⟩
  | computeFp needs f =>
      left
      exact (uses_requireAll trivial needs).bind fun _ => ⟨trivial, fun _ => ⟨rfl, fun _ => trivial⟩⟩
  | fpRounded needs dest f =>
      left
      refine (uses_requireAll trivial needs).bind fun _ => uses_roundingMode.bind fun rm => ?_
      refine ⟨trivial, fun s => (uses_writeDest ..).bind fun _ => ?_⟩
      exact ⟨rfl, fun _ => trivial⟩
  | fpExact needs dest f =>
      left
      refine (uses_requireAll trivial needs).bind fun _ => ⟨trivial, fun s => ?_⟩
      exact (uses_writeDest ..).bind fun _ => ⟨rfl, fun _ => trivial⟩
  | loadTo needs ty addr dest =>
      left
      refine (uses_requireAll trivial needs).bind fun _ => ⟨trivial, fun s => ⟨trivial, fun value => ?_⟩⟩
      exact (uses_writeDest ..).bind fun _ => trivial
  | storeFrom needs ty addr value =>
      left
      exact (uses_requireAll trivial needs).bind fun _ => ⟨trivial, fun _ => ⟨trivial, fun _ => trivial⟩⟩
  | amoOp needs ty f result =>
      left
      refine (uses_requireAll trivial needs).bind fun _ => ⟨trivial, fun _ => ⟨trivial, fun _ => ?_⟩⟩
      exact ⟨trivial, fun _ => trivial⟩
  | lrD | lrW =>
      all_goals
        left
        refine (uses_requireAll trivial _).bind fun _ => ⟨trivial, fun _ => ⟨rfl, fun _ => ?_⟩⟩
        exact ⟨trivial, fun _ => ⟨trivial, fun _ => trivial⟩⟩
  | scD | scW =>
      all_goals
        left
        refine (uses_requireAll trivial _).bind fun _ => ⟨trivial, fun s => ?_⟩
        change (if _ then _ else _ : Handler Reg).Uses _
        split
        · exact ⟨trivial, fun _ => ⟨trivial, fun _ => trivial⟩⟩
        · exact ⟨trivial, fun _ => trivial⟩
  | branch needs taken target =>
      left
      refine (uses_requireAll trivial needs).bind fun _ => ⟨trivial, fun s => ?_⟩
      change (if _ then _ else _ : Handler Reg).Uses _
      split
      · exact uses_setPc trivial _
      · trivial
  | jump needs target link =>
      left
      refine (uses_requireAll trivial needs).bind fun _ => ⟨trivial, fun s => ?_⟩
      refine (uses_setPc trivial _).bind fun npc => ?_
      cases link c with
      | none => trivial
      | some reg => exact ⟨trivial, fun _ => trivial⟩
  | csrOp write new hname => exact .inr (.inl ⟨write, new, hname, rfl⟩)
  | mret => exact .inr (.inr (.inl rfl))
  | sret => exact .inr (.inr (.inr (.inl rfl)))
  | dret => exact .inr (.inr (.inr (.inr rfl)))
  | ebreak => exact .inl trivial
  | cEbreak => exact .inl ((uses_requireAll trivial _).bind fun _ => trivial)
  | ecall => exact .inl ⟨trivial, fun _ => trivial⟩
  | fence => exact .inl trivial
  | wfi => exact .inl trivial
  | fenceI => exact .inl ⟨trivial, fun _ => trivial⟩
  | sfenceVm =>
      left
      exact (uses_requireAll trivial _).bind fun _ => ⟨trivial, fun _ => trivial⟩

/-- The acts of a CSR instruction or of a return from a trap; none accesses the memory. -/
inductive Act.Control (c : Ctx) (name : InsnName) : Act → Prop
  | hart : Control c name .hart
  | setSerialized : Control c name (.setSerialized false)
  | getCsr (which : Reg) : Control c name (.getCsr which)
  | writeXpr (value : Reg) : Control c name (.writeXpr c.insn.rd value)
  | setStatePc (pc : Reg) : Control c name (.setStatePc pc)
  | setPrivilege (prv : Prv) : Control c name (.setPrivilege prv)
  | leaveDebugMode : Control c name .leaveDebugMode
  | setStatus (value : Reg) : Control c name (.setCsr Csr.mstatus.num value)
  | setCsr (hname : isCsrOp name = true) (value : Reg) : Control c name (.setCsr c.insn.csr value)

/-- A handler uses ordinary acts alone, or those of a CSR instruction or a return. -/
theorem uses_ordinary_or_control {name : InsnName} {p : Handler Reg} (h : Family c name p) :
    p.Uses (Act.OrdinaryOf name c.xlen) ∨ p.Uses (Act.Control c name) := by
  have hserialize (target : Reg) : (setPcAndSerialize c target).Uses (Act.Control c name) := by
    apply (uses_setPc .hart target).bind
    exact fun _ => ⟨.setStatePc target, fun _ => trivial⟩
  have hreturn (prv : Prv) (epc : Hart → Reg) (ppMask pieMask : Reg) :
      (trapReturn prv epc ppMask pieMask c).Uses (Act.Control c name) := by
    refine (uses_requireAll .hart _).bind fun _ => ⟨.hart, fun h => ?_⟩
    apply (hserialize _).bind
    exact fun npc => ⟨.setPrivilege _, fun _ => ⟨.setStatus _, fun _ => trivial⟩⟩
  rcases uses_family h with huses | ⟨write, new, hname, rfl⟩ | rfl | rfl | rfl
  · exact .inl huses
  · refine .inr ⟨.hart, fun h => ?_⟩
    change (if _ then _ else _ : Handler Reg).Uses _
    split
    · trivial
    · refine ⟨.setSerialized, fun _ => ?_⟩
      change (if _ then _ else _ : Handler Reg).Uses _
      split
      · trivial
      · refine ⟨.getCsr _, fun old => ?_⟩
        change (if _ then _ else _ : Handler Reg).Uses _
        split
        · exact ⟨.setCsr hname _, fun _ => ⟨.writeXpr _, fun _ => trivial⟩⟩
        · exact ⟨.writeXpr _, fun _ => trivial⟩
  · exact .inr (hreturn ..)
  · exact .inr (hreturn ..)
  · refine .inr ((uses_requireAll .hart _).bind fun _ => ⟨.hart, fun h => ?_⟩)
    apply (hserialize _).bind
    exact fun npc => ⟨.setPrivilege _, fun _ => ⟨.leaveDebugMode, fun _ => trivial⟩⟩

/-- All handlers use acts of a kind that has the ordinary ones, those of a return, and for a CSR
instruction the write of its register. -/
theorem uses_of_family {name : InsnName} {p : Handler Reg} (h : Family c name p) {K : Act → Prop}
    (hordinary : ∀ a, a.Ordinary c.xlen → K a) (hprv : ∀ prv, K (.setPrivilege prv))
    (hleave : K .leaveDebugMode) (hstatus : ∀ value, K (.setCsr Csr.mstatus.num value))
    (hcsr : isCsrOp name = true → ∀ value, K (.setCsr c.insn.csr value)) :
    p.Uses K := by
  rcases uses_ordinary_or_control h with huses | huses
  · exact huses.imp fun a ha => hordinary a ha.ordinary
  · apply huses.imp
    intro a ha
    cases ha with
    | hart => exact hordinary _ trivial
    | setSerialized => exact hordinary _ trivial
    | getCsr which => exact hordinary _ trivial
    | writeXpr value => exact hordinary _ trivial
    | setStatePc pc => exact hordinary _ trivial
    | setPrivilege prv => exact hprv prv
    | leaveDebugMode => exact hleave
    | setStatus value => exact hstatus value
    | setCsr hname value => exact hcsr hname value

theorem fits_insnProgram (F : SoftFloat) (name : InsnName) (xlen : Xlen) (insn : Insn) (pc : Reg) :
    (insnProgram F name xlen insn pc).Uses (Act.Fits xlen) :=
  uses_of_family (handler_family F name ⟨xlen, insn, pc, _⟩) (fun _ => Act.Ordinary.fits)
    (fun _ => trivial) trivial (fun _ => trivial) fun _ _ => trivial

end Uses

/-! ## What an act keeps -/

/-- What an act does, if it only changes the hart. -/
def Act.onHart : Act → Option (Hart → Hart)
  | .writeXpr reg value => some fun h => h.writeXpr reg value
  | .writeFpr xlen reg value =>
      some fun h => dirtyFpState xlen { h with fpr := Function.update h.fpr reg value }
  | .setFpExceptions xlen flags => some fun h => h.setFpExceptions xlen flags
  | .setSerialized b => some fun h => { h with serialized := b }
  | .setLoadReservation addr => some fun h => { h with loadReservation := addr }
  | .setStatePc pc => some fun h => { h with pc := pc }
  | .leaveDebugMode => some Hart.leaveDebugMode
  | _ => none

/-- The fields that such an act leaves alone. -/
theorem Act.onHart_frame {a : Act} {f : Hart → Hart} (hf : a.onHart = some f) (h : Hart) :
    f h = { h with
      pc := (f h).pc
      xpr := (f h).xpr
      fpr := (f h).fpr
      mstatus := (f h).mstatus
      dcsr := (f h).dcsr
      fflags := (f h).fflags
      serialized := (f h).serialized
      singleStep := (f h).singleStep
      loadReservation := (f h).loadReservation } := by
  cases a with
  | writeXpr reg value =>
      cases hf
      simp only [Hart.writeXpr]
      split <;> rfl
  | setFpExceptions xlen flags =>
      cases hf
      simp only [Hart.setFpExceptions]
      split <;> rfl
  | writeFpr | setSerialized | setLoadReservation | setStatePc | leaveDebugMode =>
      all_goals
        cases hf
        rfl
  | hart | setPrivilege | load | store | amo | getCsr | setCsr | flushTlb | flushIcache =>
      all_goals cases hf

/-- A relation that holds across whatever an act of this kind does. -/
structure ActKeeps {β : Type} (P : Platform β) (Kind : Act → Prop)
    (R : Machine β → Machine β → Prop) : Prop where
  store : StoreKeeps P R
  hart : ∀ {a f}, Kind a → a.onHart = some f → ∀ m : Machine β, R m { m with hart := f m.hart }
  setPrivilege : ∀ prv, Kind (.setPrivilege prv) → Keeps R (Riscv.setPrivilege prv : M β Unit)
  setCsr : ∀ which value, Kind (.setCsr which value) →
    Keeps R (Riscv.setCsr which value : M β Unit)
  flushTlb : Keeps R (Riscv.flushTlb : M β Unit)
  flushIcache : Keeps R (Riscv.flushIcache : M β Unit)

theorem ActKeeps.exec {β : Type} {P : Platform β} {Kind : Act → Prop}
    {R : Machine β → Machine β → Prop} [Std.Refl R] [IsTrans (Machine β) R]
    (hR : ActKeeps P Kind R) {a : Act} (ha : Kind a) : Keeps R (a.exec P) := by
  have hhart (f : Hart → Hart) (hf : a.onHart = some f) : Keeps R (modifyHart f : M β Unit) :=
    .modify fun m => hR.hart ha hf m
  cases a with
  | hart => exact .bind .get fun _ => .pure _
  | writeXpr | writeFpr | setFpExceptions | setSerialized | setLoadReservation | setStatePc
  | leaveDebugMode =>
      all_goals exact hhart _ rfl
  | setPrivilege prv => exact hR.setPrivilege prv ha
  | load ty addr => exact hR.store.read.load ty addr
  | store ty addr value => exact hR.store.store ty addr value
  | amo ty addr f => exact hR.store.amo ty addr f
  | getCsr which => exact ReadKeeps.getCsr which
  | setCsr which value => exact hR.setCsr which value ha
  | flushTlb => exact hR.flushTlb
  | flushIcache => exact hR.flushIcache

/-! ## Running the macros -/

section Running

variable {β : Type} {P : Platform β} {c : Ctx} {α : Type}

/-- A handler that starts by reading the state. -/
theorem run_readHart_bind (k : Hart → Handler α) (m : Machine β) :
    (readHart >>= k).run (Act.exec P) m = (k m.hart).run (Act.exec P) m := rfl

/-- The checks read the state; if they return then all of them hold. -/
theorem run_requireAll_ok {needs : List Need} {m m' : Machine β} {u : Unit}
    (h : (requireAll c needs).run (Act.exec P) m = .ok u m') :
    m' = m ∧ ∀ need ∈ needs, need.holds c m.hart = true := by
  induction needs with
  | nil =>
      cases h
      exact ⟨rfl, by simp⟩
  | cons need rest ih =>
      rw [requireAll, run_readHart_bind] at h
      cases hholds : need.holds c m.hart with
      | false =>
          rw [hholds] at h
          cases h
      | true =>
          rw [hholds] at h
          obtain ⟨hsame, hrest⟩ := ih h
          refine ⟨hsame, ?_⟩
          simpa [hholds] using hrest

/-- The checks pass where all of them hold. -/
theorem run_requireAll_of_holds {needs : List Need} {m : Machine β}
    (h : ∀ need ∈ needs, need.holds c m.hart = true) :
    (requireAll c needs).run (Act.exec P) m = .ok () m := by
  induction needs with
  | nil => rfl
  | cons need rest ih =>
      rw [requireAll, run_readHart_bind, h need List.mem_cons_self]
      exact ih fun other hother => h other (List.mem_cons_of_mem _ hother)

theorem run_requireAll_bind_of_holds {needs : List Need} (k : Unit → Handler α) {m : Machine β}
    (h : ∀ need ∈ needs, need.holds c m.hart = true) :
    (requireAll c needs >>= k).run (Act.exec P) m = (k ()).run (Act.exec P) m := by
  rw [Program.run_bind, run_bind, run_requireAll_of_holds h]

theorem run_requireAll_bind_ok {needs : List Need} {k : Unit → Handler α} {m m' : Machine β}
    {a : α} (h : (requireAll c needs >>= k).run (Act.exec P) m = .ok a m') :
    (k ()).run (Act.exec P) m = .ok a m' ∧ ∀ need ∈ needs, need.holds c m.hart = true := by
  rw [Program.run_bind] at h
  obtain ⟨u, mid, hneeds, hrest⟩ := bind_ok h
  obtain ⟨rfl, hhold⟩ := run_requireAll_ok hneeds
  exact ⟨hrest, hhold⟩

/-- A serializing jump sets `pc` and returns the sentinel. -/
theorem run_setPcAndSerialize_bind_ok {target : Reg} {k : Reg → Handler α} {m m' : Machine β}
    {a : α} (h : (setPcAndSerialize c target >>= k).run (Act.exec P) m = .ok a m') :
    (k pcSerializeAfter).run (Act.exec P) { m with hart := { m.hart with pc := target } } =
      .ok a m' := by
  rw [Program.run_bind, setPcAndSerialize, Program.run_bind] at h
  obtain ⟨npc, mid, hserialize, hrest⟩ := bind_ok h
  obtain ⟨_, mid', hset, hafter⟩ := bind_ok hserialize
  have hsame : mid' = m := by
    rw [setPc, run_readHart_bind] at hset
    split at hset
    · cases hset
    · cases hset
      rfl
  subst hsame
  cases hafter
  exact hrest

/-- A jump to an address that is aligned for the instructions in use. -/
theorem run_setPc_of_aligned {target : Reg} {m : Machine β}
    (h : target &&& 2 ≠ 0 → m.hart.supportsExtension 'C' = true) :
    (setPc c target).run (Act.exec P) m = .ok (sextXlen c.xlen target) m := by
  rw [setPc, run_readHart_bind]
  rw [if_neg]
  · rfl
  · simp only [Bool.and_eq_true, bne_iff_ne, Bool.not_eq_true']
    rintro ⟨hodd, hext⟩
    rw [h hodd] at hext
    cases hext

theorem run_setPcAndSerialize_bind_of_aligned {target : Reg} (k : Reg → Handler α)
    {m : Machine β} (h : target &&& 2 ≠ 0 → m.hart.supportsExtension 'C' = true) :
    (setPcAndSerialize c target >>= k).run (Act.exec P) m =
      (k pcSerializeAfter).run (Act.exec P) { m with hart := { m.hart with pc := target } } := by
  have hpc := run_setPc_of_aligned (P := P) (c := c) h
  have hserialize : (setPcAndSerialize c target).run (Act.exec P) m =
      .ok pcSerializeAfter { m with hart := { m.hart with pc := target } } := by
    rw [setPcAndSerialize, Program.run_bind, run_bind, hpc]
    rfl
  rw [Program.run_bind, run_bind, hserialize]

/-- `mret` and `sret` require their level and flush. -/
theorem run_trapReturn_ok {prv : Prv} {epc : Hart → Reg} {ppMask pieMask npc : Reg}
    {m m' : Machine β}
    (h : (trapReturn prv epc ppMask pieMask c).run (Act.exec P) m = .ok npc m') :
    prv ≤ m.hart.prv ∧ npc = pcSerializeAfter ∧
      m' = { m with hart := m.hart.afterReturn epc ppMask pieMask, mmu := m.mmu.flushed } := by
  obtain ⟨h, hneeds⟩ := run_requireAll_bind_ok h
  rw [run_readHart_bind] at h
  have h := run_setPcAndSerialize_bind_ok h
  refine ⟨by simpa [Need.holds] using hneeds, ?_⟩
  obtain ⟨_, mid, hprv, h⟩ := Program.run_call_ok h
  rw [show mid = _ from (EStateM.Result.ok.inj (hprv.symm.trans (run_setPrivilege _ _))).2] at h
  obtain ⟨_, mid', hset, h⟩ := Program.run_call_ok h
  cases h
  refine ⟨rfl, ?_⟩
  change setCsr Csr.mstatus.num _ _ = _ at hset
  rw [setCsr_eq (Csr.ofNum_num _)] at hset
  simp only [writeCsr, run_bind, run_getHart, run_setMstatus, Mmu.cond_flushed_flushed] at hset
  cases hset
  rfl

/-- `mret` and `sret` return where their level is reached and the target is aligned. -/
theorem run_trapReturn_of_legal {prv : Prv} {epc : Hart → Reg} {ppMask pieMask : Reg}
    {m : Machine β} (hprv : prv ≤ m.hart.prv)
    (halign : epc m.hart &&& 2 ≠ 0 → m.hart.supportsExtension 'C' = true) :
    (trapReturn prv epc ppMask pieMask c).run (Act.exec P) m = .ok pcSerializeAfter
      { m with hart := m.hart.afterReturn epc ppMask pieMask, mmu := m.mmu.flushed } := by
  have hneeds : ∀ need ∈ [Need.privilege prv], need.holds c m.hart = true := by
    intro need hneed
    rw [List.mem_singleton.mp hneed]
    exact decide_eq_true hprv
  have hreturns : ∃ npc m', (trapReturn prv epc ppMask pieMask c).run (Act.exec P) m =
      .ok npc m' := by
    rw [trapReturn, run_requireAll_bind_of_holds _ hneeds, run_readHart_bind,
      run_setPcAndSerialize_bind_of_aligned _ halign]
    generalize ({ m with hart := { m.hart with pc := epc m.hart } } : Machine β) = mid
    change ∃ npc m', (do
      setPrivilege (Prv.ofReg (getField m.hart.mstatus ppMask))
      setCsr Csr.mstatus.num (returnStatus ppMask pieMask m.hart.mstatus)
      pure pcSerializeAfter : M β Reg) mid = .ok npc m'
    simp only [run_bind, run_setPrivilege, run_setCsr_mstatus, run_setMstatus]
    exact ⟨_, _, rfl⟩
  obtain ⟨npc, m', hrun⟩ := hreturns
  obtain ⟨-, rfl, rfl⟩ := run_trapReturn_ok hrun
  exact hrun

end Running

/-! ## CSR instructions -/

/-- The machine after `validate_csr` has let an instruction pass. -/
def Machine.unserialized {β : Type} (m : Machine β) : Machine β :=
  { m with hart := { m.hart with serialized := false } }

/-- `validate_csr` raises an illegal instruction. -/
def csrRefused (which : Reg) (write : Bool) (prv : Prv) : Bool :=
  (write && decide (getField which 0xC00 = 3)) || decide (prv < Prv.ofReg (getField which 0x300))

/-- What a CSR instruction does: it is sent back to be serialized, or it is refused, or it reads
the register and perhaps writes it. -/
theorem run_csrOp {β : Type} (P : Platform β) (c : Ctx) (write : Ctx → Bool) (new : Ctx → Hart → Reg → Reg)
    (m : Machine β) :
    (csrOp write new c).run (Act.exec P) m =
      if m.hart.serialized = false then .ok pcSerializeBefore m
      else if csrRefused c.insn.csr (write c) m.hart.prv then
        .error (.trap .illegalInstruction) m.unserialized
      else (do
        let old ← getCsr P c.insn.csr
        if write c then setCsr c.insn.csr (new c m.hart old)
        modifyHart fun h => h.writeXpr c.insn.rd (sextXlen c.xlen old)
        return c.npc : M β Reg) m.unserialized := by
  rw [csrOp, run_readHart_bind]
  cases hserialized : m.hart.serialized with
  | false => rfl
  | true =>
      cases hrefused : csrRefused c.insn.csr (write c) m.hart.prv with
      | true =>
          change (if csrRefused c.insn.csr (write c) m.hart.prv then illegal else _ :
            Handler Reg).run (Act.exec P) m.unserialized = _
          rw [hrefused]
          rfl
      | false =>
          change (if csrRefused c.insn.csr (write c) m.hart.prv then illegal else _ :
            Handler Reg).run (Act.exec P) m.unserialized = _
          rw [hrefused]
          cases write c with
          | true => rfl
          | false => rfl

end SpikeSim.Riscv
