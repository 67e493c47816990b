/-
# RV32 registers

An RV32 hart keeps its integer registers canonical and `x0` zero, in every state that
it reaches.  Every handler of that width writes canonical values as long as it reads
such, so that the comparisons it makes in 64 bits are those of 32 bits.
-/

import SpikeSim.Riscv.Reachable
import SpikeSim.Riscv.Word

namespace SpikeSim.Riscv

open Handler

variable {β : Type}

/-- The integer registers of an RV32 hart. -/
structure WordRegs (h : Hart) : Prop where
  zero : h.xpr 0 = 0
  canonical : ∀ i, Canonical (h.xpr i)

/-! ## What handlers read and write -/

/-- What a handler can count on: the registers it reads, and the type of what it loads. -/
def Act.Answers : (a : Act) → a.Result → Prop
  | .hart => fun (h : Hart) => WordRegs h
  | .load ty _ => fun (v : Reg) => ∃ w, v = ty.toReg w
  | _ => fun _ => True

/-- What it has to respect. -/
def Act.WritesWord : Act → Prop
  | .writeXpr _ value => Canonical value
  | _ => True

theorem WordRegs.writeXpr {h : Hart} (hw : WordRegs h) (reg : Fin 32) {value : Reg}
    (hvalue : Canonical value) : WordRegs (h.writeXpr reg value) := by
  unfold Hart.writeXpr
  split
  · exact hw
  · rename_i hreg
    constructor
    · change Function.update h.xpr reg value 0 = 0
      rw [Function.update_of_ne (Ne.symm hreg)]
      exact hw.zero
    · intro i
      change Canonical (Function.update h.xpr reg value i)
      by_cases hi : i = reg
      · subst hi
        rw [Function.update_self]
        exact hvalue
      · rw [Function.update_of_ne hi]
        exact hw.canonical i

/-- Whoever leaves the integer registers alone. -/
theorem WordRegs.of_xpr {h h' : Hart} (hw : WordRegs h) (hxpr : h'.xpr = h.xpr) : WordRegs h' :=
  ⟨by rw [hxpr]; exact hw.zero, fun i => by rw [hxpr]; exact hw.canonical i⟩

/-- Code that keeps the registers canonical. -/
abbrev KeepsWords {α : Type} (x : M β α) : Prop := Keeps (Stable fun m => WordRegs m.hart) x

theorem keepsWords_of_frame {α : Type} {x : M β α} (hx : Keeps ControlFrame x) : KeepsWords x :=
  hx.imp fun _ _ hframe hw => hw.of_xpr (by rw [hframe.hart])

/-- The memory port does not touch the registers. -/
theorem storeKeeps_words (P : Platform β) :
    StoreKeeps P (Stable fun m => WordRegs m.hart) where
  read := ⟨fun _ _ _ _ _ _ hw => hw, fun _ _ _ _ _ hw => hw, fun _ _ hw => hw, fun _ _ _ hw => hw,
    fun _ _ hw => hw⟩
  write _ _ hw := hw
  device _ _ _ _ hw := hw.of_xpr rfl

theorem actKeeps_words (P : Platform β) :
    ActKeeps P Act.WritesWord (Stable fun m => WordRegs m.hart) where
  store := storeKeeps_words P
  hart := by
    intro a f ha hf m hw
    cases a with
    | writeXpr reg value =>
        cases hf
        exact hw.writeXpr reg ha
    | setFpExceptions width flags =>
        cases hf
        refine hw.of_xpr ?_
        change (m.hart.setFpExceptions width flags).xpr = _
        unfold Hart.setFpExceptions
        split <;> rfl
    | writeFpr | setSerialized | setLoadReservation | setStatePc | leaveDebugMode =>
        all_goals
          cases hf
          exact hw.of_xpr rfl
    | hart | setPrivilege | load | store | amo | getCsr | setCsr | flushTlb | flushIcache =>
        all_goals cases hf
  setPrivilege prv _ := keepsWords_of_frame (setPrivilege_frame prv)
  setCsr which value _ := keepsWords_of_frame (setCsr_frame which value)
  flushTlb := keepsWords_of_frame flushTlb_frame
  flushIcache := .modify fun _ hw => hw

/-- A load returns a value of its type. -/
theorem load_returns (P : Platform β) (ty : MemType) (addr : Reg) :
    Returns (load P ty addr) fun v => ∃ w, v = ty.toReg w := by
  refine .ite (fun _ => .bind (.throw (Q := fun _ => True) _) fun _ _ => ?_) fun _ => ?_
  all_goals
    refine .bind (.any _) fun m _ => .ite (fun _ => .pure ⟨_, rfl⟩) fun _ => .ite (fun _ => ?_) ?_
    · exact .bind (.any _) fun _ _ => .pure ⟨_, rfl⟩
    · exact fun _ => .bind (.any _) fun _ _ => .pure ⟨_, rfl⟩

theorem exec_words (P : Platform β) (a : Act) (m : Machine β) (ha : a.WritesWord)
    (hw : WordRegs m.hart) :
    Ensures (a.exec P) m (fun r m' => a.Answers r ∧ WordRegs m'.hart)
      fun _ m' => WordRegs m'.hart := by
  have hkeeps := (actKeeps_words P).exec ha
  refine ensures_iff.mpr ⟨fun r m' hrun => ⟨?_, hkeeps.ok hrun hw⟩, fun e m' hrun => hkeeps.error hrun hw⟩
  cases a with
  | hart =>
      cases hrun
      exact hw
  | load ty addr => exact (load_returns P ty addr).ok hrun
  | _ => trivial

/-! ## The forms of a handler -/

/-- A handler that keeps the registers canonical. -/
abbrev MeetsWord {α : Type} (p : Handler α) (Q : α → Prop) : Prop :=
  p.Meets Act.Answers Act.WritesWord Q

section Forms

variable {c : Ctx}

/-- A check for RV64 passes on RV64 only. -/
theorem meets_requireAll (needs : List Need) :
    MeetsWord (requireAll c needs) fun _ => Need.rv64 ∈ needs → c.xlen = .rv64 := by
  induction needs with
  | nil => exact fun h => by cases h
  | cons need rest ih =>
      refine ⟨trivial, fun h _ => ?_⟩
      change MeetsWord (require (need.holds c h) >>= fun _ => requireAll c rest) _
      unfold require
      split
      · rename_i hholds
        refine Program.Meets.imp ih fun _ hrest hmem => ?_
        rcases List.mem_cons.mp hmem with heq | hmem
        · rw [← heq] at hholds
          exact eq_of_beq hholds
        · exact hrest hmem
      · trivial

theorem meets_compute {needs : List Need} {dest : Ctx → Fin 32} {f : Ctx → Hart → Reg}
    (hf : (Need.rv64 ∈ needs → c.xlen = .rv64) → ∀ h, WordRegs h → Canonical (f c h)) :
    MeetsWord (compute needs dest f c) fun _ => True :=
  (meets_requireAll needs).bind fun _ hneeds =>
    ⟨trivial, fun h hw => ⟨hf hneeds h hw, fun _ _ => trivial⟩⟩

/-- A result of the FP library that goes to an integer register. -/
def WordDest (c : Ctx) (dest : Ctx → Dest) (value : Reg) : Prop :=
  ∀ reg, dest c = .x reg → Canonical value

theorem meets_writeDest {value : Reg} {dest : Ctx → Dest} (hvalue : WordDest c dest value) :
    MeetsWord (writeDest c value (dest c)) fun _ => True := by
  unfold WordDest at hvalue
  cases hdest : dest c with
  | x reg => exact ⟨hvalue reg hdest, fun _ _ => trivial⟩
  | f reg => exact ⟨trivial, fun _ _ => trivial⟩

theorem meets_roundingMode : MeetsWord (roundingMode c) fun _ => True := by
  refine ⟨trivial, fun h _ => ?_⟩
  change MeetsWord (if 4 < _ then illegal else pure _ : Handler Reg) _
  split_ifs
  all_goals trivial

theorem meets_fpRounded {needs : List Need} {dest : Ctx → Dest} {f : Ctx → Reg → Hart → FpResult}
    (hf : (Need.rv64 ∈ needs → c.xlen = .rv64) → ∀ rm h, WordDest c dest (f c rm h).value) :
    MeetsWord (fpRounded needs dest f c) fun _ => True := by
  refine (meets_requireAll needs).bind fun _ hneeds => meets_roundingMode.bind fun rm _ => ?_
  refine ⟨trivial, fun h _ => (meets_writeDest (hf hneeds rm h)).bind fun _ _ => ?_⟩
  exact ⟨trivial, fun _ _ => trivial⟩

theorem meets_fpExact {needs : List Need} {dest : Ctx → Dest} {f : Ctx → Hart → FpResult}
    (hf : ∀ h, WordDest c dest (f c h).value) : MeetsWord (fpExact needs dest f c) fun _ => True := by
  refine (meets_requireAll needs).bind fun _ _ => ⟨trivial, fun h _ => ?_⟩
  exact (meets_writeDest (hf h)).bind fun _ _ => ⟨trivial, fun _ _ => trivial⟩

theorem meets_loadTo {needs : List Need} {ty : MemType} {addr : Ctx → Hart → Reg}
    {dest : Ctx → Dest}
    (hty : (Need.rv64 ∈ needs → c.xlen = .rv64) → ∀ w, WordDest c dest (ty.toReg w)) :
    MeetsWord (loadTo needs ty addr dest c) fun _ => True := by
  refine (meets_requireAll needs).bind fun _ hneeds => ⟨trivial, fun h _ => ⟨trivial, ?_⟩⟩
  rintro _ ⟨w, rfl⟩
  exact (meets_writeDest (hty hneeds w)).bind fun _ _ => trivial

theorem meets_amoOp {needs : List Need} {ty : MemType} {f : Reg → Reg → Reg} {result : Reg → Reg}
    (hresult : (Need.rv64 ∈ needs → c.xlen = .rv64) → ∀ old, Canonical (result old)) :
    MeetsWord (amoOp needs ty f result c) fun _ => True :=
  (meets_requireAll needs).bind fun _ hneeds =>
    ⟨trivial, fun _ _ => ⟨trivial, fun old _ => ⟨hresult hneeds old, fun _ _ => trivial⟩⟩⟩

theorem meets_loadReserved {needs : List Need} {ty : MemType}
    (hty : (Need.rv64 ∈ needs → c.xlen = .rv64) → ∀ w, Canonical (ty.toReg w)) :
    MeetsWord (loadReserved needs ty c) fun _ => True := by
  refine (meets_requireAll needs).bind fun _ hneeds => ?_
  refine ⟨trivial, fun _ _ => ⟨trivial, fun _ _ => ⟨trivial, ?_⟩⟩⟩
  rintro _ ⟨w, rfl⟩
  exact ⟨hty hneeds w, fun _ _ => trivial⟩

theorem meets_storeConditional {needs : List Need} {ty : MemType} :
    MeetsWord (storeConditional needs ty c) fun _ => True := by
  refine (meets_requireAll needs).bind fun _ _ => ⟨trivial, fun h _ => ?_⟩
  change MeetsWord (if _ then _ else _ : Handler Reg) _
  split
  · exact ⟨trivial, fun _ _ => ⟨(by decide : Canonical 0), fun _ _ => trivial⟩⟩
  · exact ⟨(by decide : Canonical 1), fun _ _ => trivial⟩

theorem meets_setPc {target : Reg} : MeetsWord (setPc c target) fun _ => True := by
  refine ⟨trivial, fun h _ => ?_⟩
  change MeetsWord (if _ then _ else _ : Handler Reg) _
  split_ifs
  all_goals trivial

theorem meets_jump {needs : List Need} {target : Ctx → Hart → Reg} {link : Ctx → Option (Fin 32)}
    (hnpc : Canonical c.npc) : MeetsWord (jump needs target link c) fun _ => True := by
  refine (meets_requireAll needs).bind fun _ _ => ⟨trivial, fun h _ => ?_⟩
  refine meets_setPc.bind fun npc _ => ?_
  cases link c with
  | none => trivial
  | some reg => exact ⟨hnpc, fun _ _ => trivial⟩

/-- The register of a CSR instruction gets the old value, extended to the width. -/
theorem meets_csrOp {write : Ctx → Bool} {new : Ctx → Hart → Reg → Reg} (hc : c.xlen = .rv32) :
    MeetsWord (csrOp write new c) fun _ => True := by
  have hold (old : Reg) : Canonical (sextXlen c.xlen old) := by
    rw [hc]
    exact canonical_sextXlen old
  refine ⟨trivial, fun h _ => ?_⟩
  change MeetsWord (if _ then _ else _ : Handler Reg) _
  split
  · trivial
  · refine ⟨trivial, fun _ _ => ?_⟩
    change MeetsWord (if _ then _ else _ : Handler Reg) _
    split
    · trivial
    · refine ⟨trivial, fun old _ => ?_⟩
      change MeetsWord (if _ then _ else _ : Handler Reg) _
      split
      · exact ⟨trivial, fun _ _ => ⟨hold old, fun _ _ => trivial⟩⟩
      · exact ⟨hold old, fun _ _ => trivial⟩

theorem meets_branch {needs : List Need} {taken : Ctx → Hart → Bool} {target : Ctx → Reg} :
    MeetsWord (branch needs taken target c) fun _ => True := by
  refine (meets_requireAll needs).bind fun _ _ => ⟨trivial, fun h _ => ?_⟩
  change MeetsWord (if _ then _ else _ : Handler Reg) _
  split
  · exact meets_setPc
  · trivial

theorem meets_computeFp {needs : List Need} {f : Ctx → Hart → Reg} :
    MeetsWord (computeFp needs f c) fun _ => True :=
  (meets_requireAll needs).bind fun _ _ => ⟨trivial, fun _ _ => ⟨trivial, fun _ _ => trivial⟩⟩

theorem meets_storeFrom {needs : List Need} {ty : MemType} {addr value : Ctx → Hart → Reg} :
    MeetsWord (storeFrom needs ty addr value c) fun _ => True :=
  (meets_requireAll needs).bind fun _ _ => ⟨trivial, fun _ _ => ⟨trivial, fun _ _ => trivial⟩⟩

theorem meets_setPcAndSerialize {target : Reg} :
    MeetsWord (setPcAndSerialize c target) fun _ => True :=
  meets_setPc.bind fun _ _ => ⟨trivial, fun _ _ => trivial⟩

theorem meets_trapReturn {prv : Prv} {epc : Hart → Reg} {ppMask pieMask : Reg} :
    MeetsWord (trapReturn prv epc ppMask pieMask c) fun _ => True := by
  refine (meets_requireAll _).bind fun _ _ => ⟨trivial, fun h _ => ?_⟩
  refine meets_setPcAndSerialize.bind fun npc _ => ?_
  exact ⟨trivial, fun _ _ => ⟨trivial, fun _ _ => trivial⟩⟩

theorem meets_dret : MeetsWord (Insns.dret c) fun _ => True := by
  refine (meets_requireAll _).bind fun _ _ => ⟨trivial, fun h _ => ?_⟩
  refine meets_setPcAndSerialize.bind fun npc _ => ?_
  exact ⟨trivial, fun _ _ => ⟨trivial, fun _ _ => trivial⟩⟩

end Forms

/-! ## Values -/

/-- A type of less than a word, or of a signed word. -/
def MemType.Word (ty : MemType) : Prop :=
  0 < ty.bytes ∧ (ty.bytes < 4 ∨ ty.bytes = 4 ∧ ty.signed = true)

instance (ty : MemType) : Decidable ty.Word := inferInstanceAs (Decidable (_ ∧ _))

theorem canonical_toReg {ty : MemType} (hty : ty.Word) (w : Reg) : Canonical (ty.toReg w) := by
  obtain ⟨hpos, hsize⟩ := hty
  refine canonical_iff.mpr fun i hi hhigh => ?_
  have hbit (j : Nat) (hj : 31 ≤ j) (hj' : j < 64) : (ty.toReg w).getLsbD j =
      (ty.signed && w.getLsbD (8 * ty.bytes - 1)) := by
    unfold MemType.toReg
    cases hsigned : ty.signed with
    | true =>
        simp only [if_true, BitVec.getLsbD_sshiftRight, BitVec.getLsbD_shiftLeft,
          BitVec.msb_eq_getLsbD_last]
        by_cases hin : 64 - 8 * ty.bytes + j < 64
        · -- Only the sign bit of a word is not yet above the value.
          obtain ⟨hb, rfl⟩ : ty.bytes = 4 ∧ j = 31 := by omega
          simp [hb]
        · rw [if_neg hin, show 64 - 1 - (64 - 8 * ty.bytes) = 8 * ty.bytes - 1 by omega]
          simp [hj', show ¬ 64 - 1 < 64 - 8 * ty.bytes by omega]
    | false =>
        rw [hsigned] at hsize
        simp only [Bool.false_eq_true, and_false, or_false] at hsize
        simp only [Bool.false_eq_true, if_false, BitVec.getLsbD_ushiftRight,
          BitVec.getLsbD_shiftLeft]
        simp [show ¬ 64 - 8 * ty.bytes + j < 64 by omega]
  rw [hbit i (by omega) hi, hbit 31 le_rfl (by omega)]

theorem canonical_classify (fmt : Fmt) (a : BitVec fmt.bits) : Canonical (classify fmt a) := by
  have hbit (b : Bool) (n : Nat) (hn : n < 10) : Canonical (boolReg b <<< n) := by
    have hsign : SignFrom 1 (boolReg b) := signFrom_of_lt (by cases b <;> decide)
    exact (hsign.shiftLeft n).canonical (by omega)
  unfold classify
  exact ((((((((((hbit _ 0 (by omega)).or (hbit _ 1 (by omega))).or (hbit _ 2 (by omega))).or
    (hbit _ 3 (by omega))).or (hbit _ 7 (by omega))).or (hbit _ 6 (by omega))).or
    (hbit _ 5 (by omega))).or (hbit _ 4 (by omega))).or (hbit _ 8 (by omega))).or
    (hbit _ 9 (by omega)))

theorem canonical_fpWord (r : BitVec 32 × BitVec 32) : Canonical (Insns.fpWord r).value :=
  canonical_signExtend r.1

theorem canonical_fpTruth (r : Bool × BitVec 32) : Canonical (Insns.fpTruth r).value :=
  canonical_boolReg r.1

theorem canonical_iImm {insn : Insn} (h : Canonical insn.bits) : Canonical insn.iImm :=
  h.sshiftRight 20

theorem canonical_uImm {insn : Insn} (h : Canonical insn.bits) : Canonical insn.uImm :=
  h.shiftRight_shiftLeft (by omega)

theorem signFrom_rvcImm (insn : Insn) : SignFrom 5 insn.rvcImm :=
  .add_low (insn.toNat_x_lt 2 5 (by omega)) (signFrom_xs insn 12 (by omega))

/-! ## Shorthands of the instruction definitions -/

section Shorthands

variable {c : Ctx}

theorem meets_fpCompare (fmt : Fmt) (f : BitVec fmt.bits → BitVec fmt.bits → Bool × BitVec 32) :
    MeetsWord (Insns.fpCompare fmt f c) fun _ => True :=
  meets_fpExact fun _ _ _ => canonical_fpTruth _

theorem meets_fpSelect (fmt : Fmt) (f : Ctx → Hart → Bool × BitVec 32) :
    MeetsWord (Insns.fpSelect fmt f c) fun _ => True :=
  meets_fpExact fun _ _ hdest => by cases hdest

theorem meets_fpBinary (fmt : Fmt) (f : Reg → BitVec fmt.bits → BitVec fmt.bits →
    BitVec fmt.bits × BitVec 32) : MeetsWord (Insns.fpBinary fmt f c) fun _ => True :=
  meets_fpRounded fun _ _ _ _ hdest => by cases hdest

theorem meets_fpFused (F : SoftFloat) (fmt : Fmt) (neg1 neg3 : Bool) :
    MeetsWord (Insns.fpFused F fmt neg1 neg3 c) fun _ => True :=
  meets_fpRounded fun _ _ _ _ hdest => by cases hdest

theorem meets_fpSign (fmt : Fmt) (f : Reg → Reg → Reg) :
    MeetsWord (Insns.fpSign fmt f c) fun _ => True :=
  meets_computeFp

theorem meets_amoW (f : Reg → Reg → Reg) : MeetsWord (Insns.amoW f c) fun _ => True :=
  meets_amoOp fun _ _ => canonical_sext32 _

/-- RV32 has no AMOs of 64 bits. -/
theorem meets_amoD (hc : c.xlen = .rv32) (f : Reg → Reg → Reg) :
    MeetsWord (Insns.amoD f c) fun _ => True := by
  refine meets_amoOp fun hneeds => ?_
  rw [hneeds (by simp)] at hc
  cases hc

end Shorthands

/-! ## All handlers -/

/-- **Every RV32 handler** keeps the registers canonical: whatever it writes to one is canonical
as long as the registers it reads are. -/
theorem meets_handler (F : SoftFloat) (name : InsnName) {insn : Insn} (pc : Reg) {npc : Reg}
    (hword : Canonical insn.bits) (hnpc : Canonical npc) :
    MeetsWord (handler F name ⟨.rv32, insn, pc, npc⟩) fun _ => True := by
  have hno (needs : List Need) (hmem : Need.rv64 ∈ needs)
      (h : Need.rv64 ∈ needs → (⟨.rv32, insn, pc, npc⟩ : Ctx).xlen = .rv64) : False := by
    cases h hmem
  cases name
  all_goals simp only [handler]
  -- The result is extended to the width.
  case add | addi | auipc | cAdd | cAddi4spn | cAddi | cSlli | cSrai | cSrli | cSub | mul | sll |
        slli | sra | srai | srl | srli | sub =>
    all_goals exact meets_compute fun _ _ _ => canonical_sextXlen _
  case addiw | addw | cAddw | cSubw | fmvXS | mulh | mulhsu | mulhu | mulw | slliw | sllw | subw =>
    all_goals exact meets_compute fun _ _ _ => canonical_sext32 _
  case sraiw | sraw | srliw | srlw =>
    all_goals exact meets_compute fun _ _ _ => canonical_signExtend _
  case slt | slti | sltiu | sltu =>
    all_goals exact meets_compute fun _ _ _ => canonical_boolReg _
  -- Bitwise operations on canonical operands.
  case and | cAnd =>
    all_goals exact meets_compute fun _ _ hw => (hw.canonical _).and (hw.canonical _)
  case or | cOr =>
    all_goals exact meets_compute fun _ _ hw => (hw.canonical _).or (hw.canonical _)
  case xor | cXor =>
    all_goals exact meets_compute fun _ _ hw => (hw.canonical _).xor (hw.canonical _)
  case andi => exact meets_compute fun _ _ hw => (canonical_iImm hword).and (hw.canonical _)
  case ori => exact meets_compute fun _ _ hw => (canonical_iImm hword).or (hw.canonical _)
  case xori => exact meets_compute fun _ _ hw => (canonical_iImm hword).xor (hw.canonical _)
  case cAndi =>
    exact meets_compute fun _ _ hw =>
      (hw.canonical _).and ((signFrom_rvcImm insn).canonical (by omega))
  case lui => exact meets_compute fun _ _ _ => canonical_uImm hword
  case cLi => exact meets_compute fun _ _ _ => (signFrom_rvcImm insn).canonical (by omega)
  case cMv => exact meets_compute fun _ _ hw => hw.canonical _
  case cLui =>
    unfold Insns.cLui
    split
    · exact meets_compute fun _ _ _ => canonical_sextXlen _
    · exact meets_compute fun _ _ _ => ((signFrom_rvcImm insn).shiftLeft 12).canonical (by omega)
  case cJal =>
    unfold Insns.cJal
    exact meets_jump hnpc
  -- Division has special cases.
  case div =>
    refine meets_compute fun _ h _ => ?_
    dsimp only
    split_ifs
    · decide
    · exact canonical_sextXlen _
    · exact canonical_sextXlen _
  case rem =>
    refine meets_compute fun _ h _ => ?_
    dsimp only
    split_ifs
    · exact canonical_sextXlen _
    · decide
    · exact canonical_sextXlen _
  case divu =>
    refine meets_compute fun _ h _ => ?_
    dsimp only
    split_ifs
    · decide
    · exact canonical_sextXlen _
  case remu =>
    refine meets_compute fun _ h _ => ?_
    dsimp only
    split_ifs
    · exact canonical_sextXlen _
    · exact canonical_sextXlen _
  case divuw | divw =>
    all_goals
      refine meets_compute fun _ h _ => ?_
      dsimp only
      split_ifs
      · decide
      · exact canonical_sext32 _
  case remuw | remw =>
    all_goals
      refine meets_compute fun _ h _ => ?_
      dsimp only
      split_ifs
      · exact canonical_sext32 _
      · exact canonical_sext32 _
  case fclassD | fclassS =>
    all_goals exact meets_compute fun _ _ _ => canonical_classify _ _
  case fmvXD => exact meets_compute fun h _ _ => (hno _ (by simp [Insns.fpLongNeeds]) h).elim
  -- FP results that go to an integer register.
  case fcvtWD | fcvtWS | fcvtWuD | fcvtWuS =>
    all_goals exact meets_fpRounded fun _ _ _ _ _ => canonical_fpWord _
  case feqD | feqS | fleD | fleS | fltD | fltS =>
    all_goals exact meets_fpCompare ..
  case fcvtLD | fcvtLS | fcvtLuD | fcvtLuS =>
    all_goals exact meets_fpRounded fun h _ _ => (hno _ (by simp [Insns.fpLongNeeds]) h).elim
  case fcvtDL | fcvtDLu | fcvtDS | fcvtDW | fcvtDWu | fcvtSD | fcvtSL | fcvtSLu | fcvtSW | fcvtSWu |
        fsqrtD | fsqrtS =>
    all_goals exact meets_fpRounded fun _ _ _ _ hdest => by cases hdest
  case faddD | faddS | fdivD | fdivS | fmulD | fmulS | fsubD | fsubS =>
    all_goals exact meets_fpBinary ..
  case fmaddD | fmaddS | fmsubD | fmsubS | fnmaddD | fnmaddS | fnmsubD | fnmsubS =>
    all_goals exact meets_fpFused ..
  case fmaxD | fmaxS | fminD | fminS => all_goals exact meets_fpSelect ..
  case fsgnjD | fsgnjnD | fsgnjnS | fsgnjS | fsgnjxD | fsgnjxS => all_goals exact meets_fpSign ..
  case fmvDX | fmvSX => all_goals exact meets_computeFp
  -- Loads are typed.
  case lb | lbu | lh | lhu | lw | cLw | cLwsp =>
    all_goals exact meets_loadTo fun _ _ _ _ => canonical_toReg (by decide) _
  case ld | lwu => all_goals exact meets_loadTo fun h _ => (hno _ (by simp) h).elim
  case fld | flw | cFld | cFldsp =>
    all_goals exact meets_loadTo fun _ _ _ hdest => by cases hdest
  case cFlw | cFlwsp =>
    all_goals
      simp only [Insns.cFlw, Insns.cFlwsp]
      exact meets_loadTo fun _ _ _ hdest => by cases hdest
  case cFsw | cFswsp =>
    all_goals
      simp only [Insns.cFsw, Insns.cFswsp]
      exact meets_storeFrom
  case sb | sd | sh | sw | fsd | fsw | cFsd | cFsdsp | cSw | cSwsp =>
    all_goals exact meets_storeFrom
  case amoaddW | amoandW | amomaxuW | amomaxW | amominuW | amominW | amoorW | amoswapW | amoxorW =>
    all_goals exact meets_amoW ..
  case amoaddD | amoandD | amomaxD | amomaxuD | amominD | amominuD | amoorD | amoswapD | amoxorD =>
    all_goals exact meets_amoD rfl _
  case lrW => exact meets_loadReserved fun _ _ => canonical_toReg (by decide) _
  case lrD => exact meets_loadReserved fun h => (hno _ (by simp) h).elim
  case scD | scW => all_goals exact meets_storeConditional
  case beq | bge | bgeu | blt | bltu | bne | cBeqz | cBnez => all_goals exact meets_branch
  case cJalr | cJ | cJr | jal | jalr => all_goals exact meets_jump hnpc
  case csrrc | csrrci | csrrs | csrrsi | csrrw | csrrwi => all_goals exact meets_csrOp rfl
  case mret | sret => all_goals exact meets_trapReturn
  case dret => exact meets_dret
  case cEbreak => exact (meets_requireAll _).bind fun _ _ => trivial
  case sfenceVm => exact (meets_requireAll _).bind fun _ _ => ⟨trivial, fun _ _ => trivial⟩
  case fenceI => exact ⟨trivial, fun _ _ => trivial⟩
  case ecall => exact ⟨trivial, fun _ _ => trivial⟩
  case ebreak | fence | wfi => all_goals trivial

/-- A handler started on canonical registers. -/
theorem insnProgram_words (P : Platform β) (F : SoftFloat) (name : InsnName) {insn : Insn}
    (pc : Reg) (hword : Canonical insn.bits) {m : Machine β} (hw : WordRegs m.hart) :
    Ensures ((insnProgram F name .rv32 insn pc).run (Act.exec P)) m
      (fun _ m' => WordRegs m'.hart) fun _ m' => WordRegs m'.hart :=
  ((meets_handler F name pc hword (canonical_sextXlen _)).ensures
    (I := fun m => WordRegs m.hart) (exec_words P) hw).imp (fun _ _ h => h.2) fun _ _ h => h

theorem hartRules_words (P : Platform β) (F : SoftFloat) : HartRules P F .rv32 WordRegs where
  interfere _ _ _ hw := hw.of_xpr rfl
  bookkeeping _ _ _ _ hw := hw.of_xpr rfl
  execute pc fetch hfetch := by
    refine .bind ?_ fun npc => ?_
    · cases hfetch with
      | base name insn hmatch hword =>
          exact keeps_stable_iff.mpr fun m hw => insnProgram_words P F name pc hword hw
      | custom n insn => exact .throw _
      | illegal insn => exact .throw _
    · exact .ite (.bind (.modify fun _ hw => hw) fun _ => .pure _) (.pure _)
  enterDebugMode cause := keepsWords_of_frame (enterDebugMode_frame cause)
  takeTrap t epc := keepsWords_of_frame (takeTrap_frame t epc)
  setCsr which val := keepsWords_of_frame (setCsr_frame which val)

/-- The comparisons of 64 bits decide those of 32 bits. -/
structure ComparesWords (a b : Reg) : Prop where
  eq : a = b ↔ a.setWidth 32 = b.setWidth 32
  slt : a.slt b = (a.setWidth 32).slt (b.setWidth 32)
  lt : a < b ↔ a.setWidth 32 < b.setWidth 32

theorem WordRegs.compares {h : Hart} (hw : WordRegs h) (i j : Fin 32) :
    ComparesWords (h.xpr i) (h.xpr j) where
  eq := (hw.canonical i).eq_iff (hw.canonical j)
  slt := (hw.canonical i).slt_eq (hw.canonical j)
  lt := (hw.canonical i).lt_iff (hw.canonical j)

/-- **RV32 registers are canonical.** Every RV32 handler leaves canonical registers when it
starts with such, and on an RV32 hart without extension they are canonical in every state
that is reached, so that comparing them in 64 bits is comparing them in 32. -/
theorem rv32_registers_canonical (P : Platform β) (F : SoftFloat) :
    (∀ (name : InsnName) (insn : Insn) (pc : Reg) (m : Machine β), Canonical insn.bits →
      WordRegs m.hart → Ensures ((insnProgram F name .rv32 insn pc).run (Act.exec P)) m
        (fun _ m' => WordRegs m'.hart) fun _ m' => WordRegs m'.hart) ∧
    ∀ (cfg : IsaConfig) (halt : Bool) (dram : Reg → BitVec 8) (dev : β) (r : ℕ → Point β)
      (len : ℕ), cfg.maxXlen = .rv32 → cfg.ext = false → IsRun (HartStep P F) r len →
      r 0 = .idle (cfg.machine halt dram dev) → ∀ k ≤ len, WordRegs (r k).machine.hart ∧
        ∀ i j, ComparesWords ((r k).machine.hart.xpr i) ((r k).machine.hart.xpr j) := by
  constructor
  · exact fun name insn pc m hword hw => insnProgram_words P F name pc hword hw
  · intro cfg halt dram dev r len hxlen _ hrun hinit k hk
    have hrules : HartRules P F cfg.maxXlen WordRegs := by
      rw [hxlen]
      exact hartRules_words P F
    have hstart : WordRegs (cfg.machine halt dram dev).hart :=
      ⟨rfl, fun _ => (by decide : Canonical 0)⟩
    have hw := hrules.reachable hstart hrun hinit k hk
    exact ⟨hw, hw.compares⟩

/-- `addi x1, x0, -1` on RV32: all 64 bits are set, and `x1` is above `x0` without sign. -/
theorem addi_minus_one_canonical :
    let m : Machine Unit := Machine.reset .rv32 0 false (Decode.freshDecoder false) (fun _ => 0) ()
    ∃ m', (insnProgram .zeros .addi .rv32 ⟨0xfffffffffff00093⟩ 0).run (Act.exec .bare) m = .ok 4 m' ∧
      m'.hart.xpr 1 = -1 ∧ WordRegs m'.hart := by
  intro m
  have hrun : (match (insnProgram .zeros .addi .rv32 ⟨0xfffffffffff00093⟩ 0).run
        (Act.exec .bare) m with
      | .ok npc m' => some (npc, m'.hart.xpr 1)
      | .error .. => none) = some (4, -1) := by decide +kernel
  have hwords := (rv32_registers_canonical Platform.bare .zeros).1 .addi ⟨0xfffffffffff00093⟩ 0 m
    (by decide) ⟨rfl, fun _ => (by decide : Canonical 0)⟩
  split at hrun
  · rename_i npc m' hok
    obtain ⟨rfl, hx⟩ : npc = 4 ∧ m'.hart.xpr 1 = -1 := by simpa using hrun
    exact ⟨m', hok, hx, hwords.ok hok⟩
  · cases hrun

end SpikeSim.Riscv
