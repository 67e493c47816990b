/-
# The actions of triggers

The catch block of `step` knows two actions of a trigger and aborts on any other.  The
action is a field of `tdata1` that a write stores as it is, so the handler is safe as long
as every write of `tdata1` brings one of the two: `trigger_actions_supported` says so for
whole runs, and `unsupported_action_aborts` shows a guest that writes another one.
-/

import SpikeSim.Riscv.Reachable
import SpikeSim.Riscv.Retire

namespace SpikeSim.Riscv

open Handler

variable {β : Type}

/-! ## What leaves the triggers alone -/

/-- The control words of the triggers are the same. -/
def SameMcontrol (m m' : Machine β) : Prop := m'.hart.mcontrol = m.hart.mcontrol

instance : Std.Refl (SameMcontrol (β := β)) := ⟨fun _ => rfl⟩

instance : IsTrans (Machine β) SameMcontrol := ⟨fun _ _ _ hab hbc => Eq.trans hbc hab⟩

theorem flushTlb_mcontrol : Keeps SameMcontrol (flushTlb : M β Unit) :=
  .bind (.modify fun _ => rfl) fun _ => .modify fun _ => rfl

theorem controlKeeps_mcontrol : ControlKeeps (SameMcontrol (β := β)) where
  flushTlb := flushTlb_mcontrol
  hart _ _ h := h
  record _ _ := rfl

theorem stepPrologue_mcontrol (P : Platform β) (n : Nat) : Keeps SameMcontrol (stepPrologue P n) := by
  refine .bind keeps_getHart fun h => .ite (.pure _) (.bind .get fun m => ?_)
  have hdebug (cause : DebugCause) := (controlKeeps_mcontrol (β := β)).enterDebugMode cause
  refine .ite (.bind (hdebug _) fun _ => .pure _) (.bind keeps_getHart fun h => ?_)
  exact .ite (.bind (hdebug _) fun _ => .pure _) (.pure _)

/-- The acts that do not write `tdata1`. -/
def Act.KeepsMcontrol : Act → Prop
  | .setCsr which _ => which ≠ Csr.tdata1.num
  | _ => True

theorem actKeeps_mcontrol (P : Platform β) : ActKeeps P Act.KeepsMcontrol SameMcontrol where
  store := {
    read := ⟨fun _ _ _ _ _ _ => rfl, fun _ _ _ _ _ => rfl, fun _ _ => rfl, fun _ _ _ => rfl,
      fun _ _ => rfl⟩
    write := fun _ _ => rfl
    device := fun _ _ _ _ => rfl }
  hart {a f} _ hf m := by
    change (f m.hart).mcontrol = m.hart.mcontrol
    rw [Act.onHart_frame hf]
  setPrivilege prv _ := controlKeeps_mcontrol.setPrivilege prv
  setCsr _ value hwhich := controlKeeps_mcontrol.setCsr hwhich value
  flushTlb := flushTlb_mcontrol
  flushIcache := .modify fun _ => rfl

/-! ## What a CSR instruction writes -/

/-- The value that a CSR instruction writes, if it writes: `old` is what it has read. -/
def csrOperand (insn : Insn) (h : Hart) (old : Reg) : InsnName → Option Reg
  | .csrrw => some (h.xpr insn.rs1)
  | .csrrwi => some insn.rs1Bits
  | .csrrs => if insn.rs1Bits != 0 then some (old ||| h.xpr insn.rs1) else none
  | .csrrsi => if insn.rs1Bits != 0 then some (old ||| insn.rs1Bits) else none
  | .csrrc => if insn.rs1Bits != 0 then some (old &&& ~~~h.xpr insn.rs1) else none
  | .csrrci => if insn.rs1Bits != 0 then some (old &&& ~~~insn.rs1Bits) else none
  | _ => none

/-- A CSR instruction is `csrOp` with this operand. -/
theorem handler_csrOp (F : SoftFloat) {name : InsnName} (hname : isCsrOp name = true) (c : Ctx) :
    ∃ write new, handler F name c = csrOp write new c ∧
      ∀ h old, csrOperand c.insn h old name = if write c then some (new c h old) else none := by
  have hmem : name ∈ [InsnName.csrrc, .csrrci, .csrrs, .csrrsi, .csrrw, .csrrwi] := by
    simpa [isCsrOp] using hname
  simp only [List.mem_cons, List.not_mem_nil, or_false] at hmem
  rcases hmem with rfl | rfl | rfl | rfl | rfl | rfl
  · exact ⟨Insns.operandGiven, fun c h old => old &&& ~~~Insns.rs1 c h, rfl, fun _ _ => rfl⟩
  · exact ⟨Insns.operandGiven, fun c _ old => old &&& ~~~c.insn.rs1Bits, rfl, fun _ _ => rfl⟩
  · exact ⟨Insns.operandGiven, fun c h old => old ||| Insns.rs1 c h, rfl, fun _ _ => rfl⟩
  · exact ⟨Insns.operandGiven, fun c _ old => old ||| c.insn.rs1Bits, rfl, fun _ _ => rfl⟩
  · exact ⟨fun _ => true, fun c h _ => Insns.rs1 c h, rfl, fun _ _ => rfl⟩
  · exact ⟨fun _ => true, fun c _ _ => c.insn.rs1Bits, rfl, fun _ _ => rfl⟩

/-- The value that the instruction is about to write to `tdata1`: it is serialized, runs in
M-mode, and a trigger of the debugger is only written in debug mode. -/
def tdata1Write (fetch : Decode.InsnFunc × Insn) (h : Hart) : Option Reg :=
  if fetch.2.csr = Csr.tdata1.num ∧ h.serialized = true ∧ h.prv = prvM ∧
      ((h.mcontrol h.tselect).dmode && !h.inDebugMode) = false then
    match fetch.1 with
    | .rv32 name | .rv64 name =>
      csrOperand fetch.2 h (readMcontrol h.xlen (h.mcontrol h.tselect)) name
    | .custom _ | .illegalInstruction => none
  else none

/-! ## Supported actions -/

/-- `ACTION_DEBUG_EXCEPTION` or `ACTION_DEBUG_MODE`. -/
def SupportedAction (action : Reg) : Prop := action = 0 ∨ action = 1

instance (action : Reg) : Decidable (SupportedAction action) := inferInstanceAs (Decidable (_ ∨ _))

/-- The action that a value of `tdata1` asks for. -/
def actionField (val : Reg) : Reg := getField val (0x3f <<< 12)

/-- Every trigger has a supported action. -/
def ActionsSupported (h : Hart) : Prop := ∀ i, SupportedAction (h.mcontrol i).action

/-- The value that a point is about to write to `tdata1`. -/
def Point.writesTdata1 : Point β → Option Reg
  | .execute _ _ fetch (m, _) => tdata1Write fetch m.hart
  | _ => none

/-- What the point writes to `tdata1` asks for a supported action. -/
def ArmsSupported (p : Point β) : Prop := ∀ val ∈ p.writesTdata1, SupportedAction (actionField val)

theorem SameMcontrol.actions {m m' : Machine β} (h : SameMcontrol m m')
    (hm : ActionsSupported m.hart) : ActionsSupported m'.hart := by
  intro i
  rw [h]
  exact hm i

/-- A write of `tdata1` stores its action. -/
theorem withTdata1_actions {h : Hart} {val : Reg} (hm : ActionsSupported h)
    (hval : SupportedAction (actionField val)) : ActionsSupported (h.withTdata1 val) := by
  intro i
  by_cases hi : i = h.tselect
  · have haction : ((h.withTdata1 val).mcontrol i).action = actionField val := by
      rw [hi]
      simp only [Hart.withTdata1, Function.update_self, setMcontrol]
      exact getField_congr ((zextXlen_agreeOn h.xlen val).mono (by decide))
    rw [haction]
    exact hval
  · simp only [Hart.withTdata1, Function.update_of_ne hi]
    exact hm i

theorem setCsr_tdata1_actions {val : Reg} {m : Machine β} (hm : ActionsSupported m.hart)
    (hval : ((m.hart.mcontrol m.hart.tselect).dmode && !m.hart.inDebugMode) = false →
      SupportedAction (actionField val)) :
    Ensures (setCsr Csr.tdata1.num val) m (fun _ m' => ActionsSupported m'.hart)
      fun _ m' => ActionsSupported m'.hart := by
  rw [Ensures, run_setCsr_tdata1]
  cases hprotected : (m.hart.mcontrol m.hart.tselect).dmode && !m.hart.inDebugMode with
  | true => exact hm
  | false => exact withTdata1_actions hm (hval hprotected)

/-- A CSR instruction on `tdata1`. -/
theorem csrOp_actions {P : Platform β} {c : Ctx} {write : Ctx → Bool}
    {new : Ctx → Hart → Reg → Reg} {m : Machine β} (hcsr : c.insn.csr = Csr.tdata1.num)
    (hm : ActionsSupported m.hart)
    (hnew : m.hart.serialized = true → m.hart.prv = prvM →
      ((m.hart.mcontrol m.hart.tselect).dmode && !m.hart.inDebugMode) = false → write c = true →
      SupportedAction
        (actionField (new c m.hart (readMcontrol m.hart.xlen (m.hart.mcontrol m.hart.tselect))))) :
    Ensures ((csrOp write new c).run (Act.exec P)) m (fun _ m' => ActionsSupported m'.hart)
      fun _ m' => ActionsSupported m'.hart := by
  rw [Ensures, run_csrOp, hcsr]
  cases hserialized : m.hart.serialized with
  | false => exact hm
  | true =>
      cases hrefused : csrRefused Csr.tdata1.num (write c) m.hart.prv with
      | true => exact hm
      | false =>
          have hprv : m.hart.prv = prvM := by
            generalize m.hart.prv = prv at hrefused
            generalize write c = w at hrefused
            revert prv w
            decide
          have hget : getCsr P Csr.tdata1.num m.unserialized =
              .ok (readMcontrol m.hart.xlen (m.hart.mcontrol m.hart.tselect)) m.unserialized := by
            exact getCsr_of_read rfl
          have hlast (old : Reg) {m' : Machine β} (hm' : ActionsSupported m'.hart) :
              Ensures (do
                modifyHart fun h => h.writeXpr c.insn.rd (sextXlen c.xlen old)
                return c.npc : M β Reg) m' (fun _ m' => ActionsSupported m'.hart)
                fun _ m' => ActionsSupported m'.hart := by
            apply Ensures.bind
            apply SameMcontrol.actions _ hm'
            change (m'.hart.writeXpr _ _).mcontrol = m'.hart.mcontrol
            unfold Hart.writeXpr
            split <;> rfl
          refine Ensures.bind (.of_ok hget ?_)
          cases hwrite : write c with
          | true =>
              refine Ensures.bind ((setCsr_tdata1_actions (m := m.unserialized) hm ?_).imp
                (fun _ _ hm' => hlast _ hm') fun _ _ hm' => hm')
              exact fun hprotected => hnew hserialized hprv hprotected hwrite
          | false => exact hlast _ hm

/-- The instruction is a CSR instruction on `tdata1`. -/
def OnTdata1 (fetch : Decode.InsnFunc × Insn) : Prop :=
  fetch.2.csr = Csr.tdata1.num ∧ ∃ name xlen, fetch.1 = insnFunc xlen name ∧ isCsrOp name = true

theorem executeInsn_mcontrol (P : Platform β) (F : SoftFloat) (pc : Reg)
    {fetch : Decode.InsnFunc × Insn} (h : ¬OnTdata1 fetch) :
    Keeps SameMcontrol (executeInsn P F pc fetch) := by
  apply executeInsn_keeps_of_handler _ fun _ _ _ => rfl
  intro name xlen hfunc
  apply Program.keeps_run fun a ha => (actKeeps_mcontrol P).exec ha
  apply uses_of_family (handler_family F name _)
  · intro a ha
    cases a with
    | setCsr => exact ha.elim
    | _ => trivial
  · exact fun _ => trivial
  · trivial
  · exact fun _ => (by decide : Csr.mstatus.num ≠ Csr.tdata1.num)
  · exact fun hname _ hcsr => h ⟨hcsr, name, xlen, hfunc, hname⟩

/-- An instruction that arms no unsupported action. -/
theorem executeInsn_actions (P : Platform β) (F : SoftFloat) (pc : Reg)
    {fetch : Decode.InsnFunc × Insn} {m : Machine β} (hm : ActionsSupported m.hart)
    (harms : ∀ val ∈ tdata1Write fetch m.hart, SupportedAction (actionField val)) :
    Ensures (executeInsn P F pc fetch) m (fun _ m' => ActionsSupported m'.hart)
      fun _ m' => ActionsSupported m'.hart := by
  by_cases hon : OnTdata1 fetch
  · obtain ⟨func, insn⟩ := fetch
    obtain ⟨hcsr, name, xlen, hfunc, hname⟩ := hon
    obtain rfl : func = insnFunc xlen name := hfunc
    obtain ⟨write, new, hhandler, hoperand⟩ := handler_csrOp F hname
      ⟨xlen, insn, pc, sextXlen xlen (pc + BitVec.ofNat 64 (insnLength name.encoding.1))⟩
    have hcall : callFunc P F (insnFunc xlen name) insn pc =
        (csrOp write new ⟨xlen, insn, pc,
          sextXlen xlen (pc + BitVec.ofNat 64 (insnLength name.encoding.1))⟩).run (Act.exec P) := by
      rw [← hhandler]
      cases xlen <;> rfl
    apply executeInsn_ensures_of_call fun _ _ hm' => hm'
    rw [hcall]
    refine csrOp_actions hcsr hm ?_
    intro hserialized hprv hprotected hwrite
    apply harms
    have hgiven := hoperand m.hart (readMcontrol m.hart.xlen (m.hart.mcontrol m.hart.tselect))
    rw [hwrite] at hgiven
    rw [tdata1Write, if_pos ⟨hcsr, hserialized, hprv, hprotected⟩]
    cases xlen <;> exact hgiven
  · have hkept := executeInsn_mcontrol P F pc hon
    exact ensures_iff.mpr ⟨fun _ _ hrun => (hkept.ok hrun).actions hm,
      fun _ _ hrun => (hkept.error hrun).actions hm⟩

/-! ## Runs -/

theorem triggerAction_mcontrol (t : TriggerMatched) (s : Machine β × Locals) :
    Ensures (triggerAction t) s (fun _ s' => SameMcontrol s.1 s'.1) fun _ s' => SameMcontrol s.1 s'.1 := by
  obtain ⟨m, l⟩ := s
  apply Ensures.bind
  change Ensures (ite _ _ _) (m, l) _ _
  refine Ensures.ite (fun _ => ?_) fun _ => Ensures.ite (fun _ => ?_) fun _ => rfl
  · have hkept := (controlKeeps_mcontrol (β := β)).enterDebugMode .hwbp
    exact ensures_lift.mpr (ensures_iff.mpr ⟨fun _ _ => hkept.ok, fun _ _ => hkept.error⟩)
  · have hkept := (controlKeeps_mcontrol (β := β)).takeTrap ⟨3, some t.address⟩ l.pc
    exact Ensures.bind
      (ensures_lift.mpr (ensures_iff.mpr ⟨fun _ _ => hkept.ok, fun _ _ => hkept.error⟩))

theorem eventRules_actions (P : Platform β) (F : SoftFloat) :
    EventRules P F ArmsSupported fun h _ => ActionsSupported h where
  interfere _ _ _ _ h := h
  bookkeeping _ _ _ h := h
  prologue _ h hrun := ((stepPrologue_mcontrol P _).ok hrun).actions h
  begin _ h _ := h
  execute harms h := executeInsn_actions P F _ h harms
  finish h _ := h
  trap _ h hrun := ((controlKeeps_mcontrol.takeTrap _ _).ok hrun).actions h
  action _ h := (triggerAction_mcontrol _ _).imp (fun _ _ hkept => hkept.actions h)
    fun _ _ hkept => hkept.actions h

/-- The handler knows a supported action. -/
theorem triggerAction_returns {t : TriggerMatched} {m : Machine β} (l : Locals)
    (h : SupportedAction (m.hart.mcontrol t.index).action) :
    ∃ s', triggerAction t (m, l) = .ok () s' := by
  simp only [triggerAction, run_bind, run_lift_getHart]
  rcases h with haction | haction
  · obtain ⟨m', htrap⟩ := takeTrap_returns ⟨3, some t.address⟩ l.pc m
    refine ⟨(m', l), ?_⟩
    rw [if_neg (by rw [haction]; decide), if_pos haction]
    simp only [run_bind, run_localPc, run_lift, htrap]
  · rw [if_pos haction]
    exact ⟨_, rfl⟩

/-- **Supported actions.** In every run from the construction of a hart whose writes of `tdata1`
ask for a supported action, a trigger that matches has one, and the handler does not abort. -/
theorem trigger_actions_supported {P : Platform β} {F : SoftFloat} (cfg : IsaConfig) (halt : Bool)
    (dram : Reg → BitVec 8) (dev : β) {r : ℕ → Point β} {len : ℕ} (hrun : IsRun (Next P F) r len)
    (hinit : r 0 = .idle (cfg.machine halt dram dev)) (harms : ∀ k < len, ArmsSupported (r k)) :
    ∀ k ≤ len,
      (∀ n t s, r k = .caught n (.trigger t) s ∨ r k = .action n t s →
        SupportedAction (s.1.hart.mcontrol t.index).action) ∧
      ∀ n t s, r k = .action n t s → ∃ s', triggerAction t s = .ok () s' := by
  intro k hk
  have hstart : (cfg.machine halt dram dev).Holds fun h _ => ActionsSupported h := fun _ => .inl rfl
  have hsupported : ActionsSupported (r k).machine.hart :=
    ((eventRules_actions P F).loopRules.run hrun (fun k hk _ => harms k hk)
      (hinit ▸ PointInv.of_machine hstart) k hk).machine
  constructor
  · rintro n t s (hpoint | hpoint)
    · rw [hpoint] at hsupported
      exact hsupported t.index
    · rw [hpoint] at hsupported
      exact hsupported t.index
  · rintro n t ⟨m, l⟩ hpoint
    rw [hpoint] at hsupported
    exact triggerAction_returns l (hsupported t.index)

/-- A call of `step` for `csrwi tdata1, 5`, which arms a trigger with the action zero. -/
def armingRun : ℕ → Point Bool
  | 0 => .idle (IsaConfig.machine ⟨.rv64, 0x8000000000141129, false⟩ false (fun _ => 0) false)
  | k + 1 => (Point.next (.rom [0x7a12d073]) .zeros)^[k]
      (.head 1 (IsaConfig.machine ⟨.rv64, 0x8000000000141129, false⟩ false (fun _ => 0) false))

theorem armingRun_supported :
    ((armingRun 7).machine.hart.mcontrol 0).load = true ∧
      ∀ n t s, armingRun 7 = .caught n (.trigger t) s ∨ armingRun 7 = .action n t s →
        SupportedAction (s.1.hart.mcontrol t.index).action := by
  have hinside : ∀ k < 7, (armingRun (k + 1)).isIdle = false := by decide +kernel
  have hwrites : ∀ k < 7, (armingRun k).writesTdata1 = none ∨ (armingRun k).writesTdata1 = some 5 := by
    decide +kernel
  have harms : ∀ k < 7, ArmsSupported (armingRun k) := by
    intro k hk val hval
    rcases hwrites k hk with hnone | hfive
    · rw [hnone] at hval
      cases hval
    · obtain rfl : 5 = val := Option.some.inj (hfive.symm.trans hval)
      decide
  have hrun : IsRun (Next (.rom [0x7a12d073]) .zeros) armingRun 7 :=
    isRun_call _ _ (n := 1) rfl rfl (fun _ => rfl) fun k hk => hinside k (by omega)
  refine ⟨by decide +kernel, ?_⟩
  exact (trigger_actions_supported _ _ _ _ hrun rfl harms 7 le_rfl).1

/-- The handler does not know any other action. -/
theorem triggerAction_unsupported {t : TriggerMatched} {m : Machine β} (l : Locals)
    (h : ¬SupportedAction (m.hart.mcontrol t.index).action) :
    triggerAction t (m, l) = .error .abort (m, l) := by
  obtain ⟨hexception, hdebug⟩ := not_or.mp h
  simp only [triggerAction, run_bind, run_lift_getHart]
  rw [if_neg hdebug, if_neg hexception]
  rfl

/-- The action of the trigger at a point that is about to perform it. -/
def Point.pendingAction? : Point β → Option Reg
  | .action _ t s => some (s.1.hart.mcontrol t.index).action
  | _ => none

/-- A guest that arms a trigger on loads from address zero with `ACTION_TRACE_START`, and loads
from there: `lui x1, 2`, `addi x1, x1, 0x41`, `csrw tdata1, x1` and `lw x0, 0(x0)`. -/
theorem unsupported_action_aborts :
    let P := Platform.rom [0x000020b7, 0x04108093, 0x7a109073, 0x00002003]
    let m₀ : Machine Bool :=
      IsaConfig.machine ⟨.rv64, 0x8000000000141129, false⟩ false (fun _ => 0) false
    ∃ n t s m, Reaches P .zeros (.idle m₀) (.action n t s) ∧
      (s.1.hart.mcontrol t.index).action = 2 ∧
      (Point.action n t s).next P .zeros = .stopped .abort m := by
  intro P m₀
  let p := (Point.next P .zeros)^[13] (.head 4 m₀)
  have hpending : p.pendingAction? = some 2 := by
    decide +kernel
  have hreach : Reaches P .zeros (.idle m₀) p :=
    .head (.call 4 rfl) (reaches_iterate P .zeros (.head 4 m₀) 13)
  clear_value p
  cases p with
  | action n t s =>
      obtain ⟨m, l⟩ := s
      have haction : (m.hart.mcontrol t.index).action = 2 := Option.some.inj hpending
      refine ⟨n, t, (m, l), m, hreach, haction, ?_⟩
      have habort := triggerAction_unsupported (t := t) (m := m) l (by rw [haction]; decide)
      simp only [Point.next, habort]
  | idle | head | slow | fast | execute | caught | stopped => all_goals cases hpending

end SpikeSim.Riscv
