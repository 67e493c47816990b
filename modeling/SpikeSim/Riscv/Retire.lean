/-
# What an instruction records

A handler records nothing itself: `execute_insn` notes the instruction when the handler has
returned, unless it asks to be serialized first.  So the events of a run tell which instructions
were retired.
-/

import SpikeSim.Riscv.NextPc

namespace SpikeSim.Riscv

variable {β : Type} {P : Platform β} {F : SoftFloat}

/-- The events are the same. -/
def SameEvents (m m' : Machine β) : Prop := m'.events = m.events

instance : Std.Refl (SameEvents (β := β)) := ⟨fun _ => rfl⟩

instance : IsTrans (Machine β) SameEvents := ⟨fun _ _ _ hab hbc => Eq.trans hbc hab⟩

theorem actKeeps_events (P : Platform β) : ActKeeps P (fun _ => True) SameEvents where
  store := {
    read := ⟨fun _ _ _ _ _ _ => rfl, fun _ _ _ _ _ => rfl, fun _ _ => rfl, fun _ _ _ => rfl,
      fun _ _ => rfl⟩
    write := fun _ _ => rfl
    device := fun _ _ _ _ => rfl }
  hart _ _ _ := rfl
  setPrivilege _ _ := .bind (.bind (.modify fun _ => rfl) fun _ => .modify fun _ => rfl)
    fun _ => .modify fun _ => rfl
  setCsr which value _ := (setCsr_csrFrame which value).imp fun _ _ h => h.events
  flushTlb := .bind (.modify fun _ => rfl) fun _ => .modify fun _ => rfl
  flushIcache := .modify fun _ => rfl

/-- A handler leaves the record alone. -/
theorem callFunc_events (pc : Reg) (fetch : Decode.InsnFunc × Insn) :
    Keeps SameEvents (callFunc P F fetch.1 fetch.2 pc) := by
  have hprogram (name : InsnName) (xlen : Xlen) :
      Keeps SameEvents ((insnProgram F name xlen fetch.2 pc).run (Act.exec P)) :=
    Program.keeps_run (fun _ h => (actKeeps_events P).exec h) (Program.uses_true _)
  obtain ⟨func, insn⟩ := fetch
  cases func with
  | rv32 name => exact hprogram name .rv32
  | rv64 name => exact hprogram name .rv64
  | custom n => exact .throw _
  | illegalInstruction => exact .throw _

theorem callFunc_insnFunc (xlen : Xlen) (name : InsnName) (insn : Insn) (pc : Reg) :
    callFunc P F (insnFunc xlen name) insn pc =
      (insnProgram F name xlen insn pc).run (Act.exec P) := by
  cases xlen with
  | rv32 => rfl
  | rv64 => rfl

/-- What is noted of an instruction that has returned `npc`. -/
def retiredAs (npc pc : Reg) (bits : InsnBits) : List Event :=
  if npc = pcSerializeBefore then [] else [.retired pc bits]

/-- `execute_insn` calls the handler and notes the instruction. -/
theorem run_executeInsn (pc : Reg) (fetch : Decode.InsnFunc × Insn) (m : Machine β) :
    executeInsn P F pc fetch m =
      match callFunc P F fetch.1 fetch.2 pc m with
      | .error e m' => .error e m'
      | .ok npc m' =>
        .ok npc { m' with events := m'.events ++ retiredAs npc pc fetch.2.bits } := by
  rw [executeInsn, run_bind]
  cases callFunc P F fetch.1 fetch.2 pc m with
  | error e m' => rfl
  | ok npc m' =>
      dsimp only
      by_cases hbefore : npc = pcSerializeBefore
      · rw [if_neg (not_not.mpr hbefore), retiredAs, if_pos hbefore, List.append_nil]
        rfl
      · rw [if_pos hbefore, retiredAs, if_neg hbefore]
        rfl

/-- **What is recorded.**  An instruction that returns is noted, and nothing else is. -/
theorem ensures_executeInsn_events (pc : Reg) (fetch : Decode.InsnFunc × Insn) (m : Machine β) :
    Ensures (executeInsn P F pc fetch) m
      (fun npc m' => m'.events = m.events ++ retiredAs npc pc fetch.2.bits)
      fun _ m' => m'.events = m.events := by
  have hcall := callFunc_events (P := P) (F := F) pc fetch
  unfold Ensures
  rw [run_executeInsn]
  cases hrun : callFunc P F fetch.1 fetch.2 pc m with
  | error e m' => exact hcall.error hrun
  | ok npc m' =>
      have hsame : m'.events = m.events := hcall.ok hrun
      dsimp only
      rw [hsame]

/-- The call of the handler decides a property that does not look at the events. -/
theorem executeInsn_ensures_of_call {I : Machine β → Prop}
    (hI : ∀ m events, I m → I { m with events := events }) {pc : Reg}
    {fetch : Decode.InsnFunc × Insn} {m : Machine β}
    (h : Ensures (callFunc P F fetch.1 fetch.2 pc) m (fun _ => I) fun _ => I) :
    Ensures (executeInsn P F pc fetch) m (fun _ => I) fun _ => I := by
  refine Ensures.bind (h.imp (fun npc m' hm' => ?_) fun _ _ hm' => hm')
  exact Ensures.ite (fun _ => Ensures.bind (hI m' _ hm')) fun _ => hm'

end SpikeSim.Riscv
