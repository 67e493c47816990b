/-
# Invariants of runs

`LoopRules` lists what has to be shown of the parts of `step` for a property to hold
at every point of a run: one obligation for every part of the loop.  The property
may depend on a condition that the points of the run meet.

`MachineRules` is the list for a property that depends on neither the pc nor the
bookkeeping of the loop.
-/

import SpikeSim.Riscv.CsrEffect
import SpikeSim.Riscv.Run

namespace SpikeSim.Riscv

variable {β : Type}

theorem ensures_lift {α : Type} {x : M β α} {m : Machine β} {l : Locals}
    {Q : α → Machine β × Locals → Prop} {E : Exn → Machine β × Locals → Prop} :
    Ensures (lift x) (m, l) Q E ↔
      Ensures x m (fun a m' => Q a (m', l)) fun e m' => E e (m', l) := by
  unfold Ensures
  rw [run_lift]
  cases x m <;> rfl

/-- The four outcomes of `advance_pc`. -/
theorem ensures_advancePc {m : Machine β} {l : Locals} {Q : Bool → Machine β × Locals → Prop}
    {E : Exn → Machine β × Locals → Prop}
    (hbefore : l.pc = pcSerializeBefore → Q true
      ({ m with hart := { m.hart with serialized := true } }, { l with pc := m.hart.pc }))
    (hafter : l.pc = pcSerializeAfter → Q true (m, ⟨m.hart.pc, l.instret + 1⟩))
    (habort : invalidPc l.pc = true → l.pc ≠ pcSerializeBefore → l.pc ≠ pcSerializeAfter →
      E .abort (m, l))
    (hnext : invalidPc l.pc = false → Q false
      ({ m with hart := { m.hart with pc := l.pc } }, { l with instret := l.instret + 1 })) :
    Ensures advancePc (m, l) Q E := by
  unfold Ensures
  rw [run_advancePc]
  by_cases hinvalid : invalidPc l.pc = true
  · rw [if_pos hinvalid]
    by_cases h3 : l.pc = pcSerializeBefore
    · rw [if_pos h3]
      exact hbefore h3
    · rw [if_neg h3]
      by_cases h5 : l.pc = pcSerializeAfter
      · rw [if_pos h5]
        exact hafter h5
      · rw [if_neg h5]
        exact habort hinvalid h3 h5
  · rw [if_neg hinvalid]
    exact hnext (by simpa using hinvalid)

/-- The obligations for an invariant of the calls of `step`: `Cond` is what the points of the
run meet, `Idle` holds between the rounds, `Inside` in a loop, `After npc` after an instruction
that returned `npc`, and `Good` of the instructions that are fetched. -/
structure StepRules (P : Platform β) (F : SoftFloat) (Cond : Point β → Prop)
    (Idle : Machine β → Prop) (Inside : Machine β × Locals → Prop)
    (After : Reg → Machine β × Locals → Prop) (Good : Decode.InsnFunc × Insn → Prop) : Prop where
  prologue : ∀ {m n left m'}, Cond (.idle m) → Idle m → stepPrologue P n m = .ok left m' → Idle m'
  enter : ∀ {m}, Idle m → Inside (m, ⟨m.hart.pc, 0⟩)
  leave : ∀ {m l}, Inside (m, l) → Idle m
  count : ∀ {m} (k : Reg), Idle m →
    Idle { m with hart := { m.hart with minstret := m.hart.minstret + k } }
  begin : ∀ {n turns m l}, Cond (.slow n turns (m, l)) → Inside (m, l) → Inside (m.beginTurn, l)
  load : ∀ {m l}, Inside (m, l) →
    Ensures (loadInsn P l.pc) m (fun fetch m' => Inside (m', l) ∧ Good fetch)
      fun _ m' => Inside (m', l)
  lookup : ∀ {m l}, Inside (m, l) →
    Ensures (accessIcache P l.pc) m (fun _ m' => Inside (m', l)) fun _ m' => Inside (m', l)
  entry : ∀ {m l} (i : Fin 1024), Inside (m, l) → Good ((m.mmu.icache i).func, (m.mmu.icache i).insn)
  refill : ∀ {m l} (i : Fin 1024), Inside (m, l) →
    Ensures (refillIcache P l.pc i) m (fun _ m' => Inside (m', l)) fun _ m' => Inside (m', l)
  execute : ∀ {site n fetch m l}, Cond (.execute site n fetch (m, l)) → Inside (m, l) →
    Good fetch → Ensures (executeInsn P F l.pc fetch) m (fun npc m' => After npc (m', l))
      fun _ m' => Inside (m', l)
  advance : ∀ {npc m l}, After npc (m, l) →
    Ensures advancePc (m, { l with pc := npc }) (fun _ => Inside) fun _ => Inside
  fall : ∀ {npc m l} {i : Fin 1024}, After npc (m, l) → (m.mmu.icache i).tag = npc →
    Inside ({ m with hart := { m.hart with pc := npc } }, ⟨npc, l.instret + 1⟩)
  finish : ∀ {m l}, Inside (m, l) → m.hart.singleStep = .stepped →
    Ensures finishStep m (fun _ m' => Inside (m', l)) fun _ m' => Inside (m', l)
  unmatch : ∀ {m l}, Inside (m, l) →
    Inside ({ m with mmu := { m.mmu with matchedTrigger := none } }, l)
  trap : ∀ {n t m l}, Cond (.caught n (.trap t) (m, l)) → Inside (m, l) →
    Ensures (catchTrap t l.pc) m (fun _ => Idle) fun _ => Idle
  action : ∀ {n t s}, Cond (.action n t s) → Inside s →
    Ensures (triggerAction t) s (fun _ => Inside) fun _ => Inside

/-- The obligations for an invariant that the rest of the simulator respects as well. -/
structure LoopRules (P : Platform β) (F : SoftFloat) (Cond : Point β → Prop)
    (Idle : Machine β → Prop) (Inside : Machine β × Locals → Prop)
    (After : Reg → Machine β × Locals → Prop) (Good : Decode.InsnFunc × Insn → Prop) : Prop
    extends StepRules P F Cond Idle Inside After Good where
  interfere : ∀ {m m'}, Interferes m m' → Idle m → Idle m'

/-- The step is one of a call of `step`, and not of the rest of the simulator. -/
def InStep (p p' : Point β) : Prop := (∃ n m, p' = .head n m) ∨ ∀ m, p ≠ .idle m

/-- The invariant at a point. -/
def PointInv (Idle : Machine β → Prop) (Inside : Machine β × Locals → Prop)
    (Good : Decode.InsnFunc × Insn → Prop) : Point β → Prop
  | .idle m | .head _ m | .stopped _ m => Idle m
  | .slow _ _ s | .fast _ _ _ s | .caught _ _ s | .action _ _ s => Inside s
  | .execute _ _ fetch s => Inside s ∧ Good fetch

/-- The invariant is about the machine alone. -/
theorem PointInv.machine {I : Machine β → Prop} {Good : Decode.InsnFunc × Insn → Prop}
    {p : Point β} (h : PointInv I (fun s => I s.1) Good p) : I p.machine := by
  cases p with
  | execute site n fetch s => exact h.1
  | idle | head | slow | fast | caught | action | stopped => all_goals exact h

theorem PointInv.of_machine {I : Machine β → Prop} {p : Point β} (h : I p.machine) :
    PointInv I (fun s => I s.1) (fun _ => True) p := by
  cases p with
  | execute site n fetch s => exact ⟨h, trivial⟩
  | idle | head | slow | fast | caught | action | stopped => all_goals exact h

variable {P : Platform β} {F : SoftFloat} {Cond : Point β → Prop} {Idle : Machine β → Prop}
  {Inside : Machine β × Locals → Prop} {After : Reg → Machine β × Locals → Prop}
  {Good : Decode.InsnFunc × Insn → Prop}

namespace StepRules

section Parts

variable (rules : StepRules P F Cond Idle Inside After Good)

include rules

theorem ofRound {m : Machine β} {l : Locals} (n instret : Nat) (h : Inside (m, l)) :
    PointInv Idle Inside Good (.ofRound (endRound n instret m)) :=
  rules.count _ (rules.leave h)

/-- The slow loop after an instruction. -/
theorem slowAfter {npc : Reg} {m : Machine β} {l : Locals} (h : After npc (m, l)) :
    Ensures (Riscv.slowAfter npc) (m, l) (fun _ => Inside) fun _ => Inside := by
  refine Ensures.bind (rules.advance h |>.imp ?_ fun _ _ h => h).bind
  rintro left ⟨m, l⟩ h
  refine Ensures.ite (fun _ => h) fun _ => ?_
  refine Ensures.ite (fun hstepped => ?_) fun _ => h
  refine Ensures.bind (ensures_lift.mpr ?_)
  exact rules.finish h hstepped

/-- The fast loop after the instruction of an entry. -/
theorem fastAfter (n : Nat) (i : Fin 1024) {npc : Reg} {m : Machine β} {l : Locals}
    (h : After npc (m, l)) :
    Ensures (Riscv.fastAfter P n i npc) (m, l) (fun _ => Inside) fun _ => Inside := by
  unfold Riscv.fastAfter
  refine Ensures.bind ?_
  change Ensures (dite _ _ _) (m, { l with pc := npc }) _ _
  have hleft : Ensures (do
      if ← advancePc then return none else return some none : S β (Option (Option (Fin 1024))))
      (m, { l with pc := npc }) (fun _ => Inside) fun _ => Inside := by
    refine Ensures.bind (rules.advance h |>.imp ?_ fun _ _ h => h)
    rintro left s h
    exact Ensures.ite (fun _ => h) fun _ => h
  split
  · refine Ensures.bind ?_
    refine Ensures.ite (fun _ => ?_) fun htag => ?_
    · -- The label `miss`.
      refine Ensures.bind (rules.advance h |>.imp ?_ fun _ _ h => h)
      rintro left ⟨m, l⟩ h
      refine Ensures.ite (fun _ => h) fun _ => ?_
      refine Ensures.ite (fun _ => ?_) fun _ => h
      exact Ensures.bind (ensures_lift.mpr (rules.refill _ h))
    · refine Ensures.ite (fun _ => hleft) fun _ => ?_
      exact rules.fall (l := l) h (not_not.mp htag)
  · exact hleft

theorem restartAfter {npc : Reg} {m : Machine β} {l : Locals} (h : After npc (m, l)) :
    Ensures (Riscv.restartAfter npc) (m, l) (fun _ => Inside) fun _ => Inside := by
  refine Ensures.bind (rules.advance h |>.imp ?_ fun _ _ h => h).bind
  rintro left ⟨m, l⟩ h
  exact Ensures.ite (fun _ => h) fun _ => rules.unmatch h

theorem slowFetch {n turns : Nat} {m : Machine β} {l : Locals}
    (hcond : Cond (.slow n turns (m, l))) (h : Inside (m, l)) :
    Ensures (Riscv.slowFetch P) (m, l) (fun fetch s => Inside s ∧ Good fetch)
      fun _ => Inside := by
  unfold Ensures
  rw [run_slowFetch]
  exact ensures_lift.mpr (rules.load (rules.begin hcond h))

theorem fastLookup (at? : Option (Fin 1024)) {m : Machine β} {l : Locals} (h : Inside (m, l)) :
    Ensures (Riscv.fastLookup P at?) (m, l) (fun _ => Inside) fun _ => Inside := by
  cases at? with
  | some i => exact h
  | none =>
      change Ensures (lift (accessIcache P l.pc) >>= fun _ => pure (icacheIndex l.pc)) (m, l) _ _
      exact Ensures.bind (ensures_lift.mpr (rules.lookup h))

/-- The head of a round. -/
theorem ofHead {m : Machine β} (n : Nat) (h : Idle m) :
    PointInv Idle Inside Good (Point.next P F (.head (n + 1) m)) := by
  have hinterrupt : Ensures takeInterrupt m (fun _ m' => m' = m) fun _ m' => m' = m := by
    change Ensures (if enabledInterrupts m.hart ≠ 0 then throwTrap _ else pure ()) m _ _
    exact Ensures.ite (fun _ => rfl) fun _ => rfl
  rw [Point.next]
  rcases hinterrupt.cases with ⟨_, _, hrun, rfl⟩ | ⟨_, _, hrun, rfl⟩
  · rw [hrun]
    dsimp only
    split
    · exact rules.enter h
    · exact rules.enter h
  · rw [hrun]
    exact rules.enter h

/-- What the loop does with the result of an instruction. -/
theorem ofReturned (site : Site) (n : Nat) {npc : Reg} {m : Machine β} {l : Locals}
    (h : After npc (m, l)) : PointInv Idle Inside Good (.returned P n npc (m, l) site) := by
  cases site with
  | slow turns =>
      rw [Point.returned]
      rcases (rules.slowAfter h).cases with ⟨goesOn, _, hrun, hs⟩ | ⟨_, _, hrun, hs⟩
      · rw [hrun]
        cases goesOn with
        | true => exact hs
        | false => exact rules.ofRound n _ hs
      · rw [hrun]
        exact hs
  | fast turns i =>
      rw [Point.returned]
      rcases (rules.fastAfter n i h).cases with ⟨goesOn, _, hrun, hs⟩ | ⟨_, _, hrun, hs⟩
      · rw [hrun]
        cases goesOn with
        | some _ => exact hs
        | none => exact rules.ofRound n _ hs
      · rw [hrun]
        exact hs
  | restart t =>
      rw [Point.returned]
      rcases (rules.restartAfter h).cases with ⟨left, _, hrun, hs⟩ | ⟨_, _, hrun, hs⟩
      · rw [hrun]
        cases left with
        | true => exact rules.leave hs
        | false => exact hs
      · rw [hrun]
        exact rules.leave hs

theorem ofExecute {site : Site} {n : Nat} {fetch : Decode.InsnFunc × Insn} {m : Machine β}
    {l : Locals} (hcond : Cond (.execute site n fetch (m, l))) (h : Inside (m, l))
    (hgood : Good fetch) :
    PointInv Idle Inside Good (Point.next P F (.execute site n fetch (m, l))) := by
  rw [Point.next]
  rcases (rules.execute hcond h hgood).cases with ⟨_, _, hrun, hs⟩ | ⟨_, _, hrun, hs⟩
  · rw [hrun]
    exact rules.ofReturned site n hs
  · rw [hrun]
    cases site with
    | slow turns => exact hs
    | fast turns i => exact hs
    | restart t => exact rules.leave hs

theorem ofCaught {n : Nat} {e : Exn} {m : Machine β} {l : Locals}
    (hcond : Cond (.caught n e (m, l))) (h : Inside (m, l)) :
    PointInv Idle Inside Good (Point.next P F (.caught n e (m, l))) := by
  cases e with
  | abort => exact rules.leave h
  | trap t =>
      rw [Point.next]
      rcases (rules.trap hcond h).cases with ⟨_, _, hrun, hs⟩ | ⟨_, _, hrun, hs⟩
      · rw [hrun]
        exact rules.count _ hs
      · rw [hrun]
        exact hs
  | trigger t =>
      rw [Point.next]
      split
      · rcases (rules.load h).cases with ⟨_, _, hrun, hs⟩ | ⟨_, _, hrun, hs⟩
        · rw [hrun]
          exact hs
        · rw [hrun]
          exact rules.leave hs
      · exact h

end Parts

/-- A step inside of a call, from a point that meets the condition. -/
theorem next (rules : StepRules P F Cond Idle Inside After Good) {p : Point β}
    (hcall : ∀ m, p ≠ .idle m) (hcond : Cond p) (hp : PointInv Idle Inside Good p) :
    PointInv Idle Inside Good (p.next P F) := by
  cases p with
  | idle m => exact absurd rfl (hcall m)
  | stopped e m => exact hp
  | head n m =>
      cases n with
      | zero => exact hp
      | succ n => exact rules.ofHead n hp
  | slow n turns s =>
      cases turns with
      | zero => exact rules.ofRound n s.2.instret hp
      | succ turns =>
          rw [Point.next]
          rcases (rules.slowFetch hcond hp).cases with ⟨_, _, hrun, hs⟩ | ⟨_, _, hrun, hs⟩
          · rw [hrun]
            exact hs
          · rw [hrun]
            exact hs
  | fast n turns at? s =>
      cases turns with
      | zero => exact rules.ofRound n s.2.instret hp
      | succ turns =>
          rw [Point.next]
          rcases (rules.fastLookup at? hp).cases with ⟨i, _, hrun, hs⟩ | ⟨_, _, hrun, hs⟩
          · rw [hrun]
            exact ⟨hs, rules.entry i hs⟩
          · rw [hrun]
            exact hs
  | execute site n fetch s => exact rules.ofExecute hcond hp.1 hp.2
  | caught n e s => exact rules.ofCaught hcond hp
  | action n t s =>
      rw [Point.next]
      rcases (rules.action hcond hp).cases with ⟨_, _, hrun, hs⟩ | ⟨_, _, hrun, hs⟩
      · rw [hrun]
        exact rules.ofRound n _ hs
      · rw [hrun]
        exact rules.leave hs

end StepRules

namespace LoopRules

/-- **The invariant is preserved** by every step from a point that meets the condition. -/
theorem preserves (rules : LoopRules P F Cond Idle Inside After Good) {p p' : Point β}
    (hcond : InStep p p' → Cond p) (hp : PointInv Idle Inside Good p) (hnext : Next P F p p') :
    PointInv Idle Inside Good p' := by
  cases hnext with
  | interfere h => exact rules.interfere h hp
  | call n h => exact rules.prologue (hcond (.inl ⟨_, _, rfl⟩)) hp h
  | inside _ hcall => exact rules.next hcall (hcond (.inr hcall)) hp

/-- **The invariant holds at every point of a run** whose points meet the condition. -/
theorem run (rules : LoopRules P F Cond Idle Inside After Good) {r : ℕ → Point β} {len : ℕ}
    (hrun : IsRun (Next P F) r len) (hcond : ∀ k < len, InStep (r k) (r (k + 1)) → Cond (r k))
    (hinit : PointInv Idle Inside Good (r 0)) : ∀ k ≤ len, PointInv Idle Inside Good (r k) :=
  hrun.invariant hinit fun k hk hnext h => rules.preserves (hcond k hk) h hnext

end LoopRules

/-! ## Properties of the machine -/

/-- The obligations for a property of the machine that the bookkeeping of the loop does not
touch, as far as the instructions are left out. -/
structure MachineParts (P : Platform β) (I : Machine β → Prop)
    (Good : Decode.InsnFunc × Insn → Prop) : Prop where
  bookkeeping : ∀ {m} (pc minstret : Reg) (serialized : Bool) (singleStep : SingleStep), I m →
    I { m with hart := { m.hart with
      pc := pc, minstret := minstret, serialized := serialized, singleStep := singleStep } }
  unmatch : ∀ {m}, I m → I { m with mmu := { m.mmu with matchedTrigger := none } }
  load : ∀ pc {m}, I m →
    Ensures (loadInsn P pc) m (fun fetch m' => I m' ∧ Good fetch) fun _ => I
  lookup : ∀ pc, Keeps (Stable I) (accessIcache P pc)
  entry : ∀ {m} (i : Fin 1024), I m → Good ((m.mmu.icache i).func, (m.mmu.icache i).insn)
  refill : ∀ pc i, Keeps (Stable I) (refillIcache P pc i)
  enterDebugMode : ∀ cause, Keeps (Stable I) (enterDebugMode cause)
  takeTrap : ∀ t epc, Keeps (Stable I) (takeTrap t epc)

/-- The same, with the instructions. -/
structure MachineStepRules (P : Platform β) (F : SoftFloat) (I : Machine β → Prop)
    (Good : Decode.InsnFunc × Insn → Prop) : Prop extends MachineParts P I Good where
  execute : ∀ pc {fetch}, Good fetch → Keeps (Stable I) (executeInsn P F pc fetch)

/-- The same, with the rest of the simulator. -/
structure MachineRules (P : Platform β) (F : SoftFloat) (I : Machine β → Prop)
    (Good : Decode.InsnFunc × Insn → Prop) : Prop extends MachineStepRules P F I Good where
  interfere : ∀ {m m'}, Interferes m m' → I m → I m'

namespace MachineParts

variable {P : Platform β} {I : Machine β → Prop} {Good : Decode.InsnFunc × Insn → Prop}
  (rules : MachineParts P I Good)

include rules

theorem finishStep : Keeps (Stable I) (Riscv.finishStep : M β Unit) := by
  refine Keeps.bind (Keeps.modify fun m => ?_) fun _ => rules.enterDebugMode .step
  exact rules.bookkeeping m.hart.pc m.hart.minstret m.hart.serialized .none

theorem stepPrologue (n : Nat) : Keeps (Stable I) (Riscv.stepPrologue P n) := by
  refine Keeps.bind keeps_getHart fun h => ?_
  refine Keeps.ite (.pure _) (Keeps.bind .get fun m => ?_)
  refine Keeps.ite (Keeps.bind (rules.enterDebugMode _) fun _ => .pure _) ?_
  refine Keeps.bind keeps_getHart fun h => ?_
  exact Keeps.ite (Keeps.bind (rules.enterDebugMode _) fun _ => .pure _) (.pure _)

theorem catchTrap (t : Trap) (pc : Reg) : Keeps (Stable I) (Riscv.catchTrap t pc : M β Unit) := by
  refine Keeps.bind (rules.takeTrap t pc) fun _ => Keeps.bind keeps_getHart fun h => ?_
  exact Keeps.ite rules.finishStep (.pure _)

theorem triggerAction (t : TriggerMatched) {s : Machine β × Locals} (hs : I s.1) :
    Ensures (Riscv.triggerAction t) s (fun _ s' => I s'.1) fun _ s' => I s'.1 := by
  refine Ensures.bind ?_
  change Ensures (ite _ _ _) s _ _
  refine Ensures.ite (fun _ => ?_) fun _ => Ensures.ite (fun _ => ?_) fun _ => hs
  · exact ensures_lift.mpr ((rules.enterDebugMode _).ensures hs)
  · exact Ensures.bind (ensures_lift.mpr ((rules.takeTrap _ _).ensures hs))

/-- The instructions that the condition lets through keep the property. -/
theorem stepRules {F : SoftFloat} (Cond : Point β → Prop)
    (hexec : ∀ {site n fetch m l}, Cond (.execute site n fetch (m, l)) → I m → Good fetch →
      Ensures (executeInsn P F l.pc fetch) m (fun _ => I) fun _ => I) :
    StepRules P F Cond I (fun s => I s.1) (fun _ s => I s.1) Good where
  prologue _ hm h := (rules.stepPrologue _).ok h hm
  enter h := h
  leave h := h
  count k h := rules.bookkeeping _ _ _ _ h
  begin := by
    intro _ _ m l _ h
    unfold Machine.beginTurn
    split
    · exact rules.bookkeeping _ _ _ _ h
    · exact h
  load h := rules.load _ h
  lookup h := (rules.lookup _).ensures h
  entry i h := rules.entry i h
  refill i h := (rules.refill _ i).ensures h
  execute hcond h hgood := hexec hcond h hgood
  advance h := ensures_advancePc (fun _ => rules.bookkeeping _ _ _ _ h) (fun _ => h)
    (fun _ _ _ => h) fun _ => rules.bookkeeping _ _ _ _ h
  fall h _ := rules.bookkeeping _ _ _ _ h
  finish h _ := rules.finishStep.ensures h
  unmatch h := rules.unmatch h
  trap _ h := (rules.catchTrap _ _).ensures h
  action _ h := rules.triggerAction _ h

end MachineParts

theorem MachineStepRules.stepRules {P : Platform β} {F : SoftFloat} {I : Machine β → Prop}
    {Good : Decode.InsnFunc × Insn → Prop} (rules : MachineStepRules P F I Good) :
    StepRules P F (fun _ => True) I (fun s => I s.1) (fun _ s => I s.1) Good :=
  rules.toMachineParts.stepRules _ fun _ h hgood => (rules.execute _ hgood).ensures h

namespace MachineRules

variable {P : Platform β} {F : SoftFloat} {I : Machine β → Prop}
  {Good : Decode.InsnFunc × Insn → Prop} (rules : MachineRules P F I Good)

include rules

theorem loopRules : LoopRules P F (fun _ => True) I (fun s => I s.1) (fun _ s => I s.1) Good :=
  { rules.stepRules with interfere := rules.interfere }

/-- A step of the hart keeps the property. -/
theorem preserves {p p' : Point β} (hp : PointInv I (fun s => I s.1) Good p)
    (hnext : Next P F p p') : PointInv I (fun s => I s.1) Good p' :=
  rules.loopRules.preserves (fun _ => trivial) hp hnext

/-- The property holds at every point of a run. -/
theorem run {r : ℕ → Point β} {len : ℕ} (hrun : IsRun (Next P F) r len)
    (hinit : PointInv I (fun s => I s.1) Good (r 0)) (k : ℕ) (hk : k ≤ len) :
    I (r k).machine :=
  (hrun.invariant hinit (fun _ _ hnext h => rules.preserves h hnext) k hk).machine

end MachineRules

end SpikeSim.Riscv
