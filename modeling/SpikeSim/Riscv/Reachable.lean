/-
# Reachable states

The states that a hart reaches from its construction, by any calls of `step` and of
its other methods.  `HartRules` lists what has to be shown for a property of the hart
to hold in all of them.
-/

import SpikeSim.Riscv.Fetch
import SpikeSim.Riscv.Isa
import SpikeSim.Riscv.TrapEntry

namespace SpikeSim.Riscv

variable {β : Type}

/-- Calls of the methods of a processor from outside of `step`. -/
inductive MethodCall : Machine β → Machine β → Prop
  | setCsr {m m' : Machine β} (which val : Reg) (h : Ends (setCsr which val) m m') : MethodCall m m'
  | takeTrap {m m' : Machine β} (t : Trap) (epc : Reg) (h : Ends (takeTrap t epc) m m') :
      MethodCall m m'
  | enterDebugMode {m m' : Machine β} (cause : DebugCause) (h : Ends (enterDebugMode cause) m m') :
      MethodCall m m'

/-- The steps of a hart, and calls of its methods between them. -/
inductive HartStep (P : Platform β) (F : SoftFloat) : Point β → Point β → Prop
  | next {p p' : Point β} (h : Next P F p p') : HartStep P F p p'
  | method {m m' : Machine β} (h : MethodCall m m') : HartStep P F (.idle m) (.idle m')

theorem HartStep.eq_next {P : Platform β} {F : SoftFloat} {p q : Point β} (h : HartStep P F p q)
    (hcall : ∀ m, p ≠ .idle m) : q = p.next P F := by
  cases h with
  | next hnext => exact hnext.eq_next hcall
  | method => exact absurd rfl (hcall _)

/-! ## Properties of the points -/

/-- An invariant of the calls of `step` that the other methods keep as well holds at every point
of a run whose points meet the condition. -/
theorem LoopRules.reachable {P : Platform β} {F : SoftFloat} {Cond : Point β → Prop}
    {Idle : Machine β → Prop} {Inside : Machine β × Locals → Prop}
    {After : Reg → Machine β × Locals → Prop} {Good : Decode.InsnFunc × Insn → Prop}
    (rules : LoopRules P F Cond Idle Inside After Good)
    (hmethod : ∀ {m m'}, MethodCall m m' → Idle m → Idle m') {r : ℕ → Point β} {len : ℕ}
    (hrun : IsRun (HartStep P F) r len) (hcond : ∀ k < len, Cond (r k))
    (hinit : PointInv Idle Inside Good (r 0)) : ∀ k ≤ len, PointInv Idle Inside Good (r k) := by
  refine hrun.invariant hinit fun k hk hstep h => ?_
  have hk := hcond k hk
  generalize r k = p, r (k + 1) = p' at hstep h hk
  cases hstep with
  | next hnext => exact rules.preserves (fun _ => hk) h hnext
  | method hcall => exact hmethod hcall h

/-- What a relation that control code respects says about a call of a method. -/
theorem MethodCall.keeps {R : Machine β → Machine β → Prop} {m m' : Machine β}
    (h : MethodCall m m') (hcsr : ∀ which val, Keeps R (Riscv.setCsr which val : M β Unit))
    (htrap : ∀ t epc, Keeps R (Riscv.takeTrap t epc : M β Unit))
    (hdebug : ∀ cause, Keeps R (Riscv.enterDebugMode cause : M β Unit)) : R m m' := by
  cases h with
  | setCsr which val hends => exact (hcsr which val).ends hends
  | takeTrap t epc hends => exact (htrap t epc).ends hends
  | enterDebugMode cause hends => exact (hdebug cause).ends hends

/-- A property of the machine that writes of CSRs keep as well holds in every state that is
reached. -/
theorem MachineRules.reachable {P : Platform β} {F : SoftFloat} {I : Machine β → Prop}
    {Good : Decode.InsnFunc × Insn → Prop} (rules : MachineRules P F I Good)
    (hcsr : ∀ which val, Keeps (Stable I) (setCsr which val : M β Unit)) {r : ℕ → Point β} {len : ℕ}
    (hrun : IsRun (HartStep P F) r len) (hinit : PointInv I (fun s => I s.1) Good (r 0)) :
    ∀ k ≤ len, I (r k).machine := by
  have hmethod {m m' : Machine β} (hcall : MethodCall m m') (h : I m) : I m' :=
    hcall.keeps hcsr rules.takeTrap rules.enterDebugMode h
  intro k hk
  exact (rules.loopRules.reachable hmethod hrun (fun _ _ => trivial) hinit k hk).machine

/-! ## Properties of the hart -/

/-- The obligations for a property of the hart at a width. -/
structure HartRules (P : Platform β) (F : SoftFloat) (xlen : Xlen) (J : Hart → Prop) : Prop where
  interfere : ∀ {h} (mip : Reg) (debug : Bool) (reservation : Reg), J h →
    J { h with mip := mip, debug := debug, loadReservation := reservation }
  bookkeeping : ∀ {h} (pc minstret : Reg) (serialized : Bool) (singleStep : SingleStep), J h →
    J { h with pc := pc, minstret := minstret, serialized := serialized, singleStep := singleStep }
  execute : ∀ pc {fetch}, Fetched xlen fetch →
    Keeps (Stable fun m => J m.hart) (executeInsn P F pc fetch)
  enterDebugMode : ∀ cause, Keeps (Stable fun m => J m.hart) (enterDebugMode cause : M β Unit)
  takeTrap : ∀ t epc, Keeps (Stable fun m => J m.hart) (takeTrap t epc : M β Unit)
  setCsr : ∀ which val, Keeps (Stable fun m => J m.hart) (setCsr which val : M β Unit)

theorem keeps_code_and {rocc : Bool} {xlen : Xlen} {J : Hart → Prop} {α : Type}
    {x : M β α} (hcode : Keeps SameCode x) (hJ : Keeps (Stable fun m => J m.hart) x) :
    Keeps (Stable fun m => CodeInv rocc xlen m ∧ J m.hart) x where
  ok hx h := ⟨h.1.same (hcode.ok hx), hJ.ok hx h.2⟩
  error hx h := ⟨h.1.same (hcode.error hx), hJ.error hx h.2⟩

/-- A property of the hart holds along with that of its code. -/
theorem HartRules.machineRules {P : Platform β} {F : SoftFloat} {rocc : Bool} {xlen : Xlen}
    {J : Hart → Prop} (rules : HartRules P F xlen J) :
    MachineRules P F (fun m => CodeInv rocc xlen m ∧ J m.hart) (Fetched xlen) where
  interfere := by
    rintro m m' hm ⟨hinv, hJ⟩
    obtain ⟨mip, debug, reservation, -, hhart⟩ := hm.hart
    refine ⟨hinv.same (.of_icache hm.decoder ?_ (.inl ?_) ?_), ?_⟩
    · rw [hhart]
    · rw [hhart]
    · rw [hm.mmu]
    · rw [hhart]
      exact rules.interfere mip debug reservation hJ
  bookkeeping := by
    rintro m pc minstret serialized singleStep ⟨hinv, hJ⟩
    exact ⟨hinv.same (.of_icache rfl rfl (.inl rfl) rfl), rules.bookkeeping _ _ _ _ hJ⟩
  unmatch := by
    rintro m ⟨hinv, hJ⟩
    exact ⟨hinv.same (.of_icache rfl rfl (.inl rfl) rfl), hJ⟩
  load := by
    rintro pc m ⟨hinv, hJ⟩
    refine (ensures_loadInsn hinv pc).imp ?_ ?_
    · rintro fetch m' ⟨hfetched, hinv', hframe⟩
      exact ⟨⟨hinv', hframe.hart ▸ hJ⟩, hfetched⟩
    · rintro e m' ⟨hinv', hframe⟩
      exact ⟨hinv', hframe.hart ▸ hJ⟩
  lookup pc := by
    refine keeps_stable_iff.mpr fun m ⟨hinv, hJ⟩ => ?_
    refine (ensures_accessIcache hinv pc).imp ?_ ?_
    all_goals
      rintro _ m' ⟨hinv', hframe⟩
      exact ⟨hinv', hframe.hart ▸ hJ⟩
  entry i h := h.1.icache i
  refill pc i := by
    refine keeps_stable_iff.mpr fun m ⟨hinv, hJ⟩ => ?_
    refine (ensures_refillIcache hinv pc i).imp ?_ ?_
    all_goals
      rintro _ m' ⟨hinv', hframe⟩
      exact ⟨hinv', hframe.hart ▸ hJ⟩
  execute pc _ hfetched := keeps_code_and (executeInsn_sameCode F pc _) (rules.execute pc hfetched)
  enterDebugMode cause := keeps_code_and (enterDebugMode_sameCode cause) (rules.enterDebugMode cause)
  takeTrap t epc := keeps_code_and (takeTrap_sameCode t epc) (rules.takeTrap t epc)

/-- A property that holds after construction holds in every state that is reached. -/
theorem HartRules.reachable {P : Platform β} {F : SoftFloat} {J : Hart → Prop} {cfg : IsaConfig}
    (rules : HartRules P F cfg.maxXlen J) {halt : Bool} {dram : Reg → BitVec 8} {dev : β}
    (hJ : J (cfg.machine halt dram dev).hart) {r : ℕ → Point β} {len : ℕ}
    (hrun : IsRun (HartStep P F) r len) (hinit : r 0 = .idle (cfg.machine halt dram dev)) :
    ∀ k ≤ len, J (r k).machine.hart := by
  let I : Machine β → Prop := fun m => CodeInv cfg.ext cfg.maxXlen m ∧ J m.hart
  have hrules : MachineRules P F I (Fetched cfg.maxXlen) := rules.machineRules
  have hcsr (which val : Reg) : Keeps (Stable I) (Riscv.setCsr which val : M β Unit) :=
    keeps_code_and (setCsr_sameCode which val) (rules.setCsr which val)
  have hstart : PointInv I (fun s => I s.1) (Fetched cfg.maxXlen) (r 0) := by
    rw [hinit]
    refine ⟨(codeInv_reset cfg.ext cfg.maxXlen cfg.isa halt dram dev).same ?_, hJ⟩
    exact .of_icache rfl rfl (.inl rfl) rfl
  exact fun k hk => (hrules.reachable hcsr hrun hstart k hk).2

/-! ## Properties of the hart and its events -/

/-- A property of the hart and of what has happened. -/
abbrev Machine.Holds (J : Hart → List Event → Prop) (m : Machine β) : Prop := J m.hart m.events

/-- The obligations for such a property in runs whose points meet a condition. -/
structure EventRules (P : Platform β) (F : SoftFloat) (Cond : Point β → Prop)
    (J : Hart → List Event → Prop) : Prop where
  interfere : ∀ {h events} (mip : Reg) (debug : Bool) (reservation : Reg),
    reservation = h.loadReservation ∨ reservation = -1 → J h events →
      J { h with mip := mip, debug := debug, loadReservation := reservation } events
  bookkeeping : ∀ {h events} (pc minstret : Reg) (serialized : Bool), J h events →
    J { h with pc := pc, minstret := minstret, serialized := serialized } events
  prologue : ∀ {m n left m'}, Cond (.idle m) → m.Holds J → stepPrologue P n m = .ok left m' →
    m'.Holds J
  begin : ∀ {n turns m l}, Cond (.slow n turns (m, l)) → m.Holds J →
    m.hart.singleStep = .stepping → J { m.hart with singleStep := .stepped } m.events
  execute : ∀ {site n fetch m l}, Cond (.execute site n fetch (m, l)) → m.Holds J →
    Ensures (executeInsn P F l.pc fetch) m (fun _ m' => m'.Holds J) fun _ m' => m'.Holds J
  finish : ∀ {h events}, J h events → h.singleStep = .stepped →
    J ({ h with singleStep := .none }.afterDebugEntry .step) (events ++ [.debugEntered h.dcsr.cause])
  trap : ∀ {n t m l m'}, Cond (.caught n (.trap t) (m, l)) → m.Holds J →
    takeTrap t l.pc m = .ok () m' → m'.Holds J
  action : ∀ {n t s}, Cond (.action n t s) → s.1.Holds J →
    Ensures (triggerAction t) s (fun _ s' => s'.1.Holds J) fun _ s' => s'.1.Holds J

/-- A fetch does not matter to such a property. -/
theorem FetchKept.holds {J : Hart → List Event → Prop} {m m' : Machine β} (h : FetchKept m m')
    (hm : m.Holds J) : m'.Holds J := by
  unfold Machine.Holds at hm ⊢
  rw [h.hart, h.events]
  exact hm

theorem EventRules.loopRules {P : Platform β} {F : SoftFloat} {Cond : Point β → Prop}
    {J : Hart → List Event → Prop} (rules : EventRules P F Cond J) :
    LoopRules P F Cond (Machine.Holds J) (fun s => s.1.Holds J) (fun _ s => s.1.Holds J)
      fun _ => True := by
  have hfetch {α : Type} {x : M β α} {Q : α → Machine β → Prop} (hx : Keeps FetchKept x)
      {m : Machine β} (hm : m.Holds J) (hQ : ∀ a m', m'.Holds J → Q a m') :
      Ensures x m Q fun _ m' => m'.Holds J :=
    ensures_iff.mpr ⟨fun a m' h => hQ a m' ((hx.ok h).holds hm), fun e m' h => (hx.error h).holds hm⟩
  have hfinish {m : Machine β} (hm : m.Holds J) (hstep : m.hart.singleStep = .stepped) :
      Ensures finishStep m (fun _ m' => m'.Holds J) fun _ m' => m'.Holds J :=
    Ensures.bind (rules.finish hm hstep)
  exact {
    interfere := by
      intro m m' h hm
      obtain ⟨mip, debug, reservation, hreservation, hhart⟩ := h.hart
      unfold Machine.Holds at hm ⊢
      rw [hhart, h.events]
      exact rules.interfere mip debug reservation hreservation hm
    prologue := rules.prologue
    enter := fun h => h
    leave := fun h => h
    count := fun k h => rules.bookkeeping _ _ _ h
    begin := by
      intro n turns m l hcond hm
      unfold Machine.beginTurn
      split
      · exact rules.begin hcond hm ‹_›
      · exact hm
    load := fun hm => hfetch ((refillKeeps_kept P).loadInsn _) hm fun _ _ h => ⟨h, trivial⟩
    lookup := fun hm => hfetch ((refillKeeps_kept P).accessIcache _) hm fun _ _ h => h
    entry := fun _ _ => trivial
    refill := fun i hm => hfetch ((refillKeeps_kept P).refillIcache _ i) hm fun _ _ h => h
    execute := fun hcond hm _ => rules.execute hcond hm
    advance := fun hm => ensures_advancePc (fun _ => rules.bookkeeping _ _ _ hm) (fun _ => hm)
      (fun _ _ _ => hm) fun _ => rules.bookkeeping _ _ _ hm
    fall := fun hm _ => rules.bookkeeping _ _ _ hm
    finish := hfinish
    unmatch := fun hm => hm
    trap := by
      intro n t m l hcond hm
      refine Ensures.bind (ensures_iff.mpr ⟨fun _ m' h => ?_, fun e m' h => ?_⟩)
      · have hm' := rules.trap hcond hm h
        exact Ensures.bind (Ensures.ite (fun hstep => hfinish hm' hstep) fun _ => hm')
      · obtain ⟨m'', hok⟩ := takeTrap_returns t l.pc m
        rw [hok] at h
        cases h
    action := rules.action }

end SpikeSim.Riscv
