/-
# Debug mode

A hart is in debug mode from `enter_debug_mode` until `dret`, and runs the code of the
debug module meanwhile.  Two things should not happen there: an interrupt that takes
the hart off that code, and a second entry, which would lose the pc of the program.
The code prevents neither in general; this module says when they do not happen.
-/

import SpikeSim.Riscv.Interrupt
import SpikeSim.Riscv.Reachable
import SpikeSim.Riscv.Triggers

namespace SpikeSim.Riscv

variable {β : Type}

/-- In debug mode a call of `step` starts at once. -/
theorem run_stepPrologue_inDebugMode (P : Platform β) {m : Machine β}
    (hdebug : m.hart.inDebugMode = true) (n : Nat) :
    stepPrologue P n m = .ok (min n 11) m := by
  unfold stepPrologue
  rw [run_bind, run_getHart]
  exact congrFun (if_pos hdebug) m

/-! ## Interrupts -/

/-- In debug mode the trap of an interrupt goes to the exception entry of the debug ROM. -/
theorem takeTrap_interrupt_inDebugMode {m : Machine β} (hdebug : m.hart.inDebugMode = true)
    (maxXlen : Xlen) (i : Nat) (epc : Reg) :
    takeTrap ⟨interruptCause maxXlen i, none⟩ epc m = .ok ()
      { m with
        hart := { m.hart with pc := debugRomException }
        events := m.events ++ [.trapTaken (interruptCause maxXlen i) epc] } := by
  apply run_takeTrap_inDebugMode hdebug
  exact fun h => interruptCause_ne_breakpoint _ _ h.1

/-- A call of `step` that an interrupt has diverted in debug mode: it ends at the exception
entry, and nothing was retired. -/
def Diverted (m : Machine β) (p : Point β) : Prop :=
  ∃ cause m', p = .head 0 m' ∧ m'.hart = { m.hart with pc := debugRomException } ∧
    m'.events = m.events ++ [.trapTaken cause m.hart.pc]

variable {P : Platform β} {F : SoftFloat}

/-- The head of a round in debug mode. -/
theorem head_inDebugMode {m : Machine β} (hdebug : m.hart.inDebugMode = true) (n : Nat) :
    (takeInterrupt m = .ok () m ∧ (∀ i, ¬InterruptEnabled m.hart i) ∧
      Point.next P F (.head (n + 1) m) = .slow (n + 1) (n + 1) (m, ⟨m.hart.pc, 0⟩)) ∨
    ∃ i e, InterruptEnabled m.hart i ∧ takeInterrupt m = .error e m ∧
      Point.next P F (.head (n + 1) m) = .caught (n + 1) e (m, ⟨m.hart.pc, 0⟩) ∧
      (m.hart.singleStep ≠ .stepped →
        Diverted m (Point.next P F (.caught (n + 1) e (m, ⟨m.hart.pc, 0⟩)))) := by
  rcases takeInterrupt_cases m with ⟨hok, hnone⟩ | ⟨i, hselected, herror⟩
  · left
    refine ⟨hok, hnone, ?_⟩
    have hslow : m.hart.slowPath = true := by
      rw [Hart.slowPath, hdebug, Bool.or_true]
    rw [Point.next, hok]
    exact if_pos hslow
  · right
    refine ⟨i, _, hselected.enabled, herror, ?_, fun hstep => ?_⟩
    · rw [Point.next, herror]
    · have hcatch : catchTrap ⟨interruptCause m.hart.maxXlen i, none⟩ m.hart.pc m = .ok ()
          { m with
            hart := { m.hart with pc := debugRomException }
            events := m.events ++ [.trapTaken (interruptCause m.hart.maxXlen i) m.hart.pc] } := by
        unfold catchTrap
        rw [run_bind, takeTrap_interrupt_inDebugMode hdebug]
        exact congrFun (if_neg hstep) _
      rw [Point.next]
      simp only [hcatch]
      refine ⟨_, _, rfl, ?_, rfl⟩
      simp

/-- **Interrupts in debug mode.**  In every run, the hart goes on with the instruction at its
pc exactly if no interrupt is enabled.  Otherwise the call ends, without an instruction, at
the exception entry of the debug ROM. -/
theorem debug_mode_goes_on_iff {r : ℕ → Point β} {len : ℕ} (hrun : IsRun (HartStep P F) r len) :
    ∀ k < len, ∀ n m, r k = .head (n + 1) m → m.hart.inDebugMode = true →
      ((takeInterrupt m = .ok () m ∧ r (k + 1) = .slow (n + 1) (n + 1) (m, ⟨m.hart.pc, 0⟩)) ↔
        ∀ i, ¬InterruptEnabled m.hart i) ∧
      ((∃ i, InterruptEnabled m.hart i) → m.hart.singleStep ≠ .stepped → k + 1 < len →
        Diverted m (r (k + 2))) := by
  intro k hk n m hhead hdebug
  have hnext : r (k + 1) = Point.next P F (.head (n + 1) m) := by
    rw [← hhead]
    apply (hrun k hk).eq_next
    rw [hhead]
    simp
  rcases head_inDebugMode (P := P) (F := F) hdebug n with
    ⟨hok, hnone, hslow⟩ | ⟨i, e, henabled, herror, hcaught, hdiverted⟩
  · refine ⟨⟨fun _ => hnone, fun _ => ⟨hok, hnext.trans hslow⟩⟩, ?_⟩
    rintro ⟨i, hi⟩
    exact absurd hi (hnone i)
  · constructor
    · constructor
      · rintro ⟨hok, -⟩
        rw [herror] at hok
        cases hok
      · intro hnone
        exact absurd henabled (hnone i)
    · intro _ hstep hk'
      have hcaught' := hnext.trans hcaught
      have hnext' : r (k + 1 + 1) = Point.next P F (r (k + 1)) := by
        apply (hrun (k + 1) hk').eq_next
        rw [hcaught']
        simp
      rw [hnext', hcaught']
      exact hdiverted hstep

/-- A hart that is halted from its construction on enters debug mode in the first call. -/
theorem halted_hart_run :
    let m₀ : Machine Unit := IsaConfig.machine ⟨.rv64, 0x8000000000141129, false⟩ true (fun _ => 0) ()
    ∃ m r, IsRun (Next .bare .zeros) r 4 ∧ r 0 = .idle m₀ ∧ r 1 = .head 0 m ∧ r 2 = .idle m ∧
      r 3 = .head 1 m ∧ m.hart.inDebugMode = true ∧ m.hart.pc = debugRomStart ∧
      m.hart.mip = 0 := by
  intro m₀
  have hrun : (match stepPrologue .bare 0 m₀ with
      | .ok left m => some ((left, m.hart.pc), m.hart.inDebugMode, m.hart.mip)
      | .error .. => none) = some ((0, debugRomStart), true, 0) := by decide +kernel
  split at hrun
  · rename_i left m hprologue
    simp only [Option.some.injEq, Prod.mk.injEq] at hrun
    obtain ⟨⟨rfl, hpc⟩, hdebug, hmip⟩ := hrun
    let r : ℕ → Point Unit
      | 0 => .idle m₀
      | 1 => .head 0 m
      | 2 => .idle m
      | 3 => .head 1 m
      | _ => Point.next .bare .zeros (.head 1 m)
    refine ⟨m, r, ?_, rfl, rfl, rfl, rfl, hdebug, hpc, hmip⟩
    intro k hk
    match k with
    | 0 => exact .call 0 hprologue
    | 1 => exact .inside (.head 0 m) (by simp)
    | 2 => exact .call 1 (run_stepPrologue_inDebugMode _ hdebug 1)
    | 3 => exact .inside (.head 1 m) (by simp)
  · cases hrun

/-- With no interrupt enabled it goes on at the entry of the debug ROM. -/
theorem halted_hart_goes_on :
    let m₀ : Machine Unit := IsaConfig.machine ⟨.rv64, 0x8000000000141129, false⟩ true (fun _ => 0) ()
    ∃ m r, IsRun (HartStep .bare .zeros) r 4 ∧ r 0 = .idle m₀ ∧ r 3 = .head 1 m ∧
      m.hart.inDebugMode = true ∧ r 4 = .slow 1 1 (m, ⟨debugRomStart, 0⟩) := by
  intro m₀
  obtain ⟨m, r, hrun, hinit, -, -, hhead, hdebug, hpc, hmip⟩ := halted_hart_run
  have hsteps : IsRun (HartStep .bare .zeros) r 4 := fun k hk => .next (hrun k hk)
  refine ⟨m, r, hsteps, hinit, hhead, hdebug, ?_⟩
  rw [← hpc]
  apply (((debug_mode_goes_on_iff hsteps 3 (by decide) 0 m hhead hdebug).1).mpr _).2
  rintro i ⟨hpending, -⟩
  rw [hmip] at hpending
  simp at hpending

/-- A halted hart with the timer interrupt enabled: the interrupt becomes pending, and the next
call of `step` goes to the exception entry. -/
theorem timer_interrupt_diverts_debug_mode :
    let m₀ : Machine Unit := IsaConfig.machine ⟨.rv64, 0x8000000000141129, false⟩ true (fun _ => 0) ()
    ∃ m, Relation.ReflTransGen (HartStep .bare .zeros) (.idle m₀) (.head 1 m) ∧
      m.hart.inDebugMode = true ∧ m.hart.pc = debugRomStart ∧
      (∃ e, takeInterrupt m = .error e m) ∧
      Diverted m (Point.next .bare .zeros (Point.next .bare .zeros (.head 1 m))) := by
  intro m₀
  let prepare : M Unit Nat := do
    setCsr Csr.mstatus.num mstatusMie
    setCsr Csr.mie.num mipMtip
    stepPrologue .bare 0
  have hrun : (match prepare m₀ with
      | .ok left m => some ((left, m.hart.pc, m.hart.mie, m.hart.mideleg),
          m.hart.inDebugMode, hasField m.hart.mstatus mstatusMie, m.hart.singleStep)
      | .error .. => none) =
        some ((0, debugRomStart, mipMtip, 0), true, true, .none) := by decide +kernel
  split at hrun
  · rename_i left m₃ hprepare
    simp only [Option.some.injEq, Prod.mk.injEq] at hrun
    obtain ⟨⟨rfl, hpc, hmie, hmideleg⟩, hdebug, henable, hstep⟩ := hrun
    obtain ⟨_, m₁, hset₁, hrest⟩ := bind_ok hprepare
    obtain ⟨_, m₂, hset₂, hprologue⟩ := bind_ok hrest
    let m : Machine Unit := { m₃ with hart := { m₃.hart with mip := mipMtip } }
    have hdebug' : m.hart.inDebugMode = true := hdebug
    have henabled : InterruptEnabled m.hart 7 := by
      constructor
      · change (mipMtip &&& m₃.hart.mie).getLsbD 7 = true
        rw [hmie]
        decide
      · change if m₃.hart.mideleg.getLsbD 7 then _ else _
        rw [hmideleg]
        exact .inr henable
    have hpath : Relation.ReflTransGen (HartStep .bare .zeros) (.idle m₀) (.head 1 m) := by
      have hset : Relation.ReflTransGen (HartStep .bare .zeros) (.idle m₀) (.idle m₂) :=
        .tail (.single (.method (.setCsr _ _ (.inl ⟨(), hset₁⟩))))
          (.method (.setCsr _ _ (.inl ⟨(), hset₂⟩)))
      have hhalt : Relation.ReflTransGen (HartStep .bare .zeros) (.idle m₂) (.idle m₃) :=
        .tail (.single (.next (.call 0 hprologue))) (.next (.inside _ (by simp)))
      have hpending : HartStep .bare .zeros (.idle m₃) (.idle m) :=
        .next (.interfere ⟨⟨mipMtip, _, _, .inl rfl, rfl⟩, rfl, rfl, rfl⟩)
      have hcall : stepPrologue .bare 1 m = .ok 1 m := run_stepPrologue_inDebugMode _ hdebug' 1
      exact ((hset.trans hhalt).tail hpending).tail (.next (.call 1 hcall))
    refine ⟨m, hpath, hdebug', hpc, ?_⟩
    rcases head_inDebugMode (P := .bare) (F := .zeros) hdebug' 0 with
      ⟨-, hnone, -⟩ | ⟨i, e, -, herror, hcaught, hdiverted⟩
    · exact absurd henabled (hnone 7)
    · refine ⟨⟨e, herror⟩, ?_⟩
      rw [hcaught]
      apply hdiverted
      change m₃.hart.singleStep ≠ .stepped
      rw [hstep]
      decide
  · cases hrun

/-! ## Entries -/

/-- Wherever the code is about to enter debug mode, the hart is outside of it and no single
step is under way. -/
def EntryClear (P : Platform β) : Point β → Prop
  | .idle m => m.hart.inDebugMode = false →
      P.debugInterrupt m.dev = true ∨ m.hart.dcsr.halt = true → m.hart.singleStep = .none
  | .caught _ (.trap t) (m, _) => t.cause = 3 → ebreakEnters m.hart = true →
      m.hart.inDebugMode = false ∧ m.hart.singleStep = .none
  | .action _ t (m, _) =>
      (m.hart.mcontrol t.index).action = 1 ∨
        (m.hart.mcontrol t.index).action = 0 ∧ ebreakEnters m.hart = true →
      m.hart.singleStep = .none
  | _ => True

/-- In debug mode no single step is under way, and every entry was from outside. -/
structure EntriesOutside (h : Hart) (events : List Event) : Prop where
  single : h.inDebugMode = true → h.singleStep = .none
  entries : ∀ prior, .debugEntered prior ∈ events → prior = .none

namespace EntriesOutside

theorem cause_none {h : Hart} (hout : h.inDebugMode = false) : h.dcsr.cause = .none := by
  simpa [Hart.inDebugMode] using hout

/-- An entry from outside. -/
theorem enter {h : Hart} {events : List Event} (hinv : EntriesOutside h events)
    (hout : h.inDebugMode = false) (hstep : h.singleStep = .none) (cause : DebugCause) :
    EntriesOutside (h.afterDebugEntry cause) (events ++ [.debugEntered h.dcsr.cause]) where
  single _ := hstep
  entries prior hmem := by
    rcases List.mem_append.mp hmem with hold | hnew
    · exact hinv.entries prior hold
    · cases List.mem_singleton.mp hnew
      exact cause_none hout

/-- A trap that is recorded. -/
theorem record {h : Hart} {events : List Event} (hinv : EntriesOutside h events) (cause epc : Reg) :
    EntriesOutside h (events ++ [.trapTaken cause epc]) where
  single := hinv.single
  entries prior hmem := by
    rcases List.mem_append.mp hmem with hold | hnew
    · exact hinv.entries prior hold
    · cases List.mem_singleton.mp hnew

/-- Debug mode and the single step are as before. -/
theorem of_same {h h' : Hart} {events : List Event} (hinv : EntriesOutside h events)
    (hcause : h'.dcsr.cause = h.dcsr.cause) (hstep : h'.singleStep = h.singleStep) :
    EntriesOutside h' events where
  single hdebug := by
    rw [hstep]
    apply hinv.single
    rwa [Hart.inDebugMode, hcause] at hdebug
  entries := hinv.entries

theorem of_debugKept {m m' : Machine β} (hinv : m.Holds EntriesOutside) (h : DebugKept m m') :
    m'.Holds EntriesOutside where
  single hdebug := by
    rcases h.mode with ⟨hcause, hstep⟩ | ⟨hcause, -⟩
    · rw [hstep]
      apply hinv.single
      rwa [Hart.inDebugMode, hcause] at hdebug
    · rw [Hart.inDebugMode, hcause] at hdebug
      cases hdebug
  entries prior hmem := hinv.entries prior (h.entries prior hmem)

/-- A trap: a breakpoint enters debug mode only as the condition allows. -/
theorem takeTrap {t : Trap} {epc : Reg} {m m' : Machine β} (hinv : m.Holds EntriesOutside)
    (hclear : t.cause = 3 → ebreakEnters m.hart = true →
      m.hart.inDebugMode = false ∧ m.hart.singleStep = .none)
    (h : takeTrap t epc m = .ok () m') : m'.Holds EntriesOutside := by
  by_cases henters : t.cause = 3 ∧ ebreakEnters m.hart
  · obtain ⟨hout, hstep⟩ := hclear henters.1 henters.2
    rw [run_takeTrap_enters henters] at h
    cases h
    exact (hinv.record t.cause epc).enter hout hstep .swbp
  · cases hdebug : m.hart.inDebugMode with
    | true =>
        rw [run_takeTrap_inDebugMode hdebug henters] at h
        cases h
        exact (hinv.record t.cause epc).of_same rfl rfl
    | false =>
        rw [run_takeTrap t epc hdebug henters] at h
        cases h
        obtain ⟨hdcsr, -, hstep⟩ := afterTrap_debug m.hart t epc
        exact (hinv.record t.cause epc).of_same (congrArg Dcsr.cause hdcsr) hstep

/-- The start of a call. -/
theorem stepPrologue {P : Platform β} {n left : Nat} {m m' : Machine β}
    (hinv : m.Holds EntriesOutside) (hclear : EntryClear P (.idle m))
    (h : stepPrologue P n m = .ok left m') : m'.Holds EntriesOutside := by
  cases hdebug : m.hart.inDebugMode with
  | true =>
      rw [run_stepPrologue_inDebugMode P hdebug] at h
      cases h
      exact hinv
  | false =>
      simp only [Riscv.stepPrologue, run_bind, run_getHart, run_get, hdebug, Bool.false_eq_true,
        if_false] at h
      split at h
      · rename_i hline
        cases h
        exact hinv.enter hdebug (hclear hdebug (.inl hline)) _
      · simp only [run_bind, run_getHart] at h
        split at h
        · rename_i hhalt
          cases h
          exact hinv.enter hdebug (hclear hdebug (.inr hhalt)) _
        · cases h
          exact hinv

/-- The action of a trigger, which is thrown outside of debug mode. -/
theorem triggerAction {n : Nat} {t : TriggerMatched} {s : Machine β × Locals} {P : Platform β}
    (hinv : s.1.Holds EntriesOutside) (hclear : EntryClear P (.action n t s))
    (hout : s.1.hart.inDebugMode = false) :
    Ensures (triggerAction t) s (fun _ s' => s'.1.Holds EntriesOutside)
      fun _ s' => s'.1.Holds EntriesOutside := by
  obtain ⟨m, l⟩ := s
  apply Ensures.bind
  change Ensures (ite _ _ _) (m, l) _ _
  refine Ensures.ite (fun haction => ?_) fun _ => Ensures.ite (fun haction => ?_) fun _ => hinv
  · exact hinv.enter hout (hclear (.inl haction)) .hwbp
  · refine Ensures.bind (ensures_lift.mpr (ensures_iff.mpr ⟨fun _ m' h => ?_, fun e m' h => ?_⟩))
    · exact hinv.takeTrap (fun _ henters => ⟨hout, hclear (.inr ⟨haction, henters⟩)⟩) h
    · obtain ⟨m'', hok⟩ := takeTrap_returns ⟨3, some t.address⟩ l.pc m
      rw [hok] at h
      cases h

end EntriesOutside

/-- The condition under which debug mode is entered from outside only. -/
def EntersOutside (P : Platform β) (p : Point β) : Prop := EntryClear P p ∧ OutsideAtTrigger p

theorem eventRules_entriesOutside (P : Platform β) (F : SoftFloat) :
    EventRules P F (EntersOutside P) EntriesOutside where
  interfere _ _ _ _ h := h.of_same rfl rfl
  bookkeeping _ _ _ h := h.of_same rfl rfl
  prologue hcond h hrun := h.stepPrologue hcond.1 hrun
  begin := by
    intro n turns m l _ h hstepping
    refine ⟨fun hdebug => ?_, h.entries⟩
    rw [h.single hdebug] at hstepping
    cases hstepping
  execute := by
    intro site n fetch m l _ h
    have hkept := executeInsn_debugKept P F l.pc fetch
    exact ensures_iff.mpr ⟨fun _ _ hrun => h.of_debugKept (hkept.ok hrun),
      fun _ _ hrun => h.of_debugKept (hkept.error hrun)⟩
  finish := by
    intro hart events h hstepped
    have hout : hart.inDebugMode = false := by
      cases hdebug : hart.inDebugMode with
      | false => rfl
      | true =>
          rw [h.single hdebug] at hstepped
          cases hstepped
    exact EntriesOutside.enter (h := { hart with singleStep := .none }) ⟨fun _ => rfl, h.entries⟩
      hout rfl .step
  trap hcond h hrun := h.takeTrap hcond.1 hrun
  action hcond h := h.triggerAction hcond.1 hcond.2

/-! ## What is saved of the program -/

/-- The pc and the level of the program that was interrupted. -/
def Hart.saved (h : Hart) : Reg × Prv := (h.dpc, h.dcsr.prv)

/-- They are the same. -/
def SameSaved (m m' : Machine β) : Prop := m'.hart.saved = m.hart.saved

instance : Std.Refl (SameSaved (β := β)) := ⟨fun _ => rfl⟩

instance : IsTrans (Machine β) SameSaved := ⟨fun _ _ _ hab hbc => Eq.trans hbc hab⟩

theorem flushTlb_saved : Keeps SameSaved (flushTlb : M β Unit) :=
  .bind (.modify fun _ => rfl) fun _ => .modify fun _ => rfl

theorem setMstatus_saved (val : Reg) : Keeps SameSaved (setMstatus val : M β Unit) := by
  refine .bind keeps_getHart fun h => .ite (.bind flushTlb_saved fun _ => ?_) ?_
  all_goals exact .modify fun m => rfl

theorem writeCsr_saved {csr : Csr} (hdcsr : csr ≠ .dcsr) (hdpc : csr ≠ .dpc) (val : Reg) :
    Keeps SameSaved (writeCsr csr val : M β Unit) := by
  refine .bind keeps_getHart fun h => ?_
  cases csr
  case dcsr => exact absurd rfl hdcsr
  case dpc => exact absurd rfl hdpc
  case mstatus | sstatus => all_goals exact setMstatus_saved _
  case sptbr =>
    refine .ite (.bind (.throw _) fun _ => ?_) ?_
    all_goals exact .modify fun _ => rfl
  case tselect => exact .ite (.modify fun _ => rfl) (.pure _)
  case tdata1 =>
    refine .ite (.pure _) (.bind (.modify fun _ => rfl) fun _ => ?_)
    exact .bind flushTlb_saved fun _ => .bind keeps_getHart fun h => .modify fun _ => rfl
  case tdata2 => exact .ite (.pure _) (.modify fun _ => rfl)
  case cycle | instret | tdata3 | mvendorid | marchid | mimpid | mhartid =>
    all_goals exact .pure _
  all_goals exact .modify fun _ => rfl

/-- The acts that do not write the saved registers. -/
def Act.KeepsSaved : Act → Prop
  | .setCsr which _ => which ≠ Csr.dcsr.num ∧ which ≠ Csr.dpc.num
  | _ => True

theorem actKeeps_saved (P : Platform β) : ActKeeps P Act.KeepsSaved SameSaved where
  store := {
    read := ⟨fun _ _ _ _ _ _ => rfl, fun _ _ _ _ _ => rfl, fun _ _ => rfl, fun _ _ _ => rfl,
      fun _ _ => rfl⟩
    write := fun _ _ => rfl
    device := fun _ _ _ _ => rfl }
  hart := by
    intro a f _ hf m
    have hframe := Act.onHart_frame hf m.hart
    have hprv : (f m.hart).dcsr.prv = m.hart.dcsr.prv := by
      cases a with
      | writeXpr reg value =>
          cases hf
          simp only [Hart.writeXpr]
          split <;> rfl
      | setFpExceptions xlen flags =>
          cases hf
          simp only [Hart.setFpExceptions]
          split <;> rfl
      | writeFpr | setSerialized | setLoadReservation | setStatePc | leaveDebugMode =>
          all_goals
            cases hf
            rfl
      | hart | setPrivilege | load | store | amo | getCsr | setCsr | flushTlb | flushIcache =>
          all_goals cases hf
    change ((f m.hart).dpc, (f m.hart).dcsr.prv) = (m.hart.dpc, m.hart.dcsr.prv)
    rw [hprv, hframe]
  setPrivilege prv _ := .bind flushTlb_saved fun _ => .modify fun _ => rfl
  setCsr which value hwhich := by
    unfold setCsr
    split
    · exact .pure _
    · rename_i csr hcsr
      have hnum := Csr.num_of_ofNum hcsr
      apply writeCsr_saved
      · rintro rfl
        exact hwhich.1 hnum.symm
      · rintro rfl
        exact hwhich.2 hnum.symm
  flushTlb := flushTlb_saved
  flushIcache := .modify fun _ => rfl

/-- A CSR instruction on `dcsr` or `dpc`. -/
def WritesSaved (fetch : Decode.InsnFunc × Insn) : Prop :=
  (fetch.2.csr = Csr.dcsr.num ∨ fetch.2.csr = Csr.dpc.num) ∧
    ∃ name xlen, fetch.1 = insnFunc xlen name ∧ isCsrOp name = true

theorem executeInsn_saved (P : Platform β) (F : SoftFloat) (pc : Reg)
    {fetch : Decode.InsnFunc × Insn} (h : ¬WritesSaved fetch) :
    Keeps SameSaved (executeInsn P F pc fetch) := by
  apply executeInsn_keeps_of_handler _ fun _ _ _ => rfl
  intro name xlen hfunc
  apply Program.keeps_run fun a ha => (actKeeps_saved P).exec ha
  apply uses_of_family (handler_family F name _)
  · intro a ha
    cases a with
    | setCsr => exact ha.elim
    | _ => trivial
  · exact fun _ => trivial
  · trivial
  · exact fun _ => (by decide : Csr.mstatus.num ≠ Csr.dcsr.num ∧ Csr.mstatus.num ≠ Csr.dpc.num)
  · intro hname value
    constructor
    · exact fun hcsr => h ⟨.inl hcsr, name, xlen, hfunc, hname⟩
    · exact fun hcsr => h ⟨.inr hcsr, name, xlen, hfunc, hname⟩

/-- The point does not execute such an instruction. -/
def KeepsSavedAt : Point β → Prop
  | .execute _ _ fetch _ => ¬WritesSaved fetch
  | _ => True

/-- The saved values as long as the hart is in debug mode; it leaves debug mode without a
single step that is complete. -/
structure SavedIs (v : Reg × Prv) (h : Hart) (events : List Event) : Prop where
  outside : EntriesOutside h events
  saved : h.inDebugMode = true → h.saved = v
  fresh : h.inDebugMode = false → h.singleStep ≠ .stepped

namespace SavedIs

variable {v : Reg × Prv}

theorem not_stepped {h : Hart} {events : List Event} (hinv : SavedIs v h events) :
    h.singleStep ≠ .stepped := by
  cases hdebug : h.inDebugMode with
  | false => exact hinv.fresh hdebug
  | true =>
      rw [hinv.outside.single hdebug]
      decide

theorem of_same {h h' : Hart} {events : List Event} (hinv : SavedIs v h events)
    (hdcsr : h'.dcsr = h.dcsr) (hdpc : h'.dpc = h.dpc) (hstep : h'.singleStep = h.singleStep) :
    SavedIs v h' events where
  outside := hinv.outside.of_same (congrArg Dcsr.cause hdcsr) hstep
  saved hdebug := by
    rw [Hart.saved, hdpc, hdcsr]
    apply hinv.saved
    rwa [Hart.inDebugMode, hdcsr] at hdebug
  fresh _ := by
    rw [hstep]
    exact hinv.not_stepped

end SavedIs

theorem eventRules_savedIs (P : Platform β) (F : SoftFloat) (v : Reg × Prv) :
    EventRules P F (fun p => p.machine.hart.inDebugMode = true ∧ EntersOutside P p ∧
      KeepsSavedAt p) (SavedIs v) where
  interfere _ _ _ _ h := h.of_same rfl rfl rfl
  bookkeeping _ _ _ h := h.of_same rfl rfl rfl
  prologue := by
    rintro m n left m' ⟨hdebug, -⟩ h hrun
    replace hdebug : m.hart.inDebugMode = true := hdebug
    rw [run_stepPrologue_inDebugMode P hdebug] at hrun
    cases hrun
    exact h
  begin := by
    rintro n turns m l ⟨hdebug, -⟩ h hstepping
    have hnone : m.hart.singleStep = .none := h.outside.single hdebug
    rw [hnone] at hstepping
    cases hstepping
  execute := by
    rintro site n fetch m l ⟨hdebug, -, hkeeps⟩ h
    have hnone : m.hart.singleStep = .none := h.outside.single hdebug
    have hafter {m' : Machine β} (hkept : DebugKept m m') (hsaved : SameSaved m m') :
        m'.Holds (SavedIs v) := by
      refine ⟨h.outside.of_debugKept hkept, fun _ => Eq.trans hsaved (h.saved hdebug), fun _ => ?_⟩
      rcases hkept.mode with ⟨-, hstep⟩ | ⟨-, hstep | hstep⟩
      all_goals simp [hstep, hnone]
    have hmode := executeInsn_debugKept P F l.pc fetch
    have hsaved := executeInsn_saved P F l.pc hkeeps
    exact ensures_iff.mpr ⟨fun _ _ hrun => hafter (hmode.ok hrun) (hsaved.ok hrun),
      fun _ _ hrun => hafter (hmode.error hrun) (hsaved.error hrun)⟩
  finish h hstepped := absurd hstepped h.not_stepped
  trap := by
    rintro n t m l m' ⟨hdebug, hclear, -⟩ h hrun
    replace hdebug : m.hart.inDebugMode = true := hdebug
    have henters : ¬(t.cause = 3 ∧ ebreakEnters m.hart) := by
      rintro ⟨hcause, henters⟩
      have hout := (hclear.1 hcause henters).1
      rw [hdebug] at hout
      cases hout
    rw [run_takeTrap_inDebugMode hdebug henters] at hrun
    cases hrun
    exact { h.of_same rfl rfl rfl with outside := (h.outside.record _ _).of_same rfl rfl }
  action := by
    rintro n t s ⟨hdebug, hclear, -⟩ _
    replace hdebug : s.1.hart.inDebugMode = true := hdebug
    have hout : s.1.hart.inDebugMode = false := hclear.2
    rw [hdebug] at hout
    cases hout

theorem IsaConfig.machine_singleStep (cfg : IsaConfig) (halt : Bool) (dram : Reg → BitVec 8)
    (dev : β) : (cfg.machine halt dram dev).hart.singleStep = .none := rfl

end SpikeSim.Riscv
