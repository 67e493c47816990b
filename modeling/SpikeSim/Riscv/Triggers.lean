/-
# Triggers stay out of debug mode

`trigger_match` finds nothing while the hart is in debug mode, so a trigger that is
thrown is thrown outside of it.  The catch block runs the instruction again before it
looks at the action of the trigger; the hart is still outside of debug mode then.
-/

import SpikeSim.Riscv.Fetch
import SpikeSim.Riscv.RunRules

namespace SpikeSim.Riscv

variable {β : Type}

/-- If a trigger is thrown, then outside of debug mode. -/
def TriggerOutside (e : Exn) (m : Machine β) : Prop :=
  ∀ t, e = .trigger t → m.hart.inDebugMode = false

/-! ## What is thrown -/

theorem throws_trap {α : Type} (t : Trap) :
    Throws TriggerOutside (throwTrap t : M β α) :=
  .throw fun _ _ h => by cases h

theorem throws_abort {α : Type} : Throws TriggerOutside (throw .abort : M β α) :=
  .throw fun _ _ h => by cases h

theorem triggerMatch_outside {h : Hart} {operation : TriggerOperation} {address data : Reg}
    {i : Fin 4} (hmatch : triggerMatch h operation address data = some i) :
    h.inDebugMode = false := by
  unfold triggerMatch at hmatch
  split at hmatch
  · cases hmatch
  · rename_i hdebug
    simpa using hdebug

theorem throws_checkTrigger (operation : TriggerOperation) (address data : Reg) :
    Throws TriggerOutside (checkTrigger operation address data : M β Unit) := by
  constructor
  intro m e m' h
  simp only [checkTrigger, run_bind, run_get] at h
  split at h
  · cases hmatch : triggerMatch m.hart operation address data with
    | none =>
        rw [hmatch] at h
        cases h
    | some i =>
        rw [hmatch] at h
        have houtside := triggerMatch_outside hmatch
        cases htiming : (m.hart.mcontrol i).timing with
        | false =>
            simp only [htiming] at h
            cases h
            exact fun _ _ => houtside
        | true =>
            simp only [htiming] at h
            cases h
            exact fun _ _ => houtside
  · cases h

section Accesses

variable (P : Platform β)

theorem throws_translate (addr : Reg) (type : AccessType) :
    Throws TriggerOutside (translate P addr type) := by
  constructor
  intro m e m' h t he
  obtain ⟨-, habort, -⟩ := translate_error P h
  rw [habort] at he
  cases he

theorem throws_loadSlowPath (addr : Reg) (len : Nat) :
    Throws TriggerOutside (loadSlowPath P addr len) := by
  refine .bind (throws_translate P addr .load) fun paddr => .bind .get fun m => ?_
  refine .bind (.ite (.ite ?_ ?_) ?_) fun data => .bind (throws_checkTrigger ..) fun _ => .pure _
  · exact .bind (.modify _) fun _ => .pure _
  · exact .bind (.modify _) fun _ => .pure _
  · refine .bind (.modify _) fun _ => ?_
    split
    · exact throws_trap _
    · exact .pure _

theorem throws_load (ty : MemType) (addr : Reg) : Throws TriggerOutside (load P ty addr) := by
  refine .ite (.bind (throws_trap _) fun _ => ?_) ?_
  all_goals
    refine .bind .get fun m => .ite (.pure _) (.ite ?_ ?_)
    · exact .bind (throws_checkTrigger ..) fun _ => .pure _
    · exact .bind (throws_loadSlowPath ..) fun _ => .pure _

theorem throws_storeSlowPath (addr : Reg) (len : Nat) (data : Reg) :
    Throws TriggerOutside (storeSlowPath P addr len data) := by
  rw [storeSlowPath_eq]
  refine .bind (throws_translate P addr .store) fun paddr => ?_
  refine .bind (throws_checkTrigger ..) fun _ => .bind .get fun m => .ite ?_ ?_
  · exact .bind (.modify _) fun _ => .ite (.modify _) (.modify _)
  · exact .bind (.modify _) fun _ => .ite (throws_trap _) (.pure _)

theorem throws_store (ty : MemType) (addr val : Reg) :
    Throws TriggerOutside (store P ty addr val) := by
  refine .ite (.bind (throws_trap _) fun _ => ?_) ?_
  all_goals
    refine .bind .get fun m => .ite (.modify _) (.ite ?_ (throws_storeSlowPath ..))
    exact .bind (throws_checkTrigger ..) fun _ => .modify _

theorem throws_amo (ty : MemType) (addr : Reg) (f : Reg → Reg) :
    Throws TriggerOutside (amo P ty addr f) := by
  refine .ite (.bind (throws_trap _) fun _ => ?_) ?_
  all_goals
    refine .tryCatch ?_ fun e s e' s' he h => ?_
    · refine .bind (throws_load ..) fun lhs => .bind (throws_store ..) fun _ => .pure _
    · -- Only traps are replaced.
      split at h
      · exact (Throws.ite (throws_trap _) (throws_trap _)).error h
      · cases h
        exact he

theorem throws_fetchSlowPath (vaddr : Reg) : Throws TriggerOutside (fetchSlowPath P vaddr) := by
  refine .bind (throws_translate P vaddr .fetch) fun paddr => ?_
  refine .ite (.bind (throws_trap _) fun _ => ?_) ?_
  all_goals
    refine .bind .get fun m => .ite (.bind (.modify _) fun _ => .pure _) ?_
    refine .bind (.modify _) fun _ => ?_
    split
    · exact throws_trap _
    · exact .pure _

theorem throws_translateInsnAddr (addr : Reg) :
    Throws TriggerOutside (translateInsnAddr P addr) := by
  constructor
  intro m e m' h
  simp only [translateInsnAddr, run_bind, run_get] at h
  split at h
  · cases h
  · split at h
    · cases hmatch : triggerMatch m.hart .execute addr
          (readLE m.dram (m.mmu.tlbData (tlbIndex (addr >>> pgshift)) + addr) 2) with
      | none =>
          rw [hmatch] at h
          cases h
      | some i =>
          rw [hmatch] at h
          cases h
          exact fun _ _ => triggerMatch_outside hmatch
    · exact (throws_fetchSlowPath P addr).error h

theorem throws_fetchBits (addr : Reg) : Throws TriggerOutside (fetchBits P addr) := by
  have hread := throws_translateInsnAddr P
  refine .bind (hread _) fun first => .ite ?_ (.ite (.pure _) (.ite ?_ ?_))
  · exact .bind (hread _) fun _ => .pure _
  · exact .bind (hread _) fun _ => .bind (hread _) fun _ => .pure _
  · exact .bind (hread _) fun _ => .bind (hread _) fun _ => .bind (hread _) fun _ => .pure _

theorem throws_refillEntry (addr : Reg) : Throws TriggerOutside (refillEntry P addr) := by
  refine .bind (throws_fetchBits P addr) fun fetched => .bind (.bind .get fun m => ?_) fun func => ?_
  · split
    · exact throws_abort
    · exact .bind (.modify _) fun _ => .pure _
  · exact .ite (.bind (.modify _) fun _ => .pure _) (.pure _)

theorem throws_refillIcache (addr : Reg) (i : Fin 1024) :
    Throws TriggerOutside (refillIcache P addr i) :=
  .bind (throws_refillEntry P addr) fun _ => .modify _

theorem throws_accessIcache (addr : Reg) : Throws TriggerOutside (accessIcache P addr) :=
  .bind .get fun _ => .ite (throws_refillIcache ..) (.pure _)

theorem throws_loadInsn (addr : Reg) : Throws TriggerOutside (loadInsn P addr) :=
  .bind (throws_refillEntry P addr) fun _ => .pure _

theorem throws_setCsr (which val : Reg) : Throws TriggerOutside (setCsr which val : M β Unit) := by
  constructor
  intro m e m' h
  rcases setCsr_cases which val m with ⟨-, habort⟩ | ⟨_, hok, -⟩
  · rw [habort] at h
    cases h
    exact fun t ht => by cases ht
  · rw [hok] at h
    cases h

theorem throws_act (a : Act) : Throws TriggerOutside (a.exec P) := by
  cases a with
  | hart => exact .bind .get fun _ => .pure _
  | load ty addr => exact throws_load P ty addr
  | store ty addr value => exact throws_store P ty addr value
  | amo ty addr f => exact throws_amo P ty addr f
  | getCsr which =>
      refine .bind .get fun m => .ite (.pure _) ?_
      split
      · exact throws_trap _
      · exact .pure _
  | setCsr which value => exact throws_setCsr which value
  | setPrivilege prv => exact .bind (.bind (.modify _) fun _ => .modify _) fun _ => .modify _
  | flushTlb => exact .bind (.modify _) fun _ => .modify _
  | writeXpr | writeFpr | setFpExceptions | setSerialized | setLoadReservation | setStatePc
  | leaveDebugMode | flushIcache => all_goals exact .modify _

end Accesses

/-! ## Handlers -/

section Handlers

open Handler

variable {c : Ctx}

/-- The handlers themselves raise traps. -/
def IsTrap (e : Exn) : Prop := ∃ t, e = .trap t

theorem raises_requireAll (needs : List Need) : (requireAll c needs).Raises IsTrap := by
  induction needs with
  | nil => trivial
  | cons need rest ih =>
      intro h
      apply Program.Raises.bind _ fun _ => ih
      unfold require
      split
      · trivial
      · exact ⟨_, rfl⟩

theorem raises_setPc (target : Reg) : (setPc c target).Raises IsTrap := by
  intro h
  change (if _ then _ else _ : Handler Reg).Raises _
  split
  · exact ⟨_, rfl⟩
  · trivial

theorem raises_setPcAndSerialize (target : Reg) : (setPcAndSerialize c target).Raises IsTrap :=
  (raises_setPc target).bind fun _ _ => trivial

theorem raises_roundingMode : (roundingMode c).Raises IsTrap := by
  intro h
  change (if 4 < _ then illegal else pure _ : Handler Reg).Raises _
  split_ifs
  · exact ⟨_, rfl⟩
  · trivial
  · exact ⟨_, rfl⟩
  · trivial

theorem raises_writeDest (value : Reg) (dest : Dest) : (writeDest c value dest).Raises IsTrap := by
  cases dest with
  | x reg => exact fun _ => trivial
  | f reg => exact fun _ => trivial

theorem raises_trapReturn (prv : Prv) (epc : Hart → Reg) (ppMask pieMask : Reg) :
    (trapReturn prv epc ppMask pieMask c).Raises IsTrap := by
  apply (raises_requireAll _).bind
  intro _ h
  exact (raises_setPcAndSerialize _).bind fun _ _ _ => trivial

theorem raises_csrOp (write : Ctx → Bool) (new : Ctx → Hart → Reg → Reg) :
    (csrOp write new c).Raises IsTrap := by
  intro h
  change (if _ then _ else _ : Handler Reg).Raises _
  split
  · trivial
  · intro _
    change (if _ then _ else _ : Handler Reg).Raises _
    split
    · exact ⟨_, rfl⟩
    · intro old
      change (if _ then _ else _ : Handler Reg).Raises _
      split
      · exact fun _ _ => trivial
      · exact fun _ => trivial

theorem raises_family {name : InsnName} {p : Handler Reg} (h : Family c name p) :
    p.Raises IsTrap := by
  cases h with
  | compute needs | computeFp needs | storeFrom needs =>
      all_goals exact (raises_requireAll needs).bind fun _ _ _ => trivial
  | fpRounded needs dest f =>
      apply (raises_requireAll needs).bind
      intro _
      apply raises_roundingMode.bind
      exact fun rm h => (raises_writeDest _ _).bind fun _ _ => trivial
  | fpExact needs dest f =>
      apply (raises_requireAll needs).bind
      exact fun _ h => (raises_writeDest _ _).bind fun _ _ => trivial
  | loadTo needs ty addr dest =>
      apply (raises_requireAll needs).bind
      exact fun _ h value => (raises_writeDest _ _).bind fun _ => trivial
  | amoOp needs => exact (raises_requireAll needs).bind fun _ _ _ _ => trivial
  | lrD | lrW => all_goals exact (raises_requireAll _).bind fun _ _ _ _ _ => trivial
  | scD | scW =>
      all_goals
        apply (raises_requireAll _).bind
        intro _ h
        change (if _ then _ else _ : Handler Reg).Raises _
        split
        · exact fun _ _ => trivial
        · exact fun _ => trivial
  | branch needs taken target =>
      apply (raises_requireAll needs).bind
      intro _ h
      change (if _ then _ else _ : Handler Reg).Raises _
      split
      · exact raises_setPc _
      · trivial
  | jump needs target link =>
      apply (raises_requireAll needs).bind
      intro _ h
      apply (raises_setPc _).bind
      intro npc
      cases link c with
      | none => trivial
      | some reg => exact fun _ => trivial
  | csrOp write new => exact raises_csrOp write new
  | mret => exact raises_trapReturn _ _ _ _
  | sret => exact raises_trapReturn _ _ _ _
  | dret =>
      apply (raises_requireAll _).bind
      exact fun _ h => (raises_setPcAndSerialize _).bind fun _ _ _ => trivial
  | ebreak => exact ⟨_, rfl⟩
  | cEbreak => exact (raises_requireAll _).bind fun _ => ⟨_, rfl⟩
  | ecall => exact fun h => ⟨_, rfl⟩
  | fence => trivial
  | wfi => trivial
  | fenceI => exact fun _ => trivial
  | sfenceVm => exact (raises_requireAll _).bind fun _ _ => trivial

theorem throws_executeInsn (P : Platform β) (F : SoftFloat) (pc : Reg)
    (fetch : Decode.InsnFunc × Insn) : Throws TriggerOutside (executeInsn P F pc fetch) := by
  have hprogram (name : InsnName) (xlen : Xlen) (insn : Insn) :
      Throws TriggerOutside ((insnProgram F name xlen insn pc).run (Act.exec P)) := by
    apply Program.throws_run (throws_act P) _ (raises_family (handler_family F name _))
    rintro e s ⟨t, rfl⟩ t' ht
    cases ht
  apply Throws.bind
  · obtain ⟨func, insn⟩ := fetch
    cases func with
    | rv32 name => exact hprogram name .rv32 insn
    | rv64 name => exact hprogram name .rv64 insn
    | custom n => exact throws_trap _
    | illegalInstruction => exact throws_trap _
  · intro npc
    exact .ite (.bind (.modify _) fun _ => .pure _) (.pure _)

end Handlers

/-! ## What an instruction keeps of debug mode -/

/-- Debug mode is not entered, and at most left; a single step is at most begun. -/
structure DebugKept (m m' : Machine β) : Prop where
  entries : ∀ prior, .debugEntered prior ∈ m'.events → .debugEntered prior ∈ m.events
  mode : (m'.hart.dcsr.cause = m.hart.dcsr.cause ∧ m'.hart.singleStep = m.hart.singleStep) ∨
    m'.hart.dcsr.cause = .none ∧
      (m'.hart.singleStep = m.hart.singleStep ∨ m'.hart.singleStep = .stepping)

namespace DebugKept

/-- Neither the cause nor the single step is touched. -/
theorem of_same {m m' : Machine β} (hevents : m'.events = m.events)
    (hcause : m'.hart.dcsr.cause = m.hart.dcsr.cause)
    (hstep : m'.hart.singleStep = m.hart.singleStep) : DebugKept m m' :=
  ⟨fun _ h => hevents ▸ h, .inl ⟨hcause, hstep⟩⟩

instance : Std.Refl (DebugKept (β := β)) := ⟨fun _ => of_same rfl rfl rfl⟩

instance : IsTrans (Machine β) DebugKept where
  trans _ _ _ hab hbc := by
    refine ⟨fun prior h => hab.entries prior (hbc.entries prior h), ?_⟩
    rcases hbc.mode with ⟨hcause, hstep⟩ | ⟨hcause, hstep⟩
    · rw [hcause, hstep]
      exact hab.mode
    · refine .inr ⟨hcause, ?_⟩
      rcases hstep with hstep | hstep
      · rw [hstep]
        rcases hab.mode with ⟨-, hfirst⟩ | ⟨-, hfirst⟩
        · exact .inl hfirst
        · exact hfirst
      · exact .inr hstep

theorem outside {m m' : Machine β} (h : DebugKept m m') (hm : m.hart.inDebugMode = false) :
    m'.hart.inDebugMode = false := by
  unfold Hart.inDebugMode at hm ⊢
  rcases h.mode with ⟨hcause, -⟩ | ⟨hcause, -⟩
  · rw [hcause]
    exact hm
  · rw [hcause]
    rfl

end DebugKept

theorem CsrFrame.debugKept {m m' : Machine β} (h : CsrFrame m m') : DebugKept m m' := by
  apply DebugKept.of_same h.events
  · rw [h.hart]
  · rw [h.hart]

theorem actKeeps_debugKept (P : Platform β) : ActKeeps P (fun _ => True) DebugKept where
  store := {
    read := {
      walk := fun _ _ _ _ _ _ => .of_same rfl rfl rfl
      refill := fun _ _ _ _ _ => .of_same rfl rfl rfl
      matched := fun _ _ => .of_same rfl rfl rfl
      device := fun _ _ _ => .of_same rfl rfl rfl
      tracers := fun _ _ => .of_same rfl rfl rfl }
    write := fun _ _ => .of_same rfl rfl rfl
    device := fun _ _ _ _ => .of_same rfl rfl rfl }
  hart := by
    intro a f _ hf m
    cases a with
    | leaveDebugMode =>
        cases hf
        refine ⟨fun _ h => h, .inr ⟨rfl, ?_⟩⟩
        change (if m.hart.dcsr.step then _ else _) = _ ∨ (if m.hart.dcsr.step then _ else _) = _
        split
        · exact .inr rfl
        · exact .inl rfl
    | writeXpr reg value =>
        cases hf
        refine .of_same rfl ?_ ?_
        all_goals
          simp only [Hart.writeXpr]
          split <;> rfl
    | setFpExceptions xlen flags =>
        cases hf
        refine .of_same rfl ?_ ?_
        all_goals
          simp only [Hart.setFpExceptions]
          split <;> rfl
    | writeFpr | setSerialized | setLoadReservation | setStatePc =>
        all_goals
          cases hf
          exact .of_same rfl rfl rfl
    | hart | setPrivilege | load | store | amo | getCsr | setCsr | flushTlb | flushIcache =>
        all_goals cases hf
  setPrivilege prv _ := .bind (flushTlb_csrFrame.imp fun _ _ => CsrFrame.debugKept) fun _ =>
    .modify fun _ => .of_same rfl rfl rfl
  setCsr which value _ := (setCsr_csrFrame which value).imp fun _ _ => CsrFrame.debugKept
  flushTlb := flushTlb_csrFrame.imp fun _ _ => CsrFrame.debugKept
  flushIcache := .modify fun _ => .of_same rfl rfl rfl

theorem executeInsn_debugKept (P : Platform β) (F : SoftFloat) (pc : Reg)
    (fetch : Decode.InsnFunc × Insn) : Keeps DebugKept (executeInsn P F pc fetch) := by
  apply executeInsn_keeps (actKeeps_debugKept P)
  intro m pc bits
  refine ⟨fun prior h => ?_, .inl ⟨rfl, rfl⟩⟩
  simpa using h

/-! ## The points at which a trigger is handled -/

/-- At the points of the catch block of a trigger the hart is outside of debug mode. -/
def OutsideAtTrigger : Point β → Prop
  | .caught _ e s => TriggerOutside e s.1
  | .action _ _ s | .execute (.restart _) _ _ s => s.1.hart.inDebugMode = false
  | _ => True

section Points

variable {P : Platform β} {F : SoftFloat}

theorem throws_lift {α : Type} {x : M β α} (hx : Throws TriggerOutside x) :
    Throws (fun e s => TriggerOutside e s.1) (lift x) := by
  constructor
  rintro ⟨m, l⟩ e s' h
  rw [run_lift] at h
  cases hrun : x m with
  | ok a m' =>
      rw [hrun] at h
      cases h
  | error e' m' =>
      rw [hrun] at h
      cases h
      exact hx.error hrun

theorem throws_advancePc :
    Throws (fun e s => TriggerOutside e s.1) (advancePc : S β Bool) := by
  constructor
  rintro ⟨m, l⟩ e s' h
  have hensures : Ensures advancePc (m, l) (fun _ _ => True)
      fun e (s : Machine β × Locals) => TriggerOutside e s.1 :=
    ensures_advancePc (fun _ => trivial) (fun _ => trivial) (fun _ _ _ t ht => by cases ht)
      fun _ => trivial
  exact hensures.error h

theorem throws_finishStep : Throws TriggerOutside (finishStep : M β Unit) :=
  .bind (.modify _) fun _ => .bind (.bind .get fun _ => .pure _) fun _ =>
    .bind (.modify _) fun _ => .bind (.modify _) fun _ =>
      .bind (.bind (.bind (.modify _) fun _ => .modify _) fun _ => .modify _) fun _ => .modify _

theorem throws_slowAfter (npc : Reg) :
    Throws (fun e s => TriggerOutside e s.1) (slowAfter npc : S β Bool) := by
  refine .bind (.modify _) fun _ => .bind throws_advancePc fun left => .ite (.pure _) ?_
  refine .bind (throws_lift (.bind .get fun _ => .pure _)) fun h => .ite ?_ (.pure _)
  exact .bind (throws_lift throws_finishStep) fun _ => .pure _

theorem throws_fastAfter (n : Nat) (i : Fin 1024) (npc : Reg) :
    Throws (fun e s => TriggerOutside e s.1) (fastAfter P n i npc) := by
  refine .bind (.modify _) fun _ => ?_
  have hleft : Throws (fun e (s : Machine β × Locals) => TriggerOutside e s.1) (do
      if ← advancePc then return none else return some none : S β (Option (Option (Fin 1024)))) :=
    .bind throws_advancePc fun _ => .ite (.pure _) (.pure _)
  split
  · refine .bind .get fun s => .ite ?_ (.bind .get fun s => .ite hleft ?_)
    · refine .bind throws_advancePc fun left => .ite (.pure _) (.bind .get fun s => ?_)
      refine .bind (.bind .get fun _ => .pure _) fun pc => .ite ?_ (.pure _)
      exact .bind (throws_lift (throws_refillIcache ..)) fun _ => .pure _
    · exact .bind (.modify _) fun _ => .bind (throws_lift (.modify _)) fun _ => .pure _
  · exact hleft

theorem outside_ofRound (n instret : Nat) (m : Machine β) :
    OutsideAtTrigger (.ofRound (endRound n instret m)) := trivial

/-- After an instruction. -/
theorem outside_returned {site : Site} {n : Nat} {npc : Reg} {m : Machine β} {l : Locals}
    (h : ∀ t, site = .restart t → m.hart.inDebugMode = false) :
    OutsideAtTrigger (.returned P n npc (m, l) site) := by
  cases site with
  | slow turns =>
      rw [Point.returned]
      cases hrun : slowAfter npc (m, l) with
      | ok goesOn s => cases goesOn <;> trivial
      | error e s => exact (throws_slowAfter npc).error hrun
  | fast turns i =>
      rw [Point.returned]
      cases hrun : fastAfter P n i npc (m, l) with
      | ok goesOn s => cases goesOn <;> trivial
      | error e s => exact (throws_fastAfter n i npc).error hrun
  | restart t =>
      have hm := h t rfl
      have hkept : Ensures (restartAfter npc) (m, l)
          (fun _ (s : Machine β × Locals) => s.1.hart.inDebugMode = false) fun _ _ => True :=
        Ensures.bind (Ensures.bind (ensures_advancePc (fun _ => hm) (fun _ => hm)
          (fun _ _ _ => trivial) fun _ => hm))
      rw [Point.returned]
      cases hrun : restartAfter npc (m, l) with
      | ok left s =>
          cases left with
          | true => trivial
          | false => exact hkept.ok hrun
      | error e s => trivial

/-- The hart is outside of debug mode wherever a trigger is handled. -/
theorem outside_next {p p' : Point β} (hnext : Next P F p p') (hp : OutsideAtTrigger p) :
    OutsideAtTrigger p' := by
  cases hnext with
  | interfere => trivial
  | call => trivial
  | inside _ hcall =>
      cases p with
      | idle m => exact absurd rfl (hcall m)
      | stopped e m => trivial
      | head n m =>
          cases n with
          | zero => trivial
          | succ n =>
              rw [Point.next]
              cases hrun : takeInterrupt m with
              | ok _ m' =>
                  dsimp only
                  split <;> trivial
              | error e m' =>
                  refine Throws.error (E := TriggerOutside) (x := takeInterrupt) ?_ hrun
                  exact .bind (.bind .get fun _ => .pure _) fun _ => .ite (throws_trap _) (.pure _)
      | slow n turns s =>
          cases turns with
          | zero => trivial
          | succ turns =>
              rw [Point.next]
              cases hrun : slowFetch P s with
              | ok fetch s' => trivial
              | error e s' =>
                  rw [run_slowFetch] at hrun
                  exact (throws_lift (throws_loadInsn P _)).error hrun
      | fast n turns at? s =>
          cases turns with
          | zero => trivial
          | succ turns =>
              rw [Point.next]
              cases hrun : fastLookup P at? s with
              | ok i s' => trivial
              | error e s' =>
                  cases at? with
                  | some i => cases hrun
                  | none =>
                      refine Throws.error (E := fun e s => TriggerOutside e s.1) ?_ hrun
                      refine .bind (.bind .get fun _ => .pure _) fun pc => ?_
                      exact .bind (throws_lift (throws_accessIcache P pc)) fun _ => .pure _
      | execute site n fetch s =>
          obtain ⟨m, l⟩ := s
          have hkept := executeInsn_debugKept P F l.pc fetch
          rw [Point.next]
          cases hrun : executeInsn P F l.pc fetch m with
          | ok npc m' =>
              apply outside_returned
              rintro t rfl
              exact (hkept.ok hrun).outside hp
          | error e m' =>
              cases site with
              | slow turns => exact (throws_executeInsn P F l.pc fetch).error hrun
              | fast turns i => exact (throws_executeInsn P F l.pc fetch).error hrun
              | restart t => trivial
      | caught n e s =>
          obtain ⟨m, l⟩ := s
          cases e with
          | abort => trivial
          | trap t =>
              rw [Point.next]
              cases catchTrap t l.pc m <;> trivial
          | trigger t =>
              have houtside : m.hart.inDebugMode = false := hp t rfl
              rw [Point.next]
              split
              · cases hrun : loadInsn P l.pc m with
                | ok fetch m' =>
                    have hhart := (((refillKeeps_kept P).loadInsn l.pc).ok hrun).hart
                    change m'.hart.inDebugMode = false
                    rw [hhart]
                    exact houtside
                | error e m' => trivial
              · exact houtside
      | action n t s =>
          rw [Point.next]
          cases triggerAction t s <;> trivial

end Points

end SpikeSim.Riscv
