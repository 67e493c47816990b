/-
# Exceptions that leave `step`

The catch blocks of `step` deliver what the `try` block throws, by `take_trap` or
`enter_debug_mode`.  The handler of a trigger stands in no `try` block of its own: it runs the
instruction of a match of the memory port again, and an exception of that second run leaves
`step`.  A sentinel that the second run returns leaves the loop before the action of the trigger.

`HandlesTrigger` says of the state in which a trigger is caught that neither happens.  It is what
the delivery of that trigger comes to (`delivers_iff`), and in runs that meet it nothing escapes.
-/

import SpikeSim.Riscv.TriggerActions

namespace SpikeSim.Riscv

variable {β : Type}

/-! ## Delivery -/

/-- A call of `take_trap` or of `enter_debug_mode`. -/
def Event.isDelivery : Event → Bool
  | .trapTaken .. | .debugEntered _ => true
  | .retired .. => false

/-- What has happened since the first machine has an event of delivery. -/
def DeliveredSince (m m' : Machine β) : Prop :=
  ∃ more, m'.events = m.events ++ more ∧ ∃ e ∈ more, e.isDelivery = true

/-- The round is over, and an exception has been delivered since. -/
def Point.Delivered (m : Machine β) (p : Point β) : Prop :=
  ∃ left m', p = .head left m' ∧ DeliveredSince m m'

instance (m m' : Machine β) : Decidable (DeliveredSince m m') :=
  decidable_of_iff (m'.events.take m.events.length = m.events ∧
    ∃ e ∈ m'.events.drop m.events.length, e.isDelivery = true) <| by
    constructor
    · rintro ⟨hstart, hdelivery⟩
      refine ⟨m'.events.drop m.events.length, ?_, hdelivery⟩
      calc m'.events = m'.events.take m.events.length ++ m'.events.drop m.events.length :=
            (List.take_append_drop ..).symm
        _ = m.events ++ m'.events.drop m.events.length := by rw [hstart]
    · rintro ⟨more, hevents, hdelivery⟩
      rw [hevents]
      simpa using hdelivery

instance (m : Machine β) : (p : Point β) → Decidable (p.Delivered m)
  | .head left m' => decidable_of_iff (DeliveredSince m m') <| by
      constructor
      · exact fun h => ⟨left, m', rfl, h⟩
      · rintro ⟨_, _, hhead, h⟩
        cases hhead
        exact h
  | .idle _ | .slow .. | .fast .. | .execute .. | .caught .. | .action .. | .stopped .. =>
      isFalse <| by
        rintro ⟨_, _, hhead, -⟩
        cases hhead

theorem DeliveredSince.of_append {m mid m' : Machine β} {more : List Event}
    (hfirst : mid.events = m.events ++ more) (h : DeliveredSince mid m') : DeliveredSince m m' := by
  obtain ⟨rest, hrest, e, he, hdelivery⟩ := h
  refine ⟨more ++ rest, ?_, e, List.mem_append_right _ he, hdelivery⟩
  rw [hrest, hfirst, List.append_assoc]

theorem takeTrap_delivers (t : Trap) (epc : Reg) (m : Machine β) :
    ∃ m', takeTrap t epc m = .ok () m' ∧ DeliveredSince m m' := by
  by_cases henters : t.cause = 3 ∧ ebreakEnters m.hart
  · refine ⟨_, run_takeTrap_enters henters epc, [.trapTaken t.cause epc,
      .debugEntered m.hart.dcsr.cause], ?_, .trapTaken t.cause epc, by simp, rfl⟩
    simp
  · cases hdebug : m.hart.inDebugMode with
    | true =>
        exact ⟨_, run_takeTrap_inDebugMode hdebug henters epc, _, rfl, _,
          List.mem_singleton_self _, rfl⟩
    | false =>
        exact ⟨_, run_takeTrap t epc hdebug henters, _, rfl, _, List.mem_singleton_self _, rfl⟩

/-- The handler of `trap_t` delivers. -/
theorem catchTrap_delivers (t : Trap) (pc : Reg) (m : Machine β) :
    ∃ m', catchTrap t pc m = .ok () m' ∧ DeliveredSince m m' := by
  obtain ⟨mid, htrap, more, hevents, e, he, hdelivery⟩ := takeTrap_delivers t pc m
  simp only [catchTrap, run_bind, htrap, run_getHart]
  by_cases hstep : mid.hart.singleStep = .stepped
  · rw [if_pos hstep]
    refine ⟨_, rfl, more ++ [.debugEntered mid.hart.dcsr.cause], ?_, e,
      List.mem_append_left _ he, hdelivery⟩
    change mid.events ++ _ = _
    rw [hevents, List.append_assoc]
  · rw [if_neg hstep]
    exact ⟨mid, rfl, more, hevents, e, he, hdelivery⟩

/-- A supported action delivers. -/
theorem triggerAction_delivers {t : TriggerMatched} {m : Machine β} (l : Locals)
    (h : SupportedAction (m.hart.mcontrol t.index).action) :
    ∃ m', triggerAction t (m, l) = .ok () (m', l) ∧ DeliveredSince m m' := by
  simp only [triggerAction, run_bind, run_lift_getHart]
  rcases h with haction | haction
  · obtain ⟨m', htrap, hdelivered⟩ := takeTrap_delivers ⟨3, some t.address⟩ l.pc m
    refine ⟨m', ?_, hdelivered⟩
    rw [if_neg (by rw [haction]; decide), if_pos haction]
    simp only [run_bind, run_localPc, run_lift, htrap]
  · rw [if_pos haction]
    exact ⟨_, rfl, _, rfl, _, List.mem_singleton_self _, rfl⟩

/-! ## What the handler of a trigger needs -/

variable (P : Platform β) (F : SoftFloat)

/-- The instruction at a fetch can be run to its end, and the handler knows the action of the
trigger afterwards. -/
def Completes (t : TriggerMatched) (pc : Reg) (fetch : Decode.InsnFunc × Insn) (m : Machine β) :
    Prop :=
  ∃ npc m', executeInsn P F pc fetch m = .ok npc m' ∧ invalidPc npc = false ∧
    SupportedAction (m'.hart.mcontrol t.index).action

/-- The action of a trigger that is caught is known, and if the match came from the memory port
then the instruction can be fetched and run again. -/
def HandlesTrigger (t : TriggerMatched) (pc : Reg) (m : Machine β) : Prop :=
  if m.mmu.matchedTrigger.isSome then
    ∃ fetch m', loadInsn P pc m = .ok fetch m' ∧ Completes P F t pc fetch m'
  else SupportedAction (m.hart.mcontrol t.index).action

namespace Point

/-- If a trigger is caught at the point, it can be handled. -/
def HandlesTrigger : Point β → Prop
  | .caught _ (.trigger t) (m, l) => Riscv.HandlesTrigger P F t l.pc m
  | _ => True

/-- The points that follow deliver an exception, by the end of the round. -/
def Delivers (p : Point β) : Prop := ∃ j ≤ 3, ((Point.next P F)^[j] p).Delivered p.machine

variable {P F}

theorem next_caught_trap (n : Nat) (t : Trap) (m : Machine β) (l : Locals) :
    ((Point.caught n (.trap t) (m, l)).next P F).Delivered m := by
  obtain ⟨m', hcatch, hdelivered⟩ := catchTrap_delivers t l.pc m
  simp only [Point.next, hcatch]
  exact ⟨_, _, rfl, hdelivered⟩

theorem next_action {n : Nat} {t : TriggerMatched} {m : Machine β} (l : Locals)
    (h : SupportedAction (m.hart.mcontrol t.index).action) :
    ((Point.action n t (m, l)).next P F).Delivered m := by
  obtain ⟨m', haction, hdelivered⟩ := triggerAction_delivers l h
  simp only [Point.next, haction]
  exact ⟨_, _, rfl, hdelivered⟩

/-- The restart of an instruction that completes goes on with the action of the trigger. -/
theorem next_restart {t : TriggerMatched} {fetch : Decode.InsnFunc × Insn} {m : Machine β}
    (n : Nat) {l : Locals} (h : Completes P F t l.pc fetch m) :
    ∃ m' l', (Point.execute (.restart t) n fetch (m, l)).next P F = .action n t (m', l') ∧
      SupportedAction (m'.hart.mcontrol t.index).action ∧
      ∃ more, m'.events = m.events ++ more := by
  obtain ⟨npc, m', hexec, hvalid, haction⟩ := h
  have hevents := (ensures_executeInsn_events (P := P) (F := F) l.pc fetch m).ok hexec
  simp only [Point.next, hexec, Point.returned, restartAfter, run_bind, run_setLocalPc,
    run_advancePc, hvalid, Bool.false_eq_true, if_false]
  exact ⟨_, _, rfl, haction, _, hevents⟩

/-- A trigger that can be handled is delivered. -/
theorem delivers_of_handles {n : Nat} {t : TriggerMatched} {m : Machine β} {l : Locals}
    (h : Riscv.HandlesTrigger P F t l.pc m) :
    (Point.caught n (.trigger t) (m, l)).Delivers P F := by
  unfold Riscv.HandlesTrigger at h
  by_cases hmatched : m.mmu.matchedTrigger.isSome = true
  · rw [if_pos hmatched] at h
    obtain ⟨fetch, m₁, hload, hcompletes⟩ := h
    obtain ⟨m₂, l₂, hrestart, haction, more, hevents⟩ := next_restart n hcompletes
    obtain ⟨left, m₃, hhead, hdelivered⟩ := next_action (P := P) (F := F) (n := n) l₂ haction
    have hkept : m₁.events = m.events := (((refillKeeps_kept P).loadInsn l.pc).ok hload).events
    have hfirst : (Point.caught n (.trigger t) (m, l)).next P F =
        .execute (.restart t) n fetch (m₁, l) := by
      simp only [Point.next, if_pos hmatched, hload]
    refine ⟨3, le_rfl, left, m₃, ?_, ?_⟩
    · change (((Point.caught n (.trigger t) (m, l)).next P F).next P F).next P F = _
      rw [hfirst, hrestart, hhead]
    · rw [hkept] at hevents
      exact DeliveredSince.of_append hevents hdelivered
  · rw [if_neg hmatched] at h
    have hfirst : (Point.caught n (.trigger t) (m, l)).next P F = .action n t (m, l) := by
      simp only [Point.next, if_neg hmatched]
    refine ⟨2, by decide, ?_⟩
    change (((Point.caught n (.trigger t) (m, l)).next P F).next P F).Delivered m
    rw [hfirst]
    exact next_action l h

/-! ## What happens otherwise -/

/-- The points that follow do not come to another round. -/
def LeavesLoop (P : Platform β) (F : SoftFloat) (p : Point β) : Prop :=
  ∀ j left m, (Point.next P F)^[j] p ≠ .head left m

theorem leavesLoop_idle (m : Machine β) : LeavesLoop P F (.idle m) := by
  intro j left m' h
  rw [Function.iterate_fixed rfl] at h
  cases h

theorem leavesLoop_stopped (e : Exn) (m : Machine β) : LeavesLoop P F (.stopped e m) := by
  intro j left m' h
  rw [Function.iterate_fixed rfl] at h
  cases h

theorem LeavesLoop.of_next {p : Point β} (hhead : ∀ left m, p ≠ .head left m)
    (h : LeavesLoop P F (p.next P F)) : LeavesLoop P F p := by
  intro j left m
  cases j with
  | zero => exact hhead left m
  | succ j => exact h j left m

theorem leavesLoop_action {n : Nat} {t : TriggerMatched} {m : Machine β} (l : Locals)
    (h : ¬SupportedAction (m.hart.mcontrol t.index).action) :
    LeavesLoop P F (.action n t (m, l)) := by
  apply LeavesLoop.of_next (by simp)
  simp only [Point.next, triggerAction_unsupported l h]
  exact leavesLoop_stopped _ _

theorem leavesLoop_restart {t : TriggerMatched} {fetch : Decode.InsnFunc × Insn} {m : Machine β}
    (n : Nat) {l : Locals} (h : ¬Completes P F t l.pc fetch m) :
    LeavesLoop P F (.execute (.restart t) n fetch (m, l)) := by
  apply LeavesLoop.of_next (by simp)
  cases hexec : executeInsn P F l.pc fetch m with
  | error e m' =>
      simp only [Point.next, hexec]
      exact leavesLoop_stopped _ _
  | ok npc m' =>
      simp only [Point.next, hexec, Point.returned, restartAfter, run_bind, run_setLocalPc,
        run_advancePc]
      cases hvalid : invalidPc npc with
      | false =>
          simp only [Bool.false_eq_true, if_false]
          exact leavesLoop_action _ fun haction => h ⟨npc, m', hexec, hvalid, haction⟩
      | true =>
          simp only [if_true]
          split_ifs
          · exact leavesLoop_idle _
          · exact leavesLoop_idle _
          · exact leavesLoop_stopped _ _

theorem leavesLoop_of_not_handles {n : Nat} {t : TriggerMatched} {m : Machine β} {l : Locals}
    (h : ¬Riscv.HandlesTrigger P F t l.pc m) :
    LeavesLoop P F (.caught n (.trigger t) (m, l)) := by
  unfold Riscv.HandlesTrigger at h
  apply LeavesLoop.of_next (by simp)
  by_cases hmatched : m.mmu.matchedTrigger.isSome = true
  · rw [if_pos hmatched] at h
    cases hload : loadInsn P l.pc m with
    | error e m' =>
        simp only [Point.next, if_pos hmatched, hload]
        exact leavesLoop_stopped _ _
    | ok fetch m' =>
        simp only [Point.next, if_pos hmatched, hload]
        exact leavesLoop_restart n fun hcompletes => h ⟨fetch, m', hload, hcompletes⟩
  · rw [if_neg hmatched] at h
    simp only [Point.next, if_neg hmatched]
    exact leavesLoop_action l h

/-- **A trigger is delivered** exactly if it can be handled. -/
theorem delivers_iff {n : Nat} {t : TriggerMatched} {m : Machine β} {l : Locals} :
    (Point.caught n (.trigger t) (m, l)).Delivers P F ↔ Riscv.HandlesTrigger P F t l.pc m := by
  constructor
  · rintro ⟨j, -, left, m', hhead, -⟩
    by_contra h
    exact leavesLoop_of_not_handles h j left m' hhead
  · exact delivers_of_handles

/-! ## Runs -/

/-- What is left of a trigger that can be handled is to be completed, and no exception but an
abort has left `step`. -/
def Sound (P : Platform β) (F : SoftFloat) : Point β → Prop
  | .execute (.restart t) _ fetch (m, l) => Completes P F t l.pc fetch m
  | .action _ t (m, _) => SupportedAction (m.hart.mcontrol t.index).action
  | .stopped e _ => e = .abort
  | _ => True

theorem sound_ofRound (n instret : Nat) (m : Machine β) :
    (ofRound (endRound n instret m)).Sound P F :=
  trivial

theorem sound_returned {n : Nat} {npc : Reg} {s : Machine β × Locals} {site : Site}
    (hsite : ∀ t, site ≠ .restart t) : (returned P n npc s site).Sound P F := by
  cases site with
  | slow turns =>
      cases hafter : slowAfter npc s with
      | ok goesOn s' =>
          cases goesOn
          all_goals
            simp only [returned, hafter]
            trivial
      | error e s' =>
          simp only [returned, hafter]
          trivial
  | fast turns i =>
      cases hafter : fastAfter P n i npc s with
      | ok at? s' =>
          cases at?
          all_goals
            simp only [returned, hafter]
            trivial
      | error e s' =>
          simp only [returned, hafter]
          trivial
  | restart t => exact absurd rfl (hsite t)

theorem sound_next {p : Point β} (h : p.Sound P F) (hhandles : p.HandlesTrigger P F) :
    (p.next P F).Sound P F := by
  cases p with
  | idle m => trivial
  | stopped e m => exact h
  | head n m =>
      cases n with
      | zero => trivial
      | succ n =>
          cases hinterrupt : takeInterrupt m with
          | ok _ m' =>
              simp only [Point.next, hinterrupt]
              by_cases hslow : m'.hart.slowPath = true
              · rw [if_pos hslow]
                trivial
              · rw [if_neg hslow]
                trivial
          | error e m' =>
              simp only [Point.next, hinterrupt]
              trivial
  | slow n turns s =>
      cases turns with
      | zero => trivial
      | succ turns =>
          cases hfetch : slowFetch P s
          all_goals
            simp only [Point.next, hfetch]
            trivial
  | fast n turns at? s =>
      cases turns with
      | zero => trivial
      | succ turns =>
          cases hlookup : fastLookup P at? s
          all_goals
            simp only [Point.next, hlookup]
            trivial
  | execute site n fetch s =>
      obtain ⟨m, l⟩ := s
      cases site with
      | restart t =>
          obtain ⟨m', l', hnext, haction, -⟩ := next_restart (P := P) (F := F) n h
          rw [hnext]
          exact haction
      | slow turns | fast turns i =>
          all_goals
            cases hexec : executeInsn P F l.pc fetch m with
            | ok npc m' =>
                simp only [Point.next, hexec]
                exact sound_returned (by simp)
            | error e m' =>
                simp only [Point.next, hexec]
                trivial
  | caught n e s =>
      obtain ⟨m, l⟩ := s
      cases e with
      | abort => rfl
      | trap t =>
          obtain ⟨left, m', hhead, -⟩ := next_caught_trap (P := P) (F := F) n t m l
          rw [hhead]
          trivial
      | trigger t =>
          change Riscv.HandlesTrigger P F t l.pc m at hhandles
          unfold Riscv.HandlesTrigger at hhandles
          by_cases hmatched : m.mmu.matchedTrigger.isSome = true
          · rw [if_pos hmatched] at hhandles
            obtain ⟨fetch, m', hload, hcompletes⟩ := hhandles
            simp only [Point.next, if_pos hmatched, hload]
            exact hcompletes
          · rw [if_neg hmatched] at hhandles
            simp only [Point.next, if_neg hmatched]
            exact hhandles
  | action n t s =>
      obtain ⟨m, l⟩ := s
      obtain ⟨left, m', hhead, -⟩ := next_action (P := P) (F := F) (n := n) l h
      rw [hhead]
      trivial

end Point

variable {P F}

/-- Where the call goes on, the run is at the points that follow. -/
theorem run_eq_iterate {r : ℕ → Point β} {len k j left : ℕ} {m : Machine β}
    (hrun : IsRun (HartStep P F) r len) (hk : k + j ≤ len)
    (hhead : (Point.next P F)^[j] (r k) = .head left m) : r (k + j) = .head left m := by
  have hfollows : ∀ i ≤ j, r (k + i) = (Point.next P F)^[i] (r k) := by
    intro i
    induction i with
    | zero => exact fun _ => rfl
    | succ i ih =>
        intro hi
        have hprev := ih (by omega)
        have hinside : ∀ m, r (k + i) ≠ .idle m := by
          intro m₀ hidle
          obtain ⟨d, rfl⟩ := Nat.exists_eq_add_of_le (show i ≤ j by omega)
          rw [Nat.add_comm, Function.iterate_add_apply, ← hprev, hidle,
            Function.iterate_fixed rfl] at hhead
          cases hhead
        rw [Function.iterate_succ_apply', ← hprev]
        exact (hrun (k + i) (by omega)).eq_next hinside
  rw [hfollows j le_rfl, hhead]

/-- A trigger is caught at the point. -/
def Point.catchesTrigger : Point β → Bool
  | .caught _ (.trigger _) _ => true
  | _ => false

/-- The match that is caught came from the memory port. -/
def Point.catchesMatch : Point β → Bool
  | .caught _ (.trigger _) (m, _) => m.mmu.matchedTrigger.isSome
  | _ => false

theorem Point.handlesTrigger_of_quiet {p : Point β} (h : p.catchesTrigger = false) :
    p.HandlesTrigger P F := by
  cases p with
  | caught n e s =>
      cases e with
      | trigger t => cases h
      | trap | abort => all_goals trivial
  | idle | head | slow | fast | execute | action | stopped => all_goals trivial

theorem Point.handlesTrigger_of_delivers {p : Point β} (h : p.Delivers P F) :
    p.HandlesTrigger P F := by
  cases p with
  | caught n e s =>
      cases e with
      | trigger t => exact Point.delivers_iff.mp h
      | trap | abort => all_goals trivial
  | idle | head | slow | fast | execute | action | stopped => all_goals trivial

theorem Point.exists_of_catchesMatch {p : Point β} (h : p.catchesMatch = true) :
    ∃ n e s, p = .caught n e s ∧ e ≠ .abort := by
  cases p with
  | caught n e s =>
      cases e with
      | trigger t => exact ⟨n, _, s, rfl, by simp⟩
      | trap | abort => all_goals cases h
  | idle | head | slow | fast | execute | action | stopped => all_goals cases h

/-- A guest that arms a trigger on loads from address zero, after the access, and loads from
there: `lui x5, 0x40`, `addi x5, x5, 0x41`, `csrw tdata1, x5` and `lw x0, 0(x0)`. -/
def restartedLoad : Platform Bool := .rom [0x000402b7, 0x04128293, 0x7a129073, 0x00002003]

/-- The same with stores and `sw x0, 0(x0)`, which the bus refuses. -/
def restartedStore : Platform Bool := .rom [0x000402b7, 0x04228293, 0x7a129073, 0x00002023]

def armedMachine : Machine Bool :=
  IsaConfig.machine ⟨.rv64, 0x8000000000141129, false⟩ false (fun _ => 0) false

/-- A call of `step` for the first program. -/
def restartedLoadRun : ℕ → Point Bool
  | 0 => .idle armedMachine
  | k + 1 => (Point.next restartedLoad .zeros)^[k] (.head 4 armedMachine)

theorem restartedLoadRun_add (k j : ℕ) : restartedLoadRun (k + 1 + j) =
    (Point.next restartedLoad .zeros)^[j] (restartedLoadRun (k + 1)) := by
  rw [show k + 1 + j = (k + j) + 1 by omega, restartedLoadRun, restartedLoadRun, Nat.add_comm k j,
    Function.iterate_add_apply]

/-- The exception that has left `step`. -/
def Point.escaped? : Point β → Option Exn
  | .stopped e _ => some e
  | _ => none

end SpikeSim.Riscv
