/-
# Runs of the loop

`stepIter` describes a round of `step` as a whole.  Here a call of `step` is cut into
small steps, with a point before every fetch, before every instruction and in the
catch blocks, so that a run shows every state between two instructions and every
instruction that is executed.  Between two calls the rest of the simulator may
interfere.

`rounds_reach` says that the small steps lead where the rounds do.
-/

import SpikeSim.Lib.Effect
import SpikeSim.Lib.Run
import SpikeSim.Riscv.Step

namespace SpikeSim.Riscv

variable {β : Type}

/-! ## Running the code of the loops -/

section Running

variable {α : Type} (m : Machine β) (l : Locals)

theorem run_lift (x : M β α) :
    lift x (m, l) =
      match x m with
      | .ok a m' => .ok a (m', l)
      | .error e m' => .error e (m', l) := rfl

@[simp]
theorem run_localPc : (localPc : S β Reg) (m, l) = .ok l.pc (m, l) := rfl

@[simp]
theorem run_setLocalPc (pc : Reg) :
    (setLocalPc pc : S β Unit) (m, l) = .ok () (m, { l with pc := pc }) := rfl

@[simp]
theorem run_countRetired :
    (countRetired : S β Unit) (m, l) = .ok () (m, { l with instret := l.instret + 1 }) := rfl

@[simp]
theorem run_lift_getHart : (lift getHart : S β Hart) (m, l) = .ok m.hart (m, l) := rfl

@[simp]
theorem run_lift_modifyHart (f : Hart → Hart) :
    (lift (modifyHart f) : S β Unit) (m, l) = .ok () ({ m with hart := f m.hart }, l) := rfl

/-- The outcomes of `advance_pc`. -/
theorem run_advancePc :
    (advancePc : S β Bool) (m, l) =
      if invalidPc l.pc then
        if l.pc = pcSerializeBefore then
          .ok true ({ m with hart := { m.hart with serialized := true } },
            { l with pc := m.hart.pc })
        else if l.pc = pcSerializeAfter then .ok true (m, ⟨m.hart.pc, l.instret + 1⟩)
        else .error .abort (m, l)
      else .ok false ({ m with hart := { m.hart with pc := l.pc } },
        { l with instret := l.instret + 1 }) := by
  unfold advancePc
  simp only [run_bind, run_localPc]
  cases invalidPc l.pc with
  | false => rfl
  | true =>
      simp only [if_true]
      by_cases hbefore : l.pc = pcSerializeBefore
      · rw [if_pos hbefore, if_pos hbefore]
        rfl
      · rw [if_neg hbefore, if_neg hbefore]
        by_cases hafter : l.pc = pcSerializeAfter
        · rw [if_pos hafter, if_pos hafter]
          rfl
        · rw [if_neg hafter, if_neg hafter]
          rfl

end Running

variable (P : Platform β) (F : SoftFloat)

/-! ## The parts of a turn -/

/-- The slow loop up to the instruction. -/
def slowFetch : S β (Decode.InsnFunc × Insn) := do
  if (← lift getHart).singleStep = .stepping then
    lift (modifyHart fun h => { h with singleStep := .stepped })
  let pc ← localPc
  lift (loadInsn P pc)

/-- The slow loop after the instruction; the result says whether it goes on. -/
def slowAfter (npc : Reg) : S β Bool := do
  setLocalPc npc
  if ← advancePc then return false
  if (← lift getHart).singleStep = .stepped then
    lift finishStep
    return false
  else return true

/-- The fast loop up to the instruction. -/
def fastLookup (at? : Option (Fin 1024)) : S β (Fin 1024) := do
  let pc ← localPc
  match at? with
  | some i => pure i
  | none => do
    lift (accessIcache P pc)
    pure (icacheIndex pc)

/-- The fast loop after the instruction of entry `i`: whether it goes on, and with which
entry. -/
def fastAfter (n : Nat) (i : Fin 1024) (npc : Reg) : S β (Option (Option (Fin 1024))) := do
  setLocalPc npc
  if hlast : i.val + 1 < 1024 then
    let next : Fin 1024 := ⟨i.val + 1, hlast⟩
    if ((← get).1.mmu.icache next).tag ≠ npc then
      if ← advancePc then return none
      let tag := ((← get).1.mmu.icache i).tag
      let pc ← localPc
      if tag < pc ∧ pc ≤ tag + 8 then lift (refillIcache P pc next)
      return some none
    else if (← get).2.instret + 1 = n then
      if ← advancePc then return none
      return some none
    else
      countRetired
      lift (modifyHart fun h => { h with pc := npc })
      return some (some next)
  else
    if ← advancePc then return none
    return some none

/-- The `switch` over the action of a trigger. -/
def triggerAction (t : TriggerMatched) : S β Unit := do
  let action := ((← lift getHart).mcontrol t.index).action
  if action = 1 then lift (enterDebugMode .hwbp)
  else if action = 0 then lift (takeTrap ⟨3, some t.address⟩ (← localPc))
  else throw .abort

/-- The catch block of a trigger after the instruction that it has run again; the result
says whether `advance_pc` has left the loop. -/
def restartAfter (npc : Reg) : S β Bool := do
  setLocalPc npc
  if ← advancePc then return true
  lift (modifyMmu fun u => { u with matchedTrigger := none })
  return false

/-! ## Points -/

/-- The places that call `execute_insn`. -/
inductive Site
  /-- The slow loop, with this many turns left afterwards. -/
  | slow (turns : Nat)
  /-- The fast loop, at entry `i` of the cache. -/
  | fast (turns : Nat) (i : Fin 1024)
  /-- The catch block of a trigger. -/
  | restart (t : TriggerMatched)

/-- Where a hart is in a call of `step`. -/
inductive Point (β : Type)
  /-- Outside of `step`. -/
  | idle (m : Machine β)
  /-- At the head of `while (n > 0)`. -/
  | head (n : Nat) (m : Machine β)
  | slow (n turns : Nat) (s : Machine β × Locals)
  | fast (n turns : Nat) (at? : Option (Fin 1024)) (s : Machine β × Locals)
  /-- Before `execute_insn`. -/
  | execute (site : Site) (n : Nat) (fetch : Decode.InsnFunc × Insn) (s : Machine β × Locals)
  /-- In a catch block. -/
  | caught (n : Nat) (e : Exn) (s : Machine β × Locals)
  /-- Before the action of a trigger. -/
  | action (n : Nat) (t : TriggerMatched) (s : Machine β × Locals)
  /-- An exception has left `step`. -/
  | stopped (e : Exn) (m : Machine β)

namespace Point

/-- The machine at a point. -/
def machine : Point β → Machine β
  | idle m | head _ m | stopped _ m => m
  | slow _ _ s | fast _ _ _ s | execute _ _ _ s | caught _ _ s | action _ _ s => s.1

def isIdle : Point β → Bool
  | idle _ => true
  | _ => false

theorem eq_idle {p : Point β} (h : p.isIdle = true) : p = .idle p.machine := by
  cases p with
  | idle m => rfl
  | head | slow | fast | execute | caught | action | stopped => all_goals cases h

def ofRound : Round β → Point β
  | .next left m => head left m
  | .exit m => idle m
  | .escape e m => stopped e m

/-- The end of the `try` block. -/
def ofTry (n : Nat) : EStateM.Result Exn (Machine β × Locals) Unit → Point β
  | .ok _ (m, l) => ofRound (endRound n l.instret m)
  | .error e s => caught n e s

/-- The point after the instruction at a site has returned `npc`. -/
def returned (n : Nat) (npc : Reg) (s : Machine β × Locals) : Site → Point β
  | .slow turns =>
    match slowAfter npc s with
    | .ok true s' => slow n turns s'
    | .ok false (m, l) => ofRound (endRound n l.instret m)
    | .error e s' => caught n e s'
  | .fast turns i =>
    match fastAfter P n i npc s with
    | .ok (some at?) s' => fast n turns at? s'
    | .ok none (m, l) => ofRound (endRound n l.instret m)
    | .error e s' => caught n e s'
  | .restart t =>
    match restartAfter npc s with
    | .ok true (m, _) => idle m
    | .ok false s' => action n t s'
    | .error e (m, _) => stopped e m

/-- The point after an exception of the instruction at a site. -/
def thrown (n : Nat) (e : Exn) (s : Machine β × Locals) : Site → Point β
  | .slow _ | .fast .. => caught n e s
  | .restart _ => stopped e s.1

/-- The next point inside of a call. -/
def next : Point β → Point β
  | idle m => idle m
  | stopped e m => stopped e m
  | head 0 m => idle m
  | head (n + 1) m =>
    match takeInterrupt m with
    | .ok _ m' =>
      if m'.hart.slowPath then slow (n + 1) (n + 1) (m', ⟨m.hart.pc, 0⟩)
      else fast (n + 1) (n + 1) none (m', ⟨m.hart.pc, 0⟩)
    | .error e m' => caught (n + 1) e (m', ⟨m.hart.pc, 0⟩)
  | slow n 0 (m, l) => ofRound (endRound n l.instret m)
  | slow n (turns + 1) s =>
    match slowFetch P s with
    | .ok fetch s' => execute (.slow turns) n fetch s'
    | .error e s' => caught n e s'
  | fast n 0 _ (m, l) => ofRound (endRound n l.instret m)
  | fast n (turns + 1) at? s =>
    match fastLookup P at? s with
    | .ok i s' => execute (.fast turns i) n ((s'.1.mmu.icache i).func, (s'.1.mmu.icache i).insn) s'
    | .error e s' => caught n e s'
  | execute site n fetch (m, l) =>
    match executeInsn P F l.pc fetch m with
    | .ok npc m' => returned P n npc (m', l) site
    | .error e m' => thrown n e (m', l) site
  | caught _ (.trap t) (m, l) =>
    match catchTrap t l.pc m with
    | .ok _ m' => ofRound (endRound l.instret l.instret m')
    | .error e m' => stopped e m'
  | caught n (.trigger t) (m, l) =>
    if m.mmu.matchedTrigger.isSome then
      match loadInsn P l.pc m with
      | .ok fetch m' => execute (.restart t) n fetch (m', l)
      | .error e m' => stopped e m'
    else action n t (m, l)
  | caught _ .abort (m, _) => stopped .abort m
  | action n t s =>
    match triggerAction t s with
    | .ok _ (m, l) => ofRound (endRound n l.instret m)
    | .error e (m, _) => stopped e m

end Point

/-- What the rest of the simulator may do to a hart between two calls of `step`: other
harts and the host write the memory, devices move on and set `mip`, the scheduler yields
the reservation, and the interactive mode sets `debug`. -/
structure Interferes (m m' : Machine β) : Prop where
  hart : ∃ mip debug reservation,
    (reservation = m.hart.loadReservation ∨ reservation = -1) ∧
      m'.hart = { m.hart with mip := mip, debug := debug, loadReservation := reservation }
  mmu : m'.mmu = m.mmu
  decoder : m'.decoder = m.decoder
  events : m'.events = m.events

/-- The steps of a hart. -/
inductive Next : Point β → Point β → Prop
  | interfere {m m' : Machine β} (h : Interferes m m') : Next (.idle m) (.idle m')
  | call {m m' : Machine β} (n : Nat) {left : Nat} (h : stepPrologue P n m = .ok left m') :
      Next (.idle m) (.head left m')
  | inside (p : Point β) (hcall : ∀ m, p ≠ .idle m) : Next p (p.next P F)

/-- Inside of a call there is one next point. -/
theorem Next.eq_next {P : Platform β} {F : SoftFloat} {p q : Point β} (h : Next P F p q)
    (hcall : ∀ m, p ≠ .idle m) : q = p.next P F := by
  cases h with
  | interfere => exact absurd rfl (hcall _)
  | call => exact absurd rfl (hcall _)
  | inside => rfl

/-! ## The small steps lead where the rounds do -/

/-- The machine after the start of a turn has been noted. -/
def Machine.beginTurn (m : Machine β) : Machine β :=
  if m.hart.singleStep = .stepping then
    { m with hart := { m.hart with singleStep := .stepped } }
  else m

theorem run_slowFetch (m : Machine β) (l : Locals) :
    slowFetch P (m, l) = lift (loadInsn P l.pc) (m.beginTurn, l) := by
  rw [slowFetch, Machine.beginTurn]
  simp only [run_bind, run_lift_getHart]
  split <;> rfl

/-- The turns of the slow loop. -/
theorem slowLoop_succ (turns : Nat) (m : Machine β) (l : Locals) :
    slowLoop P F (turns + 1) (m, l) =
      match slowFetch P (m, l) with
      | .error e s => .error e s
      | .ok fetch (m, l) =>
        match executeInsn P F l.pc fetch m with
        | .error e m => .error e (m, l)
        | .ok npc m =>
          match slowAfter npc (m, l) with
          | .error e s => .error e s
          | .ok false s => .ok () s
          | .ok true s => slowLoop P F turns s := by
  have hbegin : slowLoop P F (turns + 1) (m, l) = (do
      let fetch ← lift (loadInsn P l.pc)
      let npc ← lift (executeInsn P F l.pc fetch)
      setLocalPc npc
      if ← advancePc then return ()
      if (← lift getHart).singleStep = .stepped then lift finishStep
      else slowLoop P F turns : S β Unit) (m.beginTurn, l) := by
    rw [slowLoop, Machine.beginTurn]
    simp only [run_bind, run_lift_getHart]
    split <;> rfl
  rw [hbegin, run_slowFetch]
  simp only [run_bind, run_lift]
  cases loadInsn P l.pc m.beginTurn with
  | error e m => rfl
  | ok fetch m =>
      simp only [run_lift]
      cases executeInsn P F l.pc fetch m with
      | error e m => rfl
      | ok npc m =>
          simp only [slowAfter, run_bind, run_setLocalPc]
          cases advancePc (m, { l with pc := npc }) with
          | error e s => rfl
          | ok left s =>
              cases left with
              | true => rfl
              | false =>
                  obtain ⟨m, l⟩ := s
                  simp only [Bool.false_eq_true, if_false, run_bind, run_lift_getHart]
                  by_cases hstepped : m.hart.singleStep = .stepped
                  · simp only [if_pos hstepped, run_bind, run_lift]
                    cases finishStep m <;> rfl
                  · rw [if_neg hstepped, if_neg hstepped]
                    rfl

/-- The turns of the fast loop. -/
theorem fastLoop_succ (n turns : Nat) (at? : Option (Fin 1024)) (m : Machine β) (l : Locals) :
    fastLoop P F n (turns + 1) at? (m, l) =
      match fastLookup P at? (m, l) with
      | .error e s => .error e s
      | .ok i (m, l) =>
        match executeInsn P F l.pc ((m.mmu.icache i).func, (m.mmu.icache i).insn) m with
        | .error e m => .error e (m, l)
        | .ok npc m =>
          match fastAfter P n i npc (m, l) with
          | .error e s => .error e s
          | .ok none s => .ok () s
          | .ok (some at?) s => fastLoop P F n turns at? s := by
  -- Both sides look the entry up, so that the rest is about one entry.
  have hrest (i : Fin 1024) (m : Machine β) : (do
      let entry := (← get).1.mmu.icache i
      let npc ← lift (executeInsn P F l.pc (entry.func, entry.insn))
      setLocalPc npc
      if hlast : i.val + 1 < 1024 then
        let next : Fin 1024 := ⟨i.val + 1, hlast⟩
        if ((← get).1.mmu.icache next).tag ≠ npc then
          if ← advancePc then return ()
          let tag := ((← get).1.mmu.icache i).tag
          let pc ← localPc
          if tag < pc ∧ pc ≤ tag + 8 then lift (refillIcache P pc next)
          fastLoop P F n turns none
        else if (← get).2.instret + 1 = n then
          if ← advancePc then return ()
          fastLoop P F n turns none
        else
          countRetired
          lift (modifyHart fun h => { h with pc := npc })
          fastLoop P F n turns (some next)
      else
        if ← advancePc then return ()
        fastLoop P F n turns none : S β Unit) (m, l) =
      match executeInsn P F l.pc ((m.mmu.icache i).func, (m.mmu.icache i).insn) m with
      | .error e m => .error e (m, l)
      | .ok npc m =>
        match fastAfter P n i npc (m, l) with
        | .error e s => .error e s
        | .ok none s => .ok () s
        | .ok (some at?) s => fastLoop P F n turns at? s := by
    simp only [run_bind, run_get, run_lift]
    cases executeInsn P F l.pc ((m.mmu.icache i).func, (m.mmu.icache i).insn) m with
    | error e m => rfl
    | ok npc m =>
        simp only [fastAfter, run_bind, run_setLocalPc]
        by_cases hlast : i.val + 1 < 1024
        · simp only [dif_pos hlast, run_bind, run_get]
          by_cases hmiss : (m.mmu.icache ⟨i.val + 1, hlast⟩).tag ≠ npc
          · simp only [if_pos hmiss, run_bind]
            cases advancePc (m, { l with pc := npc }) with
            | error e s => rfl
            | ok left s =>
                cases left with
                | true => rfl
                | false =>
                    obtain ⟨m, l⟩ := s
                    simp only [Bool.false_eq_true, if_false, run_bind, run_get, run_localPc]
                    by_cases hnear : (m.mmu.icache i).tag < l.pc ∧
                        l.pc ≤ (m.mmu.icache i).tag + 8
                    · simp only [if_pos hnear, run_bind, run_lift]
                      cases refillIcache P l.pc ⟨i.val + 1, hlast⟩ m <;> rfl
                    · simp only [if_neg hnear]
                      rfl
          · simp only [if_neg hmiss, run_bind, run_get]
            by_cases hn : l.instret + 1 = n
            · simp only [if_pos hn, run_bind]
              cases advancePc (m, { l with pc := npc }) with
              | error e s => rfl
              | ok left s => cases left <;> rfl
            · simp only [if_neg hn]
              rfl
        · simp only [dif_neg hlast, run_bind]
          cases advancePc (m, { l with pc := npc }) with
          | error e s => rfl
          | ok left s => cases left <;> rfl
  rw [fastLoop, fastLookup]
  simp only [run_bind, run_localPc]
  cases at? with
  | some i => exact hrest i m
  | none =>
      simp only [run_bind, run_lift]
      cases accessIcache P l.pc m with
      | error e m => rfl
      | ok _ m => exact hrest (icacheIndex l.pc) m

/-- A path of small steps. -/
abbrev Reaches : Point β → Point β → Prop := Relation.ReflTransGen (Next P F)

open Relation in
/-- A point of a call leads where the next one does. -/
theorem Reaches.next {p q : Point β} (hcall : ∀ m, p ≠ .idle m)
    (h : Reaches P F (p.next P F) q) : Reaches P F p q :=
  ReflTransGen.head (.inside p hcall) h

/-- The points that follow are reached. -/
theorem reaches_iterate (p : Point β) (k : Nat) : Reaches P F p ((Point.next P F)^[k] p) := by
  induction k generalizing p with
  | zero => exact .refl
  | succ k ih =>
      rw [Function.iterate_succ_apply]
      cases p with
      | idle m => exact ih (.idle m)
      | head | slow | fast | execute | caught | action | stopped =>
          all_goals exact Reaches.next P F (by simp) (ih _)

/-- A call of `step` and the points that follow, as long as the call goes on. -/
theorem isRun_call {n left : Nat} {m m' : Machine β} (hcall : stepPrologue P n m = .ok left m')
    {r : ℕ → Point β} (hstart : r 0 = .idle m)
    (hnext : ∀ k, r (k + 1) = (Point.next P F)^[k] (.head left m')) {len : ℕ}
    (hinside : ∀ k < len, (r (k + 1)).isIdle = false) : IsRun (Next P F) r (len + 1) := by
  intro k hk
  cases k with
  | zero =>
      rw [hstart, hnext 0]
      exact .call n hcall
  | succ k =>
      have hstep : r (k + 1 + 1) = (r (k + 1)).next P F := by
        rw [hnext, hnext, Function.iterate_succ_apply']
      rw [hstep]
      refine .inside _ fun m heq => ?_
      have hidle := hinside k (by omega)
      rw [heq] at hidle
      cases hidle

theorem slow_reaches (n turns : Nat) (m : Machine β) (l : Locals) :
    Reaches P F (.slow n turns (m, l)) (.ofTry n (slowLoop P F turns (m, l))) := by
  induction turns generalizing m l with
  | zero => exact Reaches.next P F (by simp) .refl
  | succ turns ih =>
      refine Reaches.next P F (by simp) ?_
      rw [slowLoop_succ, Point.next]
      cases slowFetch P (m, l) with
      | error e s => exact .refl
      | ok fetch s =>
          obtain ⟨m, l⟩ := s
          refine Reaches.next P F (by simp) ?_
          rw [Point.next]
          cases hexec : executeInsn P F l.pc fetch m with
          | error e m =>
              simp only [hexec]
              exact .refl
          | ok npc m =>
              simp only [hexec, Point.returned]
              cases slowAfter npc (m, l) with
              | error e s => exact .refl
              | ok goesOn s =>
                  cases goesOn with
                  | false => exact .refl
                  | true => exact ih s.1 s.2

theorem fast_reaches (n turns : Nat) (at? : Option (Fin 1024)) (m : Machine β) (l : Locals) :
    Reaches P F (.fast n turns at? (m, l)) (.ofTry n (fastLoop P F n turns at? (m, l))) := by
  induction turns generalizing at? m l with
  | zero => exact Reaches.next P F (by simp) .refl
  | succ turns ih =>
      refine Reaches.next P F (by simp) ?_
      rw [fastLoop_succ, Point.next]
      cases fastLookup P at? (m, l) with
      | error e s => exact .refl
      | ok i s =>
          obtain ⟨m, l⟩ := s
          refine Reaches.next P F (by simp) ?_
          rw [Point.next]
          cases hexec : executeInsn P F l.pc ((m.mmu.icache i).func, (m.mmu.icache i).insn) m with
          | error e m =>
              simp only [hexec]
              exact .refl
          | ok npc m =>
              simp only [hexec, Point.returned]
              cases fastAfter P n i npc (m, l) with
              | error e s => exact .refl
              | ok goesOn s =>
                  cases goesOn with
                  | none => exact .refl
                  | some at? => exact ih at? s.1 s.2

/-- The parts of the catch block of a trigger. -/
theorem run_catchTrigger (t : TriggerMatched) (m : Machine β) (l : Locals) :
    catchTrigger P F t (m, l) =
      if m.mmu.matchedTrigger.isSome then
        match loadInsn P l.pc m with
        | .error e m => .error e (m, l)
        | .ok fetch m =>
          match executeInsn P F l.pc fetch m with
          | .error e m => .error e (m, l)
          | .ok npc m => (do
              if ← restartAfter npc then return true
              triggerAction t
              return false : S β Bool) (m, l)
      else (triggerAction t >>= fun _ => pure false) (m, l) := by
  have haction (m : Machine β) (l : Locals) : (do
      let action := ((← lift getHart).mcontrol t.index).action
      if action = 1 then lift (enterDebugMode .hwbp)
      else if action = 0 then lift (takeTrap ⟨3, some t.address⟩ (← localPc))
      else throw .abort
      return false : S β Bool) (m, l) = (triggerAction t >>= fun _ => pure false) (m, l) := by
    rw [triggerAction]
    simp only [run_bind, run_lift_getHart]
    by_cases hdebug : (m.hart.mcontrol t.index).action = 1
    · rw [if_pos hdebug, if_pos hdebug]
      rfl
    · rw [if_neg hdebug, if_neg hdebug]
      by_cases hexception : (m.hart.mcontrol t.index).action = 0
      · rw [if_pos hexception, if_pos hexception]
        rfl
      · rw [if_neg hexception, if_neg hexception]
        rfl
  rw [catchTrigger]
  simp only [run_bind, run_get]
  by_cases hmatched : m.mmu.matchedTrigger.isSome = true
  · simp only [if_pos hmatched, run_bind, run_localPc, run_lift]
    cases loadInsn P l.pc m with
    | error e m => rfl
    | ok fetch m =>
        simp only [run_lift]
        cases executeInsn P F l.pc fetch m with
        | error e m => rfl
        | ok npc m =>
            simp only [restartAfter, run_bind, run_setLocalPc]
            cases advancePc (m, { l with pc := npc }) with
            | error e s => rfl
            | ok left s =>
                cases left with
                | true => rfl
                | false => exact haction { s.1 with mmu := { s.1.mmu with matchedTrigger := none } } s.2
  · simp only [if_neg hmatched]
    exact haction m l

/-- The catch blocks. -/
def caughtRound (n : Nat) (e : Exn) (m : Machine β) (l : Locals) : Round β :=
  match e with
  | .trap t =>
    match catchTrap t l.pc m with
    | .ok _ m => endRound l.instret l.instret m
    | .error e m => .escape e m
  | .trigger t =>
    match catchTrigger P F t (m, l) with
    | .ok true (m, _) => .exit m
    | .ok false (m, l) => endRound n l.instret m
    | .error e (m, _) => .escape e m
  | .abort => .escape .abort m

theorem action_reaches (n : Nat) (t : TriggerMatched) (m : Machine β) (l : Locals) :
    Reaches P F (.action n t (m, l)) (.ofRound
      (match (triggerAction t >>= fun _ => pure false : S β Bool) (m, l) with
      | .ok true (m, _) => .exit m
      | .ok false (m, l) => endRound n l.instret m
      | .error e (m, _) => .escape e m)) := by
  refine Reaches.next P F (by simp) ?_
  rw [Point.next, run_bind]
  cases triggerAction t (m, l) <;> exact .refl

theorem caught_reaches (n : Nat) (e : Exn) (m : Machine β) (l : Locals) :
    Reaches P F (.caught n e (m, l)) (.ofRound (caughtRound P F n e m l)) := by
  refine Reaches.next P F (by simp) ?_
  cases e with
  | abort => exact .refl
  | trap t =>
      rw [Point.next, caughtRound]
      cases catchTrap t l.pc m <;> exact .refl
  | trigger t =>
      rw [Point.next, caughtRound, run_catchTrigger]
      by_cases hmatched : m.mmu.matchedTrigger.isSome = true
      · simp only [if_pos hmatched]
        cases loadInsn P l.pc m with
        | error e m => exact .refl
        | ok fetch m =>
            refine Reaches.next P F (by simp) ?_
            rw [Point.next]
            cases hexec : executeInsn P F l.pc fetch m with
            | error e m =>
                simp only [hexec]
                exact .refl
            | ok npc m =>
                simp only [hexec, Point.returned, run_bind]
                cases restartAfter npc (m, l) with
                | error e s => exact .refl
                | ok left s =>
                    cases left with
                    | true => exact .refl
                    | false => exact action_reaches P F n t s.1 s.2
      · simp only [if_neg hmatched]
        exact action_reaches P F n t m l

theorem head_reaches (n : Nat) (m : Machine β) :
    Reaches P F (.head (n + 1) m) (.ofRound (stepIter P F (n + 1) m)) := by
  have htry (r : EStateM.Result Exn (Machine β × Locals) Unit) :
      Reaches P F (.ofTry (n + 1) r) (.ofRound
        (match r with
        | .ok _ (m, l) => endRound (n + 1) l.instret m
        | .error e (m, l) => caughtRound P F (n + 1) e m l)) := by
    cases r with
    | ok _ s => exact .refl
    | error e s => exact caught_reaches P F (n + 1) e s.1 s.2
  have hstep : stepIter P F (n + 1) m =
      match tryBlock P F (n + 1) (m, ⟨m.hart.pc, 0⟩) with
      | .ok _ (m, l) => endRound (n + 1) l.instret m
      | .error e (m, l) => caughtRound P F (n + 1) e m l := by
    rw [stepIter]
    cases tryBlock P F (n + 1) (m, ⟨m.hart.pc, 0⟩) with
    | ok _ s => rfl
    | error e s => cases e <;> rfl
  rw [hstep]
  refine Relation.ReflTransGen.trans ?_ (htry _)
  refine Reaches.next P F (by simp) ?_
  rw [Point.next, tryBlock]
  simp only [run_bind, run_lift]
  cases takeInterrupt m with
  | error e m' => exact .refl
  | ok _ m' =>
      simp only [run_lift_getHart]
      cases m'.hart.slowPath with
      | true => exact slow_reaches P F (n + 1) (n + 1) m' _
      | false => exact fast_reaches P F (n + 1) (n + 1) none m' _

/-- **The small steps lead where the rounds do.** -/
theorem rounds_reach {n : Nat} {m m' : Machine β} (h : Rounds P F n m m') :
    Reaches P F (.head n m) (.idle m') := by
  induction h with
  | done m => exact Reaches.next P F (by simp) .refl
  | round one _ ih =>
      refine Relation.ReflTransGen.trans (head_reaches P F _ _) ?_
      rw [one]
      exact ih
  | exit one =>
      refine Relation.ReflTransGen.trans (head_reaches P F _ _) ?_
      rw [one]
      exact .refl

/-- A call of `step` that returns is a path between two points outside of it. -/
theorem stepsTo_reaches {n : Nat} {m m' : Machine β} (h : StepsTo P F n m m') :
    Reaches P F (.idle m) (.idle m') := by
  obtain ⟨left, mid, hprologue, hrounds⟩ := h
  exact Relation.ReflTransGen.head (.call n hprologue) (rounds_reach P F hrounds)

end SpikeSim.Riscv
