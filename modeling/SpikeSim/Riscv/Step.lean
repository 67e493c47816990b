/-
# The fetch, decode and execute loop

`processor_t::step`: the prologue, the slow loop that fetches every instruction,
the fast loop that runs through the instruction cache with a Duff's device, and
the two catch blocks.  The local variables `pc` and `instret` are read by the catch
blocks, so they are part of the state of the loops.

One round of `while (n > 0)` is `stepIter`.  Both inner loops retire an
instruction in every turn but the last, so `n` bounds their turns; the rounds need
not come to an end and are a relation.
-/

import SpikeSim.Riscv.Insns

namespace SpikeSim.Riscv

variable {β : Type}

/-- The locals of `step` that outlive an exception. -/
structure Locals where
  pc : Reg
  instret : Nat
  deriving DecidableEq, Repr

/-- Code inside the `try` block. -/
abbrev S (β : Type) := EStateM Exn (Machine β × Locals)

/-- A method of the processor or the memory port does not touch the locals. -/
def lift {α : Type} (x : M β α) : S β α := fun (m, l) =>
  match x m with
  | .ok a m' => .ok a (m', l)
  | .error e m' => .error e (m', l)

def localPc : S β Reg := do return (← get).2.pc

def setLocalPc (pc : Reg) : S β Unit := modify fun (m, l) => (m, { l with pc := pc })

def countRetired : S β Unit := modify fun (m, l) => (m, { l with instret := l.instret + 1 })

variable (P : Platform β) (F : SoftFloat)

/-- `execute_insn`.  An instruction that asks to be serialized first is not
retired. -/
def executeInsn (pc : Reg) (fetch : Decode.InsnFunc × Insn) : M β Reg := do
  let npc ← callFunc P F fetch.1 fetch.2 pc
  if npc ≠ pcSerializeBefore then record (.retired pc fetch.2.bits)
  return npc

/-- `advance_pc`; the result says whether it `break`s out of the loop. -/
def advancePc : S β Bool := do
  let pc ← localPc
  if invalidPc pc then
    if pc = pcSerializeBefore then
      lift (modifyHart fun h => { h with serialized := true })
    else if pc = pcSerializeAfter then countRetired
    else throw .abort
    setLocalPc (← lift getHart).pc
    return true
  else
    lift (modifyHart fun h => { h with pc := pc })
    countRetired
    return false

/-- `slow_path`. -/
def Hart.slowPath (h : Hart) : Bool := h.debug || h.singleStep != .none || h.inDebugMode

/-- The end of a single step. -/
def finishStep : M β Unit := do
  modifyHart fun h => { h with singleStep := .none }
  enterDebugMode .step

/-- The slow loop: at most `turns` instructions, each fetched anew. -/
def slowLoop : (turns : Nat) → S β Unit
  | 0 => pure ()
  | turns + 1 => do
    if (← lift getHart).singleStep = .stepping then
      lift (modifyHart fun h => { h with singleStep := .stepped })
    let pc ← localPc
    let fetch ← lift (loadInsn P pc)
    let npc ← lift (executeInsn P F pc fetch)
    setLocalPc npc
    if ← advancePc then return ()
    -- The sentinels have left the loop, so this instruction was retired.
    if (← lift getHart).singleStep = .stepped then lift finishStep
    else slowLoop turns

/-- The fast loop.  Outside of the switch the entry for `pc` is looked up; inside
it execution falls through to the next entry `i` as long as that is tagged with
the next pc. -/
def fastLoop (n : Nat) : (turns : Nat) → (at? : Option (Fin 1024)) → S β Unit
  | 0, _ => pure ()
  | turns + 1, at? => do
    let pc ← localPc
    let i ← match at? with
      | some i => pure i
      | none => do
        lift (accessIcache P pc)
        pure (icacheIndex pc)
    let entry := (← get).1.mmu.icache i
    let npc ← lift (executeInsn P F pc (entry.func, entry.insn))
    setLocalPc npc
    if hlast : i.val + 1 < 1024 then
      let next : Fin 1024 := ⟨i.val + 1, hlast⟩
      if ((← get).1.mmu.icache next).tag ≠ npc then
        -- The label `miss`.
        if ← advancePc then return ()
        let tag := ((← get).1.mmu.icache i).tag
        let pc ← localPc
        if tag < pc ∧ pc ≤ tag + 8 then lift (refillIcache P pc next)
        fastLoop n turns none
      else if (← get).2.instret + 1 = n then
        if ← advancePc then return ()
        fastLoop n turns none
      else
        countRetired
        lift (modifyHart fun h => { h with pc := npc })
        fastLoop n turns (some next)
    else
      if ← advancePc then return ()
      fastLoop n turns none

/-- The body of the `try` block. -/
def tryBlock (n : Nat) : S β Unit := do
  lift takeInterrupt
  if (← lift getHart).slowPath then slowLoop P F n else fastLoop P F n n none

/-- The handler of `trap_t`. -/
def catchTrap (t : Trap) (pc : Reg) : M β Unit := do
  takeTrap t pc
  if (← getHart).singleStep = .stepped then finishStep

/-- The handler of `trigger_matched_t`.  A match of the memory port is thrown
before the instruction is complete, so it is run again.  The result says whether
`advance_pc` has left the loop over `n`. -/
def catchTrigger (t : TriggerMatched) : S β Bool := do
  if (← get).1.mmu.matchedTrigger.isSome then
    let pc ← localPc
    let fetch ← lift (loadInsn P pc)
    let npc ← lift (executeInsn P F pc fetch)
    setLocalPc npc
    if ← advancePc then return true
    lift (modifyMmu fun u => { u with matchedTrigger := none })
  let action := ((← lift getHart).mcontrol t.index).action
  if action = 1 then lift (enterDebugMode .hwbp)
  else if action = 0 then lift (takeTrap ⟨3, some t.address⟩ (← localPc))
  else throw .abort
  return false

/-- How a round of `while (n > 0)` ends. -/
inductive Round (β : Type)
  /-- `left` instructions remain. -/
  | next (left : Nat) (m : Machine β)
  /-- The loop is left by `break`. -/
  | exit (m : Machine β)
  /-- An exception leaves `step`. -/
  | escape (e : Exn) (m : Machine β)

/-- The end of a round. -/
def endRound (n instret : Nat) (m : Machine β) : Round β :=
  .next (n - instret)
    { m with hart := { m.hart with minstret := m.hart.minstret + BitVec.ofNat 64 instret } }

def stepIter (n : Nat) (m : Machine β) : Round β :=
  match tryBlock P F n (m, ⟨m.hart.pc, 0⟩) with
  | .ok _ (m, l) => endRound n l.instret m
  | .error (.trap t) (m, l) =>
    match catchTrap t l.pc m with
    | .ok _ m => endRound l.instret l.instret m
    | .error e m => .escape e m
  | .error (.trigger t) (m, l) =>
    match catchTrigger P F t (m, l) with
    | .ok true (m, _) => .exit m
    | .ok false (m, l) => endRound n l.instret m
    | .error e (m, _) => .escape e m
  | .error .abort (m, _) => .escape .abort m

/-- The code before the loop. -/
def stepPrologue (n : Nat) : M β Nat := do
  if (← getHart).inDebugMode then return min n 11
  if P.debugInterrupt (← get).dev then enterDebugMode .debugint
  else if (← getHart).dcsr.halt then enterDebugMode .halt
  return n

/-- The rounds of a call of `step` with `n` instructions left. -/
inductive Rounds : Nat → Machine β → Machine β → Prop
  | done (m : Machine β) : Rounds 0 m m
  | round {n left : Nat} {m mid m' : Machine β} (one : stepIter P F (n + 1) m = .next left mid)
      (rest : Rounds left mid m') : Rounds (n + 1) m m'
  | exit {n : Nat} {m m' : Machine β} (one : stepIter P F (n + 1) m = .exit m') :
      Rounds (n + 1) m m'

/-- A call of `step` that returns. -/
def StepsTo (n : Nat) (m m' : Machine β) : Prop :=
  ∃ left mid, stepPrologue P n m = .ok left mid ∧ Rounds P F left mid m'

end SpikeSim.Riscv
