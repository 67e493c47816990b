/-
# Collecting page-table entries

`collect_translation_info_op_t` reads `sptbr` and then one page-table entry after the other,
until a walk through the entries that are known finds an end.  Each entry that arrives takes
the walk at least one level further, so the operation ends, whatever the hart answers, and
`translate` does not die afterwards.
-/

import SpikeSim.Gdb.Queue

namespace SpikeSim.Gdb

open Riscv (VmShape pgshift pteTable)

variable {c : Reg → Option Reg} {ptidxbits ptesize : Nat} {vaddr : Reg}

/-! ## The walk -/

/-- The levels that are left when the walk misses an entry; none if it does not. -/
def missingLevels (c : Reg → Option Reg) (ptidxbits ptesize : Nat) (vaddr : Reg) :
    (levels : Nat) → (base : Reg) → Nat
  | 0, _ => 0
  | level + 1, base =>
      let idx := (vaddr >>> (pgshift + level * ptidxbits)) &&& ((1 <<< ptidxbits) - 1)
      match c (base + idx * BitVec.ofNat 64 ptesize) with
      | none => level + 1
      | some pte =>
          if pteTable pte then missingLevels c ptidxbits ptesize vaddr level ((pte >>> 10) <<< pgshift)
          else 0

/-- The address of the entry that a walk looks for. -/
def entryAddr (ptidxbits ptesize : Nat) (vaddr : Reg) (level : Nat) (base : Reg) : Reg :=
  base + ((vaddr >>> (pgshift + level * ptidxbits)) &&& ((1 <<< ptidxbits) - 1)) *
    BitVec.ofNat 64 ptesize

theorem walkCache_succ (level : Nat) (base : Reg) :
    walkCache c ptidxbits ptesize vaddr (level + 1) base =
      match c (entryAddr ptidxbits ptesize vaddr level base) with
      | none => .missing (entryAddr ptidxbits ptesize vaddr level base)
      | some pte =>
          if pteTable pte then
            walkCache c ptidxbits ptesize vaddr level ((pte >>> 10) <<< pgshift)
          else .leaf pte (level * ptidxbits) := rfl

theorem missingLevels_succ (level : Nat) (base : Reg) :
    missingLevels c ptidxbits ptesize vaddr (level + 1) base =
      match c (entryAddr ptidxbits ptesize vaddr level base) with
      | none => level + 1
      | some pte =>
          if pteTable pte then
            missingLevels c ptidxbits ptesize vaddr level ((pte >>> 10) <<< pgshift)
          else 0 := rfl

theorem missingLevels_le (levels : Nat) (base : Reg) :
    missingLevels c ptidxbits ptesize vaddr levels base ≤ levels := by
  induction levels generalizing base with
  | zero => exact le_rfl
  | succ level ih =>
      rw [missingLevels_succ]
      cases c (entryAddr ptidxbits ptesize vaddr level base) with
      | none => exact le_rfl
      | some pte =>
          dsimp only
          split
          · exact (ih _).trans level.le_succ
          · exact Nat.zero_le _

theorem missingLevels_pos {a : Reg} {levels : Nat} {base : Reg}
    (h : walkCache c ptidxbits ptesize vaddr levels base = .missing a) :
    0 < missingLevels c ptidxbits ptesize vaddr levels base := by
  induction levels generalizing base with
  | zero => cases h
  | succ level ih =>
      rw [walkCache_succ] at h
      rw [missingLevels_succ]
      cases hentry : c (entryAddr ptidxbits ptesize vaddr level base) with
      | none => exact level.succ_pos
      | some pte =>
          simp only [hentry] at h ⊢
          cases htable : pteTable pte with
          | false =>
              simp only [htable, Bool.false_eq_true, if_false] at h
              cases h
          | true =>
              simp only [htable, if_true] at h ⊢
              exact ih h

/-- An entry that was missing was not met before. -/
theorem eq_none_of_missing {a : Reg} {levels : Nat} {base : Reg}
    (h : walkCache c ptidxbits ptesize vaddr levels base = .missing a) : c a = none := by
  induction levels generalizing base with
  | zero => cases h
  | succ level ih =>
      rw [walkCache_succ] at h
      cases hentry : c (entryAddr ptidxbits ptesize vaddr level base) with
      | none =>
          simp only [hentry] at h
          cases h
          exact hentry
      | some pte =>
          simp only [hentry] at h
          cases htable : pteTable pte with
          | false =>
              simp only [htable, Bool.false_eq_true, if_false] at h
              cases h
          | true =>
              simp only [htable, if_true] at h
              exact ih h

/-- **An entry that arrives takes the walk further.** -/
theorem missingLevels_update {a : Reg} (v : Reg) {levels : Nat} {base : Reg}
    (h : walkCache c ptidxbits ptesize vaddr levels base = .missing a) :
    missingLevels (Function.update c a (some v)) ptidxbits ptesize vaddr levels base
      < missingLevels c ptidxbits ptesize vaddr levels base := by
  have hnone := eq_none_of_missing h
  induction levels generalizing base with
  | zero => cases h
  | succ level ih =>
      rw [walkCache_succ] at h
      rw [missingLevels_succ, missingLevels_succ]
      cases hentry : c (entryAddr ptidxbits ptesize vaddr level base) with
      | none =>
          simp only [hentry] at h
          cases h
          simp only [Function.update_self]
          split
          · exact Nat.lt_succ_of_le (missingLevels_le _ _)
          · exact level.succ_pos
      | some pte =>
          have hne : entryAddr ptidxbits ptesize vaddr level base ≠ a := by
            intro heq
            rw [heq, hnone] at hentry
            cases hentry
          simp only [Function.update_of_ne hne, hentry] at h ⊢
          cases htable : pteTable pte with
          | false =>
              simp only [htable, Bool.false_eq_true, if_false] at h
              cases h
          | true =>
              simp only [htable, if_true] at h ⊢
              exact ih h

/-! ## The operation -/

variable {P : GdbServer → Prop} {s : GdbServer} {n : Nat}

/-- The server knows the mode, and the hart can read an entry at once. -/
def TablesKnown (s : GdbServer) : Prop :=
  ∃ tables, tableShape s.virtualMemory = some tables ∧
    ∀ shape ∈ tables, shape.ptesize = 4 ∨ 64 ≤ s.xlen

/-- `translate` returns. -/
def Translates (s : GdbServer) (vaddr : Reg) : Prop := Does (translate vaddr) s fun _ s' => s' = s

/-- What the next step of the operation is. -/
def nextCollect (s : GdbServer) (op : CollectTranslationInfo) : Option Operation :=
  if s.sptbrValid then
    match walkCache s.pteCache op.ptidxbits op.ptesize op.vaddr op.levels (s.sptbr <<< pgshift) with
    | .missing a => some (.collectTranslationInfo { op with state := .readPte, pteAddr := a })
    | _ => none
  else some (.collectTranslationInfo { op with state := .readSptbr })

theorem does_askTranslationInfo {op : CollectTranslationInfo} (hs : Wide s)
    (hsize : op.ptesize = 4 ∨ 64 ≤ s.xlen) :
    Does (askTranslationInfo op) s fun r s' => Emits s [] s' ∧ r = nextCollect s op := by
  apply Does.get_bind
  cases hvalid : s.sptbrValid with
  | false =>
      simp only [nextCollect, hvalid, Bool.false_eq_true, if_false, Bool.not_false, if_true]
      apply Silent.at _ hs
      exact (Quiet.drWrite32 _ _).followed fun _ => (Quiet.drWriteStore _ rfl).followed fun _ =>
        (Quiet.drWriteJump _).followed fun _ => Quiet.setInterrupt.followed fun _ =>
        Silent.pure rfl
  | true =>
      simp only [nextCollect, hvalid, Bool.not_true, Bool.false_eq_true, if_false, if_true]
      cases hwalk : walkCache s.pteCache op.ptidxbits op.ptesize op.vaddr op.levels
          (s.sptbr <<< pgshift) with
      | leaf pte ptshift => exact Silent.at (Silent.pure rfl) hs
      | exhausted => exact Silent.at (Silent.pure rfl) hs
      | missing a =>
          apply Silent.at _ hs
          dsimp only
          have hlast : Silent (do
              drWriteJump 3
              drWrite32 4 (a.setWidth 32)
              drWrite32 5 ((a >>> 32).setWidth 32)
              setInterrupt
              return some (Operation.collectTranslationInfo
                { op with state := .readPte, pteAddr := a }))
              fun r => r = some (Operation.collectTranslationInfo
                { op with state := .readPte, pteAddr := a }) :=
            (Quiet.drWriteJump _).followed fun _ => (Quiet.drWrite32 _ _).followed fun _ =>
              (Quiet.drWrite32 _ _).followed fun _ => Quiet.setInterrupt.followed fun _ =>
              Silent.pure rfl
          split
          · exact (Quiet.drWrite32 _ _).followed fun _ => (Quiet.drWrite32 _ _).followed fun _ =>
              (Quiet.drWrite32 _ _).followed fun _ => hlast
          · next hfour =>
              rw [if_neg (Nat.not_lt.mpr (hsize.resolve_left hfour))]
              exact (Quiet.drWrite32 _ _).followed fun _ => (Quiet.drWrite32 _ _).followed fun _ =>
                (Quiet.drWrite32 _ _).followed fun _ => hlast

/-- An entry that arrived. -/
def GdbServer.withPte (s : GdbServer) (a pte : Reg) : GdbServer :=
  { s with pteCache := Function.update s.pteCache a (some pte) }

theorem exists_storeTranslationInfo {op : CollectTranslationInfo} (h : op.state = .readPte)
    (s : GdbServer) : ∃ pte, storeTranslationInfo op s = .ok () (s.withPte op.pteAddr pte) := by
  have hread : ∃ pte, readPte op.ptesize s = .ok pte s := by
    by_cases hfour : op.ptesize = 4
    · exact ⟨_, by rw [readPte, if_pos hfour]; rfl⟩
    · exact ⟨_, by rw [readPte, if_neg hfour]; rfl⟩
  obtain ⟨pte, hpte⟩ := hread
  exact ⟨pte, by simp only [storeTranslationInfo, h, run_bind, hpte]; rfl⟩

/-- The walk does not miss an entry. -/
theorem translates_of_walk {shape : VmShape} (hvm : tableShape s.virtualMemory = some (some shape))
    (h : ∀ a, walkCache s.pteCache shape.ptidxbits shape.ptesize vaddr shape.levels
      (s.sptbr <<< pgshift) ≠ .missing a) : Translates s vaddr := by
  have htables : currentTables s = .ok (some shape) s := by
    simp only [currentTables, run_bind, run_get, hvm]
    rfl
  cases hwalk : walkCache s.pteCache shape.ptidxbits shape.ptesize vaddr shape.levels
      (s.sptbr <<< pgshift) with
  | missing a => exact absurd hwalk (h a)
  | leaf pte ptshift =>
      have hrun : translate vaddr s = .ok (leafAddr vaddr pte ptshift) s := by
        simp only [translate, run_bind, htables, run_get, hwalk]
        rfl
      exact Does.of_ok hrun rfl
  | exhausted =>
      have hrun : translate vaddr s = .ok (-1) s := by
        simp only [translate, run_bind, htables, run_get, hwalk]
        rfl
      exact Does.of_ok hrun rfl

theorem translates_of_bare (hvm : tableShape s.virtualMemory = some none) : Translates s vaddr := by
  have htables : currentTables s = .ok none s := by
    simp only [currentTables, run_bind, run_get, hvm]
    rfl
  have hrun : translate vaddr s = .ok vaddr s := by
    simp only [translate, run_bind, htables]
    rfl
  exact Does.of_ok hrun rfl

/-- The same output, width and mode. -/
structure Gathers (s s' : GdbServer) : Prop where
  sent : s'.sent = s.sent
  size : s'.sendBuf.size = 0
  capacity : s'.sendBuf.capacity = s.sendBuf.capacity
  xlen : s'.xlen = s.xlen
  mstatus : s'.mstatus = s.mstatus
  dcsr : s'.dcsr = s.dcsr

theorem Gathers.trans {s s' s'' : GdbServer} (h : Gathers s s') (h' : Gathers s' s'') :
    Gathers s s'' :=
  ⟨h'.sent.trans h.sent, h'.size, h'.capacity.trans h.capacity, h'.xlen.trans h.xlen,
    h'.mstatus.trans h.mstatus, h'.dcsr.trans h.dcsr⟩

theorem virtualMemory_congr {s s' : GdbServer} (hm : s'.mstatus = s.mstatus)
    (hd : s'.dcsr = s.dcsr) : s'.virtualMemory = s.virtualMemory := by
  rw [GdbServer.virtualMemory, GdbServer.virtualMemory, GdbServer.privilegeMode,
    GdbServer.privilegeMode, hm, hd]

/-- The operation has the shape of the tables in use, and it may ask for entries. -/
structure Collecting (s : GdbServer) (op : CollectTranslationInfo) : Prop where
  wide : Wide s
  capacity : s.sendBuf.capacity = 65536
  tables : tableShape s.virtualMemory = some (some ⟨op.levels, op.ptidxbits, op.ptesize⟩)
  readable : op.ptesize = 4 ∨ 64 ≤ s.xlen

theorem Collecting.gathers {s s' : GdbServer} {op op' : CollectTranslationInfo}
    (h : Collecting s op) (hg : Gathers s s') (hl : op'.levels = op.levels)
    (hb : op'.ptidxbits = op.ptidxbits) (hz : op'.ptesize = op.ptesize) : Collecting s' op' where
  wide := by rw [Wide, hg.xlen]; exact h.wide
  capacity := hg.capacity.trans h.capacity
  tables := by rw [virtualMemory_congr hg.mstatus hg.dcsr, hl, hb, hz]; exact h.tables
  readable := by rw [hz, hg.xlen]; exact h.readable

/-- The levels that the operation has to go through. -/
def CollectTranslationInfo.missing (op : CollectTranslationInfo) (s : GdbServer) : Nat :=
  missingLevels s.pteCache op.ptidxbits op.ptesize op.vaddr op.levels (s.sptbr <<< pgshift)

def CollectTranslationInfo.walk (op : CollectTranslationInfo) (s : GdbServer) : CacheWalk :=
  walkCache s.pteCache op.ptidxbits op.ptesize op.vaddr op.levels (s.sptbr <<< pgshift)

theorem nextCollect_of_missing {op : CollectTranslationInfo} {a : Reg}
    (hvalid : s.sptbrValid = true) (h : op.walk s = .missing a) :
    nextCollect s op =
      some (.collectTranslationInfo { op with state := .readPte, pteAddr := a }) := by
  rw [CollectTranslationInfo.walk] at h
  simp only [nextCollect, hvalid, if_true, h]

theorem nextCollect_of_not_missing {op : CollectTranslationInfo} (hvalid : s.sptbrValid = true)
    (h : ∀ a, op.walk s ≠ .missing a) : nextCollect s op = none := by
  simp only [CollectTranslationInfo.walk] at h
  simp only [nextCollect, hvalid, if_true]

/-- From the step in which the next entry is asked for. -/
theorem completes_ask {op : CollectTranslationInfo} {step m : Nat} {s₁ : GdbServer}
    {rest : List (Operation × Nat)} (hc : Collecting s₁ op) (hvalid : s₁.sptbrValid = true)
    (hqueue : s₁.operationQueue.tail = rest) (hm : op.missing s₁ ≤ m)
    (hmore : ∀ s' a, Gathers s₁ s' → s'.sptbrValid = true →
      op.walk s' = .missing a → op.missing s' ≤ m →
      s'.operationQueue = (.collectTranslationInfo { op with state := .readPte, pteAddr := a },
        step + 1) :: rest → CompletesIn P n s')
    (hdone : ∀ s', Gathers s₁ s' → Translates s' op.vaddr → s'.operationQueue = rest →
      CompletesIn P n s') :
    Does (askTranslationInfo op) s₁ fun r s' => CompletesIn P n (s'.advance r step) := by
  apply (does_askTranslationInfo hc.wide hc.readable).imp
  rintro _ s' ⟨he, rfl⟩
  have hg (r : Option Operation) : Gathers s₁ (s'.advance r step) :=
    have ha := Emits.advance (d := s₁.debugModule) he hc.capacity r step
    ⟨ha.sent.trans (List.append_nil _), ha.size, ha.capacity, ha.xlen, ha.mstatus, ha.dcsr⟩
  have hwalk (r : Option Operation) : op.walk (s'.advance r step) = op.walk s₁ := by
    simp only [CollectTranslationInfo.walk, GdbServer.advance, he.pteCache, he.sptbr]
  have hmissing (r : Option Operation) : op.missing (s'.advance r step) = op.missing s₁ := by
    simp only [CollectTranslationInfo.missing, GdbServer.advance, he.pteCache, he.sptbr]
  by_cases hw : ∃ a, op.walk s₁ = .missing a
  · obtain ⟨a, hw⟩ := hw
    rw [nextCollect_of_missing hvalid hw]
    apply hmore _ a (hg _) (he.sptbrValid.trans hvalid) ((hwalk _).trans hw)
      ((hmissing _).le.trans hm)
    simp only [GdbServer.advance, he.operationQueue, hqueue]
  · rw [nextCollect_of_not_missing hvalid fun a ha => hw ⟨a, ha⟩]
    apply hdone _ (hg _)
    · apply translates_of_walk (hc.gathers (hg none) rfl rfl rfl).tables
      exact fun a ha => hw ⟨a, (hwalk none).symm.trans ha⟩
    · simp only [GdbServer.advance, he.operationQueue, hqueue]

/-- **The operation ends.**  Each entry that arrives is found by the next walk. -/
theorem completes_readPte {op : CollectTranslationInfo} {step m : Nat}
    {rest : List (Operation × Nat)} (hc : Collecting s op) (hstate : op.state = .readPte)
    (hstep : step ≠ 0) (hvalid : s.sptbrValid = true) (hmiss : op.walk s = .missing op.pteAddr)
    (hm : op.missing s ≤ m)
    (hq : s.operationQueue = (.collectTranslationInfo op, step) :: rest)
    (hdone : ∀ s', Gathers s s' → Translates s' op.vaddr → s'.operationQueue = rest →
      CompletesIn P n s') : CompletesIn P (n + m) s := by
  induction m generalizing s op step with
  | zero =>
      have hpos : 0 < op.missing s := missingLevels_pos hmiss
      omega
  | succ m ih =>
      change CompletesIn P (n + m + 1) s
      apply CompletesIn.front hq
      intro d _
      obtain ⟨pte, hstore⟩ := exists_storeTranslationInfo hstate (s.withDebugModule d)
      have hperform : performStep step (.collectTranslationInfo op) =
          storeTranslationInfo op >>= fun _ => askTranslationInfo op := by
        simp only [performStep, stepCollectTranslationInfo, if_neg hstep]
      rw [hperform]
      apply Does.bind_ok hstore
      have hfewer : op.missing ((s.withDebugModule d).withPte op.pteAddr pte) < op.missing s :=
        missingLevels_update pte hmiss
      have hg : ∀ s', Gathers ((s.withDebugModule d).withPte op.pteAddr pte) s' → Gathers s s' :=
        fun s' h => ⟨h.sent, h.size, h.capacity, h.xlen, h.mstatus, h.dcsr⟩
      have hc₁ : Collecting ((s.withDebugModule d).withPte op.pteAddr pte) op :=
        ⟨hc.wide, hc.capacity, hc.tables, hc.readable⟩
      apply completes_ask hc₁ hvalid (congrArg List.tail hq) (m := m) (by omega)
      · intro s' a hs' hvalid' hwalk' hm' hq'
        have hc' : Collecting s' { op with state := .readPte, pteAddr := a } :=
          hc.gathers (hg s' hs') rfl rfl rfl
        apply ih hc' rfl (Nat.succ_ne_zero step) hvalid' hwalk' hm' hq'
        exact fun s'' hs'' => hdone s'' ((hg s' hs').trans hs'')
      · intro s' hs' htranslates hq'
        exact (hdone s' (hg s' hs') htranslates hq').mono (by omega)

/-- From a step in which `sptbr` is known. -/
theorem completes_ask_all {op : CollectTranslationInfo} {step : Nat} {s₁ : GdbServer}
    {rest : List (Operation × Nat)} (hc : Collecting s₁ op) (hvalid : s₁.sptbrValid = true)
    (hqueue : s₁.operationQueue.tail = rest)
    (hdone : ∀ s', Gathers s₁ s' → Translates s' op.vaddr → s'.operationQueue = rest →
      CompletesIn P n s') :
    Does (askTranslationInfo op) s₁ fun r s' =>
      CompletesIn P (n + op.levels) (s'.advance r step) := by
  apply completes_ask hc hvalid hqueue (m := op.levels) (missingLevels_le _ _)
  · intro s' a hs' hvalid' hwalk' hm' hq'
    have hc' : Collecting s' { op with state := .readPte, pteAddr := a } :=
      hc.gathers hs' rfl rfl rfl
    apply completes_readPte hc' rfl (Nat.succ_ne_zero step) hvalid' hwalk' hm' hq'
    exact fun s'' hs'' => hdone s'' (hs'.trans hs'')
  · intro s' hs' htranslates hq'
    exact (hdone s' hs' htranslates hq').mono (by omega)

/-- The number of steps in which the operation ends. -/
def collectSteps (s : GdbServer) : Nat :=
  match tableShape s.virtualMemory with
  | some (some shape) => shape.levels + 2
  | _ => 1

/-- `sptbr` arrived. -/
def GdbServer.withSptbr (s : GdbServer) (sptbr : Reg) : GdbServer :=
  { s with sptbr := sptbr, sptbrValid := true }

theorem exists_storeSptbr {op : CollectTranslationInfo} (h : op.state = .readSptbr)
    (hs : Wide s) : ∃ sptbr, storeTranslationInfo op s = .ok () (s.withSptbr sptbr) := by
  have hread : ∃ value, drRead .data0 s = .ok value s := by
    rcases hs with hx | hx
    · exact ⟨_, by simp only [drRead, run_bind, run_get, hx]; rfl⟩
    · exact ⟨_, by simp only [drRead, run_bind, run_get, hx]; rfl⟩
  obtain ⟨sptbr, hsptbr⟩ := hread
  exact ⟨sptbr, by simp only [storeTranslationInfo, h, run_bind, hsptbr]; rfl⟩

theorem run_currentTables {tables : Option VmShape}
    (h : tableShape s.virtualMemory = some tables) : currentTables s = .ok tables s := by
  simp only [currentTables, run_bind, run_get, h]
  rfl

/-- From the step in which `sptbr` arrives. -/
theorem completes_readSptbr {op : CollectTranslationInfo} {step : Nat}
    {rest : List (Operation × Nat)} (hc : Collecting s op) (hstate : op.state = .readSptbr)
    (hstep : step ≠ 0) (hq : s.operationQueue = (.collectTranslationInfo op, step) :: rest)
    (hdone : ∀ s', Gathers s s' → Translates s' op.vaddr → s'.operationQueue = rest →
      CompletesIn P n s') : CompletesIn P (n + op.levels + 1) s := by
  apply CompletesIn.front hq
  intro d _
  obtain ⟨sptbr, hstore⟩ := exists_storeSptbr (s := s.withDebugModule d) hstate hc.wide
  have hperform : performStep step (.collectTranslationInfo op) =
      storeTranslationInfo op >>= fun _ => askTranslationInfo op := by
    simp only [performStep, stepCollectTranslationInfo, if_neg hstep]
  rw [hperform]
  apply Does.bind_ok hstore
  have hc₁ : Collecting ((s.withDebugModule d).withSptbr sptbr) op :=
    ⟨hc.wide, hc.capacity, hc.tables, hc.readable⟩
  apply completes_ask_all hc₁ rfl (congrArg List.tail hq)
  intro s' hs'
  exact hdone s' ⟨hs'.sent, hs'.size, hs'.capacity, hs'.xlen, hs'.mstatus, hs'.dcsr⟩

/-- **`collect_translation_info_op_t` ends, and then `translate` returns.** -/
theorem completes_collect {rest : List (Operation × Nat)} (hs : Wide s)
    (hcap : s.sendBuf.capacity = 65536) (htables : TablesKnown s)
    (hq : s.operationQueue = (newCollectTranslationInfo vaddr, 0) :: rest)
    (hdone : ∀ s', Gathers s s' → Translates s' vaddr → s'.operationQueue = rest →
      CompletesIn P n s') : CompletesIn P (n + collectSteps s) s := by
  obtain ⟨tables, htables, hreadable⟩ := htables
  have hg (r : Option Operation) (step : Nat) (d : Riscv.DebugModule) {s' : GdbServer}
      (he : Emits (s.withDebugModule d) [] s') : Gathers s (s'.advance r step) :=
    have ha := he.advance hcap r step
    ⟨ha.sent.trans (List.append_nil _), ha.size, ha.capacity, ha.xlen, ha.mstatus, ha.dcsr⟩
  cases tables with
  | none =>
      have hsteps : collectSteps s = 1 := by simp only [collectSteps, htables]
      rw [hsteps]
      apply CompletesIn.front hq
      intro d _
      apply Does.bind_ok (run_currentTables (s := s.withDebugModule d) htables)
      apply Does.of_ok (run_pure _ _)
      apply hdone _ (hg none 0 d (Emits.refl _))
      · exact translates_of_bare htables
      · exact congrArg List.tail hq
  | some shape =>
      have hsteps : collectSteps s = shape.levels + 2 := by simp only [collectSteps, htables]
      rw [hsteps]
      let op : CollectTranslationInfo :=
        ⟨.start, vaddr, shape.levels, shape.ptidxbits, shape.ptesize, 0⟩
      have hc : Collecting s op := ⟨hs, hcap, htables, hreadable shape rfl⟩
      change CompletesIn P (n + shape.levels + 1 + 1) s
      apply CompletesIn.front hq
      intro d _
      apply Does.bind_ok (run_currentTables (s := s.withDebugModule d) htables)
      change Does (askTranslationInfo op) (s.withDebugModule d) _
      have hc₁ : Collecting (s.withDebugModule d) op := ⟨hs, hcap, htables, hc.readable⟩
      cases hvalid : s.sptbrValid with
      | true =>
          apply (completes_ask_all (P := P) (n := n) hc₁ hvalid (congrArg List.tail hq) ?_).imp
            fun _ _ h => h.mono (Nat.le_succ _)
          exact fun s' hs' => hdone s' ⟨hs'.1, hs'.2, hs'.3, hs'.4, hs'.5, hs'.6⟩
      | false =>
          apply (does_askTranslationInfo hc₁.wide hc₁.readable).imp
          rintro _ s' ⟨he, rfl⟩
          have hnext : nextCollect (s.withDebugModule d) op =
              some (.collectTranslationInfo { op with state := .readSptbr }) :=
            if_neg (by rw [show (s.withDebugModule d).sptbrValid = false from hvalid]; decide)
          rw [hnext]
          have hg' := hg (some (.collectTranslationInfo { op with state := .readSptbr })) 0 d he
          have hq' : (s'.advance (some (.collectTranslationInfo { op with state := .readSptbr }))
              0).operationQueue = (.collectTranslationInfo { op with state := .readSptbr }, 1)
                :: rest := by
            simp only [GdbServer.advance, he.operationQueue]
            exact congrArg _ (congrArg List.tail hq)
          have hc' : Collecting _ { op with state := .readSptbr } := hc.gathers hg' rfl rfl rfl
          apply completes_readSptbr hc' rfl Nat.one_ne_zero hq'
          exact fun s'' hs'' => hdone s'' (hg'.trans hs'')

end SpikeSim.Gdb
