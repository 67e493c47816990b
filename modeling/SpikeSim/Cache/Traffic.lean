/-
# What a cache asks of the next level

A miss writes a dirty victim back and then fetches its line; a hit asks for
nothing.  Behind two caches that share a second level, the counters of the
second level add up those of the first.  The ORAM back end is treated
differently: it is told of the fetches only, so it sees the traffic of a miss
handler exactly as long as no dirty line of its window is evicted.
-/

import SpikeSim.Cache.Residency

namespace SpikeSim.Cache

open TagStore LawfulTagStore WriteBack

variable {τ : Type} [TagStore τ] [LawfulTagStore τ] {g : Geometry}

/-! ## Write-back traffic -/

/-- The requests of a miss: the victim goes back if it has been stored to since its fill,
then the missing line is fetched. -/
def missTraffic (g : Geometry) (history : List (Outcome (BitVec 64))) (o : Outcome (BitVec 64))
    (addr : BitVec 64) : List Call :=
  (o.victim.toList.filter (storedSinceFill · history)).map
      (fun line => .miss ⟨line <<< g.idxShift, BitVec.ofNat 64 g.linesz, true⟩) ++
    [.miss ⟨g.base addr, BitVec.ofNat 64 g.linesz, false⟩]

omit [TagStore τ] [LawfulTagStore τ] in
/-- A victim was resident, and it goes back when it was dirty. -/
theorem wroteBack_eq {history : List (Outcome (BitVec 64))} {c c' : Contents (BitVec 64)}
    {o : Outcome (BitVec 64)} (hreaches : Reaches history c) (h : Step c o c') :
    o.wroteBack = o.victim.any (storedSinceFill · history) := by
  cases h with
  | hit => rfl
  | miss absent victim resident =>
      cases victim with
      | none => rfl
      | some line =>
          obtain ⟨dirty, hdirty⟩ := Option.ne_none_iff_exists'.mp (resident line rfl)
          rw [Option.bind_some, hdirty, Option.any_some, ← hreaches.dirty_eq hdirty]
          cases dirty <;> rfl

omit [TagStore τ] [LawfulTagStore τ] in
theorem victim_resident {c c' : Contents (BitVec 64)} {o : Outcome (BitVec 64)} {line : BitVec 64}
    (h : Step c o c') (hline : o.victim = some line) : ∃ dirty, c line = some dirty := by
  cases h with
  | hit => cases hline
  | miss absent victim resident => exact Option.ne_none_iff_exists'.mp (resident line hline)

/-- The line number of a tag in the store can be shifted back and forth. -/
theorem line_of_resident {tags : τ} {line : BitVec 64} {dirty : Bool} (hinv : Inv g tags)
    (h : contents g tags line = some dirty) : g.line (line <<< g.idxShift) = line := by
  obtain ⟨addr, rfl⟩ := isLine_of_contents hinv h
  rw [g.line_shiftLeft, g.line_base]

/-- In a cache with a miss handler the calls of an access are the traffic of a miss or
nothing. -/
theorem callsOf_eq_missTraffic {history : List (Outcome (BitVec 64))}
    {c c' : Contents (BitVec 64)} {o : Outcome (BitVec 64)} (hreaches : Reaches history c)
    (h : Step c o c') (oram : Bool) (r : Request) :
    callsOf g ⟨true, oram⟩ r o = if o.miss then missTraffic g history o r.addr else [] := by
  rw [callsOf, missTraffic, wroteBack_eq hreaches h]
  cases o.victim with
  | none => rfl
  | some line => cases hstored : storedSinceFill line history <;> simp [hstored]

/-- What a run of a cache with a miss handler satisfies: the next access sends the traffic
of a miss, or nothing if its line is resident; the address of a write-back is that of the
victim line; and a line stored to since its fill is resident and dirty or has been written
back once since. -/
structure WritesBackExactly (g : Geometry) (oram : Bool) (rs : List Request) (t : Trace τ) :
    Prop where
  traffic : ∀ r, ∃ t' : Trace τ, run g ⟨true, oram⟩ (rs ++ [r]) = some t' ∧
    t'.history = outcome g r t.sim :: t.history ∧
    t'.calls = t.calls ++ if accessedSinceVictim (g.line r.addr) t.history then []
      else missTraffic g t.history (outcome g r t.sim) r.addr
  victim : ∀ r line, (outcome g r t.sim).victim = some line →
    g.line (line <<< g.idxShift) = line ∧
      (outcome g r t.sim).wroteBack = storedSinceFill line t.history
  stored : ∀ addr, storedSinceFill (g.line addr) t.history = true →
    (∃ ptr, checkTag g addr t.sim.tags = some ptr ∧ isDirty (tagAt ptr t.sim.tags) = true) ∧
        writeBacksSinceFill (g.line addr) t.history = 0 ∨
      checkTag g addr t.sim.tags = none ∧ writeBacksSinceFill (g.line addr) t.history = 1

theorem Trace.Sound.writesBackExactly {oram : Bool} {rs : List Request} {t : Trace τ}
    (hsound : t.Sound g) (hways : 0 < g.ways) (hrun : run g ⟨true, oram⟩ rs = some t) :
    WritesBackExactly g oram rs t where
  traffic r := by
    obtain ⟨t', calls, hacc, -, -, haccessed, hhistory, hcalls⟩ :=
      hsound.access hways ⟨true, oram⟩ r
    refine ⟨t', ?_, hhistory, ?_⟩
    · rw [run_concat, hrun, Option.bind_some, hacc]
    · rw [hcalls, haccessed.calls_eq, callsOf_eq_missTraffic hsound.reaches haccessed.step,
        hsound.miss_eq haccessed]
      cases accessedSinceVictim (g.line r.addr) t.history <;> rfl
  victim r line hline := by
    obtain ⟨t', calls, -, -, -, haccessed, -⟩ := hsound.access hways ⟨true, oram⟩ r
    have hwrote := wroteBack_eq hsound.reaches haccessed.step
    rw [hline, Option.any_some] at hwrote
    refine ⟨?_, hwrote⟩
    obtain ⟨dirty, hdirty⟩ := victim_resident haccessed.step hline
    exact line_of_resident hsound.inv hdirty
  stored addr hstored := by
    have hcheck := checkTag_contents g addr t.sim.tags
    rcases hsound.reaches.stored_kept hstored with ⟨hdirty, hcount⟩ | ⟨habsent, hcount⟩
    · rw [hdirty, Option.map_eq_some_iff] at hcheck
      exact .inl ⟨hcheck, hcount⟩
    · rw [habsent, Option.map_eq_none_iff] at hcheck
      exact .inr ⟨hcheck, hcount⟩

/-! ## Two caches in front of a shared second level -/

/-- The caches that `main` can put between the harts and memory. -/
structure Hierarchy (τi τd τl : Type) where
  ic : Sim τi
  dc : Sim τd
  l2 : Sim τl

/-- The two caches of the first level. -/
inductive Side
  | ic
  | dc

section Hierarchy

variable {τi τd τl : Type} [TagStore τi] [TagStore τd] [TagStore τl]

/-- The calls on the miss handler, answered in order by the second level. -/
def deliver (gl : Geometry) (handlers : Handlers) (calls : List Call) (l2 : Sim τl) :
    Option (Sim τl) :=
  calls.foldlM (fun l2 call =>
    match call with
    | .miss request => (access gl handlers request l2).map Prod.fst
    | .oram _ => some l2) l2

namespace Hierarchy

def start : Hierarchy τi τd τl := ⟨.init, .init, .init⟩

/-- An access to one of the first-level caches, with what it causes in the second. -/
def access (gi gd gl : Geometry) (handlers : Handlers) (h : Hierarchy τi τd τl)
    (op : Side × Request) : Option (Hierarchy τi τd τl) :=
  match op.1 with
  | .ic => (Cache.access gi ⟨true, false⟩ op.2 h.ic).bind fun (ic, calls) =>
      (deliver gl handlers calls h.l2).map fun l2 => { h with ic := ic, l2 := l2 }
  | .dc => (Cache.access gd ⟨true, false⟩ op.2 h.dc).bind fun (dc, calls) =>
      (deliver gl handlers calls h.l2).map fun l2 => { h with dc := dc, l2 := l2 }

end Hierarchy

/-- Whether a call is a load, respectively a store, on the miss handler. -/
def Call.isMiss (store : Bool) : Call → Bool
  | .miss request => request.store == store
  | .oram _ => false

variable [LawfulTagStore τl]

/-- The second level counts the loads and the stores that it is sent. -/
theorem deliver_returns {gl : Geometry} (hways : 0 < gl.ways) (handlers : Handlers)
    (calls : List Call) (l2 : Sim τl) (hinv : Inv gl l2.tags) :
    ∃ l2', deliver gl handlers calls l2 = some l2' ∧ Inv gl l2'.tags ∧
      l2'.readAccesses = l2.readAccesses + BitVec.ofNat 64 (calls.countP (Call.isMiss false)) ∧
      l2'.writeAccesses = l2.writeAccesses + BitVec.ofNat 64 (calls.countP (Call.isMiss true)) := by
  induction calls generalizing l2 with
  | nil => exact ⟨l2, rfl, hinv, by simp, by simp⟩
  | cons call rest ih =>
      cases call with
      | oram request =>
          obtain ⟨l2', hrest, hinv', hread, hwrite⟩ := ih l2 hinv
          refine ⟨l2', hrest, hinv', ?_, ?_⟩
          · rw [hread, List.countP_cons_of_neg (by simp [Call.isMiss])]
          · rw [hwrite, List.countP_cons_of_neg (by simp [Call.isMiss])]
      | miss request =>
          obtain ⟨s, calls, hacc, haccessed⟩ := access_returns handlers request hways hinv
          obtain ⟨l2', hrest, hinv', hread, hwrite⟩ := ih s haccessed.inv
          refine ⟨l2', ?_, hinv', ?_, ?_⟩
          · change ((access gl handlers request l2).map Prod.fst).bind (deliver gl handlers rest) = _
            rw [hacc, Option.map_some, Option.bind_some, hrest]
          · rw [hread, haccessed.readAccesses]
            cases hstore : request.store
            · rw [List.countP_cons_of_pos (by simp [Call.isMiss, hstore])]
              simp [BitVec.ofNat_add, add_assoc, add_comm]
            · rw [List.countP_cons_of_neg (by simp [Call.isMiss, hstore])]
              simp
          · rw [hwrite, haccessed.writeAccesses]
            cases hstore : request.store
            · rw [List.countP_cons_of_neg (by simp [Call.isMiss, hstore])]
              simp
            · rw [List.countP_cons_of_pos (by simp [Call.isMiss, hstore])]
              simp [BitVec.ofNat_add, add_assoc, add_comm]

omit [TagStore τ] [LawfulTagStore τ] [TagStore τl] [LawfulTagStore τl] in
/-- A miss sends one load, and one store if it wrote its victim back. -/
theorem countP_callsOf {c c' : Contents (BitVec 64)} {o : Outcome (BitVec 64)} (h : Step c o c')
    (r : Request) :
    (callsOf g ⟨true, false⟩ r o).countP (Call.isMiss false) = (if o.miss then 1 else 0) ∧
      (callsOf g ⟨true, false⟩ r o).countP (Call.isMiss true) =
        if o.wroteBack then 1 else 0 := by
  cases h with
  | hit => simp [callsOf]
  | miss absent victim resident =>
      cases victim with
      | none => simp [callsOf, Call.isMiss]
      | some line =>
          cases hdirty : c line == some true <;> simp [callsOf, Call.isMiss, hdirty]

namespace Hierarchy

variable [LawfulTagStore τi] [LawfulTagStore τd] {gi gd gl : Geometry}

/-- The second level has counted the misses and the write-backs of the first. -/
structure Adds (gi gd gl : Geometry) (h : Hierarchy τi τd τl) : Prop where
  icInv : Inv gi h.ic.tags
  dcInv : Inv gd h.dc.tags
  l2Inv : Inv gl h.l2.tags
  reads : h.l2.readAccesses = h.ic.misses + h.dc.misses
  writes : h.l2.writeAccesses = h.ic.writebacks + h.dc.writebacks

omit [LawfulTagStore τi] [LawfulTagStore τd] [TagStore τi] [TagStore τd] in
/-- The calls of an access to the first level, as the second level counts them. -/
theorem deliver_accessed {s s' : Sim τ} {calls : List Call} {r : Request} {l2 : Sim τl}
    (haccessed : Accessed g ⟨true, false⟩ r s s' calls) (hways : 0 < gl.ways)
    (handlers : Handlers) (hinv : Inv gl l2.tags) :
    ∃ l2', deliver gl handlers calls l2 = some l2' ∧ Inv gl l2'.tags ∧
      l2'.readAccesses = l2.readAccesses + (s'.misses - s.misses) ∧
      l2'.writeAccesses = l2.writeAccesses + (s'.writebacks - s.writebacks) := by
  obtain ⟨l2', hdeliver, hinv', hread, hwrite⟩ := deliver_returns hways handlers calls l2 hinv
  refine ⟨l2', hdeliver, hinv', ?_, ?_⟩
  · rw [hread, haccessed.calls_eq, (countP_callsOf haccessed.step r).1, Sim.misses, Sim.misses,
      haccessed.readMisses, haccessed.writeMisses]
    cases (outcome g r s).miss <;> cases r.store <;> simp
  · rw [hwrite, haccessed.calls_eq, (countP_callsOf haccessed.step r).2, haccessed.writebacks]
    cases (outcome g r s).wroteBack <;> simp

theorem Adds.access {h : Hierarchy τi τd τl} (hadds : h.Adds gi gd gl) (hi : 0 < gi.ways)
    (hd : 0 < gd.ways) (hl : 0 < gl.ways) (handlers : Handlers) (op : Side × Request) :
    ∃ h', h.access gi gd gl handlers op = some h' ∧ h'.Adds gi gd gl := by
  obtain ⟨side, r⟩ := op
  cases side with
  | ic =>
      obtain ⟨ic, calls, hacc, haccessed⟩ := access_returns ⟨true, false⟩ r hi hadds.icInv
      obtain ⟨l2, hdeliver, hinv, hread, hwrite⟩ :=
        deliver_accessed haccessed hl handlers hadds.l2Inv
      refine ⟨{ h with ic := ic, l2 := l2 }, ?_, haccessed.inv, hadds.dcInv, hinv, ?_, ?_⟩
      · simp [Hierarchy.access, hacc, hdeliver]
      · rw [hread, hadds.reads]
        ring
      · rw [hwrite, hadds.writes]
        ring
  | dc =>
      obtain ⟨dc, calls, hacc, haccessed⟩ := access_returns ⟨true, false⟩ r hd hadds.dcInv
      obtain ⟨l2, hdeliver, hinv, hread, hwrite⟩ :=
        deliver_accessed haccessed hl handlers hadds.l2Inv
      refine ⟨{ h with dc := dc, l2 := l2 }, ?_, hadds.icInv, haccessed.inv, hinv, ?_, ?_⟩
      · simp [Hierarchy.access, hacc, hdeliver]
      · rw [hread, hadds.reads]
        ring
      · rw [hwrite, hadds.writes]
        ring

theorem run_adds (hi : 0 < gi.ways) (hd : 0 < gd.ways) (hl : 0 < gl.ways) (handlers : Handlers)
    (ops : List (Side × Request)) :
    ∃ h : Hierarchy τi τd τl, ops.foldlM (Hierarchy.access gi gd gl handlers) .start = some h ∧
      h.Adds gi gd gl := by
  induction ops using List.reverseRecOn with
  | nil => exact ⟨.start, rfl, inv_empty gi, inv_empty gd, inv_empty gl, rfl, rfl⟩
  | append_singleton ops op ih =>
      obtain ⟨h, hrun, hadds⟩ := ih
      obtain ⟨h', hacc, hadds'⟩ := hadds.access hi hd hl handlers op
      exact ⟨h', by simp [List.foldlM_append, hrun, hacc], hadds'⟩

end Hierarchy

end Hierarchy

/-- **Write-back traffic.**  A cache with a miss handler sends for each miss a store of the
victim line if that line was stored to since its fill, then a load of the missing line, and
nothing for a hit; a line stored to since its fill is resident and dirty or was written back
once since; and a second level shared by two caches counts their misses as reads and their
write-backs as writes. -/
theorem write_back_traffic (kindI kindD kindL : Kind) (gi gd gl : Geometry) (hi : 0 < gi.ways)
    (hd : 0 < gd.ways) (hl : 0 < gl.ways) (oram : Bool) (handlers : Handlers)
    (rs : List Request) (ops : List (Side × Request)) :
    (∃ t : Trace (Tags kindI), run gi ⟨true, oram⟩ rs = some t ∧
      WritesBackExactly gi oram rs t) ∧
    ∃ h : Hierarchy (Tags kindI) (Tags kindD) (Tags kindL),
      ops.foldlM (Hierarchy.access gi gd gl handlers) .start = some h ∧
      h.l2.readAccesses = h.ic.misses + h.dc.misses ∧
      h.l2.writeAccesses = h.ic.writebacks + h.dc.writebacks := by
  constructor
  · obtain ⟨t, hrun, hsound⟩ := run_returns (τ := Tags kindI) hi ⟨true, oram⟩ rs
    exact ⟨t, hrun, hsound.writesBackExactly hi hrun⟩
  · obtain ⟨h, hrun, hadds⟩ : ∃ h : Hierarchy (Tags kindI) (Tags kindD) (Tags kindL),
        _ ∧ h.Adds gi gd gl := Hierarchy.run_adds hi hd hl handlers ops
    exact ⟨h, hrun, hadds.reads, hadds.writes⟩

/-- One way and one line of 64 bytes. -/
def tinyGeometry : Geometry where
  sets := 1
  ways := 1
  linesz := 64
  sets_accepted := by decide
  linesz_accepted := smallGeometry.linesz_accepted
  linesz_lt := smallGeometry.linesz_lt
  tags_lt := by decide

/-- A store and the load of another line that evicts it, and the same traffic through a
first-level data cache. -/
theorem tinyGeometry_traffic :
    (∃ t : Trace (Tags .setAssociative), run tinyGeometry ⟨true, false⟩
      [⟨0x80000000, 8, true⟩, ⟨0x80000040, 8, false⟩] = some t ∧
      WritesBackExactly tinyGeometry false
        [⟨0x80000000, 8, true⟩, ⟨0x80000040, 8, false⟩] t) ∧
    ∃ h : Hierarchy (Tags .setAssociative) (Tags .setAssociative) (Tags .fullyAssociative),
      [(Side.dc, (⟨0x80000000, 8, true⟩ : Request)), (Side.dc, ⟨0x80000040, 8, false⟩)].foldlM
        (Hierarchy.access tinyGeometry tinyGeometry tinyGeometry ⟨false, true⟩) .start = some h ∧
      h.l2.readAccesses = h.ic.misses + h.dc.misses ∧
      h.l2.writeAccesses = h.ic.writebacks + h.dc.writebacks :=
  write_back_traffic .setAssociative .setAssociative .fullyAssociative tinyGeometry tinyGeometry
    tinyGeometry (by decide) (by decide) (by decide) false ⟨false, true⟩ _ _

/-! ## The ORAM in the place of a miss handler -/

/-- The line that a call is about, and whether it is a store. -/
def Call.lineOp (g : Geometry) : Call → BitVec 64 × Bool
  | .miss request => (g.line request.addr, request.store)
  | .oram request => (g.line request.addr, request.store)

/-- Whether the address of a call is in the forwarded window. -/
def Call.inWindow : Call → Bool
  | .miss request => Cache.inWindow request.addr
  | .oram request => Cache.inWindow request.addr

/-- An access that the ORAM and a miss handler see alike: it hits, or else its way in the
line's set does not hold a dirty line of the window, and the address is in the window
together with its line. -/
def SeenAlike {τ : Type} [TagStore τ] (g : Geometry) (x : Request × Sim τ) : Prop :=
  checkTag g x.1.addr x.2.tags = none →
    (∀ victim lfsr tags, victimize g x.1.addr x.2.lfsr x.2.tags = some (victim, lfsr, tags) →
      victim &&& (VALID ||| DIRTY) = VALID ||| DIRTY →
        inWindow ((victim &&& ~~~(VALID ||| DIRTY)) <<< g.idxShift) = false) ∧
    inWindow x.1.addr = inWindow (g.base x.1.addr)

/-- The calls of an access, from the state before it. -/
def callsAt {τ : Type} [TagStore τ] (g : Geometry) (handlers : Handlers) (x : Request × Sim τ) :
    List Call :=
  callsOf g handlers x.1 (outcome g x.1 x.2)

theorem run_calls (hways : 0 < g.ways) (handlers : Handlers) (rs : List Request) (t : Trace τ)
    (hsound : t.Sound g) :
    ∃ t', rs.foldlM (Trace.access g handlers) t = some t' ∧
      t'.calls = t.calls ++ (visits g handlers rs t.sim).flatMap (callsAt g handlers) := by
  induction rs generalizing t with
  | nil => exact ⟨t, rfl, by simp [visits]⟩
  | cons r rs ih =>
      obtain ⟨t₁, calls, hacc, hsound₁, hsim, haccessed, -, hcalls⟩ := hsound.access hways handlers r
      obtain ⟨t', hrun, hcalls'⟩ := ih t₁ hsound₁
      refine ⟨t', ?_, ?_⟩
      · rw [List.foldlM_cons, hacc]
        exact hrun
      · rw [hcalls', hcalls, haccessed.calls_eq, visits, hsim]
        simp [callsAt]

/-! ### The tags do not depend on the back ends -/

/-- The tags and the LFSR after an access. -/
def nextTags {τ : Type} [TagStore τ] (g : Geometry) (r : Request) (tags : τ) (lfsr : BitVec 32) :
    Option (τ × BitVec 32) :=
  match checkTag g r.addr tags with
  | some ptr => some (if r.store then orTag ptr DIRTY tags else tags, lfsr)
  | none => (victimize g r.addr lfsr tags).bind fun (_, lfsr, tags) =>
      if r.store then (checkTag g r.addr tags).map fun ptr => (orTag ptr DIRTY tags, lfsr)
      else some (tags, lfsr)

omit [LawfulTagStore τ] in
theorem access_nextTags (g : Geometry) (handlers : Handlers) (r : Request) (s : Sim τ) :
    (access g handlers r s).map (fun p => (p.1.tags, p.1.lfsr)) = nextTags g r s.tags s.lfsr := by
  cases hcheck : checkTag g r.addr s.tags with
  | some ptr =>
      rw [access, nextTags, Sim.tags_countAccess, hcheck]
      cases hstore : r.store <;> simp
  | none =>
      cases hvictim : victimize g r.addr s.lfsr s.tags with
      | none => simp [access, nextTags, hcheck, hvictim]
      | some result =>
          obtain ⟨victim, lfsr, tags⟩ := result
          obtain ⟨oramAccesses, hstate⟩ := refilled_state g handlers r s victim lfsr tags
          rw [access_of_miss hcheck hvictim, nextTags, hcheck, hvictim, hstate]
          cases hstore : r.store with
          | false => rfl
          | true => simp [markDirty, Option.map_map, Function.comp_def]

omit [LawfulTagStore τ] in
/-- Caches with the same tags and LFSR are going to do the same, whatever is behind them. -/
theorem visits_calls_eq (h₁ h₂ handlers : Handlers) (rs : List Request) {s₁ s₂ : Sim τ}
    (htags : s₁.tags = s₂.tags) (hlfsr : s₁.lfsr = s₂.lfsr) :
    (visits g h₁ rs s₁).flatMap (callsAt g handlers) =
      (visits g h₂ rs s₂).flatMap (callsAt g handlers) := by
  induction rs generalizing s₁ s₂ with
  | nil => rfl
  | cons r rs ih =>
      have hhead : callsAt g handlers (r, s₁) = callsAt g handlers (r, s₂) := by
        simp [callsAt, outcome, htags, hlfsr]
      rw [visits, visits, List.flatMap_cons, List.flatMap_cons, hhead]
      congr 1
      have hnext : (access g h₁ r s₁).map (fun p => (p.1.tags, p.1.lfsr)) =
          (access g h₂ r s₂).map (fun p => (p.1.tags, p.1.lfsr)) := by
        rw [access_nextTags, access_nextTags, htags, hlfsr]
      cases hacc₁ : access g h₁ r s₁ with
      | none =>
          rw [hacc₁, Option.map_none, eq_comm, Option.map_eq_none_iff] at hnext
          rw [hnext]
      | some result₁ =>
          rw [hacc₁, Option.map_some, eq_comm, Option.map_eq_some_iff] at hnext
          obtain ⟨result₂, hacc₂, hsame⟩ := hnext
          rw [hacc₂]
          exact ih (congrArg Prod.fst hsame).symm (congrArg Prod.snd hsame).symm

/-! ### The window and the lines -/

theorem inWindow_iff (addr : BitVec 64) :
    inWindow addr = true ↔ 2 ^ 31 ≤ addr.toNat ∧ addr.toNat < 2 ^ 31 + 2 ^ 22 := by
  simp only [inWindow, Bool.and_eq_true, decide_eq_true_eq, BitVec.le_def, BitVec.lt_def]
  exact Iff.rfl

theorem toNat_base (addr : BitVec 64) :
    (g.base addr).toNat = addr.toNat / 2 ^ g.idxShift * 2 ^ g.idxShift := by
  have hle : addr.toNat / 2 ^ g.idxShift * 2 ^ g.idxShift ≤ addr.toNat := Nat.div_mul_le_self _ _
  rw [← g.line_shiftLeft, Geometry.line, BitVec.toNat_shiftLeft, BitVec.toNat_ushiftRight,
    Nat.shiftLeft_eq, Nat.shiftRight_eq_div_pow, Nat.mod_eq_of_lt (by omega)]

theorem base_shiftLeft (line : BitVec 64) : g.base (line <<< g.idxShift) = line <<< g.idxShift := by
  apply BitVec.eq_of_getLsbD_eq
  intro i hi
  rw [g.getLsbD_base _ hi, BitVec.getLsbD_shiftLeft]
  cases decide (i < g.idxShift) <;> simp

/-- Either every address of the window has its line there, or no line starts there. -/
theorem window_lines (g : Geometry) :
    (∀ addr, inWindow addr = true → inWindow (g.base addr) = true) ∨
      ∀ addr, inWindow (g.base addr) = false := by
  rcases Nat.lt_or_ge g.idxShift 32 with hsmall | hlarge
  · left
    intro addr h
    rw [inWindow_iff, toNat_base] at *
    obtain ⟨k, hk⟩ := Nat.exists_eq_add_of_le (Nat.le_of_lt_succ hsmall)
    have hle : addr.toNat / 2 ^ g.idxShift * 2 ^ g.idxShift ≤ addr.toNat := Nat.div_mul_le_self _ _
    refine ⟨?_, by omega⟩
    have hpow : 2 ^ 31 = 2 ^ k * 2 ^ g.idxShift := by rw [← pow_add, hk, add_comm]
    rw [hpow]
    apply Nat.mul_le_mul_right
    rw [Nat.le_div_iff_mul_le (by positivity), ← hpow]
    exact h.1
  · right
    intro addr
    rw [Bool.eq_false_iff, Ne, inWindow_iff, toNat_base]
    obtain ⟨k, hk⟩ := Nat.exists_eq_add_of_le hlarge
    have hpow : 2 ^ g.idxShift = 2 ^ 32 * 2 ^ k := by rw [← pow_add, hk]
    rw [hpow, Nat.mul_comm (2 ^ 32) (2 ^ k), ← Nat.mul_assoc]
    omega

/-! ### The two sequences of requests -/

/-- What the ORAM is asked for. -/
def oramOps {τ : Type} [TagStore τ] (g : Geometry) (x : Request × Sim τ) :
    List (BitVec 64 × Bool) :=
  (callsAt g ⟨false, true⟩ x).map (Call.lineOp g)

/-- What a miss handler would be asked for within the window. -/
def missOps {τ : Type} [TagStore τ] (g : Geometry) (x : Request × Sim τ) :
    List (BitVec 64 × Bool) :=
  ((callsAt g ⟨true, false⟩ x).filter Call.inWindow).map (Call.lineOp g)

section Ops

variable {x : Request × Sim τ}

omit [LawfulTagStore τ] in
theorem ops_of_hit {ptr : Ptr τ} (hcheck : checkTag g x.1.addr x.2.tags = some ptr) :
    oramOps g x = [] ∧ missOps g x = [] := by
  simp [oramOps, missOps, callsAt, outcome_of_hit hcheck, callsOf]

omit [LawfulTagStore τ] in
theorem ops_of_miss {victim : BitVec 64} {lfsr : BitVec 32} {tags : τ}
    (hcheck : checkTag g x.1.addr x.2.tags = none)
    (hvictim : victimize g x.1.addr x.2.lfsr x.2.tags = some (victim, lfsr, tags)) :
    oramOps g x = (if inWindow x.1.addr then [(g.line x.1.addr, false)] else []) ∧
    missOps g x =
      (if isValid victim && isDirty victim && inWindow (lineOf victim <<< g.idxShift) then
        [(g.line (lineOf victim <<< g.idxShift), true)] else []) ++
      if inWindow (g.base x.1.addr) then [(g.line x.1.addr, false)] else [] := by
  simp only [oramOps, missOps, callsAt, outcome_of_miss hcheck hvictim, callsOf]
  constructor
  · cases hin : inWindow x.1.addr <;> simp [Call.lineOp]
  · cases hvalid : isValid victim <;> cases hdirty : isDirty victim <;>
      cases hin : inWindow (lineOf victim <<< g.idxShift) <;>
      cases hbase : inWindow (g.base x.1.addr) <;>
      simp [Call.lineOp, Call.inWindow, validLine, hvalid, hin, hbase, g.line_base]

/-- The two are asked for the same exactly in an access that they see alike. -/
theorem ops_eq_iff (hways : 0 < g.ways) : oramOps g x = missOps g x ↔ SeenAlike g x := by
  cases hcheck : checkTag g x.1.addr x.2.tags with
  | some ptr =>
      obtain ⟨horam, hmiss⟩ := ops_of_hit hcheck
      simp [horam, hmiss, SeenAlike, hcheck]
  | none =>
      obtain ⟨victim, lfsr, tags, hvictim⟩ := victimize_returns hways x.1.addr x.2.lfsr x.2.tags
      obtain ⟨horam, hmiss⟩ := ops_of_miss hcheck hvictim
      have halike : SeenAlike g x ↔
          (isValid victim = true ∧ isDirty victim = true →
            inWindow (lineOf victim <<< g.idxShift) = false) ∧
          inWindow x.1.addr = inWindow (g.base x.1.addr) := by
        rw [SeenAlike, hvictim, ← and_flags_eq_iff]
        constructor
        · intro h
          obtain ⟨hclean, hwindow⟩ := h hcheck
          exact ⟨hclean victim lfsr tags rfl, hwindow⟩
        · rintro ⟨hclean, hwindow⟩ _
          refine ⟨?_, hwindow⟩
          rintro _ _ _ ⟨⟩
          exact hclean
      rw [horam, hmiss, halike]
      cases isValid victim <;> cases isDirty victim <;>
        cases inWindow (lineOf victim <<< g.idxShift) <;> cases inWindow x.1.addr <;>
        cases inWindow (g.base x.1.addr) <;> simp

/-- One of the two is never asked for less than the other. -/
theorem ops_length (hways : 0 < g.ways) :
    (∀ x : Request × Sim τ, (oramOps g x).length ≤ (missOps g x).length) ∨
      ∀ x : Request × Sim τ, (missOps g x).length ≤ (oramOps g x).length := by
  apply (window_lines g).imp
  all_goals
    intro hwindow x
    cases hcheck : checkTag g x.1.addr x.2.tags with
    | some ptr =>
        obtain ⟨horam, hmiss⟩ := ops_of_hit hcheck
        rw [horam, hmiss]
    | none => ?_
    obtain ⟨victim, lfsr, tags, hvictim⟩ := victimize_returns hways x.1.addr x.2.lfsr x.2.tags
    obtain ⟨horam, hmiss⟩ := ops_of_miss hcheck hvictim
    rw [horam, hmiss]
  · cases hin : inWindow x.1.addr with
    | false => simp
    | true => simp [hwindow _ hin]
  · have hline := hwindow (lineOf victim <<< g.idxShift)
    rw [base_shiftLeft] at hline
    simp [hline, hwindow]

end Ops

/-- Of two families of lists the one of which is never the longer one, the concatenations
agree only if all members do. -/
theorem flatMap_eq_iff {α β : Type} {f f' : α → List β}
    (hlen : ∀ x, (f x).length ≤ (f' x).length) (xs : List α) :
    xs.flatMap f = xs.flatMap f' ↔ ∀ x ∈ xs, f x = f' x := by
  induction xs with
  | nil => simp
  | cons x xs ih =>
      rw [List.flatMap_cons, List.flatMap_cons, List.forall_mem_cons, ← ih]
      constructor
      · intro h
        have htail : (xs.flatMap f).length ≤ (xs.flatMap f').length := by
          rw [List.length_flatMap, List.length_flatMap]
          exact List.sum_le_sum fun y _ => hlen y
        have htotal := congrArg List.length h
        rw [List.length_append, List.length_append] at htotal
        have := hlen x
        exact List.append_inj h (by omega)
      · rintro ⟨hx, hxs⟩
        rw [hx, hxs]

/-- **What the ORAM is told.**  Over a sequence of accesses the ORAM is asked for the lines
that a miss handler in its place would be asked for within the window exactly if every
access of the sequence is seen alike by the two: in each miss the selected way does not
hold a dirty line of the window. -/
theorem oram_traffic_iff (kind : Kind) (g : Geometry) (hways : 0 < g.ways) (rs : List Request) :
    ∃ oram handler : Trace (Tags kind),
      run g ⟨false, true⟩ rs = some oram ∧ run g ⟨true, false⟩ rs = some handler ∧
      (oram.calls.map (Call.lineOp g) =
          (handler.calls.filter Call.inWindow).map (Call.lineOp g) ↔
        ∀ x ∈ visits (τ := Tags kind) g ⟨false, true⟩ rs .init, SeenAlike g x) := by
  obtain ⟨oram, horam, hcalls⟩ :=
    run_calls (τ := Tags kind) hways ⟨false, true⟩ rs .start Trace.sound_start
  obtain ⟨handler, hhandler, hcalls'⟩ :=
    run_calls (τ := Tags kind) hways ⟨true, false⟩ rs .start Trace.sound_start
  rw [visits_calls_eq ⟨true, false⟩ ⟨false, true⟩ ⟨true, false⟩ rs rfl rfl] at hcalls'
  refine ⟨oram, handler, horam, hhandler, ?_⟩
  have hleft : oram.calls.map (Call.lineOp g) =
      (visits g ⟨false, true⟩ rs (.init : Sim (Tags kind))).flatMap (oramOps g) := by
    rw [hcalls, List.map_append, List.map_flatMap]
    rfl
  have hright : (handler.calls.filter Call.inWindow).map (Call.lineOp g) =
      (visits g ⟨false, true⟩ rs (.init : Sim (Tags kind))).flatMap (missOps g) := by
    rw [hcalls', List.filter_append, List.map_append, List.filter_flatMap, List.map_flatMap]
    rfl
  rw [hleft, hright]
  rcases ops_length (τ := Tags kind) hways with hlen | hlen
  · rw [flatMap_eq_iff hlen]
    simp only [ops_eq_iff hways]
  · rw [eq_comm, flatMap_eq_iff hlen]
    apply forall₂_congr
    intro x _
    rw [eq_comm, ops_eq_iff hways]

/-- With no store before it the eviction is seen alike. -/
theorem tinyGeometry_oram_traffic :
    ∃ oram handler : Trace (Tags .setAssociative),
      run tinyGeometry ⟨false, true⟩ [⟨0x80000000, 8, false⟩, ⟨0x80000040, 8, false⟩] =
        some oram ∧
      run tinyGeometry ⟨true, false⟩ [⟨0x80000000, 8, false⟩, ⟨0x80000040, 8, false⟩] =
        some handler ∧
      (oram.calls.map (Call.lineOp tinyGeometry) =
          (handler.calls.filter Call.inWindow).map (Call.lineOp tinyGeometry) ↔
        ∀ x ∈ visits (τ := Tags .setAssociative) tinyGeometry ⟨false, true⟩
          [⟨0x80000000, 8, false⟩, ⟨0x80000040, 8, false⟩] .init, SeenAlike tinyGeometry x) :=
  oram_traffic_iff .setAssociative tinyGeometry (by decide) _

/-- A store and a load that evicts the dirty line: a miss handler is sent the line, the ORAM
is not. -/
theorem oram_not_sent_dirty_line :
    (run (τ := Tags .setAssociative) tinyGeometry ⟨false, true⟩
      [⟨0x80000000, 8, true⟩, ⟨0x80000040, 8, false⟩]).map
        (fun t => t.calls.map (Call.lineOp tinyGeometry)) =
      some [(0x2000000, false), (0x2000001, false)] ∧
    (run (τ := Tags .setAssociative) tinyGeometry ⟨true, false⟩
      [⟨0x80000000, 8, true⟩, ⟨0x80000040, 8, false⟩]).map
        (fun t => (t.calls.filter Call.inWindow).map (Call.lineOp tinyGeometry)) =
      some [(0x2000000, false), (0x2000000, true), (0x2000001, false)] := by
  decide +kernel

end SpikeSim.Cache
