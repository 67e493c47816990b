/-
# What a cache contains

An access to a cache with a lawful tag store is a step of the abstract
write-back cache, and so the record of a run tells which lines the cache holds.
The invariants of the two tag stores hold along every run, and `access` never
follows a null pointer.
-/

import SpikeSim.Cache.TagStores

namespace SpikeSim.Cache

open TagStore WriteBack

variable {τ : Type} [TagStore τ]

/-- The number of accesses counted as misses. -/
def Sim.misses (s : Sim τ) : BitVec 64 := s.readMisses + s.writeMisses

/-- What an access is going to do, from the state before it. -/
def outcome (g : Geometry) (r : Request) (s : Sim τ) : Outcome (BitVec 64) :=
  match checkTag g r.addr s.tags with
  | some _ => ⟨g.line r.addr, r.store, false, none, false⟩
  | none =>
    let victim := ((victimize g r.addr s.lfsr s.tags).map Prod.fst).getD 0
    ⟨g.line r.addr, r.store, true, validLine victim, isValid victim && isDirty victim⟩

/-- The calls on the back ends that belong to an outcome. -/
def callsOf (g : Geometry) (handlers : Handlers) (r : Request) (o : Outcome (BitVec 64)) :
    List Call :=
  if o.miss then
    (if o.wroteBack && handlers.miss then
      o.victim.toList.map fun line => .miss ⟨line <<< g.idxShift, BitVec.ofNat 64 g.linesz, true⟩
    else []) ++
    (if handlers.miss then [.miss ⟨g.base r.addr, BitVec.ofNat 64 g.linesz, false⟩]
    else if handlers.oram && inWindow r.addr then
      [.oram ⟨r.addr, BitVec.ofNat 64 g.linesz, false⟩]
    else [])
  else []

@[simp]
theorem outcome_line (g : Geometry) (r : Request) (s : Sim τ) :
    (outcome g r s).line = g.line r.addr := by
  rw [outcome]
  split <;> rfl

@[simp]
theorem outcome_store (g : Geometry) (r : Request) (s : Sim τ) :
    (outcome g r s).store = r.store := by
  rw [outcome]
  split <;> rfl

theorem outcome_of_hit {g : Geometry} {r : Request} {s : Sim τ} {ptr : Ptr τ}
    (hcheck : checkTag g r.addr s.tags = some ptr) :
    outcome g r s = ⟨g.line r.addr, r.store, false, none, false⟩ := by
  rw [outcome, hcheck]

theorem outcome_of_miss {g : Geometry} {r : Request} {s : Sim τ} {victim : BitVec 64}
    {lfsr : BitVec 32} {tags : τ} (hcheck : checkTag g r.addr s.tags = none)
    (hvictim : victimize g r.addr s.lfsr s.tags = some (victim, lfsr, tags)) :
    outcome g r s = ⟨g.line r.addr, r.store, true, validLine victim,
      isValid victim && isDirty victim⟩ := by
  rw [outcome, hcheck, hvictim]
  rfl

@[simp]
theorem Sim.tags_countAccess {τ : Type} (r : Request) (s : Sim τ) :
    (s.countAccess r).tags = s.tags := by
  rw [countAccess]
  split <;> rfl

@[simp]
theorem Sim.tags_countMiss {τ : Type} (r : Request) (s : Sim τ) :
    (s.countMiss r).tags = s.tags := by
  rw [countMiss]
  split <;> rfl

@[simp]
theorem Sim.lfsr_countAccess {τ : Type} (r : Request) (s : Sim τ) :
    (s.countAccess r).lfsr = s.lfsr := by
  rw [countAccess]
  split <;> rfl

@[simp]
theorem Sim.lfsr_countMiss {τ : Type} (r : Request) (s : Sim τ) :
    (s.countMiss r).lfsr = s.lfsr := by
  rw [countMiss]
  split <;> rfl

variable [LawfulTagStore τ]

open LawfulTagStore

/-- The effect of an access: a step of the abstract cache, the calls that belong to
it, and the counters. -/
structure Accessed (g : Geometry) (handlers : Handlers) (r : Request) (s s' : Sim τ)
    (calls : List Call) : Prop where
  inv : Inv g s'.tags
  step : Step (contents g s.tags) (outcome g r s) (contents g s'.tags)
  calls_eq : calls = callsOf g handlers r (outcome g r s)
  readAccesses : s'.readAccesses = s.readAccesses + if r.store then 0 else 1
  writeAccesses : s'.writeAccesses = s.writeAccesses + if r.store then 1 else 0
  readMisses : s'.readMisses =
    s.readMisses + if (outcome g r s).miss && !r.store then 1 else 0
  writeMisses : s'.writeMisses =
    s.writeMisses + if (outcome g r s).miss && r.store then 1 else 0
  writebacks : s'.writebacks = s.writebacks + if (outcome g r s).wroteBack then 1 else 0

section Access

variable {g : Geometry} {handlers : Handlers} {r : Request} {s : Sim τ}

theorem access_hit {ptr : Ptr τ} (hinv : Inv g s.tags)
    (hcheck : checkTag g r.addr s.tags = some ptr) :
    ∃ s' calls, access g handlers r s = some (s', calls) ∧
      Accessed g handlers r s s' calls := by
  have hout := outcome_of_hit hcheck
  have hdirty : contents g s.tags (g.line r.addr) = some (isDirty (tagAt ptr s.tags)) := by
    rw [← checkTag_contents, hcheck, Option.map_some]
  refine ⟨_, _, by rw [access]; simp only [Sim.tags_countAccess, hcheck]; rfl, ?_⟩
  cases hstore : r.store with
  | false =>
      constructor
      case inv => simpa using hinv
      case step =>
        rw [hout, hstore]
        have hstep : Step (contents g s.tags) ⟨g.line r.addr, false, false, none, false⟩ _ :=
          .hit hdirty
        rw [Bool.or_false, ← hdirty, Function.update_eq_self] at hstep
        simpa using hstep
      all_goals simp [hout, callsOf, Sim.countAccess, hstore]
  | true =>
      constructor
      case inv => simpa using orTag_inv hinv hcheck
      case step =>
        rw [hout, hstore]
        have hstep : Step (contents g s.tags) ⟨g.line r.addr, true, false, none, false⟩ _ :=
          .hit hdirty
        rw [Bool.or_true, ← orTag_contents hinv hcheck] at hstep
        simpa using hstep
      all_goals simp [hout, callsOf, Sim.countAccess, hstore]

omit [TagStore τ] [LawfulTagStore τ] in
theorem writeBack_calls (s : Sim τ) (victim : BitVec 64) :
    (writeBack g handlers victim s).2 =
      if isValid victim && isDirty victim && handlers.miss then
        (validLine victim).toList.map fun line =>
          .miss ⟨line <<< g.idxShift, BitVec.ofNat 64 g.linesz, true⟩
      else [] := by
  rw [writeBack]
  by_cases h : isValid victim = true ∧ isDirty victim = true
  · rw [if_pos ((and_flags_eq_iff victim).mpr h), validLine, if_pos h.1, h.1, h.2]
    rfl
  · rw [if_neg (fun hflags => h ((and_flags_eq_iff victim).mp hflags)), if_neg]
    intro hflags
    simp only [Bool.and_eq_true] at hflags
    exact h hflags.1

omit [TagStore τ] [LawfulTagStore τ] in
theorem writeBack_state (s : Sim τ) (victim : BitVec 64) :
    (writeBack g handlers victim s).1 = { s with
      writebacks := s.writebacks + if isValid victim && isDirty victim then 1 else 0 } := by
  rw [writeBack]
  by_cases h : isValid victim = true ∧ isDirty victim = true
  · rw [if_pos ((and_flags_eq_iff victim).mpr h), h.1, h.2]
    rfl
  · rw [if_neg (fun hflags => h ((and_flags_eq_iff victim).mp hflags)), if_neg]
    · simp
    · simpa using h

omit [TagStore τ] [LawfulTagStore τ] in
/-- Only the ORAM counter moves when a line is fetched. -/
theorem fill_state (g : Geometry) (handlers : Handlers) (addr : BitVec 64) (s : Sim τ) :
    ∃ n, (fill g handlers addr s).1 = { s with oramAccesses := n } := by
  rw [fill]
  split
  · exact ⟨_, rfl⟩
  · split
    · exact ⟨_, rfl⟩
    · exact ⟨_, rfl⟩

omit [TagStore τ] [LawfulTagStore τ] in
theorem fill_calls (s : Sim τ) (addr : BitVec 64) : (fill g handlers addr s).2 =
    if handlers.miss then [.miss ⟨g.base addr, BitVec.ofNat 64 g.linesz, false⟩]
    else if handlers.oram && inWindow addr then [.oram ⟨addr, BitVec.ofNat 64 g.linesz, false⟩]
    else [] := by
  rw [fill]
  split
  · rfl
  · split <;> rfl

/-- The line was filled just now, so that the dirty mark of a store finds it. -/
theorem markDirty_returns (hinv : Inv g s.tags) {addr : BitVec 64} {dirty : Bool}
    (hresident : contents g s.tags (g.line addr) = some dirty) :
    ∃ tags, markDirty g addr s = some { s with tags := tags } ∧ Inv g tags ∧
      contents g tags = Function.update (contents g s.tags) (g.line addr) (some true) := by
  rw [← checkTag_contents, Option.map_eq_some_iff] at hresident
  obtain ⟨ptr, hcheck, -⟩ := hresident
  refine ⟨orTag ptr DIRTY s.tags, ?_, orTag_inv hinv hcheck, orTag_contents hinv hcheck⟩
  rw [markDirty, hcheck, Option.map_some]

/-- The state of a miss after the victim went and the line came. -/
def refilled (g : Geometry) (handlers : Handlers) (r : Request) (s : Sim τ)
    (victim : BitVec 64) (lfsr : BitVec 32) (tags : τ) : Sim τ × List Call :=
  let evicted := writeBack g handlers victim
    { (s.countAccess r).countMiss r with lfsr := lfsr, tags := tags }
  let filled := fill g handlers r.addr evicted.1
  (filled.1, evicted.2 ++ filled.2)

omit [TagStore τ] [LawfulTagStore τ] in
theorem refilled_state (g : Geometry) (handlers : Handlers) (r : Request) (s : Sim τ)
    (victim : BitVec 64) (lfsr : BitVec 32) (tags : τ) :
    ∃ oramAccesses, (refilled g handlers r s victim lfsr tags).1 =
      { (s.countAccess r).countMiss r with
        lfsr := lfsr
        tags := tags
        oramAccesses := oramAccesses
        writebacks := s.writebacks + if isValid victim && isDirty victim then 1 else 0 } := by
  obtain ⟨oramAccesses, hfill⟩ := fill_state g handlers r.addr (writeBack g handlers victim
    { (s.countAccess r).countMiss r with lfsr := lfsr, tags := tags }).1
  refine ⟨oramAccesses, ?_⟩
  rw [refilled, hfill, writeBack_state]
  cases hstore : r.store <;> simp [Sim.countAccess, Sim.countMiss, hstore]

omit [LawfulTagStore τ] in
theorem access_of_miss {victim : BitVec 64} {lfsr : BitVec 32} {tags : τ}
    (hcheck : checkTag g r.addr s.tags = none)
    (hvictim : victimize g r.addr s.lfsr s.tags = some (victim, lfsr, tags)) :
    access g handlers r s =
      (if r.store then markDirty g r.addr (refilled g handlers r s victim lfsr tags).1
        else some (refilled g handlers r s victim lfsr tags).1).map
          fun s' => (s', (refilled g handlers r s victim lfsr tags).2) := by
  rw [access]
  simp only [Sim.tags_countAccess, hcheck, Sim.tags_countMiss, Sim.lfsr_countMiss,
    Sim.lfsr_countAccess, hvictim]
  rfl

/-- The store after a miss, before and after the dirty mark of a store. -/
theorem access_miss (hways : 0 < g.ways) (hinv : Inv g s.tags)
    (hcheck : checkTag g r.addr s.tags = none) :
    ∃ s' calls, access g handlers r s = some (s', calls) ∧
      Accessed g handlers r s s' calls := by
  obtain ⟨victim, lfsr, tags, hvictim⟩ := victimize_returns hways r.addr s.lfsr s.tags
  have habsent : contents g s.tags (g.line r.addr) = none := by
    rw [← checkTag_contents, hcheck, Option.map_none]
  obtain ⟨hinv', hresident, hfilled⟩ := victimize_spec hinv habsent hvictim
  have hout := outcome_of_miss hcheck hvictim
  have hwrote : (isValid victim && isDirty victim) =
      ((validLine victim).bind (contents g s.tags) == some true) := by
    rw [validLine]
    split
    next hvalid =>
      rw [Option.bind_some, hresident _ (if_pos hvalid), hvalid, Bool.true_and]
      cases isDirty victim <;> rfl
    next hvalid =>
      rw [Bool.eq_false_of_not_eq_true hvalid]
      rfl
  have hstep : Step (contents g s.tags) (outcome g r s)
      (Function.update (evict (validLine victim) (contents g s.tags)) (g.line r.addr)
        (some r.store)) := by
    rw [hout, hwrote]
    apply Step.miss habsent
    intro line hline
    rw [hresident line hline]
    exact Option.some_ne_none _
  obtain ⟨oramAccesses, hstate⟩ := refilled_state g handlers r s victim lfsr tags
  have hcalls : (refilled g handlers r s victim lfsr tags).2 =
      callsOf g handlers r (outcome g r s) := by
    rw [refilled, writeBack_calls, fill_calls, hout, callsOf]
    rfl
  have htags : (refilled g handlers r s victim lfsr tags).1.tags = tags := by rw [hstate]
  rw [access_of_miss hcheck hvictim, hcalls]
  cases hstore : r.store with
  | false =>
      rw [hstate]
      refine ⟨_, _, rfl, hinv', ?_, rfl, ?_, ?_, ?_, ?_, ?_⟩
      · rw [hstore] at hstep
        rw [hfilled]
        exact hstep
      all_goals simp [hout, Sim.countAccess, Sim.countMiss, hstore]
  | true =>
      have hfresh : contents g (refilled g handlers r s victim lfsr tags).1.tags (g.line r.addr) =
          some false := by
        rw [htags, hfilled, Function.update_self]
      obtain ⟨tags', hmark, hinv'', hdirty⟩ := markDirty_returns (htags.symm ▸ hinv') hfresh
      rw [if_pos rfl, hmark, hstate]
      refine ⟨_, _, rfl, hinv'', ?_, rfl, ?_, ?_, ?_, ?_, ?_⟩
      · rw [hstore] at hstep
        rw [hdirty, htags, hfilled, Function.update_idem]
        exact hstep
      all_goals simp [hout, Sim.countAccess, Sim.countMiss, hstore]

theorem access_returns (handlers : Handlers) (r : Request) (hways : 0 < g.ways)
    (hinv : Inv g s.tags) :
    ∃ s' calls, access g handlers r s = some (s', calls) ∧ Accessed g handlers r s s' calls := by
  cases hcheck : checkTag g r.addr s.tags with
  | none => exact access_miss hways hinv hcheck
  | some ptr => exact access_hit hinv hcheck

omit [TagStore τ] [LawfulTagStore τ] in
/-- A step misses exactly when its line is not resident. -/
theorem miss_eq {c c' : Contents (BitVec 64)} {o : Outcome (BitVec 64)} (h : Step c o c') :
    o.miss = !(c o.line).isSome := by
  cases h with
  | hit resident => simp [resident]
  | miss absent => simp [absent]

end Access

/-! ## Runs -/

/-- A cache in the course of a run: what it did, the last access first, and the
calls it made. -/
structure Trace (τ : Type) where
  sim : Sim τ
  history : List (Outcome (BitVec 64))
  calls : List Call

namespace Trace

variable {τ : Type} [TagStore τ]

def start : Trace τ := ⟨Sim.init, [], []⟩

def access (g : Geometry) (handlers : Handlers) (t : Trace τ) (r : Request) : Option (Trace τ) :=
  (Cache.access g handlers r t.sim).map fun (s, calls) =>
    ⟨s, outcome g r t.sim :: t.history, t.calls ++ calls⟩

end Trace

/-- A sequence of accesses to a fresh cache. -/
def run {τ : Type} [TagStore τ] (g : Geometry) (handlers : Handlers) (rs : List Request) :
    Option (Trace τ) :=
  rs.foldlM (Trace.access g handlers) .start

theorem run_concat {τ : Type} [TagStore τ] (g : Geometry) (handlers : Handlers)
    (rs : List Request) (r : Request) :
    run (τ := τ) g handlers (rs ++ [r]) = (run g handlers rs).bind (Trace.access g handlers · r) := by
  simp [run, List.foldlM_append]

/-- The record of the run explains the contents. -/
structure Trace.Sound (g : Geometry) (t : Trace τ) : Prop where
  inv : Inv g t.sim.tags
  reaches : Reaches t.history (contents g t.sim.tags)

section Runs

variable {g : Geometry} {t : Trace τ}

theorem Trace.sound_start : (Trace.start : Trace τ).Sound g where
  inv := inv_empty g
  reaches := by
    have hempty : contents g (Trace.start : Trace τ).sim.tags = fun _ => none := contents_empty g
    rw [hempty]
    exact .start

/-- An access from a sound state returns and leaves a sound state. -/
theorem Trace.Sound.access (hsound : t.Sound g) (hways : 0 < g.ways) (handlers : Handlers)
    (r : Request) : ∃ t' calls, t.access g handlers r = some t' ∧ t'.Sound g ∧
      Cache.access g handlers r t.sim = some (t'.sim, calls) ∧
      Accessed g handlers r t.sim t'.sim calls ∧
      t'.history = outcome g r t.sim :: t.history ∧ t'.calls = t.calls ++ calls := by
  obtain ⟨s', calls, hacc, haccessed⟩ := access_returns handlers r hways hsound.inv
  refine ⟨⟨s', outcome g r t.sim :: t.history, t.calls ++ calls⟩, calls, ?_, ?_, hacc, haccessed,
    rfl, rfl⟩
  · rw [Trace.access, hacc]
    rfl
  · exact ⟨haccessed.inv, hsound.reaches.step haccessed.step⟩

theorem run_returns (hways : 0 < g.ways) (handlers : Handlers) (rs : List Request) :
    ∃ t : Trace τ, run g handlers rs = some t ∧ t.Sound g := by
  induction rs using List.reverseRecOn with
  | nil => exact ⟨.start, rfl, Trace.sound_start⟩
  | append_singleton rs r ih =>
      obtain ⟨t, hrun, hsound⟩ := ih
      obtain ⟨t', _, hacc, hsound', -⟩ := hsound.access hways handlers r
      refine ⟨t', ?_, hsound'⟩
      rw [run_concat, hrun, Option.bind_some, hacc]

/-- An access is a miss exactly when its line was not accessed or has been a victim
since. -/
theorem Trace.Sound.miss_eq (hsound : t.Sound g) {r : Request} {handlers : Handlers}
    {s' : Sim τ} {calls : List Call} (h : Accessed g handlers r t.sim s' calls) :
    (outcome g r t.sim).miss = !accessedSinceVictim (g.line r.addr) t.history := by
  rw [Cache.miss_eq h.step, outcome_line, hsound.reaches.resident_iff]

end Runs

/-- The accesses of a sequence, each with the cache that it finds. -/
def visits {τ : Type} [TagStore τ] (g : Geometry) (handlers : Handlers) :
    List Request → Sim τ → List (Request × Sim τ)
  | [], _ => []
  | r :: rs, s =>
    (r, s) :: match access g handlers r s with
      | some (s', _) => visits g handlers rs s'
      | none => []

/-- The next access returns, and is counted as a hit exactly when its line was accessed
before and has not been chosen as a victim since. -/
def CountsHits {τ : Type} [TagStore τ] (g : Geometry) (handlers : Handlers) (t : Trace τ) : Prop :=
  ∀ r, ∃ s' calls, access g handlers r t.sim = some (s', calls) ∧
    (s'.readMisses = t.sim.readMisses ∧ s'.writeMisses = t.sim.writeMisses ↔
      accessedSinceVictim (g.line r.addr) t.history = true)

theorem Trace.Sound.countsHits {g : Geometry} {t : Trace τ} (hsound : t.Sound g)
    (hways : 0 < g.ways) (handlers : Handlers) : CountsHits g handlers t := by
  intro r
  obtain ⟨t', calls, -, -, hacc, haccessed, -⟩ := hsound.access hways handlers r
  refine ⟨t'.sim, calls, hacc, ?_⟩
  rw [haccessed.readMisses, haccessed.writeMisses, hsound.miss_eq haccessed]
  cases accessedSinceVictim (g.line r.addr) t.history <;> cases r.store <;> simp

/-- **Residency.**  Along every sequence of accesses no null pointer is followed, valid tags
stand in the sets of their lines and no line is held twice, the map holds at most `ways`
lines under their own numbers, flags and line numbers do not overlap, and an access is
counted as a hit exactly when its line was accessed before and has not been a victim since. -/
theorem run_residency (g : Geometry) (hways : 0 < g.ways) (handlers : Handlers)
    (rs : List Request) :
    (∃ t : Trace TagArray, run g handlers rs = some t ∧ TagArray.Inv g t.sim.tags ∧
      CountsHits g handlers t) ∧
    (∃ t : Trace TagMap, run g handlers rs = some t ∧ TagMap.Inv g t.sim.tags ∧
      CountsHits g handlers t) ∧
    ∀ addr, IsLine (g.line addr) := by
  refine ⟨?_, ?_, g.isLine_line⟩
  · obtain ⟨t, hrun, hsound⟩ := run_returns (τ := TagArray) hways handlers rs
    exact ⟨t, hrun, hsound.inv, hsound.countsHits hways handlers⟩
  · obtain ⟨t, hrun, hsound⟩ := run_returns (τ := TagMap) hways handlers rs
    exact ⟨t, hrun, hsound.inv, hsound.countsHits hways handlers⟩

/-- A cache of two sets with two ways and lines of 64 bytes. -/
def smallGeometry : Geometry where
  sets := 2
  ways := 2
  linesz := 64
  sets_accepted := by decide
  linesz_accepted := by decide
  linesz_lt := by decide
  tags_lt := by decide

/-- A store, a load of the next line and a load of the first line again. -/
theorem smallGeometry_residency :
    ∃ t : Trace TagArray, run smallGeometry ⟨true, false⟩
      [⟨0x80000008, 8, true⟩, ⟨0x80000040, 4, false⟩, ⟨0x80000010, 8, false⟩] = some t ∧
      TagArray.Inv smallGeometry t.sim.tags ∧ CountsHits smallGeometry ⟨true, false⟩ t :=
  (run_residency smallGeometry (by decide) ⟨true, false⟩ _).1

end SpikeSim.Cache
