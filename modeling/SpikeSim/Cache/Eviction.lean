/-
# Premature evictions

A miss of the fully associative cache picks a victim only when the map is full.  A miss
of the set-associative cache overwrites the way that the LFSR names, also while other
ways of the set are free.  So the first evicts with care for every state of the LFSR, and
the second exactly if the first `ways` misses of each set draw different ways.  Where
evictions are careful, a sequence that touches no more than `ways` lines of a set misses
each of them once.
-/

import SpikeSim.Cache.Traffic

namespace SpikeSim.Cache

open TagStore LawfulTagStore WriteBack

variable {g : Geometry} {handlers : Handlers}

/-! ## Care -/

section Care

variable {τ : Type} [TagStore τ]

/-- A cache without lines, with any state of the LFSR. -/
def Sim.fresh (lfsr : BitVec 32) : Sim τ := { Sim.init with lfsr := lfsr }

/-- Whether an access misses. -/
def missed (g : Geometry) (x : Request × Sim τ) : Bool := (outcome g x.1 x.2).miss

variable [LawfulTagStore τ]

/-- The access evicts no valid line, or the set holds `ways` valid lines. -/
def EvictsLate (g : Geometry) (x : Request × Sim τ) : Prop :=
  (outcome g x.1 x.2).victim ≠ none →
    Full g.setOf g.ways (g.idx x.1.addr) (contents g x.2.tags)

/-- The lines of a set that the requests touch, each once. -/
def linesOfSet (g : Geometry) (set : Nat) (rs : List Request) : List (BitVec 64) :=
  ((rs.map fun r => g.line r.addr).dedup).filter fun line => g.setOf line = set

/-- Lines are evicted from full sets only, and of a set of which no more than `ways` lines are
touched, each touched line is missed once. -/
structure Careful (τ : Type) [TagStore τ] [LawfulTagStore τ] (g : Geometry) (handlers : Handlers)
    (lfsr : BitVec 32) (rs : List Request) : Prop where
  late : ∀ x ∈ visits (τ := τ) g handlers rs (.fresh lfsr), EvictsLate g x
  once : ∀ set, (linesOfSet g set rs).length ≤ g.ways → ∀ line ∈ linesOfSet g set rs,
    (visits (τ := τ) g handlers rs (.fresh lfsr)).countP
      (fun x => missed g x && decide (g.line x.1.addr = line)) = 1

/-- The victim of a miss comes from the set of the new line. -/
def VictimsAtHome (τ : Type) [TagStore τ] [LawfulTagStore τ] (g : Geometry) : Prop :=
  ∀ (r : Request) (s : Sim τ), Inv g s.tags → ∀ v, (outcome g r s).victim = some v →
    g.setOf v = g.idx r.addr

/-- An access in the middle of a sequence. -/
theorem visits_cons (hways : 0 < g.ways) (handlers : Handlers) (r : Request) (rs : List Request)
    {s : Sim τ} (hinv : Inv g s.tags) : ∃ s' calls, access g handlers r s = some (s', calls) ∧
      Accessed g handlers r s s' calls ∧
      visits g handlers (r :: rs) s = (r, s) :: visits g handlers rs s' := by
  obtain ⟨s', calls, hacc, haccessed⟩ := access_returns handlers r hways hinv
  refine ⟨s', calls, hacc, haccessed, ?_⟩
  rw [visits, hacc]

/-- Late evictions are those of a frugal cache. -/
theorem frugal_of_late (hways : 0 < g.ways) (hhome : VictimsAtHome τ g) (rs : List Request)
    {s : Sim τ} (hinv : Inv g s.tags) (hlate : ∀ x ∈ visits g handlers rs s, EvictsLate g x) :
    Frugal g.setOf g.ways (contents g s.tags)
      ((visits g handlers rs s).map fun x => outcome g x.1 x.2) := by
  induction rs generalizing s with
  | nil => exact .nil _
  | cons r rs ih =>
      obtain ⟨s', calls, -, haccessed, hvisits⟩ := visits_cons hways handlers r rs hinv
      rw [hvisits] at hlate ⊢
      refine .cons haccessed.step (fun v hv => ?_)
        (ih haccessed.inv fun x hx => hlate x (List.mem_cons_of_mem _ hx))
      have hfull := hlate _ List.mem_cons_self (by simp [hv])
      rw [outcome_line]
      exact ⟨hhome r s hinv v hv, hfull⟩

theorem visits_map_fst (hways : 0 < g.ways) (rs : List Request) {s : Sim τ}
    (hinv : Inv g s.tags) : (visits g handlers rs s).map Prod.fst = rs := by
  induction rs generalizing s with
  | nil => rfl
  | cons r rs ih =>
      obtain ⟨s', calls, -, haccessed, hvisits⟩ := visits_cons hways handlers r rs hinv
      rw [hvisits, List.map_cons, ih haccessed.inv]

theorem careful_of_late (hways : 0 < g.ways) (hhome : VictimsAtHome τ g) {lfsr : BitVec 32}
    {rs : List Request}
    (hlate : ∀ x ∈ visits (τ := τ) g handlers rs (.fresh lfsr), EvictsLate g x) :
    Careful τ g handlers lfsr rs where
  late := hlate
  once set hlen line hline := by
    have hinv : Inv g (Sim.fresh lfsr : Sim τ).tags := inv_empty g
    have hcontents : contents g (Sim.fresh lfsr : Sim τ).tags = fun _ => none := contents_empty g
    have hfrugal := frugal_of_late hways hhome rs hinv hlate
    have htouched (l : BitVec 64) :
        (∃ o ∈ (visits (τ := τ) g handlers rs (.fresh lfsr)).map (fun x => outcome g x.1 x.2),
          o.line = l) ↔ l ∈ rs.map fun r => g.line r.addr := by
      have hvisited : (visits g handlers rs (.fresh lfsr : Sim τ)).map Prod.fst = rs :=
        visits_map_fst hways rs hinv
      conv_rhs => rw [← hvisited]
      simp
    simp only [linesOfSet, List.mem_filter, List.mem_dedup, decide_eq_true_eq] at hline
    have hcount := hfrugal.misses_eq (i := set) hlen (fun l hl => by
      rintro (hc | ho)
      · rw [hcontents] at hc
        exact absurd rfl hc
      · rw [htouched] at ho
        simpa [linesOfSet, hl] using ho) hline.2
    rw [List.countP_map, hcontents, if_pos ⟨rfl, (htouched line).mpr hline.1⟩] at hcount
    simpa [Function.comp_def, missed] using hcount

end Care

/-! ## The fully associative cache -/

theorem TagMap.victimsAtHome (hsets : g.sets = 1) (hways : 0 < g.ways) :
    VictimsAtHome TagMap g := by
  intro r s _ v _
  have hv := g.setOf_lt hways v
  have hr : g.idx r.addr < g.sets := g.setOf_lt hways (g.line r.addr)
  omega

/-- The resident lines are the keys. -/
theorem TagMap.full_of_length {store : TagMap} (hsets : g.sets = 1) (hways : 0 < g.ways)
    (hinv : TagMap.Inv g store) (hlen : store.tags.length = g.ways) {set : Nat}
    (hset : set < g.sets) : Full g.setOf g.ways set (TagMap.contents g store) := by
  refine ⟨store.tags.map Prod.fst, ?_, by rw [List.length_map, hlen], fun line hline => ?_⟩
  · exact List.pairwise_map.mpr (hinv.sorted.imp fun hlt => BitVec.ne_of_lt hlt)
  · obtain ⟨it, hit, rfl⟩ := List.mem_map.mp hline
    have hhome := g.setOf_lt hways it.1
    refine ⟨by omega, ?_⟩
    rw [(TagMap.contents_eq_some_iff hinv).mpr ⟨it.2, hit, rfl⟩]
    exact Option.some_ne_none _

theorem TagMap.evictsLate (hsets : g.sets = 1) (hways : 0 < g.ways) (r : Request)
    (s : Sim TagMap) (hinv : TagMap.Inv g s.tags) : EvictsLate g (r, s) := by
  intro hvictim
  by_cases hlen : s.tags.tags.length = g.ways
  · exact full_of_length hsets hways hinv hlen (g.setOf_lt hways _)
  · -- With room in the map the victim is no valid tag.
    exfalso
    apply hvictim
    cases hcheck : checkTag g r.addr s.tags with
    | some ptr => rw [outcome_of_hit hcheck]
    | none =>
        have hroom : victimize g r.addr s.lfsr s.tags = some (0, s.lfsr, _) := if_neg hlen
        rw [outcome_of_miss hcheck hroom]
        exact (if_neg (by decide) : validLine 0 = none)

/-- The fully associative cache is careful whatever the LFSR gives. -/
theorem TagMap.careful (hsets : g.sets = 1) (hways : 0 < g.ways) (lfsr : BitVec 32)
    (rs : List Request) : Careful TagMap g handlers lfsr rs := by
  apply careful_of_late hways (victimsAtHome hsets hways)
  have hall (rs : List Request) (s : Sim TagMap) (hinv : LawfulTagStore.Inv g s.tags) :
      ∀ x ∈ visits g handlers rs s, EvictsLate g x := by
    induction rs generalizing s with
    | nil => simp [visits]
    | cons r rs ih =>
        obtain ⟨s', calls, -, haccessed, hvisits⟩ := visits_cons hways handlers r rs hinv
        rw [hvisits, List.forall_mem_cons]
        exact ⟨evictsLate hsets hways r s hinv, ih s' haccessed.inv⟩
  exact hall rs _ (LawfulTagStore.inv_empty g)

/-! ## The set-associative cache -/

/-- The ways that the misses of a set draw, in their order. -/
def draws (g : Geometry) (handlers : Handlers) (set : Nat) (rs : List Request)
    (s : Sim TagArray) : List Nat :=
  (visits g handlers rs s).filterMap fun x =>
    if missed g x ∧ g.idx x.1.addr = set then some ((lfsrNext x.2.lfsr).toNat % g.ways) else none

/-- When one more way is drawn, the first `ways` draws stay different exactly if the way is new
or all ways were drawn. -/
theorem nodup_take_concat {ways : Nat} {seen : List Nat} {w : Nat} (hseen : ∀ v ∈ seen, v < ways)
    (hnodup : (seen.take ways).Nodup) :
    (w ∈ seen → ∀ v < ways, v ∈ seen) ↔ ((seen ++ [w]).take ways).Nodup := by
  rcases lt_or_ge seen.length ways with hlt | hge
  · rw [List.take_of_length_le hlt.le] at hnodup
    rw [List.take_of_length_le (by simpa using hlt), List.nodup_append]
    have hmissing : ¬ ∀ v < ways, v ∈ seen := by
      intro hall
      have hsub : List.range ways ⊆ seen := fun v hv => hall v (List.mem_range.mp hv)
      have hle := (List.nodup_range.subperm hsub).length_le
      rw [List.length_range] at hle
      omega
    constructor
    · intro h
      refine ⟨hnodup, List.nodup_singleton w, fun v hv v' hv' heq => ?_⟩
      rw [List.mem_singleton.mp hv'] at heq
      exact hmissing (h (heq ▸ hv))
    · intro h hw
      exact absurd rfl (h.2.2 w hw w (List.mem_singleton_self w))
  · rw [List.take_append_of_le_length hge]
    refine iff_of_true (fun _ v hv => ?_) hnodup
    have hsub : seen.take ways ⊆ List.range ways := fun u hu =>
      List.mem_range.mpr (hseen u (List.mem_of_mem_take hu))
    have hperm := (hnodup.subperm hsub).perm_of_length_le (by simp [hge])
    exact List.mem_of_mem_take (hperm.mem_iff.mpr (List.mem_range.mpr hv))

namespace TagArray

variable {s s' : Sim TagArray} {r : Request} {calls : List Call}

theorem victim_eq (hways : 0 < g.ways) (hmiss : (outcome g r s).miss = true) :
    (outcome g r s).victim =
      validLine (way g s.tags (g.idx r.addr) ((lfsrNext s.lfsr).toNat % g.ways)) := by
  cases hcheck : TagStore.checkTag g r.addr s.tags with
  | some ptr =>
      rw [outcome_of_hit hcheck] at hmiss
      cases hmiss
  | none =>
      have hvictim : TagStore.victimize g r.addr s.lfsr s.tags = some (_, _, _) :=
        if_neg hways.ne'
      rw [outcome_of_miss hcheck hvictim]
      rfl

theorem victim_of_hit (hhit : (outcome g r s).miss = false) : (outcome g r s).victim = none := by
  cases hcheck : TagStore.checkTag g r.addr s.tags with
  | some ptr => rw [outcome_of_hit hcheck]
  | none =>
      rw [outcome, hcheck] at hhit
      cases hhit

theorem victimsAtHome (hways : 0 < g.ways) : VictimsAtHome TagArray g := by
  intro r s hinv v hv
  cases hmiss : (outcome g r s).miss with
  | false =>
      rw [victim_of_hit hmiss] at hv
      cases hv
  | true =>
      rw [victim_eq hways hmiss] at hv
      exact (Inv.contents_way hinv (g.setOf_lt hways _) (Nat.mod_lt _ hways) hv).1

/-- The resident lines of a set stand in its ways. -/
theorem full_iff {store : TagArray} (hinv : Inv g store) {set : Nat} (hset : set < g.sets) : Full g.setOf g.ways set (contents g store) ↔
      ∀ w < g.ways, isValid (way g store set w) = true := by
  constructor
  · rintro ⟨lines, hnodup, hlen, hlines⟩
    -- The lines are among those of the valid ways, which are too few otherwise.
    have hsub : lines ⊆ ((List.range g.ways).filter fun w => isValid (way g store set w)).map
        fun w => lineOf (way g store set w) := by
      intro line hline
      obtain ⟨hhome, hresident⟩ := hlines line hline
      rw [Ne, contents_eq_none_iff, not_forall₂] at hresident
      obtain ⟨w, hw, hholds⟩ := hresident
      rw [Bool.not_eq_false, holds_iff, hhome] at hholds
      exact List.mem_map.mpr ⟨w, List.mem_filter.mpr ⟨List.mem_range.mpr hw, hholds.1⟩, hholds.2⟩
    have hle := (hnodup.subperm hsub).length_le
    have hge := List.length_filter_le (fun w => isValid (way g store set w)) (List.range g.ways)
    rw [List.length_map] at hle
    rw [List.length_range] at hge
    have hall := List.length_filter_eq_length_iff.mp
      ((hge.antisymm (hlen ▸ hle)).trans List.length_range.symm)
    exact fun w hw => hall w (List.mem_range.mpr hw)
  · intro hall
    refine ⟨(List.range g.ways).map fun w => lineOf (way g store set w), ?_, by simp, ?_⟩
    · apply List.Nodup.map_on _ List.nodup_range
      intro w hw w' hw' hline
      rw [List.mem_range] at hw hw'
      exact hinv.unique set hset w hw w' hw' (hall w hw) (hall w' hw') hline
    · intro line hline
      obtain ⟨w, hw, rfl⟩ := List.mem_map.mp hline
      rw [List.mem_range] at hw
      obtain ⟨hhome, -, hcontents⟩ := hinv.contents_way hset hw (if_pos (hall w hw))
      exact ⟨hhome, by simp [hcontents]⟩

/-- A miss makes the way valid that it draws, and nothing else changes which ways are. -/
theorem isValid_access (hways : 0 < g.ways) (hacc : access g handlers r s = some (s', calls))
    (set : Nat) {w : Nat} (hw : w < g.ways) : isValid (way g s'.tags set w) = true ↔
      isValid (way g s.tags set w) = true ∨ missed g (r, s) = true ∧ g.idx r.addr = set ∧
        w = (lfsrNext s.lfsr).toNat % g.ways := by
  have hnext := access_nextTags g handlers r s
  rw [hacc, Option.map_some, nextTags] at hnext
  cases hcheck : TagStore.checkTag g r.addr s.tags with
  | some ptr =>
      obtain ⟨w', hw', -, rfl⟩ := checkTag_eq_some hcheck
      rw [hcheck] at hnext
      have hmissed : missed g (r, s) = false := by rw [missed, outcome_of_hit hcheck]
      have htags : s'.tags = if r.store then mark g s.tags (g.setOf (g.line r.addr)) w' else s.tags :=
        congrArg Prod.fst (Option.some.inj hnext)
      rw [htags, hmissed]
      cases r.store with
      | false => simp
      | true => simp [isValid_mark hw' hw]
  | none =>
      have hvictim : TagStore.victimize g r.addr s.lfsr s.tags =
          some (_, lfsrNext s.lfsr, refill g s.tags (g.line r.addr)
            ((lfsrNext s.lfsr).toNat % g.ways)) := if_neg hways.ne'
      have hdraw : (lfsrNext s.lfsr).toNat % g.ways < g.ways := Nat.mod_lt _ hways
      have hmissed : missed g (r, s) = true := by rw [missed, outcome_of_miss hcheck hvictim]
      rw [hcheck, hvictim, Option.bind_some] at hnext
      have hvalid : isValid (way g s'.tags set w) =
          isValid (way g (refill g s.tags (g.line r.addr) ((lfsrNext s.lfsr).toNat % g.ways))
            set w) := by
        cases hstore : r.store with
        | false =>
            simp only [hstore, Bool.false_eq_true, if_false] at hnext
            obtain ⟨htags, -⟩ := Prod.mk.inj (Option.some.inj hnext)
            rw [htags]
        | true =>
            simp only [hstore, if_true] at hnext
            rw [eq_comm, Option.map_eq_some_iff] at hnext
            obtain ⟨ptr, hptr, hmarked⟩ := hnext
            obtain ⟨w', hw', -, rfl⟩ := checkTag_eq_some hptr
            obtain ⟨htags, -⟩ := Prod.mk.inj hmarked
            rw [← htags]
            exact isValid_mark hw' hw
      rw [hvalid, way_refill hdraw hw, hmissed]
      change _ ↔ _ ∨ _ ∧ g.setOf (g.line r.addr) = set ∧ _
      split
      next h => simp [isValid_fresh, h.1, h.2]
      next h =>
        rw [eq_comm] at h
        simp [h]

/-- In a set the late evictions are a matter of the draws: the valid ways are those drawn. -/
theorem late_iff (hways : 0 < g.ways) {set : Nat} (hset : set < g.sets) (rs : List Request)
    {seen : List Nat} (hinv : Inv g s.tags)
    (hvalid : ∀ w < g.ways, isValid (way g s.tags set w) = true ↔ w ∈ seen)
    (hseen : ∀ w ∈ seen, w < g.ways) (hnodup : (seen.take g.ways).Nodup) :
    (∀ x ∈ visits g handlers rs s, g.idx x.1.addr = set → EvictsLate g x) ↔
      ((seen ++ draws g handlers set rs s).take g.ways).Nodup := by
  induction rs generalizing s seen with
  | nil => simpa [visits, draws] using hnodup
  | cons r rs ih =>
      obtain ⟨s', calls, hacc, haccessed, hvisits⟩ := visits_cons (s := s) hways handlers r rs hinv
      have hvalid' (w : Nat) (hw : w < g.ways) :=
        isValid_access hways hacc set hw
      rw [draws, hvisits, List.forall_mem_cons, List.filterMap_cons]
      by_cases hdraw : missed g (r, s) = true ∧ g.idx r.addr = set
      · have hlt : (lfsrNext s.lfsr).toNat % g.ways < g.ways := Nat.mod_lt _ hways
        have hhead : EvictsLate g (r, s) ↔
            ((seen ++ [(lfsrNext s.lfsr).toNat % g.ways]).take g.ways).Nodup := by
          rw [← nodup_take_concat hseen hnodup, ← hvalid _ hlt, EvictsLate,
            victim_eq hways hdraw.1, hdraw.2]
          change (_ → Full g.setOf g.ways set (contents g s.tags)) ↔ _
          rw [full_iff hinv hset, validLine]
          by_cases hhere : isValid (way g s.tags set ((lfsrNext s.lfsr).toNat % g.ways)) = true
          · simp +contextual [hhere, hvalid]
          · simp [hhere]
        rw [if_pos hdraw]
        change _ ↔ ((seen ++ (lfsrNext s.lfsr).toNat % g.ways ::
          draws g handlers set rs s').take g.ways).Nodup
        rw [List.append_cons]
        have hrest (h : ((seen ++ [(lfsrNext s.lfsr).toNat % g.ways]).take g.ways).Nodup) := by
          refine ih haccessed.inv
            (fun w hw => ?_) (fun w hw => ?_) h
          · rw [hvalid' w hw, hvalid w hw, List.mem_append, List.mem_singleton,
              and_iff_right hdraw.1, and_iff_right hdraw.2]
          · rcases List.mem_append.mp hw with hw | hw
            · exact hseen w hw
            · exact List.mem_singleton.mp hw ▸ hlt
        constructor
        · rintro ⟨hfirst, hlater⟩
          exact (hrest (hhead.mp (hfirst hdraw.2))).mp hlater
        · intro hall
          have hfirst : ((seen ++ [(lfsrNext s.lfsr).toNat % g.ways]).take g.ways).Nodup :=
            hall.sublist ((List.prefix_append _ _).take g.ways).sublist
          exact ⟨fun _ => hhead.mpr hfirst, (hrest hfirst).mpr hall⟩
      · rw [if_neg hdraw]
        have hhead : g.idx r.addr = set → EvictsLate g (r, s) := by
          intro hset' hvictim
          have hmissed : (outcome g r s).miss = false :=
            Bool.eq_false_of_not_eq_true fun h => hdraw ⟨h, hset'⟩
          exact absurd (victim_of_hit hmissed) hvictim
        rw [and_iff_right hhead]
        refine ih haccessed.inv (fun w hw => ?_) hseen hnodup
        rw [hvalid' w hw, hvalid w hw, or_iff_left]
        exact fun h => hdraw ⟨h.1, h.2.1⟩

/-- The set-associative cache is careful exactly if the first `ways` draws of each set differ. -/
theorem careful_iff (hways : 0 < g.ways) (lfsr : BitVec 32) (rs : List Request) :
    Careful TagArray g handlers lfsr rs ↔
      ∀ set < g.sets, ((draws g handlers set rs (.fresh lfsr)).take g.ways).Nodup := by
  have hinv : LawfulTagStore.Inv g (Sim.fresh lfsr : Sim TagArray).tags := inv_empty g
  have hset {set : Nat} (hset : set < g.sets) :
      (∀ x ∈ visits g handlers rs (.fresh lfsr : Sim TagArray), g.idx x.1.addr = set →
        EvictsLate g x) ↔ (([] ++ draws g handlers set rs (.fresh lfsr)).take g.ways).Nodup :=
    late_iff hways hset rs hinv (fun w _ => by simp [Sim.fresh, Sim.init, isValid_empty])
      (by simp) (by simp)
  constructor
  · intro hcareful set hlt
    exact (hset hlt).mp fun x hx _ => hcareful.late x hx
  · intro hall
    apply careful_of_late hways (victimsAtHome hways)
    intro x hx
    have hlt : g.idx x.1.addr < g.sets := g.setOf_lt hways _
    exact (hset hlt).mpr (hall _ hlt) x hx rfl

end TagArray

/-- **Which runs evict with care.**  Whatever the LFSR holds at first, the fully associative
cache evicts from a full map only and the set-associative one does exactly if the first `ways`
misses of each set draw different ways.  In both cases lines that fit into their set are
missed once each. -/
theorem careful_eviction_iff (g : Geometry) (hways : 0 < g.ways) (handlers : Handlers)
    (lfsr : BitVec 32) (rs : List Request) :
    (Careful TagArray g handlers lfsr rs ↔
      ∀ set < g.sets, ((draws g handlers set rs (.fresh lfsr)).take g.ways).Nodup) ∧
    (g.sets = 1 → Careful TagMap g handlers lfsr rs) :=
  ⟨TagArray.careful_iff hways lfsr rs, fun hsets => TagMap.careful hsets hways lfsr rs⟩

/-- Two lines of a set, when the LFSR first names one way and then the other. -/
theorem smallGeometry_careful :
    Careful TagArray smallGeometry ⟨true, false⟩ 4
      [⟨0x80000000, 8, false⟩, ⟨0x80000080, 8, true⟩, ⟨0x80000000, 8, false⟩] :=
  (careful_eviction_iff smallGeometry (by decide) ⟨true, false⟩ 4 _).1.mpr (by decide +kernel)

/-- Of a fresh cache the LFSR names the same way twice, and the first of two lines is missed
again. -/
theorem smallGeometry_not_careful :
    ¬ Careful TagArray smallGeometry ⟨true, false⟩ 1
      [⟨0x80000000, 8, false⟩, ⟨0x80000080, 8, true⟩, ⟨0x80000000, 8, false⟩] := by
  intro hcareful
  have honce := hcareful.once 0 (by decide +kernel) 0x2000000 (by decide +kernel)
  revert honce
  decide +kernel

end SpikeSim.Cache
