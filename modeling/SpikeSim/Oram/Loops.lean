/-
# What the loops of the ORAM controller compute

One specification per loop of `oramsim.cc`.  The callers in the placement and
trace modules cite these and never unfold a loop again.
-/

import SpikeSim.Oram.Model

namespace SpikeSim.Oram

open HeapTree

/-! ## `int` node ids -/

/-- A node id below `2 ^ 31` survives the conversion to `int`. -/
theorem toInt32_of_lt {n : Nat} (h : n < 2 ^ 31) : toInt32 n = (n : Int) := by
  simp only [toInt32, BitVec.toInt_eq_toNat_cond, BitVec.toNat_ofNat]
  have : n % 2 ^ 32 = n := Nat.mod_eq_of_lt (by omega)
  rw [this, if_pos (by omega)]

theorem intKey_natCast {n : Nat} (h : n < 2 ^ 31) : intKey (n : Int) = n := by
  rw [intKey, BitVec.ofInt_natCast, BitVec.toNat_ofNat]
  exact Nat.mod_eq_of_lt (by omega)

theorem tdiv_two_natCast (n : Nat) : (n : Int).tdiv 2 = ((n / 2 : Nat) : Int) := by
  rw [Int.tdiv_eq_ediv_of_nonneg (by omega)]
  norm_cast

/-! ## The two path loops -/

variable (c : Config)

@[simp]
theorem State.blockAt_dramAccess (st : State) (addr bytes : Nat) (type : AccessType)
    (node : Nat) : (st.dramAccess addr bytes type).blockAt node = st.blockAt node := by
  cases type <;> rfl

/-- What `load_path_to_stash` does when the node ids fit: slot `i` receives the
block of the path node on level `i`, and nothing else of the state moves but
the DRAM log, which grows by one load per node from the leaf up. -/
theorem loadPathLoop_spec (s cur : Nat) (hcur : cur < 2 ^ 31) (st : State) :
    (∀ i, (loadPathLoop c s cur st).stash i =
      if i ≤ s then st.blockAt (cur / 2 ^ (s - i)) else st.stash i) ∧
    (∀ node, (loadPathLoop c s cur st).blockAt node = st.blockAt node) ∧
    (loadPathLoop c s cur st).positionMap = st.positionMap ∧
    (loadPathLoop c s cur st).dram = st.dram ++ (List.range (s + 1)).map fun k =>
      ⟨false, c.blockIdToAddr (st.blockAt (cur / 2 ^ k))⟩ := by
  induction s generalizing cur st with
  | zero =>
      refine ⟨fun i => ?_, fun node => ?_, rfl, ?_⟩
      · by_cases hi : i = 0
        · subst hi
          simp [loadPathLoop, loadNode, State.dramAccess, intKey_natCast hcur, State.blockAt]
        · simp [loadPathLoop, loadNode, State.dramAccess, hi]
      · simp [loadPathLoop, loadNode, State.blockAt, State.dramAccess]
      · simp [loadPathLoop, loadNode, State.dramAccess, intKey_natCast hcur, State.blockAt]
  | succ s ih =>
      have hnode : ∀ node, (loadNode c (s + 1) cur st).blockAt node = st.blockAt node := by
        intro node
        simp [loadNode, State.blockAt, State.dramAccess]
      have hih := ih (cur / 2) (by omega) (loadNode c (s + 1) cur st)
      rw [loadPathLoop, tdiv_two_natCast]
      obtain ⟨hstash, hblock, hpos, hdram⟩ := hih
      refine ⟨fun i => ?_, fun node => by rw [hblock, hnode], ?_, ?_⟩
      · rw [hstash]
        by_cases hi : i ≤ s
        · have hpow : s + 1 - i = (s - i) + 1 := by omega
          rw [if_pos hi, if_pos (by omega), hnode, Nat.div_div_eq_div_mul, hpow, pow_succ']
        · rw [if_neg hi]
          by_cases htop : i = s + 1
          · subst htop
            simp [loadNode, State.dramAccess, intKey_natCast hcur, State.blockAt]
          · rw [if_neg (by omega)]
            simp [loadNode, State.dramAccess, htop]
      · rw [hpos]; rfl
      · rw [hdram, List.range_succ_eq_map (n := s + 1), List.map_cons, List.map_map]
        have hlog : (loadNode c (s + 1) cur st).dram =
            st.dram ++ [⟨false, c.blockIdToAddr (st.blockAt cur)⟩] := by
          simp [loadNode, State.dramAccess, intKey_natCast hcur, State.blockAt]
        simp only [hnode, hlog, List.append_assoc, List.singleton_append, pow_zero,
          Nat.div_one, Function.comp_def, Nat.div_div_eq_div_mul, Nat.succ_eq_add_one, pow_succ']

/-- What the write-back loop does on a whole path: node `cur / 2 ^ k` receives
slot `s - k`, the slots up to `s` become empty, and one store per node is
logged from the leaf up. -/
theorem writeBackLoop_spec (s cur : Nat) (hcur : IsLeafOf s cur) (st : State) :
    (∀ k ≤ s, (writeBackLoop c s cur st).blockAt (cur / 2 ^ k) = st.stash (s - k)) ∧
    (∀ node, (∀ k ≤ s, node ≠ cur / 2 ^ k) →
      (writeBackLoop c s cur st).blockAt node = st.blockAt node) ∧
    (∀ i, (writeBackLoop c s cur st).stash i =
      if i ≤ s then emptySlot else st.stash i) ∧
    (writeBackLoop c s cur st).positionMap = st.positionMap ∧
    (writeBackLoop c s cur st).dram = st.dram ++ (List.range (s + 1)).map fun k =>
      ⟨true, c.blockIdToAddr (st.stash (s - k))⟩ := by
  induction s generalizing cur st with
  | zero =>
      refine ⟨fun k hk => ?_, fun node hnode => ?_, fun i => ?_, rfl, ?_⟩
      · obtain rfl : k = 0 := by omega
        simp [writeBackLoop, storeNode, State.blockAt, State.dramAccess, StdMap.read_insert]
      · have h0 := hnode 0 le_rfl
        simp only [pow_zero, Nat.div_one] at h0
        simp [writeBackLoop, storeNode, State.blockAt, State.dramAccess, StdMap.read_insert, h0]
      · by_cases hi : i = 0
        · subst hi
          simp [writeBackLoop, storeNode, State.dramAccess]
        · simp [writeBackLoop, storeNode, State.dramAccess, hi]
      · simp [writeBackLoop, storeNode, State.dramAccess]
  | succ s ih =>
      have hhalf : IsLeafOf s (cur / 2) := by
        obtain ⟨hlow, hhigh⟩ := hcur
        rw [pow_succ] at hlow hhigh
        exact ⟨by omega, by omega⟩
      have hstore : ∀ node, (storeNode c (s + 1) cur st).blockAt node =
          if node = cur then st.stash (s + 1) else st.blockAt node := by
        intro node
        simp [storeNode, State.blockAt, State.dramAccess, StdMap.read_insert]
      have hslot : ∀ i, (storeNode c (s + 1) cur st).stash i =
          if i = s + 1 then emptySlot else st.stash i := by
        intro i
        by_cases hi : i = s + 1 <;> simp [storeNode, State.dramAccess, hi]
      -- The leaf itself lies below every node that the recursive call writes.
      have hbelow : ∀ k ≤ s, cur ≠ cur / 2 / 2 ^ k := by
        intro k _ heq
        have : cur / 2 / 2 ^ k ≤ cur / 2 := Nat.div_le_self _ _
        have : 0 < cur := lt_of_lt_of_le (by positivity) hcur.1
        omega
      obtain ⟨hpath, hoff, hstash, hpos, hdram⟩ :=
        ih (cur / 2) hhalf (storeNode c (s + 1) cur st)
      rw [writeBackLoop]
      refine ⟨fun k hk => ?_, fun node hnode => ?_, fun i => ?_, ?_, ?_⟩
      · cases k with
        | zero =>
            rw [pow_zero, Nat.div_one, hoff cur hbelow, hstore, if_pos rfl, Nat.sub_zero]
        | succ k =>
            rw [pow_succ', ← Nat.div_div_eq_div_mul, hpath k (by omega), hslot,
              if_neg (by omega)]
            congr 1
            omega
      · have h0 := hnode 0 (by omega)
        rw [pow_zero, Nat.div_one] at h0
        rw [hoff node, hstore, if_neg h0]
        intro k hk
        rw [Nat.div_div_eq_div_mul, ← pow_succ']
        exact hnode (k + 1) (by omega)
      · rw [hstash, hslot]
        by_cases hi : i ≤ s
        · rw [if_pos hi, if_pos (by omega)]
        · by_cases htop : i = s + 1
          · simp [htop]
          · rw [if_neg hi, if_neg htop, if_neg (by omega)]
      · rw [hpos]; rfl
      · rw [hdram, List.range_succ_eq_map (n := s + 1), List.map_cons, List.map_map]
        have hlog : (storeNode c (s + 1) cur st).dram =
            st.dram ++ [⟨true, c.blockIdToAddr (st.stash (s + 1))⟩] := rfl
        have hrest : ∀ k ∈ List.range (s + 1),
            (⟨true, c.blockIdToAddr ((storeNode c (s + 1) cur st).stash (s - k))⟩ : Transaction) =
              ⟨true, c.blockIdToAddr (st.stash (s + 1 - (k + 1)))⟩ := by
          intro k _
          rw [hslot, if_neg (by omega), Nat.add_sub_add_right]
        rw [hlog, List.append_assoc, List.singleton_append, Nat.sub_zero,
          List.map_congr_left hrest]
        rfl

/-! ## The ancestor search -/

/-- On node ids that fit `int`, the search returns the deepest level on which
both leaves have the same path node. -/
theorem nearestAncestorHeight_spec (height first second : Nat)
    (hfirst : IsLeafOf height first) (hsecond : IsLeafOf height second) :
    ∃ level ≤ height, nearestAncestorHeight height (first : Int) (second : Int) = some level ∧
      pathNode height first level = pathNode height second level ∧
      ∀ i, level < i → i ≤ height → pathNode height first i ≠ pathNode height second i := by
  induction height generalizing first second with
  | zero =>
      obtain rfl : first = 1 := by have := hfirst.1; have := hfirst.2; omega
      obtain rfl : second = 1 := by have := hsecond.1; have := hsecond.2; omega
      exact ⟨0, le_rfl, by simp [nearestAncestorHeight], rfl, fun i hi hle => by omega⟩
  | succ height ih =>
      by_cases heq : first = second
      · exact ⟨height + 1, le_rfl, by simp [nearestAncestorHeight, heq], by rw [heq],
          fun i hi hle => by omega⟩
      · have hhalf : ∀ {leaf}, IsLeafOf (height + 1) leaf → IsLeafOf height (leaf / 2) := by
          rintro leaf ⟨hlow, hhigh⟩
          rw [pow_succ] at hlow hhigh
          exact ⟨by omega, by omega⟩
        have hstep : ∀ leaf i, i ≤ height →
            pathNode (height + 1) leaf i = pathNode height (leaf / 2) i := by
          intro leaf i hi
          have hsub : height + 1 - i = (height - i) + 1 := by omega
          simp only [pathNode, hsub, pow_succ', ← Nat.div_div_eq_div_mul]
        obtain ⟨level, hlevel, hsearch, hpath, hdeeper⟩ := ih (first / 2) (second / 2)
          (hhalf hfirst) (hhalf hsecond)
        refine ⟨level, by omega, ?_, ?_, fun i hi hle => ?_⟩
        · rw [nearestAncestorHeight, if_neg (by exact_mod_cast heq), tdiv_two_natCast,
            tdiv_two_natCast, hsearch]
        · rw [hstep _ _ hlevel, hstep _ _ hlevel, hpath]
        · by_cases htop : i = height + 1
          · rwa [htop, pathNode_self, pathNode_self]
          · rw [hstep _ _ (by omega), hstep _ _ (by omega)]
            exact hdeeper i hi (by omega)

/-! ## The stash loops -/

/-- Removal clears one slot that holds the block, or finds none. -/
theorem removeBlock_spec (bid count sid : Nat) (stash : Nat → Nat) :
    (∃ j, sid ≤ j ∧ j < sid + count ∧ stash j = bid ∧
      removeBlock bid count sid stash = Function.update stash j emptySlot) ∨
    ((∀ j, sid ≤ j → j < sid + count → stash j ≠ bid) ∧
      removeBlock bid count sid stash = stash) := by
  induction count generalizing sid with
  | zero => exact .inr ⟨fun j hj hlt => by omega, rfl⟩
  | succ count ih =>
      rw [removeBlock]
      by_cases hsid : stash sid = bid
      · exact .inl ⟨sid, le_rfl, by omega, hsid, by rw [if_pos hsid]⟩
      · rw [if_neg hsid]
        rcases ih (sid + 1) with ⟨j, hj, hlt, hhold, heq⟩ | ⟨hnone, heq⟩
        · exact .inl ⟨j, by omega, by omega, hhold, heq⟩
        · refine .inr ⟨fun j hj hlt => ?_, heq⟩
          by_cases hfirst : j = sid
          · rwa [hfirst]
          · exact hnone j (by omega) (by omega)

/-- Placement takes the highest empty slot at or below the given height. -/
theorem placeBlock_spec (bid height : Nat) (stash : Nat → Nat) :
    (∃ j ≤ height, stash j = emptySlot ∧ (∀ i, j < i → i ≤ height → stash i ≠ emptySlot) ∧
      placeBlock bid height stash = (Function.update stash j bid, true)) ∨
    ((∀ i ≤ height, stash i ≠ emptySlot) ∧ placeBlock bid height stash = (stash, false)) := by
  induction height with
  | zero =>
      rw [placeBlock]
      by_cases h : stash 0 = emptySlot
      · exact .inl ⟨0, le_rfl, h, fun i hi hle => by omega, by rw [if_pos h]⟩
      · refine .inr ⟨fun i hi => ?_, by rw [if_neg h]⟩
        obtain rfl : i = 0 := by omega
        exact h
  | succ height ih =>
      rw [placeBlock]
      by_cases h : stash (height + 1) = emptySlot
      · exact .inl ⟨height + 1, le_rfl, h, fun i hi hle => by omega, by rw [if_pos h]⟩
      · rw [if_neg h]
        rcases ih with ⟨j, hj, hempty, habove, heq⟩ | ⟨hfull, heq⟩
        · refine .inl ⟨j, by omega, hempty, fun i hi hle => ?_, heq⟩
          by_cases htop : i = height + 1
          · rwa [htop]
          · exact habove i hi (by omega)
        · refine .inr ⟨fun i hi => ?_, heq⟩
          by_cases htop : i = height + 1
          · rwa [htop]
          · exact hfull i (by omega)

/-- Bringing a block back fills one empty slot of the range, if there is one. -/
theorem bringBlock_spec (block count ssid : Nat) (stash : Nat → Nat) :
    (∃ j, ssid ≤ j ∧ j < ssid + count ∧ stash j = emptySlot ∧
      bringBlock block count ssid stash = Function.update stash j block) ∨
    ((∀ j, ssid ≤ j → j < ssid + count → stash j ≠ emptySlot) ∧
      bringBlock block count ssid stash = stash) := by
  induction count generalizing ssid with
  | zero => exact .inr ⟨fun j hj hlt => by omega, rfl⟩
  | succ count ih =>
      rw [bringBlock]
      by_cases hssid : stash ssid = emptySlot
      · exact .inl ⟨ssid, le_rfl, by omega, hssid, by rw [if_pos hssid]⟩
      · rw [if_neg hssid]
        rcases ih (ssid + 1) with ⟨j, hj, hlt, hempty, heq⟩ | ⟨hfull, heq⟩
        · exact .inl ⟨j, by omega, by omega, hempty, heq⟩
        · refine .inr ⟨fun j hj hlt => ?_, heq⟩
          by_cases hfirst : j = ssid
          · rwa [hfirst]
          · exact hfull j (by omega) (by omega)

/-- The loop over the spilled blocks only fills empty slots below
`tree_height`, each with a spilled block mapped to the leaf in hand. -/
theorem bringEvicted_spec (leaf count sid : Nat) (hsid : c.treeHeight < sid)
    (stash : Nat → Nat) (positions : StdMap) :
    (∀ i, c.treeHeight ≤ i →
      (bringEvicted c leaf count sid (stash, positions)).1 i = stash i) ∧
    (∀ i < c.treeHeight,
      (bringEvicted c leaf count sid (stash, positions)).1 i = stash i ∨
      (stash i = emptySlot ∧ ∃ s, sid ≤ s ∧ s < sid + count ∧
        (bringEvicted c leaf count sid (stash, positions)).1 i = stash s ∧
        positions.read (stash s) = leaf)) ∧
    (∀ k, (bringEvicted c leaf count sid (stash, positions)).2.read k = positions.read k) := by
  induction count generalizing sid stash positions with
  | zero => exact ⟨fun i _ => rfl, fun i _ => .inl rfl, fun k => rfl⟩
  | succ count ih =>
      rw [bringEvicted]
      -- One iteration writes at most one slot below `tree_height`.
      have hone : (if positions.read (stash sid) = leaf then
            bringBlock (stash sid) c.treeHeight 0 stash else stash) = stash ∨
          ∃ j < c.treeHeight, stash j = emptySlot ∧ positions.read (stash sid) = leaf ∧
            (if positions.read (stash sid) = leaf then
              bringBlock (stash sid) c.treeHeight 0 stash else stash) =
              Function.update stash j (stash sid) := by
        by_cases hleaf : positions.read (stash sid) = leaf
        · rw [if_pos hleaf]
          rcases bringBlock_spec (stash sid) c.treeHeight 0 stash with
            ⟨j, _, hlt, hempty, heq⟩ | ⟨_, heq⟩
          · exact .inr ⟨j, by omega, hempty, hleaf, heq⟩
          · exact .inl heq
        · exact .inl (by rw [if_neg hleaf])
      obtain ⟨hupper, hlower, hread⟩ := ih (sid + 1) (by omega)
        (if positions.read (stash sid) = leaf then
          bringBlock (stash sid) c.treeHeight 0 stash else stash)
        (positions.touch (stash sid))
      refine ⟨fun i hi => ?_, fun i hi => ?_, fun k => by rw [hread, StdMap.read_touch]⟩
      · rw [hupper i hi]
        rcases hone with heq | ⟨j, hj, _, _, heq⟩
        · rw [heq]
        · rw [heq, Function.update_of_ne (by omega)]
      · rcases hone with heq | ⟨j, hj, hempty, hmapped, heq⟩
        · rw [heq] at hlower ⊢
          rcases hlower i hi with hsame | ⟨hfree, s, hs, hlt, hval, hpos⟩
          · exact .inl hsame
          · exact .inr ⟨hfree, s, by omega, by omega, hval, by simpa using hpos⟩
        · rw [heq] at hlower ⊢
          rcases hlower i hi with hsame | ⟨hfree, s, hs, hlt, hval, hpos⟩
          · by_cases hij : i = j
            · refine .inr ⟨by rw [hij]; exact hempty, sid, le_rfl, by omega, ?_, hmapped⟩
              rw [hsame, hij, Function.update_self]
            · exact .inl (by rw [hsame, Function.update_of_ne hij])
          · have hs' : Function.update stash j (stash sid) s = stash s :=
              Function.update_of_ne (by omega) _ _
            rw [hs'] at hval hpos
            by_cases hij : i = j
            · refine .inr ⟨by rw [hij]; exact hempty, s, by omega, by omega, hval, ?_⟩
              simpa using hpos
            · rw [Function.update_of_ne hij] at hfree
              exact .inr ⟨hfree, s, by omega, by omega, hval, by simpa using hpos⟩

/-- When a spilled block is mapped to the leaf and a slot below `tree_height` is
empty, the loop copies such a block down. -/
theorem bringEvicted_brings (leaf count sid : Nat) (hsid : c.treeHeight < sid)
    (stash : Nat → Nat) (positions : StdMap) (hempty : positions.read emptySlot ≠ leaf)
    (hspill : ∃ s, sid ≤ s ∧ s < sid + count ∧ positions.read (stash s) = leaf)
    (hfree : ∃ i < c.treeHeight, stash i = emptySlot) :
    ∃ i < c.treeHeight, ∃ s, sid ≤ s ∧ s < sid + count ∧ stash s ≠ emptySlot ∧
      (bringEvicted c leaf count sid (stash, positions)).1 i = stash s := by
  induction count generalizing sid positions with
  | zero =>
      obtain ⟨s, hlow, hhigh, _⟩ := hspill
      omega
  | succ count ih =>
      rw [bringEvicted]
      by_cases hleaf : positions.read (stash sid) = leaf
      · have hfull : stash sid ≠ emptySlot := fun h => hempty (h ▸ hleaf)
        obtain ⟨i, hi, hzero⟩ := hfree
        rcases bringBlock_spec (stash sid) c.treeHeight 0 stash with
          ⟨j, _, hlt, _, heq⟩ | ⟨hnone, _⟩
        · -- The copy stays: later iterations only fill empty slots.
          rw [if_pos hleaf, heq]
          obtain ⟨_, hlower, _⟩ := bringEvicted_spec c leaf count (sid + 1) (by omega)
            (Function.update stash j (stash sid)) (positions.touch (stash sid))
          refine ⟨j, by omega, sid, le_rfl, by omega, hfull, ?_⟩
          rcases hlower j (by omega) with hsame | ⟨hfree', _⟩
          · rw [hsame, Function.update_self]
          · rw [Function.update_self] at hfree'
            exact absurd hfree' hfull
        · exact absurd hzero (hnone i (by omega) (by omega))
      · rw [if_neg hleaf]
        have hlater : ∃ s, sid + 1 ≤ s ∧ s < sid + 1 + count ∧
            (positions.touch (stash sid)).read (stash s) = leaf := by
          obtain ⟨s, hlow, hhigh, hs⟩ := hspill
          refine ⟨s, ?_, by omega, by rw [StdMap.read_touch, hs]⟩
          by_contra hlt
          obtain rfl : s = sid := by omega
          exact hleaf hs
        obtain ⟨i, hi, s, hlow, hhigh, hfull, heq⟩ := ih (sid + 1) (by omega)
          (positions.touch (stash sid)) (by rwa [StdMap.read_touch]) hlater
        exact ⟨i, hi, s, by omega, by omega, hfull, heq⟩

/-- A spill that does not overflow puts the block into an empty slot. -/
theorem spillBlock_spec (bid count sid : Nat) (hend : sid + count = c.stashsz)
    (hcount : 1 ≤ count) (stash : Nat → Nat)
    (hfits : (spillBlock c bid count sid stash).2 = false) :
    ∃ j, sid ≤ j ∧ j < c.stashsz ∧ stash j = emptySlot ∧
      (spillBlock c bid count sid stash).1 = Function.update stash j bid := by
  induction count generalizing sid with
  | zero => omega
  | succ count ih =>
      rw [spillBlock] at hfits ⊢
      by_cases hfree : stash sid = emptySlot
      · exact ⟨sid, le_rfl, by omega, hfree, by rw [if_pos hfree]⟩
      · rw [if_neg hfree] at hfits ⊢
        by_cases hlast : sid = c.stashsz - 1
        · rw [if_pos hlast] at hfits
          cases hfits
        · rw [if_neg hlast] at hfits ⊢
          obtain ⟨j, hj, hlt, hempty, heq⟩ := ih (sid + 1) (by omega) (by omega) hfits
          exact ⟨j, by omega, hlt, hempty, heq⟩

end SpikeSim.Oram
