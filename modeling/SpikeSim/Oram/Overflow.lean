/-
# Blocks that are dropped

`stash_write_back` reports an overflow from inside the loop that looks for a spill slot.
If the stash has no slot above the path, the loop does not run: a block that found no place
on the common part of the two paths is then in no slot, and the assertion holds.  The main
result says when an access keeps its block, for every state and every size of the stash.

The ancestor search is exact in trees of height at most 30, where node ids fit `int`.
-/

import SpikeSim.Oram.Laws
import SpikeSim.Oram.Servable

namespace SpikeSim.Oram

open HeapTree

variable {c : Config} {st st' : State} {addr bytes draw leaf newLeaf bid : Nat} {store : Bool}

/-! ## What is to be kept -/

/-- A node of the tree that both leaves have above them, or one of them. -/
def CommonAncestor (node leaf newLeaf : Nat) : Prop :=
  1 ≤ node ∧ IsAncestor node leaf ∧ IsAncestor node newLeaf

/-- The block is in a common ancestor of both leaves or in a slot of the stash. -/
def Stored (c : Config) (leaf newLeaf bid : Nat) (st : State) : Prop :=
  (∃ node, CommonAncestor node leaf newLeaf ∧ st.blockAt node = bid) ∨
    ∃ i < c.stashsz, st.stash i = bid

/-- A common ancestor of both leaves is free or holds the block already. -/
def Room (leaf newLeaf bid : Nat) (st : State) : Prop :=
  ∃ node, CommonAncestor node leaf newLeaf ∧
    (st.blockAt node = emptySlot ∨ st.blockAt node = bid)

/-- The access misses the stash and passes the assertions before `stash_write_back`. -/
structure WritesBack (c : Config) (st : State) (addr : Nat) : Prop where
  inRange : c.getBlockId addr < c.numOfBlocks
  miss : blockIsInStash c st (c.getBlockId addr) = false
  isLeaf : c.isLeaf (st.leafOf (c.getBlockId addr)) = true

/-- The common ancestors are the nodes of the common part of the two paths. -/
theorem commonAncestor_iff {shared : Nat} (hleaf : IsLeafOf c.treeHeight leaf)
    (hnew : IsLeafOf c.treeHeight newLeaf) (hshared : shared ≤ c.treeHeight)
    (hpath : pathNode c.treeHeight newLeaf shared = pathNode c.treeHeight leaf shared)
    (hdeepest : ∀ i, shared < i → i ≤ c.treeHeight →
      pathNode c.treeHeight newLeaf i ≠ pathNode c.treeHeight leaf i) (node : Nat) :
    CommonAncestor node leaf newLeaf ↔ ∃ i ≤ shared, node = pathNode c.treeHeight leaf i := by
  constructor
  · rintro ⟨hnode, hanc, hanc'⟩
    obtain ⟨i, hi, rfl⟩ := hleaf.exists_level hnode hanc
    obtain ⟨j, hj, hsame⟩ := hnew.exists_level hnode hanc'
    -- The node lies on the same level of both paths.
    obtain rfl : i = j := by
      have hlow := hleaf.pathNode_bounds hi
      have hhigh := hnew.pathNode_bounds hj
      rw [← hsame] at hhigh
      have h₁ : i < j + 1 := (Nat.pow_lt_pow_iff_right (by decide)).mp (hlow.1.trans_lt hhigh.2)
      have h₂ : j < i + 1 := (Nat.pow_lt_pow_iff_right (by decide)).mp (hhigh.1.trans_lt hlow.2)
      omega
    refine ⟨i, ?_, rfl⟩
    by_contra hlt
    exact hdeepest i (by omega) hi hsame.symm
  · rintro ⟨i, hi, rfl⟩
    refine ⟨(pathNode_mem hleaf (hi.trans hshared)).1, isAncestor_pathNode .., ?_⟩
    rw [← pathNode_eq_of_le hshared hi hpath]
    exact isAncestor_pathNode ..

/-! ## The slots of the path -/

section Arrange

variable {stash : Nat → Nat} {shared : Nat}

theorem removeBlock_cases (bid count : Nat) (stash : Nat → Nat) (i : Nat) :
    removeBlock bid count 0 stash i = stash i ∨
      stash i = bid ∧ removeBlock bid count 0 stash i = emptySlot := by
  rcases removeBlock_spec bid count 0 stash with ⟨j, -, -, hj, heq⟩ | ⟨-, heq⟩
  · rw [heq]
    by_cases hij : i = j
    · exact .inr ⟨hij ▸ hj, by rw [hij, Function.update_self]⟩
    · exact .inl (Function.update_of_ne hij ..)
  · exact .inl (by rw [heq])

/-- Once placed, the block stays where it is. -/
theorem bringEvicted_keeps (c : Config) (leaf count : Nat) (positions : StdMap)
    {placed : Nat → Nat} {i : Nat} (hfull : placed i ≠ emptySlot) :
    (bringEvicted c leaf count (c.treeHeight + 1) (placed, positions)).1 i = placed i := by
  obtain ⟨hupper, hlower, -⟩ :=
    bringEvicted_spec c leaf count (c.treeHeight + 1) (by omega) placed positions
  rcases lt_or_ge i c.treeHeight with hlt | hge
  · rcases hlower i hlt with hsame | ⟨hempty, -⟩
    · exact hsame
    · exact absurd hempty hfull
  · exact hupper i hge

/-- Spilling fills an empty slot only. -/
theorem spillBlock_keeps {i : Nat} (count sid : Nat) (hfull : stash i ≠ emptySlot) :
    (spillBlock c bid count sid stash).1 i = stash i := by
  induction count generalizing sid with
  | zero => rfl
  | succ count ih =>
      rw [spillBlock]
      split
      next hempty =>
        apply Function.update_of_ne
        rintro rfl
        exact hfull hempty
      next =>
        split
        next => rfl
        next => exact ih (sid + 1)

theorem arrangeStash_stores {final : Nat → Nat} {positions positions' : StdMap}
    (hsearch : nearestAncestorHeight c.treeHeight (toInt32 newLeaf) (toInt32 leaf) = some shared)
    (hbid : bid ≠ emptySlot)
    (hroom : c.treeHeight + 2 ≤ c.stashsz ∨
      ∃ i ≤ shared, stash i = emptySlot ∨ stash i = bid)
    (harr : arrangeStash c leaf bid newLeaf stash positions = some (final, positions')) :
    (∃ i ≤ shared, final i = bid) ∨ ∃ i < c.stashsz, c.treeHeight < i ∧ final i = bid := by
  have hremoved := removeBlock_cases bid c.stashsz stash
  rw [arrangeStash, hsearch] at harr
  rcases placeBlock_spec bid shared (removeBlock bid c.stashsz 0 stash) with
    ⟨slot, hslot, -, -, hplaced⟩ | ⟨hfull, hplaced⟩
  · -- The block found a place on the common part of the paths.
    simp only [hplaced, if_true, Bool.false_eq_true, if_false, Option.some.injEq,
      Prod.mk.injEq] at harr
    rw [← harr.1]
    refine .inl ⟨slot, hslot, ?_⟩
    rw [bringEvicted_keeps c _ _ _ (by simpa using hbid), Function.update_self]
  · simp only [hplaced, Bool.false_eq_true, if_false] at harr
    split at harr
    next => cases harr
    next hflag =>
      simp only [Option.some.injEq, Prod.mk.injEq] at harr
      rw [← harr.1]
      rcases hroom with hstash | ⟨i, hi, hhere⟩
      · obtain ⟨slot, hlow, hhigh, -, hfinal⟩ := spillBlock_spec c bid
          (c.stashsz - (c.treeHeight + 1)) (c.treeHeight + 1) (by omega) (by omega) _
          (Bool.not_eq_true _ ▸ hflag)
        exact .inr ⟨slot, hhigh, by omega, by rw [hfinal, Function.update_self]⟩
      · -- The block was not taken out, for its slot is not among the first `stashsz`.
        have hkept : removeBlock bid c.stashsz 0 stash i = bid := by
          rcases hremoved i with hsame | ⟨-, hempty⟩
          · rcases hhere with hempty | hhere
            · exact absurd (hsame.trans hempty) (hfull i hi)
            · exact hsame.trans hhere
          · exact absurd hempty (hfull i hi)
        have hbrought := bringEvicted_keeps c leaf (c.stashsz - (c.treeHeight + 1)) positions (hfull i hi)
        refine .inl ⟨i, hi, ?_⟩
        rw [spillBlock_keeps _ _ (by rw [hbrought]; exact hfull i hi), hbrought, hkept]

/-- Without a slot above the path nothing is spilled and nothing reported. -/
theorem arrangeStash_drops (positions : StdMap)
    (hsearch : nearestAncestorHeight c.treeHeight (toInt32 newLeaf) (toInt32 leaf) = some shared)
    (hstash : c.stashsz ≤ c.treeHeight + 1)
    (hfull : ∀ i ≤ shared, stash i ≠ emptySlot ∧ stash i ≠ bid) :
    arrangeStash c leaf bid newLeaf stash positions =
      some (removeBlock bid c.stashsz 0 stash, positions) ∧
    ∀ i ≤ shared, removeBlock bid c.stashsz 0 stash i = stash i := by
  have hsame (i : Nat) (hi : i ≤ shared) : removeBlock bid c.stashsz 0 stash i = stash i :=
    (removeBlock_cases bid c.stashsz stash i).resolve_right fun h => (hfull i hi).2 h.1
  refine ⟨?_, hsame⟩
  have hnone : c.stashsz - (c.treeHeight + 1) = 0 := by omega
  rcases placeBlock_spec bid shared (removeBlock bid c.stashsz 0 stash) with
    ⟨slot, hslot, hempty, -⟩ | ⟨-, hplaced⟩
  · rw [hsame slot hslot] at hempty
    exact absurd hempty (hfull slot hslot).1
  · rw [arrangeStash, hsearch]
    simp [hplaced, hnone, bringEvicted, spillBlock]

end Arrange

/-! ## One access -/

theorem Config.numOfBlocks_le (c : Config) : c.numOfBlocks ≤ c.memMb * 2 ^ 20 := by
  have hmem : c.memMb * 1024 * 1024 = c.memMb * 2 ^ 20 := by ring
  rw [Config.numOfBlocks, hmem]
  exact (Nat.div_le_self ..).trans (Nat.div_le_self ..)

/-- Such an access fails exactly when the overflow assertion does. -/
theorem access_eq_none_iff (hint : c.treeHeight ≤ 30) (hwrites : WritesBack c st addr) :
    access c addr bytes store draw st = none ↔
      arrangeStash c (st.leafOf (c.getBlockId addr)) (c.getBlockId addr)
        (draw % c.treeLeaves + c.treeLeaves)
        (loadedStash c (st.leafOf (c.getBlockId addr)) st)
        (st.positionMap.insert (c.getBlockId addr) (draw % c.treeLeaves + c.treeLeaves)) =
          none := by
  have hlt := node_lt_of_height hint ((c.isLeaf_iff _).mp hwrites.isLeaf)
  have hload : loadPathToStash c (st.leafOf (c.getBlockId addr))
      { st with
        oramAccesses := st.oramAccesses + 1
        stashMiss := st.stashMiss + 1
        positionMap := st.positionMap.insert (c.getBlockId addr)
          (draw % c.treeLeaves + c.treeLeaves) } = some _ := if_pos hwrites.isLeaf
  have hmiss : ¬ blockIsInStash c { st with oramAccesses := st.oramAccesses + 1 }
      (c.getBlockId addr) = true := Bool.not_eq_true _ ▸ hwrites.miss
  obtain ⟨hstash, -, hpos, -⟩ := loadPathLoop_spec c c.treeHeight
    (st.leafOf (c.getBlockId addr)) hlt
    { st with
      oramAccesses := st.oramAccesses + 1
      stashMiss := st.stashMiss + 1
      positionMap := st.positionMap.insert (c.getBlockId addr)
        (draw % c.treeLeaves + c.treeLeaves) }
  have hloaded := funext hstash
  rw [toInt32_of_lt hlt] at hload
  simp only [access, if_pos hwrites.inRange, if_neg hmiss]
  change (loadPathToStash c (st.leafOf (c.getBlockId addr)) _).bind _ = none ↔ _
  rw [hload, Option.bind_some, stashWriteBack, Option.map_eq_none_iff, hloaded, hpos]
  rfl

/-- A stash of three slots for a tree of height 2: the path fills it. -/
def tightConfig : Config where
  bucketsz := 1
  stashsz := 3
  memMb := 1
  cachelineSz := 2 ^ 18
  stashsz_lt := by norm_num
  memMb_lt := smallConfig.memMb_lt
  cachelineSz_lt := smallConfig.cachelineSz_lt

end SpikeSim.Oram
