/-
# What a write-back does to the stash

The stash part of `stash_write_back` chains four loops over one array.
`Relocated` says once what they do together: where the requested block leaves,
where it goes, and what else may change.  The invariants are read off this
structure and never look at the loops.

Node ids pass through `int` in the ancestor search, so the results are about
trees whose node ids stay below `2 ^ 31`, that is, of height at most 30.
-/

import SpikeSim.Oram.Loops

namespace SpikeSim.Oram

open HeapTree

variable (c : Config)

/-! ## Leaves and heights -/

theorem Config.isLeaf_iff (leaf : Nat) : c.isLeaf leaf = true ↔ IsLeafOf c.treeHeight leaf := by
  have hpos : 0 < 2 ^ (c.treeHeight + 1) := by positivity
  rw [Config.isLeaf, Bool.and_eq_true, decide_eq_true_eq, decide_eq_true_eq]
  simp only [Config.treeLeaves, Config.treeNodes, IsLeafOf]
  omega

theorem Config.treeLeaves_le_numOfBlocks (hblocks : 1 ≤ c.numOfBlocks) :
    c.treeLeaves ≤ c.numOfBlocks :=
  Nat.log2_self_le (by omega)

/-- The leaf that a random draw selects. -/
theorem Config.isLeafOf_draw (draw : Nat) :
    IsLeafOf c.treeHeight (draw % c.treeLeaves + c.treeLeaves) := by
  have hlt : draw % c.treeLeaves < c.treeLeaves := Nat.mod_lt _ (by simp [Config.treeLeaves])
  simp only [Config.treeLeaves] at hlt ⊢
  constructor
  · omega
  · rw [pow_succ]; omega

/-- In a tree of height at most 30 every node id fits `int`. -/
theorem node_lt_of_height {height leaf : Nat} (hint : height ≤ 30)
    (hleaf : IsLeafOf height leaf) : leaf < 2 ^ 31 :=
  hleaf.2.trans_le (Nat.pow_le_pow_right (by norm_num) (by omega))

theorem Config.treeLeaves_lt_emptySlot (hint : c.treeHeight ≤ 30) :
    c.treeLeaves < emptySlot := by
  have : c.treeLeaves ≤ 2 ^ 30 := Nat.pow_le_pow_right (by norm_num) hint
  have : (2 : Nat) ^ 30 < emptySlot := by decide
  omega

/-! ## What a write-back does to the stash -/

/-- The stash part of a write-back, step by step: the requested block leaves
slot `taken` and goes to slot `slot`, which is the deepest empty one up to the
level `shared` that both leaves have in common, or a spill slot when there is
none.  Any other change fills an empty slot below `tree_height` with a spilled
block of the same leaf. -/
structure Relocated (leaf bid newLeaf : Nat) (stash : Nat → Nat) (positions : StdMap)
    (final : Nat → Nat) (taken shared slot : Nat) : Prop where
  taken_le : taken ≤ c.treeHeight
  holds : stash taken = bid
  shared_le : shared ≤ c.treeHeight
  /-- `shared` is the deepest level that the paths to both leaves have in common. -/
  sharedPath : pathNode c.treeHeight newLeaf shared = pathNode c.treeHeight leaf shared
  sharedDeepest : ∀ i, shared < i → i ≤ c.treeHeight →
    pathNode c.treeHeight newLeaf i ≠ pathNode c.treeHeight leaf i
  slot_free : Function.update stash taken emptySlot slot = emptySlot
  slot_home : final slot = bid
  slot_place :
    (slot ≤ shared ∧ ∀ i, slot < i → i ≤ shared →
      Function.update stash taken emptySlot i ≠ emptySlot) ∨
    (c.treeHeight < slot ∧ slot < c.stashsz ∧ ∀ i ≤ shared,
      Function.update stash taken emptySlot i ≠ emptySlot)
  source : ∀ i, i ≠ slot → final i = Function.update stash taken emptySlot i ∨
    Function.update stash taken emptySlot i = emptySlot ∧ i < c.treeHeight ∧
      ∃ s, c.treeHeight < s ∧ s < c.stashsz ∧ final i = stash s ∧
        positions.read (stash s) = leaf
  /-- If there is such a block and such a slot, one is filled. -/
  brings : positions.read emptySlot ≠ leaf →
    (∃ s, c.treeHeight < s ∧ s < c.stashsz ∧ positions.read (stash s) = leaf) →
    (∃ i < c.treeHeight, i ≠ slot ∧ Function.update stash taken emptySlot i = emptySlot) →
    ∃ i < c.treeHeight, ∃ s, c.treeHeight < s ∧ s < c.stashsz ∧ stash s ≠ emptySlot ∧
      final i = stash s

section Arrange

variable {c} {leaf bid newLeaf : Nat} {stash final : Nat → Nat} {positions positions' : StdMap}

/-- The spilled blocks are read from slots that the earlier loops leave alone. -/
theorem bringEvicted_source (leaf : Nat) (positions : StdMap)
    (hstash : c.treeHeight + 2 ≤ c.stashsz) {placed : Nat → Nat}
    (hupper : ∀ i, c.treeHeight < i → placed i = stash i) (i : Nat) :
    (bringEvicted c leaf (c.stashsz - (c.treeHeight + 1)) (c.treeHeight + 1)
      (placed, positions)).1 i = placed i ∨
    placed i = emptySlot ∧ i < c.treeHeight ∧ ∃ s, c.treeHeight < s ∧ s < c.stashsz ∧
      (bringEvicted c leaf (c.stashsz - (c.treeHeight + 1)) (c.treeHeight + 1)
        (placed, positions)).1 i = stash s ∧ positions.read (stash s) = leaf := by
  obtain ⟨habove, hbelow, _⟩ := bringEvicted_spec c leaf (c.stashsz - (c.treeHeight + 1))
    (c.treeHeight + 1) (by omega) placed positions
  by_cases hi : c.treeHeight ≤ i
  · exact .inl (habove i hi)
  · rcases hbelow i (by omega) with hsame | ⟨hempty, s, hlow, hhigh, hval, hpos⟩
    · exact .inl hsame
    · rw [hupper s (by omega)] at hval hpos
      exact .inr ⟨hempty, by omega, s, by omega, by omega, hval, hpos⟩

/-- The copying happens under the same conditions on the stash before the block
was moved. -/
theorem bringEvicted_brings_of_upper (leaf : Nat) (positions : StdMap) {placed : Nat → Nat}
    (hupper : ∀ i, c.treeHeight < i → placed i = stash i)
    (hempty : positions.read emptySlot ≠ leaf)
    (hspill : ∃ s, c.treeHeight < s ∧ s < c.stashsz ∧ positions.read (stash s) = leaf)
    (hfree : ∃ i < c.treeHeight, placed i = emptySlot) :
    ∃ i < c.treeHeight, ∃ s, c.treeHeight < s ∧ s < c.stashsz ∧ stash s ≠ emptySlot ∧
      (bringEvicted c leaf (c.stashsz - (c.treeHeight + 1)) (c.treeHeight + 1)
        (placed, positions)).1 i = stash s := by
  obtain ⟨s, hlow, hhigh, hs⟩ := hspill
  obtain ⟨i, hi, t, htlow, hthigh, hfull, heq⟩ := bringEvicted_brings c leaf
    (c.stashsz - (c.treeHeight + 1)) (c.treeHeight + 1) (by omega) placed positions hempty
    ⟨s, by omega, by omega, by rw [hupper s hlow, hs]⟩ hfree
  rw [hupper t (by omega)] at hfull heq
  exact ⟨i, hi, t, by omega, by omega, hfull, heq⟩

/-- The write-back only reads the position map. -/
theorem arrangeStash_positions
    (harr : arrangeStash c leaf bid newLeaf stash positions = some (final, positions'))
    (k : Nat) : positions'.read k = positions.read k := by
  unfold arrangeStash at harr
  split at harr
  · cases harr
  · simp only [Option.ite_none_left_eq_some, Option.some.injEq, Prod.mk.injEq] at harr
    rw [← harr.2.2]
    exact (bringEvicted_spec c leaf _ _ (by omega) _ positions).2.2 k

/-- The write-back relocates the block, when it sits once in the stash, on the
path. -/
theorem relocated_of_arrangeStash (hint : c.treeHeight ≤ 30)
    (hstash : c.treeHeight + 2 ≤ c.stashsz)
    (hleaf : IsLeafOf c.treeHeight leaf) (hnew : IsLeafOf c.treeHeight newLeaf)
    (hbid : bid ≠ emptySlot) (honPath : ∃ i ≤ c.treeHeight, stash i = bid)
    (honce : ∀ i < c.stashsz, ∀ j < c.stashsz, stash i = bid → stash j = bid → i = j)
    (harr : arrangeStash c leaf bid newLeaf stash positions = some (final, positions')) :
    ∃ taken shared slot,
      Relocated c leaf bid newLeaf stash positions final taken shared slot := by
  obtain ⟨level, hlevel, hhere⟩ := honPath
  obtain ⟨shared, hshared, hsearch, hpath, hdeepest⟩ :=
    nearestAncestorHeight_spec c.treeHeight newLeaf leaf hnew hleaf
  rw [arrangeStash, toInt32_of_lt (node_lt_of_height hint hnew),
    toInt32_of_lt (node_lt_of_height hint hleaf), hsearch] at harr
  -- The block is in the stash, so the removal loop clears its slot.
  obtain ⟨taken, htaken, hhold, hremoved⟩ : ∃ taken ≤ c.treeHeight, stash taken = bid ∧
      removeBlock bid c.stashsz 0 stash = Function.update stash taken emptySlot := by
    rcases removeBlock_spec bid c.stashsz 0 stash with ⟨j, _, hlt, hj, heq⟩ | ⟨hnone, _⟩
    · have := honce j (by omega) level (by omega) hj hhere
      exact ⟨j, by omega, hj, heq⟩
    · exact absurd hhere (hnone level (by omega) (by omega))
  simp only [hremoved] at harr
  have hupper : ∀ i, c.treeHeight < i → Function.update stash taken emptySlot i = stash i :=
    fun i hi => Function.update_of_ne (by omega) _ _
  rcases placeBlock_spec bid shared (Function.update stash taken emptySlot) with
    ⟨slot, hslot, hempty, habove, hplaced⟩ | ⟨hfull, hplaced⟩
  · simp only [hplaced, if_true, Bool.false_eq_true, if_false, Option.some.injEq,
      Prod.mk.injEq] at harr
    obtain ⟨rfl, rfl⟩ := harr
    have hplacedUp : ∀ i, c.treeHeight < i →
        Function.update (Function.update stash taken emptySlot) slot bid i = stash i := by
      intro i hi
      rw [Function.update_of_ne (by omega), hupper i hi]
    have hsource := bringEvicted_source leaf positions hstash hplacedUp
    refine ⟨taken, shared, slot, htaken, hhold, hshared, hpath, hdeepest, hempty, ?_,
      .inl ⟨hslot, habove⟩, fun i hi => ?_, fun hzero hspill ⟨i, hi, hne, hfree⟩ => ?_⟩
    · rcases hsource slot with hsame | ⟨hfree, _⟩
      · rw [hsame, Function.update_self]
      · rw [Function.update_self] at hfree
        exact absurd hfree hbid
    · have := hsource i
      rwa [Function.update_of_ne hi] at this
    · exact bringEvicted_brings_of_upper leaf positions hplacedUp hzero hspill
        ⟨i, hi, by rwa [Function.update_of_ne hne]⟩
  · simp only [hplaced, Bool.false_eq_true, if_false] at harr
    split at harr
    · cases harr
    · rename_i hflag
      simp only [Option.some.injEq, Prod.mk.injEq] at harr
      obtain ⟨rfl, rfl⟩ := harr
      obtain ⟨slot, hlow, hhigh, hempty, hfinal⟩ := spillBlock_spec c bid
        (c.stashsz - (c.treeHeight + 1)) (c.treeHeight + 1) (by omega) (by omega) _
        (Bool.not_eq_true _ ▸ hflag)
      have hsource := bringEvicted_source leaf positions hstash hupper
      have hslotFree : Function.update stash taken emptySlot slot = emptySlot := by
        rcases hsource slot with hsame | ⟨hfree, _⟩
        · rw [← hsame, hempty]
        · exact hfree
      refine ⟨taken, shared, slot, htaken, hhold, hshared, hpath, hdeepest,
        hslotFree, by rw [hfinal, Function.update_self], .inr ⟨by omega, hhigh, hfull⟩,
        fun i hi => ?_, fun hzero hspill ⟨i, hi, _, hfree⟩ => ?_⟩
      · rw [hfinal, Function.update_of_ne hi]
        exact hsource i
      · obtain ⟨j, hj, s, hs, hs', hne, heq⟩ := bringEvicted_brings_of_upper leaf positions hupper
          hzero hspill ⟨i, hi, hfree⟩
        exact ⟨j, hj, s, hs, hs', hne, by rw [hfinal, Function.update_of_ne (by omega), heq]⟩

end Arrange

namespace Relocated

variable {c} {leaf bid newLeaf : Nat} {stash final : Nat → Nat} {positions : StdMap}
  {taken shared slot : Nat}

theorem slot_lt (hrel : Relocated c leaf bid newLeaf stash positions final taken shared slot)
    (hstash : c.treeHeight + 2 ≤ c.stashsz) : slot < c.stashsz := by
  have := hrel.shared_le
  rcases hrel.slot_place with ⟨hle, _⟩ | ⟨_, hlt, _⟩ <;> omega

theorem removed_of_ne
    (hrel : Relocated c leaf bid newLeaf stash positions final taken shared slot) {i : Nat}
    (hi : stash i ≠ bid) : Function.update stash taken emptySlot i = stash i := by
  refine Function.update_of_ne ?_ _ _
  rintro rfl
  exact hi hrel.holds

/-- No block but the requested one moves. -/
theorem kept (hrel : Relocated c leaf bid newLeaf stash positions final taken shared slot)
    {i : Nat} (hfull : stash i ≠ emptySlot) (hne : stash i ≠ bid) : final i = stash i := by
  have hkeep := hrel.removed_of_ne hne
  have hslot : i ≠ slot := by
    rintro rfl
    exact hfull (hkeep ▸ hrel.slot_free)
  rcases hrel.source i hslot with hsame | ⟨hfree, _⟩
  · rw [hsame, hkeep]
  · exact absurd (hkeep ▸ hfree) hfull

/-- The slots above the path only ever gain the requested block. -/
theorem upper (hrel : Relocated c leaf bid newLeaf stash positions final taken shared slot)
    {i : Nat} (hi : c.treeHeight < i) :
    final i = stash i ∨ i = slot ∧ stash i = emptySlot := by
  have hkeep : Function.update stash taken emptySlot i = stash i := by
    have := hrel.taken_le
    exact Function.update_of_ne (by omega) _ _
  by_cases hslot : i = slot
  · exact .inr ⟨hslot, by rw [← hkeep, hslot, hrel.slot_free]⟩
  · rcases hrel.source i hslot with hsame | ⟨_, hlow, _⟩
    · exact .inl (by rw [hsame, hkeep])
    · omega

section Once

variable (hrel : Relocated c leaf bid newLeaf stash positions final taken shared slot)
  (hstash : c.treeHeight + 2 ≤ c.stashsz) (hbid : bid ≠ emptySlot)
  (honce : ∀ i < c.stashsz, ∀ j < c.stashsz, stash i = bid → stash j = bid → i = j)

include hrel hstash honce

/-- Outside its new slot, the content of a slot was there before, is empty, or
is a spilled block of the same leaf. -/
theorem content {i : Nat} (hi : i < c.stashsz) (hslot : i ≠ slot) :
    final i = stash i ∧ stash i ≠ bid ∨ final i = emptySlot ∨
      Function.update stash taken emptySlot i = emptySlot ∧ i < c.treeHeight ∧
        ∃ s, c.treeHeight < s ∧ s < c.stashsz ∧ final i = stash s ∧
          positions.read (stash s) = leaf := by
  have htaken := hrel.taken_le
  rcases hrel.source i hslot with hsame | hspill
  · by_cases ht : i = taken
    · exact .inr (.inl (by rw [hsame, ht, Function.update_self]))
    · have hne : stash i ≠ bid := fun h =>
        ht (honce i hi taken (by omega) h hrel.holds)
      exact .inl ⟨by rw [hsame, hrel.removed_of_ne hne], hne⟩
  · exact .inr (.inr hspill)

include hbid

/-- The block ends in exactly one slot. -/
theorem eq_slot {i : Nat} (hi : i < c.stashsz) (hhere : final i = bid) : i = slot := by
  have htaken := hrel.taken_le
  by_contra hslot
  rcases hrel.content hstash honce hi hslot with ⟨hsame, hne⟩ | hempty |
    ⟨_, _, s, hs, hs', hval, _⟩
  · exact hne (hsame ▸ hhere)
  · exact hbid (hhere ▸ hempty)
  · have := honce s hs' taken (by omega) (hval ▸ hhere) hrel.holds
    omega

/-- On the path it stays at or above the last common node of both leaves. -/
theorem sharedPath_of_slot {i : Nat} (hi : i ≤ c.treeHeight) (hhere : final i = bid) :
    pathNode c.treeHeight newLeaf i = pathNode c.treeHeight leaf i := by
  obtain rfl := hrel.eq_slot hstash hbid honce (by omega) hhere
  rcases hrel.slot_place with ⟨hle, _⟩ | ⟨hgt, _⟩
  · exact pathNode_eq_of_le hrel.shared_le hle hrel.sharedPath
  · omega

end Once

end Relocated

end SpikeSim.Oram
