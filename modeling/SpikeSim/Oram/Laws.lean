/-
# The laws of Path-ORAM, for every run

Two laws are stated over the reachable states of the controller.  The placement
law says that a block is on the path to its leaf or in the stash, so that a
stash miss always finds it.  The single-copy law says that a block is stored in
one place.

The placement law needs node ids that fit `int`.  The single-copy law fails as
soon as a write-back brings a spilled block back, because the slot the block
came from keeps its copy; `BringsBack` is the exact condition for that.
-/

import SpikeSim.Oram.Placement

namespace SpikeSim.Oram

open HeapTree

variable (c : Config)

/-! ## The placement law -/

/-- Every block can be found through its leaf. -/
structure PlacementLaw (st : State) : Prop where
  /-- The slots of the path are empty. -/
  pathSlots : ∀ i ≤ c.treeHeight, st.stash i = emptySlot
  /-- A non-empty node lies above the leaf of its block. -/
  ancestor : ∀ n, 1 ≤ n → n ≤ c.treeNodes → st.blockAt n ≠ emptySlot →
    IsAncestor n (st.leafOf (st.blockAt n))
  /-- Every block is in a slot above the path or in a node. -/
  covered : ∀ b < c.treeLeaves,
    (∃ i, c.treeHeight < i ∧ i < c.stashsz ∧ st.stash i = b) ∨
      ∃ n, 1 ≤ n ∧ n ≤ c.treeNodes ∧ st.blockAt n = b
  /-- Loading the path of a block that is not in the stash brings it there. -/
  loads : ∀ b < c.treeLeaves, blockIsInStash c st b = false →
    ∃ st', loadPathToStash c (st.leafOf b) st = some st' ∧ blockIsInStash c st' b = true

variable {c} {st : State}

theorem Placed.placementLaw (hplaced : Placed c st) (hint : c.treeHeight ≤ 30)
    (hstash : c.treeHeight + 2 ≤ c.stashsz) : PlacementLaw c st := by
  refine ⟨hplaced.lowerEmpty, fun n hn hn' hfull => (hplaced.node n hn hn' hfull).2,
    hplaced.covered, fun b hb hmiss => ?_⟩
  have hout : ∀ i < c.stashsz, st.stash i ≠ b := fun i hi hhold => by
    rw [(blockIsInStash_iff b).mpr ⟨i, hi, hhold⟩] at hmiss
    cases hmiss
  have hleaf := hplaced.leaf b hb
  have hlt := node_lt_of_height hint hleaf
  obtain ⟨i, hi, hhere⟩ := hplaced.exists_level hb hout
  refine ⟨loadPathLoop c c.treeHeight (st.leafOf b) st, ?_, ?_⟩
  · rw [loadPathToStash, if_pos ((c.isLeaf_iff _).mpr hleaf), toInt32_of_lt hlt]
  · obtain ⟨hslots, _⟩ := loadPathLoop_spec c c.treeHeight (st.leafOf b) hlt st
    exact (blockIsInStash_iff b).mpr ⟨i, by omega, by rw [hslots i, if_pos hi]; exact hhere⟩

/-- **Placement.** In a tree of height at most 30, whatever blocks are accessed
and whatever leaves are drawn, the placement law holds after every access. -/
theorem reachable_placementLaw (hstash : c.treeHeight + 2 ≤ c.stashsz)
    (hint : c.treeHeight ≤ 30) (hreach : Reachable c (fun _ _ _ => True) st) :
    PlacementLaw c st :=
  (hreach.placed hint hstash).placementLaw hint hstash

/-- Four blocks, three levels and two spill slots. -/
def smallConfig : Config where
  bucketsz := 1
  stashsz := 5
  memMb := 1
  cachelineSz := 2 ^ 18
  stashsz_lt := by norm_num
  memMb_lt := by norm_num
  cachelineSz_lt := by norm_num

/-- The law after the first access to block 3, which moves it to leaf 5. -/
theorem placementLaw_after_one_access :
    ∃ st, access smallConfig (0x80000000 + 3 * 2 ^ 18) 64 false 1 (init smallConfig fun _ => 0) =
      some st ∧ PlacementLaw smallConfig st := by
  obtain ⟨st, hst⟩ := Option.isSome_iff_exists.mp (show (access smallConfig
    (0x80000000 + 3 * 2 ^ 18) 64 false 1 (init smallConfig fun _ => 0)).isSome by decide +kernel)
  exact ⟨st, hst, reachable_placementLaw (by decide +kernel) (by decide +kernel)
    (.access _ _ _ _ (.init _) (by decide +kernel) trivial hst)⟩

/-- A tree of height 31: 2 GiB of memory in one-byte lines. -/
def tallConfig : Config where
  bucketsz := 1
  stashsz := 40
  memMb := 2048
  cachelineSz := 1
  stashsz_lt := by norm_num
  memMb_lt := by norm_num
  cachelineSz_lt := by norm_num

/-- In a tree of height 31 the leaf ids do not fit `int`.  The first access to
block 1 loads nodes that do not exist, which read as block 0, and writes block 0
over the path: leaf `2 ^ 31 + 1` then holds a block that is mapped to `2 ^ 31`. -/
theorem placementLaw_fails_on_tall_tree :
    1 ≤ tallConfig.numOfBlocks ∧ tallConfig.treeHeight + 2 ≤ tallConfig.stashsz ∧
      ∃ st, Reachable tallConfig (fun _ _ _ => True) st ∧ ¬ PlacementLaw tallConfig st := by
  refine ⟨by decide +kernel, by decide +kernel, ?_⟩
  obtain ⟨st, hst, hval⟩ := Option.map_eq_some_iff.mp (show
    (access tallConfig 0x80000001 8 false 1 (init tallConfig fun _ => 0)).map
      (fun st => (st.blockAt (2 ^ 31 + 1), st.leafOf 0)) = some (0, 2 ^ 31) by decide +kernel)
  rw [Prod.mk.injEq] at hval
  refine ⟨st, .access _ _ _ _ (.init _) (by decide +kernel) trivial hst, fun hlaw => ?_⟩
  obtain ⟨k, hk⟩ := hlaw.ancestor (2 ^ 31 + 1) (by norm_num) (by decide +kernel)
    (by rw [hval.1]; decide)
  rw [hval.1, hval.2] at hk
  have := Nat.div_le_self (2 ^ 31) (2 ^ k)
  omega

/-! ## The single-copy law -/

variable (c)

/-- How often a block occurs in the nodes and in the slots. -/
def copies (st : State) (b : Nat) : Nat :=
  ((Finset.Icc 1 c.treeNodes).filter fun n => st.blockAt n = b).card +
    ((Finset.range c.stashsz).filter fun i => st.stash i = b).card

/-- Every block is stored exactly once. -/
def SingleCopy (st : State) : Prop :=
  ∀ b < c.treeLeaves, copies c st b = 1

/-- The node on level `i` of the path to the leaf of `bid` is empty, or becomes
so when `bid` is taken out. -/
def IsFree (st : State) (bid i : Nat) : Prop :=
  st.blockAt (pathNode c.treeHeight (st.leafOf bid) i) = emptySlot ∨
    st.blockAt (pathNode c.treeHeight (st.leafOf bid) i) = bid

/-- Level `i` is where `bid` goes: free, above both its old and its new leaf,
and the deepest such level. -/
def IsTarget (st : State) (bid newLeaf i : Nat) : Prop :=
  IsFree c st bid i ∧
    pathNode c.treeHeight newLeaf i = pathNode c.treeHeight (st.leafOf bid) i ∧
    ∀ j, i < j → j ≤ c.treeHeight →
      pathNode c.treeHeight newLeaf j = pathNode c.treeHeight (st.leafOf bid) j →
        ¬ IsFree c st bid j

/-- The access misses the stash, a spilled block is mapped to the leaf of the
requested block, and the path keeps a free level above that leaf. -/
def BringsBack (st : State) (bid newLeaf : Nat) : Prop :=
  blockIsInStash c st bid = false ∧
  (∃ s, c.treeHeight < s ∧ s < c.stashsz ∧ st.leafOf (st.stash s) = st.leafOf bid) ∧
  ∃ i < c.treeHeight, IsFree c st bid i ∧ ¬ IsTarget c st bid newLeaf i

variable {c}

/-- A block in exactly one place, as the placement invariant sees it. -/
theorem copies_eq_one_iff (b : Nat) :
    copies c st b = 1 ↔
      ((∃ n, (1 ≤ n ∧ n ≤ c.treeNodes) ∧ st.blockAt n = b ∧
        ∀ m, 1 ≤ m → m ≤ c.treeNodes → st.blockAt m = b → m = n) ∧
        ∀ i < c.stashsz, st.stash i ≠ b) ∨
      (∀ n, 1 ≤ n → n ≤ c.treeNodes → st.blockAt n ≠ b) ∧
        ∃ i < c.stashsz, st.stash i = b ∧ ∀ j < c.stashsz, st.stash j = b → j = i := by
  have hsum : copies c st b = 1 ↔
      (((Finset.Icc 1 c.treeNodes).filter fun n => st.blockAt n = b).card = 1 ∧
        ((Finset.range c.stashsz).filter fun i => st.stash i = b).card = 0) ∨
      ((Finset.Icc 1 c.treeNodes).filter fun n => st.blockAt n = b).card = 0 ∧
        ((Finset.range c.stashsz).filter fun i => st.stash i = b).card = 1 := by
    unfold copies
    omega
  rw [hsum, Finset.card_eq_zero, Finset.card_eq_zero, Finset.filter_eq_empty_iff,
    Finset.filter_eq_empty_iff, Finset.card_eq_one, Finset.card_eq_one]
  simp only [Finset.eq_singleton_iff_unique_mem, Finset.mem_filter, Finset.mem_Icc,
    Finset.mem_range, and_imp, and_assoc]

/-- The level that a write-back fills with a spilled block is free and is not
the target of the requested block. -/
theorem Relocated.bringsBack {bid newLeaf : Nat} {final : Nat → Nat} {positions : StdMap}
    {taken shared slot i s : Nat}
    (hrel : Relocated c (st.leafOf bid) bid newLeaf (loadedStash c (st.leafOf bid) st)
      positions final taken shared slot)
    (hmiss : blockIsInStash c st bid = false) (hi : i < c.treeHeight) (hslot : i ≠ slot)
    (hempty : Function.update (loadedStash c (st.leafOf bid) st) taken emptySlot i = emptySlot)
    (hs : c.treeHeight < s) (hs' : s < c.stashsz)
    (hleaf : st.leafOf (st.stash s) = st.leafOf bid) : BringsBack c st bid newLeaf := by
  have htaken := hrel.taken_le
  have hshared := hrel.shared_le
  -- A level is free exactly when its slot is empty after the removal.
  have hfree : ∀ j ≤ c.treeHeight,
      Function.update (loadedStash c (st.leafOf bid) st) taken emptySlot j = emptySlot →
        IsFree c st bid j := by
    intro j hj hzero
    by_cases hjt : j = taken
    · have := hrel.holds
      rw [loadedStash, if_pos htaken] at this
      exact .inr (hjt ▸ this)
    · rw [Function.update_of_ne hjt, loadedStash, if_pos hj] at hzero
      exact .inl hzero
  refine ⟨hmiss, ⟨s, hs, hs', hleaf⟩, i, hi, hfree i (by omega) hempty, ?_⟩
  rintro ⟨_, hcommon, hdeeper⟩
  have hle : i ≤ shared := by
    by_contra hgt
    exact hrel.sharedDeepest i (by omega) (by omega) hcommon
  rcases hrel.slot_place with ⟨hslotLe, habove⟩ | ⟨_, _, hnone⟩
  · rcases Nat.lt_or_gt_of_ne hslot with hlt | hgt
    · exact hdeeper slot hlt (by omega) (pathNode_eq_of_le hshared hslotLe hrel.sharedPath)
        (hfree slot (by omega) hrel.slot_free)
    · exact habove i hgt hle hempty
  · exact hnone i hle hempty

/-- The converse: under the condition, a spilled block is copied to the tree. -/
theorem Relocated.brings_of_bringsBack {bid newLeaf : Nat} {final : Nat → Nat}
    {taken shared slot : Nat} (hplaced : Placed c st) (hb : bid < c.treeLeaves)
    (hrel : Relocated c (st.leafOf bid) bid newLeaf (loadedStash c (st.leafOf bid) st)
      (st.positionMap.insert bid newLeaf) final taken shared slot)
    (hback : BringsBack c st bid newLeaf) :
    ∃ i < c.treeHeight, ∃ s, c.treeHeight < s ∧ s < c.stashsz ∧
      st.stash s ≠ emptySlot ∧ final i = st.stash s := by
  obtain ⟨hmiss, ⟨s, hs, hs', hleaf⟩, i, hi, hfree, hnot⟩ := hback
  have hshared := hrel.shared_le
  have htaken := hrel.taken_le
  have hout : ∀ j < c.stashsz, st.stash j ≠ bid := fun j hj hhold => by
    rw [(blockIsInStash_iff bid).mpr ⟨j, hj, hhold⟩] at hmiss
    cases hmiss
  have hloadedUp : ∀ j, c.treeHeight < j → loadedStash c (st.leafOf bid) st j = st.stash j :=
    fun j hj => if_neg (by omega)
  -- A free level is an empty slot after the removal.
  have hempty : ∀ j ≤ c.treeHeight, IsFree c st bid j →
      Function.update (loadedStash c (st.leafOf bid) st) taken emptySlot j = emptySlot := by
    rintro j hj (hzero | hhold)
    · by_cases hjt : j = taken
      · rw [hjt, Function.update_self]
      · rw [Function.update_of_ne hjt, loadedStash, if_pos hj, hzero]
    · by_cases hjt : j = taken
      · rw [hjt, Function.update_self]
      · have hleaf' := hplaced.leaf bid hb
        have hheld := hrel.holds
        rw [loadedStash, if_pos htaken] at hheld
        obtain ⟨h₁, h₂⟩ := pathNode_mem hleaf' hj
        obtain ⟨h₃, h₄⟩ := pathNode_mem hleaf' htaken
        exact absurd (hleaf'.pathNode_inj hj htaken (hplaced.unique bid hb
          (fun k _ hk => hout k hk) _ _ h₁ h₂ h₃ h₄ hhold hheld)) hjt
  have hne : i ≠ slot := by
    rintro rfl
    rcases hrel.slot_place with ⟨hle, habove⟩ | ⟨hgt, _⟩
    · refine hnot ⟨hfree, pathNode_eq_of_le hshared hle hrel.sharedPath, fun j hj hj' hcom hjf => ?_⟩
      have hjle : j ≤ shared := by
        by_contra hgt
        exact hrel.sharedDeepest j (by omega) hj' hcom
      exact habove j hj hjle (hempty j hj' hjf)
    · omega
  have hread : ∀ b, b ≠ bid → (st.positionMap.insert bid newLeaf).read b = st.leafOf b := by
    intro b hbb
    rw [StdMap.read_insert, if_neg hbb]
    rfl
  have hzero : (st.positionMap.insert bid newLeaf).read emptySlot ≠ st.leafOf bid := by
    rw [hread _ (hplaced.ne_emptySlot hb).symm, hplaced.emptyLeaf]
    have := (hplaced.leaf bid hb).1
    have : 0 < 2 ^ c.treeHeight := by positivity
    omega
  obtain ⟨j, hj, t, ht, ht', hfull, heq⟩ := hrel.brings hzero
    ⟨s, hs, hs', by rw [hloadedUp s hs, hread _ (hout s hs'), hleaf]⟩
    ⟨i, hi, hne, hempty i (by omega) hfree⟩
  rw [hloadedUp t ht] at hfull heq
  exact ⟨j, hj, t, ht, ht', hfull, heq⟩

section Step

variable {addr bytes draw : Nat} {store : Bool} {st' : State}

/-- When no spilled block is brought back, a stash miss moves one block and
leaves every other one in its single place. -/
theorem SingleCopy.miss (hsingle : SingleCopy c st) (hplaced : Placed c st)
    (hint : c.treeHeight ≤ 30) (hstash : c.treeHeight + 2 ≤ c.stashsz)
    (hb : c.getBlockId addr < c.treeLeaves)
    (hmiss : blockIsInStash c st (c.getBlockId addr) = false)
    (hquiet : ¬ BringsBack c st (c.getBlockId addr) (draw % c.treeLeaves + c.treeLeaves))
    (hacc : access c addr bytes store draw st = some st') : SingleCopy c st' := by
  have hplaced' := hplaced.miss hint hstash hb hmiss hacc
  obtain ⟨final, taken, shared, slot, hrel, hrew⟩ :=
    hplaced.miss_cases hint hstash hb hmiss hacc
  generalize draw % c.treeLeaves + c.treeLeaves = newLeaf at *
  generalize c.getBlockId addr = bid at *
  have hout : ∀ i < c.stashsz, st.stash i ≠ bid := fun i hi hhold => by
    rw [(blockIsInStash_iff bid).mpr ⟨i, hi, hhold⟩] at hmiss
    cases hmiss
  have hbid := hplaced.ne_emptySlot hb
  have hleaf := hplaced.leaf bid hb
  have honce := hplaced.loadedStash_once hb hout
  have hslot := hrel.slot_lt hstash
  -- A node holds the requested block at its new place, or what it held before.
  have hnode : ∀ n, 1 ≤ n → n ≤ c.treeNodes → st'.blockAt n ≠ emptySlot →
      (slot ≤ c.treeHeight ∧ n = pathNode c.treeHeight (st.leafOf bid) slot ∧
        st'.blockAt n = bid) ∨ st'.blockAt n = st.blockAt n ∧ st.blockAt n ≠ bid := by
    intro n hn hn' hfull
    rcases hplaced.node_cases hstash hb hout hrel hrew hn hn' hfull with h | h |
      ⟨i, hi, _, hne, hempty, s, hs, hs', _, hpos⟩
    · exact .inl h
    · exact .inr h
    · exact absurd (hrel.bringsBack hmiss hi hne hempty hs hs' hpos) hquiet
  have hupper : ∀ i < c.stashsz, st'.stash i ≠ emptySlot →
      c.treeHeight < i ∧ (i = slot ∧ st'.stash i = bid ∨ st'.stash i = st.stash i) := by
    intro i _ hfull
    rw [hrew.stash] at hfull ⊢
    split at hfull
    · exact absurd rfl hfull
    · rename_i hgt
      rw [if_neg hgt]
      refine ⟨by omega, ?_⟩
      rcases hrel.upper (i := i) (by omega) with hsame | ⟨heq, _⟩
      · exact .inr (by rw [hsame, loadedStash, if_neg hgt])
      · exact .inl ⟨heq, heq ▸ hrel.slot_home⟩
  intro b hb'
  have hbe := hplaced.ne_emptySlot hb'
  rw [copies_eq_one_iff]
  by_cases hbb : b = bid
  · subst hbb
    by_cases hle : slot ≤ c.treeHeight
    · -- The block went to a node.
      obtain ⟨h₁, h₂⟩ := pathNode_mem hleaf hle
      refine .inl ⟨⟨_, ⟨h₁, h₂⟩, by rw [hrew.onPath slot hle, hrel.slot_home],
        fun m hm hm' hhold => ?_⟩, fun i hi hhold => ?_⟩
      · rcases hnode m hm hm' (by rw [hhold]; exact hbe) with ⟨_, h, _⟩ | ⟨hsame, hne⟩
        · exact h
        · exact absurd (hsame ▸ hhold) hne
      · rcases hupper i hi (by rw [hhold]; exact hbe) with ⟨hgt, ⟨rfl, _⟩ | hsame⟩
        · omega
        · exact hout i hi (hsame ▸ hhold)
    · -- The block was spilled.
      refine .inr ⟨fun n hn hn' hhold => ?_, slot, hslot,
        by rw [hrew.stash, if_neg hle, hrel.slot_home], fun j hj hhold => ?_⟩
      · rcases hnode n hn hn' (by rw [hhold]; exact hbe) with ⟨h, _⟩ | ⟨hsame, hne⟩
        · exact hle h
        · exact hne (hsame ▸ hhold)
      · rcases hupper j hj (by rw [hhold]; exact hbe) with ⟨_, ⟨h, _⟩ | hsame⟩
        · exact h
        · exact absurd (hsame ▸ hhold) (hout j hj)
  · obtain ⟨hkeepStash, hkeepNode⟩ := Placed.kept hrel hrew hbb hbe
    have hbackNode : ∀ n, 1 ≤ n → n ≤ c.treeNodes → st'.blockAt n = b → st.blockAt n = b := by
      intro n hn hn' hhold
      rcases hnode n hn hn' (by rw [hhold]; exact hbe) with ⟨_, _, h⟩ | ⟨hsame, _⟩
      · exact absurd (hhold.symm.trans h) hbb
      · rw [← hsame, hhold]
    have hbackSlot : ∀ i < c.stashsz, st'.stash i = b → st.stash i = b := by
      intro i hi hhold
      rcases hupper i hi (by rw [hhold]; exact hbe) with ⟨_, ⟨_, h⟩ | hsame⟩
      · exact absurd (hhold.symm.trans h) hbb
      · rw [← hsame, hhold]
    rcases (copies_eq_one_iff b).mp (hsingle b hb') with
      ⟨⟨n, hn, hhold, honly⟩, hnone⟩ | ⟨hnone, i, hi, hhold, honly⟩
    · exact .inl ⟨⟨n, hn, hkeepNode n hhold, fun m hm hm' h =>
        honly m hm hm' (hbackNode m hm hm' h)⟩, fun j hj h => hnone j hj (hbackSlot j hj h)⟩
    · refine .inr ⟨fun n hn hn' h => hnone n hn hn' (hbackNode n hn hn' h), i, hi,
        hkeepStash i ?_ hhold, fun j hj h => honly j hj (hbackSlot j hj h)⟩
      by_contra hlow
      exact hbe (hhold.symm.trans (hplaced.lowerEmpty i (by omega)))

/-- A write-back that brings a spilled block back leaves a second copy. -/
theorem BringsBack.not_singleCopy (hplaced : Placed c st)
    (hint : c.treeHeight ≤ 30) (hstash : c.treeHeight + 2 ≤ c.stashsz)
    (hb : c.getBlockId addr < c.treeLeaves)
    (hback : BringsBack c st (c.getBlockId addr) (draw % c.treeLeaves + c.treeLeaves))
    (hacc : access c addr bytes store draw st = some st') : ¬ SingleCopy c st' := by
  obtain ⟨final, taken, shared, slot, hrel, hrew⟩ :=
    hplaced.miss_cases hint hstash hb hback.1 hacc
  have hmiss := hback.1
  generalize draw % c.treeLeaves + c.treeLeaves = newLeaf at *
  generalize c.getBlockId addr = bid at *
  obtain ⟨i, hi, s, hs, hs', hfull, heq⟩ := hrel.brings_of_bringsBack hplaced hb hback
  have hne : st.stash s ≠ bid := fun hhold => by
    rw [(blockIsInStash_iff bid).mpr ⟨s, hs', hhold⟩] at hmiss
    cases hmiss
  obtain ⟨hkeepStash, _⟩ := Placed.kept hrel hrew hne hfull
  obtain ⟨h₁, h₂⟩ := pathNode_mem (i := i) (hplaced.leaf bid hb) (by omega)
  have hcopy : st'.blockAt (pathNode c.treeHeight (st.leafOf bid) i) = st.stash s := by
    rw [hrew.onPath i (by omega), heq]
  intro hsingle
  rcases (copies_eq_one_iff _).mp (hsingle (st.stash s)
      ((hplaced.spilled s hs hs').resolve_left hfull)) with ⟨_, hnone⟩ | ⟨hnone, _⟩
  · exact hnone s hs' (hkeepStash s hs rfl)
  · exact hnone _ h₁ h₂ hcopy

/-- One access keeps the law exactly when it brings no spilled block back. -/
theorem SingleCopy.access_iff (hsingle : SingleCopy c st) (hplaced : Placed c st)
    (hint : c.treeHeight ≤ 30) (hstash : c.treeHeight + 2 ≤ c.stashsz)
    (hb : c.getBlockId addr < c.treeLeaves)
    (hacc : access c addr bytes store draw st = some st') :
    SingleCopy c st' ↔
      ¬ BringsBack c st (c.getBlockId addr) (draw % c.treeLeaves + c.treeLeaves) := by
  refine ⟨fun hsingle' hback => hback.not_singleCopy hplaced hint hstash hb hacc hsingle',
    fun hquiet => ?_⟩
  rcases access_cases hacc with ⟨_, rfl⟩ | ⟨hmiss, _⟩
  · exact hsingle
  · exact hsingle.miss hplaced hint hstash hb hmiss hquiet hacc

end Step

theorem singleCopy_init (hint : c.treeHeight ≤ 30) (raw : Nat → Nat) :
    SingleCopy c (init c raw) := by
  intro b hb
  have hlt := c.treeLeaves_lt_emptySlot hint
  have hnodes : c.treeNodes + 1 = c.treeLeaves * 2 := by
    have : 0 < 2 ^ (c.treeHeight + 1) := by positivity
    simp only [Config.treeNodes, Config.treeLeaves, pow_succ] at this ⊢
    omega
  have hblock : ∀ n, 1 ≤ n → n ≤ c.treeNodes → (init c raw).blockAt n =
      if n < c.treeLeaves then emptySlot else n - c.treeLeaves := by
    intro n hn hn'
    by_cases h : n < c.treeLeaves
    · simp [init, State.blockAt, StdMap.read, h, hn]
    · simp [init, State.blockAt, StdMap.read, h, hn', Nat.not_lt.mp h]
  refine (copies_eq_one_iff b).mpr (.inl ⟨⟨b + c.treeLeaves, ⟨by omega, by omega⟩, ?_,
    fun m hm hm' hhold => ?_⟩, fun i hi hhold => ?_⟩)
  · rw [hblock _ (by omega) (by omega), if_neg (by omega), Nat.add_sub_cancel]
  · rw [hblock m hm hm'] at hhold
    split at hhold <;> omega
  · simp only [init, hi, if_true] at hhold
    omega

theorem Reachable.singleCopy
    (hreach : Reachable c (fun st bid newLeaf => ¬ BringsBack c st bid newLeaf) st)
    (hint : c.treeHeight ≤ 30) (hstash : c.treeHeight + 2 ≤ c.stashsz) : SingleCopy c st := by
  induction hreach with
  | init raw => exact singleCopy_init hint raw
  | access addr bytes store draw prior hb hquiet hacc ih =>
      exact (ih.access_iff (prior.placed hint hstash) hint hstash hb hacc).mpr hquiet

/-- **Single copy.** In every run whose accesses bring no spilled block back,
every block is stored exactly once after every access; and the first access
that does bring one back breaks the law. -/
theorem reachable_singleCopy (hstash : c.treeHeight + 2 ≤ c.stashsz)
    (hint : c.treeHeight ≤ 30)
    (hreach : Reachable c (fun st bid newLeaf => ¬ BringsBack c st bid newLeaf) st) :
    SingleCopy c st ∧
    ∀ (addr bytes : Nat) (store : Bool) (draw : Nat) (st' : State),
      c.getBlockId addr < c.treeLeaves → access c addr bytes store draw st = some st' →
        (SingleCopy c st' ↔
          ¬ BringsBack c st (c.getBlockId addr) (draw % c.treeLeaves + c.treeLeaves)) := by
  have hsingle := hreach.singleCopy hint hstash
  exact ⟨hsingle, fun _ _ _ _ _ hb hacc =>
    hsingle.access_iff (hreach.placed hint hstash) hint hstash hb hacc⟩

/-- The law holds at the start, and after one access that finds nothing spilled. -/
theorem singleCopy_after_one_access :
    ∃ st, access smallConfig (0x80000000 + 3 * 2 ^ 18) 64 false 1 (init smallConfig fun _ => 0) =
      some st ∧ SingleCopy smallConfig st := by
  obtain ⟨st, hst⟩ := Option.isSome_iff_exists.mp (show (access smallConfig
    (0x80000000 + 3 * 2 ^ 18) 64 false 1 (init smallConfig fun _ => 0)).isSome by decide +kernel)
  refine ⟨st, hst, ((reachable_singleCopy (by decide +kernel) (by decide +kernel)
    (.init fun _ => 0)).2 _ _ _ _ st (by decide +kernel) hst).mpr ?_⟩
  -- Nothing has been spilled, and the empty mark has no leaf.
  rintro ⟨_, ⟨s, _, hs, hleaf⟩, _⟩
  have hempty : (init smallConfig fun _ => 0).stash s = emptySlot := if_pos hs
  rw [hempty] at hleaf
  revert hleaf
  decide +kernel

/-- Block 0 moves to the root, block 1 finds the root taken and spills with the
new leaf 6, and the access to block 2 at leaf 6 copies block 1 to the tree while
the stash keeps it. -/
theorem singleCopy_fails_after_spill :
    smallConfig.treeHeight + 2 ≤ smallConfig.stashsz ∧
      ∃ st, Reachable smallConfig (fun _ _ _ => True) st ∧ ¬ SingleCopy smallConfig st := by
  refine ⟨by decide +kernel, ?_⟩
  obtain ⟨st₃, hrun, hval⟩ := Option.map_eq_some_iff.mp (show
    (((access smallConfig 0x80000000 64 false 3 (init smallConfig fun _ => 0)).bind
      (access smallConfig (0x80000000 + 2 ^ 18) 64 false 2)).bind
      (access smallConfig (0x80000000 + 2 * 2 ^ 18) 64 false 2)).map
        (fun st => copies smallConfig st 1) = some 2 by decide +kernel)
  obtain ⟨st₂, hprior, h₃⟩ := Option.bind_eq_some_iff.mp hrun
  obtain ⟨st₁, h₁, h₂⟩ := Option.bind_eq_some_iff.mp hprior
  have hreach₁ : Reachable smallConfig (fun _ _ _ => True) st₁ :=
    .access _ _ _ _ (.init _) (by decide +kernel) trivial h₁
  have hreach₂ : Reachable smallConfig (fun _ _ _ => True) st₂ :=
    .access _ _ _ _ hreach₁ (by decide +kernel) trivial h₂
  refine ⟨st₃, .access _ _ _ _ hreach₂ (by decide +kernel) trivial h₃, fun hsingle => ?_⟩
  have := hsingle 1 (by decide +kernel)
  omega

end SpikeSim.Oram
