/-
# Where the blocks of the ORAM are

The placement invariant of Path-ORAM: every block lies on the path to its leaf
or in the stash.  `Rewritten` says what a stash miss does to the whole state;
the invariant is preserved by it and therefore holds along every run.

A block that has spilled stays in the stash, and a write-back may copy it into
the tree without removing it there.  The invariant hence only promises a single
occurrence in the tree for the blocks that are not in the stash.
-/

import SpikeSim.Oram.Relocation

namespace SpikeSim.Oram

open HeapTree

variable (c : Config)

/-! ## A stash miss -/

/-- The stash while a path is worked on: the path below, the spilled blocks
above. -/
def loadedStash (leaf : Nat) (st : State) (i : Nat) : Nat :=
  if i ≤ c.treeHeight then st.blockAt (pathNode c.treeHeight leaf i) else st.stash i

/-- The effect of a stash miss on the state, given the stash `final` that the
write-back starts from. -/
structure Rewritten (leaf bid newLeaf : Nat) (st st' : State) (final : Nat → Nat) : Prop where
  onPath : ∀ i ≤ c.treeHeight, st'.blockAt (pathNode c.treeHeight leaf i) = final i
  offPath : ∀ node, (∀ i ≤ c.treeHeight, node ≠ pathNode c.treeHeight leaf i) →
    st'.blockAt node = st.blockAt node
  stash : ∀ i, st'.stash i = if i ≤ c.treeHeight then emptySlot else final i
  leafOf : ∀ b, st'.leafOf b = if b = bid then newLeaf else st.leafOf b
  dram : st'.dram = st.dram ++
    ((List.range (c.treeHeight + 1)).map fun k =>
      ⟨false, c.blockIdToAddr (st.blockAt (leaf / 2 ^ k))⟩) ++
    (List.range (c.treeHeight + 1)).map fun k =>
      ⟨true, c.blockIdToAddr (final (c.treeHeight - k))⟩

variable {c} {addr bytes draw : Nat} {store : Bool} {st st' : State}

/-- The two ways in which an access completes. -/
theorem access_cases (hacc : access c addr bytes store draw st = some st') :
    (blockIsInStash c st (c.getBlockId addr) = true ∧
      st' = { st with oramAccesses := st.oramAccesses + 1, stashHit := st.stashHit + 1 }) ∨
    (blockIsInStash c st (c.getBlockId addr) = false ∧
      ∃ loaded, loadPathToStash c (st.leafOf (c.getBlockId addr))
        { st with
          oramAccesses := st.oramAccesses + 1
          stashMiss := st.stashMiss + 1
          positionMap := st.positionMap.insert (c.getBlockId addr)
            (draw % c.treeLeaves + c.treeLeaves) } = some loaded ∧
        stashWriteBack c (st.leafOf (c.getBlockId addr)) (c.getBlockId addr)
          (draw % c.treeLeaves + c.treeLeaves) loaded = some st') := by
  simp only [access] at hacc
  split at hacc
  · have hsame : blockIsInStash c { st with oramAccesses := st.oramAccesses + 1 }
        (c.getBlockId addr) = blockIsInStash c st (c.getBlockId addr) := rfl
    rw [hsame] at hacc
    split at hacc
    · rename_i hhit
      exact .inl ⟨hhit, (Option.some.inj hacc).symm⟩
    · rename_i hmiss
      obtain ⟨loaded, hload, hwrite⟩ := Option.bind_eq_some_iff.mp hacc
      exact .inr ⟨Bool.not_eq_true _ ▸ hmiss, loaded, hload, hwrite⟩
  · cases hacc

/-- `stashsz` is positive as an `int`, so the membership test scans the whole
stash. -/
theorem blockIsInStash_iff (bid : Nat) :
    blockIsInStash c st bid = true ↔ ∃ i < c.stashsz, st.stash i = bid := by
  simp [blockIsInStash, toInt32_of_lt c.stashsz_lt]

/-- A stash miss that completes rewrites one path. -/
theorem rewritten_of_miss (hint : c.treeHeight ≤ 30) (hmiss :
      blockIsInStash c st (c.getBlockId addr) = false)
    (hacc : access c addr bytes store draw st = some st') :
    IsLeafOf c.treeHeight (st.leafOf (c.getBlockId addr)) ∧
    ∃ final positions',
      arrangeStash c (st.leafOf (c.getBlockId addr)) (c.getBlockId addr)
        (draw % c.treeLeaves + c.treeLeaves)
        (loadedStash c (st.leafOf (c.getBlockId addr)) st)
        (st.positionMap.insert (c.getBlockId addr) (draw % c.treeLeaves + c.treeLeaves)) =
          some (final, positions') ∧
      Rewritten c (st.leafOf (c.getBlockId addr)) (c.getBlockId addr)
        (draw % c.treeLeaves + c.treeLeaves) st st' final := by
  rcases access_cases hacc with ⟨hhit, _⟩ | ⟨_, loaded, hload, hwrite⟩
  · rw [hhit] at hmiss
    cases hmiss
  · generalize st.leafOf (c.getBlockId addr) = leaf at *
    generalize c.getBlockId addr = bid at *
    generalize draw % c.treeLeaves + c.treeLeaves = newLeaf at *
    unfold loadPathToStash at hload
    split at hload
    · rename_i hleaf
      rw [Config.isLeaf_iff] at hleaf
      have hlt := node_lt_of_height hint hleaf
      rw [toInt32_of_lt hlt, Option.some.injEq] at hload
      obtain ⟨hstash, hblock, hpos, hdram⟩ := loadPathLoop_spec c c.treeHeight leaf hlt
        { st with
          oramAccesses := st.oramAccesses + 1
          stashMiss := st.stashMiss + 1
          positionMap := st.positionMap.insert bid newLeaf }
      rw [hload] at hstash hblock hpos hdram
      have hloaded : loaded.stash = loadedStash c leaf st := by
        funext i
        rw [hstash i]
        rfl
      obtain ⟨arranged, harr, rfl⟩ := Option.map_eq_some_iff.mp hwrite
      obtain ⟨final, positions'⟩ := arranged
      rw [hloaded, hpos] at harr
      refine ⟨hleaf, final, positions', harr, ?_⟩
      obtain ⟨hpath, hoff, hclear, hpos', hlog⟩ := writeBackLoop_spec c c.treeHeight leaf hleaf
        { loaded with stash := final, positionMap := positions' }
      refine ⟨fun i hi => ?_, fun node hnode => ?_, hclear, fun b => ?_, ?_⟩
      · rw [pathNode, hpath (c.treeHeight - i) (by omega), Nat.sub_sub_self hi]
      · rw [hoff node fun k hk h => ?_]
        · exact hblock node
        · exact hnode (c.treeHeight - k) (by omega) (by rw [pathNode, Nat.sub_sub_self hk, h])
      · rw [State.leafOf, hpos', arrangeStash_positions harr, StdMap.read_insert]
        rfl
      · rw [hlog, hdram]
        rfl
    · cases hload

/-! ## The invariant -/

variable (c)

/-- The inductive invariant of the controller. -/
structure Placed (st : State) : Prop where
  /-- The slots of the path are empty between accesses. -/
  lowerEmpty : ∀ i ≤ c.treeHeight, st.stash i = emptySlot
  /-- Every block is mapped to a leaf, and nothing else is mapped to one. -/
  leaf : ∀ b < c.treeLeaves, IsLeafOf c.treeHeight (st.leafOf b)
  emptyLeaf : st.leafOf emptySlot = 0
  /-- A node holds nothing, or a block whose leaf it leads to. -/
  node : ∀ n, 1 ≤ n → n ≤ c.treeNodes → st.blockAt n ≠ emptySlot →
    st.blockAt n < c.treeLeaves ∧ IsAncestor n (st.leafOf (st.blockAt n))
  /-- No block is lost. -/
  covered : ∀ b < c.treeLeaves,
    (∃ i, c.treeHeight < i ∧ i < c.stashsz ∧ st.stash i = b) ∨
      ∃ n, 1 ≤ n ∧ n ≤ c.treeNodes ∧ st.blockAt n = b
  spilled : ∀ i, c.treeHeight < i → i < c.stashsz →
    st.stash i = emptySlot ∨ st.stash i < c.treeLeaves
  /-- A block that has not spilled has one node. -/
  unique : ∀ b < c.treeLeaves, (∀ i, c.treeHeight < i → i < c.stashsz → st.stash i ≠ b) →
    ∀ n m, 1 ≤ n → n ≤ c.treeNodes → 1 ≤ m → m ≤ c.treeNodes →
      st.blockAt n = b → st.blockAt m = b → n = m

theorem placed_init (hint : c.treeHeight ≤ 30) (hstash : c.treeHeight + 2 ≤ c.stashsz)
    (raw : Nat → Nat) : Placed c (init c raw) := by
  have hlt := c.treeLeaves_lt_emptySlot hint
  have hnodes : c.treeNodes + 1 = c.treeLeaves * 2 := by
    have : 0 < 2 ^ (c.treeHeight + 1) := by positivity
    simp only [Config.treeNodes, Config.treeLeaves, pow_succ] at this ⊢
    omega
  have hleaf : ∀ b < c.treeLeaves, (init c raw).leafOf b = b + c.treeLeaves := by
    intro b hb
    simp [init, State.leafOf, StdMap.read, hb]
  have hblock : ∀ n, 1 ≤ n → n ≤ c.treeNodes → (init c raw).blockAt n =
      if n < c.treeLeaves then emptySlot else n - c.treeLeaves := by
    intro n hn hn'
    by_cases h : n < c.treeLeaves
    · simp [init, State.blockAt, StdMap.read, h, hn]
    · simp [init, State.blockAt, StdMap.read, h, hn', Nat.not_lt.mp h]
  refine ⟨fun i hi => ?_, fun b hb => ?_, ?_, fun n hn hn' hfull => ?_, fun b hb => .inr ?_,
    fun i hi hi' => .inl ?_, fun b hb hspill n m hn hn' hm hm' hnb hmb => ?_⟩
  · simp [init, show i < c.stashsz by omega]
  · rw [hleaf b hb]
    simp only [IsLeafOf, pow_succ]
    simp only [Config.treeLeaves] at hb ⊢
    omega
  · simp [init, State.leafOf, StdMap.read, show ¬ emptySlot < c.treeLeaves by omega]
  · rw [hblock n hn hn'] at hfull ⊢
    by_cases h : n < c.treeLeaves
    · exact absurd (if_pos h) hfull
    · have hlt' : n - c.treeLeaves < c.treeLeaves := by omega
      rw [if_neg h, hleaf _ hlt']
      exact ⟨hlt', 0, by rw [pow_zero, Nat.div_one]; omega⟩
  · refine ⟨b + c.treeLeaves, by omega, by omega, ?_⟩
    rw [hblock _ (by omega) (by omega), if_neg (by omega), Nat.add_sub_cancel]
  · simp [init, hi']
  · rw [hblock n hn hn'] at hnb
    rw [hblock m hm hm'] at hmb
    split at hnb <;> split at hmb <;> omega

variable {c}

/-- The nodes of a path are nodes of the tree. -/
theorem pathNode_mem {leaf i : Nat} (hleaf : IsLeafOf c.treeHeight leaf)
    (hi : i ≤ c.treeHeight) :
    1 ≤ pathNode c.treeHeight leaf i ∧ pathNode c.treeHeight leaf i ≤ c.treeNodes := by
  obtain ⟨hlow, hhigh⟩ := hleaf.pathNode_bounds hi
  have hone : 1 ≤ 2 ^ i := Nat.one_le_two_pow
  have hpow : 2 ^ (i + 1) ≤ 2 ^ (c.treeHeight + 1) :=
    Nat.pow_le_pow_right (by norm_num) (by omega)
  simp only [Config.treeNodes]
  omega

namespace Placed

/-- A block number is never the mark of an empty slot, which has no leaf. -/
theorem ne_emptySlot {bid : Nat} (hplaced : Placed c st) (hb : bid < c.treeLeaves) :
    bid ≠ emptySlot := by
  rintro rfl
  have hleaf := (hplaced.leaf _ hb).1
  rw [hplaced.emptyLeaf] at hleaf
  exact hleaf.not_gt (by positivity)

section Block

variable {bid : Nat} (hplaced : Placed c st) (hb : bid < c.treeLeaves)
  (hmiss : ∀ i < c.stashsz, st.stash i ≠ bid)

include hplaced hb hmiss

/-- A block that is not in the stash lies on the path to its leaf. -/
theorem exists_level :
    ∃ i ≤ c.treeHeight, st.blockAt (pathNode c.treeHeight (st.leafOf bid) i) = bid := by
  rcases hplaced.covered bid hb with ⟨i, _, hi, hhold⟩ | ⟨n, hn, hn', hhold⟩
  · exact absurd hhold (hmiss i hi)
  · obtain ⟨_, hanc⟩ := hplaced.node n hn hn' (by rw [hhold]; exact hplaced.ne_emptySlot hb)
    rw [hhold] at hanc
    obtain ⟨i, hi, rfl⟩ := (hplaced.leaf bid hb).exists_level hn hanc
    exact ⟨i, hi, hhold⟩

/-- Every node that holds such a block is on that path. -/
theorem ne_of_offPath {n : Nat} (hn : 1 ≤ n) (hn' : n ≤ c.treeNodes)
    (hoff : ∀ i ≤ c.treeHeight, n ≠ pathNode c.treeHeight (st.leafOf bid) i) :
    st.blockAt n ≠ bid := by
  intro hhold
  obtain ⟨i, hi, hhere⟩ := hplaced.exists_level hb hmiss
  obtain ⟨hlow, hhigh⟩ := pathNode_mem (hplaced.leaf bid hb) hi
  exact hoff i hi (hplaced.unique bid hb (fun j _ hj => hmiss j hj) n _ hn hn' hlow hhigh
    hhold hhere)

/-- Once the path is loaded, the block sits in one slot. -/
theorem loadedStash_once :
    ∀ i < c.stashsz, ∀ j < c.stashsz, loadedStash c (st.leafOf bid) st i = bid →
      loadedStash c (st.leafOf bid) st j = bid → i = j := by
  have hlow : ∀ i < c.stashsz, loadedStash c (st.leafOf bid) st i = bid →
      i ≤ c.treeHeight ∧ st.blockAt (pathNode c.treeHeight (st.leafOf bid) i) = bid := by
    intro i hi hhold
    unfold loadedStash at hhold
    split at hhold
    · rename_i hle
      exact ⟨hle, hhold⟩
    · exact absurd hhold (hmiss i hi)
  intro i hi j hj hhold hhold'
  obtain ⟨hile, hib⟩ := hlow i hi hhold
  obtain ⟨hjle, hjb⟩ := hlow j hj hhold'
  have hleaf := hplaced.leaf bid hb
  obtain ⟨h₁, h₂⟩ := pathNode_mem hleaf hile
  obtain ⟨h₃, h₄⟩ := pathNode_mem hleaf hjle
  exact hleaf.pathNode_inj hile hjle
    (hplaced.unique bid hb (fun k _ hk => hmiss k hk) _ _ h₁ h₂ h₃ h₄ hib hjb)

end Block

/-- What a completed stash miss does in a state that satisfies the invariant. -/
theorem miss_cases (hplaced : Placed c st) (hint : c.treeHeight ≤ 30)
    (hstash : c.treeHeight + 2 ≤ c.stashsz) (hb : c.getBlockId addr < c.treeLeaves)
    (hmiss : blockIsInStash c st (c.getBlockId addr) = false)
    (hacc : access c addr bytes store draw st = some st') :
    ∃ final taken shared slot,
      Relocated c (st.leafOf (c.getBlockId addr)) (c.getBlockId addr)
        (draw % c.treeLeaves + c.treeLeaves)
        (loadedStash c (st.leafOf (c.getBlockId addr)) st)
        (st.positionMap.insert (c.getBlockId addr) (draw % c.treeLeaves + c.treeLeaves))
        final taken shared slot ∧
      Rewritten c (st.leafOf (c.getBlockId addr)) (c.getBlockId addr)
        (draw % c.treeLeaves + c.treeLeaves) st st' final := by
  have hout : ∀ i < c.stashsz, st.stash i ≠ c.getBlockId addr := by
    intro i hi hhold
    rw [(blockIsInStash_iff _).mpr ⟨i, hi, hhold⟩] at hmiss
    cases hmiss
  have hbid := hplaced.ne_emptySlot hb
  obtain ⟨hleaf, final, positions', harr, hrewritten⟩ := rewritten_of_miss hint hmiss hacc
  obtain ⟨level, hlevel, hhere⟩ := hplaced.exists_level hb hout
  obtain ⟨taken, shared, slot, hrel⟩ := relocated_of_arrangeStash hint hstash hleaf
    (c.isLeafOf_draw draw) hbid ⟨level, hlevel, by rw [loadedStash, if_pos hlevel, hhere]⟩
    (hplaced.loadedStash_once hb hout) harr
  exact ⟨final, taken, shared, slot, hrel, hrewritten⟩

/-- A node that does not receive the requested block either keeps its block or
gets a spilled block of the same leaf. -/
theorem node_cases {bid newLeaf : Nat} {final : Nat → Nat} {taken shared slot : Nat}
    (hplaced : Placed c st) (hstash : c.treeHeight + 2 ≤ c.stashsz)
    (hb : bid < c.treeLeaves) (hout : ∀ i < c.stashsz, st.stash i ≠ bid)
    (hrel : Relocated c (st.leafOf bid) bid newLeaf (loadedStash c (st.leafOf bid) st)
      (st.positionMap.insert bid newLeaf) final taken shared slot)
    (hrew : Rewritten c (st.leafOf bid) bid newLeaf st st' final)
    {n : Nat} (hn : 1 ≤ n) (hn' : n ≤ c.treeNodes) (hfull : st'.blockAt n ≠ emptySlot) :
    (slot ≤ c.treeHeight ∧ n = pathNode c.treeHeight (st.leafOf bid) slot ∧
      st'.blockAt n = bid) ∨
    (st'.blockAt n = st.blockAt n ∧ st.blockAt n ≠ bid) ∨
    ∃ i < c.treeHeight, n = pathNode c.treeHeight (st.leafOf bid) i ∧ i ≠ slot ∧
      Function.update (loadedStash c (st.leafOf bid) st) taken emptySlot i = emptySlot ∧
      ∃ s, c.treeHeight < s ∧ s < c.stashsz ∧ st'.blockAt n = st.stash s ∧
        st.leafOf (st.stash s) = st.leafOf bid := by
  by_cases hpath : ∃ i ≤ c.treeHeight, n = pathNode c.treeHeight (st.leafOf bid) i
  · obtain ⟨i, hi, rfl⟩ := hpath
    have hval := hrew.onPath i hi
    by_cases hslot : i = slot
    · subst hslot
      exact .inl ⟨hi, rfl, by rw [hval, hrel.slot_home]⟩
    · rcases hrel.content hstash (hplaced.loadedStash_once hb hout)
        (by omega) hslot with ⟨hsame, hne⟩ | hempty | ⟨hfree, hlow, s, hs, hs', hspill, hpos⟩
      · rw [loadedStash, if_pos hi] at hsame hne
        exact .inr (.inl ⟨by rw [hval, hsame], hne⟩)
      · exact absurd (hval.trans hempty) hfull
      · rw [loadedStash, if_neg (by omega)] at hspill hpos
        rw [StdMap.read_insert, if_neg (hout s hs')] at hpos
        exact .inr (.inr ⟨i, hlow, rfl, hslot, hfree, s, hs, hs', hval.trans hspill, hpos⟩)
  · push Not at hpath
    exact .inr (.inl ⟨hrew.offPath n hpath, hplaced.ne_of_offPath hb hout hn hn' hpath⟩)

/-- A block other than the requested one keeps its place. -/
theorem kept {bid newLeaf : Nat} {final : Nat → Nat} {taken shared slot : Nat}
    (hrel : Relocated c (st.leafOf bid) bid newLeaf (loadedStash c (st.leafOf bid) st)
      (st.positionMap.insert bid newLeaf) final taken shared slot)
    (hrew : Rewritten c (st.leafOf bid) bid newLeaf st st' final)
    {b : Nat} (hne : b ≠ bid) (hfull : b ≠ emptySlot) :
    (∀ i, c.treeHeight < i → st.stash i = b → st'.stash i = b) ∧
    ∀ n, st.blockAt n = b → st'.blockAt n = b := by
  constructor
  · intro i hi hhold
    have hloaded : loadedStash c (st.leafOf bid) st i = b := by
      rw [loadedStash, if_neg (by omega), hhold]
    rw [hrew.stash, if_neg (by omega), hrel.kept (by rwa [hloaded]) (by rwa [hloaded]), hloaded]
  · intro n hhold
    by_cases hpath : ∃ i ≤ c.treeHeight, n = pathNode c.treeHeight (st.leafOf bid) i
    · obtain ⟨i, hi, rfl⟩ := hpath
      have hloaded : loadedStash c (st.leafOf bid) st i = b := by
        rw [loadedStash, if_pos hi, hhold]
      rw [hrew.onPath i hi, hrel.kept (by rwa [hloaded]) (by rwa [hloaded]), hloaded]
    · push Not at hpath
      rw [hrew.offPath n hpath, hhold]

/-- One stash miss preserves the invariant. -/
theorem miss (hplaced : Placed c st) (hint : c.treeHeight ≤ 30)
    (hstash : c.treeHeight + 2 ≤ c.stashsz) (hb : c.getBlockId addr < c.treeLeaves)
    (hmiss : blockIsInStash c st (c.getBlockId addr) = false)
    (hacc : access c addr bytes store draw st = some st') : Placed c st' := by
  obtain ⟨final, taken, shared, slot, hrel, hrew⟩ :=
    hplaced.miss_cases hint hstash hb hmiss hacc
  have hout : ∀ i < c.stashsz, st.stash i ≠ c.getBlockId addr := by
    intro i hi hhold
    rw [(blockIsInStash_iff _).mpr ⟨i, hi, hhold⟩] at hmiss
    cases hmiss
  have hdraw := c.isLeafOf_draw draw
  generalize draw % c.treeLeaves + c.treeLeaves = newLeaf at *
  generalize c.getBlockId addr = bid at *
  have hleaf := hplaced.leaf bid hb
  have honce := hplaced.loadedStash_once hb hout
  have hbid := hplaced.ne_emptySlot hb
  have hslot := hrel.slot_lt hstash
  have hcases := fun {n} => hplaced.node_cases hstash hb hout hrel hrew (n := n)
  refine ⟨fun i hi => by rw [hrew.stash, if_pos hi], fun b hb' => ?_, ?_, fun n hn hn' hfull => ?_,
    fun b hb' => ?_, fun i hi hi' => ?_, fun b hb' hspill => ?_⟩
  · rw [hrew.leafOf]
    split
    · exact hdraw
    · exact hplaced.leaf b hb'
  · rw [hrew.leafOf, if_neg hbid.symm, hplaced.emptyLeaf]
  · rcases hcases hn hn' hfull with ⟨hle, rfl, hval⟩ | ⟨hsame, hne⟩ |
      ⟨i, hi, rfl, _, _, s, hs, hs', hval, hpos⟩
    · rw [hval, hrew.leafOf, if_pos rfl]
      refine ⟨hb, ?_⟩
      rw [← hrel.sharedPath_of_slot hstash hbid honce hle hrel.slot_home]
      exact isAncestor_pathNode _ _ _
    · rw [hsame] at hfull ⊢
      rw [hrew.leafOf, if_neg hne]
      exact hplaced.node n hn hn' hfull
    · rcases hplaced.spilled s hs hs' with hempty | hrange
      · exact absurd (hval.trans hempty) hfull
      · rw [hval, hrew.leafOf, if_neg (hout s hs'), hpos]
        exact ⟨hrange, isAncestor_pathNode _ _ _⟩
  · by_cases hbb : b = bid
    · subst hbb
      by_cases hle : slot ≤ c.treeHeight
      · obtain ⟨h₁, h₂⟩ := pathNode_mem hleaf hle
        exact .inr ⟨_, h₁, h₂, by rw [hrew.onPath slot hle, hrel.slot_home]⟩
      · exact .inl ⟨slot, by omega, hslot, by rw [hrew.stash, if_neg hle, hrel.slot_home]⟩
    · obtain ⟨hkeepStash, hkeepNode⟩ := kept hrel hrew hbb (hplaced.ne_emptySlot hb')
      rcases hplaced.covered b hb' with ⟨i, hi, hi', hhold⟩ | ⟨n, hn, hn', hhold⟩
      · exact .inl ⟨i, hi, hi', hkeepStash i hi hhold⟩
      · exact .inr ⟨n, hn, hn', hkeepNode n hhold⟩
  · rw [hrew.stash, if_neg (by omega)]
    rcases hrel.upper hi with hsame | ⟨rfl, _⟩
    · rw [hsame, loadedStash, if_neg (by omega)]
      exact hplaced.spilled i hi hi'
    · exact .inr (by rw [hrel.slot_home]; exact hb)
  · by_cases hbb : b = bid
    · -- The block went to the tree, to the node of its slot and to no other.
      subst hbb
      have honly : ∀ n, 1 ≤ n → n ≤ c.treeNodes → st'.blockAt n = b →
          n = pathNode c.treeHeight (st.leafOf b) slot := by
        intro n hn hn' hhold
        rcases hcases hn hn' (by rw [hhold]; exact hbid) with ⟨_, hn'', _⟩ | ⟨hsame, hne⟩ |
          ⟨_, _, _, _, _, s, hs, hs', hval, _⟩
        · exact hn''
        · exact absurd (hsame ▸ hhold) hne
        · exact absurd (hval ▸ hhold) (hout s hs')
      intro n m hn hn' hm hm' hnb hmb
      rw [honly n hn hn' hnb, honly m hm hm' hmb]
    · obtain ⟨hkeepStash, _⟩ := kept hrel hrew hbb (hplaced.ne_emptySlot hb')
      have hspill' : ∀ i, c.treeHeight < i → i < c.stashsz → st.stash i ≠ b :=
        fun i hi hi' hhold => hspill i hi hi' (hkeepStash i hi hhold)
      have hback : ∀ n, 1 ≤ n → n ≤ c.treeNodes → st'.blockAt n = b → st.blockAt n = b := by
        intro n hn hn' hhold
        rcases hcases hn hn' (by rw [hhold]; exact (hplaced.ne_emptySlot hb')) with ⟨_, _, hval⟩ |
          ⟨hsame, _⟩ | ⟨_, _, _, _, _, s, hs, hs', hval, _⟩
        · exact absurd (hhold.symm.trans hval) hbb
        · rw [← hsame, hhold]
        · exact absurd (hval.symm.trans hhold) (hspill' s hs hs')
      intro n m hn hn' hm hm' hnb hmb
      exact hplaced.unique b hb' hspill' n m hn hn' hm hm' (hback n hn hn' hnb)
        (hback m hm hm' hmb)

/-- One completed access preserves the invariant. -/
theorem access (hplaced : Placed c st) (hint : c.treeHeight ≤ 30)
    (hstash : c.treeHeight + 2 ≤ c.stashsz) (hb : c.getBlockId addr < c.treeLeaves)
    (hacc : Oram.access c addr bytes store draw st = some st') : Placed c st' := by
  rcases access_cases hacc with ⟨_, rfl⟩ | ⟨hmiss, _⟩
  · exact ⟨hplaced.lowerEmpty, hplaced.leaf, hplaced.emptyLeaf, hplaced.node, hplaced.covered,
      hplaced.spilled, hplaced.unique⟩
  · exact hplaced.miss hint hstash hb hmiss hacc

end Placed

/-- The invariant holds along every run. -/
theorem Reachable.placed {ok : State → Nat → Nat → Prop} (hreach : Reachable c ok st)
    (hint : c.treeHeight ≤ 30) (hstash : c.treeHeight + 2 ≤ c.stashsz) : Placed c st := by
  induction hreach with
  | init raw => exact placed_init c hint hstash raw
  | access addr bytes store draw _ hb _ hacc ih => exact ih.access hint hstash hb hacc

end SpikeSim.Oram
