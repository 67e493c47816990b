/-
# Which addresses the ORAM can serve

The tree is sized by the number of blocks, which is divided by `bucketsz` and
then rounded down to a power of two, while block ids number the cache lines of
memory from its start.  The position map has entries for the blocks that got a
leaf in `init`, and completed accesses neither lose these nor add others.  So an
address passes the assertions of `access` exactly when its line is among the
first `tree_leaves` lines of memory.
-/

import SpikeSim.Cache.Model
import SpikeSim.Oram.Placement

namespace SpikeSim.Oram

open HeapTree

/-- The states after any sequence of completed accesses. -/
inductive Reached (c : Config) : State → Prop
  | init (raw : Nat → Nat) : Reached c (init c raw)
  | access {st st' : State} (addr bytes : Nat) (store : Bool) (draw : Nat)
      (prior : Reached c st) (completes : access c addr bytes store draw st = some st') :
      Reached c st'

/-- The assertions on the block id and on the leaf hold for the address, and the position map
has an entry for its block. -/
structure Servable (c : Config) (st : State) (addr : Nat) : Prop where
  inRange : c.getBlockId addr < c.numOfBlocks
  mapped : (st.positionMap (c.getBlockId addr)).isSome = true
  leaf : c.isLeaf (st.leafOf (c.getBlockId addr)) = true

variable {c : Config} {st st' : State}

/-- What completed accesses preserve: the blocks that `init` gave a leaf are mapped to leaves,
and other blocks are mapped nowhere. -/
structure Mapped (c : Config) (st : State) : Prop where
  entry : ∀ bid < c.treeLeaves,
    (st.positionMap bid).isSome = true ∧ IsLeafOf c.treeHeight (st.leafOf bid)
  noEntry : ∀ bid, c.treeLeaves ≤ bid → st.leafOf bid = 0

theorem mapped_init (raw : Nat → Nat) : Mapped c (init c raw) where
  entry bid hbid := by
    have hnodes : c.treeNodes = 2 * c.treeLeaves - 1 := by
      rw [Config.treeNodes, Config.treeLeaves, pow_succ']
    rw [← Config.isLeaf_iff]
    simp [init, State.leafOf, StdMap.read, hbid, Config.isLeaf]
    omega
  noEntry bid hbid := by
    simp [init, State.leafOf, StdMap.read, Nat.not_lt.mpr hbid]

/-! ## One access -/

theorem loadPathLoop_positionMap (s : Nat) (cur : Int) (st : State) :
    (loadPathLoop c s cur st).positionMap = st.positionMap := by
  induction s generalizing cur st with
  | zero => rfl
  | succ s ih =>
      rw [loadPathLoop, ih]
      rfl

/-- Reading the position map adds keys and removes none. -/
theorem bringEvicted_isSome (leaf count sid : Nat) (stash : Nat → Nat) (positions : StdMap)
    {bid : Nat} (h : (positions bid).isSome = true) :
    ((bringEvicted c leaf count sid (stash, positions)).2 bid).isSome = true := by
  induction count generalizing sid stash positions with
  | zero => exact h
  | succ count ih =>
      rw [bringEvicted]
      apply ih
      rw [StdMap.touch]
      split
      · rfl
      · exact h

theorem arrangeStash_isSome {leaf bid newLeaf : Nat} {stash final : Nat → Nat}
    {positions positions' : StdMap}
    (harr : arrangeStash c leaf bid newLeaf stash positions = some (final, positions'))
    (key : Nat) (h : (positions key).isSome = true) : (positions' key).isSome = true := by
  unfold arrangeStash at harr
  split at harr
  · cases harr
  · simp only [Option.ite_none_left_eq_some, Option.some.injEq, Prod.mk.injEq] at harr
    rw [← harr.2.2]
    exact bringEvicted_isSome _ _ _ _ positions h

namespace Mapped

variable {addr bytes draw : Nat} {store : Bool}

/-- Only blocks that got a leaf in `init` are mapped to a leaf. -/
theorem isLeaf_iff (hmapped : Mapped c st) (bid : Nat) :
    c.isLeaf (st.leafOf bid) = true ↔ bid < c.treeLeaves := by
  constructor
  · intro hleaf
    by_contra hge
    rw [hmapped.noEntry bid (by omega), Config.isLeaf_iff] at hleaf
    have hpos : 0 < 2 ^ c.treeHeight := by positivity
    exact absurd hleaf.1 (by omega)
  · intro hlt
    rw [Config.isLeaf_iff]
    exact (hmapped.entry bid hlt).2

/-- A miss that completes passed the leaf assertion, so its block had a leaf; it has one
afterwards, and nothing else changes in the position map but for keys that were read. -/
theorem miss (hmapped : Mapped c st) {bid newLeaf : Nat} {loaded : State}
    {oramAccesses stashMiss : Nat} (hnew : IsLeafOf c.treeHeight newLeaf)
    (hload : loadPathToStash c (st.leafOf bid)
      { st with
        oramAccesses := oramAccesses
        stashMiss := stashMiss
        positionMap := st.positionMap.insert bid newLeaf } = some loaded)
    (hwrite : stashWriteBack c (st.leafOf bid) bid newLeaf loaded = some st') : Mapped c st' := by
  rw [loadPathToStash] at hload
  split at hload
  next hleaf =>
    have hbid : bid < c.treeLeaves := (hmapped.isLeaf_iff bid).mp hleaf
    rw [Config.isLeaf_iff] at hleaf
    cases hload
    rw [stashWriteBack, Option.map_eq_some_iff] at hwrite
    obtain ⟨⟨final, positions⟩, harrange, rfl⟩ := hwrite
    have hread := arrangeStash_positions harrange
    have hsome := arrangeStash_isSome harrange
    rw [loadPathLoop_positionMap] at hread hsome
    generalize loadPathLoop c c.treeHeight (toInt32 (st.leafOf bid)) _ = loaded at *
    obtain ⟨-, -, -, hpos, -⟩ := writeBackLoop_spec c c.treeHeight (st.leafOf bid) hleaf
      { loaded with stash := final, positionMap := positions }
    have hleafOf (b : Nat) : (writeBackLoop c c.treeHeight (st.leafOf bid)
        { loaded with stash := final, positionMap := positions }).leafOf b =
          if b = bid then newLeaf else st.leafOf b := by
      rw [State.leafOf, hpos, hread, StdMap.read_insert]
      rfl
    constructor
    · intro b hb
      rw [hleafOf, hpos]
      constructor
      · apply hsome b
        change (if b = bid then some newLeaf else st.positionMap b).isSome = true
        split
        · rfl
        · exact (hmapped.entry b hb).1
      · split
        · exact hnew
        · exact (hmapped.entry b hb).2
    · intro b hb
      rw [hleafOf, if_neg (by omega)]
      exact hmapped.noEntry b hb
  next => cases hload

theorem access (hmapped : Mapped c st) (hacc : access c addr bytes store draw st = some st') :
    Mapped c st' := by
  rcases access_cases hacc with ⟨-, rfl⟩ | ⟨-, loaded, hload, hwrite⟩
  · exact ⟨hmapped.entry, hmapped.noEntry⟩
  · exact hmapped.miss (c.isLeafOf_draw draw) hload hwrite

end Mapped

theorem Reached.mapped (hreached : Reached c st) : Mapped c st := by
  induction hreached with
  | init raw => exact mapped_init raw
  | access addr bytes store draw _ completes ih => exact ih.access completes

/-! ## The addresses that can be served -/

/-- The address lies among the first `tree_leaves` lines of memory, and memory holds at least
one bucket. -/
def Config.Covers (c : Config) (addr : Nat) : Prop :=
  c.cachelineSz * c.bucketsz ≤ c.memMb * 2 ^ 20 ∧
    addr < 0x80000000 + 2 ^ Nat.log2 c.numOfBlocks * c.cachelineSz

instance (addr : Nat) : Decidable (c.Covers addr) := inferInstanceAs (Decidable (_ ∧ _))

theorem getBlockId_lt_iff (hline : 0 < c.cachelineSz) {addr n : Nat} (hlow : 0x80000000 ≤ addr)
    (haddr : addr < 2 ^ 64) :
    c.getBlockId addr < n ↔ addr < 0x80000000 + n * c.cachelineSz := by
  have hwrap : (addr + 2 ^ 64 - 0x80000000) % 2 ^ 64 = addr - 0x80000000 := by
    have hsum : addr + 2 ^ 64 - 0x80000000 = (addr - 0x80000000) + 2 ^ 64 := by omega
    rw [hsum, Nat.add_mod_right, Nat.mod_eq_of_lt (by omega)]
  rw [Config.getBlockId, hwrap, Nat.div_lt_iff_lt_mul hline]
  omega

theorem numOfBlocks_pos_iff (hline : 0 < c.cachelineSz) (hbucket : 0 < c.bucketsz) :
    0 < c.numOfBlocks ↔ c.cachelineSz * c.bucketsz ≤ c.memMb * 2 ^ 20 := by
  have hmem : c.memMb * 1024 * 1024 = c.memMb * 2 ^ 20 := by ring
  rw [Config.numOfBlocks, Nat.div_div_eq_div_mul, hmem,
    Nat.div_pos_iff, and_iff_right (Nat.mul_pos hline hbucket)]

/-- **Servable addresses.**  After any sequence of completed accesses, an address of memory
that the cache forwards passes the assertions on its block id and on its leaf, and has its
entry in the position map, exactly when it lies among the first `tree_leaves` lines. -/
theorem servable_iff (hbucket : c.bucketsz.isPowerOfTwo) (hline : c.cachelineSz.isPowerOfTwo)
    (_hmem : 1 ≤ c.memMb) (_hstash : c.treeHeight + 2 ≤ c.stashsz) (hreached : Reached c st)
    (addr : BitVec 64) (hlow : 0x80000000 ≤ addr.toNat)
    (_hhigh : addr.toNat < 0x80000000 + c.memMb * 2 ^ 20) (_hforwarded : Cache.inWindow addr = true) :
    Servable c st addr.toNat ↔ c.Covers addr.toNat := by
  have hmapped := hreached.mapped
  have hline := Nat.pos_of_isPowerOfTwo hline
  have hbucket := Nat.pos_of_isPowerOfTwo hbucket
  rw [Config.Covers, ← numOfBlocks_pos_iff hline hbucket,
    ← getBlockId_lt_iff hline hlow addr.isLt]
  change _ ↔ _ ∧ c.getBlockId addr.toNat < c.treeLeaves
  constructor
  · intro hservable
    exact ⟨Nat.zero_lt_of_lt hservable.inRange, (hmapped.isLeaf_iff _).mp hservable.leaf⟩
  · rintro ⟨hblocks, hlt⟩
    exact ⟨lt_of_lt_of_le hlt (c.treeLeaves_le_numOfBlocks hblocks), (hmapped.entry _ hlt).1,
      (hmapped.isLeaf_iff _).mpr hlt⟩

/-- 4 MiB in buckets of four lines of 64 bytes. -/
def bucketConfig : Config where
  bucketsz := 4
  stashsz := 32
  memMb := 4
  cachelineSz := 64
  stashsz_lt := by norm_num
  memMb_lt := by norm_num
  cachelineSz_lt := by norm_num

/-- The last address of the first MiB is served. -/
theorem first_mebibyte_servable :
    Servable bucketConfig (init bucketConfig fun _ => 0) (0x800fffff : BitVec 64).toNat :=
  (servable_iff ⟨2, rfl⟩ ⟨6, rfl⟩ (by decide) (by decide +kernel) (.init _) 0x800fffff
    (by decide) (by decide) (by decide)).mpr (by decide +kernel)

/-- The next line is forwarded as well, but its block id is not below the number of blocks. -/
theorem second_mebibyte_not_servable :
    bucketConfig.treeHeight + 2 ≤ bucketConfig.stashsz ∧
      Cache.inWindow 0x80100000 = true ∧
      (0x80100000 : BitVec 64).toNat < 0x80000000 + bucketConfig.memMb * 2 ^ 20 ∧
      ¬ bucketConfig.getBlockId (0x80100000 : BitVec 64).toNat < bucketConfig.numOfBlocks ∧
      access bucketConfig (0x80100000 : BitVec 64).toNat 64 false 0
        (init bucketConfig fun _ => 0) = none := by
  refine ⟨by decide +kernel, by decide, by decide, by decide +kernel, ?_⟩
  rw [access]
  exact if_neg (by decide +kernel)

end SpikeSim.Oram
