/-
# What the DRAM sees of an ORAM access

The controller computes the address of every transaction from the block that
the tree node holds, not from the node.  A stash miss therefore shows the
contents of the path before and after it, and two misses on one path look the
same exactly when the path holds the same lines in both.
-/

import SpikeSim.Oram.Laws

namespace SpikeSim.Oram

open HeapTree

/-- The transactions issued between two states of a run. -/
def transactions (st st' : State) : List Transaction := st'.dram.drop st.dram.length

variable {c : Config} {addr bytes draw : Nat} {store : Bool} {st st' : State}

/-- The transactions of a stash miss: from the leaf to the root, a load of what
each node held, and then a store of what it holds now. -/
theorem transactions_of_miss (hint : c.treeHeight ≤ 30)
    (hmiss : blockIsInStash c st (c.getBlockId addr) = false)
    (hacc : access c addr bytes store draw st = some st') :
    transactions st st' =
      ((List.range (c.treeHeight + 1)).map fun k =>
        ⟨false, c.blockIdToAddr (st.blockAt (st.leafOf (c.getBlockId addr) / 2 ^ k))⟩) ++
      (List.range (c.treeHeight + 1)).map fun k =>
        ⟨true, c.blockIdToAddr (st'.blockAt (st.leafOf (c.getBlockId addr) / 2 ^ k))⟩ := by
  obtain ⟨_, final, _, _, hrew⟩ := rewritten_of_miss hint hmiss hacc
  rw [transactions, hrew.dram, List.append_assoc, List.drop_left]
  refine congrArg _ (List.map_congr_left fun k hk => ?_)
  -- The `k`-th node from the leaf is the one at level `tree_height - k`.
  have hk : k ≤ c.treeHeight := by
    rw [List.mem_range] at hk
    omega
  rw [← hrew.onPath (c.treeHeight - k) (by omega), pathNode, Nat.sub_sub_self hk]

/-- Two lists of transactions over one range agree when they agree at every
place. -/
theorem map_range_eq_iff {isWrite : Bool} {n : Nat} {f g : Nat → Nat} :
    ((List.range n).map fun k => (⟨isWrite, f k⟩ : Transaction)) =
      (List.range n).map (fun k => ⟨isWrite, g k⟩) ↔ ∀ k < n, f k = g k := by
  simp [List.map_inj_left]

/-- **The DRAM trace of a path.** Two stash misses on one leaf issue
`tree_height + 1` loads and then as many stores each.  Their addresses are those
of the blocks that the nodes of the path hold before and after the access, so
the traces agree exactly when the contents have the same addresses. -/
theorem transactions_eq_iff {c₁ c₂ : Config} {st₁ st₁' st₂ st₂' : State}
    {addr₁ addr₂ bytes₁ bytes₂ draw₁ draw₂ : Nat} {store₁ store₂ : Bool}
    (hint : c₁.treeHeight ≤ 30) (hheight : c₁.treeHeight = c₂.treeHeight)
    (hline : c₁.cachelineSz = c₂.cachelineSz)
    (hmiss₁ : blockIsInStash c₁ st₁ (c₁.getBlockId addr₁) = false)
    (hmiss₂ : blockIsInStash c₂ st₂ (c₂.getBlockId addr₂) = false)
    (hleaf : st₁.leafOf (c₁.getBlockId addr₁) = st₂.leafOf (c₂.getBlockId addr₂))
    (hacc₁ : access c₁ addr₁ bytes₁ store₁ draw₁ st₁ = some st₁')
    (hacc₂ : access c₂ addr₂ bytes₂ store₂ draw₂ st₂ = some st₂') :
    (transactions st₁ st₁' =
      ((List.range (c₁.treeHeight + 1)).map fun k =>
        ⟨false, c₁.blockIdToAddr (st₁.blockAt (st₁.leafOf (c₁.getBlockId addr₁) / 2 ^ k))⟩) ++
      (List.range (c₁.treeHeight + 1)).map fun k =>
        ⟨true, c₁.blockIdToAddr (st₁'.blockAt (st₁.leafOf (c₁.getBlockId addr₁) / 2 ^ k))⟩) ∧
    (transactions st₁ st₁' = transactions st₂ st₂' ↔
      ∀ k ≤ c₁.treeHeight,
        c₁.blockIdToAddr (st₁.blockAt (st₁.leafOf (c₁.getBlockId addr₁) / 2 ^ k)) =
          c₁.blockIdToAddr (st₂.blockAt (st₁.leafOf (c₁.getBlockId addr₁) / 2 ^ k)) ∧
        c₁.blockIdToAddr (st₁'.blockAt (st₁.leafOf (c₁.getBlockId addr₁) / 2 ^ k)) =
          c₁.blockIdToAddr (st₂'.blockAt (st₁.leafOf (c₁.getBlockId addr₁) / 2 ^ k))) := by
  have htrace₁ := transactions_of_miss hint hmiss₁ hacc₁
  have htrace₂ := transactions_of_miss (hheight ▸ hint) hmiss₂ hacc₂
  have haddr : ∀ b, c₂.blockIdToAddr b = c₁.blockIdToAddr b := fun b => by
    rw [Config.blockIdToAddr, Config.blockIdToAddr, hline]
  rw [← hheight, ← hleaf] at htrace₂
  simp only [haddr] at htrace₂
  refine ⟨htrace₁, ?_⟩
  -- The loads of both are equally many, so the two halves are compared separately.
  rw [htrace₁, htrace₂]
  constructor
  · intro heq k hk
    obtain ⟨hload, hstore⟩ := List.append_inj heq (by simp)
    exact ⟨map_range_eq_iff.mp hload k (by omega), map_range_eq_iff.mp hstore k (by omega)⟩
  · intro hsame
    rw [map_range_eq_iff.mpr fun k hk => (hsame k (by omega)).1,
      map_range_eq_iff.mpr fun k hk => (hsame k (by omega)).2]

/-- Two accesses to block 3 of the initial state draw different leaves and are
seen as different stores: block 3 goes back to its leaf in one and to the root
in the other. -/
theorem transactions_differ_by_draw :
    ∃ st₁ st₂,
      access smallConfig (0x80000000 + 3 * 2 ^ 18) 64 false 3 (init smallConfig fun _ => 0) =
        some st₁ ∧
      access smallConfig (0x80000000 + 3 * 2 ^ 18) 64 false 0 (init smallConfig fun _ => 0) =
        some st₂ ∧
      transactions (init smallConfig fun _ => 0) st₁ ≠
        transactions (init smallConfig fun _ => 0) st₂ := by
  obtain ⟨st₁, hst₁, hroot₁⟩ := Option.map_eq_some_iff.mp (show
    (access smallConfig (0x80000000 + 3 * 2 ^ 18) 64 false 3 (init smallConfig fun _ => 0)).map
      (fun st => st.blockAt 1) = some emptySlot by decide +kernel)
  obtain ⟨st₂, hst₂, hroot₂⟩ := Option.map_eq_some_iff.mp (show
    (access smallConfig (0x80000000 + 3 * 2 ^ 18) 64 false 0 (init smallConfig fun _ => 0)).map
      (fun st => st.blockAt 1) = some 3 by decide +kernel)
  refine ⟨st₁, st₂, hst₁, hst₂, fun heq => ?_⟩
  have hiff := (transactions_eq_iff (show smallConfig.treeHeight ≤ 30 by decide +kernel)
    (show smallConfig.treeHeight = smallConfig.treeHeight from rfl) rfl (by decide +kernel)
    (by decide +kernel) rfl hst₁ hst₂).2
  have hroot := (hiff.mp heq 2 (by decide +kernel)).2
  rw [show (init smallConfig fun _ => 0).leafOf
    (smallConfig.getBlockId (0x80000000 + 3 * 2 ^ 18)) / 2 ^ 2 = 1 by decide +kernel,
    hroot₁, hroot₂] at hroot
  exact absurd hroot (by decide +kernel)

/-- Block 3 starts at leaf 7, and block 0 moves to leaf 7 when it is accessed
first.  The access to block 3 at the start loads an empty root; the later access
to block 0 loads the root that holds block 0. -/
theorem transactions_show_contents :
    ∃ st₁ st₁' st₂ st₂',
      Reachable smallConfig (fun _ _ _ => True) st₁ ∧
      Reachable smallConfig (fun _ _ _ => True) st₂ ∧
      blockIsInStash smallConfig st₁ 3 = false ∧ blockIsInStash smallConfig st₂ 0 = false ∧
      st₁.leafOf 3 = st₂.leafOf 0 ∧
      access smallConfig (0x80000000 + 3 * 2 ^ 18) 64 false 0 st₁ = some st₁' ∧
      access smallConfig 0x80000000 64 false 0 st₂ = some st₂' ∧
      transactions st₁ st₁' ≠ transactions st₂ st₂' := by
  obtain ⟨st₁', hst₁', htrace₁⟩ := Option.map_eq_some_iff.mp (show
    (access smallConfig (0x80000000 + 3 * 2 ^ 18) 64 false 0 (init smallConfig fun _ => 0)).map
      (fun st => (transactions (init smallConfig fun _ => 0) st)[2]?) =
        some (some ⟨false, smallConfig.blockIdToAddr emptySlot⟩) by decide +kernel)
  obtain ⟨st₂, hst₂, hmiss, hleaf, hnext⟩ : ∃ st₂,
      access smallConfig 0x80000000 64 false 3 (init smallConfig fun _ => 0) = some st₂ ∧
      blockIsInStash smallConfig st₂ 0 = false ∧ st₂.leafOf 0 = 7 ∧
      (access smallConfig 0x80000000 64 false 0 st₂).map
        (fun st => (transactions st₂ st)[2]?) =
          some (some ⟨false, smallConfig.blockIdToAddr 0⟩) := by
    obtain ⟨st₂, hst₂, hval⟩ := Option.map_eq_some_iff.mp (show
      (access smallConfig 0x80000000 64 false 3 (init smallConfig fun _ => 0)).map
        (fun st₂ => (blockIsInStash smallConfig st₂ 0, st₂.leafOf 0,
          (access smallConfig 0x80000000 64 false 0 st₂).map
            fun st => (transactions st₂ st)[2]?)) =
        some (false, 7, some (some ⟨false, smallConfig.blockIdToAddr 0⟩)) by decide +kernel)
    simp only [Prod.mk.injEq] at hval
    exact ⟨st₂, hst₂, hval⟩
  obtain ⟨st₂', hst₂', htrace₂⟩ := Option.map_eq_some_iff.mp hnext
  refine ⟨_, st₁', st₂, st₂', .init _, .access _ _ _ _ (.init _) (by decide +kernel) trivial hst₂,
    by decide +kernel, hmiss, by rw [hleaf]; decide +kernel, hst₁', hst₂', fun heq => ?_⟩
  rw [heq, htrace₂] at htrace₁
  exact absurd htrace₁ (by decide +kernel)

end SpikeSim.Oram
