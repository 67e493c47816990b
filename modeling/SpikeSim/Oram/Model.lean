/-
# The Path-ORAM controller

A shallow embedding of `oramsim.cc`.  The controller keeps a binary tree of
buckets in heap order, one block id per node, a position map from blocks to
leaves, and a stash.  The slots `0 .. tree_height` of the stash hold the path
that is being worked on; blocks that could not be written back spill to the
slots above.

All quantities of the source are `uint64_t` or `size_t` except the node ids of
`load_path_to_stash` and of the ancestor search, which are `int`; both
conversions are modelled.  A failed `assert` is the result `none`.
-/

import SpikeSim.Lib.HeapTree
import SpikeSim.MemTracer

namespace SpikeSim.Oram

/-- `(uint64_t) -1`, the content of an empty slot or tree node. -/
def emptySlot : Nat := 2 ^ 64 - 1

/-- The conversion of a `uint64_t` to `int`. -/
def toInt32 (n : Nat) : Int := (BitVec.ofNat 32 n).toInt

/-- The conversion of an `int` to the `uint64_t` key of a map. -/
def intKey (i : Int) : Nat := (BitVec.ofInt 64 i).toNat

/-- `std::map<uint64_t, uint64_t>`; a missing key is `none`. -/
abbrev StdMap := Nat → Option Nat

namespace StdMap

/-- The value `operator[]` yields: a missing key reads as zero. -/
def read (m : StdMap) (key : Nat) : Nat := (m key).getD 0

/-- `operator[]` used as an rvalue still inserts the missing key. -/
def touch (m : StdMap) (key : Nat) : StdMap :=
  fun k => if k = key then some (m.read key) else m k

/-- Assignment through `operator[]`. -/
def insert (m : StdMap) (key value : Nat) : StdMap :=
  fun k => if k = key then some value else m k

@[simp]
theorem read_touch (m : StdMap) (key k : Nat) : (m.touch key).read k = m.read k := by
  by_cases h : k = key <;> simp [read, touch, h]

theorem read_insert (m : StdMap) (key value k : Nat) :
    (m.insert key value).read k = if k = key then value else m.read k := by
  by_cases h : k = key <;> simp [read, insert, h]

end StdMap

/-- The constructor arguments.  `construct` parses the three sizes and `main`
parses `mem_mb` with `atoi`, so each of them is below `2 ^ 31`. -/
structure Config where
  bucketsz : Nat
  stashsz : Nat
  memMb : Nat
  cachelineSz : Nat
  stashsz_lt : stashsz < 2 ^ 31
  memMb_lt : memMb < 2 ^ 31
  cachelineSz_lt : cachelineSz < 2 ^ 31

namespace Config

variable (c : Config)

def numOfBlocks : Nat := c.memMb * 1024 * 1024 / c.cachelineSz / c.bucketsz

/-- `log2` of the block count, rounded down. -/
def treeHeight : Nat := Nat.log2 c.numOfBlocks

def treeLeaves : Nat := 2 ^ c.treeHeight

def treeNodes : Nat := 2 ^ (c.treeHeight + 1) - 1

def getBlockId (addr : Nat) : Nat :=
  (addr + 2 ^ 64 - 0x80000000) % 2 ^ 64 / c.cachelineSz

def blockIdToAddr (blockId : Nat) : Nat :=
  (blockId * c.cachelineSz + 0x80000000) % 2 ^ 64

def isLeaf (leaf : Nat) : Bool :=
  c.treeLeaves ≤ leaf && leaf ≤ c.treeNodes

end Config

/-- One call of `addTransaction` on the DRAM model. -/
structure Transaction where
  isWrite : Bool
  addr : Nat
  deriving DecidableEq, Repr

/-- The mutable fields of `oram_sim_t`, and the transactions it has issued. -/
structure State where
  stash : Nat → Nat
  positionMap : StdMap
  oramTree : StdMap
  oramAccesses : Nat
  stashHit : Nat
  stashMiss : Nat
  dram : List Transaction

namespace State

/-- The leaf that `position_map` assigns to a block. -/
def leafOf (st : State) (bid : Nat) : Nat := st.positionMap.read bid

/-- The block that a tree node holds. -/
def blockAt (st : State) (node : Nat) : Nat := st.oramTree.read node

/-- `dram_sim_t::access`: only loads and stores reach the DRAM model. -/
def dramAccess (st : State) (addr _bytes : Nat) (type : AccessType) : State :=
  match type with
  | .load => { st with dram := st.dram ++ [⟨false, addr⟩] }
  | .store => { st with dram := st.dram ++ [⟨true, addr⟩] }
  | .fetch => st

end State

variable (c : Config)

/-- `oram_sim_t::init`: every block starts in the leaf with its own number and
the stash is empty.  `raw` is what the allocation of the stash array contained
beyond its first `stashsz` slots. -/
def init (raw : Nat → Nat) : State where
  stash := fun i => if i < c.stashsz then emptySlot else raw i
  positionMap := fun bid =>
    if bid < c.treeLeaves then some (bid + c.treeLeaves) else none
  oramTree := fun node =>
    if 1 ≤ node ∧ node < c.treeLeaves then some emptySlot
    else if c.treeLeaves ≤ node ∧ node ≤ c.treeNodes then some (node - c.treeLeaves)
    else none
  oramAccesses := 0
  stashHit := 0
  stashMiss := 0
  dram := []

/-- `block_is_in_stash`; its loop bound is the `int` value of `stashsz`. -/
def blockIsInStash (st : State) (blockId : Nat) : Bool :=
  (List.range (toInt32 c.stashsz).toNat).any fun i => st.stash i == blockId

/-! ## Loading a path -/

/-- The loop body of `load_path_to_stash`: node `cur` goes to slot `s`. -/
def loadNode (s : Nat) (cur : Int) (st : State) : State :=
  let block := st.oramTree.read (intKey cur)
  State.dramAccess
    { st with
      stash := Function.update st.stash s block
      oramTree := st.oramTree.touch (intKey cur) }
    (c.blockIdToAddr block) c.cachelineSz .load

def loadPathLoop : Nat → Int → State → State
  | 0, cur, st => loadNode c 0 cur st
  | s + 1, cur, st => loadPathLoop s (cur.tdiv 2) (loadNode c (s + 1) cur st)

def loadPathToStash (leaf : Nat) (st : State) : Option State :=
  if c.isLeaf leaf then some (loadPathLoop c c.treeHeight (toInt32 leaf) st) else none

/-! ## Writing a path back -/

/-- The ancestor search: the height at which the two walks to the root meet. -/
def nearestAncestorHeight : Nat → Int → Int → Option Nat
  | 0, fromNew, fromCur => if fromNew = fromCur then some 0 else none
  | height + 1, fromNew, fromCur =>
    if fromNew = fromCur then some (height + 1)
    else nearestAncestorHeight height (fromNew.tdiv 2) (fromCur.tdiv 2)

/-- Clear the first slot that holds `bid`, starting at slot `sid`. -/
def removeBlock (bid : Nat) : (count sid : Nat) → (Nat → Nat) → Nat → Nat
  | 0, _, stash => stash
  | count + 1, sid, stash =>
    if stash sid = bid then Function.update stash sid emptySlot
    else removeBlock bid count (sid + 1) stash

/-- Put `bid` into the highest empty slot at or below `height`; the flag is
`found`. -/
def placeBlock (bid : Nat) : (height : Nat) → (Nat → Nat) → (Nat → Nat) × Bool
  | 0, stash =>
    if stash 0 = emptySlot then (Function.update stash 0 bid, true) else (stash, false)
  | height + 1, stash =>
    if stash (height + 1) = emptySlot then (Function.update stash (height + 1) bid, true)
    else placeBlock bid height stash

/-- The inner loop that brings one spilled block back: the first empty slot
takes the block.  The source then compares, rather than assigns, the slot the
block came from with `-1`, so that slot keeps its block. -/
def bringBlock (block : Nat) : (count ssid : Nat) → (Nat → Nat) → Nat → Nat
  | 0, _, stash => stash
  | count + 1, ssid, stash =>
    if stash ssid = emptySlot then Function.update stash ssid block
    else bringBlock block count (ssid + 1) stash

/-- The loop over the spilled blocks; reading `position_map` inserts keys. -/
def bringEvicted (leaf : Nat) :
    (count sid : Nat) → (Nat → Nat) × StdMap → (Nat → Nat) × StdMap
  | 0, _, acc => acc
  | count + 1, sid, (stash, positions) =>
    let stash' :=
      if positions.read (stash sid) = leaf then
        bringBlock (stash sid) c.treeHeight 0 stash
      else stash
    bringEvicted leaf count (sid + 1) (stash', positions.touch (stash sid))

/-- Leave `bid` in the stash; the flag is `stash_overflow`. -/
def spillBlock (bid : Nat) : (count sid : Nat) → (Nat → Nat) → (Nat → Nat) × Bool
  | 0, _, stash => (stash, false)
  | count + 1, sid, stash =>
    if stash sid = emptySlot then (Function.update stash sid bid, false)
    else if sid = c.stashsz - 1 then (stash, true)
    else spillBlock bid count (sid + 1) stash

/-- The loop body of the write-back: slot `s` goes to node `cur`. -/
def storeNode (s cur : Nat) (st : State) : State :=
  let block := st.stash s
  let st' := State.dramAccess { st with oramTree := st.oramTree.insert cur block }
    (c.blockIdToAddr block) c.cachelineSz .store
  { st' with stash := Function.update st'.stash s emptySlot }

def writeBackLoop : (s cur : Nat) → State → State
  | 0, cur, st => storeNode c 0 cur st
  | s + 1, cur, st => writeBackLoop s (cur / 2) (storeNode c (s + 1) cur st)

/-- The part of `stash_write_back` that works on the stash alone: find the
nearest common ancestor, take the block out, put it back as deep as its new
leaf allows, bring spilled blocks back and spill the block if it found no
place.  `none` is the stash-overflow assertion; a failed ancestor search, which
would index the stash at `(uint64_t) -1`, is outside every stash. -/
def arrangeStash (leaf bid newLeaf : Nat) (stash : Nat → Nat) (positions : StdMap) :
    Option ((Nat → Nat) × StdMap) :=
  match nearestAncestorHeight c.treeHeight (toInt32 newLeaf) (toInt32 leaf) with
  | none => none
  | some curHeight =>
    let removed := removeBlock bid c.stashsz 0 stash
    let placed := placeBlock bid curHeight removed
    let spilled := c.stashsz - (c.treeHeight + 1)
    let brought := bringEvicted c leaf spilled (c.treeHeight + 1) (placed.1, positions)
    let final :=
      if placed.2 then (brought.1, false)
      else spillBlock c bid spilled (c.treeHeight + 1) brought.1
    if final.2 then none else some (final.1, brought.2)

def stashWriteBack (leaf bid newLeaf : Nat) (st : State) : Option State :=
  (arrangeStash c leaf bid newLeaf st.stash st.positionMap).map fun arranged =>
    writeBackLoop c c.treeHeight leaf
      { st with stash := arranged.1, positionMap := arranged.2 }

/-- `oram_sim_t::access`; `draw` is the value of `rand()`. -/
def access (addr _bytes : Nat) (_store : Bool) (draw : Nat) (st : State) : Option State :=
  let st := { st with oramAccesses := st.oramAccesses + 1 }
  let blockId := c.getBlockId addr
  if blockId < c.numOfBlocks then
    if blockIsInStash c st blockId then
      some { st with stashHit := st.stashHit + 1 }
    else
      let leaf := st.positionMap.read blockId
      let newLeaf := draw % c.treeLeaves + c.treeLeaves
      let st := { st with
        stashMiss := st.stashMiss + 1
        positionMap := st.positionMap.insert blockId newLeaf }
      (loadPathToStash c leaf st).bind (stashWriteBack c leaf blockId newLeaf)
  else none

/-! ## Runs -/

/-- The states reached from `init` by completed accesses to blocks that the
tree has a leaf for.  Every access is required to satisfy `ok` in the state
before it. -/
inductive Reachable (ok : State → (blockId newLeaf : Nat) → Prop) : State → Prop
  | init (raw : Nat → Nat) : Reachable ok (init c raw)
  | access {st st' : State} (addr bytes : Nat) (store : Bool) (draw : Nat)
      (prior : Reachable ok st) (inTree : c.getBlockId addr < c.treeLeaves)
      (met : ok st (c.getBlockId addr) (draw % c.treeLeaves + c.treeLeaves))
      (completes : access c addr bytes store draw st = some st') : Reachable ok st'

end SpikeSim.Oram
