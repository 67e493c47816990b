/-
# The cache simulator

A shallow embedding of `cachesim.cc`.  `cache_sim_t` is set associative and keeps
its tags in an array; the derived `fa_cache_sim_t` is fully associative and keeps
them in a map.  Both share `access`, which reaches the tags through the virtual
methods `check_tag` and `victimize` only, so that here `access` is written over
an arbitrary tag store.

A tag is one 64-bit word: the line number with the flags `VALID` and `DIRTY` in
the two top bits.  The counters are `uint64_t`.  A division by zero or the use of
a null pointer is the result `none`.
-/

import Mathlib

namespace SpikeSim.Cache

/-- `lfsr_t::next`. -/
def lfsrNext (reg : BitVec 32) : BitVec 32 :=
  (reg >>> 1) ^^^ (-(reg &&& 1) &&& 0xd0000001)

def VALID : BitVec 64 := 1#64 <<< 63

def DIRTY : BitVec 64 := 1#64 <<< 62

/-- The parameters of a cache that passed the tests of `init` and the allocation
of its tags. -/
structure Geometry where
  sets : Nat
  ways : Nat
  linesz : Nat
  sets_accepted : sets ≠ 0 ∧ sets &&& (sets - 1) = 0
  linesz_accepted : 8 ≤ linesz ∧ linesz &&& (linesz - 1) = 0
  linesz_lt : linesz < 2 ^ 64
  tags_lt : sets * ways * 8 < 2 ^ 64

namespace Geometry

variable (g : Geometry)

/-- The loop of `init` counts the halvings of `linesz` down to one. -/
def idxShift : Nat := Nat.log2 g.linesz

/-- The line number of an address. -/
def line (addr : BitVec 64) : BitVec 64 := addr >>> g.idxShift

/-- The set of an address. -/
def idx (addr : BitVec 64) : Nat := (g.line addr &&& BitVec.ofNat 64 (g.sets - 1)).toNat

/-- The address of the first byte of the line. -/
def base (addr : BitVec 64) : BitVec 64 := addr &&& ~~~(BitVec.ofNat 64 (g.linesz - 1))

end Geometry

/-- What the subclasses of `cache_sim_t` provide: a store of tags with `check_tag`
and `victimize`.  A pointer that `check_tag` returns names a tag of the store. -/
class TagStore (τ : Type) where
  Ptr : Type
  empty : τ
  checkTag : Geometry → (addr : BitVec 64) → τ → Option Ptr
  /-- `*ptr` -/
  tagAt : Ptr → τ → BitVec 64
  /-- `*ptr |= mask` -/
  orTag : Ptr → (mask : BitVec 64) → τ → τ
  /-- The victim, the LFSR after the choice and the store after the fill. -/
  victimize : Geometry → (addr : BitVec 64) → (lfsr : BitVec 32) → τ →
    Option (BitVec 64 × BitVec 32 × τ)

open TagStore

/-! ## The set-associative store -/

/-- The `tags` array of `cache_sim_t`: the ways of set `i` are at the indices
`i * ways`, `i * ways + 1` and so on. -/
structure TagArray where
  tags : Nat → BitVec 64

namespace TagArray

def checkTag (g : Geometry) (addr : BitVec 64) (store : TagArray) : Option Nat :=
  let tag := g.line addr ||| VALID
  ((List.range g.ways).find? fun i =>
    tag == (store.tags (g.idx addr * g.ways + i) &&& ~~~DIRTY)).map fun i =>
      g.idx addr * g.ways + i

def victimize (g : Geometry) (addr : BitVec 64) (lfsr : BitVec 32) (store : TagArray) :
    Option (BitVec 64 × BitVec 32 × TagArray) :=
  if g.ways = 0 then none
  else
    let lfsr := lfsrNext lfsr
    let way := g.idx addr * g.ways + lfsr.toNat % g.ways
    some (store.tags way, lfsr, ⟨Function.update store.tags way (g.line addr ||| VALID)⟩)

instance : TagStore TagArray where
  Ptr := Nat
  empty := ⟨fun _ => 0⟩
  checkTag := checkTag
  tagAt ptr store := store.tags ptr
  orTag ptr mask store := ⟨Function.update store.tags ptr (store.tags ptr ||| mask)⟩
  victimize := victimize

end TagArray

/-! ## The fully associative store -/

/-- The `tags` map of `fa_cache_sim_t` from line numbers to tags, in the order of
its iterators. -/
structure TagMap where
  tags : List (BitVec 64 × BitVec 64)

namespace TagMap

/-- Assignment through `operator[]`. -/
def assign (key value : BitVec 64) : List (BitVec 64 × BitVec 64) → List (BitVec 64 × BitVec 64)
  | [] => [(key, value)]
  | it :: rest =>
    if key < it.1 then (key, value) :: it :: rest
    else if key = it.1 then (key, value) :: rest
    else it :: assign key value rest

def checkTag (g : Geometry) (addr : BitVec 64) (store : TagMap) : Option (BitVec 64) :=
  (store.tags.find? fun it => it.1 == g.line addr).map Prod.fst

def victimize (g : Geometry) (addr : BitVec 64) (lfsr : BitVec 32) (store : TagMap) :
    Option (BitVec 64 × BitVec 32 × TagMap) :=
  let fill := assign (g.line addr) (g.line addr ||| VALID)
  if store.tags.length = g.ways then
    if g.ways = 0 then none
    else
      let lfsr := lfsrNext lfsr
      let n := lfsr.toNat % g.ways
      store.tags[n]?.map fun it => (it.2, lfsr, ⟨fill (store.tags.eraseIdx n)⟩)
  else some (0, lfsr, ⟨fill store.tags⟩)

/-- The value of a key; a missing key reads as zero. -/
def read (key : BitVec 64) (store : TagMap) : BitVec 64 := (store.tags.lookup key).getD 0

instance : TagStore TagMap where
  Ptr := BitVec 64
  empty := ⟨[]⟩
  checkTag := checkTag
  tagAt := read
  orTag key mask store :=
    ⟨store.tags.map fun it => if it.1 = key then (it.1, it.2 ||| mask) else it⟩
  victimize := victimize

end TagMap

/-- The two classes of caches. -/
inductive Kind
  | setAssociative
  | fullyAssociative
  deriving DecidableEq, Repr

/-- The choice of `construct`. -/
def Kind.construct (g : Geometry) : Kind :=
  if 4 < g.ways ∧ g.sets = 1 then .fullyAssociative else .setAssociative

/-- The tag store of a cache. -/
def Tags : Kind → Type
  | .setAssociative => TagArray
  | .fullyAssociative => TagMap

instance : (kind : Kind) → TagStore (Tags kind)
  | .setAssociative => inferInstanceAs (TagStore TagArray)
  | .fullyAssociative => inferInstanceAs (TagStore TagMap)

/-! ## The access -/

/-- The arguments of a call of `access`. -/
structure Request where
  addr : BitVec 64
  bytes : BitVec 64
  store : Bool
  deriving DecidableEq, Repr

/-- Which of the two back ends is attached. -/
structure Handlers where
  miss : Bool
  oram : Bool

/-- A call of `access` on one of the back ends. -/
inductive Call
  | miss (request : Request)
  | oram (request : Request)
  deriving DecidableEq, Repr

/-- The mutable fields of `cache_sim_t`. -/
structure Sim (τ : Type) where
  lfsr : BitVec 32
  tags : τ
  readAccesses : BitVec 64
  readMisses : BitVec 64
  bytesRead : BitVec 64
  writeAccesses : BitVec 64
  writeMisses : BitVec 64
  bytesWritten : BitVec 64
  writebacks : BitVec 64
  oramAccesses : BitVec 64

variable {τ : Type} [TagStore τ]

namespace Sim

/-- A cache as `init` leaves it. -/
def init : Sim τ := ⟨1, empty, 0, 0, 0, 0, 0, 0, 0, 0⟩

/-- The counters that every access moves. -/
def countAccess (r : Request) (s : Sim τ) : Sim τ :=
  if r.store then
    { s with writeAccesses := s.writeAccesses + 1, bytesWritten := s.bytesWritten + r.bytes }
  else { s with readAccesses := s.readAccesses + 1, bytesRead := s.bytesRead + r.bytes }

def countMiss (r : Request) (s : Sim τ) : Sim τ :=
  if r.store then { s with writeMisses := s.writeMisses + 1 }
  else { s with readMisses := s.readMisses + 1 }

end Sim

/-- The hard-coded range of addresses that go to the ORAM. -/
def inWindow (addr : BitVec 64) : Bool :=
  (0x80000000 : BitVec 64) ≤ addr && addr < (0x80000000 : BitVec 64) + 4194304

variable (g : Geometry) (handlers : Handlers)

/-- The victim of a miss goes back to memory when it is valid and dirty. -/
def writeBack (victim : BitVec 64) (s : Sim τ) : Sim τ × List Call :=
  if victim &&& (VALID ||| DIRTY) = VALID ||| DIRTY then
    let dirtyAddr := (victim &&& ~~~(VALID ||| DIRTY)) <<< g.idxShift
    ({ s with writebacks := s.writebacks + 1 },
      if handlers.miss then [.miss ⟨dirtyAddr, BitVec.ofNat 64 g.linesz, true⟩] else [])
  else (s, [])

/-- The missing line is fetched. -/
def fill (addr : BitVec 64) (s : Sim τ) : Sim τ × List Call :=
  if handlers.miss then (s, [.miss ⟨g.base addr, BitVec.ofNat 64 g.linesz, false⟩])
  else if handlers.oram && inWindow addr then
    ({ s with oramAccesses := s.oramAccesses + 1 },
      [.oram ⟨addr, BitVec.ofNat 64 g.linesz, false⟩])
  else (s, [])

/-- `*check_tag(addr) |= DIRTY`. -/
def markDirty (addr : BitVec 64) (s : Sim τ) : Option (Sim τ) :=
  (checkTag g addr s.tags).map fun ptr => { s with tags := orTag ptr DIRTY s.tags }

/-- `cache_sim_t::access`, with the calls it makes on its back ends. -/
def access (r : Request) (s : Sim τ) : Option (Sim τ × List Call) :=
  let s := s.countAccess r
  match checkTag g r.addr s.tags with
  | some way =>
    some (if r.store then { s with tags := orTag way DIRTY s.tags } else s, [])
  | none =>
    let s := s.countMiss r
    (victimize g r.addr s.lfsr s.tags).bind fun (victim, lfsr, tags) =>
      let (s, evicted) := writeBack g handlers victim { s with lfsr := lfsr, tags := tags }
      let (s, filled) := fill g handlers r.addr s
      (if r.store then markDirty g r.addr s else some s).map fun s => (s, evicted ++ filled)

end SpikeSim.Cache
