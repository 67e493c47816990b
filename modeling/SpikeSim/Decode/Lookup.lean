/-
# The instruction decoder

A shallow embedding of `processor_t::decode_insn` and of the code that builds
its table.  The decoder is a linear search for the first matching entry of a
sorted vector, sped up by a direct-mapped cache and by moving the entry that was
found to the front of the vector.

The vector is a list; the search carries the entries it has passed, nearest
first, so that the neighbours `p-1` and `p+1` of the source are the heads of two
lists.  Running off the end of the vector is the result `none`.
-/

import SpikeSim.Decode.Encoding
import SpikeSim.Lib.PriorityList

namespace SpikeSim.Decode

/-- `insn_func_t`: the handlers that a table entry may name. -/
inductive InsnFunc
  | rv32 (name : InsnName)
  | rv64 (name : InsnName)
  | custom (n : Fin 4)
  | illegalInstruction
  deriving DecidableEq, Repr

/-- `insn_desc_t`. -/
structure InsnDesc where
  matchBits : InsnBits
  mask : InsnBits
  rv32 : InsnFunc
  rv64 : InsnFunc
  deriving DecidableEq, Repr

namespace InsnDesc

def accepts (desc : InsnDesc) (bits : InsnBits) : Bool := bits &&& desc.mask == desc.matchBits

def handler (desc : InsnDesc) : Xlen → InsnFunc
  | .rv64 => desc.rv64
  | .rv32 => desc.rv32

/-- `cmp` of `build_opcode_map`. -/
def cmp (lhs rhs : InsnDesc) : Bool :=
  if lhs.matchBits = rhs.matchBits then rhs.mask < lhs.mask else rhs.matchBits < lhs.matchBits

end InsnDesc

/-- The entry that accepts every word. -/
def catchAll : InsnDesc := ⟨0, 0, .illegalInstruction, .illegalInstruction⟩

def opcodeCacheSize : Nat := 8191

/-- The decoder's part of `processor_t`. -/
structure Decoder where
  instructions : List InsnDesc
  opcodeCache : Fin opcodeCacheSize → InsnDesc

/-- `std::sort` of the vector.  The encodings are distinct, so that the order is
the only sorted one. -/
def sortInsns (insns : List InsnDesc) : List InsnDesc :=
  insns.insertionSort fun lhs rhs => ¬ rhs.cmp lhs

def buildOpcodeMap (insns : List InsnDesc) : Decoder where
  instructions := sortInsns insns
  opcodeCache := fun _ => catchAll

def baseInsns : List InsnDesc :=
  riscvInsnList.map (fun name => ⟨name.encoding.1, name.encoding.2, .rv32 name, .rv64 name⟩) ++
    [catchAll]

def registerBaseInstructions : Decoder := buildOpcodeMap baseInsns

/-- `rocc_t::get_instructions`. -/
def roccInsns : List InsnDesc :=
  [⟨0x0b, 0x7f, .illegalInstruction, .custom 0⟩, ⟨0x2b, 0x7f, .illegalInstruction, .custom 1⟩,
   ⟨0x5b, 0x7f, .illegalInstruction, .custom 2⟩, ⟨0x7b, 0x7f, .illegalInstruction, .custom 3⟩]

/-- `register_extension`: the entries go behind the table and it is sorted
again. -/
def registerExtension (insns : List InsnDesc) (d : Decoder) : Decoder :=
  buildOpcodeMap (d.instructions ++ insns)

/-- The decoder of a hart, with or without a RoCC extension. -/
def freshDecoder (rocc : Bool) : Decoder :=
  if rocc then registerExtension roccInsns registerBaseInstructions else registerBaseInstructions

/-- The linear search: the entries passed, the entry found and those behind. -/
def search (bits : InsnBits) :
    (passed rest : List InsnDesc) → Option (List InsnDesc × InsnDesc × List InsnDesc)
  | _, [] => none
  | passed, p :: rest =>
    if p.accepts bits then some (passed, p, rest) else search bits (p :: passed) rest

/-- The vector after a search that found `desc`.  An entry goes to the front if
neither neighbour has its match word. -/
def reorder (passed : List InsnDesc) (desc : InsnDesc) (rest : List InsnDesc) :
    Option (List InsnDesc) :=
  match passed with
  | prev :: _ =>
    if desc.mask ≠ 0 ∧ desc.matchBits ≠ prev.matchBits then
      match rest with
      | next :: _ =>
        if desc.matchBits ≠ next.matchBits then some (desc :: (passed.reverse ++ rest))
        else some (passed.reverse ++ desc :: rest)
      | [] => none
    else some (passed.reverse ++ desc :: rest)
  | [] => some (desc :: rest)

def decodeInsn (xlen : Xlen) (bits : InsnBits) (d : Decoder) : Option (InsnFunc × Decoder) :=
  let idx : Fin opcodeCacheSize := ⟨bits.toNat % opcodeCacheSize, Nat.mod_lt _ (by decide)⟩
  let desc := d.opcodeCache idx
  if bits ≠ desc.matchBits then do
    let (passed, desc, rest) ← search bits [] d.instructions
    let instructions ← reorder passed desc rest
    let opcodeCache := Function.update d.opcodeCache idx { desc with matchBits := bits }
    pure (desc.handler xlen, { instructions, opcodeCache })
  else pure (desc.handler xlen, d)

/-- A sequence of calls, with the width that the hart has at each of them. -/
def decodeAll : List (Xlen × InsnBits) → Decoder → Option (List InsnFunc × Decoder)
  | [], d => some ([], d)
  | (xlen, bits) :: calls, d => do
    let (func, d) ← decodeInsn xlen bits d
    let (funcs, d) ← decodeAll calls d
    pure (func :: funcs, d)

end SpikeSim.Decode
