/-
# The ISA string

`parse_isa_string` sets the width of a hart, its `misa` and whether it has an
extension, or ends the simulator.  Which extensions there are is a parameter: they
come from the registry of the program or from shared libraries.
-/

import SpikeSim.Riscv.Csr
import SpikeSim.Riscv.FieldLaws

namespace SpikeSim.Riscv

/-- What the constructor of a processor takes from the string. -/
structure IsaConfig where
  maxXlen : Xlen
  isa : Reg
  /-- An extension is registered. -/
  ext : Bool
  deriving DecidableEq, Repr

/-- The bit of `misa` for a letter. -/
def isaBit (letter : Char) : Reg := 1 <<< (letter.toNat - 'a'.toNat)

/-- The loop over the letters.  `allSubsets` are the standard letters that may still come;
every turn takes a letter, so the length of the string is enough `fuel`. -/
def parseSubsets (findExtension : List Char → Bool) :
    (fuel : Nat) → (p allSubsets : List Char) → IsaConfig → Option IsaConfig
  | _, [], _, cfg => some cfg
  | 0, _, _, _ => none
  | fuel + 1, letter :: rest, allSubsets, cfg =>
    let cfg := { cfg with isa := cfg.isa ||| isaBit letter }
    match allSubsets.dropWhile (· ≠ letter) with
    | _ :: allSubsets => parseSubsets findExtension fuel rest allSubsets cfg
    | [] =>
      if letter = 'x' then
        let name := rest.takeWhile Char.isLower
        -- An unknown extension ends the program, and so does a second one.
        if findExtension name && !cfg.ext then
          parseSubsets findExtension fuel (rest.dropWhile Char.isLower) allSubsets
            { cfg with ext := true }
        else none
      else none

/-- `supports_extension` of the ISA that was parsed. -/
def IsaConfig.supports (cfg : IsaConfig) (ext : Char) : Bool :=
  (cfg.isa >>> (ext.toNat - 'A'.toNat)) &&& 1 != 0

/-- The width and the letters behind it. -/
def splitWidth (p : List Char) : Xlen × Reg × List Char :=
  if ['r', 'v', '3', '2'].isPrefixOf p then (.rv32, 1 <<< 30, p.drop 4)
  else if ['r', 'v', '6', '4'].isPrefixOf p then (.rv64, 2 <<< 62, p.drop 4)
  else if ['r', 'v'].isPrefixOf p then (.rv64, 2 <<< 62, p.drop 2)
  else (.rv64, 2 <<< 62, p)

/-- The letters to parse, where nothing and `g` are shorthands. -/
def expandSubsets : List Char → Option (List Char)
  | [] => some ['i', 'm', 'a', 'f', 'd', 'c']
  | 'g' :: rest => some (['i', 'm', 'a', 'f', 'd'] ++ rest)
  | 'i' :: rest => some ('i' :: rest)
  | _ => none

/-- `parse_isa_string`; `none` is the end of the simulator. -/
def parseIsaString (findExtension : List Char → Bool) (str : List Char) : Option IsaConfig := do
  let (maxXlen, base, p) := splitWidth (str.map Char.toLower)
  let p ← expandSubsets p
  let modes := isaBit 's' ||| isaBit 'u'
  let cfg ← parseSubsets findExtension p.length p ['i', 'm', 'a', 'f', 'd', 'c']
    ⟨maxXlen, base ||| modes, false⟩
  if cfg.supports 'D' && !cfg.supports 'F' then none
  else some { cfg with isa := cfg.isa ||| modes }

/-- The machine that the constructor builds: the processor is reset, and its decoder has
the instructions of the extension. -/
def IsaConfig.machine {β : Type} (cfg : IsaConfig) (halt : Bool) (dram : Reg → BitVec 8)
    (dev : β) : Machine β :=
  let m := Machine.reset cfg.maxXlen cfg.isa halt (Decode.freshDecoder cfg.ext) dram dev
  { m with hart := { m.hart with ext := cfg.ext } }

/-- A string that is accepted has F if it has D. -/
theorem parseIsaString_supports {findExtension : List Char → Bool} {str : List Char}
    {cfg : IsaConfig} (h : parseIsaString findExtension str = some cfg) :
    cfg.isa.getLsbD 3 = true → cfg.isa.getLsbD 5 = true := by
  simp only [parseIsaString, Option.bind_eq_bind, Option.bind_eq_some_iff] at h
  obtain ⟨p, -, parsed, -, h⟩ := h
  split at h
  · cases h
  · rename_i hboth
    cases h
    have hmodes : (isaBit 's' ||| isaBit 'u').getLsbD 3 = false ∧
        (isaBit 's' ||| isaBit 'u').getLsbD 5 = false := by decide
    have hD : parsed.supports 'D' = parsed.isa.getLsbD 3 := shift_and_one_ne_zero ..
    have hF : parsed.supports 'F' = parsed.isa.getLsbD 5 := shift_and_one_ne_zero ..
    rw [hD, hF] at hboth
    simp only [BitVec.getLsbD_or, hmodes.1, hmodes.2, Bool.or_false]
    revert hboth
    cases parsed.isa.getLsbD 3 <;> cases parsed.isa.getLsbD 5 <;> simp

example : parseIsaString (fun _ => false) ['R', 'V', '3', '2', 'I', 'M', 'C'] =
    some ⟨.rv32, 0x40141104, false⟩ := by decide +kernel

end SpikeSim.Riscv
