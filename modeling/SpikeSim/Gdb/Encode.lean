/-
# The instructions that the debug server writes

The debug server has the hart do its work: it writes a few instructions into the debug
RAM and interrupts the hart.  These are the functions with which `gdbserver.cc` encodes
instructions, as 32-bit words.
-/

import SpikeSim.Decode.Encoding

namespace SpikeSim.Gdb

abbrev Word := BitVec 32

/-- The `MATCH_*` word of an instruction. -/
def matchWord (name : InsnName) : Word := name.encoding.1.setWidth 32

def bits (value : Word) (hi lo : Nat) : Word := (value >>> lo) &&& ((1 <<< (hi + 1 - lo)) - 1)

def bit (value : Word) (b : Nat) : Word := (value >>> b) &&& 1

/-- `s0` and `s1`. -/
def s0 : Word := 8
def s1 : Word := 9

def jal (rd imm : Word) : Word :=
  (bit imm 20 <<< 31) ||| (bits imm 10 1 <<< 21) ||| (bit imm 11 <<< 20) |||
    (bits imm 19 12 <<< 12) ||| (rd <<< 7) ||| matchWord .jal

def csrsi (csr imm : Word) : Word := (csr <<< 20) ||| (bits imm 4 0 <<< 15) ||| matchWord .csrrsi

def csrci (csr imm : Word) : Word := (csr <<< 20) ||| (bits imm 4 0 <<< 15) ||| matchWord .csrrci

def csrr (rd csr : Word) : Word := (csr <<< 20) ||| (rd <<< 7) ||| matchWord .csrrs

def csrw (source csr : Word) : Word := (csr <<< 20) ||| (source <<< 15) ||| matchWord .csrrw

def fenceI : Word := matchWord .fenceI

/-- A store. -/
def storeWord (name : InsnName) (src base offset : Word) : Word :=
  (bits offset 11 5 <<< 25) ||| (src <<< 20) ||| (base <<< 15) ||| (bits offset 4 0 <<< 7) |||
    matchWord name

def sb (src base offset : Word) : Word := storeWord .sb src base offset
def sh (src base offset : Word) : Word := storeWord .sh src base offset
def sw (src base offset : Word) : Word := storeWord .sw src base offset
def sd (src base offset : Word) : Word := storeWord .sd (bits src 4 0) base offset
def fsw (src base offset : Word) : Word := storeWord .fsw (bits src 4 0) base offset
def fsd (src base offset : Word) : Word := storeWord .fsd (bits src 4 0) base offset

/-- A load. -/
def loadWord (name : InsnName) (rd base offset : Word) : Word :=
  (bits offset 11 0 <<< 20) ||| (base <<< 15) ||| (bits rd 4 0 <<< 7) ||| matchWord name

def lb (rd base offset : Word) : Word := loadWord .lb rd base offset
def lh (rd base offset : Word) : Word := loadWord .lh rd base offset
def lw (rd base offset : Word) : Word := loadWord .lw rd base offset
def ld (rd base offset : Word) : Word := loadWord .ld rd base offset
def flw (dest base offset : Word) : Word := loadWord .flw dest base offset
def fld (dest base offset : Word) : Word := loadWord .fld dest base offset

/-- An operation with an immediate. -/
def immWord (name : InsnName) (dest src imm : Word) : Word :=
  (bits imm 11 0 <<< 20) ||| (src <<< 15) ||| (dest <<< 7) ||| matchWord name

def addi (dest src imm : Word) : Word := immWord .addi dest src imm
def ori (dest src imm : Word) : Word := immWord .ori dest src imm
def xori (dest src imm : Word) : Word := immWord .xori dest src imm

def srli (dest src shamt : Word) : Word :=
  (bits shamt 4 0 <<< 20) ||| (src <<< 15) ||| (dest <<< 7) ||| matchWord .srli

end SpikeSim.Gdb
