import BuildYourOwn.Lib.Encoding
import BuildYourOwn.Lib.Tables
import BuildYourOwn.Lib.Utf8

/-!
# ELF64: the constants, the packed fields and the numbers in bytes

Model of `linktest/src/elf/mod.rs`, as far as the writer and the reader use it. Sizes are natural numbers; the fields
of the file are fixed-width.

Results: the halves of `st_info` and of `r_info` are read back (`stBind_stInfo`, `stType_stInfo`, `rSym_rInfo`,
`rType_rInfo`), and so is a number from its bytes (`read16_le16`, `read32_le32`, `read64_le64`).
-/

namespace BuildYourOwn.Link

open Lib

abbrev Bytes := List UInt8

/-- A byte string of a fixed length, a Rust array. -/
abbrev Sized (n : Nat) := {b : Bytes // b.length = n}

/-! ## Constants -/

def elfMagic : Sized 4 := ⟨[0x7f, 0x45, 0x4c, 0x46], rfl⟩
def eiNident : Nat := 16
def elfclass64 : UInt8 := 2
def elfdata2lsb : UInt8 := 1
def evCurrent : UInt8 := 1
def elfosabiSysv : UInt8 := 0

def etRel : UInt16 := 1
def emX86_64 : UInt16 := 62

def ehdrSize : Nat := 64
def phdrSize : Nat := 56
def shdrSize : Nat := 64
def symSize : Nat := 24
def relaSize : Nat := 24
def relSize : Nat := 16

def shtNull : UInt32 := 0
def shtProgbits : UInt32 := 1
def shtSymtab : UInt32 := 2
def shtStrtab : UInt32 := 3
def shtRela : UInt32 := 4
def shtNobits : UInt32 := 8
def shtRel : UInt32 := 9

def shfAlloc : UInt64 := 0x2
def shfWrite : UInt64 := 0x1
def shfExecinstr : UInt64 := 0x4
def shfInfoLink : UInt64 := 0x40

def shnUndef : UInt16 := 0
def shnAbs : UInt16 := 0xfff1
def shnCommon : UInt16 := 0xfff2

def stbLocal : UInt8 := 0
def stbGlobal : UInt8 := 1

def sttNotype : UInt8 := 0
def sttSection : UInt8 := 3

def stvDefault : UInt8 := 0

def rX86_64_64 : UInt32 := 1
def rX86_64_pc32 : UInt32 := 2

/-! ## Packed fields -/

def stInfo (bind stype : UInt8) : UInt8 := (bind <<< 4) ||| (stype &&& 0xf)

def stBind (info : UInt8) : UInt8 := info >>> 4

def stType (info : UInt8) : UInt8 := info &&& 0xf

/-- A symbol index and a relocation type. -/
def rInfo (sym kind : UInt32) : UInt64 := (sym.toUInt64 <<< 32) ||| kind.toUInt64

def rSym (info : UInt64) : UInt32 := (info >>> 32).toUInt32

def rType (info : UInt64) : UInt32 := (info &&& 0xffffffff).toUInt32

variable {bind stype : UInt8}

theorem toNat_stInfo (hbind : bind < 16) (hstype : stype < 16) :
    (stInfo bind stype).toNat = bind.toNat * 2 ^ 4 + stype.toNat := by
  rw [UInt8.lt_iff_toNat_lt] at hbind hstype
  have hlow : (stype &&& 0xf).toNat = stype.toNat := by
    rw [UInt8.toNat_and]
    exact (Nat.and_two_pow_sub_one_eq_mod _ 4).trans (Nat.mod_eq_of_lt hstype)
  have hhigh : (bind <<< 4).toNat = bind.toNat <<< 4 := by
    rw [UInt8.toNat_shiftLeft]
    refine Nat.mod_eq_of_lt ?_
    show bind.toNat <<< 4 < 256
    have hbind : bind.toNat < 16 := hbind
    omega
  unfold stInfo
  rw [UInt8.toNat_or, hlow, hhigh, Nat.or_comm, or_digit (show stype.toNat < 2 ^ 4 from hstype), Nat.add_comm]

theorem stBind_stInfo (hbind : bind < 16) (hstype : stype < 16) : stBind (stInfo bind stype) = bind := by
  have hinfo := toNat_stInfo hbind hstype
  have hstype : stype.toNat < 16 := UInt8.lt_iff_toNat_lt.mp hstype
  apply UInt8.toNat_inj.mp
  unfold stBind
  rw [UInt8.toNat_shiftRight, hinfo]
  show (bind.toNat * 2 ^ 4 + stype.toNat) >>> 4 = bind.toNat
  omega

theorem stType_stInfo (hbind : bind < 16) (hstype : stype < 16) : stType (stInfo bind stype) = stype := by
  have hinfo := toNat_stInfo hbind hstype
  have hstype : stype.toNat < 16 := UInt8.lt_iff_toNat_lt.mp hstype
  apply UInt8.toNat_inj.mp
  unfold stType
  rw [UInt8.toNat_and, hinfo]
  refine (Nat.and_two_pow_sub_one_eq_mod _ 4).trans ?_
  omega

theorem toNat_rInfo (sym kind : UInt32) : (rInfo sym kind).toNat = sym.toNat * 2 ^ 32 + kind.toNat := by
  have hsym := sym.toNat_lt
  have hhigh : (sym.toUInt64 <<< 32).toNat = sym.toNat <<< 32 := by
    rw [UInt64.toNat_shiftLeft, UInt32.toNat_toUInt64]
    refine Nat.mod_eq_of_lt ?_
    show sym.toNat <<< 32 < 2 ^ 64
    omega
  unfold rInfo
  rw [UInt64.toNat_or, hhigh, UInt32.toNat_toUInt64, Nat.or_comm, or_digit kind.toNat_lt, Nat.add_comm]

theorem rSym_rInfo (sym kind : UInt32) : rSym (rInfo sym kind) = sym := by
  have hsym := sym.toNat_lt
  have hkind := kind.toNat_lt
  apply UInt32.toNat_inj.mp
  unfold rSym
  rw [UInt64.toNat_toUInt32, UInt64.toNat_shiftRight, toNat_rInfo]
  show (sym.toNat * 2 ^ 32 + kind.toNat) >>> 32 % 2 ^ 32 = sym.toNat
  omega

theorem rType_rInfo (sym kind : UInt32) : rType (rInfo sym kind) = kind := by
  have hkind := kind.toNat_lt
  apply UInt32.toNat_inj.mp
  unfold rType
  rw [UInt64.toNat_toUInt32, UInt64.toNat_and, toNat_rInfo]
  have hmask : (sym.toNat * 2 ^ 32 + kind.toNat) &&& (2 ^ 32 - 1) = kind.toNat := by
    rw [Nat.and_two_pow_sub_one_eq_mod]
    omega
  show ((sym.toNat * 2 ^ 32 + kind.toNat) &&& (2 ^ 32 - 1)) % 2 ^ 32 = kind.toNat
  rw [hmask]
  exact Nat.mod_eq_of_lt hkind

/-! ## Numbers in bytes -/

/-- `u16::to_le_bytes`. -/
def le16 (v : UInt16) : Bytes := littleEndian 2 v.toNat

/-- `u32::to_le_bytes`. -/
def le32 (v : UInt32) : Bytes := littleEndian 4 v.toNat

/-- `u64::to_le_bytes`. -/
def le64 (v : UInt64) : Bytes := littleEndian 8 v.toNat

@[simp] theorem length_le16 (v : UInt16) : (le16 v).length = 2 := length_littleEndian 2 _

@[simp] theorem length_le32 (v : UInt32) : (le32 v).length = 4 := length_littleEndian 4 _

@[simp] theorem length_le64 (v : UInt64) : (le64 v).length = 8 := length_littleEndian 8 _

theorem read16_le16 (v : UInt16) : UInt16.ofNat (ofLittleEndian (le16 v)) = v := by
  unfold le16
  rw [ofLittleEndian_littleEndian, Nat.mod_eq_of_lt (show v.toNat < 256 ^ 2 from v.toNat_lt), UInt16.ofNat_toNat]

theorem read32_le32 (v : UInt32) : UInt32.ofNat (ofLittleEndian (le32 v)) = v := by
  unfold le32
  rw [ofLittleEndian_littleEndian, Nat.mod_eq_of_lt (show v.toNat < 256 ^ 4 from v.toNat_lt), UInt32.ofNat_toNat]

theorem read64_le64 (v : UInt64) : UInt64.ofNat (ofLittleEndian (le64 v)) = v := by
  unfold le64
  rw [ofLittleEndian_littleEndian, Nat.mod_eq_of_lt (show v.toNat < 256 ^ 8 from v.toNat_lt), UInt64.ofNat_toNat]

end BuildYourOwn.Link
