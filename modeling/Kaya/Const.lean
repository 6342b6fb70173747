import Mathlib.Algebra.Group.Int.Defs
import Mathlib.Algebra.Group.Nat.Defs
import Mathlib.Order.Lattice
import Mathlib.Tactic.Common

namespace Kaya

/-- A machine word: an address, a register or a C `int`. -/
abbrev Word : Type := BitVec 32

/-- Addresses compare as unsigned numbers. -/
instance : LinearOrder Word where
  le_refl x := BitVec.le_refl x
  le_trans _ _ _ := BitVec.le_trans
  le_antisymm x y hxy hyx := by
    have h : x.toNat = y.toNat := Nat.le_antisymm hxy hyx
    exact BitVec.eq_of_toNat_eq h
  le_total x y := Nat.le_total x.toNat y.toNat
  lt_iff_le_not_ge x y := @Nat.lt_iff_le_and_not_ge x.toNat y.toNat
  toDecidableLE := inferInstance
  toDecidableEq := inferInstance
  toDecidableLT := inferInstance

abbrev MAXPROC : Nat := 20
abbrev STATEREGNUM : Nat := 31
abbrev TOTALSEM : Nat := 49
abbrev DEVPERINT : Nat := 8
abbrev DEVNOSEM : Nat := 3
abbrev PAGESIZE : Nat := 4096
abbrev QUANTUM : Int := 5000
abbrev INTTIME : Int := 100000

def NULL : Word := 0xFFFFFFFF
def MAXINT : Word := 0xEFFFFFFF
def SUCCESS : Word := 0
def FAILURE : Word := -1

/-! Exception codes, status bits and interrupt lines of the cause register -/

def RI : Word := 10
def ALLOFF : Word := 0x00000000
def LTON : Word := 0x08000000
def IMON : Word := 0x0000FF00
def KUON : Word := 0x00000008
def IEON : Word := 0x00000004

def LINEZERO : Word := 0x00000100
def LINEONE : Word := 0x00000200
def LINETWO : Word := 0x00000400
def LINETHREE : Word := 0x00000800
def LINEFOUR : Word := 0x00001000
def LINEFIVE : Word := 0x00002000
def LINESIX : Word := 0x00004000
def LINESEVEN : Word := 0x00008000

abbrev DISKINT : Nat := 3
abbrev TAPEINT : Nat := 4
abbrev NETWINT : Nat := 5
abbrev PRNTINT : Nat := 6
abbrev TERMINT : Nat := 7

def DEVICEZERO : Word := 0x00000001
def UNINSTALLED : Word := 0
def READY : Word := 1
def BUSY : Word := 3
def ACK : Word := 1

/-! System call numbers -/

abbrev CREATE_PROCESS : Int := 1
abbrev TERMINATE_PROCESS : Int := 2
abbrev VERHOGEN : Int := 3
abbrev PASSEREN : Int := 4
abbrev SESV : Int := 5
abbrev GETTIME : Int := 6
abbrev WAITCLOCK : Int := 7
abbrev WAITIO : Int := 8

end Kaya
