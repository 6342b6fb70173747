import Kaya.Const

namespace Kaya

abbrev KSEGSIZE : Nat := 64
abbrev KUSEGSIZE : Nat := 32
def PTEMAGICNO : Word := 0x2A

def INTCAUSEMASK : Word := 0x7C
def TLBL : Word := 2
def TLBS : Word := 3

/-! entryHI -/

def GET_SEG : Word := 0xC0000000
def GET_VPN : Word := 0x3FFFF000
def GET_ASID : Word := 0x00000FC0

/-! entryLO: `nVALID`, meant as the mask of all other bits, is zero. -/

def GLOBAL : Word := 1 <<< 8
def VALID : Word := 1 <<< 9
def DIRTY : Word := 1 <<< 10
def nVALID : Word := 0 <<< 9

def SEG2 : Word := 0x80000000
def SEG3 : Word := 0xC0000000
def OSCODEEND : Word := 0x20000000 + 30 * 4096

/-! Commands and states of devices -/

def DISK_SEEKCYL : Word := 2
def DISK_READBLK : Word := 3
def DISK_WRITEBLK : Word := 4
def TAPE_EOB : Word := 2
def PRINTCHAR : Word := 2
def TRANSCHAR : Word := 2
def RECVCHAR : Word := 2
def TRANSMITCHAR : Word := 5
def DISK0 : Word := 0
def PRINTDEV : Word := 24
def TERM0DEV : Word := 32
def TERMREADSEM : Word := 32
def TERMSEMSTART : Word := 40
def READTERM : Word := 1
def WRITETERM : Word := 0

/-! System calls that phase 3 serves -/

def READTERMINAL : Word := 9
def WRITETERMINAL : Word := 10
def VSEMVIRT : Word := 11
def PSEMVIRT : Word := 12
def DELAY : Word := 13
def DISK_PUT : Word := 14
def DISK_GET : Word := 15
def WRITEPRINTER : Word := 16
def GET_TOD : Word := 17
def TERMINATE : Word := 18

end Kaya
