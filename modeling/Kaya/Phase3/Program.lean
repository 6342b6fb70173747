import Kaya.Exec.Prog
import Kaya.Phase3.Const
import Kaya.Types

open Exec

namespace Kaya

/-- The sizes that phase 3 is compiled with, the end of the RAM, where `uProcs`
lies and which words are kernel memory, of phase 3 or of the nucleus. -/
structure Setup where
  MAXUSERPROC : Nat
  SWAPSIZE : Nat
  RAMTOP : Word
  uProcs : Word
  vars : Word → Bool
  processes : MAXUSERPROC ≤ MAXPROC
  frames : 0 < SWAPSIZE
  RAMTOP_page : RAMTOP.toNat % PAGESIZE = 0
  /-- The swap pool lies above the code and the buffers of the system. -/
  room : OSCODEEND.toNat + DEVPERINT * PAGESIZE + (SWAPSIZE + 3) * PAGESIZE ≤ RAMTOP.toNat

/-- Two user processes that share one frame. -/
def Setup.small : Setup where
  MAXUSERPROC := 2
  SWAPSIZE := 1
  RAMTOP := 0x20040000
  uProcs := 0x20010000
  vars _ := false
  processes := by decide
  frames := by decide
  RAMTOP_page := by decide
  room := by decide

/-- `&uProcs[ID-1].uProc_semAdd`: 840 bytes of states come before it in a `uProc_t`
of 1108 bytes. -/
def Setup.semAddress (S : Setup) (ID : Word) : Word := S.uProcs + 1108 * (ID - 1) + 840

/-- The semaphores of phase 3. -/
inductive Sem where
  | swap
  | mutexArray (i : Word)
  | masterSem
  /-- `uProcs[ID-1].uProc_semAdd` -/
  | uProc_semAdd (ID : Word)
  deriving DecidableEq

/-- What `sw_pte` points to. -/
inductive PtePtr where
  | null
  /-- `&kuSeg3.pteTable[page]` -/
  | kuSeg3 (page : Word)
  /-- `&uProcs[ID-1].uProc_pte.pteTable[page]` -/
  | uProc_pte (ID page : Word)
  deriving DecidableEq

/-- An entry of the swap pool, `swap_t`. -/
structure Swap where
  sw_asid : Word
  sw_pgNum : Word
  sw_segNum : Word
  sw_pte : PtePtr
  deriving DecidableEq

/-- A command to a device: what is stored to its register with interrupts off,
and the arguments of the SYS8 that waits for it. -/
structure Command where
  /-- The index of the register in `devreg`. -/
  devNum : Word
  d_data0 : Option Word
  command : Word
  /-- The command goes to the transmitter of a terminal. -/
  transm : Bool
  line : Word
  device : Word
  direction : Word

/-- What the code of phase 3 does besides computing. -/
inductive Op where
  /-- SYS4 and SYS3 -/
  | passeren (s : Sem)
  | verhogen (s : Sem)
  /-- SYS2 -/
  | terminateProcess
  | panic
  /-- Loads a word of `uProcs[ID-1].uProc_states[SYSTRAP][OLD]`. -/
  | getOld (ID : Word) (f : Field)
  | setOld (ID : Word) (f : Field) (v : Word)
  /-- Accesses through a pointer that a process has passed. -/
  | loadWord (a : Word)
  | storeWord (a v : Word)
  | loadByte (a : Word)
  | storeByte (a : Word) (v : BitVec 8)
  | STCK
  | getSwap (frame : Nat)
  | setSwap (frame : Nat) (s : Swap)
  | getEntryLO (pte : PtePtr)
  | setEntryLO (pte : PtePtr) (v : Word)
  /-- The static variable of `spinTheBottle`. -/
  | getNext
  | setNext (next : Nat)
  | waitio (c : Command)
  /-- Loads `d_data1` of a device register. -/
  | getData1 (devNum : Word)
  | vInsertBlocked (vSemAdd ID : Word)
  | vRemoveBlocked (vSemAdd : Word)
  | insertDelay (wakeTime ID : Word)
  | headDelayTime
  | removeDelay
  /-- A loop is still running when its step bound is used up. -/
  | spin

/-- What an operation answers. -/
def Op.Answer : Op → Type
  | terminateProcess => Empty
  | panic => Empty
  | spin => Empty
  | getOld _ _ => Word
  | loadWord _ => Word
  | loadByte _ => BitVec 8
  | STCK => Word
  | getSwap _ => Swap
  | getEntryLO _ => Word
  | getNext => Nat
  | waitio _ => Word
  | getData1 _ => Word
  | vInsertBlocked _ _ => Bool
  | vRemoveBlocked _ => Word
  | insertDelay _ _ => Bool
  | headDelayTime => Word
  | removeDelay => Word
  | _ => Unit

/-- The code of phase 3. -/
abbrev Code : Type → Type := Prog Op Op.Answer

namespace Code

abbrev passeren (s : Sem) : Code Unit := Prog.perform (Op.passeren s)
abbrev verhogen (s : Sem) : Code Unit := Prog.perform (Op.verhogen s)
abbrev terminateProcess {α : Type} : Code α := .call Op.terminateProcess Empty.elim
abbrev panic {α : Type} : Code α := .call Op.panic Empty.elim
abbrev spin {α : Type} : Code α := .call Op.spin Empty.elim
abbrev getOld (ID : Word) (f : Field) : Code Word := Prog.perform (Op.getOld ID f)
abbrev setOld (ID : Word) (f : Field) (v : Word) : Code Unit := Prog.perform (Op.setOld ID f v)
abbrev loadWord (a : Word) : Code Word := Prog.perform (Op.loadWord a)
abbrev storeWord (a v : Word) : Code Unit := Prog.perform (Op.storeWord a v)
abbrev loadByte (a : Word) : Code (BitVec 8) := Prog.perform (Op.loadByte a)
abbrev storeByte (a : Word) (v : BitVec 8) : Code Unit := Prog.perform (Op.storeByte a v)
abbrev STCK : Code Word := Prog.perform Op.STCK
abbrev getSwap (frame : Nat) : Code Swap := Prog.perform (Op.getSwap frame)
abbrev setSwap (frame : Nat) (s : Swap) : Code Unit := Prog.perform (Op.setSwap frame s)
abbrev getEntryLO (pte : PtePtr) : Code Word := Prog.perform (Op.getEntryLO pte)
abbrev setEntryLO (pte : PtePtr) (v : Word) : Code Unit := Prog.perform (Op.setEntryLO pte v)
abbrev getNext : Code Nat := Prog.perform Op.getNext
abbrev setNext (next : Nat) : Code Unit := Prog.perform (Op.setNext next)
abbrev waitio (c : Command) : Code Word := Prog.perform (Op.waitio c)
abbrev getData1 (devNum : Word) : Code Word := Prog.perform (Op.getData1 devNum)
abbrev vInsertBlocked (vSemAdd ID : Word) : Code Bool := Prog.perform (Op.vInsertBlocked vSemAdd ID)
abbrev vRemoveBlocked (vSemAdd : Word) : Code Word := Prog.perform (Op.vRemoveBlocked vSemAdd)
abbrev insertDelay (wakeTime ID : Word) : Code Bool := Prog.perform (Op.insertDelay wakeTime ID)
abbrev headDelayTime : Code Word := Prog.perform Op.headDelayTime
abbrev removeDelay : Code Word := Prog.perform Op.removeDelay

end Code

end Kaya
